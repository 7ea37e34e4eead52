import Mathlib

/-!
A list cut into pieces of `n` elements, the last one possibly shorter (`slice::chunks`).

The pieces joined are the list; none is longer than `n` and none is empty; there are
`xs.length ⌈/⌉ n` of them.
-/

namespace Chunks

open List

variable {α : Type}

def chunksN (n : Nat) : Nat → List α → List (List α)
  | 0, _ => []
  | _ + 1, [] => []
  | fuel + 1, x :: xs => (x :: xs).take n :: chunksN n fuel ((x :: xs).drop n)

def chunks (n : Nat) (xs : List α) : List (List α) := chunksN n xs.length xs

section
variable {n : Nat} (hn : 0 < n)
include hn

variable (fuel : Nat) (xs : List α)

theorem flatten_chunksN (h : xs.length ≤ fuel) : (chunksN n fuel xs).flatten = xs := by
  induction fuel generalizing xs with
  | zero => rw [length_eq_zero_iff.mp (Nat.le_zero.mp h)]; rfl
  | succ fuel ih =>
    cases xs with
    | nil => rfl
    | cons x xs =>
      rw [chunksN, flatten_cons, ih _ (by simp only [length_drop, length_cons] at *; omega), take_append_drop]

@[simp] theorem flatten_chunks : (chunks n xs).flatten = xs :=
  flatten_chunksN hn _ xs le_rfl

theorem mem_chunksN {c : List α} (h : c ∈ chunksN n fuel xs) : c.length ≤ n ∧ c ≠ [] := by
  induction fuel generalizing xs with
  | zero => simp [chunksN] at h
  | succ fuel ih =>
    cases xs with
    | nil => simp [chunksN] at h
    | cons x xs =>
      rcases mem_cons.mp h with rfl | h
      · refine ⟨length_take_le _ _, ?_⟩
        obtain ⟨m, rfl⟩ := Nat.exists_eq_succ_of_ne_zero hn.ne'
        simp
      · exact ih _ h

theorem length_le_of_mem {xs c : List α} (h : c ∈ chunks n xs) : c.length ≤ n := (mem_chunksN hn _ xs h).1

theorem ne_nil_of_mem {xs c : List α} (h : c ∈ chunks n xs) : c ≠ [] := (mem_chunksN hn _ xs h).2

theorem length_chunksN (h : xs.length ≤ fuel) : (chunksN n fuel xs).length = xs.length ⌈/⌉ n := by
  induction fuel generalizing xs with
  | zero => rw [length_eq_zero_iff.mp (Nat.le_zero.mp h)]; simp [chunksN]
  | succ fuel ih =>
    cases xs with
    | nil => simp [chunksN]
    | cons x xs =>
      have hlen : (x :: xs).length = xs.length + 1 := rfl
      rw [chunksN, length_cons, ih _ (by rw [length_drop]; omega), length_drop, hlen]
      rw [Nat.ceilDiv_eq_add_pred_div, Nat.ceilDiv_eq_add_pred_div]
      by_cases hle : n ≤ xs.length + 1
      · rw [← Nat.add_div_right _ hn]
        congr 1
        omega
      · rw [Nat.div_eq_of_lt (by omega), Nat.div_eq_of_lt_le (k := 1) (by omega) (by omega)]

theorem length_chunks : (chunks n xs).length = xs.length ⌈/⌉ n :=
  length_chunksN hn _ xs le_rfl

end

end Chunks
