import Mathlib

/-!
The best `k` items of a list, by a score.

`top score k xs` sorts stably, best first, and takes `k`.
-/

namespace TopScored

open List

variable {α : Type} (score : α → Nat) {xs : List α} {k : Nat} {a b : α}

def sorted (xs : List α) : List α := xs.insertionSort fun a b => score b ≤ score a

def top (k : Nat) (xs : List α) : List α := (sorted score xs).take k

instance isTrans : IsTrans α fun a b => score b ≤ score a := ⟨fun _ _ _ hab hbc => hbc.trans hab⟩

instance total : Std.Total fun a b : α => score b ≤ score a := ⟨fun a b => le_total (score b) (score a)⟩

theorem length_top (k : Nat) (xs : List α) : (top score k xs).length = min k xs.length := by
  rw [top, length_take, sorted, length_insertionSort]

theorem mem_of_mem_top {score : α → Nat} (h : a ∈ top score k xs) : a ∈ xs :=
  (mem_insertionSort _).mp (mem_of_mem_take h)

theorem nodup_top (h : xs.Nodup) (k : Nat) : (top score k xs).Nodup :=
  ((perm_insertionSort _ xs).nodup_iff.mpr h).sublist (take_sublist _ _)

theorem mem_drop_of_not_mem_top {score : α → Nat} (hb : b ∈ xs) (hout : b ∉ top score k xs) :
    b ∈ (sorted score xs).drop k := by
  have hmem : b ∈ (sorted score xs).take k ++ (sorted score xs).drop k := by
    rw [take_append_drop]
    exact (mem_insertionSort _).mpr hb
  exact (mem_append.mp hmem).resolve_left hout

theorem score_le_of_mem_top {score : α → Nat} {k : Nat} {xs : List α} {a b : α} (ha : a ∈ top score k xs) (hb : b ∈ xs)
    (hout : b ∉ top score k xs) : score b ≤ score a := by
  have hsort : ((sorted score xs).take k ++ (sorted score xs).drop k).Pairwise fun a b => score b ≤ score a := by
    rw [take_append_drop]
    exact pairwise_insertionSort _ xs
  exact (pairwise_append.mp hsort).2.2 a ha b (mem_drop_of_not_mem_top hb hout)

theorem pair_sublist_or (ha : a ∈ xs) (hb : b ∈ xs) (hne : a ≠ b) :
    [a, b].Sublist xs ∨ [b, a].Sublist xs := by
  obtain ⟨l, r, rfl⟩ := append_of_mem ha
  rw [mem_append, mem_cons] at hb
  obtain hb | rfl | hb := hb
  · exact .inr ((singleton_sublist.mpr hb).append (singleton_sublist.mpr mem_cons_self))
  · exact absurd rfl hne
  · exact .inl (((singleton_sublist.mpr hb).cons_cons a).trans (sublist_append_right _ _))

theorem not_pair_sublist_symm (hnd : xs.Nodup) (h : [a, b].Sublist xs) : ¬[b, a].Sublist xs := by
  induction xs with
  | nil => cases h
  | cons x xs ih =>
    obtain ⟨hx, hnd⟩ := nodup_cons.mp hnd
    intro h'
    cases h with
    | cons _ h =>
      cases h' with
      | cons _ h' => exact ih hnd h h'
      | cons_cons _ _ => exact hx (h.subset (by simp))
    | cons_cons _ h =>
      cases h' with
      | cons _ h' => exact hx (h'.subset (by simp))
      | cons_cons _ _ => exact hx (h.subset (by simp))

theorem before_of_tie {score : α → Nat} (hnd : xs.Nodup) (ha : a ∈ top score k xs) (hb : b ∈ xs)
    (hout : b ∉ top score k xs) (htie : score b = score a) : [a, b].Sublist xs := by
  have hne : a ≠ b := by
    rintro rfl
    exact hout ha
  refine (pair_sublist_or (mem_of_mem_top ha) hb hne).resolve_right fun hpair => ?_
  -- in the other order they would be sorted in that order, for the sort is stable
  have hstable : [b, a].Sublist (sorted score xs) := pair_sublist_insertionSort htie.ge hpair
  have hspl : [a, b].Sublist (sorted score xs) := by
    rw [← take_append_drop k (sorted score xs)]
    exact (singleton_sublist.mpr ha).append (singleton_sublist.mpr (mem_drop_of_not_mem_top hb hout))
  exact not_pair_sublist_symm ((perm_insertionSort _ xs).nodup_iff.mpr hnd) hspl hstable

end TopScored
