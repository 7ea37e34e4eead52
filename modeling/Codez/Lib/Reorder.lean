import Mathlib

/-!
Numbered items that arrive in any order, some of them more than once.
-/

namespace Reorder

open List

variable {α : Type} {frames frames' : List (Nat × α)} {n k : Nat} {x : α} (size : α → Nat)

theorem exists_missing (frames : List (Nat × α)) : ∃ k, frames.lookup k = none := by
  obtain ⟨k, hk⟩ := Infinite.exists_notMem_finset (frames.map Prod.fst).toFinset
  refine ⟨k, lookup_eq_none_iff.mpr ?_⟩
  intro p hp
  rw [bne_iff_ne]
  rintro rfl
  exact hk (mem_toFinset.mpr (mem_map_of_mem hp))

def expected (frames : List (Nat × α)) : Nat := Nat.find (exists_missing frames)

theorem expected_eq_iff : expected frames = n ↔ frames.lookup n = none ∧ ∀ k < n, frames.lookup k ≠ none :=
  Nat.find_eq_iff _

@[simp] theorem expected_nil : expected ([] : List (Nat × α)) = 0 :=
  expected_eq_iff.mpr ⟨rfl, fun _ hk => absurd hk (Nat.not_lt_zero _)⟩

theorem lookup_expected (frames : List (Nat × α)) : frames.lookup (expected frames) = none :=
  (expected_eq_iff.mp rfl).1

theorem lookup_ne_none_of_lt_expected (h : k < expected frames) : frames.lookup k ≠ none :=
  (expected_eq_iff.mp rfl).2 k h

theorem lookup_snoc (frames : List (Nat × α)) (n : Nat) (x : α) (k : Nat) :
    (frames ++ [(n, x)]).lookup k = (frames.lookup k).or (if k = n then some x else none) := by
  rw [lookup_append]
  congr 1
  by_cases h : k = n
  · simp [h]
  · simp [h, List.lookup, beq_eq_false_iff_ne.mpr h]

theorem lookup_snoc_ne (x : α) (h : k ≠ n) : (frames ++ [(n, x)]).lookup k = frames.lookup k := by
  simp [lookup_snoc, h]

theorem lookup_snoc_self (x : α) (h : frames.lookup n = none) : (frames ++ [(n, x)]).lookup n = some x := by
  simp [lookup_snoc, h]

theorem lookup_snoc_of_ne_none (x : α) (h : frames.lookup n ≠ none) (k : Nat) :
    (frames ++ [(n, x)]).lookup k = frames.lookup k := by
  rw [lookup_snoc]
  by_cases hk : k = n
  · obtain ⟨y, hy⟩ := Option.ne_none_iff_exists'.mp h
    simp [hk, hy]
  · simp [hk]

def upTo (frames : List (Nat × α)) (n : Nat) : List α := (List.range n).filterMap fun k => frames.lookup k

def inOrder (frames : List (Nat × α)) : List α := upTo frames (expected frames)

@[simp] theorem upTo_zero (frames : List (Nat × α)) : upTo frames 0 = [] := rfl

theorem upTo_succ (h : frames.lookup n = some x) : upTo frames (n + 1) = upTo frames n ++ [x] := by
  simp [upTo, range_succ, h]

theorem upTo_congr (h : ∀ k < n, frames.lookup k = frames'.lookup k) : upTo frames n = upTo frames' n :=
  filterMap_congr fun k hk => h k (mem_range.mp hk)

theorem length_upTo (h : ∀ k < n, frames.lookup k ≠ none) : (upTo frames n).length = n := by
  induction n with
  | zero => rfl
  | succ n ih =>
    obtain ⟨x, hx⟩ := Option.ne_none_iff_exists'.mp (h n (Nat.lt_succ_self n))
    rw [upTo_succ hx, length_append, ih fun k hk => h k (Nat.lt_succ_of_lt hk)]
    rfl

theorem length_inOrder (frames : List (Nat × α)) : (inOrder frames).length = expected frames :=
  length_upTo fun _ hk => lookup_ne_none_of_lt_expected hk

theorem lookup_of_getElem?_upTo (h : ∀ k < n, frames.lookup k ≠ none) (hx : (upTo frames n)[k]? = some x) :
    frames.lookup k = some x := by
  induction n with
  | zero => simp at hx
  | succ n ih =>
    have harrived : ∀ k < n, frames.lookup k ≠ none := fun k hk => h k (Nat.lt_succ_of_lt hk)
    obtain ⟨y, hy⟩ := Option.ne_none_iff_exists'.mp (h n (Nat.lt_succ_self n))
    have hlen := length_upTo harrived
    rw [upTo_succ hy] at hx
    by_cases hk : k < n
    · rw [getElem?_append_left (by omega)] at hx
      exact ih harrived hx
    · have hlt := (List.getElem?_eq_some_iff.mp hx).1
      rw [length_append, hlen, length_singleton] at hlt
      obtain rfl : k = n := by omega
      rw [getElem?_append_right (by omega), hlen, Nat.sub_self] at hx
      rw [hy]
      exact hx

theorem lookup_of_getElem?_inOrder (hx : (inOrder frames)[k]? = some x) : frames.lookup k = some x :=
  lookup_of_getElem?_upTo (fun _ hk => lookup_ne_none_of_lt_expected hk) hx

def waitingFrom (size : α → Nat) (frames : List (Nat × α)) (n : Nat) : Nat :=
  ∑ k ∈ (frames.map Prod.fst).toFinset with n ≤ k, ((frames.lookup k).map size).getD 0

def waiting (size : α → Nat) (frames : List (Nat × α)) : Nat := waitingFrom size frames (expected frames)

theorem mem_numbers_iff : k ∈ (frames.map Prod.fst).toFinset ↔ frames.lookup k ≠ none := by
  rw [mem_toFinset, ne_eq, lookup_eq_none_iff]
  simp only [mem_map, bne_iff_ne, not_forall, not_not]
  constructor
  · rintro ⟨p, hp, rfl⟩
    exact ⟨p, hp, rfl⟩
  · rintro ⟨p, hp, hk⟩
    exact ⟨p, hp, hk.symm⟩

theorem waitingFrom_congr (n : Nat) (h : ∀ k, frames.lookup k = frames'.lookup k) :
    waitingFrom size frames n = waitingFrom size frames' n := by
  have hnumbers : (frames.map Prod.fst).toFinset = (frames'.map Prod.fst).toFinset := by
    ext k
    rw [mem_numbers_iff, mem_numbers_iff, h k]
  rw [waitingFrom, waitingFrom, hnumbers]
  exact Finset.sum_congr rfl fun k _ => by rw [h k]

theorem waitingFrom_snoc (x : α) (hk : frames.lookup k = none) (hn : n ≤ k) :
    waitingFrom size (frames ++ [(k, x)]) n = waitingFrom size frames n + size x := by
  have hnotMem : k ∉ (frames.map Prod.fst).toFinset := fun hmem => mem_numbers_iff.mp hmem hk
  have hnumbers : ((frames ++ [(k, x)]).map Prod.fst).toFinset.filter (n ≤ ·) =
      insert k ((frames.map Prod.fst).toFinset.filter (n ≤ ·)) := by
    rw [map_append, toFinset_append, Finset.filter_union, Finset.union_comm]
    simp [Finset.filter_singleton, hn]
  rw [waitingFrom, hnumbers, Finset.sum_insert (by simp_all), lookup_snoc_self x hk, add_comm]
  congr 1
  refine Finset.sum_congr rfl fun j hj => ?_
  have hne : j ≠ k := by
    rintro rfl
    exact hnotMem (Finset.mem_filter.mp hj).1
  rw [lookup_snoc_ne x hne]

theorem waitingFrom_eq_add (h : frames.lookup n = some x) :
    waitingFrom size frames n = waitingFrom size frames (n + 1) + size x := by
  have hmem : n ∈ (frames.map Prod.fst).toFinset := mem_numbers_iff.mpr (by simp [h])
  have hnumbers : (frames.map Prod.fst).toFinset.filter (n ≤ ·) =
      insert n ((frames.map Prod.fst).toFinset.filter (n + 1 ≤ ·)) := by
    ext j
    simp only [Finset.mem_filter, Finset.mem_insert]
    constructor
    · rintro ⟨hj, hle⟩
      rcases Nat.eq_or_lt_of_le hle with heq | hlt
      · exact .inl heq.symm
      · exact .inr ⟨hj, hlt⟩
    · rintro (rfl | ⟨hj, hle⟩)
      · exact ⟨hmem, le_rfl⟩
      · exact ⟨hj, by omega⟩
  rw [waitingFrom, hnumbers, Finset.sum_insert (by simp), h, add_comm]
  rfl

def Numbered (frames : List (Nat × α)) : Prop :=
  ∀ (k : Nat) (p : Nat × α), frames[k]? = some p → p.1 = k

theorem Numbered.append_left (h : Numbered (frames ++ frames')) : Numbered frames := by
  intro k p hk
  apply h
  rw [getElem?_append_left (List.getElem?_eq_some_iff.mp hk).1, hk]

theorem Numbered.lookup (h : Numbered frames) (k : Nat) : frames.lookup k = frames[k]?.map Prod.snd := by
  induction frames using reverseRecOn with
  | nil => rfl
  | append_singleton frames p ih =>
    have hnumber : p.1 = frames.length := h frames.length p (by rw [getElem?_concat_length])
    obtain ⟨n, x⟩ := p
    subst hnumber
    rw [lookup_snoc, ih h.append_left]
    by_cases hk : k < frames.length
    · rw [getElem?_append_left hk, if_neg hk.ne, Option.or_none]
    · rw [getElem?_eq_none (by omega)]
      by_cases heq : k = frames.length
      · rw [if_pos heq, heq, getElem?_concat_length]
        rfl
      · rw [if_neg heq, getElem?_eq_none (by rw [length_append, length_singleton]; omega)]
        rfl

theorem Numbered.expected (h : Numbered frames) : expected frames = frames.length := by
  rw [expected_eq_iff]
  refine ⟨by rw [h.lookup, getElem?_eq_none le_rfl]; rfl, ?_⟩
  intro k hk
  rw [h.lookup, getElem?_eq_getElem hk]
  simp

theorem Numbered.waiting (h : Numbered frames) : waiting size frames = 0 := by
  rw [Reorder.waiting, waitingFrom]
  refine Finset.sum_eq_zero fun k hk => ?_
  rw [h.expected] at hk
  rw [h.lookup, getElem?_eq_none (Finset.mem_filter.mp hk).2]
  rfl

end Reorder
