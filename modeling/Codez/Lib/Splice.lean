import Mathlib

/-!
Replacing ranges of a list.

An edit `r` replaces the `len r` items from `start r` on by the items `new r`.
-/

namespace Splice

open List

variable {ρ α : Type} (start len : ρ → Nat) (new : ρ → List α) {l : List ρ}

def Before (a b : ρ) : Prop := start a + len a ≤ start b

/-- The ranges have no item in common, and neither edit inserts strictly inside the other's range. -/
def Apart (a b : ρ) : Prop := Before start len a b ∨ Before start len b a

/-- Once sorted, one ends before the other starts; `a` comes first when they start together. -/
def Clear (a b : ρ) : Prop :=
  (start a ≤ start b → Before start len a b) ∧ (start b < start a → Before start len b a)

def splice (items : List α) : Nat → List ρ → List α
  | pos, [] => items.drop pos
  | pos, r :: rs => (items.drop pos).take (start r - pos) ++ new r ++ splice items (start r + len r) rs

variable {start len new}

theorem Before.start_le {a b : ρ} (h : Before start len a b) : start a ≤ start b := by
  unfold Before at h
  omega

theorem Before.clear {a b : ρ} (h : Before start len a b) : Clear start len a b := by
  refine ⟨fun _ => h, fun hlt => ?_⟩
  have := h.start_le
  omega

theorem Clear.of_len_eq_zero {a b : ρ} (ha : len a = 0) (h : Before start len b a) : Clear start len a b := by
  refine ⟨fun hle => ?_, fun _ => h⟩
  unfold Before
  omega

theorem pairwise_orderedInsert {x : ρ} (hl : l.Pairwise (Before start len)) (hx : ∀ y ∈ l, Clear start len x y) :
    (l.orderedInsert (fun a b => start a ≤ start b) x).Pairwise (Before start len) := by
  induction l with
  | nil => simp
  | cons y l ih =>
    rw [pairwise_cons] at hl
    rw [forall_mem_cons] at hx
    by_cases hle : start x ≤ start y
    · rw [orderedInsert_cons, if_pos hle, pairwise_cons]
      refine ⟨?_, pairwise_cons.mpr hl⟩
      intro z hz
      rcases mem_cons.mp hz with rfl | hz
      · exact hx.1.1 hle
      · exact (hx.2 z hz).1 (le_trans hle (hl.1 z hz).start_le)
    · rw [orderedInsert_cons, if_neg hle, pairwise_cons]
      refine ⟨?_, ih hl.2 hx.2⟩
      intro z hz
      rcases (mem_orderedInsert _).mp hz with rfl | hz
      · exact hx.1.2 (Nat.lt_of_not_le hle)
      · exact hl.1 z hz

/-- **Edits that are clear of each other do not overlap once sorted.** -/
theorem pairwise_insertionSort (h : l.Pairwise (Clear start len)) :
    (l.insertionSort fun a b => start a ≤ start b).Pairwise (Before start len) := by
  induction l with
  | nil => simp
  | cons x l ih =>
    rw [pairwise_cons] at h
    refine pairwise_orderedInsert (ih h.2) ?_
    intro y hy
    exact h.1 y ((mem_insertionSort _).mp hy)

/-- **From the last to the first**: the items in front of `pos` are untouched, the others are spliced. -/
theorem foldr_eq_splice {f : ρ → List α → List α} {items : List α}
    (hf : ∀ (r : ρ) (l : List α), start r ≤ l.length → f r l = l.take (start r) ++ new r ++ l.drop (start r + len r))
    {rs : List ρ} (hrs : rs.Pairwise (Before start len)) (hw : ∀ r ∈ rs, start r + len r ≤ items.length)
    {pos : Nat} (hpos : ∀ r ∈ rs, pos ≤ start r) :
    rs.foldr f items = items.take pos ++ splice start len new items pos rs := by
  induction rs generalizing pos with
  | nil => simp [splice]
  | cons r rs ih =>
    rw [pairwise_cons] at hrs
    rw [forall_mem_cons] at hw hpos
    have hr := ih hrs.2 hw.2 hrs.1
    have hlen : (items.take (start r + len r)).length = start r + len r := length_take_of_le hw.1
    have hfront : (items.take (start r + len r)).take (start r) =
        items.take pos ++ (items.drop pos).take (start r - pos) := by
      rw [take_take, Nat.min_eq_left (Nat.le_add_right _ _), ← take_add, Nat.add_sub_cancel' hpos.1]
    rw [foldr_cons, hr, hf r _ (by rw [length_append]; omega), splice]
    generalize splice start len new items (start r + len r) rs = rest
    have htake : (items.take (start r + len r) ++ rest).take (start r) =
        (items.take (start r + len r)).take (start r) := take_append_of_le_length (by omega)
    have hdrop : (items.take (start r + len r) ++ rest).drop (start r + len r) = rest := by
      rw [drop_append_of_le_length (by omega), drop_of_length_le (by omega), nil_append]
    rw [htake, hdrop, hfront]
    simp only [append_assoc]

theorem infix_splice {items : List α} {r : ρ} {rs : List ρ} (hr : r ∈ rs) (pos : Nat) :
    new r <:+: splice start len new items pos rs := by
  induction rs generalizing pos with
  | nil => cases hr
  | cons r' rs ih =>
    rcases mem_cons.mp hr with rfl | hr
    · exact infix_append _ _ _
    · exact (ih hr _).trans (suffix_append _ _).isInfix

end Splice
