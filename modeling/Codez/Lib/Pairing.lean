import Mathlib

/-!
Requests and their answers in one list.

`complete` puts a made-up answer right behind every request that has none, and `prune` takes out
every answer that nobody asked for.
-/

namespace Pairing

open List

variable {α κ : Type} [DecidableEq κ]

/-- The keys that elements ask for and answer; exempt answers may stand alone. -/
structure Kinds (α κ : Type) where
  asks : α → Option κ
  answers : α → Option κ
  exempt : α → Bool
  answer : κ → α
  answers_answer : ∀ k, answers (answer k) = some k
  asks_answer : ∀ k, asks (answer k) = none
  answers_of_asks : ∀ x k, asks x = some k → answers x = none

namespace Kinds

variable (K : Kinds α κ)

def missing (items : List α) (x : α) : Option α :=
  (K.asks x).bind fun k => if items.any fun y => K.answers y = some k then none else some (K.answer k)

def orphan (items : List α) (x : α) : Bool :=
  match K.answers x with
  | none => false
  | some k => !K.exempt x && !items.any fun y => K.asks y = some k

def complete (items : List α) : List α := items.flatMap fun x => x :: (K.missing items x).toList

def prune (items : List α) : List α := items.filter fun x => !K.orphan items x

structure Paired (items : List α) : Prop where
  answered : ∀ x ∈ items, ∀ k, K.asks x = some k → ∃ y ∈ items, K.answers y = some k
  asked : ∀ y ∈ items, ∀ k, K.answers y = some k → K.exempt y = false → ∃ x ∈ items, K.asks x = some k

variable {K} {items : List α} {x y : α} {k : κ}

theorem missing_eq_some :
    K.missing items x = some y ↔ ∃ k, K.asks x = some k ∧ (∀ z ∈ items, K.answers z ≠ some k) ∧ y = K.answer k := by
  unfold missing
  rw [Option.bind_eq_some_iff]
  refine exists_congr fun k => and_congr_right fun _ => ?_
  split
  · next h =>
    simp only [any_eq_true, decide_eq_true_eq] at h
    obtain ⟨z, hz, hk⟩ := h
    simp only [reduceCtorEq, false_iff, not_and]
    exact fun hnone => absurd hk (hnone z hz)
  · next h =>
    simp only [any_eq_true, decide_eq_true_eq, not_exists, not_and] at h
    simp only [Option.some.injEq]
    exact ⟨fun heq => ⟨h, heq.symm⟩, fun heq => heq.2.symm⟩

theorem missing_of_asks (h : K.asks x = some k) [Decidable (∃ y ∈ items, K.answers y = some k)] :
    K.missing items x = if ∃ y ∈ items, K.answers y = some k then none else some (K.answer k) := by
  unfold missing
  rw [h, Option.bind_some]
  simp only [any_eq_true, decide_eq_true_eq]

theorem orphan_of_answers (h : K.answers x = some k) [Decidable (∃ y ∈ items, K.asks y = some k)] :
    (!K.orphan items x) = (K.exempt x || decide (∃ y ∈ items, K.asks y = some k)) := by
  have hany : (items.any fun y => K.asks y = some k) = decide (∃ y ∈ items, K.asks y = some k) := by
    rw [Bool.eq_iff_iff]
    simp
  simp [orphan, h, hany]

theorem orphan_eq_true : K.orphan items x = true ↔
      ∃ k, K.answers x = some k ∧ K.exempt x = false ∧ ∀ z ∈ items, K.asks z ≠ some k := by
  unfold orphan
  split
  · next h => simp [h]
  · next k h => simp [h]

theorem asks_complete : (∃ x ∈ K.complete items, K.asks x = some k) ↔ ∃ x ∈ items, K.asks x = some k := by
  constructor
  · rintro ⟨x, hx, hk⟩
    obtain ⟨z, hz, hx⟩ := mem_flatMap.mp hx
    rcases mem_cons.mp hx with rfl | hx
    · exact ⟨x, hz, hk⟩
    · obtain ⟨k', -, -, rfl⟩ := missing_eq_some.mp (Option.mem_toList.mp hx)
      rw [K.asks_answer] at hk
      cases hk
  · rintro ⟨x, hx, hk⟩
    exact ⟨x, mem_flatMap.mpr ⟨x, hx, mem_cons_self⟩, hk⟩

theorem orphan_complete (x : α) : K.orphan (K.complete items) x = K.orphan items x := by
  have hasks : ∀ k, (∀ z ∈ K.complete items, K.asks z ≠ some k) ↔ ∀ z ∈ items, K.asks z ≠ some k := by
    intro k
    simpa using not_congr (@asks_complete _ _ _ K items k)
  rw [Bool.eq_iff_iff, orphan_eq_true, orphan_eq_true]
  simp only [hasks]

theorem orphan_eq_false_of_asks (hx : ∃ x ∈ items, K.asks x = some k) (hy : K.answers y = some k) :
    K.orphan items y = false := by
  rw [← Bool.not_eq_true, orphan_eq_true]
  rintro ⟨k', hk', -, hnone⟩
  obtain ⟨x, hx, hk⟩ := hx
  rw [hy, Option.some.injEq] at hk'
  exact hnone x hx (hk' ▸ hk)

theorem orphan_eq_false_of_asks_self (h : K.asks x = some k) : K.orphan items x = false := by
  simp [orphan, K.answers_of_asks x k h]

theorem prune_complete_eq : K.prune (K.complete items) =
      items.flatMap fun x => if K.orphan items x then [] else x :: (K.missing items x).toList := by
  have hblock : ∀ x ∈ items, (x :: (K.missing items x).toList).filter (fun x => !K.orphan items x) =
      if K.orphan items x then [] else x :: (K.missing items x).toList := by
    intro x hx
    cases hmiss : K.missing items x with
    | none => cases hx : K.orphan items x <;> simp [hx]
    | some y =>
      -- the made-up answer is asked for by `x`, which is no answer itself
      obtain ⟨k, hk, -, rfl⟩ := missing_eq_some.mp hmiss
      have hx' : K.orphan items x = false := orphan_eq_false_of_asks_self hk
      have hy : K.orphan items (K.answer k) = false := orphan_eq_false_of_asks ⟨x, hx, hk⟩ (K.answers_answer k)
      simp [hx', hy]
  unfold prune
  simp only [orphan_complete]
  rw [complete, filter_flatMap]
  exact flatMap_congr hblock

theorem mem_prune : x ∈ K.prune items ↔ x ∈ items ∧ K.orphan items x = false := by
  simp [prune]

theorem paired_prune_complete : K.Paired (K.prune (K.complete items)) where
  answered x hx k hk := by
    obtain ⟨x', hx', hk'⟩ : ∃ x' ∈ items, K.asks x' = some k := asks_complete.mp ⟨x, (mem_prune.mp hx).1, hk⟩
    obtain ⟨y, hy, hanswers⟩ : ∃ y ∈ K.complete items, K.answers y = some k := by
      by_cases hkn : ∃ z ∈ items, K.answers z = some k
      · obtain ⟨z, hz, hzk⟩ := hkn
        exact ⟨z, mem_flatMap.mpr ⟨z, hz, mem_cons_self⟩, hzk⟩
      · push Not at hkn
        have hmiss : K.missing items x' = some (K.answer k) := missing_eq_some.mpr ⟨k, hk', hkn, rfl⟩
        refine ⟨K.answer k, mem_flatMap.mpr ⟨x', hx', ?_⟩, K.answers_answer k⟩
        simp [hmiss]
    refine ⟨y, mem_prune.mpr ⟨hy, ?_⟩, hanswers⟩
    rw [orphan_complete]
    exact orphan_eq_false_of_asks ⟨x', hx', hk'⟩ hanswers
  asked y hy k hk hexempt := by
    obtain ⟨-, horphan⟩ := mem_prune.mp hy
    obtain ⟨z, hz, hzk⟩ : ∃ z ∈ K.complete items, K.asks z = some k := by
      by_contra hnone
      push Not at hnone
      rw [orphan_eq_true.mpr ⟨k, hk, hexempt, hnone⟩] at horphan
      cases horphan
    exact ⟨z, mem_prune.mpr ⟨hz, orphan_eq_false_of_asks_self hzk⟩, hzk⟩

theorem prune_complete_of_paired (h : K.Paired items) : K.prune (K.complete items) = items := by
  have hblock : ∀ x ∈ items, (if K.orphan items x then [] else x :: (K.missing items x).toList) = [x] := by
    intro x hx
    have horphan : K.orphan items x = false := by
      rw [← Bool.not_eq_true, orphan_eq_true]
      rintro ⟨k, hk, hexempt, hnone⟩
      obtain ⟨z, hz, hzk⟩ := h.asked x hx k hk hexempt
      exact hnone z hz hzk
    have hmiss : K.missing items x = none := by
      rw [Option.eq_none_iff_forall_ne_some]
      intro y hy
      obtain ⟨k, hk, hnone, -⟩ := missing_eq_some.mp hy
      obtain ⟨z, hz, hzk⟩ := h.answered x hx k hk
      exact hnone z hz hzk
    simp [horphan, hmiss]
  rw [prune_complete_eq, flatMap_congr hblock, flatMap_singleton']

omit [DecidableEq κ] in
theorem Paired.map (h : K.Paired items) {f : α → α} (hasks : ∀ x, K.asks (f x) = K.asks x)
    (hanswers : ∀ x, K.answers (f x) = K.answers x) (hexempt : ∀ x, K.exempt (f x) = K.exempt x) :
    K.Paired (items.map f) where
  answered x hx k hk := by
    obtain ⟨z, hz, rfl⟩ := mem_map.mp hx
    obtain ⟨y, hy, hyk⟩ := h.answered z hz k (hasks z ▸ hk)
    exact ⟨f y, mem_map_of_mem hy, (hanswers y).trans hyk⟩
  asked y hy k hk hne := by
    obtain ⟨z, hz, rfl⟩ := mem_map.mp hy
    obtain ⟨x, hx, hxk⟩ := h.asked z hz k (hanswers z ▸ hk) (hexempt z ▸ hne)
    exact ⟨f x, mem_map_of_mem hx, (hasks x).trans hxk⟩

end Kinds

theorem insertIdx_append (pre : List α) (x y : α) (rest : List α) :
    (pre ++ x :: rest).insertIdx (pre.length + 1) y = pre ++ x :: y :: rest := by
  induction pre with
  | nil => rfl
  | cons a pre ih =>
    rw [cons_append, length_cons, insertIdx_succ_cons, ih, cons_append]

theorem foldl_insertIdx (add : α → Option α) (items : List α) :
    ((items.zipIdx.filterMap fun (x, i) => (add x).map fun y => (i, y)).reverse.foldl
      (fun items (i, y) => items.insertIdx (i + 1) y) items) = items.flatMap fun x => x :: (add x).toList := by
  have hfrom : ∀ rest pre : List α,
      ((rest.zipIdx pre.length).filterMap fun (x, i) => (add x).map fun y => (i, y)).foldr
        (fun (i, y) items => items.insertIdx (i + 1) y) (pre ++ rest) =
      pre ++ rest.flatMap fun x => x :: (add x).toList := by
    intro rest
    induction rest with
    | nil => simp
    | cons x rest ih =>
      intro pre
      have hr := ih (pre ++ [x])
      rw [length_append, length_singleton, append_assoc, singleton_append] at hr
      rw [zipIdx_cons, flatMap_cons]
      cases hadd : add x with
      | none =>
        rw [filterMap_cons_none (by simp [hadd]), hr]
        simp
      | some y =>
        rw [filterMap_cons_some (by simp [hadd]; rfl), foldr_cons, hr]
        simpa using insertIdx_append pre x y (rest.flatMap fun x => x :: (add x).toList)
  rw [foldl_reverse]
  exact hfrom items []

end Pairing
