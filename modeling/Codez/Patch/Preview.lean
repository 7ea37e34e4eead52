import Codez.Patch.Verify

/-!
What is approved and what is applied.

The changes of an action are computed from the files before the patch and kept under the path of
their hunk; applying runs the hunks one after the other.
-/

namespace ApplyPatch

open Effect Fallible List

variable {P : Type} {i : Nat} {fs : List (Footprint P)} {f : Footprint P} {ops : List (Op P)} {op : Op P}

def ApplyPatchFileChange.Holds (path : P) (v : TextState P) : ApplyPatchFileChange P → Prop
  | .add content => v path = some content
  | .delete _ => v path = none
  | .update _ none newContent => v path = some newContent
  | .update _ (some movePath) newContent => v movePath = some newContent ∧ v path = none

def ApplyPatchFileChange.mentions (path : P) : ApplyPatchFileChange P → List P
  | .update _ (some movePath) _ => [path, movePath]
  | _ => [path]

/-- Every change holds afterwards, and paths that no change mentions are as before. -/
structure UpdatedBy [DecidableEq P] (changes : AList fun _ : P => ApplyPatchFileChange P) (v v' : TextState P) :
    Prop where
  changed : ∀ path change, changes.lookup path = some change → change.Holds path v'
  others : ∀ q, (∀ path change, changes.lookup path = some change → q ∉ change.mentions path) → v' q = v q

/-! ## Orderly operations -/

structure Effective (fs : List (Footprint P)) (i : Nat) (f : Footprint P) : Prop where
  at_index : fs[i]? = some f
  last : ∀ j f', i < j → fs[j]? = some f' → f'.path ≠ f.path

structure Orderly (fs : List (Footprint P)) : Prop where
  last : ∀ i (f : Footprint P), Effective fs i f → ∀ q ∈ f.touches,
    ∀ j f', i < j → fs[j]? = some f' → q ∉ f'.touches
  first : ∀ i (f : Footprint P), Effective fs i f → f.reads = true →
    ∀ j f', j < i → fs[j]? = some f' → f.path ∉ f'.touches
  apart : ∀ i (f : Footprint P), Effective fs i f → f.dest ≠ some f.path
  shown : ∀ f ∈ fs, ∀ q ∈ f.touches, ∃ j f', Effective fs j f' ∧ q ∈ f'.touches

theorem getElem?_concat_iff {α : Type} {xs : List α} {last x : α} :
    (xs ++ [last])[i]? = some x ↔ xs[i]? = some x ∨ (i = xs.length ∧ x = last) := by
  rcases Nat.lt_trichotomy i xs.length with hi | rfl | hi
  · rw [getElem?_append_left hi]
    simp [Nat.ne_of_lt hi]
  · simp [eq_comm]
  · rw [getElem?_eq_none (by simp; omega), getElem?_eq_none (by omega)]
    simp [Nat.ne_of_gt hi]

theorem effective_concat {last : Footprint P} : Effective (fs ++ [last]) i f ↔
      (i = fs.length ∧ f = last) ∨ (Effective fs i f ∧ last.path ≠ f.path) := by
  have hl : (fs ++ [last])[fs.length]? = some last := getElem?_concat_iff.mpr (.inr ⟨rfl, rfl⟩)
  constructor
  · intro h
    rcases getElem?_concat_iff.mp h.at_index with hi | hi
    · have hlt : i < fs.length := (List.getElem?_eq_some_iff.mp hi).1
      exact .inr ⟨⟨hi, fun j f' hij hj => h.last j f' hij (getElem?_concat_iff.mpr (.inl hj))⟩,
        h.last fs.length last hlt hl⟩
    · exact .inl hi
  · rintro (⟨rfl, rfl⟩ | ⟨h, hne⟩)
    · refine ⟨hl, fun j f' hij hj => ?_⟩
      rw [getElem?_eq_none (by simp; omega)] at hj
      cases hj
    · refine ⟨getElem?_concat_iff.mpr (.inl h.at_index), fun j f' hij hj => ?_⟩
      rcases getElem?_concat_iff.mp hj with hj | ⟨-, rfl⟩
      · exact h.last j f' hij hj
      · exact hne

theorem exists_effective (h : f ∈ fs) : ∃ i f', Effective fs i f' ∧ f'.path = f.path := by
  induction fs using List.reverseRecOn with
  | nil => cases h
  | append_singleton fs last ih =>
    by_cases hl : last.path = f.path
    · exact ⟨fs.length, last, effective_concat.mpr (.inl ⟨rfl, rfl⟩), hl⟩
    · have hmem : f ∈ fs := by
        rcases mem_append.mp h with h | h
        · exact h
        · rw [mem_singleton] at h
          exact absurd (congrArg Footprint.path h.symm) hl
      obtain ⟨i, f', heff, hp⟩ := ih hmem
      exact ⟨i, f', effective_concat.mpr (.inr ⟨heff, hp ▸ hl⟩), hp⟩

theorem orderly_of_disjoint (h : fs.Pairwise fun f g => ∀ q ∈ f.touches, q ∉ g.touches)
    (hdest : ∀ f ∈ fs, f.dest ≠ some f.path) : Orderly fs := by
  have haft : ∀ (i j : Nat) (f g : Footprint P), i < j → fs[i]? = some f → fs[j]? = some g →
      ∀ q ∈ f.touches, q ∉ g.touches := by
    intro i j f g hij hi hj
    obtain ⟨hi', rfl⟩ := List.getElem?_eq_some_iff.mp hi
    obtain ⟨hj', rfl⟩ := List.getElem?_eq_some_iff.mp hj
    exact pairwise_iff_getElem.mp h i j hi' hj' hij
  refine ⟨?_, ?_, ?_, ?_⟩
  · intro i f heff q hq j f' hij hj
    exact haft i j f f' hij heff.at_index hj q hq
  · intro i f heff _ j f' hji hj hmem
    exact haft j i f' f hji hj heff.at_index f.path hmem mem_cons_self
  · intro i f heff
    exact hdest f (mem_of_getElem? heff.at_index)
  · intro f hf q hq
    obtain ⟨i, hi⟩ := mem_iff_getElem?.mp hf
    refine ⟨i, f, ⟨hi, fun j f' hij hj hp => ?_⟩, hq⟩
    exact haft i j f f' hij hi hj f.path mem_cons_self (hp ▸ mem_cons_self)

/-! ## The map -/

def EffectiveOp (ops : List (Op P)) (i : Nat) (op : Op P) : Prop :=
  ops[i]? = some op ∧ Effective (ops.map Op.footprint) i op.footprint

open Op

theorem footprint_at (h : ops[i]? = some op) : (ops.map footprint)[i]? = some op.footprint := by
  rw [getElem?_map, h]
  rfl

theorem effectiveOp_of (h : Effective (ops.map footprint) i f) :
    ∃ op, EffectiveOp ops i op ∧ op.footprint = f := by
  have hat := h.at_index
  rw [getElem?_map, Option.map_eq_some_iff] at hat
  obtain ⟨op, hop, rfl⟩ := hat
  exact ⟨op, ⟨hop, h⟩, rfl⟩

theorem effectiveOp_concat {last : Op P} : EffectiveOp (ops ++ [last]) i op ↔
      (i = ops.length ∧ op = last) ∨ (EffectiveOp ops i op ∧ last.path ≠ op.path) := by
  rw [EffectiveOp, getElem?_concat_iff, map_append, map_singleton, effective_concat, length_map]
  constructor
  · rintro ⟨hat, ⟨rfl, -⟩ | ⟨heff, hne⟩⟩
    · rcases hat with hat | hat
      · simp at hat
      · exact .inl hat
    · rcases hat with hat | ⟨rfl, -⟩
      · exact .inr ⟨⟨hat, heff⟩, hne⟩
      · have := heff.at_index
        simp at this
  · rintro (⟨rfl, rfl⟩ | ⟨⟨hat, heff⟩, hne⟩)
    · exact ⟨.inr ⟨rfl, rfl⟩, .inl ⟨rfl, rfl⟩⟩
    · exact ⟨.inl hat, .inr ⟨heff, hne⟩⟩

open Function

section
variable [DecidableEq P] {paths : PathUri P} {unifiedDiff : Nat → Text → Text → Text} {v v' : TextState P}
  {changes : AList fun _ : P => ApplyPatchFileChange P} {chunks : List UpdateFileChunk} {dest : Option P}
  {change : ApplyPatchFileChange P}

theorem preview_concat (h : preview paths unifiedDiff v (ops ++ [op]) = some changes) :
    ∃ changes' change, preview paths unifiedDiff v ops = some changes' ∧
      op.change paths unifiedDiff v = some change ∧ changes = changes'.insert op.path change := by
  rw [preview, previewFrom, foldlM_append, Option.bind_eq_bind, Option.bind_eq_some_iff] at h
  obtain ⟨changes', h', h⟩ := h
  rw [foldlM_cons, Option.bind_eq_bind, Option.bind_eq_some_iff] at h
  obtain ⟨changes'', hc, h⟩ := h
  obtain ⟨change, hch, rfl⟩ := Option.map_eq_some_iff.mp hc
  cases h
  exact ⟨changes', change, h', hch, rfl⟩

theorem exists_change (h : preview paths unifiedDiff v ops = some changes) :
    ∀ op ∈ ops, ∃ change, op.change paths unifiedDiff v = some change := by
  induction ops using List.reverseRecOn generalizing changes with
  | nil => simp
  | append_singleton ops last ih =>
    obtain ⟨changes', change, h', hch, -⟩ := preview_concat h
    intro op hop
    rcases mem_append.mp hop with hop | hop
    · exact ih h' op hop
    · rw [mem_singleton.mp hop]
      exact ⟨change, hch⟩

/-- **The map has the changes of the effective operations.** -/
theorem lookup_preview (h : preview paths unifiedDiff v ops = some changes) (path : P)
    (change : ApplyPatchFileChange P) :
    changes.lookup path = some change ↔
      ∃ i op, EffectiveOp ops i op ∧ op.path = path ∧ op.change paths unifiedDiff v = some change := by
  induction ops using List.reverseRecOn generalizing changes with
  | nil =>
    cases h
    constructor
    · intro h
      cases h
    · rintro ⟨i, op, heff, -⟩
      simpa using heff.1
  | append_singleton ops last ih =>
    obtain ⟨changes', lastChange, h', hl, rfl⟩ := preview_concat h
    by_cases hpath : path = last.path
    · subst hpath
      rw [AList.lookup_insert]
      constructor
      · rintro ⟨rfl⟩
        exact ⟨ops.length, last, effectiveOp_concat.mpr (.inl ⟨rfl, rfl⟩), rfl, hl⟩
      · rintro ⟨i, op, heff, hp, hc⟩
        rcases effectiveOp_concat.mp heff with ⟨-, rfl⟩ | ⟨-, hne⟩
        · rw [← hl, hc]
        · exact absurd hp.symm hne
    · rw [AList.lookup_insert_ne hpath, ih h']
      constructor
      · rintro ⟨i, op, heff, hp, hc⟩
        exact ⟨i, op, effectiveOp_concat.mpr (.inr ⟨heff, fun he => hpath (hp ▸ he.symm)⟩), hp, hc⟩
      · rintro ⟨i, op, heff, hp, hc⟩
        rcases effectiveOp_concat.mp heff with ⟨-, rfl⟩ | ⟨heff, -⟩
        · exact absurd hp.symm hpath
        · exact ⟨i, op, heff, hp, hc⟩

theorem effect_update_eq_some {path : P} (h : (update path dest chunks).effect paths v = some v') :
    ∃ original new, v path = some original ∧ newText paths path chunks original = some new ∧
      v' = place v path dest new := by
  simp only [effect, Option.bind_eq_bind, Option.bind_eq_some_iff] at h
  obtain ⟨original, hread, new, hnew, h⟩ := h
  exact ⟨original, new, hread, hnew, (Option.some.inj h).symm⟩

theorem effect_frame (h : op.effect paths v = some v') {q : P} (hq : q ∉ op.touches) : v' q = v q := by
  have hp : q ≠ op.path := fun he => hq (he ▸ mem_cons_self)
  cases op with
  | add path contents =>
    cases h
    exact update_of_ne hp _ _
  | delete path =>
    obtain ⟨content, -, rfl⟩ := Option.map_eq_some_iff.mp h
    exact update_of_ne hp _ _
  | update path dest chunks =>
    obtain ⟨original, new, -, -, rfl⟩ := effect_update_eq_some h
    cases dest with
    | none => exact update_of_ne hp _ _
    | some dest =>
      have hdest : q ≠ dest := fun he => hq (by simp [touches, footprint, Footprint.touches, he])
      exact (update_of_ne hp _ _).trans (update_of_ne hdest _ _)

theorem run_cons : run paths v (op :: ops) = (op.effect paths v).bind (run paths · ops) := by
  rw [run, foldlM_cons]
  rfl

theorem run_append {ops ops' : List (Op P)} :
    run paths v (ops ++ ops') = (run paths v ops).bind (run paths · ops') := by
  rw [run, foldlM_append]
  rfl

theorem run_frame (h : run paths v ops = some v') {q : P} (hq : ∀ op ∈ ops, q ∉ op.touches) : v' q = v q := by
  induction ops generalizing v with
  | nil =>
    cases h
    rfl
  | cons op ops ih =>
    rw [run_cons, Option.bind_eq_some_iff] at h
    obtain ⟨v1, h1, h2⟩ := h
    rw [forall_mem_cons] at hq
    rw [ih h2 hq.2, effect_frame h1 hq.1]

theorem run_at (h : run paths v ops = some v') (hi : ops[i]? = some op) :
    ∃ v1 v2, run paths v (ops.take i) = some v1 ∧ op.effect paths v1 = some v2 ∧
      run paths v2 (ops.drop (i + 1)) = some v' := by
  obtain ⟨hlt, hget⟩ := List.getElem?_eq_some_iff.mp hi
  have hspl : ops = ops.take i ++ op :: ops.drop (i + 1) := by
    rw [← hget, ← drop_eq_getElem_cons hlt, take_append_drop]
  rw [hspl, run_append, Option.bind_eq_some_iff] at h
  obtain ⟨v1, h1, h⟩ := h
  rw [run_cons, Option.bind_eq_some_iff] at h
  obtain ⟨v2, h2, h3⟩ := h
  exact ⟨v1, v2, h1, h2, h3⟩

/-! ## Orderly operations do what is shown -/

omit [DecidableEq P] in
theorem change_update_eq_some {path : P} (h : (update path dest chunks).change paths unifiedDiff v = some change) :
    ∃ original new, v path = some original ∧ newText paths path chunks original = some new ∧
      change = .update (unifiedDiff 1 original new) dest new := by
  simp only [Op.change, Option.bind_eq_bind, Option.bind_eq_some_iff] at h
  obtain ⟨original, hread, new, hnew, h⟩ := h
  exact ⟨original, new, hread, hnew, (Option.some.inj h).symm⟩

omit [DecidableEq P] in
theorem mentions_change (h : op.change paths unifiedDiff v = some change) :
    change.mentions op.path = op.touches := by
  cases op with
  | add path contents =>
    cases h
    rfl
  | delete path =>
    obtain ⟨content, -, rfl⟩ := Option.map_eq_some_iff.mp h
    rfl
  | update path dest chunks =>
    obtain ⟨original, new, -, -, rfl⟩ := change_update_eq_some h
    cases dest <;> rfl

theorem holds_of_effect {v1 v2 : TextState P} (hc : op.change paths unifiedDiff v = some change)
    (heff : op.effect paths v1 = some v2) (hread : op.footprint.reads = true → v1 op.path = v op.path)
    (happart : op.footprint.dest ≠ some op.path) (hl : ∀ q ∈ op.touches, v' q = v2 q) : change.Holds op.path v' := by
  have hp : v' op.path = v2 op.path := hl op.path mem_cons_self
  cases op with
  | add path contents =>
    cases hc
    cases heff
    exact hp.trans (update_self _ _ _)
  | delete path =>
    obtain ⟨content, -, rfl⟩ := Option.map_eq_some_iff.mp hc
    obtain ⟨content', -, rfl⟩ := Option.map_eq_some_iff.mp heff
    exact hp.trans (update_self _ _ _)
  | update path dest chunks =>
    obtain ⟨original, new, horiginal, hnew, rfl⟩ := change_update_eq_some hc
    obtain ⟨original', new', horiginal', hnew', rfl⟩ := effect_update_eq_some heff
    have hsame : v1 path = v path := hread rfl
    -- the same text was read, so the new text is the one shown
    rw [horiginal, horiginal'] at hsame
    cases hsame
    rw [hnew] at hnew'
    cases hnew'
    cases dest with
    | none => exact hp.trans (update_self _ _ _)
    | some dest =>
      have hne : dest ≠ path := fun he => happart (congrArg some he)
      refine ⟨?_, hp.trans (update_self _ _ _)⟩
      rw [hl dest (by simp [touches, footprint, Footprint.touches]), place, update_of_ne hne,
        update_self]

/-- **What is shown is what happens**, if the operations are orderly. -/
theorem updatedBy_of_orderly (hops : Orderly (ops.map footprint))
    (hprev : preview paths unifiedDiff v ops = some changes) (hrun : run paths v ops = some v') :
    UpdatedBy changes v v' := by
  constructor
  · intro path change hl
    obtain ⟨i, op, heff, rfl, hc⟩ := (lookup_preview hprev path change).mp hl
    obtain ⟨v1, v2, h1, h2, h3⟩ := run_at hrun heff.1
    refine holds_of_effect hc h2 (fun hreads => ?_) (hops.apart i _ heff.2) fun q hq => ?_
    · refine run_frame h1 fun op' hop' => ?_
      obtain ⟨j, hj⟩ := mem_iff_getElem?.mp hop'
      rw [getElem?_take] at hj
      split at hj
      · next hji => exact hops.first i _ heff.2 hreads j _ hji (footprint_at hj)
      · cases hj
    · refine run_frame h3 fun op' hop' => ?_
      obtain ⟨j, hj⟩ := mem_iff_getElem?.mp hop'
      rw [getElem?_drop] at hj
      exact hops.last i _ heff.2 q hq (i + 1 + j) _ (by omega) (footprint_at hj)
  · intro q hq
    refine run_frame hrun fun op hop hmem => ?_
    obtain ⟨j, f, heff, hmem'⟩ := hops.shown _ (mem_map_of_mem hop) q hmem
    obtain ⟨op', heff', rfl⟩ := effectiveOp_of heff
    obtain ⟨change, hc⟩ := exists_change hprev op' (mem_of_getElem? heff'.1)
    refine hq op'.path change ((lookup_preview hprev _ _).mpr ⟨j, op', heff', rfl, hc⟩) ?_
    rwa [mentions_change hc]

end

/-- If the patch can be verified and applied, the action's changes are made. -/
def Previews [DecidableEq P] (paths : PathUri P) (unifiedDiff : Nat → Text → Text → Text) (cwd : P)
    (args : ApplyPatchArgs) (v : TextState P) : Prop :=
  ∀ action v₁ delta v', tryVerifyApplyPatchArgs (textFs P) paths unifiedDiff args cwd v = .ok action v₁ →
    applyHunks (textFs P) paths quietly quietly args.hunks action.cwd v = .ok delta v' →
    UpdatedBy action.changes v v'

def twoUpdates : ApplyPatchArgs where
  patch := []
  environmentId := none
  hunks := [
    .updateFile "a.txt".toList none [{ oldLines := ["one".toList], newLines := ["ONE".toList] }],
    .updateFile "a.txt".toList none [{ oldLines := ["two".toList], newLines := ["TWO".toList] }]]

def twoLines : TextState Text := Function.update (fun _ => none) "a.txt".toList (some "one\ntwo\n".toList)

theorem secondUpdate_shownAlone : ¬ Previews flatPaths (fun _ _ new => new) [] twoUpdates twoLines := by
  intro h
  have hupdated := h _ _ _ _ rfl rfl
  have hholds := hupdated.changed "a.txt".toList (.update "one\nTWO\n".toList none "one\nTWO\n".toList) rfl
  have hboth : some "ONE\nTWO\n".toList = some "one\nTWO\n".toList := hholds
  revert hboth
  decide

end ApplyPatch
