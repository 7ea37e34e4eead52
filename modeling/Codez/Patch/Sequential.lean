import Codez.Patch.Verify

/-!
# The sequential meaning of a patch

A patch that succeeds should leave the files as its hunks say, one after the other (`Op.meant`).
-/

namespace ApplyPatch

open Effect

namespace Op

section
variable {P : Type} [DecidableEq P] (paths : PathUri P)

def meantPlace {α : Type} (v : P → Option α) (path : P) (dest : Option P) (new : α) : P → Option α :=
  match dest with
  | none => Function.update v path (some new)
  | some dest =>
    let v := Function.update v dest (some new)
    if dest = path then v else Function.update v path none

def meant (v : TextState P) : Op P → Option (TextState P)
  | .add path contents => some (Function.update v path (some contents))
  | .delete path => some (Function.update v path none)
  | .update path dest chunks => do
    let original ← v path
    let new ← newText paths path chunks original
    return meantPlace v path dest new

def meantRun (v : TextState P) (ops : List (Op P)) : Option (TextState P) := ops.foldlM (meant paths) v

end

variable {P : Type} {path : P} {ops : List (Op P)}

def MovesOnto (op : Op P) (path : P) : Prop := ∃ chunks, op = .update path (some path) chunks

def Puts (op : Op P) (path : P) : Prop :=
  match op with
  | .add p _ => p = path
  | .update _ (some dest) _ => dest = path
  | .update _ none _ | .delete _ => False

def losing (lost : P → Prop) (op : Op P) (path : P) : Prop :=
  op.MovesOnto path ∨ lost path ∧ ¬ op.Puts path

def Loses (ops : List (Op P)) (path : P) : Prop :=
  ∃ before op after, ops = before ++ op :: after ∧ op.MovesOnto path ∧ ∀ op' ∈ after, ¬ op'.Puts path

theorem loses_cons {op : Op P} :
    Loses (op :: ops) path ↔ (op.MovesOnto path ∧ ∀ op' ∈ ops, ¬ op'.Puts path) ∨ Loses ops path := by
  constructor
  · rintro ⟨pre, op', after, hops, hmv, hputs⟩
    cases pre with
    | nil =>
      cases hops
      exact .inl ⟨hmv, hputs⟩
    | cons _ pre =>
      cases hops
      exact .inr ⟨pre, op', after, rfl, hmv, hputs⟩
  · rintro (⟨hmv, hputs⟩ | ⟨pre, op', after, rfl, hmv, hputs⟩)
    · exact ⟨[], op, ops, rfl, hmv, hputs⟩
    · exact ⟨op :: pre, op', after, rfl, hmv, hputs⟩

theorem foldl_losing (lost : P → Prop) (ops : List (Op P)) (path : P) :
    ops.foldl losing lost path ↔ (lost path ∧ ∀ op ∈ ops, ¬ op.Puts path) ∨ Loses ops path := by
  induction ops generalizing lost with
  | nil => simp [Loses]
  | cons op ops ih =>
    rw [List.foldl_cons, ih, loses_cons, losing, List.forall_mem_cons]
    tauto

/-- The states differ in the lost paths, where the code has no file. -/
def Differ (lost : P → Prop) (v w : TextState P) : Prop :=
  ∀ path, (lost path → v path = none ∧ w path ≠ none) ∧ (¬ lost path → v path = w path)

section
variable {lost : P → Prop} {v v' w : TextState P} {dest : Option P}

theorem Differ.eq_of_some (h : Differ lost v w) {text : Text} (hv : v path = some text) :
    ¬ lost path ∧ w path = some text := by
  have hkept : ¬ lost path := by
    intro hlost
    rw [((h path).1 hlost).1] at hv
    cases hv
  exact ⟨hkept, ((h path).2 hkept).symm.trans hv⟩

theorem Differ.eq_iff (h : Differ lost v w) : v = w ↔ ∀ path, ¬ lost path := by
  constructor
  · rintro rfl path hlost
    exact ((h path).1 hlost).2 ((h path).1 hlost).1
  · intro hnone
    funext path
    exact (h path).2 (hnone path)

theorem Differ.congr {lost' : P → Prop} (h : Differ lost v w) (heq : ∀ path, lost' path ↔ lost path) :
    Differ lost' v w := by
  intro path
  rw [heq path]
  exact h path

theorem losing_update (chunks : List UpdateFileChunk) (hdest : dest ≠ some path) (q : P) :
    losing lost (.update path dest chunks) q ↔ lost q ∧ dest ≠ some q := by
  have hmv : ¬ (Op.update path dest chunks).MovesOnto q := by
    rintro ⟨chunks', heq⟩
    cases heq
    exact hdest rfl
  cases dest <;> simp [losing, hmv, Puts]

theorem losing_selfMove (path : P) (chunks : List UpdateFileChunk) (q : P) :
    losing lost (.update path (some path) chunks) q ↔ q = path ∨ lost q := by
  simp only [losing, MovesOnto, Op.update.injEq, Option.some.injEq, Puts]
  grind

variable [DecidableEq P] {paths : PathUri P}

theorem Differ.set (h : Differ lost v w) (path : P) (text : Option Text) :
    Differ (fun q => lost q ∧ q ≠ path) (Function.update v path text) (Function.update w path text) := by
  intro q
  by_cases hq : q = path
  · subst hq
    simp
  · simpa [hq] using h q

theorem Differ.update (h : Differ lost v w) {chunks : List UpdateFileChunk} (new : Text) (hkept : ¬ lost path) :
    Differ (losing lost (.update path dest chunks)) (place v path dest new) (meantPlace w path dest new) := by
  have hne {q : P} (hq : lost q) : q ≠ path := by
    rintro rfl
    exact hkept hq
  cases dest with
  | none =>
    refine (h.set path (some new)).congr fun q => ?_
    rw [losing_update chunks (by simp)]
    exact ⟨fun hq => ⟨hq.1, hne hq.1⟩, fun hq => ⟨hq.1, by simp⟩⟩
  | some dest =>
    by_cases hself : dest = path
    · -- written in both, and removed by the code
      subst hself
      intro q
      rw [losing_selfMove]
      by_cases hq : q = dest
      · subst hq
        simp [place, meantPlace]
      · simpa [place, meantPlace, hq] using h q
    · have hset := (h.set dest (some new)).set path none
      simp only [place, meantPlace, if_neg hself]
      refine hset.congr fun q => ?_
      rw [losing_update chunks (by simpa using hself), ne_eq, Option.some.injEq]
      exact ⟨fun hq => ⟨⟨hq.1, Ne.symm hq.2⟩, hne hq.1⟩, fun hq => ⟨hq.1.1, Ne.symm hq.1.2⟩⟩

theorem Differ.step (h : Differ lost v w) {op : Op P} (heff : op.effect paths v = some v') :
    ∃ w', op.meant paths w = some w' ∧ Differ (losing lost op) v' w' := by
  cases op with
  | add path contents =>
    cases heff
    refine ⟨_, rfl, (h.set path (some contents)).congr fun q => ?_⟩
    simp [losing, MovesOnto, Puts, eq_comm]
  | delete path =>
    obtain ⟨text, ht, rfl⟩ := Option.map_eq_some_iff.mp heff
    refine ⟨_, rfl, (h.set path none).congr fun q => ?_⟩
    have hkept := (h.eq_of_some ht).1
    simp only [losing, MovesOnto, reduceCtorEq, exists_false, Puts, not_false_eq_true, and_true, false_or]
    refine ⟨fun hq => ⟨hq, ?_⟩, And.left⟩
    rintro rfl
    exact hkept hq
  | update path dest chunks =>
    simp only [effect, bind, Option.bind_eq_some_iff] at heff
    obtain ⟨original, horiginal, new, hnew, hv'⟩ := heff
    cases hv'
    obtain ⟨hkept, hw⟩ := h.eq_of_some horiginal
    refine ⟨meantPlace w path dest new, ?_, h.update new hkept⟩
    simp [meant, hw, hnew]

theorem Differ.run (h : Differ lost v w) (hrun : Op.run paths v ops = some v') :
    ∃ w', meantRun paths w ops = some w' ∧ Differ (ops.foldl losing lost) v' w' := by
  induction ops generalizing lost v w with
  | nil =>
    cases hrun
    exact ⟨w, rfl, h⟩
  | cons op ops ih =>
    rw [Op.run, List.foldlM_cons] at hrun
    obtain ⟨v₁, heff, hr⟩ := Option.bind_eq_some_iff.mp hrun
    obtain ⟨w₁, hmeant, h₁⟩ := h.step heff
    obtain ⟨w', hmeant', h'⟩ := ih h₁ hr
    refine ⟨w', ?_, h'⟩
    rw [meantRun, List.foldlM_cons]
    exact Option.bind_eq_some_iff.mpr ⟨w₁, hmeant, hmeant'⟩

end

end Op

section
variable {P : Type} [DecidableEq P] (paths : PathUri P) (cwd : P)

/-- **A patch that succeeds has the meaning of its hunks** just if each file that is moved onto
itself is written again by a later hunk. -/
theorem applyHunks_meant {hunks : List Hunk} {v v' : TextState P} {delta : AppliedPatchDelta P}
    (h : applyHunks (textFs P) paths quietly quietly hunks cwd v = .ok delta v') :
    ∃ ops, hunks.mapM (Hunk.resolve paths cwd) = .ok ops ∧ (Op.meantRun paths v ops).isSome ∧
      (Op.meantRun paths v ops = some v' ↔
        ∀ before path chunks after, ops = before ++ .update path (some path) chunks :: after →
          ∃ op ∈ after, op.Puts path) := by
  obtain ⟨ops, hops, hrun⟩ := (applyHunks_textFs paths cwd hunks v).of_ok h
  have hsame : Op.Differ (fun _ => False) v v := fun _ => by simp
  obtain ⟨w, hw, hdiffer⟩ := hsame.run hrun
  refine ⟨ops, hops, by simp [hw], ?_⟩
  have hmeant : Op.meantRun paths v ops = some v' ↔ ∀ path, ¬ Op.Loses ops path := by
    rw [hw, Option.some.injEq, eq_comm, hdiffer.eq_iff]
    simp [Op.foldl_losing]
  rw [hmeant]
  constructor
  · intro hkept before path chunks after hops'
    by_contra hnone
    push Not at hnone
    exact hkept path ⟨before, _, after, hops', ⟨chunks, rfl⟩, hnone⟩
  · rintro hputs path ⟨before, op, after, hops', ⟨chunks, rfl⟩, hnone⟩
    obtain ⟨op', hop', hput⟩ := hputs before path chunks after hops'
    exact hnone op' hop' hput

end

def selfMove : Hunk :=
  .updateFile "a.txt".toList (some "a.txt".toList) [{ oldLines := ["old".toList], newLines := ["new".toList] }]

theorem applyHunks_meant_moved :
    ∃ delta v', applyHunks (textFs Text) flatPaths quietly quietly [moveHunk] [] oneFile = .ok delta v' ∧
      ∃ ops, [moveHunk].mapM (Hunk.resolve flatPaths []) = .ok ops ∧ Op.meantRun flatPaths oneFile ops = some v' ∧
        v' "b.txt".toList = some "new\n".toList ∧ v' "a.txt".toList = none := by
  refine ⟨_, _, rfl, ?_⟩
  obtain ⟨ops, hops, -, hmeant⟩ := @applyHunks_meant _ _ flatPaths [] [moveHunk] oneFile _ _ rfl
  refine ⟨ops, hops, hmeant.mpr ?_, by decide, by decide⟩
  intro before path chunks after hops'
  cases hops
  cases before with
  | nil =>
    injection hops' with hop
    injection hop with hpath hdest
    subst hpath
    exact absurd hdest (by decide)
  | cons _ before =>
    injection hops' with _ htail
    exact absurd htail (by simp)

theorem selfMove_destroys :
    ∃ delta v' w, applyHunks (textFs Text) flatPaths quietly quietly [selfMove] [] oneFile = .ok delta v' ∧
      [selfMove].mapM (Hunk.resolve flatPaths []) =
        .ok [.update "a.txt".toList (some "a.txt".toList)
          [{ oldLines := ["old".toList], newLines := ["new".toList] }]] ∧
      Op.meantRun flatPaths oneFile
        [.update "a.txt".toList (some "a.txt".toList) [{ oldLines := ["old".toList], newLines := ["new".toList] }]] =
        some w ∧
      v' "a.txt".toList = none ∧ w "a.txt".toList = some "new\n".toList :=
  ⟨_, _, _, rfl, rfl, rfl, by decide, by decide⟩

end ApplyPatch
