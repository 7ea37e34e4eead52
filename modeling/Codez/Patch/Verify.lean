import Codez.Patch.Format
import Codez.Patch.Undo

/-!
The changes shown for approval (`apply-patch/src/invocation.rs`), and what applying does.
-/

namespace ApplyPatch

open Effect Fallible List

inductive ApplyPatchFileChange (P : Type) where
  | add (content : Text)
  | delete (content : Text)
  | update (unifiedDiff : Text) (movePath : Option P) (newContent : Text)
deriving DecidableEq

structure ApplyPatchAction (P : Type) where
  changes : AList fun _ : P => ApplyPatchFileChange P
  patch : Text
  cwd : P

section
variable {σ P : Type} [DecidableEq P] (fs : ExecutorFileSystem σ P) (paths : PathUri P)
  -- `TextDiff::from_lines` and its `unified_diff`, with the number of context lines
  (unifiedDiff : Nat → Text → Text → Text)

structure ApplyPatchFileUpdate where
  unifiedDiff : Text
  originalContent : Text
  content : Text

def unifiedDiffFromChunksWithContext (path : P) (chunks : List UpdateFileChunk) (context : Nat) :
    EStateM ApplyPatchError σ ApplyPatchFileUpdate := do
  let patch ← deriveNewContentsFromChunks fs paths path chunks
  return ⟨unifiedDiff context patch.originalContents patch.newContents, patch.originalContents,
    patch.newContents⟩

def unifiedDiffFromChunks (path : P) (chunks : List UpdateFileChunk) :
    EStateM ApplyPatchError σ ApplyPatchFileUpdate :=
  unifiedDiffFromChunksWithContext fs paths unifiedDiff path chunks 1

def joinMovePath (cwd : P) : Option Text → Except Text (Option P)
  | some movePath => (paths.join cwd movePath).map some
  | none => .ok none

def verifyHunk (cwd : P) (changes : AList fun _ : P => ApplyPatchFileChange P) (hunk : Hunk) :
    EStateM ApplyPatchError σ (AList fun _ : P => ApplyPatchFileChange P) := do
  let path ← ofResult ((hunk.resolvePath paths cwd).mapError .pathUri)
  match hunk with
  | .addFile _ contents => return changes.insert path (.add contents)
  | .deleteFile _ => do
    let content ← mapError (.ioError (failedTo paths "Failed to read" path)) (fs.readFileText path)
    return changes.insert path (.delete content)
  | .updateFile _ movePath chunks => do
    let update ← unifiedDiffFromChunks fs paths unifiedDiff path chunks
    let movePath ← ofResult ((joinMovePath paths cwd movePath).mapError .pathUri)
    return changes.insert path (.update update.unifiedDiff movePath update.content)

def effectiveCwd (cwd : P) : Option Text → Except Text P
  | some workdir => paths.join cwd workdir
  | none => .ok cwd

def tryVerifyApplyPatchArgs (args : ApplyPatchArgs) (cwd : P) :
    EStateM ApplyPatchError σ (ApplyPatchAction P) := do
  let cwd ← ofResult ((effectiveCwd paths cwd args.workdir).mapError .pathUri)
  let changes ← args.hunks.foldlM (verifyHunk fs paths unifiedDiff cwd) ∅
  return ⟨changes, args.patch, cwd⟩

end

/-! ## Operations on texts -/

/-- What an operation touches, and whether it depends on the text at its path. -/
structure Footprint (P : Type) where
  path : P
  dest : Option P
  reads : Bool

def Footprint.touches {P : Type} (f : Footprint P) : List P := f.path :: f.dest.toList

inductive Op (P : Type) where
  | add (path : P) (contents : Text)
  | delete (path : P)
  | update (path : P) (dest : Option P) (chunks : List UpdateFileChunk)

namespace Op

variable {P : Type}

def footprint : Op P → Footprint P
  | .add path _ => ⟨path, none, false⟩
  | .delete path => ⟨path, none, false⟩
  | .update path dest _ => ⟨path, dest, true⟩

def path (op : Op P) : P := op.footprint.path

def touches (op : Op P) : List P := op.footprint.touches

variable [DecidableEq P] (paths : PathUri P)

def newText (path : P) (chunks : List UpdateFileChunk) (original : Text) : Option Text :=
  (deriveNewContents (paths.inferredNativePathString path) chunks original).toOption

def place {α : Type} (v : P → Option α) (path : P) (dest : Option P) (new : α) : P → Option α :=
  match dest with
  | none => Function.update v path (some new)
  | some dest => Function.update (Function.update v dest (some new)) path none

def effect (v : TextState P) : Op P → Option (TextState P)
  | .add path contents => some (Function.update v path (some contents))
  | .delete path => (v path).map fun _ => Function.update v path none
  | .update path dest chunks => do
    let original ← v path
    let new ← newText paths path chunks original
    return place v path dest new

def change (unifiedDiff : Nat → Text → Text → Text) (v : TextState P) : Op P → Option (ApplyPatchFileChange P)
  | .add _ contents => some (.add contents)
  | .delete path => (v path).map .delete
  | .update path dest chunks => do
    let original ← v path
    let new ← newText paths path chunks original
    return .update (unifiedDiff 1 original new) dest new

def run (v : TextState P) (ops : List (Op P)) : Option (TextState P) := ops.foldlM (effect paths) v

def previewFrom (unifiedDiff : Nat → Text → Text → Text) (v : TextState P)
    (changes : AList fun _ : P => ApplyPatchFileChange P) (ops : List (Op P)) :
    Option (AList fun _ : P => ApplyPatchFileChange P) :=
  ops.foldlM (fun changes op => (op.change paths unifiedDiff v).map (changes.insert op.path)) changes

def preview (unifiedDiff : Nat → Text → Text → Text) (v : TextState P) (ops : List (Op P)) :
    Option (AList fun _ : P => ApplyPatchFileChange P) :=
  previewFrom paths unifiedDiff v ∅ ops

end Op

def Hunk.resolve {P : Type} (paths : PathUri P) (cwd : P) (hunk : Hunk) : Except Text (Op P) := do
  let path ← hunk.resolvePath paths cwd
  match hunk with
  | .addFile _ contents => return .add path contents
  | .deleteFile _ => return .delete path
  | .updateFile _ movePath chunks => return .update path (← joinMovePath paths cwd movePath) chunks

def Hunk.footprint {P : Type} (paths : PathUri P) (cwd : P) (hunk : Hunk) : Except Text (Footprint P) :=
  (hunk.resolve paths cwd).map Op.footprint

open Hunk

section
variable {P : Type} {paths : PathUri P} {cwd path : P} {hunk : Hunk} {op : Op P} {chunks : List UpdateFileChunk}
  {movePath : Option Text}

theorem Hunk.resolvePath_of_resolve (h : hunk.resolve paths cwd = .ok op) :
    hunk.resolvePath paths cwd = .ok op.path := by
  obtain ⟨path, hp, h⟩ := bind_eq_ok h
  cases hunk with
  | addFile p contents | deleteFile p =>
    cases h
    exact hp
  | updateFile p movePath chunks =>
    obtain ⟨dest, -, h⟩ := bind_eq_ok h
    cases h
    exact hp

theorem Hunk.resolve_updateFile {p : Text}
    (hp : (updateFile p movePath chunks).resolvePath paths cwd = .ok path) :
    (updateFile p movePath chunks).resolve paths cwd =
      (joinMovePath paths cwd movePath).map (.update path · chunks) := by
  cases h : joinMovePath paths cwd movePath <;>
    simp [resolve, hp, h, bind, Except.bind, pure, Except.pure, Except.map]

theorem resolved_andThen {ε σ α : Type} {f : Text → ε} {k : P → EStateM ε σ α} {s : σ}
    {ok : α → σ → Prop} {bad : ε → σ → Prop}
    (hk : ∀ path, hunk.resolvePath paths cwd = .ok path → After (k path) s ok bad)
    (hbad : ∀ e, (∀ op, hunk.resolve paths cwd ≠ .ok op) → bad e s) :
    After (ofResult ((hunk.resolvePath paths cwd).mapError f) >>= k) s ok bad := by
  refine .bind (.ofResult (fun path hp => hk path (mapError_eq_ok hp)) fun e he => hbad e ?_)
  intro op hop
  obtain ⟨e', he'⟩ := mapError_eq_error he
  rw [resolvePath_of_resolve hop] at he'
  cases he'

end

open Function Op

section
variable {P : Type} [DecidableEq P] (paths : PathUri P) (path cwd : P) {v : TextState P} {dest : Option P}
  (unifiedDiff : Nat → Text → Text → Text)

theorem readFileText_textFs (v : TextState P) :
    After ((textFs P).readFileText path) v (fun content v' => v' = v ∧ v path = some content)
      fun _ v' => v' = v ∧ v path = none := by
  cases h : v path <;> simp [After, textFs, h]

theorem writeFileWithMissingParentRetry_textFs (contents : Text) (s : TextState P × AppliedPatchDelta P) :
    After (tryWrite (writeFileWithMissingParentRetry (textFs P) paths path contents)) s
      (fun _ s' => s'.1 = update s.1 path (some contents)) fun _ _ => False :=
  .onError (.bind (.outcome rfl))

theorem removeFile_textFs (what : String) (expected : Option Text) (s : TextState P × AppliedPatchDelta P) :
    After (removeFile (textFs P) paths what path expected) s
      (fun _ s' => s.1 path ≠ none ∧ s'.1 = update s.1 path none) fun _ _ => s.1 path = none := by
  cases h : s.1 path <;>
    simp [After, removeFile, ensureNotDirectory, lift, outcome, textFs, h, bind, EStateM.bind, pure, EStateM.pure]

theorem deriveNewContentsFromChunks_textFs (chunks : List UpdateFileChunk) (v : TextState P) :
    After (deriveNewContentsFromChunks (textFs P) paths path chunks) v
      (fun patch v' => v' = v ∧ v path = some patch.originalContents ∧
        newText paths path chunks patch.originalContents = some patch.newContents)
      fun _ _ => (v path).bind (newText paths path chunks) = none := by
  refine .bind (.mapError ((readFileText_textFs path v).mono ?_ ?_))
  · rintro original v' ⟨rfl, hread⟩
    refine .bind (.ofResult (fun new hnew => ?_) fun e he => ?_)
    · exact .value ⟨rfl, hread, by simp [newText, hnew, Except.toOption]⟩
    · simp [hread, newText, he, Except.toOption]
  · rintro e v' ⟨rfl, hread⟩
    simp [hread]

/-! ## Applying -/

def Does (paths : PathUri P) (op : Op P) (m : EStateM AnyError (TextState P × AppliedPatchDelta P) Unit) :
    Prop :=
  ∀ s, After m s (fun _ s' => op.effect paths s.1 = some s'.1) fun _ _ => op.effect paths s.1 = none

theorem applyAddFile_does (contents : Text) :
    Does paths (.add path contents) (applyAddFile (textFs P) paths path contents) := by
  intro s
  refine (readOptionalFileTextForDelta_spec (textFs_textual P) path s).andThen (fun _ s1 h1 => ?_)
    fun _ _ h => h.elim
  refine (writeFileWithMissingParentRetry_textFs paths path contents s1).andThen (fun _ s2 h2 => ?_)
    fun _ _ h => h.elim
  refine .modify ?_
  show some _ = some s2.1
  rw [h2]
  exact congrArg (fun v => some (update v path (some contents))) h1.1.text.symm

theorem applyDeleteFile_does : Does paths (.delete path) (applyDeleteFile (textFs P) paths path) := by
  intro s
  refine (noteExistingPathDeltaSupport_spec (textFs_textual P) path s).andThen (fun _ s1 h1 => ?_)
    fun _ _ h => h.elim
  refine (readFileText_outcome (textFs_textual P) path s1).andThen (fun r s2 h2 => ?_) fun _ _ h => h.elim
  refine (noteExact_spec id _ s2).andThen (fun _ s3 h3 => ?_) fun _ _ h => h.elim
  have hs : s3.1 = s.1 := ((h1.trans h2.1).trans h3.1).text
  refine (removeFile_textFs paths path _ _ s3).andThen (fun _ s4 h4 => ?_) fun _ _ h => ?_
  · obtain ⟨hsome, hv⟩ := h4
    rw [hs] at hsome hv
    obtain ⟨content, hcontent⟩ := Option.ne_none_iff_exists'.mp hsome
    have heff : (delete path).effect paths s.1 = some s4.1 := by simp [effect, hcontent, hv]
    cases r with
    | ok content => exact .modify heff
    | error e => exact .value heff
  · rw [hs] at h
    simp [effect, h]

theorem effect_update (dest : Option P) {patch : AppliedPatch} (hread : v path = some patch.originalContents)
    (hnew : newText paths path chunks patch.originalContents = some patch.newContents) :
    (update path dest chunks).effect paths v = some (place v path dest patch.newContents) := by
  simp [effect, hread, hnew]

theorem effect_update_eq_none (h : (v path).bind (newText paths path chunks) = none) :
    (update path dest chunks).effect paths v = none := by
  cases hread : v path with
  | none => simp [effect, hread]
  | some original =>
    rw [hread, Option.bind_some] at h
    simp [effect, hread, h]

theorem applyMove_textFs (dest : P) (patch : AppliedPatch) (s : TextState P × AppliedPatchDelta P)
    (hread : s.1 path = some patch.originalContents) :
    After (applyMove (textFs P) paths path dest patch) s
      (fun _ s' => s'.1 = update (update s.1 dest (some patch.newContents)) path none)
      fun _ _ => False := by
  refine (readOptionalFileTextForDelta_spec (textFs_textual P) dest s).andThen (fun _ s1 h1 => ?_)
    fun _ _ h => h.elim
  refine (writeFileWithMissingParentRetry_textFs paths dest _ s1).andThen (fun _ s2 h2 => ?_)
    fun _ _ h => h.elim
  have hs2 : s2.1 = update s.1 dest (some patch.newContents) := by
    rw [h2]
    exact congrArg (fun v => update v dest (some patch.newContents)) h1.1.text
  refine .bind (.get (.bind (.modify ?_)))
  refine (removeFile_textFs paths path _ _ _).andThen (fun _ s3 h3 => .modify ?_) fun _ _ h => ?_
  · show s3.1 = _
    rw [h3.2, ← hs2]
  · have hsrc : s2.1 path = none := h
    rw [hs2] at hsrc
    by_cases hd : path = dest
    · rw [hd, update_self] at hsrc
      cases hsrc
    · rw [update_of_ne hd, hread] at hsrc
      cases hsrc

theorem applyInPlace_textFs (patch : AppliedPatch) (s : TextState P × AppliedPatchDelta P) :
    After (applyInPlace (textFs P) paths path patch) s
      (fun _ s' => s'.1 = update s.1 path (some patch.newContents)) fun _ _ => False :=
  .bind (.onError (.lift rfl))

theorem applyUpdateFile_does (cwd : P) (hdest : joinMovePath paths cwd movePath = .ok dest)
    (chunks : List UpdateFileChunk) :
    Does paths (.update path dest chunks) (applyUpdateFile (textFs P) paths cwd path movePath chunks) := by
  intro s
  refine (noteExistingPathDeltaSupport_spec (textFs_textual P) path s).andThen (fun _ s1 h1 => ?_)
    fun _ _ h => h.elim
  have hs : s1.1 = s.1 := h1.text
  refine .bind (.lift ((deriveNewContentsFromChunks_textFs paths path chunks s1.1).mono ?_ ?_))
  · rintro patch v ⟨rfl, hread, hnew⟩
    rw [hs] at hread
    have heff := effect_update paths path dest hread hnew
    rw [hs]
    cases movePath with
    | none =>
      cases hdest
      refine (applyInPlace_textFs paths path patch (s.1, s1.2)).mono (fun _ s2 h2 => ?_) fun _ _ h => h.elim
      rw [heff, h2]
      rfl
    | some movePath =>
      obtain ⟨destUri, hjoin, rfl⟩ := map_eq_ok hdest
      refine .bind (.ofResult (fun d hd => ?_) fun e he => ?_)
      · rw [hjoin] at hd
        cases hd
        refine (applyMove_textFs paths path destUri patch (s.1, s1.2) hread).mono (fun _ s2 h2 => ?_)
          fun _ _ h => h.elim
        rw [heff, h2]
        rfl
      · rw [hjoin] at he
        cases he
  · intro e v h
    rw [hs] at h
    exact effect_update_eq_none paths path h

theorem applyUpdateFile_noDest (cwd : P) {e : Text} (hdest : joinMovePath paths cwd movePath = .error e)
    (chunks : List UpdateFileChunk) (s : TextState P × AppliedPatchDelta P) :
    After (applyUpdateFile (textFs P) paths cwd path movePath chunks) s (fun _ _ => False) fun _ _ => True := by
  refine (noteExistingPathDeltaSupport_spec (textFs_textual P) path s).andThen (fun _ s1 h1 => ?_)
    fun _ _ h => h.elim
  refine .bind (.lift ((deriveNewContentsFromChunks_textFs paths path chunks s1.1).mono (fun patch v _ => ?_)
    fun _ _ _ => trivial))
  cases movePath with
  | none => cases hdest
  | some movePath =>
    refine .bind (.ofResult (fun d hd => ?_) fun _ _ => trivial)
    cases hjoin : paths.join cwd movePath with
    | ok destUri => rw [joinMovePath, hjoin] at hdest; cases hdest
    | error e => rw [hjoin] at hd; cases hd

theorem applyHunk_textFs (affected : AffectedPaths) (hunk : Hunk) (s : TextState P × AppliedPatchDelta P) :
    After (applyHunk (textFs P) paths cwd affected hunk) s
      (fun _ s' => ∃ op, hunk.resolve paths cwd = .ok op ∧ op.effect paths s.1 = some s'.1)
      fun _ _ => ∀ op, hunk.resolve paths cwd = .ok op → op.effect paths s.1 = none := by
  refine resolved_andThen (fun path hp => ?_) fun _ h op hop => absurd hop (h op)
  -- what is known about the operation is known about the hunk
  have hdoes : ∀ {op : Op P} {m : EStateM AnyError (TextState P × AppliedPatchDelta P) Unit}
      {affected' : AffectedPaths}, hunk.resolve paths cwd = .ok op → Does paths op m →
      After (m >>= fun _ => pure affected') s
        (fun _ s' => ∃ op, hunk.resolve paths cwd = .ok op ∧ op.effect paths s.1 = some s'.1)
        fun _ _ => ∀ op, hunk.resolve paths cwd = .ok op → op.effect paths s.1 = none := by
    intro op m affected' hop hm
    refine (hm s).andThen (fun _ s1 h1 => .value ⟨op, hop, h1⟩) fun _ _ h op' hop' => ?_
    rw [hop] at hop'
    cases hop'
    exact h
  cases hunk with
  | addFile p contents =>
    exact hdoes (by rw [resolve, hp]; rfl) (applyAddFile_does paths path contents)
  | deleteFile p => exact hdoes (by rw [resolve, hp]; rfl) (applyDeleteFile_does paths path)
  | updateFile p movePath chunks =>
    have hres := resolve_updateFile hp
    cases hdest : joinMovePath paths cwd movePath with
    | ok dest =>
      rw [hdest] at hres
      exact hdoes hres (applyUpdateFile_does paths path cwd hdest chunks)
    | error e =>
      rw [hdest] at hres
      refine (applyUpdateFile_noDest paths path cwd hdest chunks s).andThen (fun _ _ h => h.elim)
        fun _ _ _ op hop => ?_
      rw [hres] at hop
      cases hop

theorem foldlM_applyHunk_textFs (hunks : List Hunk) (affected : AffectedPaths)
    (s : TextState P × AppliedPatchDelta P) :
    After (hunks.foldlM (applyHunk (textFs P) paths cwd) affected) s
      (fun _ s' => ∃ ops, hunks.mapM (resolve paths cwd) = .ok ops ∧ run paths s.1 ops = some s'.1)
      fun _ _ => ∀ ops, hunks.mapM (resolve paths cwd) = .ok ops → run paths s.1 ops = none := by
  induction hunks generalizing affected s with
  | nil => exact .value ⟨[], rfl, rfl⟩
  | cons hunk hunks ih =>
    rw [foldlM_cons]
    refine (applyHunk_textFs paths cwd affected hunk s).andThen (fun affected' s1 h1 => ?_) fun _ _ h ops hops => ?_
    · obtain ⟨op, hop, heff⟩ := h1
      refine (ih affected' s1).mono (fun _ s2 h2 => ?_) fun _ _ h ops hops => ?_
      · obtain ⟨ops, hops, hrun⟩ := h2
        refine ⟨op :: ops, mapM_cons_eq_ok.mpr ⟨op, ops, hop, hops, rfl⟩, ?_⟩
        rw [run, foldlM_cons, heff]
        exact hrun
      · obtain ⟨op', ops', hop', hops', rfl⟩ := mapM_cons_eq_ok.mp hops
        rw [hop] at hop'
        cases hop'
        rw [run, foldlM_cons, heff]
        exact h ops' hops'
    · obtain ⟨op, ops', hop, -, rfl⟩ := mapM_cons_eq_ok.mp hops
      rw [run, foldlM_cons, h op hop]
      rfl

def quietly {σ : Type} : Text → EStateM IoError σ Unit := fun _ => pure ()

theorem printSummary_quietly {σ : Type} (affected : AffectedPaths) (s : σ) :
    printSummary quietly affected s = .ok () s := by
  have hls : ∀ (sign : Text) (paths : List Text) (s : σ),
      paths.forM (fun path => (quietly (sign ++ path) : EStateM IoError σ Unit)) s = .ok () s := by
    intro sign paths s
    induction paths with
    | nil => rfl
    | cons path paths ih => exact ih
  simp only [printSummary, bind, EStateM.bind, hls]
  rfl

/-- **Applying is doing the operations one after the other.** -/
theorem applyHunks_textFs (hunks : List Hunk) (v : TextState P) :
    After (applyHunks (textFs P) paths quietly quietly hunks cwd) v
      (fun _ v' => ∃ ops, hunks.mapM (resolve paths cwd) = .ok ops ∧ run paths v ops = some v')
      fun _ _ => hunks = [] ∨
        ∀ ops, hunks.mapM (resolve paths cwd) = .ok ops → run paths v ops = none := by
  have hrun := foldlM_applyHunk_textFs paths cwd hunks {} (v, {})
  by_cases hnil : hunks = []
  · have hfiles : applyHunksToFiles (textFs P) paths hunks cwd (v, {}) =
        .error (.bail "No files were modified.".toList) (v, {}) := by
      rw [applyHunksToFiles, if_pos hnil]
      rfl
    simp only [After, applyHunks, hfiles]
    exact .inl hnil
  · have hfiles : applyHunksToFiles (textFs P) paths hunks cwd = hunks.foldlM (applyHunk (textFs P) paths cwd) {} := by
      rw [applyHunksToFiles, if_neg hnil]
    cases hfold : hunks.foldlM (applyHunk (textFs P) paths cwd) {} (v, {}) with
    | ok affected s =>
      simp only [After, applyHunks, hfiles, hfold, printSummary_quietly]
      exact hrun.of_ok hfold
    | error e s =>
      simp only [After, applyHunks, hfiles, hfold]
      exact .inr (hrun.of_error hfold)

/-! ## Verifying -/

theorem verifyHunk_textFs (changes : AList fun _ : P => ApplyPatchFileChange P) (hunk : Hunk)
    (v : TextState P) :
    After (verifyHunk (textFs P) paths unifiedDiff cwd changes hunk) v
      (fun changes' v' => v' = v ∧ ∃ op change, hunk.resolve paths cwd = .ok op ∧
        op.change paths unifiedDiff v = some change ∧ changes' = changes.insert op.path change)
      fun _ _ => ∀ op, hunk.resolve paths cwd = .ok op → op.change paths unifiedDiff v = none := by
  refine resolved_andThen (fun path hp => ?_) fun _ h op hop => absurd hop (h op)
  cases hunk with
  | addFile p contents =>
    exact .value ⟨rfl, .add path contents, .add contents, by rw [resolve, hp]; rfl, rfl, rfl⟩
  | deleteFile p =>
    have hop : (Hunk.deleteFile p).resolve paths cwd = .ok (.delete path) := by rw [resolve, hp]; rfl
    refine .bind (.mapError ((readFileText_textFs path v).mono ?_ ?_))
    · rintro content v' ⟨rfl, hread⟩
      exact .value ⟨rfl, _, .delete content, hop, by simp [Op.change, hread], rfl⟩
    · rintro e v' ⟨rfl, hread⟩ op hop'
      rw [hop] at hop'
      cases hop'
      simp [Op.change, hread]
  | updateFile p movePath chunks =>
    have hres := resolve_updateFile hp
    refine .bind (.bind ((deriveNewContentsFromChunks_textFs paths path chunks v).mono ?_ ?_))
    · rintro patch v' ⟨rfl, hread, hnew⟩
      refine .value (.bind (.ofResult (fun dest hdest => ?_) fun e he op hop => ?_))
      · rw [mapError_eq_ok hdest] at hres
        refine .value ⟨rfl, _, .update _ dest patch.newContents, hres, ?_, rfl⟩
        simp [Op.change, hread, hnew]
      · obtain ⟨e', he'⟩ := mapError_eq_error he
        rw [hres, he'] at hop
        cases hop
    · intro e v' h op hop
      rw [hres] at hop
      obtain ⟨dest, -, rfl⟩ := map_eq_ok hop
      cases hread : v path with
      | none => simp [Op.change, hread]
      | some original =>
        rw [hread, Option.bind_some] at h
        simp [Op.change, hread, h]

theorem foldlM_verifyHunk_textFs (hunks : List Hunk) (changes : AList fun _ : P => ApplyPatchFileChange P)
    (v : TextState P) :
    After (hunks.foldlM (verifyHunk (textFs P) paths unifiedDiff cwd) changes) v
      (fun changes' v' => v' = v ∧ ∃ ops, hunks.mapM (resolve paths cwd) = .ok ops ∧
        previewFrom paths unifiedDiff v changes ops = some changes')
      fun _ _ => ∀ ops, hunks.mapM (resolve paths cwd) = .ok ops →
        previewFrom paths unifiedDiff v changes ops = none := by
  induction hunks generalizing changes with
  | nil => exact .value ⟨rfl, [], rfl, rfl⟩
  | cons hunk hunks ih =>
    rw [foldlM_cons]
    refine (verifyHunk_textFs paths cwd unifiedDiff changes hunk v).andThen ?_ fun _ _ h ops hops => ?_
    · rintro changes' v' ⟨rfl, op, change, hop, hch, rfl⟩
      refine (ih (changes.insert op.path change)).mono ?_ fun _ _ h ops hops => ?_
      · rintro changes' v'' ⟨rfl, ops, hops, hrun⟩
        refine ⟨rfl, op :: ops, mapM_cons_eq_ok.mpr ⟨op, ops, hop, hops, rfl⟩, ?_⟩
        rw [previewFrom, foldlM_cons, hch]
        exact hrun
      · obtain ⟨op', ops', hop', hops', rfl⟩ := mapM_cons_eq_ok.mp hops
        rw [hop] at hop'
        cases hop'
        rw [previewFrom, foldlM_cons, hch]
        exact h ops' hops'
    · obtain ⟨op, ops', hop, -, rfl⟩ := mapM_cons_eq_ok.mp hops
      rw [previewFrom, foldlM_cons, h op hop]
      rfl

/-- **Verifying is computing every change by itself.** -/
theorem tryVerifyApplyPatchArgs_textFs (args : ApplyPatchArgs) (v : TextState P) :
    After (tryVerifyApplyPatchArgs (textFs P) paths unifiedDiff args cwd) v
      (fun action v' => v' = v ∧ effectiveCwd paths cwd args.workdir = .ok action.cwd ∧
        ∃ ops, args.hunks.mapM (resolve paths action.cwd) = .ok ops ∧
          preview paths unifiedDiff v ops = some action.changes)
      fun _ _ => ∀ base ops, effectiveCwd paths cwd args.workdir = .ok base →
        args.hunks.mapM (resolve paths base) = .ok ops → preview paths unifiedDiff v ops = none := by
  refine .bind (.ofResult (fun base hbase => ?_) fun e he base ops hbase => ?_)
  · have hbase' := mapError_eq_ok hbase
    refine (foldlM_verifyHunk_textFs paths base unifiedDiff args.hunks ∅ v).andThen ?_ fun _ _ h base' ops hb => ?_
    · rintro changes v' ⟨rfl, ops, hops, hrun⟩
      exact .value ⟨rfl, hbase', ops, hops, hrun⟩
    · rw [hbase'] at hb
      cases hb
      exact h ops
  · obtain ⟨e', he'⟩ := mapError_eq_error he
    rw [he'] at hbase
    cases hbase

end

end ApplyPatch
