import Codez.Patch.Apply

/-!
An exact delta is enough to undo a patch.
-/

namespace ApplyPatch

open Effect

variable {ε σ P : Type} {text : σ → TextState P} {s s' s'' : σ × AppliedPatchDelta P} {c : AppliedPatchChange P}

/-- Neither the texts nor the changes are different; `exact` may be cleared. -/
structure Quiet (text : σ → TextState P) (s s' : σ × AppliedPatchDelta P) : Prop where
  text : text s'.1 = text s.1
  changes : s'.2.changes = s.2.changes
  exact : s'.2.exact = true → s.2.exact = true

theorem Quiet.trans (h : Quiet text s s') (h' : Quiet text s' s'') : Quiet text s s'' :=
  ⟨h'.text.trans h.text, h'.changes.trans h.changes, fun he => h.exact (h'.exact he)⟩

theorem noteExact_spec (text : σ → TextState P) (free : Bool) (s : σ × AppliedPatchDelta P) :
    After (noteExact free : EStateM ε _ Unit) s
      (fun _ s' => Quiet text s s' ∧ (s'.2.exact = true → free = true)) fun _ _ => False := by
  refine .modify ⟨⟨rfl, rfl, fun he => ?_⟩, fun he => ?_⟩
  · exact (Bool.and_eq_true_iff.mp he).1
  · exact (Bool.and_eq_true_iff.mp he).2

theorem tryWrite_spec {α : Type} {m : EStateM AnyError (σ × AppliedPatchDelta P) α}
    {ok : α → σ × AppliedPatchDelta P → Prop} (h : After m s ok fun _ _ => True) :
    After (tryWrite m) s ok fun _ s' => s'.2.exact = false :=
  .onError (h.mono (fun _ _ h => h) fun _ _ _ => rfl)

variable [DecidableEq P]

def undoChange (c : AppliedPatchChange P) (v : TextState P) : TextState P :=
  match c.change with
  | .add _ overwrittenContent => Function.update v c.path overwrittenContent
  | .delete content => Function.update v c.path (some content)
  | .update none oldContent _ _ => Function.update v c.path (some oldContent)
  | .update (some movePath) oldContent overwrittenMoveContent _ =>
    Function.update (Function.update v movePath overwrittenMoveContent) c.path (some oldContent)

def undo (changes : List (AppliedPatchChange P)) (v : TextState P) : TextState P :=
  changes.foldr undoChange v

theorem undo_concat (changes : List (AppliedPatchChange P)) (c : AppliedPatchChange P)
    (v : TextState P) : undo (changes ++ [c]) v = undo changes (undoChange c v) := by
  simp [undo]

structure Accounts (text : σ → TextState P) (s s' : σ × AppliedPatchDelta P) : Prop where
  exact : s'.2.exact = true → s.2.exact = true
  undo : s'.2.exact = true → undo s'.2.changes (text s'.1) = undo s.2.changes (text s.1)

theorem Quiet.accounts (h : Quiet text s s') : Accounts text s s' :=
  ⟨h.exact, fun _ => by rw [h.text, h.changes]⟩

theorem Accounts.trans (h : Accounts text s s') (h' : Accounts text s' s'') : Accounts text s s'' :=
  ⟨fun he => h.exact (h'.exact he), fun he => (h'.undo he).trans (h.undo (h'.exact he))⟩

theorem Accounts.of_inexact (h : s'.2.exact = false) : Accounts text s s' :=
  ⟨fun he => absurd he (by simp [h]), fun he => absurd he (by simp [h])⟩

theorem Accounts.of_change (hchs : s'.2.changes = s.2.changes ++ [c])
    (hex : s'.2.exact = true → s.2.exact = true) (hundo : s'.2.exact = true → undoChange c (text s'.1) = text s.1) :
    Accounts text s s' := by
  refine ⟨hex, fun he => ?_⟩
  rw [hchs, undo_concat, hundo he]

theorem pushChange_accounts (hchs : s'.2.changes = s.2.changes) (hex : s'.2.exact = true → s.2.exact = true)
    (hundo : s'.2.exact = true → undoChange c (text s'.1) = text s.1) {bad : ε → _ → Prop} :
    After (pushChange c : EStateM ε _ Unit) s' (fun _ s'' => Accounts text s s'') bad := by
  refine .modify (.of_change (c := c) ?_ hex hundo)
  rw [hchs]

open Function

section
variable {fs : ExecutorFileSystem σ P} (hfs : fs.Textual text) (paths : PathUri P) (path : P)
  (s : σ × AppliedPatchDelta P)

def Shows (v : TextState P) (path : P) : Except IoError Text → Prop
  | .ok content => v path = some content
  | .error e => e.kind = .notFound → v path = none

include hfs

theorem readFileText_outcome :
    After (outcome (fs.readFileText path) : EStateM ε _ _) s
      (fun r s' => Quiet text s s' ∧ Shows (text s.1) path r) fun _ _ => False :=
  .outcome ((hfs.readFileText path s.1).mono (fun _ _ h => ⟨⟨h.1, rfl, id⟩, h.2⟩)
    fun _ _ h => ⟨⟨h.1, rfl, id⟩, h.2⟩)

theorem noteExistingPathDeltaSupport_spec :
    After (noteExistingPathDeltaSupport fs path : EStateM ε _ Unit) s
      (fun _ s' => Quiet text s s') fun _ _ => False := by
  have hmeta : After (outcome (fs.getMetadata path) : EStateM ε _ _) s
      (fun _ s' => Quiet text s s') fun _ _ => False :=
    .outcome ((hfs.getMetadata path s.1).mono (fun _ _ h => ⟨h, rfl, id⟩) fun _ _ h => ⟨h, rfl, id⟩)
  refine hmeta.andThen (fun r s' hq => ?_) fun _ _ h => h
  exact (noteExact_spec text _ s').mono (fun _ _ h => hq.trans h.1) fun _ _ h => h

theorem readOptionalFileTextForDelta_spec :
    After (readOptionalFileTextForDelta fs path : EStateM ε _ _) s
      (fun r s' => Quiet text s s' ∧ (s'.2.exact = true → text s.1 path = r)) fun _ _ => False := by
  refine (noteExistingPathDeltaSupport_spec hfs path s).andThen (fun _ s1 hq1 => ?_) fun _ _ h => h
  refine (readFileText_outcome hfs path s1).andThen (fun r s2 h2 => ?_) fun _ _ h => h
  obtain ⟨hq2, hshows⟩ := h2
  rw [hq1.text] at hshows
  cases r with
  | ok content => exact .value ⟨hq1.trans hq2, fun _ => hshows⟩
  | error e =>
    refine (noteExact_spec text _ s2).andThen (fun _ s3 h3 => ?_) fun _ _ h => h
    refine .value ⟨(hq1.trans hq2).trans h3.1, fun he => hshows ?_⟩
    simpa using h3.2 he

theorem writeFileWithMissingParentRetry_spec (contents : Text)
    (s : σ × AppliedPatchDelta P) :
    After (writeFileWithMissingParentRetry fs paths path contents) s
      (fun _ s' => text s'.1 = update (text s.1) path (some contents) ∧ s'.2 = s.2)
      fun _ s' => s'.2 = s.2 := by
  refine .bind (.outcome ((hfs.writeFile path contents s.1).mono ?_ ?_))
  · intro _ s1 h1
    exact .value ⟨h1, rfl⟩
  · rintro e s1 ⟨left, h1⟩
    show After (if e.kind = .notFound then _ else _) _ _ _
    split
    · -- the failed write may have left something, which the second write replaces
      have hparent : After (createParent fs paths path) (s1, s.2)
          (fun _ s' => text s'.1 = text s1 ∧ s'.2 = s.2) fun _ s' => s'.2 = s.2 := by
        unfold createParent
        split
        · next parent _ =>
          exact .lift ((hfs.createDirectory parent s1).mono (fun _ _ h => ⟨h, rfl⟩) fun _ _ _ => rfl)
        · exact .value ⟨rfl, rfl⟩
      refine hparent.andThen (fun _ s2 h2 => ?_) fun _ _ h => h
      refine .lift ((hfs.writeFile path contents s2.1).mono (fun _ s3 h3 => ⟨?_, h2.2⟩) fun _ _ _ => h2.2)
      show text s3 = _
      rw [h3, h2.1, h1, update_idem]
    · exact .error rfl

theorem removeFailureWasSideEffectFree_spec (expectedContent : Option Text)
    (s : σ × AppliedPatchDelta P) :
    After (removeFailureWasSideEffectFree fs path expectedContent : EStateM ε _ _) s
      (fun free s' => Quiet text s s' ∧ (free = true → text s.1 path ≠ none)) fun _ _ => False := by
  cases expectedContent with
  | none => exact .value ⟨⟨rfl, rfl, id⟩, by simp⟩
  | some expected =>
    refine (readFileText_outcome hfs path s).andThen (fun r s1 h1 => ?_) fun _ _ h => h
    cases r with
    | ok content =>
      refine .value ⟨h1.1, fun _ => ?_⟩
      have hshows : text s.1 path = some content := h1.2
      simp [hshows]
    | error e => exact .value ⟨h1.1, by simp⟩

theorem removeFile_spec (what : String) (expectedContent : Option Text)
    (s : σ × AppliedPatchDelta P) :
    After (removeFile fs paths what path expectedContent) s
      (fun _ s' => text s'.1 = update (text s.1) path none ∧ s'.2 = s.2)
      fun _ s' => Accounts text s s' := by
  have hcheck : After (lift (AnyError.io (failedTo paths what path)) (ensureNotDirectory fs path)) s
      (fun _ s' => text s'.1 = text s.1 ∧ s'.2 = s.2) fun _ s' => Accounts text s s' := by
    refine .lift (.bind ((hfs.getMetadata path s.1).mono ?_ ?_))
    · intro m s1 h1
      show After (if m.isDirectory = true then _ else _) _ _ _
      split
      · exact .error (Quiet.accounts ⟨h1, rfl, id⟩)
      · exact .value ⟨h1, rfl⟩
    · intro _ s1 h1
      exact Quiet.accounts ⟨h1, rfl, id⟩
  refine hcheck.andThen (fun _ s1 h1 => ?_) fun _ _ h => h
  refine .bind (.outcome ((hfs.remove path s1.1).mono ?_ ?_))
  · intro _ s2 h2
    refine .value ⟨?_, h1.2⟩
    show text s2 = _
    rw [h2, h1.1]
  · intro e s2 h2
    refine (removeFailureWasSideEffectFree_spec hfs path expectedContent (s2, s1.2)).andThen
      (fun free s3 h3 => ?_) fun _ _ h => h.elim
    refine (noteExact_spec text free s3).andThen (fun _ s4 h4 => ?_) fun _ _ h => h.elim
    refine .error ⟨fun he => ?_, fun he => ?_⟩
    · rw [← h1.2]
      exact h3.1.exact (h4.1.exact he)
    · -- the file is still there, so it was not removed
      have ht : text s2 = text s1.1 := by
        rcases h2 with h2 | h2
        · exact h2
        · refine absurd ?_ (h3.2 (h4.2 he))
          show text s2 path = none
          rw [h2, update_self]
      rw [h4.1.changes, h4.1.text, h3.1.changes, h3.1.text]
      show undo s1.2.changes (text s2) = _
      rw [ht, h1.1, h1.2]

end

structure Written (text : σ → TextState P) (path : P) (contents : Text) (overwritten : Option Text)
    (s s' : σ × AppliedPatchDelta P) : Prop where
  texts : text s'.1 = Function.update (text s.1) path (some contents)
  changes : s'.2.changes = s.2.changes
  exact : s'.2.exact = true → s.2.exact = true
  overwritten : s'.2.exact = true → text s.1 path = overwritten

theorem Written.undoAdd {path : P} {contents : Text} {overwritten : Option Text}
    (h : Written text path contents overwritten s s') (he : s'.2.exact = true) :
    undoChange ⟨path, .add contents overwritten⟩ (text s'.1) = text s.1 := by
  show update (text s'.1) path overwritten = text s.1
  rw [h.texts, update_idem, ← h.overwritten he, update_eq_self]

section
variable {fs : ExecutorFileSystem σ P} (hfs : fs.Textual text) (paths : PathUri P) (pathUri : P)

include hfs

theorem readThenWrite_spec {β : Type} {k : Option Text → EStateM AnyError (σ × AppliedPatchDelta P) β}
    (contents : Text) (s : σ × AppliedPatchDelta P) {ok : β → σ × AppliedPatchDelta P → Prop}
    (hk : ∀ overwritten s', Written text pathUri contents overwritten s s' →
      After (k overwritten) s' ok fun _ s'' => Accounts text s s'') :
    After (readOptionalFileTextForDelta fs pathUri >>= fun overwritten =>
        tryWrite (writeFileWithMissingParentRetry fs paths pathUri contents) >>= fun _ => k overwritten) s
      ok fun _ s' => Accounts text s s' := by
  refine (readOptionalFileTextForDelta_spec hfs pathUri s).andThen (fun overwritten s1 h1 => ?_)
    fun _ _ h => h.elim
  have hwr := writeFileWithMissingParentRetry_spec hfs paths pathUri contents s1
  refine (tryWrite_spec (hwr.mono (fun _ _ h => h) fun _ _ _ => trivial)).andThen
    (fun _ s2 h2 => hk overwritten s2 ?_) fun _ _ h => .of_inexact h
  obtain ⟨ht, hdel⟩ := h2
  refine ⟨by rw [ht, h1.1.text], by rw [hdel, h1.1.changes], fun he => ?_, fun he => ?_⟩
  · rw [hdel] at he
    exact h1.1.exact he
  · rw [hdel] at he
    exact h1.2 he

theorem applyAddFile_accounts (contents : Text) (s : σ × AppliedPatchDelta P) :
    After (applyAddFile fs paths pathUri contents) s (fun _ s' => Accounts text s s')
      fun _ s' => Accounts text s s' := by
  refine readThenWrite_spec hfs paths pathUri contents s fun overwritten s1 h1 => ?_
  exact pushChange_accounts h1.changes h1.exact h1.undoAdd

theorem applyDeleteFile_accounts (s : σ × AppliedPatchDelta P) :
    After (applyDeleteFile fs paths pathUri) s (fun _ s' => Accounts text s s')
      fun _ s' => Accounts text s s' := by
  refine (noteExistingPathDeltaSupport_spec hfs pathUri s).andThen (fun _ s1 hq1 => ?_) fun _ _ h => h.elim
  refine (readFileText_outcome hfs pathUri s1).andThen (fun r s2 h2 => ?_) fun _ _ h => h.elim
  refine (noteExact_spec text r.toOption.isSome s2).andThen (fun _ s3 h3 => ?_) fun _ _ h => h.elim
  have hq : Quiet text s s3 := (hq1.trans h2.1).trans h3.1
  refine (removeFile_spec hfs paths pathUri _ r.toOption s3).andThen (fun _ s4 h4 => ?_)
    fun _ _ h => hq.accounts.trans h
  cases r with
  | error e =>
    -- what was removed is not known
    refine .value (.of_inexact ?_)
    rw [h4.2, Bool.eq_false_iff]
    exact fun he => absurd (h3.2 he) (by simp [Except.toOption])
  | ok content =>
    have hcontent : text s.1 pathUri = some content := by
      rw [← hq1.text]
      exact h2.2
    refine pushChange_accounts (by rw [h4.2, hq.changes]) (fun he => hq.exact (by rwa [← h4.2])) fun _ => ?_
    show update (text s4.1) pathUri (some content) = text s.1
    rw [h4.1, hq.text, update_idem, ← hcontent, update_eq_self]

theorem applyMove_accounts (destUri : P) (patch : AppliedPatch) (s : σ × AppliedPatchDelta P)
    (hread : text s.1 pathUri = some patch.originalContents) :
    After (applyMove fs paths pathUri destUri patch) s (fun _ s' => Accounts text s s')
      fun _ s' => Accounts text s s' := by
  refine readThenWrite_spec hfs paths destUri patch.newContents s fun overwritten s1 h1 => ?_
  refine .bind (.get ?_)
  have hadd : After (pushChange ⟨destUri, .add patch.newContents overwritten⟩ : EStateM AnyError _ _) s1
      (fun _ s' => Accounts text s s' ∧ s'.1 = s1.1 ∧ s'.2.exact = s1.2.exact ∧
        s'.2.changes = s1.2.changes ++ [⟨destUri, .add patch.newContents overwritten⟩])
      fun _ s' => Accounts text s s' :=
    .modify ⟨.of_change (congrArg (· ++ _) h1.changes) h1.exact h1.undoAdd, rfl, rfl, rfl⟩
  refine hadd.andThen (fun _ s2 h2 => ?_) fun _ _ h => h
  obtain ⟨haccounts, hst, hex, hchs⟩ := h2
  refine (removeFile_spec hfs paths pathUri _ _ s2).andThen (fun _ s3 h3 => ?_)
    fun _ _ h => haccounts.trans h
  refine .modify (.of_change (c := ⟨pathUri,
    .update (some destUri) patch.originalContents overwritten patch.newContents⟩) ?_ ?_ ?_)
  · show s3.2.changes.set s1.2.changes.length _ = _
    rw [h3.2, hchs, ← h1.changes]
    simp
  · intro he
    exact h1.exact (by rw [← hex, ← h3.2]; exact he)
  · intro he
    have hover := h1.overwritten (by rw [← hex, ← h3.2]; exact he)
    show update (update (text s3.1) destUri overwritten) pathUri
      (some patch.originalContents) = text s.1
    rw [h3.1, hst, h1.texts, ← hover, ← hread]
    funext q
    by_cases hq : q = pathUri
    · rw [hq, update_self]
    · by_cases hq' : q = destUri
      · rw [update_of_ne hq, hq', update_self]
      · simp [update_of_ne, hq, hq']

theorem applyInPlace_accounts (patch : AppliedPatch) (s : σ × AppliedPatchDelta P)
    (hread : text s.1 pathUri = some patch.originalContents) :
    After (applyInPlace fs paths pathUri patch) s (fun _ s' => Accounts text s s')
      fun _ s' => Accounts text s s' := by
  have hwr : After (lift (AnyError.io (failedTo paths "Failed to write file" pathUri))
      (fs.writeFile pathUri patch.newContents)) s
      (fun _ s' => text s'.1 = update (text s.1) pathUri (some patch.newContents) ∧ s'.2 = s.2)
      fun _ _ => True :=
    .lift ((hfs.writeFile pathUri patch.newContents s.1).mono (fun _ _ h => ⟨h, rfl⟩) fun _ _ _ => trivial)
  refine (tryWrite_spec hwr).andThen (fun _ s1 h1 => ?_) fun _ _ h => .of_inexact h
  refine pushChange_accounts (by rw [h1.2]) (fun he => by rwa [← h1.2]) fun _ => ?_
  show update (text s1.1) pathUri (some patch.originalContents) = text s.1
  rw [h1.1, update_idem, ← hread, update_eq_self]

theorem deriveNewContentsFromChunks_spec (chunks : List UpdateFileChunk) (s : σ) :
    After (deriveNewContentsFromChunks fs paths pathUri chunks) s
      (fun patch s' => text s' = text s ∧ text s pathUri = some patch.originalContents)
      fun _ s' => text s' = text s := by
  refine .bind (.mapError ((hfs.readFileText pathUri s).mono (fun original s1 h1 => ?_) fun _ _ h => h.1))
  refine .bind (.ofResult (fun new _ => ?_) fun _ _ => h1.1)
  exact .value h1

theorem applyUpdateFile_accounts (cwd : P) (mv : Option Text) (chunks : List UpdateFileChunk)
    (s : σ × AppliedPatchDelta P) :
    After (applyUpdateFile fs paths cwd pathUri mv chunks) s (fun _ s' => Accounts text s s')
      fun _ s' => Accounts text s s' := by
  refine (noteExistingPathDeltaSupport_spec hfs pathUri s).andThen (fun _ s1 hq1 => ?_) fun _ _ h => h.elim
  have hderive : After (lift AnyError.applyPatch (deriveNewContentsFromChunks fs paths pathUri chunks)) s1
      (fun patch s' => Quiet text s s' ∧ text s'.1 pathUri = some patch.originalContents)
      fun _ s' => Accounts text s s' := by
    refine .lift ((deriveNewContentsFromChunks_spec hfs paths pathUri chunks s1.1).mono ?_ ?_)
    · intro patch s2 h2
      refine ⟨hq1.trans ⟨h2.1, rfl, id⟩, ?_⟩
      show text s2 pathUri = _
      rw [h2.1, h2.2]
    · intro _ s2 h2
      have hq2 : Quiet text s1 (s2, s1.2) := ⟨h2, rfl, id⟩
      exact (hq1.trans hq2).accounts
  refine hderive.andThen (fun patch s2 h2 => ?_) fun _ _ h => h
  obtain ⟨hq, hread⟩ := h2
  cases mv with
  | none =>
    exact (applyInPlace_accounts hfs paths pathUri patch s2 hread).mono
      (fun _ _ h => hq.accounts.trans h) fun _ _ h => hq.accounts.trans h
  | some dest =>
    refine .bind (.ofResult (fun destUri _ => ?_) fun _ _ => hq.accounts)
    exact (applyMove_accounts hfs paths pathUri destUri patch s2 hread).mono
      (fun _ _ h => hq.accounts.trans h) fun _ _ h => hq.accounts.trans h

omit pathUri in
theorem applyHunk_accounts (cwd : P) (affected : AffectedPaths) (hunk : Hunk) (s : σ × AppliedPatchDelta P) :
    After (applyHunk fs paths cwd affected hunk) s (fun _ s' => Accounts text s s')
      fun _ s' => Accounts text s s' := by
  refine .bind (.ofResult (fun pathUri _ => ?_) fun _ _ => Quiet.accounts ⟨rfl, rfl, id⟩)
  cases hunk with
  | addFile path contents =>
    exact (applyAddFile_accounts hfs paths pathUri contents s).andThen (fun _ _ h => h) fun _ _ h => h
  | deleteFile path =>
    exact (applyDeleteFile_accounts hfs paths pathUri s).andThen (fun _ _ h => h) fun _ _ h => h
  | updateFile path mv chunks =>
    exact (applyUpdateFile_accounts hfs paths pathUri cwd mv chunks s).andThen (fun _ _ h => h)
      fun _ _ h => h

theorem applyHunksToFiles_accounts (hunks : List Hunk) (cwd : P) (s : σ × AppliedPatchDelta P) :
    After (applyHunksToFiles fs paths hunks cwd) s (fun _ s' => Accounts text s s')
      fun _ s' => Accounts text s s' := by
  unfold applyHunksToFiles
  split
  · exact .error (Quiet.accounts ⟨rfl, rfl, id⟩)
  · refine After.foldlM (fun affected hunk s1 h1 => ?_) hunks ({} : AffectedPaths) (Quiet.accounts ⟨rfl, rfl, id⟩)
    exact (applyHunk_accounts hfs paths cwd affected hunk s1).mono (fun _ _ h => h1.trans h)
      fun _ _ h => h1.trans h

end

/-! ## Entry point -/

omit [DecidableEq P] in
theorem printSummary_silent {writeln : Text → EStateM IoError σ Unit}
    (hwriteln : ∀ line, Silent text (writeln line)) (affected : AffectedPaths) :
    Silent text (printSummary writeln affected) := by
  have hls : ∀ (sign : Text) (paths : List Text),
      Silent text (paths.forM fun path => writeln (sign ++ path)) := by
    intro sign paths
    induction paths with
    | nil =>
      intro s
      exact .value rfl
    | cons path paths ih => exact (hwriteln (sign ++ path)).andThen fun _ => ih
  exact (hwriteln _).andThen fun _ => (hls _ _).andThen fun _ => (hls _ _).andThen fun _ => hls _ _

/-- **An exact delta is enough to undo a patch.**  Whatever fails, of the filesystem's
operations or of the writers, and whether the run ends well or not: undoing an exact delta
gives the texts of the start. -/
theorem applyHunks_undo (fs : ExecutorFileSystem σ P) (hfs : fs.Textual text) (paths : PathUri P)
    (stdout stderr : Text → EStateM IoError σ Unit) (hstdout : ∀ line, Silent text (stdout line))
    (hstderr : ∀ line, Silent text (stderr line)) (hunks : List Hunk) (cwd : P) (s : σ) :
    After (applyHunks fs paths stdout stderr hunks cwd) s
      (fun delta s' => delta.exact = true → undo delta.changes (text s') = text s)
      fun failure s' => failure.delta.exact = true → undo failure.delta.changes (text s') = text s := by
  have hrun := applyHunksToFiles_accounts hfs paths hunks cwd (s, {})
  -- what is written to the outputs afterwards does not matter
  have hundo : ∀ s1 s2, Accounts text (s, {}) s1 → text s2 = text s1.1 →
      s1.2.exact = true → undo s1.2.changes (text s2) = text s := by
    intro s1 s2 haccounts ht he
    rw [ht]
    exact haccounts.undo he
  cases hfiles : applyHunksToFiles fs paths hunks cwd (s, {}) with
  | ok affected s1 =>
    have haccounts := hrun.of_ok hfiles
    have hprint := printSummary_silent hstdout affected s1.1
    cases hsummary : printSummary stdout affected s1.1 with
    | ok u s2 =>
      simp only [After, applyHunks, hfiles, hsummary]
      exact hundo s1 s2 haccounts (hprint.of_ok hsummary)
    | error e s2 =>
      simp only [After, applyHunks, hfiles, hsummary]
      exact hundo s1 s2 haccounts (hprint.of_error hsummary)
  | error error s1 =>
    have haccounts := hrun.of_error hfiles
    have hprint := hstderr error.toText s1.1
    cases hmessage : stderr error.toText s1.1 with
    | ok u s2 =>
      simp only [After, applyHunks, hfiles, hmessage]
      exact hundo s1 s2 haccounts (hprint.of_ok hmessage)
    | error e s2 =>
      simp only [After, applyHunks, hfiles, hmessage]
      exact hundo s1 s2 haccounts (hprint.of_error hmessage)

/-! ## Scripted failures -/

/-- How an operation ends.  A failing write leaves `left` in its target; a failing remove has
removed its target if `left` is `none`. -/
inductive Fate where
  | succeeds
  | fails (kind : ErrorKind) (left : Option Text)

structure Scripted (P : Type) where
  texts : TextState P
  script : List Fate

def Scripted.fate (s : Scripted P) : Fate := s.script.head?.getD .succeeds

def Scripted.next (s : Scripted P) (texts : TextState P) : Scripted P := ⟨texts, s.script.tail⟩

/-- A failing operation does not say `NotFound` about a path that is there. -/
def Scripted.error (s : Scripted P) (p : P) (kind : ErrorKind) : IoError :=
  ⟨if (s.texts p).isSome then .other else kind, "scripted".toList⟩

def scriptedFs (P : Type) [DecidableEq P] : ExecutorFileSystem (Scripted P) P where
  readFileText p s :=
    match s.fate, s.texts p with
    | .succeeds, some content => .ok content (s.next s.texts)
    | .succeeds, none => .error notFoundError (s.next s.texts)
    | .fails kind _, _ => .error (s.error p kind) (s.next s.texts)
  writeFile p content s :=
    match s.fate with
    | .succeeds => .ok () (s.next (Function.update s.texts p (some content)))
    | .fails kind left => .error ⟨kind, []⟩ (s.next (Function.update s.texts p left))
  createDirectory _ s :=
    match s.fate with
    | .succeeds => .ok () (s.next s.texts)
    | .fails kind _ => .error ⟨kind, []⟩ (s.next s.texts)
  getMetadata p s :=
    match s.fate, s.texts p with
    | .succeeds, some _ => .ok ⟨false, true, false⟩ (s.next s.texts)
    | .succeeds, none => .error notFoundError (s.next s.texts)
    | .fails kind _, _ => .error (s.error p kind) (s.next s.texts)
  remove p s :=
    match s.fate, s.texts p with
    | .succeeds, some _ => .ok () (s.next (Function.update s.texts p none))
    | .succeeds, none => .error notFoundError (s.next s.texts)
    | .fails kind left, _ =>
      .error (s.error p kind) (s.next (if left = none then Function.update s.texts p none else s.texts))

open Scripted

theorem scriptedFs_textual (P : Type) [DecidableEq P] : (scriptedFs P).Textual texts where
  readFileText p s := by
    cases hf : s.fate <;> cases ht : s.texts p <;>
      simp [After, scriptedFs, hf, ht, next, error]
  writeFile p content s := by
    cases hf : s.fate with
    | succeeds => simp [After, scriptedFs, hf, next]
    | fails kind left =>
      simp only [After, scriptedFs, hf, next]
      exact ⟨left, rfl⟩
  createDirectory p s := by
    cases hf : s.fate <;> simp [After, scriptedFs, hf, next]
  getMetadata p s := by
    cases hf : s.fate <;> cases ht : s.texts p <;>
      simp [After, scriptedFs, hf, ht, next]
  remove p s := by
    cases hf : s.fate with
    | succeeds => cases ht : s.texts p <;> simp [After, scriptedFs, hf, ht, next]
    | fails kind left =>
      simp only [After, scriptedFs, hf, next]
      split
      · exact .inr rfl
      · exact .inl rfl

def flatPaths : PathUri Text where
  join _ path := .ok path
  parent _ := some []
  inferredNativePathString path := path

def oneFile : TextState Text := Function.update (fun _ => none) "a.txt".toList (some "old\n".toList)

def moveHunk : Hunk :=
  .updateFile "a.txt".toList (some "b.txt".toList) [{ oldLines := ["old".toList], newLines := ["new".toList] }]

/-- The write finds no directory and leaves something; the second one succeeds.  The source is
then not removed, and can still be read. -/
def roughRide : List Fate :=
  [.succeeds, .succeeds, .succeeds, .succeeds, .fails .notFound (some "ne".toList), .succeeds, .succeeds,
   .succeeds, .fails .other (some []), .succeeds]

theorem applyHunks_undo_roughRide :
    ∃ failure s', applyHunks (scriptedFs Text) flatPaths (fun _ => pure ()) (fun _ => pure ()) [moveHunk] []
        ⟨oneFile, roughRide⟩ = .error failure s' ∧
      failure.delta = { changes := [⟨"b.txt".toList, .add "new\n".toList none⟩], exact := true } ∧
      s'.texts "b.txt".toList = some "new\n".toList ∧ undo failure.delta.changes s'.texts = oneFile := by
  have hundo := applyHunks_undo (scriptedFs Text) (scriptedFs_textual Text) flatPaths (fun _ => pure ())
    (fun _ => pure ()) (fun _ _ => .value rfl) (fun _ _ => .value rfl) [moveHunk] [] ⟨oneFile, roughRide⟩
  refine ⟨_, _, rfl, by decide, by decide, ?_⟩
  exact hundo.of_error rfl (by decide)

end ApplyPatch
