import Codez.Patch.Replace
import Codez.Patch.StreamingParser

/-!
Applying hunks to a filesystem (`apply-patch/src/lib.rs`).
-/

namespace ApplyPatch

open Effect

inductive AppliedPatchFileChange (P : Type) where
  | add (content : Text) (overwrittenContent : Option Text)
  | delete (content : Text)
  | update (movePath : Option P) (oldContent : Text) (overwrittenMoveContent : Option Text)
      (newContent : Text)
deriving DecidableEq

/-- Paths are resolved ones; `to_path_buf` only writes them differently. -/
structure AppliedPatchChange (P : Type) where
  path : P
  change : AppliedPatchFileChange P
deriving DecidableEq

structure AppliedPatchDelta (P : Type) where
  changes : List (AppliedPatchChange P) := []
  exact : Bool := true
deriving DecidableEq

inductive AnyError where
  | bail (message : Text)
  | io (context : Text) (source : IoError)
  | pathUri (message : Text)
  | applyPatch (error : ApplyPatchError)
deriving DecidableEq

structure ApplyPatchFailure (P : Type) where
  error : ApplyPatchError
  delta : AppliedPatchDelta P
deriving DecidableEq

structure AffectedPaths where
  added : List Text := []
  modified : List Text := []
  deleted : List Text := []
deriving DecidableEq

def ApplyPatchError.toText : ApplyPatchError → Text
  | .parseError (.invalidPatchError message) => "invalid patch: ".toList ++ message
  | .parseError (.invalidHunkError message lineNumber) =>
    "invalid hunk at line ".toList ++ Text.natText lineNumber ++ ", ".toList ++ message
  | .ioError context source => context ++ ": ".toList ++ source.message
  | .computeReplacements message => message
  | .pathUri message => message

def AnyError.toText : AnyError → Text
  | .bail message => message
  | .io context _ => context
  | .pathUri message => message
  | .applyPatch error => error.toText

def AnyError.toApplyPatchError : AnyError → ApplyPatchError
  | .io _ source => .ioError "I/O error".toList source
  | error => .ioError error.toText ⟨.other, error.toText⟩

def Hunk.path : Hunk → Text
  | .addFile path _ => path
  | .deleteFile path => path
  | .updateFile _ (some path) _ => path
  | .updateFile path none _ => path

def Hunk.sourcePath : Hunk → Text
  | .addFile path _ => path
  | .deleteFile path => path
  | .updateFile path _ _ => path

def Hunk.resolvePath {P : Type} (paths : PathUri P) (cwd : P) (hunk : Hunk) : Except Text P :=
  paths.join cwd hunk.sourcePath

section
variable {ε σ P : Type} (fs : ExecutorFileSystem σ P) (paths : PathUri P)

def noteExact (free : Bool) : EStateM ε (σ × AppliedPatchDelta P) Unit :=
  modify fun s => (s.1, { s.2 with exact := s.2.exact && free })

def pushChange (change : AppliedPatchChange P) : EStateM ε (σ × AppliedPatchDelta P) Unit :=
  modify fun s => (s.1, { s.2 with changes := s.2.changes ++ [change] })

def setChange (index : Nat) (change : AppliedPatchChange P) : EStateM ε (σ × AppliedPatchDelta P) Unit :=
  modify fun s => (s.1, { s.2 with changes := s.2.changes.set index change })

def supportsDelta : Except IoError FileMetadata → Bool
  | .ok metadata => metadata.isFile && !metadata.isSymlink
  | .error source => source.kind = .notFound

def noteExistingPathDeltaSupport (path : P) : EStateM ε (σ × AppliedPatchDelta P) Unit := do
  noteExact (supportsDelta (← outcome (fs.getMetadata path)))

def readOptionalFileTextForDelta (path : P) : EStateM ε (σ × AppliedPatchDelta P) (Option Text) := do
  noteExistingPathDeltaSupport fs path
  match ← outcome (fs.readFileText path) with
  | .ok content => return some content
  | .error source => do
    noteExact (source.kind = .notFound)
    return none

def ensureNotDirectory (path : P) : EStateM IoError σ Unit := do
  let metadata ← fs.getMetadata path
  if metadata.isDirectory then throw ⟨.invalidInput, "path is a directory".toList⟩ else pure ()

def removeFailureWasSideEffectFree (path : P) (expectedContent : Option Text) :
    EStateM ε (σ × AppliedPatchDelta P) Bool :=
  match expectedContent with
  | some expected => do
    match ← outcome (fs.readFileText path) with
    | .ok content => return content = expected
    | .error _ => return false
  | none => return false

def failedTo (what : String) (path : P) : Text :=
  what.toList ++ " ".toList ++ paths.inferredNativePathString path

def createParent (path : P) : EStateM AnyError (σ × AppliedPatchDelta P) Unit :=
  match paths.parent path with
  | some parent => lift (.io (failedTo paths "Failed to create parent directories for" path))
      (fs.createDirectory parent)
  | none => pure ()

def writeFileWithMissingParentRetry (path : P) (contents : Text) :
    EStateM AnyError (σ × AppliedPatchDelta P) Unit := do
  match ← outcome (fs.writeFile path contents) with
  | .ok () => pure ()
  | .error err =>
    if err.kind = .notFound then do
      createParent fs paths path
      lift (.io (failedTo paths "Failed to write file" path)) (fs.writeFile path contents)
    else throw (.io (failedTo paths "Failed to write file" path) err)

def tryWrite {α : Type} (m : EStateM AnyError (σ × AppliedPatchDelta P) α) :
    EStateM AnyError (σ × AppliedPatchDelta P) α :=
  onError m fun s => (s.1, { s.2 with exact := false })

def removeFile (what : String) (path : P) (expectedContent : Option Text) :
    EStateM AnyError (σ × AppliedPatchDelta P) Unit := do
  lift (.io (failedTo paths what path)) (ensureNotDirectory fs path)
  match ← outcome (fs.remove path) with
  | .ok () => pure ()
  | .error error => do
    noteExact (← removeFailureWasSideEffectFree fs path expectedContent)
    throw (.io (failedTo paths what path) error)

structure AppliedPatch where
  originalContents : Text
  newContents : Text

def deriveNewContentsFromChunks (path : P) (chunks : List UpdateFileChunk) :
    EStateM ApplyPatchError σ AppliedPatch := do
  let originalContents ← mapError (.ioError (failedTo paths "Failed to read file to update" path))
    (fs.readFileText path)
  let newContents ← ofResult
    (deriveNewContents (paths.inferredNativePathString path) chunks originalContents)
  return ⟨originalContents, newContents⟩

end

section
variable {σ P : Type} (fs : ExecutorFileSystem σ P) (paths : PathUri P)

def applyAddFile (pathUri : P) (contents : Text) : EStateM AnyError (σ × AppliedPatchDelta P) Unit := do
  let overwrittenContent ← readOptionalFileTextForDelta fs pathUri
  tryWrite (writeFileWithMissingParentRetry fs paths pathUri contents)
  pushChange ⟨pathUri, .add contents overwrittenContent⟩

def applyDeleteFile (pathUri : P) : EStateM AnyError (σ × AppliedPatchDelta P) Unit := do
  noteExistingPathDeltaSupport fs pathUri
  let deletedContent := (← outcome (fs.readFileText pathUri)).toOption
  noteExact deletedContent.isSome
  removeFile fs paths "Failed to delete file" pathUri deletedContent
  match deletedContent with
  | some content => pushChange ⟨pathUri, .delete content⟩
  | none => pure ()

def applyMove (pathUri destUri : P) (patch : AppliedPatch) :
    EStateM AnyError (σ × AppliedPatchDelta P) Unit := do
  let overwrittenMoveContent ← readOptionalFileTextForDelta fs destUri
  tryWrite (writeFileWithMissingParentRetry fs paths destUri patch.newContents)
  let destWriteChangeIndex := (← get).2.changes.length
  pushChange ⟨destUri, .add patch.newContents overwrittenMoveContent⟩
  removeFile fs paths "Failed to remove original" pathUri (some patch.originalContents)
  -- the two phases become one change
  setChange destWriteChangeIndex ⟨pathUri,
    .update (some destUri) patch.originalContents overwrittenMoveContent patch.newContents⟩

def applyInPlace (pathUri : P) (patch : AppliedPatch) : EStateM AnyError (σ × AppliedPatchDelta P) Unit := do
  tryWrite (lift (.io (failedTo paths "Failed to write file" pathUri))
    (fs.writeFile pathUri patch.newContents))
  pushChange ⟨pathUri, .update none patch.originalContents none patch.newContents⟩

def applyUpdateFile (cwd pathUri : P) (movePath : Option Text) (chunks : List UpdateFileChunk) :
    EStateM AnyError (σ × AppliedPatchDelta P) Unit := do
  noteExistingPathDeltaSupport fs pathUri
  let patch ← lift .applyPatch (deriveNewContentsFromChunks fs paths pathUri chunks)
  match movePath with
  | some dest => do
    let destUri ← ofResult ((paths.join cwd dest).mapError .pathUri)
    applyMove fs paths pathUri destUri patch
  | none => applyInPlace fs paths pathUri patch

def applyHunk (cwd : P) (affected : AffectedPaths) (hunk : Hunk) :
    EStateM AnyError (σ × AppliedPatchDelta P) AffectedPaths := do
  let pathUri ← ofResult ((hunk.resolvePath paths cwd).mapError .pathUri)
  match hunk with
  | .addFile _ contents => do
    applyAddFile fs paths pathUri contents
    return { affected with added := affected.added ++ [hunk.path] }
  | .deleteFile _ => do
    applyDeleteFile fs paths pathUri
    return { affected with deleted := affected.deleted ++ [hunk.path] }
  | .updateFile _ movePath chunks => do
    applyUpdateFile fs paths cwd pathUri movePath chunks
    return { affected with modified := affected.modified ++ [hunk.path] }

def applyHunksToFiles (hunks : List Hunk) (cwd : P) :
    EStateM AnyError (σ × AppliedPatchDelta P) AffectedPaths :=
  if hunks = [] then throw (.bail "No files were modified.".toList)
  else hunks.foldlM (applyHunk fs paths cwd) {}

end

section
variable {σ P : Type}

def printSummary (writeln : Text → EStateM IoError σ Unit) (affected : AffectedPaths) :
    EStateM IoError σ Unit := do
  writeln "Success. Updated the following files:".toList
  affected.added.forM fun path => writeln ("A ".toList ++ path)
  affected.modified.forM fun path => writeln ("M ".toList ++ path)
  affected.deleted.forM fun path => writeln ("D ".toList ++ path)

/-- Writing to `stdout` or `stderr` may fail too; the delta is kept. -/
def applyHunks (fs : ExecutorFileSystem σ P) (paths : PathUri P)
    (stdout stderr : Text → EStateM IoError σ Unit) (hunks : List Hunk) (cwd : P) :
    EStateM (ApplyPatchFailure P) σ (AppliedPatchDelta P) := fun s =>
  match applyHunksToFiles fs paths hunks cwd (s, {}) with
  | .ok affected (s', delta) =>
    match printSummary stdout affected s' with
    | .ok () s' => .ok delta s'
    | .error error s' => .error ⟨.ioError "I/O error".toList error, delta⟩ s'
  | .error error (s', delta) =>
    match stderr error.toText s' with
    | .ok () s' => .error ⟨error.toApplyPatchError, delta⟩ s'
    | .error error s' => .error ⟨.ioError "I/O error".toList error, delta⟩ s'

end

end ApplyPatch
