import Codez.AbsolutePath
import Codez.Lib.LongestPrefix

/-!
The file system policy of the sandbox (`codex-protocol`, `permissions.rs`): its entries,
how they resolve to absolute paths, and the pointwise answers
`can_read_path_with_cwd` and `can_write_path_with_cwd`.

`World` is what the code reads from outside: the process environment, `TMPDIR` and the file system.
-/

namespace Permissions

open Codex PosixPath

inductive FileSystemAccessMode where
  | read
  | write
  | deny
deriving DecidableEq

namespace FileSystemAccessMode

def canRead (m : FileSystemAccessMode) : Bool := m != .deny

def canWrite (m : FileSystemAccessMode) : Bool := m == .write

def rank : FileSystemAccessMode → Nat
  | read => 0
  | write => 1
  | deny => 2

theorem rank_injective : Function.Injective rank := by
  intro a b h
  cases a <;> cases b <;> first | rfl | cases h

instance : LinearOrder FileSystemAccessMode := LinearOrder.lift' rank rank_injective

end FileSystemAccessMode

inductive FileSystemSpecialPath where
  | root
  | minimal
  | projectRoots (subpath : Option Text)
  | tmpdir
  | slashTmp
  | unknown (path : Text) (subpath : Option Text)
deriving DecidableEq

inductive FileSystemPath where
  | path (path : AbsolutePathBuf)
  | globPattern (pattern : Text)
  | special (value : FileSystemSpecialPath)
deriving DecidableEq

structure FileSystemSandboxEntry where
  path : FileSystemPath
  access : FileSystemAccessMode
deriving DecidableEq

inductive FileSystemSandboxKind where
  | restricted
  | unrestricted
  | externalSandbox
deriving DecidableEq

structure FileSystemSandboxPolicy where
  kind : FileSystemSandboxKind
  entries : List FileSystemSandboxEntry
deriving DecidableEq

structure ResolvedFileSystemEntry where
  path : AbsolutePathBuf
  access : FileSystemAccessMode
deriving DecidableEq

inductive FileType where
  | file
  | dir
  | symlink
  | other
deriving DecidableEq

structure FileSystem where
  symlinkMetadata : AbsolutePathBuf → Option FileType
  canonicalize : AbsolutePathBuf → Option AbsolutePathBuf
  isFile : AbsolutePathBuf → Bool
  isDir : AbsolutePathBuf → Bool
  exists_ : AbsolutePathBuf → Bool
  readToString : AbsolutePathBuf → Option Text

structure World where
  env : ProcessEnv
  tmpdir : Option Text
  fs : FileSystem

def protectedMetadataPathNames : List Text := [".git".toList, ".agents".toList, ".codex".toList]

def metadataPathName (name : Text) : Option Text := protectedMetadataPathNames.find? (· == name)

variable (w : World)

def slashTmpPath : AbsolutePathBuf := ⟨["tmp".toList], by decide⟩

def resolveFileSystemSpecialPath (value : FileSystemSpecialPath) (cwd : Option AbsolutePathBuf) :
    Option AbsolutePathBuf :=
  match value with
  | .root | .minimal | .unknown _ _ => none
  | .projectRoots subpath =>
    cwd.map fun cwd =>
      match subpath with
      | some subpath => AbsolutePathBuf.resolvePathAgainstBase w.env subpath cwd
      | none => cwd
  | .tmpdir =>
    w.tmpdir.bind fun tmpdir => if tmpdir = [] then none else AbsolutePathBuf.fromAbsolutePath w.env tmpdir
  | .slashTmp => if w.fs.isDir slashTmpPath then some slashTmpPath else none

def resolveFileSystemPath (path : FileSystemPath) (cwd : Option AbsolutePathBuf) : Option AbsolutePathBuf :=
  match path with
  | .path path => some path
  | .globPattern _ => none
  | .special value => resolveFileSystemSpecialPath w value cwd

def absoluteRootPathForCwd (_cwd : AbsolutePathBuf) : AbsolutePathBuf := .root

def resolveEntryPath (path : FileSystemPath) (cwd : Option AbsolutePathBuf) : Option AbsolutePathBuf :=
  match path with
  | .special .root => cwd.map absoluteRootPathForCwd
  | _ => resolveFileSystemPath w path cwd

def resolveCandidatePath (path cwd : Text) : Option AbsolutePathBuf :=
  if isAbsolute path then AbsolutePathBuf.fromAbsolutePath w.env path
  else (AbsolutePathBuf.fromAbsolutePath w.env cwd).map fun cwd => cwd.join w.env path

def resolvedEntryPrecedence (entry : ResolvedFileSystemEntry) : Nat ×ₗ FileSystemAccessMode :=
  toLex (entry.path.components.length, entry.access)

def samePath (a b : Text) : Bool := components a == components b

def sameSubpath : Option Text → Option Text → Bool
  | some a, some b => samePath a b
  | none, none => true
  | _, _ => false

def specialPathsShareTarget : FileSystemSpecialPath → FileSystemSpecialPath → Bool
  | .root, .root | .minimal, .minimal | .tmpdir, .tmpdir | .slashTmp, .slashTmp => true
  | .projectRoots left, .projectRoots right => sameSubpath left right
  | .unknown left leftSubpath, .unknown right rightSubpath =>
    left == right && sameSubpath leftSubpath rightSubpath
  | _, _ => false

def specialPathMatchesAbsolutePath (value : FileSystemSpecialPath) (path : AbsolutePathBuf) : Bool :=
  match value with
  | .root => path.names.isEmpty
  | .slashTmp => path == slashTmpPath
  | _ => false

def fileSystemPathsShareTarget : FileSystemPath → FileSystemPath → Bool
  | .path left, .path right => left == right
  | .special left, .special right => specialPathsShareTarget left right
  | .path path, .special value | .special value, .path path => specialPathMatchesAbsolutePath value path
  | .globPattern left, .globPattern right => left == right
  | .globPattern _, _ | _, .globPattern _ => false

def metadataChild (target : AbsolutePathBuf) (entry : ResolvedFileSystemEntry) : Option (AbsolutePathBuf × Text) :=
  if entry.access.canWrite then
    match target.stripPrefix entry.path with
    | some (firstComponent :: _) =>
      (metadataPathName firstComponent).map fun name => (entry.path.join w.env name, name)
    | _ => none
  else none

namespace FileSystemSandboxPolicy

variable (self : FileSystemSandboxPolicy)

def hasRootAccess (predicate : FileSystemAccessMode → Bool) : Bool :=
  self.kind == .restricted &&
    self.entries.any fun entry => entry.path == .special .root && predicate entry.access

def hasSameTargetWriteOverride (entry : FileSystemSandboxEntry) : Bool :=
  self.entries.any fun candidate =>
    candidate.access.canWrite && decide (candidate.access > entry.access) &&
      fileSystemPathsShareTarget candidate.path entry.path

def hasWriteNarrowingEntries : Bool :=
  self.kind == .restricted &&
    self.entries.any fun entry =>
      if entry.access.canWrite then false
      else
        match entry.path with
        | .path _ => !self.hasSameTargetWriteOverride entry
        | .globPattern _ => true
        | .special value =>
          match value with
          | .root => entry.access == .deny
          | .minimal | .unknown _ _ => false
          | _ => !self.hasSameTargetWriteOverride entry

def hasFullDiskWriteAccess : Bool :=
  match self.kind with
  | .unrestricted | .externalSandbox => true
  | .restricted => self.hasRootAccess FileSystemAccessMode.canWrite && !self.hasWriteNarrowingEntries

def resolvedEntriesWithCwd (cwd : Text) : List ResolvedFileSystemEntry :=
  let cwdAbsolute := AbsolutePathBuf.fromAbsolutePath w.env cwd
  self.entries.filterMap fun entry =>
    (resolveEntryPath w entry.path cwdAbsolute).map fun path => ⟨path, entry.access⟩

def resolveAccessWithCwd (path cwd : Text) : FileSystemAccessMode :=
  match self.kind with
  | .unrestricted | .externalSandbox => .write
  | .restricted =>
    match resolveCandidatePath w path cwd with
    | none => .deny
    | some path =>
      ((LongestPrefix.maxByKey resolvedEntryPrecedence
        ((self.resolvedEntriesWithCwd w cwd).filter fun entry => entry.path.names <+: path.names)).map
          ResolvedFileSystemEntry.access).getD .deny

def canReadPathWithCwd (path cwd : Text) : Bool := (self.resolveAccessWithCwd w path cwd).canRead

/-- The first writable entry, in list order, whose metadata child `target` is or lies in:
that child and its name. -/
def metadataChildOfWritableRoot (target : AbsolutePathBuf) (cwd : Text) : Option (AbsolutePathBuf × Text) :=
  (self.resolvedEntriesWithCwd w cwd).findSome? (metadataChild w target)

def hasExplicitWriteEntryForMetadataPath (protectedMetadataPath target : AbsolutePathBuf) (cwd : Text) : Bool :=
  (self.resolvedEntriesWithCwd w cwd).any fun entry =>
    entry.access.canWrite && target.startsWith entry.path && entry.path.startsWith protectedMetadataPath

def isMetadataWriteDenied (path cwd : Text) : Bool :=
  if self.kind != .restricted then false
  else
    match resolveCandidatePath w path cwd with
    | none => true
    | some target =>
      match self.metadataChildOfWritableRoot w target cwd with
      | none => false
      | some (protectedMetadataPath, _) =>
        !self.hasExplicitWriteEntryForMetadataPath w protectedMetadataPath target cwd

def canWritePathWithCwd (path cwd : Text) : Bool :=
  if !(self.resolveAccessWithCwd w path cwd).canWrite then false
  else if self.hasFullDiskWriteAccess then true
  else !self.isMetadataWriteDenied w path cwd

end FileSystemSandboxPolicy

def bareWorld : World where
  env := {}
  tmpdir := none
  fs :=
    { symlinkMetadata := fun _ => none
      canonicalize := fun _ => none
      isFile := fun _ => false
      isDir := fun _ => false
      exists_ := fun _ => false
      readToString := fun _ => none }

end Permissions
