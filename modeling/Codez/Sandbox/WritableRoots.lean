import Codez.Sandbox.Resolution

/-!
The writable roots that OS sandboxes are built from (`get_writable_roots_with_cwd`), and
how they compare with the pointwise answer.

Every writable entry that can itself be written becomes a root; the non-writable entries below it
and its own metadata directories are carved out.
-/

namespace Permissions

open Codex PosixPath LongestPrefix

variable (w : World)

def shouldPreserveLogicalPath (logical : AbsolutePathBuf) : Bool :=
  logical.ancestors.any fun ancestor =>
    w.fs.symlinkMetadata ancestor == some .symlink && decide (2 ≤ ancestor.names.length)

def canonicalizePreservingSymlinks (path : AbsolutePathBuf) : AbsolutePathBuf :=
  match w.fs.canonicalize path with
  | some canonical => if shouldPreserveLogicalPath w path && canonical != path then path else canonical
  | none => path

def normalizeEffectiveAbsolutePath (path : AbsolutePathBuf) : AbsolutePathBuf :=
  (path.ancestors.findSome? fun ancestor =>
    if (w.fs.symlinkMetadata ancestor).isNone then none
    else some (AbsolutePathBuf.append (canonicalizePreservingSymlinks w ancestor) path ancestor.names.length)).getD path

def dedupAbsolutePaths (paths : List AbsolutePathBuf) (normalizeEffectivePaths : Bool) : List AbsolutePathBuf :=
  paths.foldl (fun deduped path =>
    let dedupPath := if normalizeEffectivePaths then normalizeEffectiveAbsolutePath w path else path
    if dedupPath ∈ deduped then deduped else deduped ++ [dedupPath]) []

def isGitPointerFile (path : AbsolutePathBuf) : Bool :=
  w.fs.isFile path && path.names.getLast? == some ".git".toList

def resolveGitdirFromFile (dotGit : AbsolutePathBuf) : Option AbsolutePathBuf := do
  let contents ← w.fs.readToString dotGit
  let trimmed := Text.trim contents
  let gitdirRaw ← Text.afterFirst [':'] trimmed
  let key := trimmed.takeWhile (· != ':')
  if Text.trim key ≠ "gitdir".toList then none
  else
    let gitdirRaw := Text.trim gitdirRaw
    if gitdirRaw = [] then none
    else
      let base ← dotGit.parent
      let gitdirPath := AbsolutePathBuf.resolvePathAgainstBase w.env gitdirRaw base
      if w.fs.exists_ gitdirPath then some gitdirPath else none

def defaultReadOnlySubpathsForWritableRoot (writableRoot : AbsolutePathBuf) (protectMissingDotCodex : Bool) :
    List AbsolutePathBuf :=
  let topLevelGit := writableRoot.join w.env ".git".toList
  let topLevelAgents := writableRoot.join w.env ".agents".toList
  let topLevelCodex := writableRoot.join w.env ".codex".toList
  let git :=
    if w.fs.isDir topLevelGit || w.fs.isFile topLevelGit then
      (if w.fs.isFile topLevelGit && isGitPointerFile w topLevelGit then
        (resolveGitdirFromFile w topLevelGit).toList
      else []) ++ [topLevelGit]
    else []
  let agents := if w.fs.isDir topLevelAgents then [topLevelAgents] else []
  let codex := if protectMissingDotCodex || w.fs.isDir topLevelCodex then [topLevelCodex] else []
  dedupAbsolutePaths w (git ++ agents ++ codex) false

def hasExplicitResolvedPathEntry (entries : List ResolvedFileSystemEntry) (path : AbsolutePathBuf) : Bool :=
  entries.any fun entry => entry.path == path

structure WritableRoot where
  root : AbsolutePathBuf
  readOnlySubpaths : List AbsolutePathBuf
  protectedMetadataNames : List Text
deriving DecidableEq

namespace WritableRoot

variable (self : WritableRoot)

def pathContainsProtectedMetadataName (path : Text) : Bool :=
  if self.root.components.isPrefixOf (components path) then
    match (components path).drop self.root.components.length with
    | [] => false
    | firstComponent :: _ => self.protectedMetadataNames.any fun name => firstComponent.asOsStr == name
  else false

def isPathWritable (path : Text) : Bool :=
  if !self.root.components.isPrefixOf (components path) then false
  else if self.readOnlySubpaths.any fun subpath => subpath.components.isPrefixOf (components path) then false
  else if self.pathContainsProtectedMetadataName path then false
  else true

end WritableRoot

namespace FileSystemSandboxPolicy

variable (self : FileSystemSandboxPolicy)

def protectedMetadataNamesForWritableRoot (root : AbsolutePathBuf) (rawWritableRoots : List AbsolutePathBuf)
    (cwd : Text) : List Text :=
  protectedMetadataPathNames.filter fun metadataName =>
    (root :: rawWritableRoots).all fun base =>
      !self.canWritePathWithCwd w (base.join w.env metadataName).asPath cwd

def carveout (root : AbsolutePathBuf) (rawWritableRoots : List AbsolutePathBuf) (entry : ResolvedFileSystemEntry) :
    Option AbsolutePathBuf :=
  let effectivePath := normalizeEffectiveAbsolutePath w entry.path
  let rawCarveoutPath :=
    if root.names ≠ [] then
      if entry.path = root then none
      else if entry.path.startsWith root then some entry.path
      else
        rawWritableRoots.findSome? fun rawRoot =>
          match entry.path.stripPrefix rawRoot with
          | none | some [] => none
          | some suffix => some (root.join w.env (['/'].intercalate suffix))
    else none
  match rawCarveoutPath with
  | some rawCarveoutPath => some rawCarveoutPath
  | none =>
    if effectivePath = root ∨ !effectivePath.startsWith root then none
    else some effectivePath

def writableEntriesWithCwd (cwd : Text) : List AbsolutePathBuf :=
  (((self.resolvedEntriesWithCwd w cwd).filter fun entry => entry.access.canWrite).filter fun entry =>
    self.canWritePathWithCwd w entry.path.asPath cwd).map ResolvedFileSystemEntry.path

def writableRootAt (cwd : Text) (root : AbsolutePathBuf) : WritableRoot :=
  let resolvedEntries := self.resolvedEntriesWithCwd w cwd
  let rawWritableRoots := (self.writableEntriesWithCwd w cwd).filter fun path =>
    normalizeEffectiveAbsolutePath w path = root
  let protectMissingDotCodex := ((AbsolutePathBuf.fromAbsolutePath w.env cwd).map fun cwd =>
    decide (normalizeEffectiveAbsolutePath w cwd = root)).getD false
  let defaults := (defaultReadOnlySubpathsForWritableRoot w root protectMissingDotCodex).filter fun path =>
    !hasExplicitResolvedPathEntry resolvedEntries path
  let carveouts := ((resolvedEntries.filter fun entry => !entry.access.canWrite).filter fun entry =>
    !self.canWritePathWithCwd w entry.path.asPath cwd).filterMap (carveout w root rawWritableRoots)
  { root := root
    readOnlySubpaths := dedupAbsolutePaths w (defaults ++ carveouts) false
    protectedMetadataNames := self.protectedMetadataNamesForWritableRoot w root rawWritableRoots cwd }

def getWritableRootsWithCwd (cwd : Text) : List WritableRoot :=
  if self.hasFullDiskWriteAccess then []
  else (dedupAbsolutePaths w (self.writableEntriesWithCwd w cwd) true).map (self.writableRootAt w cwd)

end FileSystemSandboxPolicy

end Permissions
