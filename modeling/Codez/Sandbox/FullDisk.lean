import Codez.Sandbox.Resolution

/-!
The shortcuts for policies that grant the whole disk (`has_full_disk_read_access`,
`has_full_disk_write_access`).
-/

namespace Permissions

open Codex PosixPath LongestPrefix List FileSystemSandboxPolicy FileSystemAccessMode

namespace FileSystemSandboxPolicy

variable (self : FileSystemSandboxPolicy)

def hasDeniedReadRestrictions : Bool := self.kind == .restricted && self.entries.any (·.access == .deny)

def hasFullDiskReadAccess : Bool :=
  match self.kind with
  | .unrestricted | .externalSandbox => true
  | .restricted => self.hasRootAccess canRead && !self.hasDeniedReadRestrictions

end FileSystemSandboxPolicy

variable {w : World} {policy : FileSystemSandboxPolicy} {t cwd' r : AbsolutePathBuf} {path cwd : Text}

theorem resolveEntryPath_of_share {p q : FileSystemPath} (h : fileSystemPathsShareTarget p q = true)
    (hslash : p = .special .slashTmp → q = .path slashTmpPath → w.fs.isDir slashTmpPath = true)
    (hq : resolveEntryPath w q (some cwd') = some r) : resolveEntryPath w p (some cwd') = some r := by
  have hroot : ∀ l : AbsolutePathBuf, specialPathMatchesAbsolutePath .root l = true → l = .root := fun l hl =>
    AbsolutePathBuf.ext (List.isEmpty_iff.mp hl)
  match p, q with
  | .path l, .path r =>
    obtain rfl : l = r := beq_iff_eq.mp h
    exact hq
  | .path l, .special .root => rwa [hroot l h]
  | .special .root, .path l => rwa [hroot l h] at hq
  | .path l, .special .slashTmp =>
    obtain rfl : l = slashTmpPath := beq_iff_eq.mp h
    simp only [resolveEntryPath, resolveFileSystemPath, resolveFileSystemSpecialPath] at hq ⊢
    split at hq
    · exact hq
    · cases hq
  | .special .slashTmp, .path l =>
    obtain rfl : l = slashTmpPath := beq_iff_eq.mp h
    simpa [resolveEntryPath, resolveFileSystemPath, resolveFileSystemSpecialPath, hslash rfl rfl] using hq
  | .special .root, .special .root | .special .tmpdir, .special .tmpdir | .special .slashTmp, .special .slashTmp
  | .special (.projectRoots none), .special (.projectRoots none) => exact hq
  | .special (.projectRoots (some a)), .special (.projectRoots (some b)) =>
    have hab : components a = components b := beq_iff_eq.mp h
    simp only [resolveEntryPath, resolveFileSystemPath, resolveFileSystemSpecialPath, Option.map_some] at hq ⊢
    rwa [AbsolutePathBuf.resolvePathAgainstBase_congr w.env hab]
  | _, .special .minimal | _, .special (.unknown _ _) | _, .globPattern _ => cases hq

theorem exists_override (hkind : policy.kind = .restricted) (hfull : policy.hasFullDiskWriteAccess = true)
    {entry : FileSystemSandboxEntry} (hent : entry ∈ policy.entries)
    (hp : resolveEntryPath w entry.path (some cwd') = some r) (hne : entry.access ≠ .write) :
    entry.access = .read ∧
      ∃ c ∈ policy.entries, c.access = .write ∧ fileSystemPathsShareTarget c.path entry.path = true := by
  simp only [hasFullDiskWriteAccess, hkind, hasRootAccess,
    hasWriteNarrowingEntries, Bool.and_eq_true, Bool.not_eq_true', any_eq_true,
    beq_self_eq_true, Bool.true_and, any_eq_false] at hfull
  obtain ⟨⟨top, htop, htopPath, htopAccess⟩, hnarrow⟩ := hfull
  have hentryNarrow := hnarrow entry hent
  have hcan : entry.access.canWrite = false := by
    rw [← Bool.not_eq_true, canWrite_iff]
    exact hne
  have hsame : policy.hasSameTargetWriteOverride entry = true → entry.access = .read ∧
      ∃ c ∈ policy.entries, c.access = .write ∧ fileSystemPathsShareTarget c.path entry.path = true := by
    intro h
    obtain ⟨c, hc, hover⟩ := any_eq_true.mp h
    simp only [Bool.and_eq_true, decide_eq_true_eq, canWrite_iff] at hover
    obtain ⟨⟨hcwrite, hlt⟩, hshare⟩ := hover
    refine ⟨?_, c, hc, hcwrite, hshare⟩
    rw [hcwrite] at hlt
    cases hacc : entry.access with
    | read => rfl
    | write => exact absurd hacc hne
    | deny => rw [hacc] at hlt; exact absurd hlt (by decide)
  simp only [hcan, Bool.false_eq_true, if_false] at hentryNarrow
  rcases hpath : entry.path with _ | _ | _ | _ | _ | _ | _ | _
  case special.root =>
    refine ⟨?_, top, htop, canWrite_iff.mp htopAccess, by rw [beq_iff_eq.mp htopPath]; rfl⟩
    rw [hpath] at hentryNarrow
    cases hacc : entry.access with
    | read => rfl
    | write => exact absurd hacc hne
    | deny => simp [hacc] at hentryNarrow
  case special.minimal | special.unknown | globPattern =>
    rw [hpath] at hp
    cases hp
  all_goals
    rw [← hpath]
    exact hsame (by simpa [hpath] using hentryNarrow)

/-- A read entry at `/tmp` that only `:slash_tmp = write` overrides, while `/tmp` is no directory. -/
structure TmpShadowed (w : World) (policy : FileSystemSandboxPolicy) (cwd : Text) : Prop where
  restricted : policy.kind = .restricted
  read : ⟨.path slashTmpPath, .read⟩ ∈ policy.entries
  slashTmp : ⟨.special .slashTmp, .write⟩ ∈ policy.entries
  noDirectory : w.fs.isDir slashTmpPath = false
  only : ∀ entry ∈ policy.entries, entry.access = .write →
    resolveEntryPath w entry.path (AbsolutePathBuf.fromAbsolutePath w.env cwd) ≠ some slashTmpPath

section
variable (hkind : policy.kind = .restricted) (hcwd : AbsolutePathBuf.fromAbsolutePath w.env cwd = some cwd')
  (hpath : resolveCandidatePath w path cwd = some t)

include hkind hcwd hpath

theorem resolveAccessWithCwd_of_root {predicate : FileSystemAccessMode → Bool}
    (hroot : policy.hasRootAccess predicate = true) :
    ∃ entry ∈ policy.entries, ∃ p, resolveEntryPath w entry.path (some cwd') = some p ∧
      Decides (policy.resolvedEntriesWithCwd w cwd) t ⟨p, entry.access⟩ ∧
      policy.resolveAccessWithCwd w path cwd = entry.access := by
  simp only [hasRootAccess, Bool.and_eq_true, any_eq_true] at hroot
  obtain ⟨-, top, htop, htopPath, -⟩ := hroot
  have hmem : ⟨.root, top.access⟩ ∈ policy.resolvedEntriesWithCwd w cwd := by
    refine mem_filterMap.mpr ⟨top, htop, ?_⟩
    rw [hcwd, beq_iff_eq.mp htopPath]
    rfl
  obtain ⟨d, hdec, hacc⟩ := exists_decides ⟨_, hmem, List.nil_prefix⟩
  obtain ⟨entry, hent, hd⟩ := mem_filterMap.mp hdec.mem
  rw [hcwd] at hd
  obtain ⟨p, hp, rfl⟩ := Option.map_eq_some_iff.mp hd
  exact ⟨entry, hent, p, hp, hdec, (resolveAccessWithCwd_eq hkind hpath).trans hacc⟩

theorem resolveAccessWithCwd_of_full (hfull : policy.hasFullDiskWriteAccess = true)
    (hshadow : ¬TmpShadowed w policy cwd) : policy.resolveAccessWithCwd w path cwd = .write := by
  have hroot : policy.hasRootAccess canWrite = true := by
    simp only [hasFullDiskWriteAccess, hkind, Bool.and_eq_true] at hfull
    exact hfull.1
  obtain ⟨entry, hent, p, hp, hdec, hacc⟩ := resolveAccessWithCwd_of_root hkind hcwd hpath hroot
  rw [hacc]
  by_contra hne
  obtain ⟨hread, c, hc, hcwrite, hshare⟩ := exists_override hkind hfull hent hp hne
  -- no writable entry resolves to the path of the deciding one, which is weaker
  have hweak : ∀ c ∈ policy.entries, c.access = .write → resolveEntryPath w c.path (some cwd') ≠ some p := by
    intro c hc hcwrite hcp
    have hle : c.access ≤ entry.access :=
      hdec.strongest ⟨p, c.access⟩ (mem_filterMap.mpr ⟨c, hc, by rw [hcwd, hcp]; rfl⟩) rfl
    rw [hcwrite, hread] at hle
    exact absurd hle (by decide)
  refine hweak c hc hcwrite (resolveEntryPath_of_share hshare (fun hslash htmp => ?_) hp)
  by_contra hdir
  obtain rfl : slashTmpPath = p := by
    rw [htmp] at hp
    exact Option.some.inj hp
  refine hshadow ⟨hkind, ?_, ?_, by simpa using hdir, by rwa [hcwd]⟩
  · rwa [← htmp, ← hread]
  · rwa [← hslash, ← hcwrite]

theorem canReadPathWithCwd_of_full (hfull : policy.hasFullDiskReadAccess = true) :
    policy.canReadPathWithCwd w path cwd = true := by
  simp only [hasFullDiskReadAccess, hkind, Bool.and_eq_true] at hfull
  obtain ⟨entry, hent, p, -, -, hacc⟩ := resolveAccessWithCwd_of_root hkind hcwd hpath hfull.1
  have hdeny : entry.access ≠ .deny := by
    have := hfull.2
    simp only [hasDeniedReadRestrictions, hkind] at this
    simp_all
  rw [canReadPathWithCwd, hacc]
  exact bne_iff_ne.mpr hdeny

end

theorem TmpShadowed.read_tmp (h : TmpShadowed w policy cwd) :
    policy.resolveAccessWithCwd w "/tmp".toList cwd ≠ .write := by
  have hpath : resolveCandidatePath w "/tmp".toList cwd = some slashTmpPath :=
    resolveCandidatePath_of_isAbsolute (by decide)
  rw [resolveAccessWithCwd_eq h.restricted hpath, Ne, accessAt_eq_write_iff]
  rintro ⟨e, hdec, hwrite⟩
  obtain ⟨entry, hent, he⟩ := mem_filterMap.mp hdec.mem
  obtain ⟨p, hp, rfl⟩ := Option.map_eq_some_iff.mp he
  have hmem : ⟨slashTmpPath, .read⟩ ∈ policy.resolvedEntriesWithCwd w cwd := mem_filterMap.mpr ⟨_, h.read, rfl⟩
  have hle := hdec.longest _ hmem prefix_rfl
  obtain rfl : p = slashTmpPath := AbsolutePathBuf.ext (hdec.covers.eq_of_length_le hle)
  exact h.only entry hent hwrite hp

/-- **The full-disk shortcuts are sound** for reads, and for writes exactly where no read entry at `/tmp` is
overridden by `:slash_tmp` alone while `/tmp` is no directory. -/
theorem fullDisk_sound_iff (hcwd : isAbsolute cwd = true) :
    (policy.hasFullDiskWriteAccess = true →
      ((∀ path, isAbsolute path = true → policy.resolveAccessWithCwd w path cwd = .write) ↔
        ¬TmpShadowed w policy cwd)) ∧
    (policy.hasFullDiskReadAccess = true → ∀ path, isAbsolute path = true →
      policy.canReadPathWithCwd w path cwd = true) := by
  have hcwd' := AbsolutePathBuf.fromAbsolutePath_of_isAbsolute w.env hcwd
  refine ⟨fun hfull => ⟨fun hall h => h.read_tmp (hall _ (by decide)), fun hshadow path hpath => ?_⟩,
    fun hfull path hpath => ?_⟩
  · cases hkind : policy.kind with
    | restricted =>
      exact resolveAccessWithCwd_of_full hkind hcwd' (resolveCandidatePath_of_isAbsolute hpath) hfull hshadow
    | unrestricted | externalSandbox => simp [resolveAccessWithCwd, hkind]
  · cases hkind : policy.kind with
    | restricted => exact canReadPathWithCwd_of_full hkind hcwd' (resolveCandidatePath_of_isAbsolute hpath) hfull
    | unrestricted | externalSandbox => simp [canReadPathWithCwd, resolveAccessWithCwd, hkind, canRead]

def shadowedTmp : FileSystemSandboxPolicy :=
  ⟨.restricted, [⟨.special .root, .write⟩, ⟨.special .slashTmp, .write⟩, ⟨.path slashTmpPath, .read⟩]⟩

theorem shadowedTmp_narrows : shadowedTmp.hasFullDiskWriteAccess = true ∧
    shadowedTmp.resolveAccessWithCwd bareWorld "/tmp/a".toList "/".toList = .read := by
  decide +kernel

theorem fullDisk_sound_iff_tmpDirectory :
    let w := { bareWorld with fs := { bareWorld.fs with isDir := fun _ => true } }
    (∀ path, isAbsolute path = true → shadowedTmp.resolveAccessWithCwd w path "/".toList = .write) ∧
      ¬∀ path, isAbsolute path = true → shadowedTmp.resolveAccessWithCwd bareWorld path "/".toList = .write := by
  refine ⟨((fullDisk_sound_iff (by decide)).1 (by decide)).mpr fun h =>
    absurd h.noDirectory (by decide), fun hall => ?_⟩
  refine ((fullDisk_sound_iff (by decide)).1 (by decide)).mp hall ⟨rfl, by decide, by decide, rfl, ?_⟩
  decide +kernel

end Permissions
