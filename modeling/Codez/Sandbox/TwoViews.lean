import Codez.Lib.Growth
import Codez.Sandbox.FullDisk
import Codez.Sandbox.WritableRoots

/-!
The pointwise answer and the writable roots, side by side.
-/

namespace Permissions

open Codex PosixPath LongestPrefix List

variable {w : World} {policy : FileSystemSandboxPolicy} {entries : List ResolvedFileSystemEntry}
  {t x y c : AbsolutePathBuf} {e r : ResolvedFileSystemEntry} {path cwd : Text} {cs : List Component}

structure SymlinkFree (fs : FileSystem) : Prop where
  not_symlink : ∀ p, fs.symlinkMetadata p ≠ some .symlink
  canonicalize_eq : ∀ p q, fs.canonicalize p = some q → q = p

def NoGitPointer (w : World) : Prop := ∀ p, isGitPointerFile w p = true → resolveGitdirFromFile w p = none

section
variable (hlinks : SymlinkFree w.fs)

include hlinks

theorem canonicalizePreservingSymlinks_eq (p : AbsolutePathBuf) : canonicalizePreservingSymlinks w p = p := by
  unfold canonicalizePreservingSymlinks
  split
  · next canonical hcanonical =>
    rw [hlinks.canonicalize_eq p canonical hcanonical, ite_self]
  · rfl

theorem normalizeEffectiveAbsolutePath_eq (p : AbsolutePathBuf) : normalizeEffectiveAbsolutePath w p = p := by
  unfold normalizeEffectiveAbsolutePath
  cases hfind : p.ancestors.findSome? fun ancestor =>
      if (w.fs.symlinkMetadata ancestor).isNone then none
      else some (AbsolutePathBuf.append (canonicalizePreservingSymlinks w ancestor) p ancestor.names.length) with
  | none => rfl
  | some q =>
    obtain ⟨a, ha, hq⟩ := exists_of_findSome?_eq_some hfind
    obtain ⟨k, hk, rfl⟩ := mem_map.mp ha
    have hk : k ≤ p.names.length := by simpa using Nat.lt_succ_iff.mp (mem_range.mp (mem_reverse.mp hk))
    split at hq
    · cases hq
    · cases hq
      apply AbsolutePathBuf.ext
      simp [AbsolutePathBuf.append, AbsolutePathBuf.take, canonicalizePreservingSymlinks_eq hlinks, hk]

theorem mem_dedupAbsolutePaths (paths : List AbsolutePathBuf) (b : Bool) (p : AbsolutePathBuf) :
    p ∈ dedupAbsolutePaths w paths b ↔ p ∈ paths := by
  have hst : ∀ deduped : List AbsolutePathBuf, p ∈ paths.foldl (fun deduped path =>
      let dedupPath := if b then normalizeEffectiveAbsolutePath w path else path
      if dedupPath ∈ deduped then deduped else deduped ++ [dedupPath]) deduped ↔ p ∈ deduped ∨ p ∈ paths := by
    induction paths with
    | nil => simp
    | cons q paths ih =>
      intro deduped
      rw [foldl_cons, ih, mem_cons]
      simp only [normalizeEffectiveAbsolutePath_eq hlinks, ite_self]
      split
      · next hq =>
        constructor
        · rintro (h | h)
          · exact .inl h
          · exact .inr (.inr h)
        · rintro (h | rfl | h)
          · exact .inl h
          · exact .inl hq
          · exact .inr h
      · simp [or_assoc]
  exact (hst []).trans (by simp)

end

/-! ## Paths before the first `..` -/

def leadingNames : List Component → List Text
  | .normal n :: cs => n :: leadingNames cs
  | _ => []

theorem map_normal_prefix_iff {names : List Text} : names.map .normal <+: cs ↔ names <+: leadingNames cs := by
  induction names generalizing cs with
  | nil => simp
  | cons n names ih =>
    rcases cs with _ | ⟨c, cs⟩
    · simp [leadingNames]
    · cases c with
      | normal m => simp [leadingNames, cons_prefix_cons, ih]
      | _ => simp [leadingNames, cons_prefix_cons]

theorem mem_of_mem_leadingNames {n : Text} (h : n ∈ leadingNames cs) : .normal n ∈ cs := by
  induction cs with
  | nil => cases h
  | cons c cs ih =>
    cases c with
    | normal m =>
      rcases mem_cons.mp h with rfl | h
      · exact mem_cons_self
      · exact mem_cons_of_mem _ (ih h)
    | _ => cases h

def beforeParent (path : Text) : AbsolutePathBuf :=
  ⟨leadingNames (components path).tail, fun _ hn =>
    isName_of_mem_components (mem_of_mem_tail (mem_of_mem_leadingNames hn))⟩

open AbsolutePathBuf

theorem beforeParent_eq (hpath : isAbsolute path = true) (hup : .parentDir ∉ components path) :
    beforeParent path = normalizeFrom .root path := by
  have hcomp : components path = .rootDir :: pieces path := components_of_isAbsolute hpath
  have hns : ∀ cs : List Component, (∀ c ∈ cs, ∃ n, c = .normal n) → cs = (leadingNames cs).map .normal := by
    intro cs hcs
    induction cs with
    | nil => rfl
    | cons c cs ih =>
      obtain ⟨n, rfl⟩ := hcs c mem_cons_self
      rw [leadingNames, map_cons, ← ih (forall_mem_cons.mp hcs).2]
  have hall : pieces path = (leadingNames (pieces path)).map .normal := by
    refine hns _ fun c hc => (isWalk_pieces path c hc).resolve_left ?_
    rintro rfl
    exact hup (hcomp ▸ mem_cons_of_mem _ hc)
  apply AbsolutePathBuf.ext
  change leadingNames (components path).tail = resolve [] (components path)
  rw [hcomp, tail_cons, resolve_rootDir]
  conv_rhs => rw [hall, resolve_names, nil_append]

theorem names_beforeParent (hpath : isAbsolute path = true) :
    (beforeParent path).names = leadingNames (pieces path) := by
  change leadingNames (components path).tail = _
  rw [components_of_isAbsolute hpath]
  rfl

theorem leadingNames_append (names : List Text) (cs : List Component) :
    leadingNames (names.map .normal ++ cs) = names ++ leadingNames cs := by
  induction names with
  | nil => rfl
  | cons n names ih => exact congrArg (n :: ·) ih

section
variable (hpath : isAbsolute path = true) {root : WritableRoot}

include hpath

theorem components_prefix_iff (q : AbsolutePathBuf) :
    q.components.isPrefixOf (components path) = true ↔ q.names <+: (beforeParent path).names := by
  rw [List.isPrefixOf_iff_prefix, components_eq, names_beforeParent hpath,
    components_of_isAbsolute hpath, cons_prefix_cons, map_normal_prefix_iff]
  exact and_iff_right rfl

theorem pathContainsProtectedMetadataName_iff (hns : ∀ n ∈ root.protectedMetadataNames, IsName n) :
    root.pathContainsProtectedMetadataName path = true ↔
      ∃ n ∈ root.protectedMetadataNames, root.root.names ++ [n] <+: (beforeParent path).names := by
  unfold WritableRoot.pathContainsProtectedMetadataName
  split
  · next hroot =>
    have hroot := (List.isPrefixOf_iff_prefix.mp hroot)
    rw [components_eq, components_of_isAbsolute hpath, cons_prefix_cons] at hroot
    obtain ⟨-, rest, hr⟩ := hroot
    change _ = pieces path at hr
    have hdrop : (components path).drop root.root.components.length = rest := by
      rw [components_eq, components_of_isAbsolute hpath]
      change (pieces path).drop (root.root.names.map Component.normal).length = rest
      rw [← hr, drop_left]
    simp only [hdrop, names_beforeParent hpath, ← hr, leadingNames_append, prefix_append_right_inj]
    cases rest with
    | nil => simp [leadingNames]
    | cons c rest =>
      have hc : c ∈ pieces path := by simp [← hr]
      rcases isWalk_pieces path _ hc with rfl | ⟨m, rfl⟩
      · -- a `..` is no md name
        simp only [leadingNames, Component.asOsStr, any_eq_true, beq_iff_eq]
        constructor
        · rintro ⟨n, hn, rfl⟩
          exact absurd rfl (hns _ hn).2.2.1
        · rintro ⟨n, -, hn⟩
          simp at hn
      · simp only [leadingNames, Component.asOsStr, any_eq_true, beq_iff_eq, cons_prefix_cons,
          List.nil_prefix, and_true]
        exact exists_congr fun n => and_congr_right fun _ => eq_comm
  · next hroot =>
    rw [components_prefix_iff hpath] at hroot
    simp only [Bool.false_eq_true, false_iff]
    rintro ⟨n, -, hn⟩
    exact hroot ((prefix_append _ _).trans hn)

theorem isPathWritable_iff (hns : ∀ n ∈ root.protectedMetadataNames, IsName n) :
    root.isPathWritable path = true ↔ root.root.names <+: (beforeParent path).names ∧
      (∀ s ∈ root.readOnlySubpaths, ¬s.names <+: (beforeParent path).names) ∧
      ∀ n ∈ root.protectedMetadataNames, ¬root.root.names ++ [n] <+: (beforeParent path).names := by
  have hunfold : root.isPathWritable path = (root.root.components.isPrefixOf (components path) &&
      !(root.readOnlySubpaths.any fun s => s.components.isPrefixOf (components path)) &&
      !root.pathContainsProtectedMetadataName path) := by
    unfold WritableRoot.isPathWritable
    cases root.root.components.isPrefixOf (components path) <;>
      cases root.readOnlySubpaths.any fun s => s.components.isPrefixOf (components path) <;>
      cases root.pathContainsProtectedMetadataName path <;> rfl
  rw [hunfold, Bool.and_eq_true, Bool.and_eq_true, and_assoc, components_prefix_iff hpath]
  refine and_congr_right fun _ => and_congr ?_ ?_
  · simp only [Bool.not_eq_true', ← Bool.not_eq_true, any_eq_true, components_prefix_iff hpath]
    push Not
    rfl
  · simp only [Bool.not_eq_true', ← Bool.not_eq_true, pathContainsProtectedMetadataName_iff hpath hns]
    push Not
    rfl

end

/-! ## Roots and what they carve out -/

def HasEntry (entries : List ResolvedFileSystemEntry) (x : AbsolutePathBuf) : Prop := ∃ e ∈ entries, e.path = x

def IsRoot (entries : List ResolvedFileSystemEntry) (x : AbsolutePathBuf) : Prop :=
  HasEntry entries x ∧ accessAt entries x = .write

/-- The first entry that the metadata rule asks about `c` stands at `x`. -/
def AskedFirst (entries : List ResolvedFileSystemEntry) (x c : AbsolutePathBuf) : Prop :=
  ∃ e, entries.find? (guards c) = some e ∧ e.path = x

/-- The metadata child `n` of the root `x` is protected because it is there, or because `x` is
the working directory. -/
def protectedByDefault (w : World) (cwd x : AbsolutePathBuf) (n : Text) : Bool :=
  w.fs.isDir (x.join w.env n) || (n == ".git".toList && w.fs.isFile (x.join w.env n)) ||
    (n == ".codex".toList && cwd == x)

def Shields (w : World) (cwd : AbsolutePathBuf) (entries : List ResolvedFileSystemEntry) (x : AbsolutePathBuf)
    (n : Text) : Prop :=
  n ∈ protectedMetadataPathNames ∧ ¬HasEntry entries (x.join w.env n) ∧
    (protectedByDefault w cwd x n = true ∨ AskedFirst entries x (x.join w.env n))

/-- `t` lies under the root `x` with no read-only entry in between. -/
def Reaches (entries : List ResolvedFileSystemEntry) (x t : AbsolutePathBuf) : Prop :=
  IsRoot entries x ∧ x.names <+: t.names ∧
    ∀ q, HasEntry entries q → x.names <+: q.names → q.names <+: t.names → accessAt entries q = .write

/-- The pointwise rule: the entry that decides `t` is writable, and it is not the one that the metadata
rule asks first. -/
def Allowed (entries : List ResolvedFileSystemEntry) (t : AbsolutePathBuf) : Prop :=
  ∃ r, Decides entries t r ∧ r.access = .write ∧ ¬AskedFirst entries r.path t

/-- The roots: one of them reaches `t` and does not shield its own child on the way there. -/
def Shown (w : World) (cwd : AbsolutePathBuf) (entries : List ResolvedFileSystemEntry) (t : AbsolutePathBuf) : Prop :=
  ∃ x, Reaches entries x t ∧ ∀ n, x.names ++ [n] <+: t.names → ¬Shields w cwd entries x n

theorem HasEntry.path_eq (h : HasEntry entries x) (hdec : Decides entries x e) : e.path = x := by
  obtain ⟨e', he', rfl⟩ := h
  have habv := hdec.above he' (prefix_refl _)
  exact AbsolutePathBuf.ext (hdec.covers.eq_of_length (le_antisymm hdec.covers.length_le habv.length_le))

theorem IsRoot.exists_decides (h : IsRoot entries x) :
    ∃ d, Decides entries x d ∧ d.access = .write ∧ d.path = x := by
  obtain ⟨d, hdec, hwrite⟩ := accessAt_eq_write_iff.mp h.2
  exact ⟨d, hdec, hwrite, h.1.path_eq hdec⟩

theorem not_askedFirst_self : ¬AskedFirst entries x x := by
  rintro ⟨e, hfind, rfl⟩
  obtain ⟨-, n, rest, -, hns⟩ := guards_iff.mp (find?_some hfind)
  simpa using congrArg List.length hns

theorem resolveCandidatePath_asPath (p : AbsolutePathBuf) : resolveCandidatePath w p.asPath cwd = some p := by
  rw [resolveCandidatePath, if_pos p.isAbsolute_asPath, fromAbsolutePath_asPath]

open FileSystemSandboxPolicy

section
variable (hlinks : SymlinkFree w.fs)

include hlinks

theorem carveout_eq_some {raws : List AbsolutePathBuf} (hraws : ∀ raw ∈ raws, raw = x) :
    carveout w x raws e = some c ↔ c = e.path ∧ e.path ≠ x ∧ x.names <+: e.path.names := by
  unfold carveout
  simp only [normalizeEffectiveAbsolutePath_eq hlinks]
  by_cases heq : e.path = x
  · simp [heq]
  · by_cases hprefix : x.names <+: e.path.names
    · have hstarts : e.path.startsWith x = true := startsWith_iff.mpr hprefix
      split
      · next raw hraw =>
        simp only [heq, hstarts, if_false, if_true, ite_not] at hraw
        split at hraw
        · cases hraw
        · cases hraw
          simp [heq, hprefix, eq_comm]
      · simp [heq, hstarts, hprefix, eq_comm]
    · have hstarts : e.path.startsWith x = false := by
        rw [← Bool.not_eq_true, startsWith_iff]
        exact hprefix
      have hnone : ∀ raw ∈ raws, e.path.stripPrefix raw = none := by
        intro raw hraw
        rw [hraws raw hraw, stripPrefix, if_neg]
        rw [List.isPrefixOf_iff_prefix]
        exact hprefix
      split
      · next raw hraw =>
        simp only [heq, hstarts, if_false, Bool.false_eq_true, ite_not] at hraw
        split at hraw
        · cases hraw
        · obtain ⟨y, hy, hsome⟩ := exists_of_findSome?_eq_some hraw
          simp [hnone y hy] at hsome
      · simp [hstarts, hprefix]

theorem mem_defaultReadOnlySubpaths (hgit : NoGitPointer w) {cwd' : AbsolutePathBuf} :
    c ∈ defaultReadOnlySubpathsForWritableRoot w x (decide (cwd' = x)) ↔
      ∃ n ∈ protectedMetadataPathNames, c = x.join w.env n ∧ protectedByDefault w cwd' x n = true := by
  have hpointer : (if w.fs.isFile (x.join w.env ".git".toList) && isGitPointerFile w (x.join w.env ".git".toList) then
      (resolveGitdirFromFile w (x.join w.env ".git".toList)).toList else []) = [] := by
    split
    · next h => rw [hgit _ (Bool.and_eq_true_iff.mp h).2, Option.toList_none]
    · rfl
  unfold defaultReadOnlySubpathsForWritableRoot
  rw [mem_dedupAbsolutePaths hlinks, hpointer]
  have hagents : protectedByDefault w cwd' x ".agents".toList = w.fs.isDir (x.join w.env ".agents".toList) := by
    simp [protectedByDefault]
  have hcodex : protectedByDefault w cwd' x ".codex".toList =
      (decide (cwd' = x) || w.fs.isDir (x.join w.env ".codex".toList)) := by
    simp [protectedByDefault, Bool.or_comm, Bool.beq_eq_decide_eq]
  have hgitdir : protectedByDefault w cwd' x ".git".toList =
      (w.fs.isDir (x.join w.env ".git".toList) || w.fs.isFile (x.join w.env ".git".toList)) := by
    simp [protectedByDefault]
  have hif : ∀ (b : Bool) (p : AbsolutePathBuf), c ∈ (if b then [p] else []) ↔ c = p ∧ b = true := by
    intro b p
    cases b <;> simp
  simp only [protectedMetadataPathNames, mem_cons, not_mem_nil, or_false, exists_eq_or_imp, exists_eq_left,
    mem_append, nil_append, hif, hagents, hcodex, hgitdir, or_assoc]

end

section
variable (hkind : policy.kind = .restricted) (hfull : policy.hasFullDiskWriteAccess = false)

include hkind hfull

theorem canWrite_iff_entries (hpath : resolveCandidatePath w path cwd = some t) :
    policy.canWritePathWithCwd w path cwd = true ↔ Allowed (policy.resolvedEntriesWithCwd w cwd) t := by
  rw [canWritePathWithCwd_iff hkind hpath hfull]
  refine exists_congr fun r => and_congr_right fun _ => and_congr_right fun _ => ?_
  exact ⟨fun h ⟨e, hfind, heq⟩ => h e hfind heq, fun h e hfind heq => h ⟨e, hfind, heq⟩⟩

theorem canWrite_entry_iff (h : HasEntry (policy.resolvedEntriesWithCwd w cwd) x) :
    policy.canWritePathWithCwd w x.asPath cwd = true ↔
      accessAt (policy.resolvedEntriesWithCwd w cwd) x = .write := by
  rw [canWrite_iff_entries hkind hfull (resolveCandidatePath_asPath x), accessAt_eq_write_iff]
  refine exists_congr fun r => ⟨fun hr => ⟨hr.1, hr.2.1⟩, fun hr => ⟨hr.1, hr.2, ?_⟩⟩
  rw [h.path_eq hr.1]
  exact not_askedFirst_self

theorem mem_writableEntriesWithCwd :
    x ∈ policy.writableEntriesWithCwd w cwd ↔ IsRoot (policy.resolvedEntriesWithCwd w cwd) x := by
  constructor
  · intro h
    obtain ⟨e, he, rfl⟩ := mem_map.mp h
    obtain ⟨he, hcan⟩ := mem_filter.mp he
    have hent : HasEntry (policy.resolvedEntriesWithCwd w cwd) e.path := ⟨e, (mem_filter.mp he).1, rfl⟩
    exact ⟨hent, (canWrite_entry_iff hkind hfull hent).mp hcan⟩
  · intro h
    obtain ⟨d, hdec, hwrite, rfl⟩ := h.exists_decides
    refine mem_map.mpr ⟨d, mem_filter.mpr ⟨mem_filter.mpr ⟨hdec.mem, canWrite_iff.mpr hwrite⟩, ?_⟩, rfl⟩
    exact (canWrite_entry_iff hkind hfull h.1).mpr h.2

theorem canWrite_metadataChild_iff {n : Text} (hn : n ∈ protectedMetadataPathNames)
    (hroot : IsRoot (policy.resolvedEntriesWithCwd w cwd) x)
    (hnone : ¬HasEntry (policy.resolvedEntriesWithCwd w cwd) (x.join w.env n)) :
    policy.canWritePathWithCwd w (x.join w.env n).asPath cwd = true ↔
      ¬AskedFirst (policy.resolvedEntriesWithCwd w cwd) x (x.join w.env n) := by
  obtain ⟨d, hdec, hwrite, rfl⟩ := hroot.exists_decides
  have hchild : Decides (policy.resolvedEntriesWithCwd w cwd) (d.path.join w.env n) d := by
    refine hdec.of_between ?_ fun e he hcov => ?_
    · rw [names_join_metadata _ hn]
      exact prefix_append _ _
    · have hlen := hcov.length_le
      have hne : e.path.names.length ≠ (d.path.join w.env n).names.length := fun heq =>
        hnone ⟨e, he, AbsolutePathBuf.ext (hcov.eq_of_length heq)⟩
      rw [names_join_metadata _ hn, length_append, length_singleton] at hlen hne
      change e.path.names.length ≤ d.path.names.length
      omega
  rw [canWrite_iff_entries hkind hfull (resolveCandidatePath_asPath _)]
  constructor
  · rintro ⟨r, hr, -, hfst⟩
    rwa [AbsolutePathBuf.ext (hr.path_eq hchild)] at hfst
  · exact fun hfst => ⟨d, hchild, hwrite, hfst⟩

section
variable (hlinks : SymlinkFree w.fs) {cwd' : AbsolutePathBuf}

include hlinks

theorem mem_readOnlySubpaths (hgit : NoGitPointer w) (hcwd : fromAbsolutePath w.env cwd = some cwd')
    :
    c ∈ (policy.writableRootAt w cwd x).readOnlySubpaths ↔
      (∃ n ∈ protectedMetadataPathNames, c = x.join w.env n ∧ protectedByDefault w cwd' x n = true ∧
        ¬HasEntry (policy.resolvedEntriesWithCwd w cwd) c) ∨
      (HasEntry (policy.resolvedEntriesWithCwd w cwd) c ∧ c ≠ x ∧ x.names <+: c.names ∧
        accessAt (policy.resolvedEntriesWithCwd w cwd) c ≠ .write) := by
  have hexp : hasExplicitResolvedPathEntry (policy.resolvedEntriesWithCwd w cwd) c = true ↔
      HasEntry (policy.resolvedEntriesWithCwd w cwd) c := by
    simp [hasExplicitResolvedPathEntry, HasEntry]
  have hraws : ∀ raw ∈ (policy.writableEntriesWithCwd w cwd).filter fun path =>
      normalizeEffectiveAbsolutePath w path = x, raw = x := by
    intro raw hraw
    have heq := of_decide_eq_true (mem_filter.mp hraw).2
    rwa [normalizeEffectiveAbsolutePath_eq hlinks] at heq
  unfold writableRootAt
  simp only [mem_dedupAbsolutePaths hlinks, mem_append, mem_filter, mem_filterMap, hcwd,
    Option.map_some, Option.getD_some, normalizeEffectiveAbsolutePath_eq hlinks,
    mem_defaultReadOnlySubpaths hlinks hgit]
  refine or_congr ?_ ?_
  · rw [Bool.not_eq_true', ← Bool.not_eq_true, hexp]
    constructor
    · rintro ⟨⟨n, hn, hc, hdef⟩, hnone⟩
      exact ⟨n, hn, hc, hdef, hnone⟩
    · rintro ⟨n, hn, hc, hdef, hnone⟩
      exact ⟨⟨n, hn, hc, hdef⟩, hnone⟩
  · simp only [normalizeEffectiveAbsolutePath_eq hlinks] at hraws
    constructor
    · rintro ⟨e, ⟨⟨he, -⟩, hcan⟩, hcarve⟩
      obtain ⟨rfl, hne, hbel⟩ := (carveout_eq_some hlinks hraws).mp hcarve
      have hent : HasEntry (policy.resolvedEntriesWithCwd w cwd) e.path := ⟨e, he, rfl⟩
      refine ⟨hent, hne, hbel, ?_⟩
      rwa [ne_eq, ← canWrite_entry_iff hkind hfull hent, Bool.not_eq_true, ← Bool.not_eq_true']
    · rintro ⟨hent, hne, hbel, hacc⟩
      obtain ⟨e, he, hcov⟩ := hent
      obtain ⟨d, hdec, hdacc⟩ := exists_decides (t := c) ⟨e, he, hcov ▸ prefix_refl _⟩
      have hd : d.path = c := HasEntry.path_eq ⟨e, he, hcov⟩ hdec
      refine ⟨d, ⟨⟨hdec.mem, ?_⟩, ?_⟩, (carveout_eq_some hlinks hraws).mpr ?_⟩
      · rw [Bool.not_eq_true', ← Bool.not_eq_true, canWrite_iff, ← hdacc]
        exact hacc
      · rw [Bool.not_eq_true', ← Bool.not_eq_true, hd, canWrite_entry_iff hkind hfull ⟨e, he, hcov⟩]
        exact hacc
      · rw [hd]
        exact ⟨rfl, hne, hbel⟩

omit hkind hfull in
theorem mem_protectedMetadataNames {n : Text} : n ∈ (policy.writableRootAt w cwd x).protectedMetadataNames ↔
    n ∈ protectedMetadataPathNames ∧ ¬policy.canWritePathWithCwd w (x.join w.env n).asPath cwd = true := by
  unfold writableRootAt protectedMetadataNamesForWritableRoot
  simp only [mem_filter, all_cons, Bool.and_eq_true, Bool.not_eq_true', normalizeEffectiveAbsolutePath_eq hlinks,
    Bool.not_eq_true]
  refine and_congr_right fun _ => and_iff_left_of_imp fun hno => ?_
  rw [all_eq_true]
  intro raw hraw
  rw [of_decide_eq_true (mem_filter.mp hraw).2, hno]
  rfl

theorem isPathWritable_writableRootAt (hgit : NoGitPointer w)
    (hcwd : fromAbsolutePath w.env cwd = some cwd') (hpath : isAbsolute path = true)
    (hroot : IsRoot (policy.resolvedEntriesWithCwd w cwd) x) :
    (policy.writableRootAt w cwd x).isPathWritable path = true ↔
      Reaches (policy.resolvedEntriesWithCwd w cwd) x (beforeParent path) ∧
        ∀ n, x.names ++ [n] <+: (beforeParent path).names →
          ¬Shields w cwd' (policy.resolvedEntriesWithCwd w cwd) x n := by
  have hns : ∀ n ∈ (policy.writableRootAt w cwd x).protectedMetadataNames, IsName n := fun n hn =>
    (isName_metadata ((mem_protectedMetadataNames hlinks).mp hn).1).1
  rw [isPathWritable_iff hpath hns]
  change x.names <+: _ ∧ _ ∧ (∀ n ∈ _, ¬x.names ++ [n] <+: _) ↔ _
  simp only [mem_readOnlySubpaths hkind hfull hlinks hgit hcwd, mem_protectedMetadataNames hlinks]
  constructor
  · rintro ⟨hbel, hcarve, hkeep⟩
    refine ⟨⟨hroot, hbel, fun q hq hxq hqt => ?_⟩, fun n hn hshield => ?_⟩
    · by_contra hacc
      by_cases hqx : q = x
      · exact hacc (hqx ▸ hroot.2)
      · exact hcarve q (.inr ⟨hq, hqx, hxq, hacc⟩) hqt
    · obtain ⟨hmeta, hnone, hdef | hasked⟩ := hshield
      · refine hcarve (x.join w.env n) (.inl ⟨n, hmeta, rfl, hdef, hnone⟩) ?_
        rwa [names_join_metadata _ hmeta]
      · refine hkeep n ⟨hmeta, ?_⟩ hn
        rw [canWrite_metadataChild_iff hkind hfull hmeta hroot hnone]
        exact not_not.mpr hasked
  · rintro ⟨⟨-, hbel, hents⟩, hshield⟩
    refine ⟨hbel, ?_, ?_⟩
    · rintro c (⟨n, hmeta, rfl, hdef, hnone⟩ | ⟨hent, hne, hxc, hacc⟩) hct
      · refine hshield n ?_ ⟨hmeta, hnone, .inl hdef⟩
        rwa [names_join_metadata _ hmeta] at hct
      · exact hacc (hents c hent hxc hct)
    · rintro n ⟨hmeta, hcan⟩ hn
      have hchild : (x.join w.env n).names = x.names ++ [n] := names_join_metadata _ hmeta
      by_cases hent : HasEntry (policy.resolvedEntriesWithCwd w cwd) (x.join w.env n)
      · refine hcan ((canWrite_entry_iff hkind hfull hent).mpr (hents _ hent ?_ ?_))
        · rw [hchild]
          exact prefix_append _ _
        · rwa [hchild]
      · rw [canWrite_metadataChild_iff hkind hfull hmeta hroot hent, not_not] at hcan
        exact hshield n hn ⟨hmeta, hent, .inr hcan⟩

theorem shows_iff (hgit : NoGitPointer w) (hcwd : fromAbsolutePath w.env cwd = some cwd')
    (hpath : isAbsolute path = true) :
    (∃ root ∈ policy.getWritableRootsWithCwd w cwd, root.isPathWritable path = true) ↔
      Shown w cwd' (policy.resolvedEntriesWithCwd w cwd) (beforeParent path) := by
  simp only [getWritableRootsWithCwd, hfull, Bool.false_eq_true, if_false, mem_map,
    mem_dedupAbsolutePaths hlinks, mem_writableEntriesWithCwd hkind hfull]
  constructor
  · rintro ⟨_, ⟨x, hroot, rfl⟩, hshown⟩
    exact ⟨x, (isPathWritable_writableRootAt hkind hfull hlinks hgit hcwd hpath hroot).mp hshown⟩
  · rintro ⟨x, hreach, hshield⟩
    exact ⟨_, ⟨x, hreach.1, rfl⟩,
      (isPathWritable_writableRootAt hkind hfull hlinks hgit hcwd hpath hreach.1).mpr ⟨hreach, hshield⟩⟩

end

end

/-! ## Where the views agree -/

/-- Every root further out that reaches `y` keeps its child on the way to `y` read-only. -/
def SealedOff (w : World) (cwd : AbsolutePathBuf) (entries : List ResolvedFileSystemEntry) (y : AbsolutePathBuf) :
    Prop :=
  ∀ x, Reaches entries x y → x ≠ y → ∃ m, x.names ++ [m] <+: y.names ∧ Shields w cwd entries x m

/-- At a metadata child `n` of the deciding root of `t`: what the metadata rule refuses no root
further out lets through, and what it allows is not kept read-only by default. -/
def InStep (w : World) (cwd : AbsolutePathBuf) (entries : List ResolvedFileSystemEntry) (t : AbsolutePathBuf) : Prop :=
  ∀ r n, Decides entries t r → r.access = .write → n ∈ protectedMetadataPathNames → r.path.names ++ [n] <+: t.names →
    (AskedFirst entries r.path (r.path.join w.env n) → SealedOff w cwd entries r.path) ∧
    (protectedByDefault w cwd r.path n = true → SealedOff w cwd entries r.path →
      AskedFirst entries r.path (r.path.join w.env n))

theorem Reaches.accessAt_eq (h : Reaches entries x t) : accessAt entries t = .write := by
  obtain ⟨hroot, hbel, hents⟩ := h
  obtain ⟨e, he, rfl⟩ := hroot.1
  obtain ⟨d, hdec, hacc⟩ := exists_decides ⟨e, he, hbel⟩
  have hself : Decides entries d.path d := hdec.self
  rw [hacc, ← accessAt_of_decides hself]
  exact hents d.path ⟨d, hdec.mem, rfl⟩ (hdec.above he hbel) hdec.covers

section
variable (hdec : Decides entries t r) (hwrite : r.access = .write)

include hdec hwrite

theorem Decides.isRoot : IsRoot entries r.path := by
  have hself : Decides entries r.path r := hdec.self
  exact ⟨⟨r, hdec.mem, rfl⟩, (accessAt_of_decides hself).trans hwrite⟩

omit hwrite in
theorem Decides.reaches_iff : Reaches entries x t ↔ Reaches entries x r.path := by
  have habv : ∀ q, HasEntry entries q → (q.names <+: t.names ↔ q.names <+: r.path.names) := by
    rintro q ⟨e, he, rfl⟩
    exact ⟨hdec.above he, fun h => h.trans hdec.covers⟩
  unfold Reaches
  refine and_congr_right fun hroot => and_congr (habv x hroot.1) ?_
  exact forall_congr' fun q => forall_congr' fun hq => forall_congr' fun _ => by rw [habv q hq]

theorem Decides.reaches_self : Reaches entries r.path r.path := by
  refine ⟨hdec.isRoot hwrite, prefix_refl _, fun q hq hle hge => ?_⟩
  obtain rfl : q = r.path := AbsolutePathBuf.ext (hge.eq_of_length (le_antisymm hge.length_le hle.length_le))
  exact (hdec.isRoot hwrite).2

variable {n : Text} (hn : n ∈ protectedMetadataPathNames) (hnext : r.path.names ++ [n] <+: t.names)

include hn hnext

omit hwrite in
theorem Decides.not_hasEntry_child : ¬HasEntry entries (r.path.join w.env n) := by
  rintro ⟨e, he, hpath⟩
  have hns : e.path.names = r.path.names ++ [n] := by rw [hpath, names_join_metadata _ hn]
  have hlen := hdec.longest e he (hns ▸ hnext)
  rw [hns] at hlen
  simp at hlen

omit hwrite in
/-- Below the metadata child the rule asks the same entries as at the child itself. -/
theorem Decides.askedFirst_child : AskedFirst entries r.path (r.path.join w.env n) ↔ AskedFirst entries r.path t := by
  have hchild : (r.path.join w.env n).names = r.path.names ++ [n] := names_join_metadata _ hn
  have hguards : ∀ e ∈ entries, guards (r.path.join w.env n) e = guards t e := by
    intro e he
    rw [Bool.eq_iff_iff, guards_iff, guards_iff, hchild]
    refine and_congr_right fun _ => exists_congr fun m => ?_
    constructor
    · rintro ⟨rest, hm, hns⟩
      obtain ⟨more, hmore⟩ := hnext
      exact ⟨rest ++ more, hm, by rw [← hmore, hns]; simp⟩
    · rintro ⟨rest, hm, hns⟩
      have habv : e.path.names <+: r.path.names := hdec.above he ⟨m :: rest, hns.symm⟩
      have hmt : e.path.names ++ [m] <+: t.names := ⟨rest, by simp [hns]⟩
      obtain ⟨more, hmore⟩ := prefix_of_prefix_length_le hmt hnext (by simpa using habv.length_le)
      exact ⟨more, hm, by simp [← hmore]⟩
  unfold AskedFirst
  rw [find?_congr hguards]

omit hn in
/-- Some root shows what lies below the metadata child unless the deciding root shields it and is
itself sealed off. -/
theorem Decides.shown_iff :
    Shown w cwd' entries t ↔ ¬(Shields w cwd' entries r.path n ∧ SealedOff w cwd' entries r.path) := by
  simp only [Shown, hdec.reaches_iff]
  constructor
  · rintro ⟨x, hreach, hopen⟩ ⟨hshield, hsealed⟩
    by_cases hx : x = r.path
    · subst hx
      exact hopen n hnext hshield
    · obtain ⟨m, hm, hshields⟩ := hsealed x hreach hx
      exact hopen m (hm.trans hdec.covers) hshields
  · intro hnot
    by_cases hshield : Shields w cwd' entries r.path n
    · obtain ⟨x, hreach, hx, hopen⟩ : ∃ x, Reaches entries x r.path ∧ x ≠ r.path ∧
          ∀ m, x.names ++ [m] <+: r.path.names → ¬Shields w cwd' entries x m := by
        by_contra hnone
        push Not at hnone
        exact hnot ⟨hshield, hnone⟩
      refine ⟨x, hreach, fun m hm => hopen m ?_⟩
      have hlt : x.names.length < r.path.names.length :=
        lt_of_le_of_ne hreach.2.1.length_le fun heq => hx (AbsolutePathBuf.ext (hreach.2.1.eq_of_length heq))
      exact prefix_of_prefix_length_le hm hdec.covers (by simpa using hlt)
    · refine ⟨r.path, hdec.reaches_self hwrite, fun m hm => ?_⟩
      rwa [Growth.next_unique hm hnext]

theorem Decides.inStep_iff : InStep w cwd' entries t ↔
      (AskedFirst entries r.path t → SealedOff w cwd' entries r.path) ∧
      (protectedByDefault w cwd' r.path n = true → SealedOff w cwd' entries r.path → AskedFirst entries r.path t) := by
  constructor
  · intro h
    simpa only [hdec.askedFirst_child hn hnext] using h r n hdec hwrite hn hnext
  · intro h r' n' hdec' hwrite' hn' hnext'
    have hpath : r'.path = r.path := AbsolutePathBuf.ext (hdec'.path_eq hdec)
    rw [hpath] at hnext' ⊢
    rw [Growth.next_unique hnext' hnext, hdec.askedFirst_child hn hnext]
    exact h

end

theorem views_agree_iff : (Allowed entries t ↔ Shown w cwd' entries t) ↔ InStep w cwd' entries t := by
  by_cases hacc : accessAt entries t = .write
  · obtain ⟨r, hdec, hwrite⟩ := accessAt_eq_write_iff.mp hacc
    have hpoint : Allowed entries t ↔ ¬AskedFirst entries r.path t := by
      constructor
      · rintro ⟨r', hdec', -, hasked⟩
        rwa [AbsolutePathBuf.ext (hdec'.path_eq hdec)] at hasked
      · exact fun hasked => ⟨r, hdec, hwrite, hasked⟩
    by_cases hmeta : ∃ n ∈ protectedMetadataPathNames, r.path.names ++ [n] <+: t.names
    · obtain ⟨n, hn, hnext⟩ := hmeta
      have hshields : Shields w cwd' entries r.path n ↔
          protectedByDefault w cwd' r.path n = true ∨ AskedFirst entries r.path t := by
        rw [Shields, hdec.askedFirst_child hn hnext]
        simp [hn, hdec.not_hasEntry_child hn hnext]
      rw [hpoint, hdec.shown_iff hwrite hnext, hdec.inStep_iff hwrite hn hnext, hshields]
      tauto
    · -- no metadata name follows the deciding root: both views allow the path
      have hpointTrue : ¬AskedFirst entries r.path t := by
        rintro ⟨e, hfind, heq⟩
        obtain ⟨-, n, rest, hn, hns⟩ := guards_iff.mp (find?_some hfind)
        exact hmeta ⟨n, hn, rest, by simp [hns, heq]⟩
      have hshown : Shown w cwd' entries t :=
        ⟨r.path, hdec.reaches_iff.mpr (hdec.reaches_self hwrite), fun n hn hshield => hmeta ⟨n, hshield.1, hn⟩⟩
      have hst : InStep w cwd' entries t := by
        intro r' n hdec' _ hn hnext
        rw [AbsolutePathBuf.ext (hdec'.path_eq hdec)] at hnext
        exact absurd ⟨n, hn, hnext⟩ hmeta
      rw [hpoint]
      exact iff_of_true (iff_of_true hpointTrue hshown) hst
  · -- neither view allows the path
    have hpoint : ¬Allowed entries t := by
      rintro ⟨r, hdec, hwrite, -⟩
      exact hacc (accessAt_eq_write_iff.mpr ⟨r, hdec, hwrite⟩)
    have hshown : ¬Shown w cwd' entries t := by
      rintro ⟨x, hreach, -⟩
      exact hacc hreach.accessAt_eq
    have hst : InStep w cwd' entries t := fun r _ hdec hwrite =>
      absurd (accessAt_eq_write_iff.mpr ⟨r, hdec, hwrite⟩) hacc
    exact iff_of_true (iff_of_false hpoint hshown) hst

/-! ## Full disk write access -/

def FileSystemPath.IsPlain : FileSystemPath → Prop
  | .path _ | .special .root | .special (.projectRoots _) => True
  | _ => False

theorem canWritePathWithCwd_of_full (hkind : policy.kind = .restricted)
    (hplain : ∀ entry ∈ policy.entries, entry.path.IsPlain)
    (hcwd : fromAbsolutePath w.env cwd = some cwd') (hpath : resolveCandidatePath w path cwd = some t)
    (hfull : policy.hasFullDiskWriteAccess = true) :
    policy.canWritePathWithCwd w path cwd = true := by
  have hacc := resolveAccessWithCwd_of_full hkind hcwd hpath hfull fun hshadow => hplain _ hshadow.slashTmp
  rw [canWritePathWithCwd, hacc, hfull]
  rfl

/-! ## The two views -/

/-- **Where the two views agree.**  They do if writing is unrestricted; on a path without `..`, if they are
in step there; and on one with `..`, which the pointwise rule resolves while the roots read the path up to
the first `..`, if the rule answers for the resolved path as the roots do for that part. -/
theorem writableRoots_agree_iff (hkind : policy.kind = .restricted)
    (hplain : ∀ entry ∈ policy.entries, entry.path.IsPlain) (hcwd : isAbsolute cwd = true)
    (hlinks : SymlinkFree w.fs) (hgit : NoGitPointer w) (hpath : isAbsolute path = true) :
    let entries := policy.resolvedEntriesWithCwd w cwd
    let resolved := AbsolutePathBuf.normalizeFrom .root path
    (policy.canWritePathWithCwd w path cwd = true ↔ policy.hasFullDiskWriteAccess = true ∨
        ∃ root ∈ policy.getWritableRootsWithCwd w cwd, root.isPathWritable path = true) ↔
      policy.hasFullDiskWriteAccess = true ∨
        .parentDir ∉ components path ∧ InStep w (AbsolutePathBuf.normalizeFrom .root cwd) entries resolved ∨
        .parentDir ∈ components path ∧
          (Allowed entries resolved ↔
            Shown w (AbsolutePathBuf.normalizeFrom .root cwd) entries (beforeParent path)) := by
  intro entries resolved
  have hcwd' := AbsolutePathBuf.fromAbsolutePath_of_isAbsolute w.env hcwd
  have hresolved : resolveCandidatePath w path cwd = some resolved := resolveCandidatePath_of_isAbsolute hpath
  cases hfull : policy.hasFullDiskWriteAccess with
  | true => simp [canWritePathWithCwd_of_full hkind hplain hcwd' hresolved hfull]
  | false =>
    rw [shows_iff hkind hfull hlinks hgit hcwd' hpath, canWrite_iff_entries hkind hfull hresolved]
    simp only [Bool.false_eq_true, false_or]
    by_cases hup : .parentDir ∈ components path
    · simp only [hup, not_true_eq_false, false_and, true_and, false_or]
      rfl
    · simp only [hup, not_false_eq_true, true_and, false_and, or_false]
      rw [beforeParent_eq hpath hup]
      exact views_agree_iff

theorem isName_a : ∀ n ∈ ["a".toList], IsName n := by decide

def nestedRoots : FileSystemSandboxPolicy where
  kind := .restricted
  entries :=
    [⟨.path ⟨["a".toList], isName_a⟩, .write⟩, ⟨.path ⟨["a".toList, "b".toList], by decide⟩, .write⟩]

theorem symlinkFree_bareWorld : SymlinkFree bareWorld.fs := ⟨fun _ => nofun, fun _ _ => nofun⟩

theorem noGitPointer_bareWorld : NoGitPointer bareWorld := fun _ => nofun

theorem nestedRoots_disagree :
    (∀ entry ∈ nestedRoots.entries, entry.path.IsPlain) ∧ SymlinkFree bareWorld.fs ∧ NoGitPointer bareWorld ∧
    nestedRoots.hasFullDiskWriteAccess = false ∧
    ∀ path ∈ ["/a/b/.git".toList, "/a/../etc".toList],
      nestedRoots.canWritePathWithCwd bareWorld path "/".toList = false ∧
      ∃ root ∈ nestedRoots.getWritableRootsWithCwd bareWorld "/".toList, root.isPathWritable path = true := by
  refine ⟨?_, symlinkFree_bareWorld, noGitPointer_bareWorld, by decide +kernel, by decide +kernel⟩
  simp [nestedRoots, FileSystemPath.IsPlain]

theorem writableRoots_agree_iff_outerGit :
    nestedRoots.canWritePathWithCwd bareWorld "/a/.git".toList "/".toList = true ↔
      nestedRoots.hasFullDiskWriteAccess = true ∨
        ∃ root ∈ nestedRoots.getWritableRootsWithCwd bareWorld "/".toList,
          root.isPathWritable "/a/.git".toList = true := by
  have hplain : ∀ entry ∈ nestedRoots.entries, entry.path.IsPlain := by
    simp [nestedRoots, FileSystemPath.IsPlain]
  refine (writableRoots_agree_iff rfl hplain rfl symlinkFree_bareWorld noGitPointer_bareWorld rfl).mpr
    (.inr (.inl ⟨by decide +kernel, ?_⟩))
  have houter : ∀ e ∈ nestedRoots.resolvedEntriesWithCwd bareWorld "/".toList,
      e.path.names <+: (AbsolutePathBuf.normalizeFrom .root "/a/.git".toList).names → e.path.names = ["a".toList] := by
    decide +kernel
  intro r n hdec _ _ _
  have hr : r.path.names = ["a".toList] := houter r hdec.mem hdec.covers
  refine ⟨fun _ x hreach hne => ?_, fun hdefault => ?_⟩
  · -- no other root lies above
    obtain ⟨⟨⟨e, he, rfl⟩, -⟩, habove, -⟩ := hreach
    refine absurd (AbsolutePathBuf.ext ?_) hne
    rw [hr, houter e he (habove.trans hdec.covers)]
  · -- nothing exists here, and the working directory is another one
    have hcwd : AbsolutePathBuf.normalizeFrom .root "/".toList ≠ r.path := by
      intro heq
      have hnil : (AbsolutePathBuf.normalizeFrom .root "/".toList).names = [] := by decide +kernel
      rw [heq, hr] at hnil
      cases hnil
    have hno : protectedByDefault bareWorld (AbsolutePathBuf.normalizeFrom .root "/".toList) r.path n = false := by
      simp only [protectedByDefault, beq_eq_false_iff_ne.mpr hcwd, bareWorld, Bool.and_false, Bool.or_false]
    rw [hno] at hdefault
    cases hdefault

end Permissions
