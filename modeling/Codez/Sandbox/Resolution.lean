import Codez.Sandbox.Permissions

/-!
How a restricted policy decides one path, and what the order of its entries has to do with it.

The access of a path is that of the deepest entry that covers it, the strongest of those.
-/

namespace Permissions

open Codex PosixPath LongestPrefix List

variable {w : World} {policy : FileSystemSandboxPolicy} {entries : List ResolvedFileSystemEntry} {t : AbsolutePathBuf}
  {e r : ResolvedFileSystemEntry} {path cwd n : Text} {m : FileSystemAccessMode}

abbrev Decides (entries : List ResolvedFileSystemEntry) (t : AbsolutePathBuf) (e : ResolvedFileSystemEntry) :
    Prop :=
  Wins (fun e : ResolvedFileSystemEntry => e.path.names) ResolvedFileSystemEntry.access entries t.names e

def accessAt (entries : List ResolvedFileSystemEntry) (t : AbsolutePathBuf) : FileSystemAccessMode :=
  ((maxByKey resolvedEntryPrecedence (entries.filter fun entry => entry.path.names <+: t.names)).map
    ResolvedFileSystemEntry.access).getD .deny

open AbsolutePathBuf

theorem decides_of_maxByKey
    (h : maxByKey resolvedEntryPrecedence (entries.filter fun entry => entry.path.names <+: t.names) = some e) :
    Decides entries t e := by
  refine wins_of_maxByKey (fun e e' hlt => ?_) (fun e e' hpath hlt => ?_) h
  · refine Prod.Lex.toLex_lt_toLex.mpr (.inl ?_)
    simpa [components_eq] using hlt
  · refine Prod.Lex.toLex_lt_toLex.mpr (.inr ⟨?_, hlt⟩)
    simp [components_eq, hpath]

theorem exists_decides (h : ∃ e ∈ entries, e.path.names <+: t.names) :
    ∃ e, Decides entries t e ∧ accessAt entries t = e.access := by
  obtain ⟨e, hmem, hcov⟩ := h
  cases hmax : maxByKey resolvedEntryPrecedence (entries.filter fun entry => entry.path.names <+: t.names) with
  | none =>
    have hnil := maxByKey_eq_none.mp hmax
    have : e ∈ entries.filter fun entry => entry.path.names <+: t.names :=
      mem_filter.mpr ⟨hmem, decide_eq_true hcov⟩
    rw [hnil] at this
    cases this
  | some e' => exact ⟨e', decides_of_maxByKey hmax, by simp [accessAt, hmax]⟩

theorem accessAt_of_decides (h : Decides entries t e) : accessAt entries t = e.access := by
  obtain ⟨e', hdec, hacc⟩ := exists_decides ⟨e, h.mem, h.covers⟩
  rw [hacc]
  exact hdec.rank_eq h

theorem accessAt_of_uncovered (h : ¬∃ e ∈ entries, e.path.names <+: t.names) : accessAt entries t = .deny := by
  have hnil : (entries.filter fun entry => entry.path.names <+: t.names) = [] :=
    filter_eq_nil_iff.mpr fun e he hcov => h ⟨e, he, of_decide_eq_true hcov⟩
  simp [accessAt, hnil, maxByKey]

theorem accessAt_eq_write_iff :
    accessAt entries t = .write ↔ ∃ e, Decides entries t e ∧ e.access = .write := by
  constructor
  · intro h
    have hcovered : ∃ e ∈ entries, e.path.names <+: t.names := by
      by_contra hnone
      rw [accessAt_of_uncovered hnone] at h
      cases h
    obtain ⟨e, hdec, hacc⟩ := exists_decides hcovered
    exact ⟨e, hdec, hacc.symm.trans h⟩
  · rintro ⟨e, hdec, hw⟩
    rw [accessAt_of_decides hdec, hw]

theorem accessAt_congr {entries' : List ResolvedFileSystemEntry} (h : ∀ e, e ∈ entries ↔ e ∈ entries') :
    accessAt entries t = accessAt entries' t := by
  by_cases hcovered : ∃ e ∈ entries, e.path.names <+: t.names
  · obtain ⟨e, hdec, hacc⟩ := exists_decides hcovered
    rw [hacc, accessAt_of_decides (hdec.of_mem_iff h)]
  · have hcovered' : ¬∃ e ∈ entries', e.path.names <+: t.names := by simpa only [h] using hcovered
    rw [accessAt_of_uncovered hcovered, accessAt_of_uncovered hcovered']

/-! ## The metadata rule -/

def guards (t : AbsolutePathBuf) (e : ResolvedFileSystemEntry) : Bool :=
  e.access.canWrite &&
    match t.stripPrefix e.path with
    | some (n :: _) => (metadataPathName n).isSome
    | _ => false

theorem metadataPathName_eq_some {m : Text} :
    metadataPathName n = some m ↔ m = n ∧ n ∈ protectedMetadataPathNames := by
  constructor
  · intro h
    have hm : m = n := by simpa using find?_some h
    exact ⟨hm, hm ▸ mem_of_find?_eq_some h⟩
  · rintro ⟨rfl, hn⟩
    cases hfind : metadataPathName m with
    | none =>
      have hne := find?_eq_none.mp hfind m hn
      simp at hne
    | some m' => rw [show m' = m by simpa using find?_some hfind]

theorem canWrite_iff : m.canWrite = true ↔ m = .write := by
  cases m <;> decide

theorem guards_iff : guards t e = true ↔ e.access = .write ∧
      ∃ n rest, n ∈ protectedMetadataPathNames ∧ t.names = e.path.names ++ n :: rest := by
  unfold guards
  rw [Bool.and_eq_true, canWrite_iff]
  refine and_congr_right fun _ => ?_
  constructor
  · intro h
    split at h
    · next n rest hstrip =>
      obtain ⟨m, hm⟩ := Option.isSome_iff_exists.mp h
      exact ⟨n, rest, (metadataPathName_eq_some.mp hm).2, stripPrefix_eq_some.mp hstrip⟩
    · cases h
  · rintro ⟨n, rest, hn, hns⟩
    have hsome : (metadataPathName n).isSome = true := by simp [metadataPathName_eq_some.mpr ⟨rfl, hn⟩]
    rw [stripPrefix_eq_some.mpr hns]
    exact hsome

theorem isName_metadata (h : n ∈ protectedMetadataPathNames) : IsName n ∧ n.head? ≠ some '~' := by
  have hall : ∀ m ∈ protectedMetadataPathNames, IsName m ∧ m.head? ≠ some '~' := by decide
  exact hall n h

theorem names_join_metadata (p : AbsolutePathBuf) (h : n ∈ protectedMetadataPathNames) :
    (p.join w.env n).names = p.names ++ [n] :=
  p.names_join w.env (isName_metadata h).1 (isName_metadata h).2

theorem findSome?_eq_bind {α β : Type} {f : α → Option β} {p : α → Bool} (xs : List α)
    (h : ∀ x, (f x).isSome = p x) : xs.findSome? f = (xs.find? p).bind f := by
  induction xs with
  | nil => rfl
  | cons x xs ih =>
    rw [findSome?_cons, find?_cons]
    cases hf : f x with
    | none => simp [← h x, hf, ih]
    | some y => simp [← h x, hf]

theorem isSome_metadataChild (e : ResolvedFileSystemEntry) : (metadataChild w t e).isSome = guards t e := by
  unfold guards metadataChild
  cases e.access.canWrite with
  | false => simp
  | true =>
    simp only [if_true, Bool.true_and]
    rcases t.stripPrefix e.path with _ | _ | ⟨n, rest⟩ <;> simp

open FileSystemSandboxPolicy

theorem metadataChildOfWritableRoot_eq_some
    (h : (policy.resolvedEntriesWithCwd w cwd).find? (guards t) = some e) :
    ∃ n rest, n ∈ protectedMetadataPathNames ∧ t.names = e.path.names ++ n :: rest ∧
      policy.metadataChildOfWritableRoot w t cwd = some (e.path.join w.env n, n) := by
  obtain ⟨hwr, n, rest, hn, hns⟩ := guards_iff.mp (find?_some h)
  refine ⟨n, rest, hn, hns, ?_⟩
  rw [metadataChildOfWritableRoot, findSome?_eq_bind _ isSome_metadataChild, h]
  simp [metadataChild, hwr, stripPrefix_eq_some.mpr hns,
    metadataPathName_eq_some.mpr ⟨rfl, hn⟩, canWrite_iff]

theorem metadataChildOfWritableRoot_eq_none
    (h : (policy.resolvedEntriesWithCwd w cwd).find? (guards t) = none) :
    policy.metadataChildOfWritableRoot w t cwd = none := by
  rw [metadataChildOfWritableRoot, findSome?_eq_bind _ isSome_metadataChild, h]
  rfl

/-! ## Answers -/

open FileSystemAccessMode

section
variable (hkind : policy.kind = .restricted) (hpath : resolveCandidatePath w path cwd = some t)

include hkind hpath

theorem resolveAccessWithCwd_eq :
    policy.resolveAccessWithCwd w path cwd = accessAt (policy.resolvedEntriesWithCwd w cwd) t := by
  simp [resolveAccessWithCwd, hkind, hpath, accessAt]

theorem isMetadataWriteDenied_iff (hdec : Decides (policy.resolvedEntriesWithCwd w cwd) t r)
    (hw : r.access = .write) :
    policy.isMetadataWriteDenied w path cwd = true ↔
      ∃ e, (policy.resolvedEntriesWithCwd w cwd).find? (guards t) = some e ∧ e.path = r.path := by
  cases hfind : (policy.resolvedEntriesWithCwd w cwd).find? (guards t) with
  | none =>
    simp [isMetadataWriteDenied, hkind, hpath, metadataChildOfWritableRoot_eq_none hfind]
  | some e =>
    obtain ⟨n, rest, hn, hns, hchild⟩ := metadataChildOfWritableRoot_eq_some hfind
    have hmem := mem_of_find?_eq_some hfind
    have habv : e.path.names <+: r.path.names := hdec.above hmem ⟨n :: rest, hns.symm⟩
    have hdenied : policy.isMetadataWriteDenied w path cwd =
        !policy.hasExplicitWriteEntryForMetadataPath w (e.path.join w.env n) t cwd := by
      simp [isMetadataWriteDenied, hkind, hpath, hchild]
    simp only [hdenied, Bool.not_eq_true', Option.some.injEq, exists_eq_left', ← Bool.not_eq_true]
    rw [hasExplicitWriteEntryForMetadataPath, any_eq_true]
    constructor
    · intro hnone
      by_contra hne
      -- the deciding entry lies in a child of `e`
      have hlt : e.path.names.length < r.path.names.length := by
        refine lt_of_le_of_ne habv.length_le fun hlen => hne ?_
        exact AbsolutePathBuf.ext (habv.eq_of_length hlen)
      have hbel : e.path.names ++ [n] <+: r.path.names := by
        have hchild : e.path.names ++ [n] <+: t.names := ⟨rest, by simp [hns]⟩
        exact prefix_of_prefix_length_le hchild hdec.covers (by simpa using hlt)
      refine hnone ⟨r, hdec.mem, ?_⟩
      simp [canWrite_iff.mpr hw, startsWith_iff, hdec.covers, names_join_metadata _ hn, hbel]
    · rintro heq ⟨v, hv, hexp⟩
      rw [Bool.and_eq_true, Bool.and_eq_true, startsWith_iff, startsWith_iff,
        names_join_metadata _ hn] at hexp
      have hlen := (hexp.2.trans (hdec.above hv hexp.1.2)).length_le
      rw [heq] at hlen
      simp at hlen

theorem canWritePathWithCwd_iff (hfull : policy.hasFullDiskWriteAccess = false) :
    policy.canWritePathWithCwd w path cwd = true ↔
      ∃ r, Decides (policy.resolvedEntriesWithCwd w cwd) t r ∧ r.access = .write ∧
        ∀ e, (policy.resolvedEntriesWithCwd w cwd).find? (guards t) = some e → e.path ≠ r.path := by
  have hunfold : policy.canWritePathWithCwd w path cwd = true ↔
      accessAt (policy.resolvedEntriesWithCwd w cwd) t = .write ∧
        ¬policy.isMetadataWriteDenied w path cwd = true := by
    rw [canWritePathWithCwd, resolveAccessWithCwd_eq hkind hpath]
    by_cases hacc : accessAt (policy.resolvedEntriesWithCwd w cwd) t = .write
    · simp [hacc, hfull, canWrite]
    · simp [hacc, canWrite]
  rw [hunfold, accessAt_eq_write_iff]
  constructor
  · rintro ⟨⟨r, hdec, hwr⟩, hall⟩
    refine ⟨r, hdec, hwr, fun e hfind heq => ?_⟩
    exact hall ((isMetadataWriteDenied_iff hkind hpath hdec hwr).mpr ⟨e, hfind, heq⟩)
  · rintro ⟨r, hdec, hwr, hfst⟩
    refine ⟨⟨r, hdec, hwr⟩, fun hdenied => ?_⟩
    obtain ⟨e, hfind, heq⟩ := (isMetadataWriteDenied_iff hkind hpath hdec hwr).mp hdenied
    exact hfst e hfind heq

end

/-! ## The order of the entries -/

theorem resolveCandidatePath_of_isAbsolute (h : isAbsolute path = true) :
    resolveCandidatePath w path cwd = some (normalizeFrom .root path) := by
  rw [resolveCandidatePath, if_pos h, fromAbsolutePath_of_isAbsolute w.env h]

/-- Two writable entries, one above the other, both with their metadata child on the way to
`t`; the lower one decides `t`. -/
structure Contested (entries : List ResolvedFileSystemEntry) (t : AbsolutePathBuf)
    (outer inner : ResolvedFileSystemEntry) : Prop where
  outer_mem : outer ∈ entries
  inner_mem : inner ∈ entries
  outer_guards : guards t outer = true
  inner_guards : guards t inner = true
  distinct : outer.path ≠ inner.path
  deepest : ∀ e ∈ entries, e.path.names <+: t.names → e.path.names.length ≤ inner.path.names.length
  undenied : ⟨inner.path, .deny⟩ ∉ entries

theorem guards_covers (h : guards t e = true) : e.path.names <+: t.names := by
  obtain ⟨-, n, rest, -, hns⟩ := guards_iff.mp h
  exact ⟨n :: rest, hns.symm⟩

theorem le_write_of_ne_deny (h : m ≠ .deny) : m ≤ .write := by
  cases m with
  | read => decide
  | write => decide
  | deny => exact absurd rfl h

theorem Contested.decides {outer inner : ResolvedFileSystemEntry} (h : Contested entries t outer inner) :
    Decides entries t inner where
  mem := h.inner_mem
  covers := guards_covers h.inner_guards
  longest := h.deepest
  strongest e he hpath := by
    rw [(guards_iff.mp h.inner_guards).1]
    refine le_write_of_ne_deny fun hdeny => h.undenied ?_
    rw [← AbsolutePathBuf.ext hpath, ← hdeny]
    exact he

theorem find?_guards_iff (hnone : ¬∃ outer inner, Contested entries t outer inner) (hdec : Decides entries t r)
    (hw : r.access = .write) :
    (∃ e, entries.find? (guards t) = some e ∧ e.path = r.path) ↔
      ∃ e ∈ entries, guards t e = true ∧ e.path = r.path := by
  constructor
  · rintro ⟨e, hfind, heq⟩
    exact ⟨e, mem_of_find?_eq_some hfind, find?_some hfind, heq⟩
  · rintro ⟨e, he, hguards, heq⟩
    cases hfind : entries.find? (guards t) with
    | none => exact absurd hguards (find?_eq_none.mp hfind e he)
    | some first =>
      refine ⟨first, rfl, ?_⟩
      by_contra hne
      refine hnone ⟨first, e, mem_of_find?_eq_some hfind, he, find?_some hfind, hguards, ?_, ?_, ?_⟩
      · rwa [heq]
      · rw [heq]
        exact hdec.longest
      · intro hdeny
        have hle := hdec.strongest _ hdeny (congrArg names heq)
        rw [hw] at hle
        have hlt : write < .deny := by decide
        exact absurd hle (not_le.mpr hlt)

abbrev FileSystemSandboxPolicy.withEntries (policy : FileSystemSandboxPolicy)
    (entries : List FileSystemSandboxEntry) : FileSystemSandboxPolicy :=
  { policy with entries := entries }

section
variable {entries' : List FileSystemSandboxEntry}

theorem hasSameTargetWriteOverride_perm (h : entries'.Perm policy.entries) (entry : FileSystemSandboxEntry) :
    (policy.withEntries entries').hasSameTargetWriteOverride entry = policy.hasSameTargetWriteOverride entry :=
  h.any_eq

theorem hasFullDiskWriteAccess_perm (h : entries'.Perm policy.entries) :
    (policy.withEntries entries').hasFullDiskWriteAccess = policy.hasFullDiskWriteAccess := by
  simp only [hasFullDiskWriteAccess, hasRootAccess,
    hasWriteNarrowingEntries, hasSameTargetWriteOverride_perm h, h.any_eq]

theorem mem_resolvedEntriesWithCwd_perm (h : entries'.Perm policy.entries) (e : ResolvedFileSystemEntry) :
    e ∈ (policy.withEntries entries').resolvedEntriesWithCwd w cwd ↔ e ∈ policy.resolvedEntriesWithCwd w cwd :=
  (h.filterMap _).mem_iff

theorem resolveAccessWithCwd_perm (hkind : policy.kind = .restricted)
    (hpath : resolveCandidatePath w path cwd = some t) (h : entries'.Perm policy.entries) :
    (policy.withEntries entries').resolveAccessWithCwd w path cwd = policy.resolveAccessWithCwd w path cwd := by
  have hl : (policy.withEntries entries').resolveAccessWithCwd w path cwd = _ :=
    resolveAccessWithCwd_eq hkind hpath
  rw [hl, resolveAccessWithCwd_eq hkind hpath]
  exact accessAt_congr (mem_resolvedEntriesWithCwd_perm h)

theorem exists_perm_find? (he : e ∈ policy.resolvedEntriesWithCwd w cwd) (hguards : guards t e = true) :
    ∃ entries', entries'.Perm policy.entries ∧
      ((policy.withEntries entries').resolvedEntriesWithCwd w cwd).find? (guards t) = some e := by
  obtain ⟨a, ha, hres⟩ := mem_filterMap.mp he
  refine ⟨a :: policy.entries.erase a, (perm_cons_erase ha).symm, ?_⟩
  simp only [resolvedEntriesWithCwd, filterMap_cons, hres]
  exact find?_cons_of_pos hguards

theorem isMetadataWriteDenied_perm (hkind : policy.kind = .restricted)
    (hpath : resolveCandidatePath w path cwd = some t)
    (hnone : ¬∃ outer inner, Contested (policy.resolvedEntriesWithCwd w cwd) t outer inner)
    (hdec : Decides (policy.resolvedEntriesWithCwd w cwd) t r) (hw : r.access = .write)
    (h : entries'.Perm policy.entries) :
    (policy.withEntries entries').isMetadataWriteDenied w path cwd = policy.isMetadataWriteDenied w path cwd := by
  have hmem : ∀ e, e ∈ (policy.withEntries entries').resolvedEntriesWithCwd w cwd ↔
      e ∈ policy.resolvedEntriesWithCwd w cwd := mem_resolvedEntriesWithCwd_perm h
  have hdec' : Decides ((policy.withEntries entries').resolvedEntriesWithCwd w cwd) t r :=
    hdec.of_mem_iff fun e => (hmem e).symm
  have hnone' : ¬∃ outer inner,
      Contested ((policy.withEntries entries').resolvedEntriesWithCwd w cwd) t outer inner := by
    rintro ⟨outer, inner, hc⟩
    exact hnone ⟨outer, inner, (hmem outer).mp hc.outer_mem, (hmem inner).mp hc.inner_mem, hc.outer_guards,
      hc.inner_guards, hc.distinct, fun e he => hc.deepest e ((hmem e).mpr he),
      fun hdeny => hc.undenied ((hmem _).mpr hdeny)⟩
  rw [Bool.eq_iff_iff, isMetadataWriteDenied_iff hkind hpath hdec hw, find?_guards_iff hnone hdec hw]
  have hl : (policy.withEntries entries').isMetadataWriteDenied w path cwd = true ↔ _ :=
    isMetadataWriteDenied_iff hkind hpath hdec' hw
  rw [hl, find?_guards_iff hnone' hdec' hw]
  simp only [hmem]

theorem canWritePathWithCwd_perm (hkind : policy.kind = .restricted)
    (hpath : resolveCandidatePath w path cwd = some t)
    (hcond : policy.hasFullDiskWriteAccess = true ∨
      ¬∃ outer inner, Contested (policy.resolvedEntriesWithCwd w cwd) t outer inner)
    (h : entries'.Perm policy.entries) :
    (policy.withEntries entries').canWritePathWithCwd w path cwd = policy.canWritePathWithCwd w path cwd := by
  rw [canWritePathWithCwd, canWritePathWithCwd,
    resolveAccessWithCwd_perm hkind hpath h, hasFullDiskWriteAccess_perm h]
  by_cases hacc : policy.resolveAccessWithCwd w path cwd = .write
  · rcases hcond with hfull | hnone
    · simp [hfull]
    · rw [resolveAccessWithCwd_eq hkind hpath] at hacc
      obtain ⟨r, hdec, hw⟩ := accessAt_eq_write_iff.mp hacc
      rw [isMetadataWriteDenied_perm hkind hpath hnone hdec hw h]
  · have hno : (policy.resolveAccessWithCwd w path cwd).canWrite = false := by
      rw [← Bool.not_eq_true, canWrite_iff]
      exact hacc
    simp [hno]

end

/-- The answers for a path are the same in every order of the entries exactly when writing is
unrestricted or no two writable entries contest the path. -/
theorem answers_perm_iff (hkind : policy.kind = .restricted) (hpath : isAbsolute path = true) :
    (∀ entries', entries'.Perm policy.entries →
      (policy.withEntries entries').canReadPathWithCwd w path cwd = policy.canReadPathWithCwd w path cwd ∧
      (policy.withEntries entries').canWritePathWithCwd w path cwd = policy.canWritePathWithCwd w path cwd) ↔
    (policy.hasFullDiskWriteAccess = true ∨ ¬∃ outer inner,
      Contested (policy.resolvedEntriesWithCwd w cwd) (AbsolutePathBuf.normalizeFrom .root path) outer inner) := by
  have hresolved : resolveCandidatePath w path cwd = some (AbsolutePathBuf.normalizeFrom .root path) :=
    resolveCandidatePath_of_isAbsolute hpath
  constructor
  · intro hsame
    by_contra hcond
    push Not at hcond
    obtain ⟨hfull, outer, inner, hc⟩ := hcond
    have hfull : policy.hasFullDiskWriteAccess = false := by simpa using hfull
    have hwrite : inner.access = .write := (guards_iff.mp hc.inner_guards).1
    -- with the inner entry in front the write is refused, with the outer one it is allowed
    obtain ⟨front, hfront, hfindInner⟩ := exists_perm_find? hc.inner_mem hc.inner_guards
    obtain ⟨back, hback, hfindOuter⟩ := exists_perm_find? hc.outer_mem hc.outer_guards
    have hdec : ∀ entries', entries'.Perm policy.entries →
        Decides ((policy.withEntries entries').resolvedEntriesWithCwd w cwd) _ inner := fun entries' h =>
      hc.decides.of_mem_iff fun e => (mem_resolvedEntriesWithCwd_perm h e).symm
    have hkind' : ∀ entries', (policy.withEntries entries').kind = .restricted := fun _ => hkind
    have hfull' : ∀ entries', entries'.Perm policy.entries →
        (policy.withEntries entries').hasFullDiskWriteAccess = false := fun entries' h => by
      rw [hasFullDiskWriteAccess_perm h, hfull]
    have hallowed : (policy.withEntries back).canWritePathWithCwd w path cwd = true := by
      refine (canWritePathWithCwd_iff (hkind' back) hresolved (hfull' back hback)).mpr ?_
      refine ⟨inner, hdec back hback, hwrite, fun e hfind => ?_⟩
      rw [hfindOuter, Option.some.injEq] at hfind
      rw [← hfind]
      exact hc.distinct
    have hrefused : ¬(policy.withEntries front).canWritePathWithCwd w path cwd = true := by
      intro hallowed'
      obtain ⟨r, hdec', -, hfirst⟩ :=
        (canWritePathWithCwd_iff (hkind' front) hresolved (hfull' front hfront)).mp hallowed'
      exact hfirst inner hfindInner (AbsolutePathBuf.ext ((hdec front hfront).path_eq hdec'))
    rw [(hsame front hfront).2, ← (hsame back hback).2] at hrefused
    exact hrefused hallowed
  · intro hcond entries' h
    refine ⟨?_, canWritePathWithCwd_perm hkind hresolved hcond h⟩
    rw [FileSystemSandboxPolicy.canReadPathWithCwd, resolveAccessWithCwd_perm hkind hresolved h]
    rfl

def nestedInGit : FileSystemSandboxPolicy where
  kind := .restricted
  entries :=
    [⟨.path ⟨["a".toList], by decide⟩, .write⟩,
      ⟨.path ⟨["a".toList, ".git".toList, "b".toList], by decide⟩, .write⟩]

theorem nestedInGit_order : nestedInGit.entries.reverse.Perm nestedInGit.entries ∧
    nestedInGit.canWritePathWithCwd bareWorld "/a/.git/b/.git/c".toList "/".toList = true ∧
    (nestedInGit.withEntries nestedInGit.entries.reverse).canWritePathWithCwd bareWorld
      "/a/.git/b/.git/c".toList "/".toList = false := by
  refine ⟨reverse_perm _, ?_, ?_⟩ <;> decide +kernel

theorem answers_perm_iff_ordinaryFile : nestedInGit.kind = .restricted ∧
    ∀ entries', entries'.Perm nestedInGit.entries →
      (nestedInGit.withEntries entries').canReadPathWithCwd bareWorld "/a/src".toList "/".toList =
        nestedInGit.canReadPathWithCwd bareWorld "/a/src".toList "/".toList ∧
      (nestedInGit.withEntries entries').canWritePathWithCwd bareWorld "/a/src".toList "/".toList =
        nestedInGit.canWritePathWithCwd bareWorld "/a/src".toList "/".toList := by
  refine ⟨rfl, (answers_perm_iff rfl rfl).mpr (.inr ?_)⟩
  rintro ⟨outer, inner, h⟩
  have hunguarded : ∀ e ∈ nestedInGit.resolvedEntriesWithCwd bareWorld "/".toList,
      guards (AbsolutePathBuf.normalizeFrom .root "/a/src".toList) e = false := by decide +kernel
  exact Bool.false_ne_true ((hunguarded inner h.inner_mem).symm.trans h.inner_guards)

end Permissions
