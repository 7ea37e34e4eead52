import Codez.Lib.PosixPath

/-!
Absolute, normalised paths (`codex-utils-absolute-path`).

An `AbsolutePathBuf` is the list of its names; `asPath` is its text.
-/

namespace Codex

open PosixPath List

structure AbsolutePathBuf where
  names : List Text
  isName : ∀ n ∈ names, IsName n
deriving DecidableEq

structure ProcessEnv where
  homeDir : Option Text := none
  currentDir : Option AbsolutePathBuf := none

def joinPath (a b : Text) : Text :=
  if isAbsolute b then b
  else if a = [] ∨ a.getLast? = some '/' then a ++ b
  else a ++ '/' :: b

namespace AbsolutePathBuf

variable (env : ProcessEnv) (p : AbsolutePathBuf) {path : Text}

@[ext] theorem ext {p q : AbsolutePathBuf} (h : p.names = q.names) : p = q := by
  cases p
  cases q
  cases h
  rfl

def asPath (p : AbsolutePathBuf) : Text := render p.names

def root : AbsolutePathBuf := ⟨[], by simp⟩

def components (p : AbsolutePathBuf) : List Component := PosixPath.components p.asPath

def startsWith (p q : AbsolutePathBuf) : Bool := q.names.isPrefixOf p.names

def stripPrefix (p q : AbsolutePathBuf) : Option (List Text) :=
  if q.names.isPrefixOf p.names then some (p.names.drop q.names.length) else none

def take (p : AbsolutePathBuf) (k : Nat) : AbsolutePathBuf :=
  ⟨p.names.take k, fun n hn => p.isName n (mem_of_mem_take hn)⟩

def ancestors (p : AbsolutePathBuf) : List AbsolutePathBuf :=
  (List.range (p.names.length + 1)).reverse.map p.take

def parent (p : AbsolutePathBuf) : Option AbsolutePathBuf :=
  if p.names = [] then none else some (p.take (p.names.length - 1))

def append (p q : AbsolutePathBuf) (k : Nat) : AbsolutePathBuf :=
  ⟨p.names ++ q.names.drop k, fun n hn =>
    (mem_append.mp hn).elim (p.isName n) fun hn => q.isName n (mem_of_mem_drop hn)⟩

def maybeExpandHomeDirectory (path : Text) : Text :=
  match env.homeDir, path with
  | some home, '~' :: rest =>
    match rest with
    | [] => home
    | '/' :: rest => joinPath home (rest.dropWhile (· == '/'))
    | _ => path
  | _, _ => path

def normalizeFrom (dir : AbsolutePathBuf) (path : Text) : AbsolutePathBuf :=
  ⟨resolve dir.names (PosixPath.components path),
    isName_resolve dir.isName fun _ hn => isName_of_mem_components hn⟩

def resolvePathAgainstBase (path : Text) (base : AbsolutePathBuf) : AbsolutePathBuf :=
  normalizeFrom base (maybeExpandHomeDirectory env path)

/-- `none` when the path is relative and the current directory cannot be read. -/
def fromAbsolutePath (path : Text) : Option AbsolutePathBuf :=
  let expanded := maybeExpandHomeDirectory env path
  if isAbsolute expanded then some (normalizeFrom root expanded)
  else env.currentDir.map fun dir => normalizeFrom dir expanded

def join (p : AbsolutePathBuf) (path : Text) : AbsolutePathBuf := resolvePathAgainstBase env path p

theorem isAbsolute_asPath : isAbsolute p.asPath = true := isAbsolute_render p.names

theorem components_eq : p.components = .rootDir :: p.names.map .normal :=
  components_render p.names p.isName

theorem maybeExpandHomeDirectory_eq (h : path.head? ≠ some '~') :
    maybeExpandHomeDirectory env path = path := by
  cases path with
  | nil => cases hh : env.homeDir <;> simp [maybeExpandHomeDirectory, hh]
  | cons c path =>
    have hc : c ≠ '~' := by simpa using h
    cases hh : env.homeDir <;> simp [maybeExpandHomeDirectory, hh, hc]

theorem fromAbsolutePath_of_isAbsolute (h : isAbsolute path = true) :
    fromAbsolutePath env path = some (normalizeFrom root path) := by
  have hh : path.head? = some '/' := by simpa [isAbsolute] using h
  have hexp : maybeExpandHomeDirectory env path = path := maybeExpandHomeDirectory_eq env (by simp [hh])
  simp [fromAbsolutePath, hexp, h]

theorem normalizeFrom_asPath (dir p : AbsolutePathBuf) : normalizeFrom dir p.asPath = p := by
  apply AbsolutePathBuf.ext
  change resolve dir.names p.components = p.names
  rw [components_eq, resolve_rootDir, resolve_names, nil_append]

@[simp] theorem fromAbsolutePath_asPath : fromAbsolutePath env p.asPath = some p := by
  rw [fromAbsolutePath_of_isAbsolute env p.isAbsolute_asPath, normalizeFrom_asPath]

theorem names_join {n : Text} (h : IsName n) (hhome : n.head? ≠ some '~') :
    (p.join env n).names = p.names ++ [n] := by
  have hrel : isAbsolute n = false := by
    cases n with
    | nil => rfl
    | cons c n =>
      have hc : '/' ≠ c := fun hc => h.2.2.2 (hc ▸ mem_cons_self)
      simp [isAbsolute, hc.symm]
  have hspl : n.splitOn '/' = [n] := by
    rw [splitOn_eq_singleton]
    exact h.2.2.2
  have hcomp : PosixPath.components n = [.normal n] := by
    simp [PosixPath.components, hrel, hspl, ofPiece_of_isName h, h.2.1]
  rw [join, resolvePathAgainstBase, maybeExpandHomeDirectory_eq env hhome]
  change resolve p.names (PosixPath.components n) = _
  rw [hcomp]
  rfl

theorem pieces_joinPath (a : Text) {b : Text} (h : isAbsolute b = false) :
    pieces (joinPath a b) = pieces a ++ pieces b := by
  unfold joinPath
  rw [if_neg (by simp [h])]
  split
  · next hend =>
    rcases hend with rfl | hl
    · simp
    · obtain ⟨a', rfl⟩ := getLast?_eq_some_iff.mp hl
      rw [append_assoc, singleton_append, pieces_append_slash, pieces_append_slash, pieces_nil, append_nil]
  · rw [pieces_append_slash]

theorem isAbsolute_joinPath (a : Text) {b : Text} (h : isAbsolute b = false) :
    isAbsolute (joinPath a b) = isAbsolute a := by
  unfold joinPath
  rw [if_neg (by simp [h])]
  cases a with
  | nil => simpa [isAbsolute] using h
  | cons c a => split <;> simp [isAbsolute]

theorem names_resolvePathAgainstBase_home {home : Text} {cs : List Component} (hhome : env.homeDir = some home)
    (h : PosixPath.components path = .normal ['~'] :: cs) (base : AbsolutePathBuf) :
    (resolvePathAgainstBase env path base).names =
      resolve (resolve base.names (PosixPath.components home)) cs := by
  change resolve base.names (PosixPath.components (maybeExpandHomeDirectory env path)) = _
  rcases components_eq_cons h with rfl | ⟨rest, rfl⟩
  · obtain rfl : cs = [] := (List.cons.inj h).2.symm
    simp [maybeExpandHomeDirectory, hhome, resolve]
  · have hrel : isAbsolute (rest.dropWhile (· == '/')) = false := by
      have hh := head?_dropWhile_not (· == '/') rest
      cases hdrop : (rest.dropWhile (· == '/')).head? with
      | none => simp [isAbsolute, hdrop]
      | some c =>
        rw [hdrop] at hh
        simpa [isAbsolute, hdrop] using hh
    have hexpand : maybeExpandHomeDirectory env (['~'] ++ '/' :: rest) =
        joinPath home (rest.dropWhile (· == '/')) := by
      simp [maybeExpandHomeDirectory, hhome]
    have hcs : cs = pieces rest := by
      rw [components_append_slash (by decide : IsName ['~'])] at h
      exact (List.cons.inj h).2.symm
    rw [hexpand, resolve_components, isAbsolute_joinPath home hrel, pieces_joinPath home hrel, resolve_append,
      ← resolve_components, pieces_dropWhile_slash, hcs]

theorem resolvePathAgainstBase_other (h : env.homeDir = none ∨ ∀ cs, PosixPath.components path ≠ .normal ['~'] :: cs)
    (base : AbsolutePathBuf) : resolvePathAgainstBase env path base = normalizeFrom base path := by
  have hexpand : maybeExpandHomeDirectory env path = path := by
    unfold maybeExpandHomeDirectory
    split
    · next home rest hhome =>
      have hcomp := h.resolve_left (by rw [hhome]; exact Option.some_ne_none home)
      split
      · exact absurd rfl (hcomp [])
      · next rest => exact absurd (components_append_slash (by decide : IsName ['~']) rest) (hcomp _)
      · rfl
    · rfl
  rw [resolvePathAgainstBase, hexpand]

theorem resolvePathAgainstBase_congr {path' : Text} (h : PosixPath.components path = PosixPath.components path')
    (base : AbsolutePathBuf) : resolvePathAgainstBase env path base = resolvePathAgainstBase env path' base := by
  by_cases hhome : ∃ home cs, env.homeDir = some home ∧ PosixPath.components path = .normal ['~'] :: cs
  · obtain ⟨home, cs, hhome, hcs⟩ := hhome
    apply AbsolutePathBuf.ext
    rw [names_resolvePathAgainstBase_home env hhome hcs, names_resolvePathAgainstBase_home env hhome (h ▸ hcs)]
  · have hoth : env.homeDir = none ∨ ∀ cs, PosixPath.components path ≠ .normal ['~'] :: cs := by
      cases hdir : env.homeDir with
      | none => exact .inl rfl
      | some home => exact .inr fun cs hcs => hhome ⟨home, cs, hdir, hcs⟩
    rw [resolvePathAgainstBase_other env hoth, resolvePathAgainstBase_other env (h ▸ hoth)]
    simp only [normalizeFrom, h]

theorem startsWith_iff {p q : AbsolutePathBuf} : p.startsWith q = true ↔ q.names <+: p.names :=
  List.isPrefixOf_iff_prefix

theorem stripPrefix_eq_some {p q : AbsolutePathBuf} {rest : List Text} :
    p.stripPrefix q = some rest ↔ p.names = q.names ++ rest := by
  unfold stripPrefix
  split
  · next h =>
    obtain ⟨rest', hr⟩ := List.isPrefixOf_iff_prefix.mp h
    rw [← hr, drop_left, Option.some.injEq, append_cancel_left_eq]
  · next h =>
    simp only [reduceCtorEq, false_iff]
    intro heq
    exact h (List.isPrefixOf_iff_prefix.mpr (heq ▸ prefix_append _ _))

end AbsolutePathBuf

end Codex
