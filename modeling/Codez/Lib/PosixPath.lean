import Codez.Lib.Text

/-!
POSIX paths: the components of a path text and where they lead.

A path is split at `/`; an empty piece and a `.` say nothing (only a `.` in front of a relative path
is kept as a component), `..` asks for the parent.
-/

namespace PosixPath

open List

inductive Component where
  | rootDir
  | curDir
  | parentDir
  | normal (name : Text)
deriving DecidableEq

def Component.asOsStr : Component → Text
  | rootDir => ['/']
  | curDir => ['.']
  | parentDir => ['.', '.']
  | normal name => name

def IsName (n : Text) : Prop := n ≠ [] ∧ n ≠ ['.'] ∧ n ≠ ['.', '.'] ∧ '/' ∉ n

instance (n : Text) : Decidable (IsName n) := inferInstanceAs (Decidable (_ ∧ _ ∧ _ ∧ _))

def isAbsolute (p : Text) : Bool := p.head? == some '/'

def ofPiece (s : Text) : Option Component :=
  if s = [] ∨ s = ['.'] then none
  else if s = ['.', '.'] then some .parentDir
  else some (.normal s)

def components (p : Text) : List Component :=
  let pieces := p.splitOn '/'
  let start := if isAbsolute p then [.rootDir] else if pieces.head? = some ['.'] then [.curDir] else []
  start ++ pieces.filterMap ofPiece

def Component.resolve (dir : List Text) : Component → List Text
  | rootDir => []
  | curDir => dir
  | parentDir => dir.dropLast
  | normal name => dir ++ [name]

def resolve (dir : List Text) (cs : List Component) : List Text := cs.foldl Component.resolve dir

def render (names : List Text) : Text := '/' :: ['/'].intercalate names

/-! ## Pieces -/

variable (p : Text) {n s : Text} (names dir : List Text) {cs : List Component}

theorem ofPiece_eq_normal (h : ofPiece s = some (.normal n)) :
    s = n ∧ n ≠ [] ∧ n ≠ ['.'] ∧ n ≠ ['.', '.'] := by
  unfold ofPiece at h
  split at h
  · cases h
  · next hskip =>
    push Not at hskip
    split at h
    · cases h
    · next hup =>
      cases h
      exact ⟨rfl, hskip.1, hskip.2, hup⟩

theorem ofPiece_of_isName (h : IsName n) : ofPiece n = some (.normal n) := by
  obtain ⟨hne, hdot, hup, -⟩ := h
  simp [ofPiece, hne, hdot, hup]

theorem ofPiece_ne_rootDir (s : Text) : ofPiece s ≠ some .rootDir := by
  unfold ofPiece
  split
  · simp
  · split <;> simp

theorem ofPiece_ne_curDir (s : Text) : ofPiece s ≠ some .curDir := by
  unfold ofPiece
  split
  · simp
  · split <;> simp

/-! ## Components -/

theorem components_of_isAbsolute {p : Text} (h : isAbsolute p = true) :
    components p = .rootDir :: (p.splitOn '/').filterMap ofPiece := by
  simp [components, h]

theorem isName_of_mem_components {p : Text} (h : .normal n ∈ components p) : IsName n := by
  have hpiece : .normal n ∈ (p.splitOn '/').filterMap ofPiece := by
    rcases mem_append.mp h with h | h
    · split at h
      · simp at h
      · split at h <;> simp at h
    · exact h
  obtain ⟨s, hs, hsn⟩ := mem_filterMap.mp hpiece
  obtain ⟨rfl, hne, hdot, hup⟩ := ofPiece_eq_normal hsn
  exact ⟨hne, hdot, hup, Text.not_mem_of_mem_splitOn hs⟩

theorem splitOn_render (h : ∀ n ∈ names, IsName n) :
    (render names).splitOn '/' = [] :: (if names = [] then [[]] else names) := by
  have hfst : (render names).splitOn '/' = [] :: (['/'].intercalate names).splitOn '/' :=
    splitOn_append_cons_self_of_not_mem not_mem_nil _
  rw [hfst]
  split
  · next hnil => simp [hnil, List.intercalate, splitOn_nil]
  · next hne => rw [splitOn_intercalate '/' (fun n hn => (h n hn).2.2.2) hne]

theorem filterMap_ofPiece_names (h : ∀ n ∈ names, IsName n) :
    names.filterMap ofPiece = names.map .normal := by
  induction names with
  | nil => rfl
  | cons n names ih =>
    rw [filterMap_cons_some (ofPiece_of_isName (h n mem_cons_self)),
      ih (forall_mem_cons.mp h).2, map_cons]

@[simp] theorem isAbsolute_render : isAbsolute (render names) = true := rfl

theorem components_render (h : ∀ n ∈ names, IsName n) :
    components (render names) = .rootDir :: names.map .normal := by
  rw [components_of_isAbsolute (isAbsolute_render names), splitOn_render names h,
    filterMap_cons_none (by simp [ofPiece])]
  split
  · next hnil => simp [hnil, ofPiece]
  · rw [filterMap_ofPiece_names names h]

/-! ## Resolution -/

theorem resolve_append (cs cs' : List Component) :
    resolve dir (cs ++ cs') = resolve (resolve dir cs) cs' := foldl_append

@[simp] theorem resolve_rootDir (cs : List Component) : resolve dir (.rootDir :: cs) = resolve [] cs := rfl

theorem resolve_names (dir names : List Text) : resolve dir (names.map .normal) = dir ++ names := by
  induction names generalizing dir with
  | nil => simp [resolve]
  | cons n names ih =>
    rw [map_cons]
    change resolve (dir ++ [n]) (names.map .normal) = _
    rw [ih, append_assoc, singleton_append]

def pieces (p : Text) : List Component := (p.splitOn '/').filterMap ofPiece

theorem resolve_components (p : Text) :
    resolve dir (components p) = resolve (if isAbsolute p then [] else dir) (pieces p) := by
  unfold components pieces
  cases isAbsolute p with
  | true => rfl
  | false =>
    simp only [Bool.false_eq_true, if_false]
    split <;> rfl

theorem pieces_append_slash (a b : Text) : pieces (a ++ '/' :: b) = pieces a ++ pieces b := by
  unfold pieces
  have hspl : (a ++ '/' :: b).splitOn '/' = a.splitOn '/' ++ b.splitOn '/' :=
    splitOnP_append_cons a b (beq_self_eq_true '/')
  rw [hspl, filterMap_append]

@[simp] theorem pieces_nil : pieces [] = [] := rfl

theorem pieces_slash : pieces ('/' :: p) = pieces p := pieces_append_slash [] p

theorem pieces_dropWhile_slash : pieces (p.dropWhile (· == '/')) = pieces p := by
  induction p with
  | nil => rfl
  | cons c p ih =>
    rw [dropWhile_cons]
    split
    · next hc => rw [ih, show c = '/' by simpa using hc, pieces_slash]
    · rfl

theorem components_eq_cons {p : Text} (h : components p = .normal n :: cs) :
    p = n ∨ ∃ rest, p = n ++ '/' :: rest := by
  have hrel : isAbsolute p = false := by
    by_contra hc
    rw [components_of_isAbsolute (by simpa using hc)] at h
    cases h
  obtain ⟨first, later, hspl⟩ := exists_cons_of_ne_nil (splitOnP_ne_nil (· == '/') p)
  change p.splitOn '/' = first :: later at hspl
  have hnoslash : '/' ∉ first := Text.not_mem_of_mem_splitOn (s := p) (by rw [hspl]; exact mem_cons_self)
  have hp : p = ['/'].intercalate (first :: later) := by rw [← hspl, intercalate_splitOn]
  have hdot : first ≠ ['.'] := by
    rintro rfl
    simp [components, hrel, hspl] at h
  have hfst : first = n := by
    have hne : first ≠ [] := by
      rintro rfl
      cases later with
      | nil =>
        simp [components, hrel, hspl, ofPiece] at h
      | cons s later =>
        rw [hp] at hrel
        simp [isAbsolute, List.intercalate] at hrel
    simp only [components, hrel, hspl, head?_cons, Option.some.injEq, hdot, if_false, Bool.false_eq_true,
      nil_append] at h
    cases hpiece : ofPiece first with
    | none =>
      simp only [ofPiece, hne, hdot, or_self, if_false] at hpiece
      split at hpiece <;> cases hpiece
    | some c =>
      rw [filterMap_cons_some hpiece] at h
      obtain ⟨rfl, -⟩ := List.cons.inj h
      exact (ofPiece_eq_normal hpiece).1
  subst hfst
  cases later with
  | nil => exact .inl (by simpa [List.intercalate] using hp)
  | cons s later => exact .inr ⟨['/'].intercalate (s :: later), by simpa [List.intercalate] using hp⟩

theorem components_append_slash (h : IsName n) (rest : Text) :
    components (n ++ '/' :: rest) = .normal n :: pieces rest := by
  have hspl : (n ++ '/' :: rest).splitOn '/' = n :: rest.splitOn '/' :=
    splitOn_append_cons_self_of_not_mem h.2.2.2 rest
  have hrel : isAbsolute (n ++ '/' :: rest) = false := by
    cases n with
    | nil => exact absurd rfl h.1
    | cons c n =>
      have hc : '/' ≠ c := fun hc => h.2.2.2 (hc ▸ mem_cons_self)
      simp [isAbsolute, hc.symm]
  simp [components, hspl, hrel, ofPiece_of_isName h, h.2.1, pieces]

theorem isName_resolve {dir : List Text} (hdir : ∀ n ∈ dir, IsName n) (hcs : ∀ n, .normal n ∈ cs → IsName n) :
    ∀ n ∈ resolve dir cs, IsName n := by
  induction cs generalizing dir with
  | nil => exact hdir
  | cons c cs ih =>
    have hr : ∀ n, .normal n ∈ cs → IsName n := fun n hn => hcs n (mem_cons_of_mem _ hn)
    cases c with
    | rootDir => exact @ih [] (by simp) hr
    | curDir => exact ih hdir hr
    | parentDir => exact ih (fun n hn => hdir n (mem_of_mem_dropLast hn)) hr
    | normal name =>
      refine ih (fun n hn => ?_) hr
      rcases mem_append.mp hn with hn | hn
      · exact hdir n hn
      · rw [mem_singleton.mp hn]
        exact hcs name mem_cons_self

def IsWalk (cs : List Component) : Prop := ∀ c ∈ cs, c = .parentDir ∨ ∃ n, c = .normal n

theorem isWalk_pieces : IsWalk (pieces p) := by
  intro c hc
  obtain ⟨s, -, hs⟩ := mem_filterMap.mp hc
  cases c with
  | rootDir => exact absurd hs (ofPiece_ne_rootDir s)
  | curDir => exact absurd hs (ofPiece_ne_curDir s)
  | parentDir => exact .inl rfl
  | normal n => exact .inr ⟨n, rfl⟩

end PosixPath
