import Codez.Lib.Fallible
import Codez.Patch.FileSystem
import Codez.Patch.Hunk

/-!
The new contents of an updated file (`apply-patch/src/lib.rs`, `seek_sequence.rs`).

A chunk's old lines are looked for from where the last chunk ended, first as they are and then with
less and less white space and punctuation; the search is the documented one, but for chunks at the
end of the file (`seekSequence_documented_iff`).
-/

namespace ApplyPatch

open Fallible List

inductive ApplyPatchError where
  | parseError (error : ParseError)
  | ioError (context : Text) (source : IoError)
  | computeReplacements (message : Text)
  | pathUri (message : Text)
deriving DecidableEq

def normaliseChar (c : Char) : Char :=
  let n := c.toNat
  if (0x2010 ≤ n ∧ n ≤ 0x2015) ∨ n = 0x2212 then '-'
  else if 0x2018 ≤ n ∧ n ≤ 0x201B then Char.ofNat 0x27
  else if 0x201C ≤ n ∧ n ≤ 0x201F then Char.ofNat 0x22
  else if n = 0xA0 ∨ (0x2002 ≤ n ∧ n ≤ 0x200A) ∨ n = 0x202F ∨ n = 0x205F ∨ n = 0x3000 then ' '
  else c

def normalise (s : Text) : Text := (Text.trim s).map normaliseChar

def seekPass (form : Text → Text) (lines pattern : List Text) (searchStart : Nat) : Option Nat :=
  let last := lines.length - pattern.length
  (List.range' searchStart (last + 1 - searchStart)).find? fun i =>
    ((lines.drop i).take pattern.length).map form = pattern.map form

def seekSequence (lines pattern : List Text) (start : Nat) (eof : Bool) : Option Nat :=
  if pattern = [] then some start
  else if lines.length < pattern.length then none
  else
    let searchStart := if eof then lines.length - pattern.length else start
    seekPass id lines pattern searchStart <|> seekPass Text.trimEnd lines pattern searchStart <|>
      seekPass Text.trim lines pattern searchStart <|> seekPass normalise lines pattern searchStart

/-! ## Replacements -/

structure Replacement where
  startIdx : Nat
  oldLen : Nat
  newSegment : List Text
deriving DecidableEq

def endsEmpty (lines : List Text) : Bool := lines.getLast? = some []

def seekContext (originalLines : List Text) (path : Text) (lineIndex : Nat) :
    Option Text → Except ApplyPatchError Nat
  | none => .ok lineIndex
  | some ctxLine =>
    match seekSequence originalLines [ctxLine] lineIndex false with
    | some idx => .ok (idx + 1)
    | none => .error (.computeReplacements
        ("Failed to find context '".toList ++ ctxLine ++ "' in ".toList ++ path))

def seekOldLines (originalLines : List Text) (chunk : UpdateFileChunk) (lineIndex : Nat) :
    Option Replacement :=
  let seek (pattern newSlice : List Text) : Option Replacement :=
    (seekSequence originalLines pattern lineIndex chunk.isEndOfFile).map fun startIdx =>
      ⟨startIdx, pattern.length, newSlice⟩
  match seek chunk.oldLines chunk.newLines with
  | some r => some r
  | none =>
    if endsEmpty chunk.oldLines then
      seek chunk.oldLines.dropLast
        (if endsEmpty chunk.newLines then chunk.newLines.dropLast else chunk.newLines)
    else none

def computeReplacement (originalLines : List Text) (path : Text) (lineIndex : Nat)
    (chunk : UpdateFileChunk) : Except ApplyPatchError (Replacement × Nat) := do
  let lineIndex ← seekContext originalLines path lineIndex chunk.changeContext
  if chunk.oldLines = [] then
    let insertionIdx :=
      if endsEmpty originalLines then originalLines.length - 1 else originalLines.length
    return (⟨insertionIdx, 0, chunk.newLines⟩, lineIndex)
  else
    match seekOldLines originalLines chunk lineIndex with
    | some r => return (r, r.startIdx + r.oldLen)
    | none => throw (.computeReplacements
        ("Failed to find expected lines in ".toList ++ path ++ ":\n".toList ++ Text.joinLines chunk.oldLines))

def collectReplacements (originalLines : List Text) (path : Text) (chunks : List UpdateFileChunk) :
    Except ApplyPatchError (List Replacement × Nat) :=
  chunks.foldlM (fun (acc : List Replacement × Nat) chunk => do
    let (r, lineIndex) ← computeReplacement originalLines path acc.2 chunk
    return (acc.1 ++ [r], lineIndex)) ([], 0)

def computeReplacements (originalLines : List Text) (path : Text) (chunks : List UpdateFileChunk) :
    Except ApplyPatchError (List Replacement) :=
  (collectReplacements originalLines path chunks).map fun acc =>
    acc.1.insertionSort fun a b => a.startIdx ≤ b.startIdx

def applyReplacement (r : Replacement) (lines : List Text) : List Text :=
  let removed := (fun ls : List Text => ls.eraseIdx r.startIdx)^[r.oldLen] lines
  r.newSegment.zipIdx.foldl (fun ls (line : Text × Nat) => ls.insertIdx (r.startIdx + line.2) line.1) removed

def applyReplacements (lines : List Text) (replacements : List Replacement) : List Text :=
  replacements.foldr applyReplacement lines

def deriveNewContents (path : Text) (chunks : List UpdateFileChunk) (originalContents : Text) :
    Except ApplyPatchError Text := do
  let pieces := originalContents.splitOn '\n'
  let originalLines := if endsEmpty pieces then pieces.dropLast else pieces
  let replacements ← computeReplacements originalLines path chunks
  let newLines := applyReplacements originalLines replacements
  return Text.joinLines (if endsEmpty newLines then newLines else newLines ++ [[]])

/-! ## Positions stay within the file -/

def levels : List (Text → Text) := [id, Text.trimEnd, Text.trim, normalise]

def MatchesAt (lines pattern : List Text) (form : Text → Text) (i : Nat) : Prop :=
  i + pattern.length ≤ lines.length ∧ ((lines.drop i).take pattern.length).map form = pattern.map form

def NoMatch (lines pattern : List Text) (start : Nat) (form : Text → Text) : Prop :=
  ∀ j, start ≤ j → ¬MatchesAt lines pattern form j

/-- A search from `start` finds the first match at the strictest level that has one. -/
def FirstMatch (lines pattern : List Text) (start : Nat) : Option Nat → Prop
  | none => ∀ form ∈ levels, NoMatch lines pattern start form
  | some i => ∃ stricter form weaker, levels = stricter ++ form :: weaker ∧
      start ≤ i ∧ MatchesAt lines pattern form i ∧ (∀ j, start ≤ j → j < i → ¬MatchesAt lines pattern form j) ∧
      ∀ form' ∈ stricter, NoMatch lines pattern start form'

section
variable {lines pattern : List Text} {start i : Nat} {eof : Bool} {form : Text → Text}

theorem seekPass_eq_some_iff (hlen : pattern.length ≤ lines.length) :
    seekPass form lines pattern start = some i ↔
      start ≤ i ∧ MatchesAt lines pattern form i ∧ ∀ j, start ≤ j → j < i → ¬MatchesAt lines pattern form j := by
  simp only [seekPass, MatchesAt, find?_range'_eq_some, mem_range'_1, decide_eq_true_eq, Bool.not_eq_true',
    decide_eq_false_iff_not]
  constructor
  · rintro ⟨hmt, hi, hpre⟩
    exact ⟨hi.1, ⟨by omega, hmt⟩, fun j hj hji hj' => hpre j hj hji hj'.2⟩
  · rintro ⟨hi, ⟨hend, hmt⟩, hpre⟩
    exact ⟨hmt, by omega, fun j hj hji hj' => hpre j hj hji ⟨by omega, hj'⟩⟩

theorem seekPass_eq_none_iff (hlen : pattern.length ≤ lines.length) :
    seekPass form lines pattern start = none ↔ NoMatch lines pattern start form := by
  simp only [seekPass, NoMatch, MatchesAt, find?_eq_none, mem_range'_1, decide_eq_true_eq]
  constructor
  · exact fun hnone j hj hj' => hnone j (by omega) hj'.2
  · exact fun hnone j hj hj' => hnone j hj.1 ⟨by omega, hj'⟩

theorem seekSequence_firstMatch (hpat : pattern ≠ []) :
    FirstMatch lines pattern (if eof then lines.length - pattern.length else start)
      (seekSequence lines pattern start eof) := by
  rw [seekSequence, if_neg hpat]
  generalize (if eof then lines.length - pattern.length else start) = searchStart
  by_cases hlen : lines.length < pattern.length
  · rw [if_pos hlen]
    intro form _ j _ hj
    have := hj.1
    omega
  · rw [if_neg hlen]
    rw [not_lt] at hlen
    have hpasses : (seekPass id lines pattern searchStart <|> seekPass Text.trimEnd lines pattern searchStart <|>
        seekPass Text.trim lines pattern searchStart <|> seekPass normalise lines pattern searchStart) =
        levels.findSome? fun form => seekPass form lines pattern searchStart := by
      simp only [levels, findSome?_cons, findSome?_nil, Option.orElse_eq_orElse, Option.orElse_eq_or]
      cases seekPass id lines pattern searchStart <;> cases seekPass Text.trimEnd lines pattern searchStart <;>
        cases seekPass Text.trim lines pattern searchStart <;>
          cases seekPass normalise lines pattern searchStart <;> rfl
    rw [hpasses]
    cases hfnd : levels.findSome? fun form => seekPass form lines pattern searchStart with
    | none =>
      intro form hform
      exact (seekPass_eq_none_iff hlen).mp (findSome?_eq_none_iff.mp hfnd form hform)
    | some i =>
      obtain ⟨stricter, form, weaker, hlevels, hpass, hpre⟩ := findSome?_eq_some_iff.mp hfnd
      obtain ⟨hi, hmt, hfst⟩ := (seekPass_eq_some_iff hlen).mp hpass
      exact ⟨stricter, form, weaker, hlevels, hi, hmt, hfst, fun f hf => (seekPass_eq_none_iff hlen).mp (hpre f hf)⟩

theorem exists_of_seekSequence (hpat : pattern ≠ []) (h : seekSequence lines pattern start eof = some i) :
    ∃ form ∈ levels, (if eof then lines.length - pattern.length else start) ≤ i ∧ MatchesAt lines pattern form i := by
  have hfst := @seekSequence_firstMatch lines pattern start eof hpat
  rw [h] at hfst
  obtain ⟨stricter, form, weaker, hlevels, hi, hmt, -⟩ := hfst
  exact ⟨form, by simp [hlevels], hi, hmt⟩

theorem seekSequence_within (hst : start ≤ lines.length) (h : seekSequence lines pattern start eof = some i) :
    i + pattern.length ≤ lines.length := by
  by_cases hpat : pattern = []
  · subst hpat
    cases h
    exact hst
  · obtain ⟨form, -, -, hmt⟩ := exists_of_seekSequence hpat h
    exact hmt.1

def EndMatches (lines pattern : List Text) : Prop :=
  ∃ form ∈ levels, MatchesAt lines pattern form (lines.length - pattern.length)

theorem seekSequence_eof (hpat : pattern ≠ []) :
    (EndMatches lines pattern → seekSequence lines pattern start true = some (lines.length - pattern.length)) ∧
      (¬EndMatches lines pattern → seekSequence lines pattern start true = none) := by
  have hfst : FirstMatch lines pattern (lines.length - pattern.length) (seekSequence lines pattern start true) :=
    @seekSequence_firstMatch lines pattern start true hpat
  cases hfnd : seekSequence lines pattern start true with
  | none =>
    rw [hfnd] at hfst
    exact ⟨fun ⟨form, hform, hmt⟩ => absurd hmt (hfst form hform _ le_rfl), fun _ => rfl⟩
  | some i =>
    obtain ⟨form, hform, hi, hmt⟩ := exists_of_seekSequence hpat hfnd
    obtain rfl : i = lines.length - pattern.length := by
      have := hmt.1
      simp only [if_true] at hi
      omega
    exact ⟨fun _ => rfl, fun hend => absurd ⟨form, hform, hmt⟩ hend⟩

/-- What the documentation says: at the end of the file the last position is tried first, and otherwise
the search is the one from `start`. -/
structure Documented (lines pattern : List Text) (start : Nat) (eof : Bool) (found : Option Nat) : Prop where
  preferred : eof = true → start + pattern.length ≤ lines.length → EndMatches lines pattern →
    found = some (lines.length - pattern.length)
  searched : ¬(eof = true ∧ start + pattern.length ≤ lines.length ∧ EndMatches lines pattern) →
    FirstMatch lines pattern start found

/-- **The search follows its documentation** but for `eof`, where it neither falls back to a search from
`start` nor regards `start` at all. -/
theorem seekSequence_documented_iff (lines pattern : List Text) (hpattern : pattern ≠ []) (start : Nat) (eof : Bool) :
    Documented lines pattern start eof (seekSequence lines pattern start eof) ↔
      (eof = true → (EndMatches lines pattern → start + pattern.length ≤ lines.length) ∧
        (¬EndMatches lines pattern → ∀ form ∈ levels, NoMatch lines pattern start form)) := by
  cases eof with
  | false =>
    have hfirst := @seekSequence_firstMatch lines pattern start false hpattern
    exact ⟨fun _ h => absurd h (by decide), fun _ => ⟨fun h => absurd h (by decide), fun _ => hfirst⟩⟩
  | true =>
    obtain ⟨hfound, hnone⟩ := @seekSequence_eof lines pattern start hpattern
    by_cases hend : EndMatches lines pattern
    · rw [hfound hend]
      constructor
      · refine fun h _ => ⟨fun _ => ?_, fun hno => absurd hend hno⟩
        by_contra hstart
        obtain ⟨-, -, -, -, hi, -⟩ := h.searched fun hall => hstart hall.2.1
        obtain ⟨_, _, hmatch⟩ := hend
        have := hmatch.1
        omega
      · exact fun h => ⟨fun _ _ _ => rfl, fun hnot => absurd ⟨rfl, (h rfl).1 hend, hend⟩ hnot⟩
    · rw [hnone hend]
      constructor
      · exact fun h _ => ⟨fun hmatch => absurd hmatch hend, fun _ => h.searched fun hall => hend hall.2.2⟩
      · exact fun h => ⟨fun _ _ hmatch => absurd hmatch hend, fun _ => (h rfl).2 hend⟩

theorem seekSequence_documented_iff_lastLine :
    Documented ["a".toList, "b".toList] ["b".toList] 0 true
      (seekSequence ["a".toList, "b".toList] ["b".toList] 0 true) := by
  have hend : EndMatches ["a".toList, "b".toList] ["b".toList] := ⟨id, by simp [levels], by simp [MatchesAt]⟩
  exact (seekSequence_documented_iff ["a".toList, "b".toList] ["b".toList] (by simp) 0 true).mpr fun _ =>
    ⟨fun _ => by simp, fun hno => absurd hend hno⟩

theorem eof_search_strays :
    ¬Documented ["a".toList, "b".toList] ["a".toList] 0 true
      (seekSequence ["a".toList, "b".toList] ["a".toList] 0 true) ∧
      ¬Documented ["a".toList] ["a".toList] 1 true (seekSequence ["a".toList] ["a".toList] 1 true) := by
  have hmissed : seekSequence ["a".toList, "b".toList] ["a".toList] 0 true = none := by decide +kernel
  have hback : seekSequence ["a".toList] ["a".toList] 1 true = some 0 := by decide +kernel
  rw [hmissed, hback]
  constructor
  · intro h
    have hend : ¬EndMatches ["a".toList, "b".toList] ["a".toList] := by
      rintro ⟨form, hform, hmatch⟩
      simp only [levels, mem_cons, not_mem_nil, or_false] at hform
      rcases hform with rfl | rfl | rfl | rfl <;> exact absurd hmatch.2 (by decide +kernel)
    exact h.searched (fun hall => hend hall.2.2) id (by simp [levels]) 0 le_rfl (by simp [MatchesAt])
  · intro h
    obtain ⟨-, -, -, -, hi, -⟩ := h.searched (by simp)
    omega

end

def Replacement.Within (r : Replacement) (n : Nat) : Prop := r.startIdx + r.oldLen ≤ n

variable {lines : List Text} {chunk : UpdateFileChunk} {r : Replacement} {lineIndex k : Nat} {path : Text}
  {chunks : List UpdateFileChunk} {rs : List Replacement}

theorem seekOldLines_within (hidx : lineIndex ≤ lines.length) (h : seekOldLines lines chunk lineIndex = some r) :
    r.Within lines.length := by
  unfold seekOldLines at h
  simp only at h
  split at h
  · next hseek =>
    cases h
    obtain ⟨i, hi, rfl⟩ := Option.map_eq_some_iff.mp hseek
    exact seekSequence_within hidx hi
  · split at h
    · obtain ⟨i, hi, rfl⟩ := Option.map_eq_some_iff.mp h
      exact seekSequence_within hidx hi
    · cases h

theorem seekContext_within {context : Option Text} (hidx : lineIndex ≤ lines.length)
    (h : seekContext lines path lineIndex context = .ok k) : k ≤ lines.length := by
  unfold seekContext at h
  split at h
  · cases h
    exact hidx
  · split at h
    · next hseek =>
      cases h
      exact seekSequence_within hidx hseek
    · cases h

theorem computeReplacement_within (hidx : lineIndex ≤ lines.length)
    (h : computeReplacement lines path lineIndex chunk = .ok (r, k)) :
    r.Within lines.length ∧ k ≤ lines.length := by
  unfold computeReplacement at h
  obtain ⟨j, hj, h⟩ := bind_eq_ok h
  have hj' := seekContext_within hidx hj
  split at h
  · cases h
    refine ⟨?_, hj'⟩
    simp only [Replacement.Within]
    split <;> omega
  · split at h
    · next hseek =>
      cases h
      have hr := seekOldLines_within hj' hseek
      exact ⟨hr, hr⟩
    · cases h

/-- **No replacement reaches behind the end of the file.** -/
theorem computeReplacements_within (h : computeReplacements lines path chunks = .ok rs) :
    ∀ r ∈ rs, r.Within lines.length := by
  obtain ⟨acc, hacc, rfl⟩ := map_eq_ok h
  -- one chunk after the other, together with the position to go on from
  have hall := foldlM_invariant
    (fun _ (acc : List Replacement × Nat) => (∀ r ∈ acc.1, r.Within lines.length) ∧ acc.2 ≤ lines.length)
    chunks ?_ ⟨by simp, by simp⟩ hacc
  · intro r hr
    exact hall.1 r ((perm_insertionSort _ _).mem_iff.mp hr)
  · rintro done chunk todo acc acc' - ⟨hw, hidx⟩ hst
    obtain ⟨⟨r, k⟩, hr, hst⟩ := bind_eq_ok hst
    cases hst
    obtain ⟨hr', hk⟩ := computeReplacement_within hidx hr
    refine ⟨?_, hk⟩
    intro x hx
    rcases mem_append.mp hx with hx | hx
    · exact hw x hx
    · rw [mem_singleton.mp hx]
      exact hr'

/-! ## Replacing -/

theorem iterate_eraseIdx (ls : List Text) (i n : Nat) :
    (fun ls : List Text => ls.eraseIdx i)^[n] ls = ls.take i ++ ls.drop (i + n) := by
  induction n with
  | zero => simp
  | succ n ih =>
    rw [Function.iterate_succ_apply', ih]
    rcases Nat.lt_or_ge i ls.length with hi | hi
    · have hlen : (ls.take i).length = i := by simp; omega
      rw [eraseIdx_append_of_length_le (by omega), hlen, Nat.sub_self, eraseIdx_zero, tail_drop]
      rfl
    · rw [drop_of_length_le (by omega), drop_of_length_le (by omega), append_nil,
        eraseIdx_of_length_le (by simp)]

theorem insertIdx_append_length (pre after : List Text) (line : Text) :
    (pre ++ after).insertIdx pre.length line = pre ++ line :: after := by
  induction pre with
  | nil => rfl
  | cons x pre ih =>
    rw [cons_append, length_cons, insertIdx_succ_cons, ih]
    rfl

theorem foldl_insertIdx (new pre after : List Text) (start k : Nat) (hk : pre.length = start + k) :
    (new.zipIdx k).foldl (fun ls (line : Text × Nat) => ls.insertIdx (start + line.2) line.1)
      (pre ++ after) = pre ++ new ++ after := by
  induction new generalizing pre k with
  | nil => simp
  | cons line new ih =>
    rw [zipIdx_cons, foldl_cons]
    have hins : (pre ++ after).insertIdx (start + k) line = pre ++ [line] ++ after := by
      rw [← hk, insertIdx_append_length]
      simp
    simp only [hins]
    rw [ih (pre ++ [line]) (k + 1) (by simp; omega)]
    simp

theorem applyReplacement_eq (h : r.startIdx ≤ lines.length) : applyReplacement r lines =
      lines.take r.startIdx ++ r.newSegment ++ lines.drop (r.startIdx + r.oldLen) := by
  unfold applyReplacement
  rw [iterate_eraseIdx]
  exact foldl_insertIdx r.newSegment (lines.take r.startIdx) _ r.startIdx 0 (by simp; omega)

theorem applyReplacements_length (hsort : rs.Pairwise fun a b => a.startIdx ≤ b.startIdx)
    (hw : ∀ r ∈ rs, r.Within lines.length) (hk : k ≤ lines.length) (hrs : ∀ r ∈ rs, k ≤ r.startIdx) :
    k ≤ (applyReplacements lines rs).length := by
  induction rs generalizing k with
  | nil => exact hk
  | cons r rs ih =>
    rw [pairwise_cons] at hsort
    rw [forall_mem_cons] at hw hrs
    have hr : r.startIdx ≤ lines.length := by
      have := hw.1
      unfold Replacement.Within at this
      omega
    have hst := ih hsort.2 hw.2 hr hsort.1
    have hlen : r.startIdx ≤ (applyReplacements lines (r :: rs)).length := by
      show r.startIdx ≤ (applyReplacement r (applyReplacements lines rs)).length
      rw [applyReplacement_eq hst]
      simp
      omega
    exact le_trans hrs.1 hlen

/-- **Nothing is inserted behind the end**, where `Vec::insert` would panic: when a
replacement's turn comes, those behind it done, the file still reaches to its start. -/
theorem computeReplacements_inBounds {rs pre after : List Replacement}
    (h : computeReplacements lines path chunks = .ok rs) (hrs : rs = pre ++ r :: after) :
    r.startIdx ≤ (applyReplacements lines after).length := by
  have hin := computeReplacements_within h
  have hsort : rs.Pairwise fun a b => a.startIdx ≤ b.startIdx := by
    obtain ⟨acc, -, rfl⟩ := map_eq_ok h
    exact pairwise_insertionSort _ acc.1
  subst hrs
  have haft := (pairwise_append.mp hsort).2.1
  rw [pairwise_cons] at haft
  have hr := hin r (by simp)
  unfold Replacement.Within at hr
  exact applyReplacements_length haft.2 (fun x hx => hin x (by simp [hx])) (by omega) haft.1

theorem computeReplacements_inBounds_collision :
    1 ≤ (applyReplacements ["a".toList, []] [⟨1, 0, ["c".toList]⟩]).length := by
  have h : computeReplacements ["a".toList, []] []
      [{ oldLines := [[]], newLines := ["b".toList] }, { newLines := ["c".toList] }] =
      .ok [⟨1, 1, ["b".toList]⟩, ⟨1, 0, ["c".toList]⟩] := by decide +kernel
  exact computeReplacements_inBounds h (nil_append _).symm

end ApplyPatch
