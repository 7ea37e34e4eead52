import Codez.Lib.Run
import Codez.Patch.Format

/-!
A patch text pushed as it is.

`parse_patch` trims the text, takes its lines apart and joins them again before the streaming parser
sees them; a live preview pushes the text unchanged.  Which section a line stands in is read off the
headers before it (`outline`), and that is the section the parser is in.
-/

namespace ApplyPatch

open Fallible StreamingPatchParser Text List

namespace Section

/-- How the lines begin that a section keeps as text; `none` is a blank line. -/
def kept : Section → List (Option Char)
  | .add => [none, some '+']
  | .update => [none, some ' ', some '+', some '-']
  | _ => []

/-- The section keeps the line, with the white space at its end. -/
def Keeps (s : Section) (line : Text) : Prop := (trimEnd line).head? ∈ s.kept

instance decidableKeeps (s : Section) (line : Text) : Decidable (s.Keeps line) :=
  inferInstanceAs (Decidable (_ ∈ _))

/-- The line is not kept with two carriage returns at its end. -/
def SingleCr (s : Section) (line : Text) : Prop := "\r\r".toList <:+ line → ¬s.Keeps line

instance decidableSingleCr (s : Section) (line : Text) : Decidable (s.SingleCr line) :=
  inferInstanceAs (Decidable (_ → _))

end Section

/-- The section behind the lines of a patch. -/
def outline (lines : List Text) : Section := lines.foldl Section.next .begins

def pieces (text : Text) : List Text := (Text.trim text).splitOn '\n'

/-- A line feed follows the last line that is not blank. -/
def EndsWithLf (text : Text) : Prop := '\n' ∈ text.rtakeWhile Text.isWhitespace

/-- A text whose preview is its parse. -/
structure Agreeing (text : Text) : Prop where
  /-- No line that is kept ends in two carriage returns. -/
  singleCr : Run.AllSteps Section.SingleCr Section.next .begins (pieces text).dropLast
  /-- A last line with a line feed ends the patch, for the first time. -/
  ends : EndsWithLf text → outline (pieces text).dropLast ≠ .ended ∧
    ∀ last ∈ (pieces text).getLast?, (outline (pieces text).dropLast).header last = endPatchMarker

/-! ## Sections -/

variable {p p' q : StreamingPatchParser} {line line' last : Text} {chunks : List UpdateFileChunk}

namespace Section

variable {s : Section}

theorem header_congr (h : trimEnd line' = trimEnd line) : s.header line' = s.header line := by
  have htrim : trim line' = trim line := by rw [← trim_trimEnd, h, trim_trimEnd]
  cases s <;> simp only [header, h, htrim]

theorem next_congr (h : trimEnd line' = trimEnd line) : s.next line' = s.next line := by
  cases s <;> simp only [next, header_congr h]

theorem keeps_congr (h : trimEnd line' = trimEnd line) : s.Keeps line' ↔ s.Keeps line := by
  rw [Keeps, Keeps, h]

theorem next_ne_begins (s : Section) (line : Text) : s.next line ≠ .begins := by
  have hheaded : ∀ header, headed header ≠ some .begins := by
    intro header
    unfold headed
    split_ifs <;> simp
  cases s with
  | begins => simp [next]
  | ended => simp [next]
  | _ =>
    intro hnext
    rcases Option.getD_eq_iff.mp hnext with hsome | ⟨-, hsame⟩
    · exact hheaded _ hsome
    · cases hsame

end Section

namespace StreamingPatchParser

/-! ## Lines that are read by their trimmed form -/

theorem processChunkLine_congr {n : Nat} {chunks' : List UpdateFileChunk} (hkeeps : ¬Section.Keeps .update line)
    (hl : trimEnd line' = trimEnd line) (h : processChunkLine n chunks line = .ok chunks') :
    processChunkLine n chunks line' = .ok chunks' := by
  unfold processChunkLine at h ⊢
  rw [hl]
  split at h
  · next heof =>
    rw [if_pos heof]
    exact h
  · have hhead := head?_trimEnd line
    exfalso
    split at h
    case h_5 => split at h <;> cases h
    all_goals
      apply hkeeps
      rcases hhead with hhead | hhead <;> simp [Section.Keeps, Section.kept, hhead]

theorem processUpdateLine_congr {n : Nat} {movePath : Option Text}
    {r : Option Text × List UpdateFileChunk} (hkeeps : ¬Section.Keeps .update line)
    (hl : trimEnd line' = trimEnd line) (h : processUpdateLine n movePath chunks line = .ok r) :
    processUpdateLine n movePath chunks line' = .ok r := by
  revert h
  unfold processUpdateLine
  dsimp only
  rw [hl]
  split
  · exact id
  split
  · nofun
  split
  · exact id
  split
  · nofun
  split
  · exact id
  split
  · exact id
  · intro h
    obtain ⟨chunks', hchunks, rfl⟩ := map_eq_ok h
    rw [processChunkLine_congr hkeeps hl hchunks]
    rfl

theorem headerOr_congr {other other' : Except ParseError StreamingPatchParser}
    (hother : other = .ok p' → other' = .ok p') (h : p.headerOr line other = .ok p') :
    p.headerOr line other' = .ok p' := by
  obtain ⟨r, hr, h⟩ := bind_eq_ok h
  rw [headerOr, hr]
  cases r with
  | some q => exact h
  | none => exact hother h

/-- **A line that its section does not keep is read by its trimmed form.** -/
theorem processLine_congr (hkeeps : ¬(sectionOf p.mode).Keeps line) (hl : trimEnd line' = trimEnd line)
    (h : p.processLine line = .ok p') : p.processLine line' = .ok p' := by
  have htrim : trim line' = trim line := by rw [← trim_trimEnd, hl, trim_trimEnd]
  have hhead := head?_trimEnd line
  unfold processLine at h ⊢
  dsimp only at h ⊢
  rw [htrim]
  cases hmode : p.mode with
  | addFile =>
    rw [hmode] at h hkeeps
    refine headerOr_congr (fun hother => absurd ?_ hkeeps) h
    split at hother
    · rcases hhead with hhead | hhead <;> simp [sectionOf, Section.Keeps, Section.kept, hhead]
    · cases hother
  | updateFile n =>
    rw [hmode] at h hkeeps
    rw [← hl] at h
    refine headerOr_congr (fun hother => ?_) h
    split at hother
    · obtain ⟨r, hr, hp'⟩ := map_eq_ok hother
      rw [processUpdateLine_congr hkeeps hl hr]
      exact congrArg Except.ok hp'
    · cases hother
  | _ =>
    rw [hmode] at h
    exact h

end StreamingPatchParser

theorem trimEnd_append_all (s : Text) {w : Text} (hw : ∀ c ∈ w, isWhitespace c = true) :
    trimEnd (s ++ w) = trimEnd s := by
  induction w using List.reverseRecOn with
  | nil => rw [append_nil]
  | append_singleton w c ih =>
    rw [← append_assoc, trimEnd, rdropWhile_concat_pos _ _ _ (hw c (by simp))]
    exact ih fun d hd => hw d (by simp [hd])

theorem trimEnd_stripCr (s : Text) : trimEnd (stripCr s) = trimEnd s := by
  unfold stripCr
  split
  · next hl =>
    obtain ⟨init, rfl⟩ := getLast?_eq_some_iff.mp hl
    rw [dropLast_concat, trimEnd_append_all init (by simp [isWhitespace])]
  · rfl

theorem stripCr_isPrefix (s : Text) : stripCr s <+: s := by
  unfold stripCr
  split
  · exact List.dropLast_prefix s
  · exact prefix_rfl

theorem stripCr_stripCr {l : Text} (h : ¬"\r\r".toList <:+ l) : stripCr (stripCr l) = stripCr l := by
  refine if_neg fun hlast => h ?_
  unfold stripCr at hlast
  split at hlast
  · next hcr =>
    obtain ⟨init, rfl⟩ := getLast?_eq_some_iff.mp hcr
    rw [dropLast_concat] at hlast
    obtain ⟨init', rfl⟩ := getLast?_eq_some_iff.mp hlast
    exact ⟨init', by simp⟩
  · next hcr => exact absurd hlast hcr

/-! ## The lines before the last -/

theorem readLine_congr (hcr : (sectionOf p.mode).SingleCr line) (h : p.readLine (stripCr line) = .ok p') :
    p.readLine line = .ok p' ∧ sectionOf p'.mode = (sectionOf p.mode).next line := by
  have hread : p.readLine line = .ok p' := by
    by_cases hdouble : "\r\r".toList <:+ line
    · have hkeeps := (Section.keeps_congr ((trimEnd_stripCr _).trans (trimEnd_stripCr line))).not.mpr (hcr hdouble)
      exact processLine_congr hkeeps (trimEnd_stripCr _).symm h
    · rwa [readLine, stripCr_stripCr hdouble] at h
  exact ⟨hread, (readLine_follows hread).stands.trans (Section.next_congr (trimEnd_stripCr line))⟩

/-- Up to the last line the two ways agree. -/
theorem readLines_congr {ls : List Text} (hcr : Run.AllSteps Section.SingleCr Section.next (sectionOf p.mode) ls)
    (h : (ls.map stripCr).foldlM readLine p = .ok q) :
    ls.foldlM readLine p = .ok q ∧ sectionOf q.mode = ls.foldl Section.next (sectionOf p.mode) := by
  induction ls generalizing p with
  | nil =>
    cases h
    exact ⟨rfl, rfl⟩
  | cons l ls ih =>
    obtain ⟨p1, hp1, h⟩ := bind_eq_ok h
    obtain ⟨hread, hsection⟩ := readLine_congr hcr.1 hp1
    rw [foldlM_cons, hread, foldl_cons, ← hsection]
    exact ih (hsection ▸ hcr.2) h

theorem outline_ne_begins {ls : List Text} (hls : ls ≠ []) : outline ls ≠ .begins := by
  obtain ⟨init, l, rfl⟩ := (eq_nil_or_concat ls).resolve_left hls
  rw [outline, concat_eq_append, foldl_concat]
  exact Section.next_ne_begins _ _

theorem exists_pieces (s : Text) : ∃ ls last, s.splitOn '\n' = ls ++ [last] ∧ s = ls.flatMap (· ++ ['\n']) ++ last ∧
    (∀ l ∈ ls, '\n' ∉ l) ∧ '\n' ∉ last := by
  have hspl := dropLast_append_getLast (splitOn_ne_nil '\n' s)
  have hnl : ∀ l ∈ s.splitOn '\n', '\n' ∉ l := fun l hl => not_mem_of_mem_splitOn hl
  rw [← hspl, forall_mem_append, forall_mem_singleton] at hnl
  refine ⟨_, _, hspl.symm, ?_, hnl⟩
  rw [← joinLines_concat, hspl]
  exact (intercalate_splitOn '\n').symm

/-! ## The last line and the white space behind it -/

theorem processLine_end (hensure : p.ensureUpdateHunkIsNotEmpty endPatchMarker = .ok ())
    (hbegun : sectionOf p.mode ≠ .begins) (honce : sectionOf p.mode ≠ .ended)
    (hline : (sectionOf p.mode).header line = endPatchMarker) :
    p.processLine line = .ok { p with mode := .endedPatch } := by
  refine processLine_header ⟨fun hmode => hbegun (by rw [hmode]; rfl), fun hmode => honce (by rw [hmode]; rfl)⟩ ?_
  rw [hline, handle_eq p (fun _ => by decide), if_pos rfl, hensure]
  rfl

theorem processLine_blank (hmode : p.mode = .endedPatch) (hline : trim line = []) : p.processLine line = .ok p := by
  unfold processLine
  simp only [hmode, hline, if_true]

theorem trim_blank (hline : ∀ c ∈ line, isWhitespace c = true) : trim line = [] := by
  rw [← trim_trimEnd, show trimEnd line = [] from rdropWhile_eq_nil_iff.mpr hline]
  rfl

theorem readLines_blank (hmode : p.mode = .endedPatch) {ls : List Text}
    (hls : ∀ l ∈ ls, ∀ c ∈ l, isWhitespace c = true) :
    ls.foldlM readLine p = .ok { p with lineNumber := p.lineNumber + ls.length } := by
  induction ls generalizing p with
  | nil => rfl
  | cons l ls ih =>
    rw [forall_mem_cons] at hls
    have hblank : trim (stripCr l) = [] := trim_blank fun c hc => hls.1 c ((stripCr_isPrefix l).subset hc)
    rw [foldlM_cons, readLine, processLine_blank (p := nextLine p) hmode hblank]
    refine (ih (p := nextLine p) hmode hls.2).trans ?_
    rw [nextLine, length_cons, Nat.add_right_comm, Nat.add_assoc]

theorem finish_blank (hmode : p.mode = .endedPatch) (hbuffer : ∀ c ∈ p.lineBuffer, isWhitespace c = true) :
    p.finish.map (fun p => (p.hunks, p.environmentId)) = .ok (p.hunks, p.environmentId) := by
  have hread := processLine_blank (p := { p with lineBuffer := [], lineNumber := p.lineNumber + 1 }) hmode
    (trim_blank hbuffer)
  unfold finish
  dsimp only
  split
  · simp [Except.bind, Except.map, hmode]
  · rw [trim_blank hbuffer, if_neg (by decide), hread]
    simp [Except.bind, Except.map, hmode]

/-! ## The boundaries -/

theorem checkStartAndEndLinesStrict_eq_ok {first last : Option Text}
    (h : checkStartAndEndLinesStrict first last = .ok ()) :
    first.map trim = some beginPatchMarker ∧ last.map trim = some endPatchMarker := by
  unfold checkStartAndEndLinesStrict at h
  split at h
  · next hfst =>
    split at h
    · next hboth => exact ⟨hboth.1 ▸ hfst, hboth.2⟩
    · split at h <;> cases h
  · cases h

section
variable {text : Text} (hbegin : beginPatchMarker <+: text)

include hbegin

theorem head?_text : text.head? = some '*' := by
  obtain ⟨rest, rfl⟩ := hbegin
  rfl

theorem trim_append_rtakeWhile : trim text ++ text.rtakeWhile isWhitespace = text := by
  obtain ⟨t, ht⟩ := head?_eq_some_iff.mp (head?_text hbegin)
  rw [trim_cons ht (by decide)]
  exact rdropWhile_append_rtakeWhile

variable {ls : List Text} (htext : Text.trim text = ls.flatMap (· ++ ['\n']) ++ last)

include htext

theorem last_ne_nil : last ≠ [] := by
  rintro rfl
  have hfix : trimEnd (trim text) = trim text := rdropWhile_idempotent _ _
  rw [htext, append_nil] at hfix
  cases ls using List.reverseRecOn with
  | nil =>
    have hmem : '*' ∈ trim text := mem_trim (hbegin.subset (by decide)) (by decide)
    rw [htext] at hmem
    cases hmem
  | append_singleton ls l =>
    rw [flatMap_append, flatMap_singleton, ← append_assoc, trimEnd_append_all _ (by simp [isWhitespace])] at hfix
    have hlen := (trimEnd_isPrefix (ls.flatMap (· ++ ['\n']) ++ l)).length_le
    rw [hfix, length_append, length_singleton] at hlen
    omega

theorem markers_of_lenient {patchLines : List Text}
    (h : checkPatchBoundariesLenient (ls.map stripCr ++ [last]) = .ok patchLines) :
    patchLines = ls.map stripCr ++ [last] ∧ trim last = endPatchMarker ∧ ls ≠ [] := by
  have hstrict : checkPatchBoundariesStrict (ls.map stripCr ++ [last]) = .ok patchLines := by
    unfold checkPatchBoundariesLenient at h
    split at h
    · next hok =>
      cases h
      exact hok
    · split at h
      · next first _ hfst _ =>
        split at h
        · next hheredoc =>
          have hprefix : first <+: text := by
            rw [← trim_append_rtakeWhile hbegin, htext]
            cases ls with
            | nil =>
              cases hfst
              exact prefix_append _ _
            | cons l ls =>
              cases hfst
              refine (stripCr_isPrefix l).trans ?_
              simp
          obtain ⟨rest, hr⟩ := hprefix
          have hhere : ∀ start ∈ heredocStarts, start.head? = some '<' := by decide
          have hh := head?_text hbegin
          rw [← hr, head?_append, hhere first hheredoc.1] at hh
          cases hh
        · cases h
      · cases h
  obtain ⟨_, hmarkers, hls⟩ := map_eq_ok hstrict
  obtain ⟨hfst, hend⟩ := checkStartAndEndLinesStrict_eq_ok hmarkers
  rw [getLast?_concat] at hend
  refine ⟨hls.symm, Option.some.inj hend, ?_⟩
  rintro rfl
  exact absurd (hfst.symm.trans hend) (by decide)

end

/-- **The preview of a patch agrees with its parse** if no line that is kept ends in two carriage
returns, and a last line with a line feed ends the patch, for the first time. -/
theorem preview_agrees (text : Text) (hbegin : beginPatchMarker <+: text)
    (hagree : Agreeing text) {args : ApplyPatchArgs}
    (hparse : parsePatch text = .ok args) : parseDeltas [text] = .ok (args.hunks, args.environmentId) := by
  obtain ⟨hcr, hends⟩ := hagree
  have hsplit := trim_append_rtakeWhile hbegin
  set w := text.rtakeWhile Text.isWhitespace with hw
  have hblank : ∀ c ∈ w, Text.isWhitespace c = true := fun c hc => mem_rtakeWhile_imp hc
  obtain ⟨ls, last, hpieces, htrim, hnl, hnlLast⟩ := exists_pieces (Text.trim text)
  rw [pieces, hpieces, dropLast_concat] at hcr hends
  rw [getLast?_concat] at hends
  have hlines : Text.lines (Text.trim text) = ls.map Text.stripCr ++ [last] := by
    rw [Text.lines, hpieces, dropLast_concat, getLast?_concat]
    simp [last_ne_nil hbegin htrim]
  rw [parsePatch, parsePatchText, hlines] at hparse
  obtain ⟨patchLines, hcheck, hparse⟩ := bind_eq_ok hparse
  obtain ⟨rfl, hend, hls⟩ := markers_of_lenient hbegin htrim hcheck
  obtain ⟨p1, hpush, hparse⟩ := bind_eq_ok hparse
  obtain ⟨p2, hfinish, hparse⟩ := bind_eq_ok hparse
  cases hparse
  have hnlStrip : ∀ l ∈ ls.map Text.stripCr, '\n' ∉ l := by
    intro l hl hmem
    obtain ⟨l', hl', rfl⟩ := mem_map.mp hl
    exact hnl l' hl' ((stripCr_isPrefix l').subset hmem)
  rw [Text.joinLines_concat, pushDelta_lines _ hnlStrip _ hnlLast _ rfl] at hpush
  obtain ⟨q, hq, rfl⟩ := map_eq_ok hpush
  obtain ⟨hread, hsection⟩ := readLines_congr (p := {}) hcr hq
  have hbuffer : q.lineBuffer = [] := foldlM_invariant (fun _ q => q.lineBuffer = []) ls
    (fun _ _ _ _ _ _ hs hread => (readLine_follows hread).lineBuffer.trans hs) rfl hread
  have hnext : ({ nextLine q with lineBuffer := [] } : StreamingPatchParser) = nextLine q := by rw [nextLine, ← hbuffer]
  rw [finish_end hend, hnext] at hfinish
  obtain ⟨_, hensure, rfl⟩ := map_eq_ok hfinish
  rw [parseDeltas, foldlM_pushDelta, flatten_singleton, ← hsplit, htrim, append_assoc]
  by_cases hlf : '\n' ∈ w
  · obtain ⟨w₁, w₂, hw₁, hnl₁⟩ := eq_append_cons_of_mem hlf
    obtain ⟨bs, b, -, rfl, hnlbs, hnlb⟩ := exists_pieces w₂
    have htail : ls.flatMap (· ++ ['\n']) ++ (last ++ w) = (ls ++ (last ++ w₁) :: bs).flatMap (· ++ ['\n']) ++ b := by
      simp [hw₁]
    have hnlAll : ∀ l ∈ ls ++ (last ++ w₁) :: bs, '\n' ∉ l := by
      rw [forall_mem_append, forall_mem_cons]
      exact ⟨hnl, by simp [hnlLast, hnl₁], hnlbs⟩
    rw [hw₁, forall_mem_append, forall_mem_cons, forall_mem_append] at hblank
    obtain ⟨hblank₁, -, hblankbs, hblankb⟩ := hblank
    obtain ⟨honce, hheader⟩ := hends hlf
    have hline : trimEnd (stripCr (last ++ w₁)) = trimEnd last :=
      (trimEnd_stripCr _).trans (trimEnd_append_all last hblank₁)
    have hlast : q.readLine (last ++ w₁) = .ok { nextLine q with mode := .endedPatch } := by
      have hq' : sectionOf (nextLine q).mode = outline ls := hsection
      refine processLine_end hensure ?_ ?_ ?_
      · exact hq' ▸ outline_ne_begins hls
      · exact hq' ▸ honce
      · rw [hq', Section.header_congr hline]
        exact hheader last rfl
    rw [htail, pushDelta_lines _ hnlAll _ hnlb _ rfl, foldlM_append, hread]
    show (((q.readLine (last ++ w₁)).bind fun q => bs.foldlM readLine q).map _).bind _ = _
    rw [hlast]
    show ((bs.foldlM readLine _).map _).bind _ = _
    rw [readLines_blank rfl fun l hl c hc => hblankbs c (mem_flatMap.mpr ⟨l, hl, mem_append_left _ hc⟩)]
    exact finish_blank rfl hblankb
  · have hline : trim (last ++ w) = endPatchMarker := by
      rw [← trim_trimEnd, trimEnd_append_all last hblank, trim_trimEnd, hend]
    rw [pushDelta_lines _ hnl _ (by simp [hnlLast, hlf]) _ rfl, hread]
    show (finish _).map _ = _
    rw [finish_end hline, hnext, hensure]
    rfl

def crlfPatch : Text := "*** Begin Patch\r\r\n*** Add File: a\r\n+x\r\n *** End Patch\r\n\r\n ".toList

theorem preview_agrees_crlf : parseDeltas [crlfPatch] = .ok ([.addFile "a".toList "x\n".toList], none) := by
  have hbegin : beginPatchMarker <+: crlfPatch := by
    unfold crlfPatch
    decide +kernel
  have hparse : parsePatch crlfPatch = .ok ⟨"*** Begin Patch\r\n*** Add File: a\n+x\n *** End Patch".toList,
      [.addFile "a".toList "x\n".toList], none, none⟩ := by
    unfold crlfPatch
    decide +kernel
  refine preview_agrees crlfPatch hbegin ⟨?_, fun _ => ?_⟩ hparse
  · unfold crlfPatch
    decide +kernel
  · unfold crlfPatch
    decide +kernel

def hiddenDifferences : List Text :=
  ["*** Begin Patch\n*** Add File: a\n+x\r\r\n*** End Patch".toList,
   "*** Begin Patch\n*** End Patch\n*** End Patch\n".toList,
   "*** Begin Patch\n*** Update File: a\n@@\n-x\n *** End Patch\n".toList]

theorem preview_disagrees : hiddenDifferences ≠ [] ∧ ∀ text ∈ hiddenDifferences, beginPatchMarker <+: text ∧
    ∃ args, parsePatch text = .ok args ∧ parseDeltas [text] ≠ .ok (args.hunks, args.environmentId) := by
  have hdiffer : ∀ text ∈ hiddenDifferences, beginPatchMarker <+: text ∧ (parsePatch text).isOk = true ∧
      (parsePatch text).map (fun args => (args.hunks, args.environmentId)) ≠ parseDeltas [text] := by
    unfold hiddenDifferences
    decide +kernel
  refine ⟨cons_ne_nil _ _, fun text htext => ?_⟩
  obtain ⟨hbegin, hok, hne⟩ := hdiffer text htext
  cases hparse : parsePatch text with
  | error e =>
    rw [hparse] at hok
    cases hok
  | ok args =>
    rw [hparse] at hne
    exact ⟨hbegin, args, rfl, hne.symm⟩

end ApplyPatch
