import Codez.Lib.Run
import Codez.Lib.Streaming
import Codez.Lib.Text

/-!
Tags that stand alone on a line (`utils/stream-parser/src/tagged_line_parser.rs`).
-/

namespace StreamParser

open Streaming List

structure TagSpec (T : Type) where
  openTag : Text
  closeTag : Text
  tag : T

inductive TaggedLineSegment (T : Type) where
  | normal (text : Text)
  | tagStart (tag : T)
  | tagDelta (tag : T) (text : Text)
  | tagEnd (tag : T)
deriving DecidableEq

structure TaggedLineParser (T : Type) where
  specs : List (TagSpec T)
  activeTag : Option T := none
  detectTag : Bool := true
  lineBuffer : Text := []

variable {T : Type}

def textSegment (activeTag : Option T) (text : Text) : TaggedLineSegment T :=
  match activeTag with
  | some tag => .tagDelta tag text
  | none => .normal text

inductive Mark (T : Type) where
  | normal (c : Char)
  | tagStart (tag : T)
  | tagDelta (tag : T) (c : Char)
  | tagEnd (tag : T)
deriving DecidableEq

def TaggedLineSegment.marks : TaggedLineSegment T → List (Mark T)
  | .normal text => text.map .normal
  | .tagStart tag => [.tagStart tag]
  | .tagDelta tag text => text.map (.tagDelta tag)
  | .tagEnd tag => [.tagEnd tag]

def allMarks (segments : List (TaggedLineSegment T)) : List (Mark T) := segments.flatMap TaggedLineSegment.marks

theorem allMarks_append (a b : List (TaggedLineSegment T)) : allMarks (a ++ b) = allMarks a ++ allMarks b :=
  flatMap_append

theorem allMarks_cons (a : TaggedLineSegment T) (b : List (TaggedLineSegment T)) :
    allMarks (a :: b) = a.marks ++ allMarks b :=
  flatMap_cons

theorem allMarks_concat (a : List (TaggedLineSegment T)) (b : TaggedLineSegment T) :
    allMarks (a ++ [b]) = allMarks a ++ b.marks := by
  rw [allMarks_append, allMarks_cons]
  exact congrArg _ (append_nil _)

theorem marks_textSegment_append (activeTag : Option T) (s t : Text) :
    (textSegment activeTag (s ++ t)).marks = (textSegment activeTag s).marks ++ (textSegment activeTag t).marks := by
  cases activeTag with
  | none | some tag => exact map_append

theorem marks_textSegment_nil (activeTag : Option T) : (textSegment activeTag []).marks = [] := by
  cases activeTag with
  | none => rfl
  | some tag => rfl

def Solid (segments : List (TaggedLineSegment T)) : Prop := ∀ segment ∈ segments, segment.marks ≠ []

theorem Solid.concat {segments : List (TaggedLineSegment T)} (h : Solid segments) {segment : TaggedLineSegment T}
    (hseg : segment.marks ≠ []) : Solid (segments ++ [segment]) := by
  intro other hmem
  obtain hmem | hmem := mem_append.mp hmem
  · exact h other hmem
  · rw [mem_singleton.mp hmem]
    exact hseg

theorem Solid.dropLast {segments : List (TaggedLineSegment T)} (h : Solid segments) : Solid segments.dropLast :=
  fun segment hmem => h segment (mem_of_mem_dropLast hmem)

open TaggedLineSegment Text

section
variable [DecidableEq T]

def pushSegment (segments : List (TaggedLineSegment T)) : TaggedLineSegment T → List (TaggedLineSegment T)
  | .normal delta =>
    if delta.isEmpty then segments
    else
      match segments.getLast? with
      | some (.normal existing) => segments.dropLast ++ [.normal (existing ++ delta)]
      | _ => segments ++ [.normal delta]
  | .tagDelta tag delta =>
    if delta.isEmpty then segments
    else
      match segments.getLast? with
      | some (.tagDelta existingTag existing) =>
        if existingTag = tag then segments.dropLast ++ [.tagDelta existingTag (existing ++ delta)]
        else segments ++ [.tagDelta tag delta]
      | _ => segments ++ [.tagDelta tag delta]
  | .tagStart tag => segments ++ [.tagStart tag]
  | .tagEnd tag => segments ++ [.tagEnd tag]

theorem allMarks_pushSegment (segments : List (TaggedLineSegment T)) (segment : TaggedLineSegment T) :
    allMarks (pushSegment segments segment) = allMarks segments ++ segment.marks := by
  cases segment with
  | tagStart tag | tagEnd tag => exact allMarks_concat _ _
  | normal delta =>
    simp only [pushSegment]
    split
    · next hnil =>
      rw [List.isEmpty_iff.mp hnil]
      exact (append_nil _).symm
    · split
      · next existing hl =>
        obtain ⟨pre, rfl⟩ := getLast?_eq_some_iff.mp hl
        rw [dropLast_concat, allMarks_concat, allMarks_concat, append_assoc]
        exact congrArg _ map_append
      · exact allMarks_concat _ _
  | tagDelta tag delta =>
    simp only [pushSegment]
    split
    · next hnil =>
      rw [List.isEmpty_iff.mp hnil]
      exact (append_nil _).symm
    · split
      · next existingTag existing hl =>
        obtain ⟨pre, rfl⟩ := getLast?_eq_some_iff.mp hl
        split
        · next htag =>
          subst htag
          rw [dropLast_concat, allMarks_concat, allMarks_concat, append_assoc]
          exact congrArg _ map_append
        · exact allMarks_concat _ _
      · exact allMarks_concat _ _

theorem Solid.pushSegment {segments : List (TaggedLineSegment T)} (h : Solid segments) (segment : TaggedLineSegment T) :
    Solid (pushSegment segments segment) := by
  cases segment with
  | tagStart tag | tagEnd tag => exact h.concat (cons_ne_nil _ _)
  | normal delta =>
    simp only [StreamParser.pushSegment]
    split
    · exact h
    · next hdel =>
      rw [List.isEmpty_iff] at hdel
      split
      · exact h.dropLast.concat (by simp [marks, hdel])
      · exact h.concat (by simp [marks, hdel])
  | tagDelta tag delta =>
    simp only [StreamParser.pushSegment]
    split
    · exact h
    · next hdel =>
      rw [List.isEmpty_iff] at hdel
      split
      · split
        · exact h.dropLast.concat (by simp [marks, hdel])
        · exact h.concat (by simp [marks, hdel])
      · exact h.concat (by simp [marks, hdel])

/-! ## The parser -/

namespace TaggedLineParser

def pushText (p : TaggedLineParser T) (text : Text) (segments : List (TaggedLineSegment T)) :
    List (TaggedLineSegment T) :=
  pushSegment segments (textSegment p.activeTag text)

def isTagPrefix (p : TaggedLineParser T) (slug : Text) : Bool :=
  let slug := Text.trimEnd slug
  p.specs.any fun spec => slug.isPrefixOf spec.openTag || slug.isPrefixOf spec.closeTag

def matchOpen (specs : List (TagSpec T)) (slug : Text) : Option T :=
  (specs.find? fun spec => spec.openTag = slug).map TagSpec.tag

def matchClose (specs : List (TagSpec T)) (slug : Text) : Option T :=
  (specs.find? fun spec => spec.closeTag = slug).map TagSpec.tag

inductive LineKind (T : Type) where
  | opens (tag : T)
  | closes (tag : T)
  | text

def lineKind (specs : List (TagSpec T)) (activeTag : Option T) (slug : Text) : LineKind T :=
  match matchOpen specs slug, activeTag with
  | some tag, none => .opens tag
  | _, _ =>
    match matchClose specs slug with
    | some tag => if activeTag = some tag then .closes tag else .text
    | none => .text

def stripNewline (line : Text) : Text := if line.getLast? = some '\n' then line.dropLast else line

def finishLine (p : TaggedLineParser T) (segments : List (TaggedLineSegment T)) :
    List (TaggedLineSegment T) × TaggedLineParser T :=
  let line := p.lineBuffer
  let p := { p with lineBuffer := [], detectTag := true }
  match lineKind p.specs p.activeTag (Text.trim (stripNewline line)) with
  | .opens tag => (pushSegment segments (.tagStart tag), { p with activeTag := some tag })
  | .closes tag => (pushSegment segments (.tagEnd tag), { p with activeTag := none })
  | .text => (p.pushText line segments, p)

structure Parsing (T : Type) where
  parser : TaggedLineParser T
  segments : List (TaggedLineSegment T) := []
  run : Text := []

def parseChar (s : Parsing T) (ch : Char) : Parsing T :=
  let p := s.parser
  if p.detectTag then
    let segments := if s.run.isEmpty then s.segments else p.pushText s.run s.segments
    let p := { p with lineBuffer := p.lineBuffer ++ [ch] }
    if ch = '\n' then
      let (segments, p) := p.finishLine segments
      { parser := p, segments }
    else
      let slug := Text.trimStart p.lineBuffer
      if slug.isEmpty || p.isTagPrefix slug then { parser := p, segments }
      else { parser := { p with lineBuffer := [], detectTag := false }, segments := p.pushText p.lineBuffer segments }
  else
    let run := s.run ++ [ch]
    if ch = '\n' then { parser := { p with detectTag := true }, segments := p.pushText run s.segments }
    else { s with run }

def parse (p : TaggedLineParser T) (delta : Text) : List (TaggedLineSegment T) × TaggedLineParser T :=
  let s := delta.foldl parseChar { parser := p }
  (if s.run.isEmpty then s.segments else s.parser.pushText s.run s.segments, s.parser)

def finish (p : TaggedLineParser T) : List (TaggedLineSegment T) :=
  let (segments, p) := if p.lineBuffer.isEmpty then ([], p) else p.finishLine []
  match p.activeTag with
  | some tag => pushSegment segments (.tagEnd tag)
  | none => segments

end TaggedLineParser

open TaggedLineParser

def lineSegments (specs : List (TagSpec T)) : Option T → List Text → List (TaggedLineSegment T)
  | some tag, [] => [.tagEnd tag]
  | none, [] => []
  | activeTag, line :: rest =>
    match lineKind specs activeTag (Text.trim line) with
    | .opens tag => .tagStart tag :: lineSegments specs (some tag) rest
    | .closes tag => .tagEnd tag :: lineSegments specs none rest
    | .text => textSegment activeTag line :: lineSegments specs activeTag rest

theorem lineSegments_cons (specs : List (TagSpec T)) (activeTag : Option T) (line : Text) (rest : List Text) :
    lineSegments specs activeTag (line :: rest) = match lineKind specs activeTag (trim line) with
      | .opens tag => .tagStart tag :: lineSegments specs (some tag) rest
      | .closes tag => .tagEnd tag :: lineSegments specs none rest
      | .text => textSegment activeTag line :: lineSegments specs activeTag rest := by
  cases activeTag with
  | none => rfl
  | some tag => rfl

/-! ## Streaming -/

namespace TaggedLineParser

theorem trim_stripNewline (line : Text) : trim (stripNewline line) = trim line := by
  unfold stripNewline
  split
  · next hl =>
    obtain ⟨pre, rfl⟩ := getLast?_eq_some_iff.mp hl
    rw [dropLast_concat, trim_append_whitespace pre (by decide)]
  · rfl

theorem lineKind_eq_text {p : TaggedLineParser T} {start : Text} (hslug : trimStart start ≠ [])
    (hnot : p.isTagPrefix (trimStart start) = false) (text : Text) :
    lineKind p.specs p.activeTag (trim (start ++ text)) = .text := by
  have hpre := trim_prefix_trim_append hslug text
  have hspecs : ∀ spec ∈ p.specs,
      spec.openTag ≠ trim (start ++ text) ∧ spec.closeTag ≠ trim (start ++ text) := by
    intro spec hspec
    have hboth := any_eq_false.mp hnot spec hspec
    rw [Bool.or_eq_true, not_or, List.isPrefixOf_iff_prefix, List.isPrefixOf_iff_prefix] at hboth
    constructor
    · intro h
      apply hboth.1
      rw [h]
      exact hpre
    · intro h
      apply hboth.2
      rw [h]
      exact hpre
  have hopen : matchOpen p.specs (trim (start ++ text)) = none := by
    rw [matchOpen, Option.map_eq_none_iff, find?_eq_none]
    intro spec hspec h
    exact (hspecs spec hspec).1 (of_decide_eq_true h)
  have hcl : matchClose p.specs (trim (start ++ text)) = none := by
    rw [matchClose, Option.map_eq_none_iff, find?_eq_none]
    intro spec hspec h
    exact (hspecs spec hspec).2 (of_decide_eq_true h)
  unfold lineKind
  rw [hopen, hcl]

/-- What the parser gives for the text to come.  Once a line is known to be text, its rest is too. -/
def meaning (p : TaggedLineParser T) (text : Text) : List (Mark T) :=
  if p.detectTag then allMarks (lineSegments p.specs p.activeTag (Text.linesInclusive (p.lineBuffer ++ text)))
  else
    (textSegment p.activeTag (Text.firstLine text)).marks ++
      allMarks (lineSegments p.specs p.activeTag (Text.otherLines text))

/-- The buffer is the start of one line, and is empty when the line is known to be text. -/
structure Buffered (p : TaggedLineParser T) : Prop where
  newline : '\n' ∉ p.lineBuffer
  plain : p.detectTag = false → p.lineBuffer = []

theorem finishLine_spec (p : TaggedLineParser T) (segments : List (TaggedLineSegment T)) :
    (p.finishLine segments).2.specs = p.specs ∧ (p.finishLine segments).2.detectTag = true ∧
      (p.finishLine segments).2.lineBuffer = [] ∧
      ∀ rest, allMarks (p.finishLine segments).1 ++
          allMarks (lineSegments p.specs (p.finishLine segments).2.activeTag rest) =
        allMarks segments ++ allMarks (lineSegments p.specs p.activeTag (p.lineBuffer :: rest)) := by
  simp only [lineSegments_cons, finishLine, trim_stripNewline]
  cases lineKind p.specs p.activeTag (trim p.lineBuffer) with
  | opens tag | closes tag =>
    refine ⟨rfl, rfl, rfl, ?_⟩
    intro rest
    rw [allMarks_pushSegment, allMarks_cons, append_assoc]
  | text =>
    refine ⟨rfl, rfl, rfl, ?_⟩
    intro rest
    rw [pushText, allMarks_pushSegment, allMarks_cons, append_assoc]

def Parsing.emitted (s : Parsing T) : List (Mark T) :=
  allMarks s.segments ++ (textSegment s.parser.activeTag s.run).marks

theorem allMarks_flush (s : Parsing T) :
    allMarks (if s.run.isEmpty then s.segments else s.parser.pushText s.run s.segments) = s.emitted := by
  unfold Parsing.emitted
  split
  · next hnil => rw [List.isEmpty_iff.mp hnil, marks_textSegment_nil, append_nil]
  · exact allMarks_pushSegment _ _

structure Parsing.Good (s : Parsing T) : Prop where
  buffered : Buffered s.parser
  run : s.parser.detectTag = true → s.run = []

/-- `s` goes to `s'` by the character `ch`: what was given and is still to come is the same. -/
def Parsing.Continues (s : Parsing T) (ch : Char) (s' : Parsing T) : Prop :=
  s'.Good ∧ ∀ text, s.emitted ++ s.parser.meaning (ch :: text) = s'.emitted ++ s'.parser.meaning text

variable {s : Parsing T} {segments : List (TaggedLineSegment T)}

theorem parseChar_plain (hs : s.Good) (hdetect : s.parser.detectTag = false) (ch : Char) :
    s.Continues ch (parseChar s ch) := by
  obtain ⟨⟨specs, activeTag, detectTag, lineBuffer⟩, segments, run⟩ := s
  obtain rfl : detectTag = false := hdetect
  obtain rfl : lineBuffer = [] := hs.buffered.plain rfl
  by_cases hch : ch = '\n'
  · subst hch
    refine ⟨⟨⟨not_mem_nil, fun h => by cases h⟩, fun _ => rfl⟩, ?_⟩
    intro text
    show allMarks segments ++ (textSegment activeTag run).marks ++
        ((textSegment activeTag ['\n']).marks ++ allMarks (lineSegments specs activeTag (linesInclusive text))) =
      allMarks (pushSegment segments (textSegment activeTag (run ++ ['\n']))) ++ (textSegment activeTag []).marks ++
        allMarks (lineSegments specs activeTag (linesInclusive text))
    rw [allMarks_pushSegment, marks_textSegment_append, marks_textSegment_nil]
    simp only [append_assoc, append_nil]
  · have hst : parseChar ⟨⟨specs, activeTag, false, []⟩, segments, run⟩ ch =
        ⟨⟨specs, activeTag, false, []⟩, segments, run ++ [ch]⟩ := if_neg hch
    rw [hst]
    refine ⟨⟨hs.buffered, fun h => by cases h⟩, ?_⟩
    intro text
    have hls := linesInclusive_cons hch text
    have hfst : firstLine (ch :: text) = [ch] ++ firstLine text := by rw [firstLine, hls]; rfl
    have hoth : otherLines (ch :: text) = otherLines text := by rw [otherLines, hls]; rfl
    show allMarks segments ++ (textSegment activeTag run).marks ++
        ((textSegment activeTag (firstLine (ch :: text))).marks ++
          allMarks (lineSegments specs activeTag (otherLines (ch :: text)))) =
      allMarks segments ++ (textSegment activeTag (run ++ [ch])).marks ++
        ((textSegment activeTag (firstLine text)).marks ++
          allMarks (lineSegments specs activeTag (otherLines text)))
    rw [hfst, hoth, marks_textSegment_append, marks_textSegment_append]
    simp only [append_assoc]

theorem parseChar_detect (hs : s.Good) (hdetect : s.parser.detectTag = true) (ch : Char) :
    s.Continues ch (parseChar s ch) := by
  obtain ⟨⟨specs, activeTag, detectTag, lineBuffer⟩, segments, run⟩ := s
  obtain rfl : detectTag = true := hdetect
  obtain rfl : run = [] := hs.run rfl
  have hnl : '\n' ∉ lineBuffer := hs.buffered.newline
  by_cases hch : ch = '\n'
  · subst hch
    obtain ⟨hspecs, hdetect, hbuf, hmks⟩ :=
      finishLine_spec ⟨specs, activeTag, true, lineBuffer ++ ['\n']⟩ segments
    have hst : parseChar ⟨⟨specs, activeTag, true, lineBuffer⟩, segments, []⟩ '\n' =
        ⟨(finishLine ⟨specs, activeTag, true, lineBuffer ++ ['\n']⟩ segments).2,
          (finishLine ⟨specs, activeTag, true, lineBuffer ++ ['\n']⟩ segments).1, []⟩ := rfl
    rw [hst]
    generalize finishLine ⟨specs, activeTag, true, lineBuffer ++ ['\n']⟩ segments = done at *
    refine ⟨⟨⟨by rw [hbuf]; exact not_mem_nil, fun _ => hbuf⟩, fun _ => rfl⟩, ?_⟩
    intro text
    simp only [Parsing.emitted, meaning, if_true, hdetect, hbuf, hspecs, marks_textSegment_nil, append_nil,
      nil_append]
    rw [linesInclusive_append_newline hnl]
    exact (hmks _).symm
  · have hmem : '\n' ∉ lineBuffer ++ [ch] := by
      rw [mem_append, mem_singleton]
      rintro (h | h)
      · exact hnl h
      · exact hch h.symm
    by_cases hkeep : ((trimStart (lineBuffer ++ [ch])).isEmpty ||
        isTagPrefix ⟨specs, activeTag, true, lineBuffer ++ [ch]⟩ (trimStart (lineBuffer ++ [ch]))) = true
    · have hst : parseChar ⟨⟨specs, activeTag, true, lineBuffer⟩, segments, []⟩ ch =
          ⟨⟨specs, activeTag, true, lineBuffer ++ [ch]⟩, segments, []⟩ := by
        simp only [parseChar, if_true, if_neg hch, if_pos hkeep, isEmpty_nil]
      rw [hst]
      refine ⟨⟨⟨hmem, fun h => by cases h⟩, fun _ => rfl⟩, ?_⟩
      intro text
      simp only [Parsing.emitted, meaning, if_true, append_assoc, singleton_append]
    · have hst : parseChar ⟨⟨specs, activeTag, true, lineBuffer⟩, segments, []⟩ ch =
          ⟨⟨specs, activeTag, false, []⟩, pushSegment segments (textSegment activeTag (lineBuffer ++ [ch])), []⟩ := by
        simp only [parseChar, if_true, if_neg hch, if_neg hkeep, isEmpty_nil]
        rfl
      rw [hst]
      refine ⟨⟨⟨not_mem_nil, fun _ => rfl⟩, fun h => by cases h⟩, ?_⟩
      intro text
      rw [Bool.or_eq_true, not_or, List.isEmpty_iff, Bool.not_eq_true] at hkeep
      have hkind := lineKind_eq_text hkeep.1 hkeep.2 (firstLine text)
      have hne : lineBuffer ++ [ch] ≠ [] := append_ne_nil_of_right_ne_nil _ (cons_ne_nil _ _)
      have hls := linesInclusive_append hne hmem text
      rw [append_assoc, singleton_append] at hls
      have hsegments : lineSegments specs activeTag (linesInclusive (lineBuffer ++ ch :: text)) =
          textSegment activeTag (lineBuffer ++ [ch] ++ firstLine text) ::
            lineSegments specs activeTag (otherLines text) := by
        rw [hls, lineSegments_cons, hkind]
      simp only [Parsing.emitted, meaning, if_true, Bool.false_eq_true, if_false, hsegments, allMarks_cons,
        allMarks_pushSegment, marks_textSegment_append, marks_textSegment_nil, append_assoc, append_nil,
        nil_append]

theorem parseChar_continues (hs : s.Good) (ch : Char) : s.Continues ch (parseChar s ch) := by
  cases hdetect : s.parser.detectTag with
  | false => exact parseChar_plain hs hdetect ch
  | true => exact parseChar_detect hs hdetect ch

theorem foldl_parseChar (hs : s.Good) (delta : Text) : (delta.foldl parseChar s).Good ∧
      ∀ text, s.emitted ++ s.parser.meaning (delta ++ text) =
        (delta.foldl parseChar s).emitted ++ (delta.foldl parseChar s).parser.meaning text := by
  induction delta generalizing s with
  | nil => exact ⟨hs, fun _ => rfl⟩
  | cons ch delta ih =>
    obtain ⟨hgood, hst⟩ := parseChar_continues hs ch
    obtain ⟨hgood', hr⟩ := ih hgood
    refine ⟨hgood', ?_⟩
    intro text
    rw [cons_append, hst, hr, foldl_cons]

theorem allMarks_close (specs : List (TagSpec T)) (activeTag : Option T) (segments : List (TaggedLineSegment T)) :
    allMarks (match activeTag with
      | some tag => pushSegment segments (.tagEnd tag)
      | none => segments) = allMarks segments ++ allMarks (lineSegments specs activeTag []) := by
  cases activeTag with
  | none => exact (append_nil _).symm
  | some tag => exact allMarks_pushSegment _ _

theorem streams_lineSegments : Streams allMarks (@parse T _) (@finish T _) Buffered meaning where
  inv p delta hp := (foldl_parseChar (s := { parser := p }) ⟨hp, fun _ => rfl⟩ delta).1.buffered
  push p delta text hp := by
    have hrun := (foldl_parseChar (s := { parser := p }) ⟨hp, fun _ => rfl⟩ delta).2 text
    unfold parse
    rw [allMarks_flush, ← hrun, Parsing.emitted, marks_textSegment_nil]
    rfl
  finish p hp := by
    by_cases hbuf : p.lineBuffer = []
    · have hend : p.meaning [] = allMarks (lineSegments p.specs p.activeTag []) := by
        unfold meaning
        rw [hbuf]
        split
        · rfl
        · show (textSegment p.activeTag []).marks ++ _ = _
          rw [marks_textSegment_nil]
          rfl
      rw [hend, finish, if_pos (List.isEmpty_iff.mpr hbuf)]
      exact allMarks_close p.specs p.activeTag []
    · have hdetect : p.detectTag = true := by
        by_contra h
        exact hbuf (hp.plain (Bool.eq_false_iff.mpr h))
      have hls : linesInclusive (p.lineBuffer ++ []) = [p.lineBuffer] := by
        rw [linesInclusive_append hbuf hp.newline]
        exact congrArg (· :: []) (append_nil _)
      obtain ⟨-, -, -, hmks⟩ := finishLine_spec p []
      rw [meaning, if_pos hdetect, hls, finish, if_neg (by rwa [List.isEmpty_iff])]
      exact (allMarks_close p.specs _ _).trans (hmks [])

theorem finishLine_solid (h : Solid segments) (p : TaggedLineParser T) : Solid (p.finishLine segments).1 := by
  simp only [finishLine]
  split
  · next tag _ => exact h.pushSegment (.tagStart tag)
  · next tag _ => exact h.pushSegment (.tagEnd tag)
  · exact h.pushSegment _

theorem flush_solid (h : Solid segments) (p : TaggedLineParser T) (run : Text) :
    Solid (if run.isEmpty then segments else p.pushText run segments) := by
  split
  · exact h
  · exact h.pushSegment _

theorem parseChar_solid (h : Solid s.segments) (ch : Char) : Solid (parseChar s ch).segments := by
  have hflush := flush_solid h s.parser s.run
  simp only [parseChar]
  split
  · split
    · exact finishLine_solid hflush _
    · split
      · exact hflush
      · exact hflush.pushSegment _
  · split
    · exact h.pushSegment _
    · exact h

theorem parse_solid (p : TaggedLineParser T) (delta : Text) : Solid (p.parse delta).1 := by
  have hfold := @Run.foldl_invariant _ _ parseChar (fun s : Parsing T => Solid s.segments) delta { parser := p }
  exact flush_solid (hfold (fun _ h => absurd h not_mem_nil) fun s ch _ hs => parseChar_solid hs ch) _ _

theorem finish_solid (p : TaggedLineParser T) : Solid p.finish := by
  have hl : Solid (if p.lineBuffer.isEmpty then ([], p) else p.finishLine []).1 := by
    split
    · exact fun _ h => absurd h not_mem_nil
    · exact finishLine_solid (fun _ h => absurd h not_mem_nil) p
  unfold finish
  generalize (if p.lineBuffer.isEmpty then ([], p) else p.finishLine []) = done at hl ⊢
  obtain ⟨segments, p⟩ := done
  cases ha : p.activeTag with
  | none => simpa only [ha] using hl
  | some tag => simpa only [ha] using hl.pushSegment (.tagEnd tag)

end TaggedLineParser

end

end StreamParser
