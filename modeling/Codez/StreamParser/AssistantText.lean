import Codez.StreamParser.InlineHiddenTag
import Codez.StreamParser.TaggedLine

/-!
The stream parser of assistant text (`utils/stream-parser/src/assistant_text.rs`, `citation.rs`,
`proposed_plan.rs`): citations are taken out first; in plan mode the text that is left goes through the
parser of plan blocks.
-/

namespace StreamParser

open Streaming List

inductive CitationTag where
  | citation
deriving DecidableEq

def citationOpen : Text := "<oai-mem-citation>".toList

def citationClose : Text := "</oai-mem-citation>".toList

def citationSpec : InlineTagSpec CitationTag where
  tag := .citation
  openTag := citationOpen
  closeTag := citationClose
  open_ne_nil := by decide
  close_ne_nil := by decide

structure CitationStreamParser where
  inner : InlineHiddenTagParser CitationTag := { specs := [citationSpec] }

namespace CitationStreamParser

def contents (chunk : StreamTextChunk (ExtractedInlineTag CitationTag)) : StreamTextChunk Text :=
  ⟨chunk.visibleText, chunk.extracted.map ExtractedInlineTag.content⟩

def pushStr (p : CitationStreamParser) (chunk : Text) : StreamTextChunk Text × CitationStreamParser :=
  let (out, inner) := p.inner.pushStr chunk
  (contents out, { inner })

def finish (p : CitationStreamParser) : StreamTextChunk Text := contents p.inner.finish

end CitationStreamParser

/-! ## Plan blocks -/

inductive PlanTag where
  | proposedPlan
deriving DecidableEq

inductive ProposedPlanSegment where
  | normal (text : Text)
  | proposedPlanStart
  | proposedPlanDelta (text : Text)
  | proposedPlanEnd
deriving DecidableEq

def openTag : Text := "<proposed_plan>".toList

def closeTag : Text := "</proposed_plan>".toList

structure ProposedPlanParser where
  parser : TaggedLineParser PlanTag := { specs := [⟨openTag, closeTag, .proposedPlan⟩] }

def mapSegment : TaggedLineSegment PlanTag → ProposedPlanSegment
  | .normal text => .normal text
  | .tagStart .proposedPlan => .proposedPlanStart
  | .tagDelta .proposedPlan text => .proposedPlanDelta text
  | .tagEnd .proposedPlan => .proposedPlanEnd

def ProposedPlanSegment.visible : ProposedPlanSegment → Text
  | .normal text => text
  | _ => []

def mapSegments (segments : List (TaggedLineSegment PlanTag)) : StreamTextChunk ProposedPlanSegment :=
  segments.foldl (fun out segment =>
    { visibleText := out.visibleText ++ (mapSegment segment).visible
      extracted := out.extracted ++ [mapSegment segment] }) {}

namespace ProposedPlanParser

def pushStr (p : ProposedPlanParser) (chunk : Text) : StreamTextChunk ProposedPlanSegment × ProposedPlanParser :=
  let (segments, parser) := p.parser.parse chunk
  (mapSegments segments, { parser })

def finish (p : ProposedPlanParser) : StreamTextChunk ProposedPlanSegment := mapSegments p.parser.finish

end ProposedPlanParser

@[ext]
structure AssistantTextChunk where
  visibleText : Text := []
  citations : List Text := []
  planSegments : List ProposedPlanSegment := []
deriving DecidableEq

instance : Append AssistantTextChunk where
  append a b := ⟨a.visibleText ++ b.visibleText, a.citations ++ b.citations, a.planSegments ++ b.planSegments⟩

structure AssistantTextStreamParser where
  planMode : Bool
  citations : CitationStreamParser := {}
  plan : ProposedPlanParser := {}

namespace AssistantTextStreamParser

def parseVisibleText (p : AssistantTextStreamParser) (visibleText : Text) :
    AssistantTextChunk × AssistantTextStreamParser :=
  if !p.planMode then ({ visibleText }, p)
  else
    let (planChunk, plan) := p.plan.pushStr visibleText
    ({ visibleText := planChunk.visibleText, planSegments := planChunk.extracted }, { p with plan })

def pushStr (p : AssistantTextStreamParser) (chunk : Text) : AssistantTextChunk × AssistantTextStreamParser :=
  let (citationChunk, citations) := p.citations.pushStr chunk
  let (out, p) := parseVisibleText { p with citations } citationChunk.visibleText
  ({ out with citations := citationChunk.extracted }, p)

def finish (p : AssistantTextStreamParser) : AssistantTextChunk :=
  let citationChunk := p.citations.finish
  let (out, p) := p.parseVisibleText citationChunk.visibleText
  let out :=
    if p.planMode then
      let tail := p.plan.finish
      { out with
        visibleText := out.visibleText ++ tail.visibleText
        planSegments := out.planSegments ++ tail.extracted }
    else out
  { out with citations := citationChunk.extracted }

end AssistantTextStreamParser

def planSegments : (inside : Bool) → List Text → List ProposedPlanSegment
  | false, [] => []
  | true, [] => [.proposedPlanEnd]
  | false, line :: rest =>
    if Text.trim line = openTag then .proposedPlanStart :: planSegments true rest
    else .normal line :: planSegments false rest
  | true, line :: rest =>
    if Text.trim line = closeTag then .proposedPlanEnd :: planSegments false rest
    else .proposedPlanDelta line :: planSegments true rest

def joinSegment : ProposedPlanSegment → List ProposedPlanSegment → List ProposedPlanSegment
  | .normal text, .normal next :: rest => .normal (text ++ next) :: rest
  | .proposedPlanDelta text, .proposedPlanDelta next :: rest => .proposedPlanDelta (text ++ next) :: rest
  | segment, rest => segment :: rest

def mergeText (segments : List ProposedPlanSegment) : List ProposedPlanSegment := segments.foldr joinSegment []

def AssistantTextChunk.merged (chunk : AssistantTextChunk) : AssistantTextChunk :=
  { chunk with planSegments := mergeText chunk.planSegments }

def wholeText (planMode : Bool) (text : Text) : AssistantTextChunk :=
  let stripped := hideTags citationSpec none text
  let citations := stripped.extracted.map ExtractedInlineTag.content
  if planMode then
    let segments := planSegments false (Text.linesInclusive stripped.visibleText)
    { visibleText := segments.flatMap ProposedPlanSegment.visible, citations, planSegments := mergeText segments }
  else { visibleText := stripped.visibleText, citations }

/-! ## Marks of plan segments -/

def ProposedPlanSegment.marks : ProposedPlanSegment → List (Mark PlanTag)
  | .normal text => text.map .normal
  | .proposedPlanStart => [.tagStart .proposedPlan]
  | .proposedPlanDelta text => text.map (.tagDelta .proposedPlan)
  | .proposedPlanEnd => [.tagEnd .proposedPlan]

def Mark.visible : Mark PlanTag → Text
  | .normal c => [c]
  | _ => []

theorem marks_mapSegment (segment : TaggedLineSegment PlanTag) : (mapSegment segment).marks = segment.marks := by
  cases segment with
  | normal text => rfl
  | tagStart tag => rfl
  | tagDelta tag text => rfl
  | tagEnd tag => rfl

variable (segments : List (TaggedLineSegment PlanTag))

open ProposedPlanSegment

theorem flatMap_marks_mapSegment :
    (segments.map mapSegment).flatMap marks = allMarks segments := by
  rw [flatMap_map, allMarks]
  exact congrArg (segments.flatMap ·) (funext marks_mapSegment)

theorem visible_marks (segment : ProposedPlanSegment) : segment.marks.flatMap Mark.visible = segment.visible := by
  cases segment with
  | normal text =>
    rw [marks, flatMap_map]
    exact flatMap_singleton' text
  | proposedPlanStart => rfl
  | proposedPlanDelta text =>
    rw [marks, flatMap_map]
    exact flatMap_eq_nil_iff.mpr fun _ _ => rfl
  | proposedPlanEnd => rfl

theorem flatMap_visible (segments : List ProposedPlanSegment) : segments.flatMap visible =
      (segments.flatMap marks).flatMap Mark.visible := by
  rw [flatMap_assoc]
  exact congrArg (segments.flatMap ·) (funext fun segment => (visible_marks segment).symm)

theorem mapSegments_eq : mapSegments segments =
      ⟨(segments.map mapSegment).flatMap visible, segments.map mapSegment⟩ := by
  unfold mapSegments
  induction segments using List.reverseRecOn with
  | nil => rfl
  | append_singleton segments segment ih =>
    rw [foldl_append, ih, map_append, flatMap_append]
    simp

theorem mapSegments_append (a b : List (TaggedLineSegment PlanTag)) :
    mapSegments (a ++ b) = mapSegments a ++ mapSegments b := by
  rw [mapSegments_eq, mapSegments_eq, mapSegments_eq, map_append, flatMap_append]
  rfl

/-! ### The merged segments depend on the marks only -/

def Mark.segment : Mark PlanTag → ProposedPlanSegment
  | .normal c => .normal [c]
  | .tagStart _ => .proposedPlanStart
  | .tagDelta _ c => .proposedPlanDelta [c]
  | .tagEnd _ => .proposedPlanEnd

theorem foldr_text {make : Text → ProposedPlanSegment} (hmake : make = .normal ∨ make = .proposedPlanDelta) (c : Char)
    (text : Text) (rest : List ProposedPlanSegment) :
    (c :: text).foldr (fun c => joinSegment (make [c])) rest = joinSegment (make (c :: text)) rest := by
  induction text generalizing c with
  | nil => rfl
  | cons c' text ih =>
    rw [foldr_cons, ih]
    rcases hmake with rfl | rfl <;> cases rest with
    | nil => rfl
    | cons next rest => cases next <;> rfl

theorem foldr_marks {segment : ProposedPlanSegment} (h : segment.marks ≠ []) (rest : List ProposedPlanSegment) :
    segment.marks.foldr (fun mark => joinSegment mark.segment) rest = joinSegment segment rest := by
  cases segment with
  | proposedPlanStart => rfl
  | proposedPlanEnd => rfl
  | normal text =>
    cases text with
    | nil => exact absurd rfl h
    | cons c text =>
      rw [marks, foldr_map]
      exact foldr_text (.inl rfl) c text rest
  | proposedPlanDelta text =>
    cases text with
    | nil => exact absurd rfl h
    | cons c text =>
      rw [marks, foldr_map]
      exact foldr_text (.inr rfl) c text rest

theorem mergeText_eq {segments : List ProposedPlanSegment} (h : ∀ segment ∈ segments, segment.marks ≠ []) :
    mergeText segments =
      (segments.flatMap marks).foldr (fun mark => joinSegment mark.segment) [] := by
  induction segments with
  | nil => rfl
  | cons segment rest ih =>
    have hr := ih (forall_mem_cons.mp h).2
    rw [flatMap_cons, foldr_append, ← hr, foldr_marks (h segment mem_cons_self)]
    rfl

/-! ### The lines of a whole text -/

def activeTag (inside : Bool) : Option PlanTag := if inside then some .proposedPlan else none

section
open TaggedLineParser

theorem find?_singleton_map {α β : Type} (x : α) (p : α → Bool) (f : α → β) :
    ([x].find? p).map f = if p x = true then some (f x) else none := by
  cases h : p x <;> simp [h]

variable (slug : Text)

theorem matchOpen_plan :
    matchOpen [⟨openTag, closeTag, PlanTag.proposedPlan⟩] slug =
      if openTag = slug then some .proposedPlan else none := by
  rw [matchOpen, find?_singleton_map]
  simp only [decide_eq_true_eq]

theorem matchClose_plan :
    matchClose [⟨openTag, closeTag, PlanTag.proposedPlan⟩] slug =
      if closeTag = slug then some .proposedPlan else none := by
  rw [matchClose, find?_singleton_map]
  simp only [decide_eq_true_eq]

theorem lineKind_outside : lineKind [⟨openTag, closeTag, PlanTag.proposedPlan⟩] (activeTag false) slug =
      if slug = openTag then .opens .proposedPlan else .text := by
  unfold lineKind
  rw [matchOpen_plan, matchClose_plan]
  by_cases hopen : slug = openTag
  · rw [if_pos hopen.symm, if_pos hopen]
    rfl
  · rw [if_neg (Ne.symm hopen), if_neg hopen]
    by_cases hcl : closeTag = slug
    · rw [if_pos hcl]
      rfl
    · rw [if_neg hcl]

theorem lineKind_inside : lineKind [⟨openTag, closeTag, PlanTag.proposedPlan⟩] (activeTag true) slug =
      if slug = closeTag then .closes .proposedPlan else .text := by
  unfold lineKind
  rw [matchClose_plan]
  cases matchOpen [⟨openTag, closeTag, PlanTag.proposedPlan⟩] slug with
  | none =>
    by_cases hcl : slug = closeTag
    · rw [if_pos hcl.symm, if_pos hcl]
      rfl
    · rw [if_neg (Ne.symm hcl), if_neg hcl]
  | some tag =>
    by_cases hcl : slug = closeTag
    · rw [if_pos hcl.symm, if_pos hcl]
      rfl
    · rw [if_neg (Ne.symm hcl), if_neg hcl]
      rfl

end

theorem marks_planSegments (lines : List Text) (inside : Bool) :
    (planSegments inside lines).flatMap marks =
      allMarks (lineSegments [⟨openTag, closeTag, .proposedPlan⟩] (activeTag inside) lines) := by
  induction lines generalizing inside with
  | nil => cases inside <;> rfl
  | cons line rest ih =>
    rw [lineSegments_cons]
    cases inside with
    | false =>
      rw [lineKind_outside, planSegments]
      by_cases hopen : Text.trim line = openTag
      · rw [if_pos hopen, if_pos hopen, flatMap_cons, ih true]
        rfl
      · rw [if_neg hopen, if_neg hopen, flatMap_cons, ih false]
        rfl
    | true =>
      rw [lineKind_inside, planSegments]
      by_cases hcl : Text.trim line = closeTag
      · rw [if_pos hcl, if_pos hcl, flatMap_cons, ih false]
        rfl
      · rw [if_neg hcl, if_neg hcl, flatMap_cons, ih true]
        rfl

theorem marks_ne_nil_of_mem_planSegments {lines : List Text} (hls : ∀ line ∈ lines, line ≠ []) {inside : Bool}
    {segment : ProposedPlanSegment} (h : segment ∈ planSegments inside lines) : segment.marks ≠ [] := by
  induction lines generalizing inside with
  | nil =>
    cases inside with
    | false => cases h
    | true =>
      rw [mem_singleton.mp h]
      exact cons_ne_nil _ _
  | cons line rest ih =>
    have hl : line ≠ [] := hls line mem_cons_self
    have hr : ∀ {inside}, segment ∈ planSegments inside rest → segment.marks ≠ [] :=
      ih (forall_mem_cons.mp hls).2
    cases inside with
    | false | true =>
      rw [planSegments] at h
      split at h
      · obtain rfl | h := mem_cons.mp h
        · exact cons_ne_nil _ _
        · exact hr h
      · obtain rfl | h := mem_cons.mp h
        · simpa [marks] using hl
        · exact hr h

/-! ## Streaming -/

@[ext]
structure Seen where
  visibleText : Text
  citations : List Text
  marks : List (Mark PlanTag)

instance : Append Seen where
  append a b := ⟨a.visibleText ++ b.visibleText, a.citations ++ b.citations, a.marks ++ b.marks⟩

def AssistantTextChunk.seen (chunk : AssistantTextChunk) : Seen :=
  ⟨chunk.visibleText, chunk.citations, chunk.planSegments.flatMap ProposedPlanSegment.marks⟩

theorem AssistantTextChunk.seen_append (a b : AssistantTextChunk) : (a ++ b).seen = a.seen ++ b.seen := by
  ext1
  · rfl
  · rfl
  · exact flatMap_append

def Seen.ofPlan (citations : List Text) (marks : List (Mark PlanTag)) : Seen :=
  ⟨marks.flatMap Mark.visible, citations, marks⟩

theorem Seen.ofPlan_append (citations citations' : List Text) (marks marks' : List (Mark PlanTag)) :
    ofPlan (citations ++ citations') (marks ++ marks') = ofPlan citations marks ++ ofPlan citations' marks' := by
  ext1
  · exact flatMap_append
  · rfl
  · rfl

open AssistantTextChunk

theorem seen_mapSegments (citations : List Text) (segments : List (TaggedLineSegment PlanTag)) :
    seen ⟨(mapSegments segments).visibleText, citations, (mapSegments segments).extracted⟩ =
      Seen.ofPlan citations (allMarks segments) := by
  rw [mapSegments_eq, seen, Seen.ofPlan, flatMap_visible, flatMap_marks_mapSegment]

open CitationStreamParser InlineHiddenTagParser TaggedLineParser

namespace AssistantTextStreamParser

structure Ready (p : AssistantTextStreamParser) : Prop where
  citations : p.citations.inner.Settled
  plan : p.plan.parser.Buffered

def meaning (p : AssistantTextStreamParser) (text : Text) : Seen :=
  let stripped := CitationStreamParser.contents (p.citations.inner.meaning text)
  if p.planMode then Seen.ofPlan stripped.extracted (p.plan.parser.meaning stripped.visibleText)
  else ⟨stripped.visibleText, stripped.extracted, []⟩

theorem contents_append (a b : StreamTextChunk (ExtractedInlineTag CitationTag)) :
    contents (a ++ b) = contents a ++ contents b := by
  ext1
  · rfl
  · exact map_append

theorem streams_meaning : Streams AssistantTextChunk.seen pushStr finish Ready meaning where
  inv p piece hp := by
    obtain ⟨planMode, ⟨inner⟩, ⟨parser⟩⟩ := p
    have hin := InlineHiddenTagParser.streams_meaning.inv inner piece hp.citations
    cases planMode with
    | false => exact ⟨hin, hp.plan⟩
    | true => exact ⟨hin, TaggedLineParser.streams_lineSegments.inv parser _ hp.plan⟩
  push p piece text hp := by
    obtain ⟨planMode, ⟨inner⟩, ⟨parser⟩⟩ := p
    have hin := InlineHiddenTagParser.streams_meaning.push inner piece text hp.citations
    rw [id] at hin
    cases planMode with
    | false =>
      show (⟨_, _, []⟩ : Seen) = _
      rw [hin, contents_append]
      rfl
    | true =>
      have hplan := TaggedLineParser.streams_lineSegments.push parser
        (CitationStreamParser.contents (inner.pushStr piece).1).visibleText
        (CitationStreamParser.contents ((inner.pushStr piece).2.meaning text)).visibleText hp.plan
      show Seen.ofPlan _ _ = AssistantTextChunk.seen ⟨(mapSegments _).visibleText, _, (mapSegments _).extracted⟩ ++
        Seen.ofPlan _ _
      rw [hin, contents_append, StreamTextChunk.visibleText_append, StreamTextChunk.extracted_append, hplan,
        Seen.ofPlan_append, seen_mapSegments]
      rfl
  finish p hp := by
    obtain ⟨planMode, ⟨inner⟩, ⟨parser⟩⟩ := p
    have hin := InlineHiddenTagParser.streams_meaning.finish inner hp.citations
    rw [id] at hin
    cases planMode with
    | false =>
      show _ = (⟨_, _, []⟩ : Seen)
      rw [← hin]
      rfl
    | true =>
      have hpush := TaggedLineParser.streams_lineSegments.push parser
        (CitationStreamParser.contents inner.finish).visibleText [] hp.plan
      have hend := TaggedLineParser.streams_lineSegments.finish _
        (TaggedLineParser.streams_lineSegments.inv parser
          (CitationStreamParser.contents inner.finish).visibleText hp.plan)
      rw [append_nil, ← hend, ← allMarks_append] at hpush
      show AssistantTextChunk.seen
        ⟨(mapSegments _ ++ mapSegments _).visibleText, _, (mapSegments _ ++ mapSegments _).extracted⟩ =
        Seen.ofPlan _ _
      rw [← mapSegments_append, seen_mapSegments, ← hin, hpush]
      rfl

theorem ready_new (planMode : Bool) : Ready { planMode } where
  citations := settled_new (clear_single citationSpec)
  plan := ⟨not_mem_nil, fun _ => rfl⟩

variable {segment : ProposedPlanSegment} (p : AssistantTextStreamParser)

theorem marks_ne_nil_of_mem_mapSegments {segments : List (TaggedLineSegment PlanTag)} (h : Solid segments)
    (hmem : segment ∈ (mapSegments segments).extracted) : segment.marks ≠ [] := by
  rw [mapSegments_eq] at hmem
  obtain ⟨tagged, htagged, rfl⟩ := mem_map.mp hmem
  rw [marks_mapSegment]
  exact h tagged htagged

theorem pushStr_solid (chunk : Text) (hmem : segment ∈ (p.pushStr chunk).1.planSegments) :
    segment.marks ≠ [] := by
  obtain ⟨planMode, citations, plan⟩ := p
  cases planMode with
  | false => cases hmem
  | true => exact marks_ne_nil_of_mem_mapSegments (parse_solid _ _) hmem

theorem finish_solid (hmem : segment ∈ p.finish.planSegments) : segment.marks ≠ [] := by
  obtain ⟨planMode, citations, plan⟩ := p
  cases planMode with
  | false => cases hmem
  | true =>
    obtain hmem | hmem := mem_append.mp hmem
    · exact marks_ne_nil_of_mem_mapSegments (parse_solid _ _) hmem
    · exact marks_ne_nil_of_mem_mapSegments (finish_solid _) hmem

theorem run_solid (chunks : List Text) (p : AssistantTextStreamParser)
    (hmem : segment ∈ (run pushStr finish p chunks).planSegments) : segment.marks ≠ [] := by
  induction chunks generalizing p with
  | nil => exact p.finish_solid hmem
  | cons chunk chunks ih =>
    obtain hmem | hmem := mem_append.mp hmem
    · exact p.pushStr_solid chunk hmem
    · exact ih _ hmem

end AssistantTextStreamParser

theorem meaning_new (planMode : Bool) (text : Text) : AssistantTextStreamParser.meaning { planMode } text =
      if planMode then
        Seen.ofPlan ((hideTags citationSpec none text).extracted.map ExtractedInlineTag.content)
          ((planSegments false (Text.linesInclusive (hideTags citationSpec none text).visibleText)).flatMap
            marks)
      else
        ⟨(hideTags citationSpec none text).visibleText,
          (hideTags citationSpec none text).extracted.map ExtractedInlineTag.content, []⟩ := by
  rw [← meaning_single]
  cases planMode with
  | false => rfl
  | true =>
    rw [marks_planSegments]
    rfl

/-- **Streaming does not matter.**  The visible text, the citations and the merged plan segments of the
chunks of a text are those of the whole text, however it is cut. -/
theorem merged_run (planMode : Bool) (chunks : List Text) :
    (run AssistantTextStreamParser.pushStr AssistantTextStreamParser.finish { planMode } chunks).merged =
      wholeText planMode chunks.flatten := by
  have hseen := AssistantTextStreamParser.streams_meaning.run_eq AssistantTextChunk.seen_append chunks { planMode }
    (AssistantTextStreamParser.ready_new planMode)
  rw [meaning_new] at hseen
  have hmerge := mergeText_eq fun segment hmem => AssistantTextStreamParser.run_solid chunks { planMode } hmem
  generalize run AssistantTextStreamParser.pushStr AssistantTextStreamParser.finish { planMode } chunks = out at *
  obtain ⟨visibleText, citations, segments⟩ := out
  cases planMode with
  | false =>
    obtain ⟨rfl, rfl, hmarks⟩ := Seen.mk.inj hseen
    rw [hmarks] at hmerge
    exact AssistantTextChunk.ext rfl rfl hmerge
  | true =>
    obtain ⟨rfl, rfl, hmarks⟩ := Seen.mk.inj hseen
    rw [hmarks, ← mergeText_eq fun segment => marks_ne_nil_of_mem_planSegments fun line =>
      Text.ne_nil_of_mem_linesInclusive]
      at hmerge
    exact AssistantTextChunk.ext (flatMap_visible _).symm rfl hmerge

end StreamParser
