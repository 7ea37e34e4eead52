import Codez.Lib.Fallible
import Codez.Lib.Growth
import Codez.Patch.Hunk

/-!
The streaming parser (`apply-patch/src/streaming_parser.rs`).
-/

namespace ApplyPatch

open Fallible Growth List

inductive StreamingParserMode where
  | notStarted
  | startedPatch
  | addFile
  | deleteFile
  | updateFile (hunkLineNumber : Nat)
  | endedPatch
deriving DecidableEq

structure StreamingPatchParser where
  lineBuffer : Text := []
  mode : StreamingParserMode := .notStarted
  hunks : List Hunk := []
  environmentId : Option Text := none
  lineNumber : Nat := 0

def invalidHeaderMessage (trimmed : Text) : Text :=
  "'".toList ++ trimmed ++ ("' is not a valid hunk header. Valid hunk headers: " ++
    "'*** Add File: \x7bpath\x7d', '*** Delete File: \x7bpath\x7d', '*** Update File: \x7bpath\x7d'").toList

def unexpectedLineMessage (line : Text) : Text :=
  "Unexpected line found in update hunk: '".toList ++ line ++
    "'. Every line should start with ' ' (context line), '+' (added line), or '-' (removed line)".toList

def expectedContextMessage (line : Text) : Text :=
  "Expected update hunk to start with a @@ context marker, got: '".toList ++ line ++ "'".toList

def noLinesMessage : Text := "Update hunk does not contain any lines".toList

def lastLineMessage : Text := "The last line of the patch must be '*** End Patch'".toList

def firstLineMessage : Text := "The first line of the patch must be '*** Begin Patch'".toList

/-! ## Headers -/

namespace StreamingPatchParser

def ensureUpdateHunkIsNotEmpty (p : StreamingPatchParser) (line : Text) : Except ParseError Unit :=
  match p.hunks.getLast? with
  | some (.updateFile path _ chunks) =>
    match chunks.getLast?, p.mode with
    | none, .updateFile hunkLineNumber =>
      .error (.invalidHunkError ("Update file hunk for path '".toList ++ path ++ "' is empty".toList)
        hunkLineNumber)
    | none, _ => .ok ()
    | some chunk, _ =>
      if chunk.isEmpty then
        .error (.invalidHunkError
          (if line = endPatchMarker then noLinesMessage else unexpectedLineMessage line) p.lineNumber)
      else .ok ()
  | _ => .ok ()

def openHunk (p : StreamingPatchParser) (line : Text) (hunk : Hunk) (mode : StreamingParserMode) :
    Except ParseError (Option StreamingPatchParser) :=
  (p.ensureUpdateHunkIsNotEmpty line).map fun _ => some { p with hunks := p.hunks ++ [hunk], mode := mode }

def handleHunkHeadersAndEndPatch (p : StreamingPatchParser) (trimmed : Text) :
    Except ParseError (Option StreamingPatchParser) :=
  match if p.mode = .startedPatch then Text.stripPrefix environmentIdMarker trimmed else none with
  | some environmentId =>
    if p.environmentId.isSome then
      .error (.invalidPatchError "apply_patch environment_id cannot be specified more than once".toList)
    else if Text.trim environmentId = [] then
      .error (.invalidPatchError "apply_patch environment_id cannot be empty".toList)
    else .ok (some { p with environmentId := some (Text.trim environmentId) })
  | none =>
    if trimmed = endPatchMarker then
      (p.ensureUpdateHunkIsNotEmpty trimmed).map fun _ => some { p with mode := .endedPatch }
    else
      match Text.stripPrefix addFileMarker trimmed with
      | some path => p.openHunk trimmed (.addFile path []) .addFile
      | none =>
        match Text.stripPrefix deleteFileMarker trimmed with
        | some path => p.openHunk trimmed (.deleteFile path) .deleteFile
        | none =>
          match Text.stripPrefix updateFileMarker trimmed with
          | some path => p.openHunk trimmed (.updateFile path none []) (.updateFile p.lineNumber)
          | none => .ok none

end StreamingPatchParser

/-! ## Lines of an update -/

def changeLastChunk (chunks : List UpdateFileChunk) (f : UpdateFileChunk → UpdateFileChunk) :
    List UpdateFileChunk :=
  match chunks.getLast? with
  | some chunk => chunks.dropLast ++ [f chunk]
  | none => [f {}]

def addContext (chunks : List UpdateFileChunk) (line : Text) : List UpdateFileChunk :=
  changeLastChunk chunks fun c =>
    { c with oldLines := c.oldLines ++ [line], newLines := c.newLines ++ [line] }

def addAdded (chunks : List UpdateFileChunk) (line : Text) : List UpdateFileChunk :=
  changeLastChunk chunks fun c => { c with newLines := c.newLines ++ [line] }

def addRemoved (chunks : List UpdateFileChunk) (line : Text) : List UpdateFileChunk :=
  changeLastChunk chunks fun c => { c with oldLines := c.oldLines ++ [line] }

def isContextMarker (updateLine : Text) : Bool :=
  updateLine = emptyChangeContextMarker || changeContextMarker.isPrefixOf updateLine

def processChunkLine (lineNumber : Nat) (chunks : List UpdateFileChunk) (line : Text) :
    Except ParseError (List UpdateFileChunk) :=
  if Text.trimEnd line = eofMarker then
    if chunks.getLast?.any (·.isEmpty) then .error (.invalidHunkError noLinesMessage lineNumber)
    -- without a chunk there is nothing to flag
    else if chunks.isEmpty then .ok chunks
    else .ok (changeLastChunk chunks fun c => { c with isEndOfFile := true })
  else
    match line with
    | [] => .ok (addContext chunks [])
    | ' ' :: rest => .ok (addContext chunks rest)
    | '+' :: rest => .ok (addAdded chunks rest)
    | '-' :: rest => .ok (addRemoved chunks rest)
    | _ =>
      if chunks.getLast?.any (fun c => !c.isEmpty) then
        .error (.invalidHunkError (expectedContextMessage line) lineNumber)
      else .error (.invalidHunkError (unexpectedLineMessage line) lineNumber)

def processUpdateLine (lineNumber : Nat) (movePath : Option Text) (chunks : List UpdateFileChunk)
    (line : Text) : Except ParseError (Option Text × List UpdateFileChunk) :=
  let updateLine := Text.trimEnd line
  let closed := chunks.getLast?.any (·.isEndOfFile)
  if closed && updateLine.isEmpty then .ok (movePath, chunks)
  else if closed && !isContextMarker updateLine then
    .error (.invalidHunkError (expectedContextMessage line) lineNumber)
  else
    match if chunks.isEmpty && movePath.isNone then Text.stripPrefix moveToMarker updateLine else none with
    | some moveToPath => .ok (some moveToPath, chunks)
    | none =>
      if isContextMarker updateLine && chunks.getLast?.any (·.isEmpty) then
        .error (.invalidHunkError (unexpectedLineMessage line) lineNumber)
      else if updateLine = emptyChangeContextMarker then .ok (movePath, chunks ++ [{}])
      else
        match Text.stripPrefix changeContextMarker updateLine with
        | some context => .ok (movePath, chunks ++ [{ changeContext := some context }])
        | none => (processChunkLine lineNumber chunks line).map fun chunks => (movePath, chunks)

namespace StreamingPatchParser

def setLastHunk (p : StreamingPatchParser) (hunk : Hunk) : StreamingPatchParser :=
  { p with hunks := p.hunks.dropLast ++ [hunk] }

def invalidHeader (p : StreamingPatchParser) (trimmed : Text) : Except ParseError StreamingPatchParser :=
  .error (.invalidHunkError (invalidHeaderMessage trimmed) p.lineNumber)

def headerOr (p : StreamingPatchParser) (trimmed : Text)
    (other : Except ParseError StreamingPatchParser) : Except ParseError StreamingPatchParser :=
  (p.handleHunkHeadersAndEndPatch trimmed).bind fun
    | some p' => .ok p'
    | none => other

def processLine (p : StreamingPatchParser) (line : Text) : Except ParseError StreamingPatchParser :=
  let trimmed := Text.trim line
  match p.mode with
  | .notStarted =>
    if trimmed = beginPatchMarker then .ok { p with mode := .startedPatch }
    else .error (.invalidPatchError firstLineMessage)
  | .startedPatch => p.headerOr trimmed (p.invalidHeader trimmed)
  | .addFile => p.headerOr trimmed <|
    match line, p.hunks.getLast? with
    | '+' :: lineToAdd, some (.addFile path contents) =>
      .ok (p.setLastHunk (.addFile path (contents ++ lineToAdd ++ ['\n'])))
    | _, _ => p.invalidHeader trimmed
  | .deleteFile => p.headerOr trimmed (p.invalidHeader trimmed)
  | .updateFile _ => p.headerOr (Text.trimEnd line) <|
    match p.hunks.getLast? with
    | some (.updateFile path movePath chunks) =>
      (processUpdateLine p.lineNumber movePath chunks line).map fun r =>
        p.setLastHunk (.updateFile path r.1 r.2)
    | _ => .error (.invalidHunkError (unexpectedLineMessage line) p.lineNumber)
  | .endedPatch =>
    if trimmed = [] then .ok p else .error (.invalidPatchError lastLineMessage)

def pushChar (p : StreamingPatchParser) (c : Char) : Except ParseError StreamingPatchParser :=
  if c = '\n' then
    processLine { p with lineBuffer := [], lineNumber := p.lineNumber + 1 } (Text.stripCr p.lineBuffer)
  else .ok { p with lineBuffer := p.lineBuffer ++ [c] }

def pushDelta (p : StreamingPatchParser) (delta : Text) : Except ParseError StreamingPatchParser :=
  delta.foldlM pushChar p

def finish (p : StreamingPatchParser) : Except ParseError StreamingPatchParser :=
  let flushed : Except ParseError StreamingPatchParser :=
    if p.lineBuffer = [] then .ok p
    else
      let p' := { p with lineBuffer := [], lineNumber := p.lineNumber + 1 }
      if Text.trim p.lineBuffer = endPatchMarker then
        (p'.ensureUpdateHunkIsNotEmpty (Text.trim p.lineBuffer)).map fun _ => { p' with mode := .endedPatch }
      else p'.processLine p.lineBuffer
  flushed.bind fun p =>
    if p.mode = .endedPatch then .ok p else .error (.invalidPatchError lastLineMessage)

end StreamingPatchParser

/-! ## Sections -/

/-- The part of a patch that a line stands in, read off the headers before it. -/
inductive Section where
  | begins
  | headers
  | add
  | update
  | ended
deriving DecidableEq

namespace Section

/-- The text of a line that is compared with the headers.  In an update a header is not indented. -/
def header : Section → Text → Text
  | .update, line => Text.trimEnd line
  | _, line => Text.trim line

/-- The section behind a header. -/
def headed (header : Text) : Option Section :=
  if header = endPatchMarker then some .ended
  else if (Text.stripPrefix addFileMarker header).isSome then some .add
  else if (Text.stripPrefix deleteFileMarker header).isSome then some .headers
  else if (Text.stripPrefix updateFileMarker header).isSome then some .update
  else none

/-- The section behind a line. -/
def next (s : Section) (line : Text) : Section :=
  match s with
  | .begins => .headers
  | .ended => .ended
  | s => (headed (s.header line)).getD s

end Section

namespace StreamingPatchParser

def sectionOf : StreamingParserMode → Section
  | .notStarted => .begins
  | .startedPatch => .headers
  | .addFile => .add
  | .deleteFile => .headers
  | .updateFile _ => .update
  | .endedPatch => .ended

end StreamingPatchParser

/-! ## Growth -/

structure ChunkGrows (c c' : UpdateFileChunk) : Prop where
  context : c'.changeContext = c.changeContext
  old : c.oldLines <+: c'.oldLines
  new : c.newLines <+: c'.newLines
  closed : c.isEndOfFile = true → c' = c

theorem ChunkGrows.refl (c : UpdateFileChunk) : ChunkGrows c c :=
  ⟨rfl, prefix_rfl, prefix_rfl, fun _ => rfl⟩

theorem ChunkGrows.trans (a b c : UpdateFileChunk) (hab : ChunkGrows a b) (hbc : ChunkGrows b c) :
    ChunkGrows a c where
  context := hbc.context.trans hab.context
  old := hab.old.trans hbc.old
  new := hab.new.trans hbc.new
  closed h := by
    obtain rfl := hab.closed h
    exact hbc.closed h

/-- A hunk keeps its kind and path.  Contents get longer, a move target may be added, and
chunks grow at their end. -/
inductive HunkGrows : Hunk → Hunk → Prop
  | addFile {path contents contents' : Text} (h : contents <+: contents') :
      HunkGrows (.addFile path contents) (.addFile path contents')
  | deleteFile {path : Text} : HunkGrows (.deleteFile path) (.deleteFile path)
  | updateFile {path : Text} {movePath movePath' : Option Text} {chunks chunks' : List UpdateFileChunk}
      (hmove : movePath = none ∨ movePath' = movePath) (hchunks : Grows ChunkGrows chunks chunks') :
      HunkGrows (.updateFile path movePath chunks) (.updateFile path movePath' chunks')

theorem HunkGrows.refl (h : Hunk) : HunkGrows h h := by
  cases h with
  | addFile path contents => exact .addFile prefix_rfl
  | deleteFile path => exact .deleteFile
  | updateFile path mv chunks => exact .updateFile (.inr rfl) (.refl ChunkGrows.refl chunks)

theorem HunkGrows.trans (a b c : Hunk) (hab : HunkGrows a b) (hbc : HunkGrows b c) : HunkGrows a c := by
  cases hab with
  | addFile h =>
    cases hbc with
    | addFile h' => exact .addFile (h.trans h')
  | deleteFile => exact hbc
  | updateFile hm hc =>
    cases hbc with
    | updateFile hm' hc' =>
      refine .updateFile ?_ (hc.trans ChunkGrows.trans hc')
      rcases hm with hm | hm
      · exact .inl hm
      · rwa [hm] at hm'

theorem changeLastChunk_grows (chunks : List UpdateFileChunk) (f : UpdateFileChunk → UpdateFileChunk)
    (h : ∀ c ∈ chunks.getLast?, ChunkGrows c (f c)) :
    Grows ChunkGrows chunks (changeLastChunk chunks f) := by
  unfold changeLastChunk
  rcases eq_nil_or_concat chunks with rfl | ⟨init, c, rfl⟩
  · exact .nil _
  · rw [concat_eq_append] at h ⊢
    rw [getLast?_concat, dropLast_concat]
    exact .last init (h c (by simp))

variable {line : Text} {chunks chunks' : List UpdateFileChunk}

theorem processChunkLine_grows {n : Nat} (hopen : chunks.getLast?.any (·.isEndOfFile) = false)
    (h : processChunkLine n chunks line = .ok chunks') : Grows ChunkGrows chunks chunks' := by
  have change : ∀ f : UpdateFileChunk → UpdateFileChunk, (∀ c, (f c).changeContext = c.changeContext ∧
      c.oldLines <+: (f c).oldLines ∧ c.newLines <+: (f c).newLines) →
      Grows ChunkGrows chunks (changeLastChunk chunks f) := by
    intro f hf
    refine changeLastChunk_grows chunks f fun c hc => ⟨(hf c).1, (hf c).2.1, (hf c).2.2, fun hflag => ?_⟩
    rw [Option.mem_def.mp hc, Option.any_some, hflag] at hopen
    cases hopen
  unfold processChunkLine at h
  split at h
  · split at h
    · cases h
    · split at h
      · cases h
        exact .refl ChunkGrows.refl _
      · cases h
        exact change _ fun c => ⟨rfl, prefix_rfl, prefix_rfl⟩
  · split at h
    · cases h
      exact change _ fun c => ⟨rfl, prefix_append _ _, prefix_append _ _⟩
    · cases h
      exact change _ fun c => ⟨rfl, prefix_append _ _, prefix_append _ _⟩
    · cases h
      exact change _ fun c => ⟨rfl, prefix_rfl, prefix_append _ _⟩
    · cases h
      exact change _ fun c => ⟨rfl, prefix_append _ _, prefix_rfl⟩
    · split at h <;> cases h

theorem isContextMarker_eq_false (hne : line ≠ emptyChangeContextMarker)
    (h : Text.stripPrefix changeContextMarker line = none) : isContextMarker line = false := by
  unfold Text.stripPrefix at h
  split at h
  · cases h
  · next hp => simp [isContextMarker, hne, hp]

theorem processUpdateLine_grows {n : Nat} {mv movePath' : Option Text}
    (h : processUpdateLine n mv chunks line = .ok (movePath', chunks')) :
    (mv = none ∨ movePath' = mv) ∧ Grows ChunkGrows chunks chunks' := by
  unfold processUpdateLine at h
  dsimp only at h
  split at h
  · cases h
    exact ⟨.inr rfl, .refl ChunkGrows.refl _⟩
  split at h
  · cases h
  next hmk =>
  split at h
  · next target hmv =>
    cases h
    refine ⟨.inl ?_, .refl ChunkGrows.refl _⟩
    split at hmv
    · next hc => simpa using (Bool.and_eq_true_iff.mp hc).2
    · cases hmv
  split at h
  · cases h
  split at h
  · cases h
    exact ⟨.inr rfl, .append ChunkGrows.refl _ _⟩
  next hnil =>
  split at h
  · cases h
    exact ⟨.inr rfl, .append ChunkGrows.refl _ _⟩
  next hctx =>
  -- not a context marker, so the last chunk is not closed
  obtain ⟨cs, hcs, heq⟩ := map_eq_ok h
  cases heq
  have hopen : chunks.getLast?.any (·.isEndOfFile) = false := by
    rw [isContextMarker_eq_false hnil hctx] at hmk
    simpa using hmk
  exact ⟨.inr rfl, processChunkLine_grows hopen hcs⟩

namespace StreamingPatchParser

/-- What a line does: hunks grow, and the parser comes to the next section. -/
structure Follows (p p' : StreamingPatchParser) (next : Section) : Prop where
  hunks : Grows HunkGrows p.hunks p'.hunks
  lineBuffer : p'.lineBuffer = p.lineBuffer
  stands : sectionOf p'.mode = next

variable {p p' : StreamingPatchParser} {r : Option StreamingPatchParser} {trimmed : Text}

theorem openHunk_follows {hunk : Hunk} {mode : StreamingParserMode} (h : p.openHunk line hunk mode = .ok r) :
    Follows p (r.getD p) (sectionOf mode) := by
  obtain ⟨_, -, rfl⟩ := map_eq_ok h
  exact ⟨.append HunkGrows.refl _ _, rfl, rfl⟩

theorem handleHunkHeadersAndEndPatch_follows (h : p.handleHunkHeadersAndEndPatch trimmed = .ok r) :
    Follows p (r.getD p) ((Section.headed trimmed).getD (sectionOf p.mode)) := by
  unfold handleHunkHeadersAndEndPatch at h
  split at h
  · next environmentId henv =>
    split at henv
    · obtain ⟨t, rfl⟩ := Text.exists_of_stripPrefix henv
      split at h
      · cases h
      · split at h
        · cases h
        · cases h
          exact ⟨.refl HunkGrows.refl _, rfl, rfl⟩
    · cases henv
  · unfold Section.headed
    split at h
    · next hend =>
      obtain ⟨_, -, rfl⟩ := map_eq_ok h
      rw [if_pos hend]
      exact ⟨.refl HunkGrows.refl _, rfl, rfl⟩
    · next hend =>
      rw [if_neg hend]
      split at h
      · next path hadd =>
        rw [hadd]
        exact openHunk_follows h
      · next hadd =>
        rw [hadd]
        split at h
        · next path hdelete =>
          rw [hdelete]
          exact openHunk_follows h
        · next hdelete =>
          rw [hdelete]
          split at h
          · next path hupdate =>
            rw [hupdate]
            exact openHunk_follows h
          · next hupdate =>
            cases h
            rw [hupdate]
            exact ⟨.refl HunkGrows.refl _, rfl, rfl⟩

theorem headerOr_follows {other : Except ParseError StreamingPatchParser} (h : p.headerOr trimmed other = .ok p')
    (hoth : ∀ q, other = .ok q → Follows p q (sectionOf p.mode)) :
    Follows p p' ((Section.headed trimmed).getD (sectionOf p.mode)) := by
  obtain ⟨o, ho, h⟩ := bind_eq_ok h
  have hhandle := handleHunkHeadersAndEndPatch_follows ho
  cases o with
  | some q =>
    cases h
    exact hhandle
  | none =>
    rw [← hhandle.stands]
    exact hoth p' h

theorem setLastHunk_follows {hunk hunk' : Hunk} (hl : p.hunks.getLast? = some hunk) (h : HunkGrows hunk hunk') :
    Follows p (p.setLastHunk hunk') (sectionOf p.mode) := by
  obtain ⟨init, hinit⟩ := getLast?_eq_some_iff.mp hl
  refine ⟨?_, rfl, rfl⟩
  rw [setLastHunk, hinit, dropLast_concat]
  exact .last init h

/-- **A line only extends the last hunk or opens new ones**, and the parser is in the section that
the headers say. -/
theorem processLine_follows (h : p.processLine line = .ok p') : Follows p p' ((sectionOf p.mode).next line) := by
  unfold processLine at h
  dsimp only at h
  split at h
  · next hmode =>
    rw [hmode]
    split at h
    · cases h
      exact ⟨.refl HunkGrows.refl _, rfl, rfl⟩
    · cases h
  · next hmode =>
    have hf := headerOr_follows h fun q hq => by cases hq
    rw [hmode] at hf ⊢
    exact hf
  · next hmode =>
    have hf := headerOr_follows h fun q hq => by
      split at hq
      · next hl =>
        cases hq
        refine setLastHunk_follows hl (.addFile ?_)
        rw [append_assoc]
        exact prefix_append _ _
      · cases hq
    rw [hmode] at hf ⊢
    exact hf
  · next hmode =>
    have hf := headerOr_follows h fun q hq => by cases hq
    rw [hmode] at hf ⊢
    exact hf
  · next hmode =>
    have hf := headerOr_follows h fun q hq => by
      split at hq
      · next hl =>
        obtain ⟨r, hr, rfl⟩ := map_eq_ok hq
        obtain ⟨hmv, hchs⟩ := processUpdateLine_grows hr
        exact setLastHunk_follows hl (.updateFile hmv hchs)
      · cases hq
    rw [hmode] at hf ⊢
    exact hf
  · next hmode =>
    split at h
    · cases h
      rw [hmode]
      exact ⟨.refl HunkGrows.refl _, rfl, by rw [hmode]; rfl⟩
    · cases h

theorem pushDelta_grows {delta : Text} (h : p.pushDelta delta = .ok p') : Grows HunkGrows p.hunks p'.hunks := by
  refine foldlM_invariant (fun _ q => Grows HunkGrows p.hunks q.hunks) delta ?_
    (.refl HunkGrows.refl _) h
  intro done c todo q q' _ hq hc
  refine hq.trans HunkGrows.trans ?_
  unfold pushChar at hc
  split at hc
  · have hl := (processLine_follows hc).hunks
    exact hl
  · cases hc
    exact .refl HunkGrows.refl _

/-! ## Whole lines -/

def nextLine (p : StreamingPatchParser) : StreamingPatchParser := { p with lineNumber := p.lineNumber + 1 }

def readLine (p : StreamingPatchParser) (l : Text) : Except ParseError StreamingPatchParser :=
  p.nextLine.processLine (Text.stripCr l)

theorem readLine_follows {l : Text} (h : p.readLine l = .ok p') :
    Follows p p' ((sectionOf p.mode).next (Text.stripCr l)) :=
  have hl := processLine_follows h
  ⟨hl.hunks, hl.lineBuffer, hl.stands⟩

theorem pushDelta_chars (p : StreamingPatchParser) (t : Text) (h : '\n' ∉ t) :
    p.pushDelta t = .ok { p with lineBuffer := p.lineBuffer ++ t } := by
  induction t generalizing p with
  | nil => simp [pushDelta, pure, Except.pure]
  | cons c t ih =>
    have hc : c ≠ '\n' := fun hc => h (hc ▸ mem_cons_self)
    rw [pushDelta, foldlM_cons, pushChar, if_neg hc]
    have ht := ih { p with lineBuffer := p.lineBuffer ++ [c] } fun hm => h (mem_cons_of_mem _ hm)
    rw [append_assoc] at ht
    exact ht

theorem pushDelta_append (p : StreamingPatchParser) (s t : Text) :
    p.pushDelta (s ++ t) = (p.pushDelta s).bind fun q => q.pushDelta t := foldlM_append

theorem pushChar_newline (hp : p.lineBuffer = []) (l : Text) :
    pushChar { p with lineBuffer := l } '\n' = p.readLine l := by
  rw [pushChar, if_pos rfl, readLine, nextLine, ← hp]

theorem pushDelta_lines (ls : List Text) (hls : ∀ l ∈ ls, '\n' ∉ l) (last : Text) (hl : '\n' ∉ last)
    (p : StreamingPatchParser) (hp : p.lineBuffer = []) :
    p.pushDelta (ls.flatMap (· ++ ['\n']) ++ last) =
      (ls.foldlM readLine p).map fun q => { q with lineBuffer := last } := by
  induction ls generalizing p with
  | nil =>
    rw [flatMap_nil, nil_append, pushDelta_chars p last hl, hp]
    rfl
  | cons l ls ih =>
    rw [forall_mem_cons] at hls
    rw [flatMap_cons, append_assoc, append_assoc, pushDelta_append, pushDelta_chars p l hls.1, hp,
      nil_append, foldlM_cons]
    show (pushChar _ '\n').bind _ = _
    rw [pushChar_newline hp]
    cases hread : p.readLine l with
    | error e => rfl
    | ok q => exact ih hls.2 q ((readLine_follows hread).lineBuffer.trans hp)

def parseDeltas (deltas : List Text) : Except ParseError (List Hunk × Option Text) :=
  (deltas.foldlM pushDelta {}).bind fun p => p.finish.map fun p => (p.hunks, p.environmentId)

theorem foldlM_pushDelta (deltas : List Text) (p : StreamingPatchParser) :
    deltas.foldlM pushDelta p = p.pushDelta deltas.flatten := by
  induction deltas generalizing p with
  | nil => rfl
  | cons d ds ih =>
    rw [foldlM_cons, flatten_cons, pushDelta, pushDelta, foldlM_append]
    congr 1
    funext q
    exact ih q

/-- **Chunking does not matter, and the hunks only grow.**  Two ways of cutting a text give the
same hunks and environment id, or the same first error.  From one successful push to the next
the earlier hunks stay, the last one is extended and new ones come behind it. -/
theorem parseDeltas_chunking : (∀ deltas deltas' : List Text, deltas.flatten = deltas'.flatten →
      parseDeltas deltas = parseDeltas deltas') ∧
    ∀ (p p' p'' : StreamingPatchParser) (delta delta' : Text), p.pushDelta delta = .ok p' →
      p'.pushDelta delta' = .ok p'' → Grows HunkGrows p'.hunks p''.hunks := by
  constructor
  · intro deltas deltas' h
    rw [parseDeltas, parseDeltas, foldlM_pushDelta, foldlM_pushDelta, h]
  · intro p p' p'' delta delta' _ h'
    exact pushDelta_grows h'

theorem parseDeltas_chunking_insideLines :
    parseDeltas ["*** Begin Patch\r".toList, "\n*** Add File: a\n+x".toList, "y\n*** End Patch".toList] =
        parseDeltas ["*** Begin Patch\r\n*** Add File: a\n+xy\n*** End Patch".toList] ∧
      parseDeltas ["*** Begin Patch\r\n*** Add File: a\n+xy\n*** End Patch".toList] =
        .ok ([.addFile "a".toList "xy\n".toList], none) :=
  ⟨parseDeltas_chunking.1 _ _ (by decide), by decide⟩

end StreamingPatchParser

end ApplyPatch
