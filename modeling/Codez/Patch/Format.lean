import Codez.Patch.StreamingParser

/-!
`parse_patch` (`apply-patch/src/parser.rs`) and the format its module doc describes.

`PatchDoc` is a patch as the grammar has it: hunks whose chunks are lines with a sign.
-/

namespace ApplyPatch

open Fallible StreamingPatchParser List

structure ApplyPatchArgs where
  patch : Text
  hunks : List Hunk
  workdir : Option Text := none
  environmentId : Option Text
deriving DecidableEq

inductive ParseMode where
  | strict
  | lenient

def checkStartAndEndLinesStrict (firstLine lastLine : Option Text) : Except ParseError Unit :=
  match firstLine.map Text.trim with
  | some first =>
    if first = beginPatchMarker ∧ lastLine.map Text.trim = some endPatchMarker then .ok ()
    else if first ≠ beginPatchMarker then .error (.invalidPatchError firstLineMessage)
    else .error (.invalidPatchError lastLineMessage)
  | none => .error (.invalidPatchError lastLineMessage)

def checkPatchBoundariesStrict (lines : List Text) : Except ParseError (List Text) :=
  (checkStartAndEndLinesStrict lines.head? lines.getLast?).map fun _ => lines

def heredocStarts : List Text := ["<<EOF".toList, "<<'EOF'".toList, "<<\"EOF\"".toList]

def checkPatchBoundariesLenient (originalLines : List Text) : Except ParseError (List Text) :=
  match checkPatchBoundariesStrict originalLines with
  | .ok lines => .ok lines
  | .error originalParseError =>
    match originalLines.head?, originalLines.getLast? with
    | some first, some last =>
      if first ∈ heredocStarts ∧ "EOF".toList <:+ last ∧ 4 ≤ originalLines.length then
        checkPatchBoundariesStrict originalLines.tail.dropLast
      else .error originalParseError
    | _, _ => .error originalParseError

def parsePatchText (patch : Text) (mode : ParseMode) : Except ParseError ApplyPatchArgs := do
  let lines := Text.lines (Text.trim patch)
  let patchLines ← match mode with
    | .strict => checkPatchBoundariesStrict lines
    | .lenient => checkPatchBoundariesLenient lines
  let patch := Text.joinLines patchLines
  let parser ← pushDelta {} patch
  let parser ← parser.finish
  return { patch := patch, hunks := parser.hunks, environmentId := parser.environmentId }

def parsePatch (patch : Text) : Except ParseError ApplyPatchArgs := parsePatchText patch .lenient

/-! ## The documented format -/

inductive ChunkLine where
  | context (line : Text)
  | removed (line : Text)
  | added (line : Text)

structure ChunkDoc where
  context : Option Text
  lines : List ChunkLine
  endOfFile : Bool

inductive HunkDoc where
  | addFile (path : Text) (lines : List Text)
  | deleteFile (path : Text)
  | updateFile (path : Text) (moveTo : Option Text) (chunks : List ChunkDoc)

structure PatchDoc where
  environmentId : Option Text
  hunks : List HunkDoc

def ChunkLine.text : ChunkLine → Text
  | .context t => t
  | .removed t => t
  | .added t => t

def ChunkLine.render : ChunkLine → Text
  | .context t => ' ' :: t
  | .removed t => '-' :: t
  | .added t => '+' :: t

def ChunkDoc.header (c : ChunkDoc) : Text :=
  match c.context with
  | none => emptyChangeContextMarker
  | some context => changeContextMarker ++ context

def ChunkDoc.render (c : ChunkDoc) : List Text :=
  c.header :: c.lines.map ChunkLine.render ++ if c.endOfFile then [eofMarker] else []

def HunkDoc.render : HunkDoc → List Text
  | .addFile path lines => (addFileMarker ++ path) :: lines.map ('+' :: ·)
  | .deleteFile path => [deleteFileMarker ++ path]
  | .updateFile path moveTo chunks =>
    (updateFileMarker ++ path) :: moveTo.toList.map (moveToMarker ++ ·) ++ chunks.flatMap ChunkDoc.render

def PatchDoc.body (d : PatchDoc) : List Text :=
  d.environmentId.toList.map (environmentIdMarker ++ ' ' :: ·) ++ d.hunks.flatMap HunkDoc.render

def PatchDoc.render (d : PatchDoc) (finalLf : Bool) : Text :=
  Text.joinLines (beginPatchMarker :: d.body ++ [endPatchMarker]) ++ if finalLf then ['\n'] else []

def UpdateFileChunk.push (c : UpdateFileChunk) : ChunkLine → UpdateFileChunk
  | .context t => { c with oldLines := c.oldLines ++ [t], newLines := c.newLines ++ [t] }
  | .removed t => { c with oldLines := c.oldLines ++ [t] }
  | .added t => { c with newLines := c.newLines ++ [t] }

def ChunkDoc.toChunk (c : ChunkDoc) : UpdateFileChunk where
  changeContext := c.context
  oldLines := c.lines.filterMap fun
    | .context t => some t
    | .removed t => some t
    | .added _ => none
  newLines := c.lines.filterMap fun
    | .context t => some t
    | .removed _ => none
    | .added t => some t
  isEndOfFile := c.endOfFile

def HunkDoc.toHunk : HunkDoc → Hunk
  | .addFile path lines => .addFile path (lines.flatMap (· ++ ['\n']))
  | .deleteFile path => .deleteFile path
  | .updateFile path moveTo chunks => .updateFile path moveTo (chunks.map ChunkDoc.toChunk)

structure GoodName (t : Text) : Prop where
  tight : Text.Tight t
  oneLine : '\n' ∉ t

structure GoodLine (t : Text) : Prop where
  oneLine : '\n' ∉ t
  noCr : t.getLast? ≠ some '\r'

structure GoodContext (t : Text) : Prop where
  last : ∃ s c, t = s ++ [c] ∧ Text.isWhitespace c = false
  oneLine : '\n' ∉ t

structure ChunkDoc.Good (c : ChunkDoc) : Prop where
  context : ∀ t, c.context = some t → GoodContext t
  lines : ∀ l ∈ c.lines, GoodLine l.text
  nonEmpty : c.lines ≠ []

def HunkDoc.Good : HunkDoc → Prop
  | .addFile path lines => GoodName path ∧ ∀ l ∈ lines, GoodLine l
  | .deleteFile path => GoodName path
  | .updateFile path moveTo chunks =>
    GoodName path ∧ (∀ t, moveTo = some t → GoodName t) ∧ chunks ≠ [] ∧ ∀ c ∈ chunks, c.Good

structure PatchDoc.Good (d : PatchDoc) : Prop where
  environmentId : ∀ t, d.environmentId = some t → GoodName t
  hunks : ∀ h ∈ d.hunks, h.Good

variable {t l : Text} {p p' : StreamingPatchParser}

theorem GoodName.goodLine (h : GoodName t) : GoodLine t := by
  refine ⟨h.oneLine, fun hcr => ?_⟩
  obtain ⟨s, c, rfl, hc⟩ := h.tight.last
  rw [getLast?_concat] at hcr
  cases hcr
  exact absurd hc (by decide)

theorem GoodLine.append {s : Text} (ht : GoodLine t) (hs : GoodLine s) : GoodLine (s ++ t) := by
  refine ⟨by simp [hs.oneLine, ht.oneLine], ?_⟩
  rw [getLast?_append]
  cases hl : t.getLast? with
  | none => simpa using hs.noCr
  | some c => simpa [hl] using ht.noCr

def Reads (p : StreamingPatchParser) (ls : List Text) (p' : StreamingPatchParser) : Prop :=
  (∀ l ∈ ls, GoodLine l) ∧ ls.foldlM readLine p = .ok p'

theorem Reads.nil (p : StreamingPatchParser) : Reads p [] p := ⟨by simp, rfl⟩

theorem Reads.append {p q r : StreamingPatchParser} {ls ls' : List Text} (h : Reads p ls q)
    (h' : Reads q ls' r) : Reads p (ls ++ ls') r := by
  refine ⟨forall_mem_append.mpr ⟨h.1, h'.1⟩, ?_⟩
  rw [foldlM_append, h.2]
  exact h'.2

open Text

theorem Reads.line (hl : GoodLine l) (h : (nextLine p).processLine l = .ok p') :
    Reads p [l] p' := by
  have hstrip : stripCr l = l := by simp [stripCr, hl.noCr]
  refine ⟨by simpa using hl, ?_⟩
  rw [foldlM_cons, readLine, hstrip, h]
  rfl

/-! ## Headers -/

def Closed (hunks : List Hunk) : Prop :=
  ∀ path movePath chunks, hunks.getLast? = some (.updateFile path movePath chunks) →
    ∃ c, chunks.getLast? = some c ∧ c.isEmpty = false

theorem Closed.ensure (h : Closed p.hunks) (line : Text) :
    p.ensureUpdateHunkIsNotEmpty line = .ok () := by
  unfold ensureUpdateHunkIsNotEmpty
  split
  · next path movePath chunks hl =>
    obtain ⟨c, hc, hne⟩ := h path movePath chunks hl
    rw [hc]
    simp [hne]
  · rfl

theorem handle_eq (p : StreamingPatchParser)
    (henv : p.mode = .startedPatch → stripPrefix environmentIdMarker t = none) :
    p.handleHunkHeadersAndEndPatch t =
      if t = endPatchMarker then (p.ensureUpdateHunkIsNotEmpty t).map fun _ => some { p with mode := .endedPatch }
      else match stripPrefix addFileMarker t with
        | some path => p.openHunk t (.addFile path []) .addFile
        | none =>
          match stripPrefix deleteFileMarker t with
          | some path => p.openHunk t (.deleteFile path) .deleteFile
          | none =>
            match stripPrefix updateFileMarker t with
            | some path => p.openHunk t (.updateFile path none []) (.updateFile p.lineNumber)
            | none => .ok none := by
  have hnone : (if p.mode = .startedPatch then stripPrefix environmentIdMarker t else none) = none := by
    split
    · next hmode => exact henv hmode
    · rfl
  unfold handleHunkHeadersAndEndPatch
  generalize (if p.mode = .startedPatch then stripPrefix environmentIdMarker t else none) = id at hnone ⊢
  subst hnone
  rfl

theorem handle_eq_none (p : StreamingPatchParser) (t : Text) (h : t.head? ≠ some '*') :
    p.handleHunkHeadersAndEndPatch t = .ok none := by
  have hend : t ≠ endPatchMarker := by
    rintro rfl
    exact h rfl
  have hadd : stripPrefix addFileMarker t = none := stripPrefix_eq_none h
  have hdel : stripPrefix deleteFileMarker t = none := stripPrefix_eq_none h
  have hupd : stripPrefix updateFileMarker t = none := stripPrefix_eq_none h
  rw [handle_eq p fun _ => stripPrefix_eq_none h, if_neg hend, hadd, hdel, hupd]

theorem ne_endPatchMarker {m path : Text} (hm : stripPrefix m endPatchMarker = none) :
    m ++ path ≠ endPatchMarker := by
  intro h
  rw [← h, stripPrefix_append] at hm
  cases hm

theorem openHunk_closed (hp : Closed p.hunks) (line : Text) (hunk : Hunk)
    (mode : StreamingParserMode) :
    p.openHunk line hunk mode = .ok (some { p with hunks := p.hunks ++ [hunk], mode := mode }) := by
  rw [openHunk, hp.ensure]
  rfl

theorem handle_addFile (hp : Closed p.hunks) (path : Text) :
    p.handleHunkHeadersAndEndPatch (addFileMarker ++ path) =
      .ok (some { p with hunks := p.hunks ++ [.addFile path []], mode := .addFile }) := by
  rw [handle_eq p (fun _ => rfl), if_neg (ne_endPatchMarker (by decide)), stripPrefix_append]
  exact openHunk_closed hp _ _ _

theorem handle_deleteFile (hp : Closed p.hunks) (path : Text) :
    p.handleHunkHeadersAndEndPatch (deleteFileMarker ++ path) =
      .ok (some { p with hunks := p.hunks ++ [.deleteFile path], mode := .deleteFile }) := by
  have hadd : stripPrefix addFileMarker (deleteFileMarker ++ path) = none := rfl
  rw [handle_eq p (fun _ => rfl), if_neg (ne_endPatchMarker (by decide)), hadd, stripPrefix_append]
  exact openHunk_closed hp _ _ _

theorem handle_updateFile (hp : Closed p.hunks) (path : Text) :
    p.handleHunkHeadersAndEndPatch (updateFileMarker ++ path) =
      .ok (some { p with hunks := p.hunks ++ [.updateFile path none []],
                         mode := .updateFile p.lineNumber }) := by
  have hadd : stripPrefix addFileMarker (updateFileMarker ++ path) = none := rfl
  have hdel : stripPrefix deleteFileMarker (updateFileMarker ++ path) = none := rfl
  rw [handle_eq p (fun _ => rfl), if_neg (ne_endPatchMarker (by decide)), hadd, hdel, stripPrefix_append]
  exact openHunk_closed hp _ _ _

structure Ready (p : StreamingPatchParser) (done : List Hunk) (env : Option Text) : Prop where
  hunks : p.hunks = done
  environmentId : p.environmentId = env
  started : p.mode ≠ .notStarted ∧ p.mode ≠ .endedPatch
  closed : Closed done

theorem processLine_header (hmode : p.mode ≠ .notStarted ∧ p.mode ≠ .endedPatch)
    (h : p.handleHunkHeadersAndEndPatch ((sectionOf p.mode).header l) = .ok (some p')) : p.processLine l = .ok p' := by
  have hheader : ∀ other, p.headerOr ((sectionOf p.mode).header l) other = .ok p' := by
    intro other
    rw [headerOr, h]
    rfl
  unfold processLine
  cases hm : p.mode with
  | notStarted => exact absurd hm hmode.1
  | endedPatch => exact absurd hm hmode.2
  | _ =>
    rw [hm] at hheader
    exact hheader _

theorem header_of_tight (hl : Text.Tight l) (s : Section) : s.header l = l := by
  cases s <;> simp only [Section.header, hl.trim_eq, hl.trimEnd_eq]

/-! ## Lines of an update -/

theorem head?_trimEnd (l : Text) : (trimEnd l).head? = none ∨ (trimEnd l).head? = l.head? := by
  obtain ⟨w, hw⟩ := trimEnd_isPrefix l
  cases ht : trimEnd l with
  | nil => exact .inl rfl
  | cons c t =>
    rw [ht] at hw
    rw [← hw]
    exact .inr rfl

theorem head?_trimEnd_ne {c : Char} (h : l.head? ≠ some c) : (trimEnd l).head? ≠ some c := by
  rcases head?_trimEnd l with hl | hl <;> rw [hl]
  · nofun
  · exact h

theorem isContextMarker_of_head? (h : l.head? ≠ some '@') : isContextMarker l = false := by
  refine isContextMarker_eq_false ?_ (stripPrefix_eq_none h)
  rintro rfl
  exact h rfl

theorem processUpdateLine_moveTo (n : Nat) (ht : Text.Tight t) :
    processUpdateLine n none [] (moveToMarker ++ t) = .ok (some t, []) := by
  have htrim : trimEnd (moveToMarker ++ t) = moveToMarker ++ t :=
    (Text.Tight.append ⟨'*', _, rfl, by decide⟩ ht).trimEnd_eq
  simp only [processUpdateLine, htrim, getLast?_nil, Option.any_none, Bool.false_and, Bool.false_eq_true,
    if_false, isEmpty_nil, Option.isNone_none, Bool.and_self, if_true, stripPrefix_append]

open ChunkDoc

theorem processUpdateLine_header (n : Nat) (movePath : Option Text) (chunks : List UpdateFileChunk)
    (hlast : ∀ c ∈ chunks.getLast?, c.isEmpty = false) (c : ChunkDoc)
    (hc : ∀ t, c.context = some t → GoodContext t) :
    processUpdateLine n movePath chunks c.header =
      .ok (movePath, chunks ++ [{ changeContext := c.context }]) := by
  have htrim : trimEnd c.header = c.header := by
    cases hctx : c.context with
    | none => simp only [header, hctx]; decide
    | some t =>
      obtain ⟨s, x, hs, hx⟩ := (hc t hctx).last
      refine trimEnd_concat (t := changeContextMarker ++ s) ?_ hx
      simp [header, hctx, hs]
  have hmk : isContextMarker c.header = true := by
    cases hctx : c.context with
    | none => simp only [header, hctx]; decide
    | some t =>
      simp only [isContextMarker, header, hctx, Bool.or_eq_true]
      exact .inr (List.isPrefixOf_iff_prefix.mpr (prefix_append _ _))
  have hat : c.header.head? = some '@' := by
    cases hctx : c.context <;> simp only [header, hctx] <;> rfl
  have hmv : (if chunks.isEmpty && movePath.isNone then stripPrefix moveToMarker c.header else none) =
      none := by
    split
    · exact stripPrefix_eq_none (c := '*') (by rw [hat]; decide)
    · rfl
  have hopen : chunks.getLast?.any (·.isEmpty) = false := by
    cases hl : chunks.getLast? with
    | none => rfl
    | some x => exact hlast x hl
  have hne : c.header.isEmpty = false := by
    cases hh : c.header with
    | nil => rw [hh] at hat; cases hat
    | cons x r => rfl
  simp only [processUpdateLine, htrim, hmk, hmv, hopen, hne, Bool.and_false, Bool.not_true,
    Bool.false_eq_true, if_false]
  cases hctx : c.context with
  | none => simp [header, hctx]
  | some t =>
    have hneq : changeContextMarker ++ t ≠ emptyChangeContextMarker := by
      intro h
      have hlen := congrArg List.length h
      simp [changeContextMarker, emptyChangeContextMarker] at hlen
    simp [header, hctx, hneq, stripPrefix_append]

theorem render_head? (l : ChunkLine) : l.render.head? ≠ some '*' ∧ l.render.head? ≠ some '@' := by
  cases l <;> simp [ChunkLine.render]

theorem processUpdateLine_sign (n : Nat) (movePath : Option Text) (init : List UpdateFileChunk)
    (c : UpdateFileChunk) (hc : c.isEndOfFile = false) (l : ChunkLine) :
    processUpdateLine n movePath (init ++ [c]) l.render = .ok (movePath, init ++ [c.push l]) := by
  obtain ⟨hstar, hat⟩ := render_head? l
  have hmk : isContextMarker (trimEnd l.render) = false :=
    isContextMarker_of_head? (head?_trimEnd_ne hat)
  have heof : trimEnd l.render ≠ eofMarker := by
    intro h
    exact head?_trimEnd_ne hstar (h ▸ rfl)
  have hnil : trimEnd l.render ≠ emptyChangeContextMarker := by
    intro h
    exact head?_trimEnd_ne hat (h ▸ rfl)
  have hctx : stripPrefix changeContextMarker (trimEnd l.render) = none :=
    stripPrefix_eq_none (head?_trimEnd_ne hat)
  have hchk : processChunkLine n (init ++ [c]) l.render = .ok (init ++ [c.push l]) := by
    unfold processChunkLine
    rw [if_neg heof]
    have hch : ∀ f, changeLastChunk (init ++ [c]) f = init ++ [f c] := by
      intro f
      simp [changeLastChunk]
    cases l with
    | context t | removed t | added t => exact congrArg Except.ok (hch _)
  simp only [processUpdateLine, getLast?_concat, Option.any_some, hc, Bool.false_and,
    Bool.false_eq_true, if_false, hmk, if_neg hnil, hctx, hchk]
  simp [Except.map]

theorem processUpdateLine_eof (n : Nat) (movePath : Option Text) (init : List UpdateFileChunk)
    (c : UpdateFileChunk) (hc : c.isEndOfFile = false) (hne : c.isEmpty = false) :
    processUpdateLine n movePath (init ++ [c]) eofMarker =
      .ok (movePath, init ++ [{ c with isEndOfFile := true }]) := by
  have htrim : trimEnd eofMarker = eofMarker := by decide
  have hmk : isContextMarker eofMarker = false := by decide
  have hnil : eofMarker ≠ emptyChangeContextMarker := by decide
  have hctx : stripPrefix changeContextMarker eofMarker = none := by decide
  have hchk : processChunkLine n (init ++ [c]) eofMarker =
      .ok (init ++ [{ c with isEndOfFile := true }]) := by
    simp [processChunkLine, htrim, hne, changeLastChunk]
  simp only [processUpdateLine, getLast?_concat, Option.any_some, hc, Bool.false_and,
    Bool.false_eq_true, if_false, htrim, hmk, if_neg hnil, hctx, hchk]
  simp [Except.map]

/-! ## Reading hunks -/

structure InUpdate (p : StreamingPatchParser) (done : List Hunk) (path : Text) (movePath : Option Text)
    (chunks : List UpdateFileChunk) (env : Option Text) : Prop where
  mode : ∃ n, p.mode = .updateFile n
  hunks : p.hunks = done ++ [.updateFile path movePath chunks]
  environmentId : p.environmentId = env

open UpdateFileChunk

section
variable {done : List Hunk} {path : Text} {movePath movePath' env : Option Text}
  {chunks chunks' : List UpdateFileChunk} {c : ChunkDoc}

theorem InUpdate.line (h : InUpdate p done path movePath chunks env) (hl : GoodLine l)
    (hnone : ∀ q : StreamingPatchParser, q.handleHunkHeadersAndEndPatch (trimEnd l) = .ok none)
    (hst : ∀ n, processUpdateLine n movePath chunks l = .ok (movePath', chunks')) :
    ∃ p', Reads p [l] p' ∧ InUpdate p' done path movePath' chunks' env := by
  obtain ⟨n, hn⟩ := h.mode
  have hlast : (nextLine p).hunks.getLast? = some (.updateFile path movePath chunks) := by
    rw [nextLine, h.hunks, getLast?_concat]
  refine ⟨(nextLine p).setLastHunk (.updateFile path movePath' chunks'), .line hl ?_, ⟨n, hn⟩, ?_,
    h.environmentId⟩
  · have hmode : (nextLine p).mode = .updateFile n := hn
    unfold processLine
    dsimp only
    rw [hmode]
    dsimp only
    rw [headerOr, hnone, hlast]
    dsimp only [Except.bind]
    rw [hst]
    rfl
  · rw [setLastHunk, nextLine, h.hunks, dropLast_concat]

theorem push_isEndOfFile (c : UpdateFileChunk) (l : ChunkLine) : (c.push l).isEndOfFile = c.isEndOfFile := by
  cases l <;> rfl

theorem GoodLine.render {l : ChunkLine} (h : GoodLine l.text) : GoodLine l.render := by
  cases l with
  | context t => exact GoodLine.append (s := [' ']) h ⟨by decide, by decide⟩
  | removed t => exact GoodLine.append (s := ['-']) h ⟨by decide, by decide⟩
  | added t => exact GoodLine.append (s := ['+']) h ⟨by decide, by decide⟩

theorem InUpdate.signs {init : List UpdateFileChunk} {c : UpdateFileChunk}
    (h : InUpdate p done path movePath (init ++ [c]) env) (hc : c.isEndOfFile = false)
    (ls : List ChunkLine) (hls : ∀ l ∈ ls, GoodLine l.text) :
    ∃ p', Reads p (ls.map ChunkLine.render) p' ∧
      InUpdate p' done path movePath (init ++ [ls.foldl push c]) env := by
  induction ls generalizing p c with
  | nil => exact ⟨p, .nil p, h⟩
  | cons l ls ih =>
    rw [forall_mem_cons] at hls
    obtain ⟨p1, hread, h1⟩ := h.line hls.1.render
      (fun q => handle_eq_none q _ (head?_trimEnd_ne (render_head? l).1))
      fun n => processUpdateLine_sign n movePath init c hc l
    obtain ⟨p2, hread', h2⟩ := ih h1 (by rw [push_isEndOfFile, hc]) hls.2
    exact ⟨p2, hread.append hread', h2⟩

theorem foldl_push (ls : List ChunkLine) (c : UpdateFileChunk) : ls.foldl push c = { c with
        oldLines := c.oldLines ++ (toChunk ⟨none, ls, false⟩).oldLines
        newLines := c.newLines ++ (toChunk ⟨none, ls, false⟩).newLines } := by
  induction ls generalizing c with
  | nil => simp [toChunk]
  | cons l ls ih =>
    rw [foldl_cons, ih]
    cases l <;> simp [push, toChunk]

theorem ChunkDoc.toChunk_isEmpty (h : c.lines ≠ []) : c.toChunk.isEmpty = false := by
  obtain ⟨l, ls, hls⟩ := exists_cons_of_ne_nil h
  cases l <;> simp [ChunkDoc.toChunk, UpdateFileChunk.isEmpty, hls]

theorem ChunkDoc.header_good (hc : ∀ t, c.context = some t → GoodContext t) : GoodLine c.header := by
  cases hctx : c.context with
  | none =>
    simp only [header, hctx]
    exact ⟨by decide, by decide⟩
  | some t =>
    obtain ⟨s, x, rfl, hx⟩ := (hc t hctx).last
    simp only [header, hctx]
    refine GoodLine.append ⟨(hc _ hctx).oneLine, ?_⟩ ⟨by decide, by decide⟩
    rw [getLast?_concat]
    rintro ⟨rfl⟩
    exact absurd hx (by decide)

theorem handle_eofMarker (q : StreamingPatchParser) :
    q.handleHunkHeadersAndEndPatch (trimEnd eofMarker) = .ok none := by
  have htrim : trimEnd eofMarker = eofMarker := by decide
  have hadd : stripPrefix addFileMarker eofMarker = none := by decide
  have hdel : stripPrefix deleteFileMarker eofMarker = none := by decide
  have hupd : stripPrefix updateFileMarker eofMarker = none := by decide
  rw [htrim, handle_eq q (fun _ => by decide), if_neg (by decide), hadd, hdel, hupd]

theorem InUpdate.chunk (h : InUpdate p done path movePath chunks env)
    (hl : ∀ c ∈ chunks.getLast?, c.isEmpty = false) (c : ChunkDoc) (hc : c.Good) :
    ∃ p', Reads p c.render p' ∧ InUpdate p' done path movePath (chunks ++ [c.toChunk]) env := by
  have hat : c.header.head? ≠ some '*' := by
    cases hctx : c.context <;> simp only [header, hctx] <;> exact fun h => by cases h
  obtain ⟨p1, hread1, h1⟩ := h.line (header_good hc.context)
    (fun q => handle_eq_none q _ (head?_trimEnd_ne hat))
    fun n => processUpdateLine_header n movePath chunks hl c hc.context
  obtain ⟨p2, hread2, h2⟩ := h1.signs rfl c.lines hc.lines
  have hfold : c.lines.foldl push { changeContext := c.context } =
      { c.toChunk with isEndOfFile := false } := by
    rw [foldl_push]
    rfl
  rw [hfold] at h2
  have hne := toChunk_isEmpty hc.nonEmpty
  rw [render, ← singleton_append, append_assoc]
  cases heof : c.endOfFile with
  | false =>
    have hflag : ({ c.toChunk with isEndOfFile := false } : UpdateFileChunk) = c.toChunk := by
      simp [toChunk, heof]
    rw [hflag] at h2
    exact ⟨p2, hread1.append (by simpa using hread2), h2⟩
  | true =>
    have hflag : ({ c.toChunk with isEndOfFile := true } : UpdateFileChunk) = c.toChunk := by
      simp [toChunk, heof]
    obtain ⟨p3, hread3, h3⟩ := h2.line ⟨by decide, by decide⟩ handle_eofMarker
      fun n => processUpdateLine_eof n movePath chunks _ rfl hne
    rw [← hflag]
    exact ⟨p3, hread1.append (hread2.append hread3), h3⟩

theorem InUpdate.allChunks (h : InUpdate p done path movePath chunks env)
    (hl : ∀ c ∈ chunks.getLast?, c.isEmpty = false) (cs : List ChunkDoc) (hcs : ∀ c ∈ cs, c.Good) :
    ∃ p', Reads p (cs.flatMap render) p' ∧
      InUpdate p' done path movePath (chunks ++ cs.map toChunk) env := by
  induction cs generalizing p chunks with
  | nil => exact ⟨p, .nil p, by simpa using h⟩
  | cons c cs ih =>
    rw [forall_mem_cons] at hcs
    obtain ⟨p1, hread, h1⟩ := h.chunk hl c hcs.1
    obtain ⟨p2, hread', h2⟩ := ih h1 (by
      rw [getLast?_concat]
      rintro _ ⟨rfl⟩
      exact toChunk_isEmpty hcs.1.nonEmpty) hcs.2
    exact ⟨p2, hread.append hread', by simpa using h2⟩

end

open HunkDoc

section
variable {done : List Hunk} {env : Option Text} {path : Text}

theorem header_tight {m : Text} (hm : m.head? = some '*') (h : GoodName path) : Text.Tight (m ++ path) := by
  refine Text.Tight.append ?_ h.tight
  cases m with
  | nil => cases hm
  | cons c r => exact ⟨c, r, rfl, by cases hm; decide⟩

theorem Ready.header (h : Ready p done env) (hl : Text.Tight l) (hgood : GoodLine l)
    (hhandle : (nextLine p).handleHunkHeadersAndEndPatch l = .ok (some p')) : Reads p [l] p' :=
  .line hgood (processLine_header (p := nextLine p) h.started (by rwa [header_of_tight hl]))

theorem closed_addFile (done : List Hunk) (path contents : Text) :
    Closed (done ++ [.addFile path contents]) := by
  intro path' movePath chunks h
  rw [getLast?_concat] at h
  cases h

theorem reads_addLines (path contents : Text) (lines : List Text) (hmode : p.mode = .addFile)
    (hhunks : p.hunks = done ++ [.addFile path contents]) (henv : p.environmentId = env)
    (hls : ∀ l ∈ lines, GoodLine l) :
    ∃ p', Reads p (lines.map ('+' :: ·)) p' ∧
      Ready p' (done ++ [.addFile path (contents ++ lines.flatMap (· ++ ['\n']))]) env := by
  induction lines generalizing p contents with
  | nil =>
    refine ⟨p, .nil p, by simpa using hhunks, henv, by simp [hmode], ?_⟩
    exact closed_addFile done path _
  | cons l lines ih =>
    rw [forall_mem_cons] at hls
    have htrim : (trim ('+' :: l)).head? ≠ some '*' := by
      rw [trim_cons rfl (by decide)]
      exact head?_trimEnd_ne (by simp)
    let p1 := (nextLine p).setLastHunk (.addFile path (contents ++ l ++ ['\n']))
    have hread : Reads p ['+' :: l] p1 := by
      refine .line (GoodLine.append (s := ['+']) hls.1 ⟨by decide, by decide⟩) ?_
      have hm : (nextLine p).mode = .addFile := hmode
      have hl : (nextLine p).hunks.getLast? = some (.addFile path contents) := by
        rw [nextLine, hhunks, getLast?_concat]
      unfold processLine
      dsimp only
      rw [hm]
      dsimp only
      rw [headerOr, handle_eq_none _ _ htrim, hl]
      rfl
    have hhunks1 : p1.hunks = done ++ [.addFile path (contents ++ l ++ ['\n'])] := by
      simp only [p1, setLastHunk, nextLine, hhunks, dropLast_concat]
    obtain ⟨p2, hread', hrdy⟩ := ih (p := p1) (contents ++ l ++ ['\n']) hmode hhunks1 henv hls.2
    refine ⟨p2, hread.append hread', ?_⟩
    simpa using hrdy

theorem handle_moveTo (t : Text) (q : StreamingPatchParser) :
    q.handleHunkHeadersAndEndPatch (moveToMarker ++ t) = .ok none := by
  have hadd : stripPrefix addFileMarker (moveToMarker ++ t) = none := rfl
  have hdel : stripPrefix deleteFileMarker (moveToMarker ++ t) = none := rfl
  have hupd : stripPrefix updateFileMarker (moveToMarker ++ t) = none := rfl
  rw [handle_eq q (fun _ => rfl), if_neg (ne_endPatchMarker (by decide)), hadd, hdel, hupd]

theorem Ready.closed_nextLine (h : Ready p done env) : Closed (nextLine p).hunks := by
  rw [nextLine, h.hunks]
  exact h.closed

theorem Ready.addFile (h : Ready p done env) (hp : GoodName path) {lines : List Text}
    (hls : ∀ l ∈ lines, GoodLine l) :
    ∃ p', Reads p (addFile path lines).render p' ∧
      Ready p' (done ++ [(addFile path lines).toHunk]) env := by
  have hgood := GoodLine.append hp.goodLine (s := addFileMarker) ⟨by decide, by decide⟩
  have hread := h.header (header_tight rfl hp) hgood (handle_addFile h.closed_nextLine path)
  obtain ⟨p', hread', hrdy⟩ := reads_addLines
    (p := { nextLine p with hunks := (nextLine p).hunks ++ [.addFile path []], mode := .addFile })
    path [] lines rfl (congrArg (· ++ [Hunk.addFile path []]) h.hunks) h.environmentId hls
  exact ⟨p', hread.append hread', hrdy⟩

theorem Ready.deleteFile (h : Ready p done env) (hp : GoodName path) :
    ∃ p', Reads p (deleteFile path).render p' ∧
      Ready p' (done ++ [(deleteFile path).toHunk]) env := by
  have hgood := GoodLine.append hp.goodLine (s := deleteFileMarker) ⟨by decide, by decide⟩
  have hread := h.header (header_tight rfl hp) hgood (handle_deleteFile h.closed_nextLine path)
  refine ⟨_, hread, congrArg (· ++ [Hunk.deleteFile path]) h.hunks, h.environmentId, by simp, ?_⟩
  intro path' movePath chunks hl
  rw [getLast?_concat] at hl
  cases hl

theorem Ready.updateFile (h : Ready p done env) (hp : GoodName path) {moveTo : Option Text}
    (hmv : ∀ t, moveTo = some t → GoodName t) {chunks : List ChunkDoc} (hne : chunks ≠ [])
    (hchs : ∀ c ∈ chunks, c.Good) :
    ∃ p', Reads p (updateFile path moveTo chunks).render p' ∧
      Ready p' (done ++ [(updateFile path moveTo chunks).toHunk]) env := by
  have hgood := GoodLine.append hp.goodLine (s := updateFileMarker) ⟨by decide, by decide⟩
  have hread := h.header (header_tight rfl hp) hgood (handle_updateFile h.closed_nextLine path)
  have h1 : InUpdate { nextLine p with hunks := (nextLine p).hunks ++ [.updateFile path none []],
                                       mode := .updateFile (nextLine p).lineNumber }
      done path none [] env :=
    ⟨⟨_, rfl⟩, congrArg (· ++ [Hunk.updateFile path none []]) h.hunks, h.environmentId⟩
  -- the move target, if there is one
  obtain ⟨p2, hread2, h2⟩ : ∃ p2, Reads _ (moveTo.toList.map (moveToMarker ++ ·)) p2 ∧
      InUpdate p2 done path moveTo [] env := by
    cases moveTo with
    | none => exact ⟨_, .nil _, h1⟩
    | some t =>
      have ht := hmv t rfl
      have htight : Text.Tight (moveToMarker ++ t) := header_tight rfl ht
      refine h1.line (GoodLine.append ht.goodLine ⟨by decide, by decide⟩) ?_
        fun n => processUpdateLine_moveTo n ht.tight
      rw [htight.trimEnd_eq]
      exact handle_moveTo t
  obtain ⟨p3, hread3, h3⟩ := h2.allChunks (by simp) chunks hchs
  rw [nil_append] at h3
  obtain ⟨n, hn⟩ := h3.mode
  refine ⟨p3, ?_, h3.hunks, h3.environmentId, by simp [hn], ?_⟩
  · exact hread.append (hread2.append hread3)
  · intro path' movePath cs hl
    rw [toHunk, getLast?_concat] at hl
    cases hl
    obtain ⟨init, c, rfl⟩ : ∃ init c, chunks = init ++ [c] :=
      ⟨chunks.dropLast, chunks.getLast hne, (dropLast_append_getLast hne).symm⟩
    exact ⟨c.toChunk, by simp, toChunk_isEmpty (hchs c (by simp)).nonEmpty⟩

theorem Ready.hunk (h : Ready p done env) (d : HunkDoc) (hd : d.Good) :
    ∃ p', Reads p d.render p' ∧ Ready p' (done ++ [d.toHunk]) env := by
  cases d with
  | addFile path lines => exact h.addFile hd.1 hd.2
  | deleteFile path => exact h.deleteFile hd
  | updateFile path moveTo chunks => exact h.updateFile hd.1 hd.2.1 hd.2.2.1 hd.2.2.2

theorem Ready.allHunks (h : Ready p done env) (ds : List HunkDoc) (hds : ∀ d ∈ ds, d.Good) :
    ∃ p', Reads p (ds.flatMap HunkDoc.render) p' ∧ Ready p' (done ++ ds.map HunkDoc.toHunk) env := by
  induction ds generalizing p done with
  | nil => exact ⟨p, .nil p, by simpa using h⟩
  | cons d ds ih =>
    rw [forall_mem_cons] at hds
    obtain ⟨p1, hread, h1⟩ := h.hunk d hds.1
    obtain ⟨p2, hread', h2⟩ := ih h1 hds.2
    exact ⟨p2, hread.append hread', by simpa using h2⟩

end

/-! ## Reading a patch -/

theorem handle_environmentId (hmode : p.mode = .startedPatch)
    (hnone : p.environmentId = none) (ht : GoodName t) :
    p.handleHunkHeadersAndEndPatch (environmentIdMarker ++ ' ' :: t) =
      .ok (some { p with environmentId := some t }) := by
  have htrim : trim (' ' :: t) = t := by
    rw [trim_cons_whitespace t (by decide), ht.tight.trim_eq]
  have hne : t ≠ [] := by
    obtain ⟨c, r, rfl, -⟩ := ht.tight.first
    simp
  rw [handleHunkHeadersAndEndPatch, if_pos hmode, stripPrefix_append]
  simp only [hnone, htrim, if_neg hne, Option.isSome_none, Bool.false_eq_true, if_false]

theorem reads_start {env : Option Text} (henv : ∀ t, env = some t → GoodName t) :
    ∃ p, Reads {} (beginPatchMarker :: env.toList.map (environmentIdMarker ++ ' ' :: ·)) p ∧
      Ready p [] env := by
  let p0 : StreamingPatchParser := { mode := .startedPatch, lineNumber := 1 }
  have hread : Reads {} [beginPatchMarker] p0 := by
    refine .line ⟨by decide, by decide⟩ ?_
    have htrim : trim beginPatchMarker = beginPatchMarker := by decide
    simp only [processLine, nextLine, htrim, if_true]
    rfl
  have hcld : Closed [] := by
    intro path movePath chunks h
    cases h
  cases env with
  | none => exact ⟨p0, hread, rfl, rfl, by simp [p0], hcld⟩
  | some t =>
    have ht := henv t rfl
    have hspace : GoodLine (' ' :: t) :=
      GoodLine.append (s := [' ']) ht.goodLine ⟨by decide, by decide⟩
    have htight : Text.Tight (environmentIdMarker ++ ' ' :: t) := by
      obtain ⟨s, c, hs, hc⟩ := ht.tight.last
      exact ⟨⟨'*', _, rfl, by decide⟩, environmentIdMarker ++ ' ' :: s, c, by simp [hs], hc⟩
    have hl := processLine_header (p := nextLine p0) (by simp [nextLine, p0])
      (by rw [header_of_tight htight]; exact handle_environmentId rfl rfl ht)
    have hread' : Reads p0 [environmentIdMarker ++ ' ' :: t] { nextLine p0 with environmentId := some t } :=
      .line (hspace.append ⟨by decide, by decide⟩) hl
    exact ⟨_, hread.append hread', rfl, rfl, by simp [nextLine, p0], hcld⟩

theorem finish_end {last : Text} (htrim : trim last = endPatchMarker) :
    finish { p with lineBuffer := last } =
      (ensureUpdateHunkIsNotEmpty { nextLine p with lineBuffer := [] } endPatchMarker).map fun _ =>
        { nextLine p with lineBuffer := [], mode := .endedPatch } := by
  have hne : last ≠ [] := by
    rintro rfl
    exact absurd htrim (by decide)
  unfold finish nextLine
  simp only [if_neg hne, htrim, if_true]
  cases ensureUpdateHunkIsNotEmpty _ endPatchMarker <;> rfl

theorem finish_endPatch {done : List Hunk} {env : Option Text} (h : Ready p done env) :
    ∃ p', finish { p with lineBuffer := endPatchMarker } = .ok p' ∧ p'.hunks = done ∧
      p'.environmentId = env := by
  have hcld : Closed ({ nextLine p with lineBuffer := [] } : StreamingPatchParser).hunks := h.hunks ▸ h.closed
  rw [finish_end (by decide), hcld.ensure]
  exact ⟨_, rfl, h.hunks, h.environmentId⟩

theorem reads_patch (d : PatchDoc) (hd : d.Good) :
    ∃ p p', Reads {} (beginPatchMarker :: d.body) p ∧ finish { p with lineBuffer := endPatchMarker } = .ok p' ∧
      p'.hunks = d.hunks.map toHunk ∧ p'.environmentId = d.environmentId := by
  obtain ⟨p1, hread1, h1⟩ := reads_start hd.environmentId
  obtain ⟨p2, hread2, h2⟩ := h1.allHunks d.hunks hd.hunks
  obtain ⟨p3, hfin, hhunks, henv⟩ := finish_endPatch h2
  exact ⟨p2, p3, hread1.append hread2, hfin, by simpa using hhunks, henv⟩

theorem PatchDoc.trim_render (d : PatchDoc) (finalLf : Bool) :
    trim (d.render finalLf) = joinLines (beginPatchMarker :: d.body ++ [endPatchMarker]) := by
  have hend : Text.Tight endPatchMarker :=
    ⟨⟨'*', _, rfl, by decide⟩, "*** End Patc".toList, 'h', rfl, by decide⟩
  have htight : Text.Tight (joinLines (beginPatchMarker :: d.body ++ [endPatchMarker])) := by
    rw [joinLines_concat]
    exact Text.Tight.append ⟨'*', _, rfl, by decide⟩ hend
  cases finalLf with
  | true => exact trim_append_newline htight
  | false =>
    rw [PatchDoc.render, if_neg (by decide), append_nil]
    exact htight.trim_eq

theorem PatchDoc.lines_render (d : PatchDoc) (hgood : ∀ l ∈ beginPatchMarker :: d.body, GoodLine l) (finalLf : Bool) :
    lines (trim (d.render finalLf)) = beginPatchMarker :: d.body ++ [endPatchMarker] := by
  rw [d.trim_render]
  refine lines_joinLines _ _ (by decide) ?_ fun l hl => (hgood l hl).noCr
  intro l hl
  rcases mem_append.mp hl with hl | hl
  · exact (hgood l hl).oneLine
  · rw [mem_singleton.mp hl]
    decide

theorem checkPatchBoundariesLenient_lines (body : List Text) :
    checkPatchBoundariesLenient (beginPatchMarker :: body ++ [endPatchMarker]) =
      .ok (beginPatchMarker :: body ++ [endPatchMarker]) := by
  have hbegin : trim beginPatchMarker = beginPatchMarker := by decide
  have hend : trim endPatchMarker = endPatchMarker := by decide
  have hstrict : checkPatchBoundariesStrict (beginPatchMarker :: body ++ [endPatchMarker]) =
      .ok (beginPatchMarker :: body ++ [endPatchMarker]) := by
    rw [checkPatchBoundariesStrict, getLast?_concat, cons_append, head?_cons]
    simp [checkStartAndEndLinesStrict, hbegin, hend, Except.map]
  rw [checkPatchBoundariesLenient, hstrict]

/-- **Parsing inverts the documented format.**  The hunks and the environment id come back
as they were; the text kept is the one without its final line feed. -/
theorem parsePatch_render (d : PatchDoc) (hd : d.Good) (finalLf : Bool) :
    parsePatch (d.render finalLf) = .ok {
      patch := Text.joinLines (beginPatchMarker :: d.body ++ [endPatchMarker])
      hunks := d.hunks.map HunkDoc.toHunk
      environmentId := d.environmentId } := by
  obtain ⟨p, p', ⟨hgood, hread⟩, hfinish, hhunks, henv⟩ := reads_patch d hd
  have hpush : pushDelta {} (Text.joinLines (beginPatchMarker :: d.body ++ [endPatchMarker])) =
      .ok { p with lineBuffer := endPatchMarker } := by
    rw [Text.joinLines_concat,
      StreamingPatchParser.pushDelta_lines _ (fun l hl => (hgood l hl).oneLine) _ (by decide) _ rfl,
      hread]
    rfl
  rw [parsePatch, parsePatchText, d.lines_render hgood]
  simp only [checkPatchBoundariesLenient_lines, bind, Except.bind, hpush, hfinish, hhunks, henv]
  rfl

def markerLookalikes : PatchDoc where
  environmentId := some "remote".toList
  hunks := [
    .addFile "a.md".toList ["*** End Patch".toList, [], "@@".toList],
    .updateFile "b.md".toList (some "c.md".toList) [
      ⟨some " *** End of File".toList, [.context [], .removed "-- x".toList, .added "\t".toList], false⟩,
      ⟨none, [.added "*** Delete File: a.md".toList], true⟩],
    .deleteFile "d.md".toList]

theorem markerLookalikes_good : markerLookalikes.Good := by
  refine ⟨?_, ?_⟩
  · rintro t ⟨rfl⟩
    exact ⟨⟨⟨'r', _, rfl, by decide⟩, "remot".toList, 'e', rfl, by decide⟩, by decide⟩
  · intro h hh
    simp only [markerLookalikes, mem_cons, not_mem_nil, or_false] at hh
    rcases hh with rfl | rfl | rfl
    · refine ⟨⟨⟨⟨'a', _, rfl, by decide⟩, "a.m".toList, 'd', rfl, by decide⟩, by decide⟩, ?_⟩
      intro l hl
      simp only [mem_cons, not_mem_nil, or_false] at hl
      rcases hl with rfl | rfl | rfl <;> exact ⟨by decide, by decide⟩
    · refine ⟨⟨⟨⟨'b', _, rfl, by decide⟩, "b.m".toList, 'd', rfl, by decide⟩, by decide⟩, ?_, by simp, ?_⟩
      · rintro t ⟨rfl⟩
        exact ⟨⟨⟨'c', _, rfl, by decide⟩, "c.m".toList, 'd', rfl, by decide⟩, by decide⟩
      · intro c hc
        simp only [mem_cons, not_mem_nil, or_false] at hc
        rcases hc with rfl | rfl
        · refine ⟨?_, ?_, by simp⟩
          · rintro t ⟨rfl⟩
            exact ⟨⟨" *** End of Fil".toList, 'e', rfl, by decide⟩, by decide⟩
          · intro l hl
            simp only [mem_cons, not_mem_nil, or_false] at hl
            rcases hl with rfl | rfl | rfl <;> exact ⟨by decide, by decide⟩
        · refine ⟨by simp, ?_, by simp⟩
          intro l hl
          rw [mem_singleton.mp hl]
          exact ⟨by decide, by decide⟩
    · exact ⟨⟨⟨'d', _, rfl, by decide⟩, "d.m".toList, 'd', rfl, by decide⟩, by decide⟩

theorem parsePatch_render_markerLookalikes : markerLookalikes.Good ∧
    (parsePatch (markerLookalikes.render true)).map (fun args => (args.hunks, args.environmentId)) = .ok (
      [.addFile "a.md".toList "*** End Patch\n\n@@\n".toList, .updateFile "b.md".toList (some "c.md".toList) [
         { changeContext := some " *** End of File".toList, oldLines := [[], "-- x".toList],
           newLines := [[], "\t".toList] },
         { newLines := ["*** Delete File: a.md".toList], isEndOfFile := true }],
       .deleteFile "d.md".toList],
      some "remote".toList) := by
  refine ⟨markerLookalikes_good, ?_⟩
  rw [parsePatch_render markerLookalikes markerLookalikes_good true]
  rfl

end ApplyPatch
