import Codez.Switch.Egress

/-!
Which events of a well-formed SSE body the read task delivers.

A body is a list of payloads, each on one `data:` line, with a blank line between events.
-/

namespace LlmSwitch

open Codex Framing List

structure Payload (env : EgressEnv) where
  text : Text
  value : Value
  oneLine : '\n' ∉ text
  parses : env.serde.fromStr (String.ofList (Text.trim text)) = .ok value
  notDone : Text.trim text ≠ "[DONE]".toList
  notEmpty : Text.trim text ≠ []

inductive LineEnding where
  | lf
  | crlf
deriving DecidableEq

def LineEnding.text : LineEnding → Text
  | .lf => ['\n']
  | .crlf => ['\r', '\n']

inductive LastEvent where
  | blankLine
  | lineEnd
  | nothing
deriving DecidableEq

def LastEvent.text (nl : LineEnding) : LastEvent → Text
  | .blankLine => nl.text ++ nl.text
  | .lineEnd => nl.text
  | .nothing => []

variable {env : EgressEnv} (p : Payload env) (nl : LineEnding) (last : LastEvent) (ps : List (Payload env))

def Payload.line (p : Payload env) : Text := "data:".toList ++ p.text

def encode (nl : LineEnding) (last : LastEvent) : List (Payload env) → Text
  | [] => []
  | [p] => p.line ++ last.text nl
  | p :: q :: ps => p.line ++ (nl.text ++ nl.text) ++ encode nl last (q :: ps)

def delivered (nl : LineEnding) (last : LastEvent) (ps : List (Payload env)) : List (Payload env) :=
  match nl, last with
  | .lf, .blankLine => ps
  | .lf, _ => ps.dropLast
  | .crlf, _ => []

theorem newline_not_mem_line : '\n' ∉ p.line := by
  intro h
  rcases mem_append.mp h with h | h
  · exact absurd h (by decide)
  · exact p.oneLine h

open Text

theorem newline_not_mem_bytes_line : (10 : UInt8) ∉ bytes p.line :=
  newline_not_mem_bytes _ (newline_not_mem_line p)

theorem frames_cons_lf (rest : List UInt8) :
    frames frameCutter (bytes (p.line ++ ['\n', '\n']) ++ rest) =
      (bytes p.line :: (frames frameCutter rest).1, (frames frameCutter rest).2) := by
  apply frames_of_some
  have hb : bytes ['\n', '\n'] = [10, 10] := by decide
  rw [bytes_append, hb]
  exact cutAt_append 10 [10] _ rest (newline_not_mem_bytes_line p)

theorem cut_line_eq_none (rest : List UInt8)
    (hr : cutAt [10, 10] rest = none) : cutAt [10, 10] (bytes p.line ++ rest) = none := by
  rw [cutAt_append_of_not_mem 10 [10] _ rest (newline_not_mem_bytes_line p), hr]
  rfl

theorem cut_crlf_eq_none (rest : List UInt8) (hh : rest.head? ≠ some 10)
    (hr : cutAt [10, 10] rest = none) : cutAt [10, 10] (13 :: 10 :: 13 :: 10 :: rest) = none := by
  cases rest with
  | nil => decide
  | cons b rest =>
    have hb : (10 == b) = false := by
      apply beq_false_of_ne
      rintro rfl
      exact hh rfl
    simp [cutAt, List.isPrefixOf, hb] at hr ⊢
    exact hr

theorem head_bytes_encode : (bytes (encode nl last ps)).head? ≠ some 10 := by
  have hd : String.utf8EncodeChar 'd' = [100] := by decide
  cases ps with
  | nil => simp [encode]
  | cons p ps =>
    cases ps with
    | nil | cons q ps => simp [encode, Payload.line, hd]

theorem cut_encode_crlf : cutAt [10, 10] (bytes (encode .crlf last ps)) = none := by
  induction ps with
  | nil => rfl
  | cons p ps ih =>
    cases ps with
    | nil =>
      simp only [encode, bytes_append]
      apply cut_line_eq_none
      cases last <;> decide
    | cons q ps =>
      simp only [encode, bytes_append, append_assoc]
      apply cut_line_eq_none
      exact cut_crlf_eq_none _ (head_bytes_encode .crlf last (q :: ps)) ih

/-- **Frames of a body.**  The complete frames are the lines of the delivered payloads. -/
theorem frames_encode : (frames frameCutter (bytes (encode nl last ps))).1 =
      (delivered nl last ps).map fun p => bytes p.line := by
  cases nl with
  | crlf =>
    rw [frames_of_none _ _ (cut_encode_crlf last ps)]
    rfl
  | lf =>
    induction ps with
    | nil => cases last <;> rfl
    | cons p ps ih =>
      cases ps with
      | nil =>
        cases last with
        | blankLine =>
          have h := frames_cons_lf p []
          simp only [append_nil] at h
          simp only [encode, LastEvent.text, LineEnding.text, cons_append, nil_append, h]
          rfl
        | lineEnd =>
          rw [frames_of_none]
          · rfl
          · simp only [encode, LastEvent.text, LineEnding.text, bytes_append]
            exact cut_line_eq_none p _ (by decide)
        | nothing =>
          rw [frames_of_none]
          · rfl
          · simp only [encode, LastEvent.text, bytes_append]
            exact cut_line_eq_none p _ (by decide)
      | cons q ps =>
        have h := frames_cons_lf p (bytes (encode .lf last (q :: ps)))
        rw [← bytes_append] at h
        simp only [encode, LineEnding.text, cons_append, nil_append, h, ih]
        cases last <;> rfl

theorem lineSignal_line : lineSignal env p.line = some (.json p.value) := by
  have ht : trimStart p.line = p.line := by
    simp [Payload.line, trimStart, isWhitespace]
  have hs : stripPrefix "data:".toList p.line = some p.text := by
    simp [stripPrefix, Payload.line, List.isPrefixOf]
  unfold lineSignal
  rw [ht, hs]
  simp only [if_neg p.notDone, List.isEmpty_iff, if_neg p.notEmpty, p.parses]

theorem frameSignals_line : frameSignals env (bytes p.line) = [.json p.value] := by
  have hl : lines p.line = [p.line] :=
    lines_of_oneLine _ (newline_not_mem_line p) (by simp [Payload.line])
  simp only [frameSignals, fromUtf8_bytes, hl, filterMap_cons, lineSignal_line, filterMap_nil]

theorem signals_encode : signals env (bytes (encode nl last ps)) =
      (delivered nl last ps).map fun p => .json p.value := by
  unfold signals
  rw [frames_encode, flatMap_map]
  simp only [frameSignals_line]
  exact flatMap_pure_eq_map _ _

section
variable {σ : Type} (T : SseTranslator σ)

theorem foldlM_json (s : ReadState σ) (vs : List Value)
    (h : (T.pushAll s.translator vs).2.isOk = true) :
    ∃ s', (vs.map Signal.json).foldlM (onSignal T) s = .ok s' ∧ s'.pushed = s.pushed ++ vs := by
  induction vs generalizing s with
  | nil => exact ⟨s, rfl, by simp⟩
  | cons v vs ih =>
    simp only [SseTranslator.pushAll] at h
    cases hp : T.push s.translator v with
    | error e => simp [hp, Except.isOk, Except.toBool] at h
    | ok r =>
      obtain ⟨t, evs⟩ := r
      simp only [hp] at h
      obtain ⟨s', hs', hv⟩ := ih ⟨t, s.sent ++ evs.map .ok, s.pushed ++ [v]⟩ h
      refine ⟨s', ?_, by simp [hv]⟩
      rw [map_cons, foldlM_cons]
      simp only [onSignal, pushJson, hp]
      exact hs'

theorem pushAll_isOk_of_append (s : σ) (vs ws : List Value)
    (h : (T.pushAll s (vs ++ ws)).2.isOk = true) : (T.pushAll s vs).2.isOk = true := by
  induction vs generalizing s with
  | nil => rfl
  | cons v vs ih =>
    simp only [cons_append, SseTranslator.pushAll] at h ⊢
    cases hp : T.push s v with
    | error e => simp [hp, Except.isOk, Except.toBool] at h
    | ok r =>
      simp only [hp] at h ⊢
      exact ih r.1 h

end

theorem delivered_isPrefix : delivered nl last ps <+: ps := by
  cases nl <;> cases last <;> simp [delivered, List.dropLast_prefix]

theorem delivered_eq_iff :
    (delivered nl last ps).length = ps.length ↔ ps = [] ∨ (nl = .lf ∧ last = .blankLine) := by
  have hd : ps.dropLast.length = ps.length ↔ ps = [] := by
    rw [length_dropLast, ← length_eq_zero_iff]
    omega
  have hz : (0 = ps.length) ↔ ps = [] := by
    rw [← length_eq_zero_iff]
    omega
  cases nl <;> cases last <;> simp [delivered, -length_dropLast, hd, hz]

/-- **Delivery.**  On a body whose payloads the translator accepts, the task pushes exactly
its payloads before it finishes if and only if there are none, or lines end in LF and a
blank line follows the last event. -/
theorem readTask_delivers_iff {σ : Type} (T : SseTranslator σ) (nl : LineEnding) (last : LastEvent)
    (ps : List (Payload env)) (chunks : List (List UInt8))
    (hc : chunks.flatten = Text.bytes (encode nl last ps))
    (hT : (T.pushAll T.init (ps.map (·.value))).2.isOk = true) :
    ((readTask T env chunks .eof).pushed = ps.map (·.value) ∧ (readTask T env chunks .eof).finished = true) ↔
      ps = [] ∨ (nl = .lf ∧ last = .blankLine) := by
  obtain ⟨rest, hrest⟩ := delivered_isPrefix nl last ps
  have hok : (T.pushAll T.init ((delivered nl last ps).map (·.value))).2.isOk = true := by
    apply pushAll_isOk_of_append T T.init _ (rest.map (·.value))
    rw [← map_append, hrest]
    exact hT
  obtain ⟨s, hs, hp⟩ := foldlM_json T ⟨T.init, [], []⟩ _ hok
  rw [map_map] at hs
  have hr : readTask T env chunks .eof = finishReport T s := by
    rw [readTask_eq, hc, signals_encode]
    exact congrArg (conclude T .eof) hs
  rw [hr, ← delivered_eq_iff]
  simp only [finishReport, hp, nil_append, and_true]
  constructor
  · intro h
    simpa using congrArg List.length h
  · intro h
    rw [(delivered_isPrefix nl last ps).eq_of_length h]

def emptyObject : Payload emptyObjectEnv where
  text := " \x7b\x7d".toList
  value := .object []
  oneLine := by decide
  parses := by rfl
  notDone := by decide
  notEmpty := by decide

theorem readTask_delivers_emptyObject : let T := chatSse emptyObjectEnv.serde
    let r := readTask T emptyObjectEnv [Text.bytes "data: \x7b\x7d\n\n".toList] .eof
    r.pushed = [.object []] ∧ r.finished = true :=
  (readTask_delivers_iff (chatSse emptyObjectEnv.serde) .lf .blankLine [emptyObject]
    [Text.bytes "data: \x7b\x7d\n\n".toList] (by decide) (by decide)).mpr (.inr ⟨rfl, rfl⟩)

theorem readTask_loses_event : let T := chatSse emptyObjectEnv.serde
    let crlf := Text.bytes (encode .crlf .blankLine [emptyObject])
    let lf := Text.bytes (encode .lf .lineEnd [emptyObject])
    (T.pushAll T.init [.object []]).2.isOk = true ∧ ((readTask T emptyObjectEnv [crlf] .eof).pushed = [] ∧
        (readTask T emptyObjectEnv [crlf] .eof).finished = true) ∧
      (readTask T emptyObjectEnv [lf] .eof).pushed = [] ∧
        (readTask T emptyObjectEnv [lf] .eof).finished = true := by
  decide

end LlmSwitch
