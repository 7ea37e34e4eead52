import Codez.Lib.Text
import Codez.Lib.Framing
import Codez.Switch.ChatSse
import Codez.Switch.AnthropicSse

/-!
The read task of `run_egress` (`sse.rs`): bytes of a 2xx response in, items for the channel out.
-/

namespace LlmSwitch

open Codex Framing List

structure EgressEnv where
  serde : Serde
  utf8Error : List UInt8 → String

inductive BodyEnd where
  | eof
  | failed (message : String)

abbrev Sent := Except ApiError ResponseEvent

/-- The task between two lines.  `pushed` is history: what the translator was given. -/
structure ReadState (σ : Type) where
  translator : σ
  sent : List Sent := []
  pushed : List Value := []

inductive Stop (σ : Type) where
  | done (s : ReadState σ)
  | returned (s : ReadState σ)

structure Report where
  sent : List Sent
  pushed : List Value
  finished : Bool

section
variable {σ : Type} (T : SseTranslator σ) (env : EgressEnv) (s : ReadState σ)

def ReadState.fail (s : ReadState σ) (e : ApiError) : Except (Stop σ) (ReadState σ) :=
  .error (.returned { s with sent := s.sent ++ [.error e] })

def pushJson (s : ReadState σ) (json : Value) : Except (Stop σ) (ReadState σ) :=
  let s := { s with pushed := s.pushed ++ [json] }
  match T.push s.translator json with
  | .ok (t, events) => .ok { s with translator := t, sent := s.sent ++ events.map .ok }
  | .error ce => s.fail ce.toApiError

def readLine (s : ReadState σ) (line : Text) : Except (Stop σ) (ReadState σ) :=
  match Text.stripPrefix "data:".toList (Text.trimStart line) with
  | none => .ok s
  | some d =>
    let data := Text.trim d
    if data = "[DONE]".toList then .error (.done s)
    else if data.isEmpty then .ok s
    else
      match env.serde.fromStr (String.ofList data) with
      | .error e => s.fail (.stream ("bad SSE json: " ++ e))
      | .ok json => pushJson T s json

def readFrame (s : ReadState σ) (frame : List UInt8) : Except (Stop σ) (ReadState σ) :=
  match Text.fromUtf8 frame with
  | none => s.fail (.stream ("SSE frame UTF-8 error: " ++ env.utf8Error frame))
  | some block => (Text.lines block).foldlM (readLine T env) s

def frameCutter : Cutter UInt8 (List UInt8) := sepCutter [10, 10] (by decide)

def finishReport (s : ReadState σ) : Report :=
  ⟨s.sent ++ (T.finish s.translator).map .ok, s.pushed, true⟩

def conclude (ending : BodyEnd) : Except (Stop σ) (ReadState σ) → Report
  | .error (.returned s) => ⟨s.sent, s.pushed, false⟩
  | .error (.done s) => finishReport T s
  | .ok s =>
    match ending with
    | .eof => finishReport T s
    | .failed msg => ⟨s.sent ++ [.error (.stream ("stream error: " ++ msg))], s.pushed, false⟩

def readTask (chunks : List (List UInt8)) (ending : BodyEnd) : Report :=
  conclude T ending
    ((feed frameCutter (readFrame T env) ⟨T.init, [], []⟩ [] chunks).map Prod.fst)

inductive Signal where
  | done
  | json (v : Value)
  | badJson (message : String)
  | badUtf8 (message : String)

def lineSignal (line : Text) : Option Signal :=
  match Text.stripPrefix "data:".toList (Text.trimStart line) with
  | none => none
  | some d =>
    let data := Text.trim d
    if data = "[DONE]".toList then some .done
    else if data.isEmpty then none
    else
      match env.serde.fromStr (String.ofList data) with
      | .error e => some (.badJson e)
      | .ok v => some (.json v)

def frameSignals (frame : List UInt8) : List Signal :=
  match Text.fromUtf8 frame with
  | none => [.badUtf8 (env.utf8Error frame)]
  | some block => (Text.lines block).filterMap (lineSignal env)

def signals (b : List UInt8) : List Signal := (frames frameCutter b).1.flatMap (frameSignals env)

def onSignal (s : ReadState σ) : Signal → Except (Stop σ) (ReadState σ)
  | .done => .error (.done s)
  | .json v => pushJson T s v
  | .badJson e => s.fail (.stream ("bad SSE json: " ++ e))
  | .badUtf8 e => s.fail (.stream ("SSE frame UTF-8 error: " ++ e))

theorem readLine_eq (line : Text) :
    readLine T env s line = (lineSignal env line).toList.foldlM (onSignal T) s := by
  unfold readLine lineSignal
  cases Text.stripPrefix "data:".toList (Text.trimStart line) with
  | none => rfl
  | some d =>
    simp only
    split
    · rfl
    · split
      · rfl
      · cases env.serde.fromStr (String.ofList (Text.trim d)) with
        | error e => rfl
        | ok v =>
          simp only [Option.toList_some, foldlM_cons, foldlM_nil, onSignal]
          exact (bind_pure _).symm

theorem readLines_eq (ls : List Text) :
    ls.foldlM (readLine T env) s = (ls.filterMap (lineSignal env)).foldlM (onSignal T) s := by
  induction ls generalizing s with
  | nil => rfl
  | cons l ls ih =>
    rw [foldlM_cons, readLine_eq]
    cases hl : lineSignal env l with
    | none =>
      rw [filterMap_cons_none hl]
      exact ih s
    | some sig =>
      rw [filterMap_cons_some hl, foldlM_cons]
      simp only [Option.toList_some, foldlM_cons, foldlM_nil, bind_pure]
      exact bind_congr ih

theorem readFrame_eq (frame : List UInt8) :
    readFrame T env s frame = (frameSignals env frame).foldlM (onSignal T) s := by
  unfold readFrame frameSignals
  cases Text.fromUtf8 frame with
  | none => rfl
  | some block => exact readLines_eq T env s (Text.lines block)

theorem readFrames_eq (fs : List (List UInt8)) :
    fs.foldlM (readFrame T env) s = (fs.flatMap (frameSignals env)).foldlM (onSignal T) s := by
  induction fs generalizing s with
  | nil => rfl
  | cons f fs ih =>
    rw [foldlM_cons, readFrame_eq, flatMap_cons, foldlM_append]
    exact bind_congr ih

/-- **The task reads signals.**  However the body is cut, the task goes through the signals
of its bytes. -/
theorem readTask_eq (chunks : List (List UInt8)) (ending : BodyEnd) : readTask T env chunks ending =
      conclude T ending ((signals env chunks.flatten).foldlM (onSignal T) ⟨T.init, [], []⟩) := by
  unfold readTask
  rw [feed_eq_drain _ _ _ _ [] (cut_nil _), nil_append, drain_eq_foldlM, readFrames_eq]
  unfold signals
  cases ((frames frameCutter chunks.flatten).1.flatMap (frameSignals env)).foldlM (onSignal T)
    ⟨T.init, [], []⟩ <;> rfl

end

/-- **Chunking independence.**  Two ways of cutting one body give the same items. -/
theorem readTask_chunking {σ : Type} (T : SseTranslator σ) (env : EgressEnv) (ending : BodyEnd)
    (body : List UInt8) (cs ds : List (List UInt8)) (hc : cs.flatten = body)
    (hd : ds.flatten = body) :
    (readTask T env cs ending).sent = (readTask T env ds ending).sent := by
  rw [readTask_eq, readTask_eq, hc, hd]

def emptyObjectEnv : EgressEnv where
  serde := ⟨fun s => if s = "\x7b\x7d" then .ok (.object []) else .error "expected value", fun _ => "\x7b\x7d"⟩
  utf8Error _ := "invalid utf-8"

theorem readTask_chunking_boundary : let T := chatSse emptyObjectEnv.serde
    (readTask T emptyObjectEnv [Text.bytes "data: \x7b\x7d\n".toList, Text.bytes "\n".toList] .eof).sent =
      (readTask T emptyObjectEnv [Text.bytes "data: \x7b\x7d\n\n".toList] .eof).sent :=
  readTask_chunking (chatSse emptyObjectEnv.serde) emptyObjectEnv .eof
    (Text.bytes "data: \x7b\x7d\n\n".toList) _ _ (by decide) (by decide)

end LlmSwitch
