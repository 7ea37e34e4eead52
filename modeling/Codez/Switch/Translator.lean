import Codez.Protocol

/-!
Connector errors and the SSE state machine abstraction (`connector/mod.rs`), with what the two
connectors share.
-/

namespace LlmSwitch

open Codex List

inductive ConnError where
  | hardFail (message : String)
  | http (e : ApiError)
deriving DecidableEq

def ConnError.toApiError : ConnError → ApiError
  | .http api => api
  | .hardFail msg => .invalidRequest msg

def variantName : ResponseItem → String
  | .message _ => "Message"
  | .agentMessage _ => "AgentMessage"
  | .reasoning .. => "Reasoning"
  | .localShellCall _ => "LocalShellCall"
  | .functionCall _ => "FunctionCall"
  | .toolSearchCall .. => "ToolSearchCall"
  | .functionCallOutput _ => "FunctionCallOutput"
  | .customToolCall _ => "CustomToolCall"
  | .customToolCallOutput _ => "CustomToolCallOutput"
  | .toolSearchOutput .. => "ToolSearchOutput"
  | .webSearchCall .. => "WebSearchCall"
  | .imageGenerationCall .. => "ImageGenerationCall"
  | .compaction _ => "Compaction"
  | .compactionTrigger => "CompactionTrigger"
  | .contextCompaction _ => "ContextCompaction"
  | .other => "Other"

/-- `push` and `finish` take `&mut self`: the new state is returned.  A translator is not used
again after an error or after `finish`, so neither returns a state. -/
structure SseTranslator (σ : Type) where
  init : σ
  push : σ → Value → Except ConnError (σ × List ResponseEvent)
  finish : σ → List ResponseEvent

namespace SseTranslator

variable {σ : Type} (T : SseTranslator σ)

def pushAll : σ → List Value → List ResponseEvent × Except ConnError σ
  | s, [] => ([], .ok s)
  | s, v :: vs =>
    match T.push s v with
    | .error e => ([], .error e)
    | .ok (s', evs) => (evs ++ (pushAll s' vs).1, (pushAll s' vs).2)

/-- Everything a run hands to its consumer: a run that failed is not finished. -/
def emitted (vs : List Value) : List ResponseEvent :=
  match T.pushAll T.init vs with
  | (evs, .ok s) => evs ++ T.finish s
  | (evs, .error _) => evs

def translate (vs : List Value) (done : Bool) : Except ConnError (List ResponseEvent) :=
  match T.pushAll T.init vs with
  | (evs, .ok s) => .ok (if done then evs ++ T.finish s else evs)
  | (_, .error e) => .error e

/-- Pushing fails exactly on the values with `err`, and emits the text of `delta`, if any. -/
structure EmitsText (err : Value → Bool) (delta : Value → Option String) : Prop where
  fails : ∀ s v, err v = true → ∃ e, T.push s v = .error e
  emits : ∀ s v, err v = false → ∃ s', T.push s v = .ok (s', (delta v).toList.map .outputTextDelta)

variable {T} {err : Value → Bool} {delta : Value → Option String}

theorem EmitsText.pushAll_events (h : T.EmitsText err delta) (s : σ) (vs : List Value) : (T.pushAll s vs).1 =
      ((vs.takeWhile fun v => !err v).filterMap delta).map .outputTextDelta := by
  induction vs generalizing s with
  | nil => rfl
  | cons v vs ih =>
    cases he : err v with
    | true =>
      obtain ⟨e, hp⟩ := h.fails s v he
      simp [pushAll, hp, he]
    | false =>
      obtain ⟨s', hp⟩ := h.emits s v he
      simp only [pushAll, hp, ih s', takeWhile_cons, he]
      cases hd : delta v <;> simp [hd]

theorem EmitsText.pushAll_ok (h : T.EmitsText err delta) (s : σ) (vs : List Value)
    (hvs : ∀ v ∈ vs, err v = false) :
    ∃ s', T.pushAll s vs = ((vs.filterMap delta).map .outputTextDelta, .ok s') := by
  induction vs generalizing s with
  | nil => exact ⟨s, rfl⟩
  | cons v vs ih =>
    rw [forall_mem_cons] at hvs
    obtain ⟨s', hp⟩ := h.emits s v hvs.1
    obtain ⟨s'', hps⟩ := ih s' hvs.2
    refine ⟨s'', ?_⟩
    rw [pushAll, hp]
    cases hd : delta v <;> simp [hps, hd]

theorem pushAll_observe {ω : Type} (obs : σ → ω) (next : ω → Value → ω)
    (hst : ∀ s v s' evs, T.push s v = .ok (s', evs) → obs s' = next (obs s) v) (vs : List Value)
    (s s' : σ) (h : (T.pushAll s vs).2 = .ok s') : obs s' = vs.foldl next (obs s) := by
  induction vs generalizing s with
  | nil =>
    cases h
    rfl
  | cons v vs ih =>
    simp only [pushAll] at h
    cases hp : T.push s v with
    | error e => simp [hp] at h
    | ok r =>
      obtain ⟨s1, evs⟩ := r
      simp only [hp] at h
      rw [ih s1 h, hst s v s1 evs hp, foldl_cons]

theorem translate_of_pushAll {vs : List Value} {evs : List ResponseEvent} {s : σ}
    (h : T.pushAll T.init vs = (evs, .ok s)) : T.translate vs true = .ok (evs ++ T.finish s) := by
  rw [translate, h]
  rfl

theorem pushAll_append (s : σ) (xs ys : List Value) : T.pushAll s (xs ++ ys) = match T.pushAll s xs with
    | (evs, .ok s') => (evs ++ (T.pushAll s' ys).1, (T.pushAll s' ys).2)
    | (evs, .error e) => (evs, .error e) := by
  induction xs generalizing s with
  | nil => simp [pushAll]
  | cons x xs ih =>
    rw [cons_append, pushAll, pushAll]
    cases T.push s x with
    | error e => rfl
    | ok r =>
      dsimp only
      rw [ih r.1]
      cases T.pushAll r.1 xs with
      | mk evs res => cases res <;> simp

theorem pushAll_swap (xs : List Value) (v w : Value) (ys : List Value)
    (h : ∀ s, T.pushAll s [v, w] = T.pushAll s [w, v]) (s : σ) :
    T.pushAll s (xs ++ v :: w :: ys) = T.pushAll s (xs ++ w :: v :: ys) := by
  have hmid : ∀ s, T.pushAll s (v :: w :: ys) = T.pushAll s (w :: v :: ys) := by
    intro s
    have h1 := pushAll_append (T := T) s [v, w] ys
    have h2 := pushAll_append (T := T) s [w, v] ys
    rw [h s, ← h2] at h1
    exact h1
  rw [pushAll_append, pushAll_append]
  simp only [hmid]

end SseTranslator

structure ToolAcc where
  callId : Option String := none
  name : Option String := none
  arguments : String := ""

def synthId (kind : String) (n : Nat) : String := "llmswitch-" ++ kind ++ "-" ++ Nat.repr n

def finishCalls : Nat → List ToolAcc → List FunctionCall × Nat
  | n, [] => ([], n)
  | n, acc :: accs =>
    let n' := if acc.callId.isSome then n else n + 1
    let rest := finishCalls n' accs
    ({ name := acc.name.getD "", arguments := acc.arguments,
       callId := acc.callId.getD (synthId "call" n') } :: rest.1, rest.2)

def assistantMessage (text : String) : ResponseItem :=
  .message { role := "assistant", content := [.outputText text] }

def finishItems (calls : List FunctionCall) (text : String) : List ResponseItem :=
  calls.map .functionCall ++ if text = "" then [] else [assistantMessage text]

/-- The part the two `finish` functions share (`synth_counter` never comes near 2^64). -/
def finishWith (counter : Nat) (accs : List ToolAcc) (text : String) (responseId : Option String)
    (usage : Option TokenUsage) (endTurn : Option Bool) : List ResponseEvent :=
  let calls := finishCalls counter accs
  (finishItems calls.1 text).map .outputItemDone ++
    [.completed (responseId.getD (synthId "resp" (calls.2 + 1))) usage endTurn]

def doneItems (evs : List ResponseEvent) : List ResponseItem :=
  evs.filterMap fun
    | .outputItemDone item => some item
    | _ => none

@[simp] theorem doneItems_append (a b : List ResponseEvent) :
    doneItems (a ++ b) = doneItems a ++ doneItems b := by
  simp [doneItems]

@[simp] theorem doneItems_deltas (ts : List String) : doneItems (ts.map .outputTextDelta) = [] := by
  simp [doneItems]

@[simp] theorem doneItems_finishWith (n : Nat) (accs : List ToolAcc) (text : String)
    (rid : Option String) (u : Option TokenUsage) (e : Option Bool) :
    doneItems (finishWith n accs text rid u e) = finishItems (finishCalls n accs).1 text := by
  simp [doneItems, finishWith, filterMap_map]

theorem finishCalls_arguments (n : Nat) (accs : List ToolAcc) :
    (finishCalls n accs).1.map (·.arguments) = accs.map (·.arguments) := by
  induction accs generalizing n with
  | nil => rfl
  | cons acc accs ih => simp [finishCalls, ih]

theorem finishCalls_ns (n : Nat) (accs : List ToolAcc) : ∀ c ∈ (finishCalls n accs).1, c.ns = none := by
  induction accs generalizing n with
  | nil => simp [finishCalls]
  | cons acc accs ih =>
    intro c hc
    rcases mem_cons.mp hc with rfl | hc
    · rfl
    · exact ih _ c hc

end LlmSwitch
