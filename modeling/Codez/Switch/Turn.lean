import Codez.Switch.ChatSse
import Codez.Switch.AnthropicSse

/-!
The consumer of the response events: the event match of `try_run_sampling_request`
(`core/src/session/turn.rs`), as far as the active item goes.

An `OutputItemAdded` for a non-tool item opens an item, any `OutputItemDone` closes it, and the delta
events need an open one: without it they reach `error_or_panic` (`errors` collects the messages).
-/

namespace LlmSwitch

open Codex List

inductive TurnItem where
  | hookPrompt
  | userMessage
  | agentMessage
  | reasoning
  | webSearch
  | imageGeneration
deriving DecidableEq

/-- What the loop takes from the rest of the session: how a user message reads, and whether
the loop is left at a completed item (its handling failed, or mail is waiting). -/
structure TurnEnv where
  parseUserMessage : List ContentItem → Option TurnItem
  leavesAt : ResponseItem → Bool

def parseTurnItem (env : TurnEnv) : ResponseItem → Option TurnItem
  | .message m =>
    if m.role = "user" then env.parseUserMessage m.content
    else if m.role = "assistant" then some .agentMessage
    else none
  | .reasoning .. => some .reasoning
  | .webSearchCall .. => some .webSearch
  | .imageGenerationCall id .. => id.map fun _ => .imageGeneration
  | _ => none

def handleNonToolResponseItem (env : TurnEnv) (item : ResponseItem) : Option TurnItem :=
  match item with
  | .message _ | .reasoning .. | .webSearchCall .. | .imageGenerationCall .. => parseTurnItem env item
  | _ => none

structure TurnState where
  activeItem : Option TurnItem := none
  errors : List String := []

def TurnState.needItem (s : TurnState) (kind : String) : TurnState :=
  if s.activeItem.isSome then s
  else { s with errors := s.errors ++ [kind ++ " without active item"] }

def turnStep (env : TurnEnv) (s : TurnState) : ResponseEvent → TurnState × Bool
  | .outputItemDone item => ({ s with activeItem := none }, !env.leavesAt item)
  | .outputItemAdded item =>
    ({ s with activeItem := (handleNonToolResponseItem env item).or s.activeItem }, true)
  | .completed .. => (s, false)
  | .outputTextDelta _ => (s.needItem "OutputTextDelta", true)
  | .reasoningSummaryDelta _ => (s.needItem "ReasoningSummaryDelta", true)
  | .reasoningSummaryPartAdded => (s.needItem "ReasoningSummaryPartAdded", true)
  | .reasoningContentDelta _ => (s.needItem "ReasoningRawContentDelta", true)
  | _ => (s, true)

def turnRun (env : TurnEnv) : TurnState → List ResponseEvent → TurnState
  | s, [] => s
  | s, e :: evs =>
    match turnStep env s e with
    | (s', true) => turnRun env s' evs
    | (s', false) => s'

def strayDelta : String := "OutputTextDelta without active item"

def itemOpen (env : TurnEnv) (s : TurnState) (evs : List ResponseEvent) : Bool :=
  (evs.foldl (fun s e => (turnStep env s e).1) s).activeItem.isSome

def DeltasInsideItems (env : TurnEnv) (s : TurnState) (evs : List ResponseEvent) : Prop :=
  ∀ pre d post, evs = pre ++ .outputTextDelta d :: post → itemOpen env s pre = true

theorem needItem_errors (s : TurnState) (kind msg : String)
    (h : msg ∈ (s.needItem kind).errors) :
    msg ∈ s.errors ∨ (s.activeItem = none ∧ msg = kind ++ " without active item") := by
  unfold TurnState.needItem at h
  split at h
  · exact .inl h
  · next hn =>
    rcases mem_append.mp h with h | h
    · exact .inl h
    · exact .inr ⟨by simpa using hn, by simpa using h⟩

theorem stray_mem_turnStep (env : TurnEnv) (s : TurnState) (e : ResponseEvent)
    (h : strayDelta ∈ (turnStep env s e).1.errors) :
    strayDelta ∈ s.errors ∨ (s.activeItem = none ∧ ∃ d, e = .outputTextDelta d) := by
  cases e with
  | outputTextDelta d =>
    rcases needItem_errors s _ _ h with h | h
    · exact .inl h
    · exact .inr ⟨h.1, d, rfl⟩
  | reasoningSummaryDelta d | reasoningSummaryPartAdded | reasoningContentDelta d =>
    rcases needItem_errors s _ _ h with h | h
    · exact .inl h
    · exact absurd h.2 (by decide)
  | _ => exact .inl h

/-- **The protocol is enough.**  When every text delta stands inside an item, the loop never
reaches the error for a text delta without one. -/
theorem stray_not_mem_turnRun (env : TurnEnv) (s : TurnState) (evs : List ResponseEvent)
    (h : DeltasInsideItems env s evs) (hs : strayDelta ∉ s.errors) :
    strayDelta ∉ (turnRun env s evs).errors := by
  induction evs generalizing s with
  | nil => exact hs
  | cons e evs ih =>
    have hs' : strayDelta ∉ (turnStep env s e).1.errors := by
      intro hm
      rcases stray_mem_turnStep env s e hm with hm | ⟨hn, d, rfl⟩
      · exact hs hm
      · have := h [] d evs rfl
        simp [itemOpen, hn] at this
    have h' : DeltasInsideItems env (turnStep env s e).1 evs := by
      intro pre d post he
      exact h (e :: pre) d post (by rw [he]; rfl)
    have hrun := ih _ h' hs'
    unfold turnRun
    cases ht : turnStep env s e with
    | mk s' more =>
      rw [ht] at hs' hrun
      cases more with
      | true => exact hrun
      | false => exact hs'

theorem stray_mem_turnRun_of_errors (env : TurnEnv) (s : TurnState) (evs : List ResponseEvent)
    (hs : strayDelta ∈ s.errors) : strayDelta ∈ (turnRun env s evs).errors := by
  have step : ∀ (s : TurnState) (kind : String), strayDelta ∈ s.errors →
      strayDelta ∈ (s.needItem kind).errors := by
    intro s kind hs
    unfold TurnState.needItem
    split
    · exact hs
    · exact mem_append_left _ hs
  induction evs generalizing s with
  | nil => exact hs
  | cons e evs ih =>
    have hs' : strayDelta ∈ (turnStep env s e).1.errors := by
      cases e with
      | outputTextDelta d | reasoningSummaryDelta d | reasoningSummaryPartAdded => exact step s _ hs
      | reasoningContentDelta d => exact step s _ hs
      | _ => exact hs
    unfold turnRun
    cases ht : turnStep env s e with
    | mk s' more =>
      rw [ht] at hs'
      cases more with
      | true => exact ih s' hs'
      | false => exact hs'

theorem textDelta_not_mem_finishWith (n : Nat) (accs : List ToolAcc) (text : String)
    (rid : Option String) (u : Option TokenUsage) (e : Option Bool) (d : String) :
    .outputTextDelta d ∉ finishWith n accs text rid u e := by
  simp [finishWith]

section
variable {σ : Type} {T : SseTranslator σ} {err : Value → Bool} {delta : Value → Option String}

theorem emitted_eq (hT : T.EmitsText err delta) (hf : ∀ s d, .outputTextDelta d ∉ T.finish s)
    (vs : List Value) :
    ∃ tail, T.emitted vs = ((vs.takeWhile fun v => !err v).filterMap delta).map .outputTextDelta ++ tail ∧
      ∀ d, .outputTextDelta d ∉ tail := by
  have hev := hT.pushAll_events T.init vs
  unfold SseTranslator.emitted
  cases hr : T.pushAll T.init vs with
  | mk evs r =>
    rw [hr] at hev
    cases r with
    | ok s => exact ⟨T.finish s, by rw [← hev], hf s⟩
    | error e => exact ⟨[], by rw [← hev, append_nil], by simp⟩

theorem emitted_respects_iff (hT : T.EmitsText err delta)
    (hf : ∀ s d, .outputTextDelta d ∉ T.finish s) (env : TurnEnv) (vs : List Value) :
    (DeltasInsideItems env {} (T.emitted vs) ↔ ∀ v ∈ vs.takeWhile (fun v => !err v), delta v = none) ∧
      (strayDelta ∉ (turnRun env {} (T.emitted vs)).errors ↔
        ∀ v ∈ vs.takeWhile (fun v => !err v), delta v = none) := by
  obtain ⟨tail, he, ht⟩ := emitted_eq hT hf vs
  rw [he]
  cases hd : (vs.takeWhile fun v => !err v).filterMap delta with
  | nil =>
    have hc : ∀ v ∈ vs.takeWhile (fun v => !err v), delta v = none := filterMap_eq_nil_iff.mp hd
    have hin : DeltasInsideItems env {} tail := by
      intro pre d post hp
      exact absurd (hp ▸ by simp) (ht d)
    exact ⟨⟨fun _ => hc, fun _ => hin⟩,
      ⟨fun _ => hc, fun _ => stray_not_mem_turnRun env {} tail hin (by simp)⟩⟩
  | cons d ds =>
    have hc : ¬ ∀ v ∈ vs.takeWhile (fun v => !err v), delta v = none := by
      rw [← filterMap_eq_nil_iff, hd]
      simp
    -- the first delta comes before anything else
    have hin : ¬ DeltasInsideItems env {} ((d :: ds).map .outputTextDelta ++ tail) := by
      intro h
      have := h [] d (ds.map .outputTextDelta ++ tail) rfl
      simp [itemOpen] at this
    have hst : strayDelta ∈ (turnRun env {} ((d :: ds).map .outputTextDelta ++ tail)).errors := by
      have hmsg : "OutputTextDelta" ++ " without active item" = strayDelta := by decide
      simp only [map_cons, cons_append, turnRun, turnStep, TurnState.needItem, hmsg]
      exact stray_mem_turnRun_of_errors env _ _ (by simp)
    exact ⟨⟨fun h => absurd h hin, fun h => absurd h hc⟩, ⟨fun h => absurd hst h, fun h => absurd h hc⟩⟩

end

/-- **Text needs an item.**  Both connectors keep the consumer's protocol, and stay clear of
its error, exactly on the inputs that stream no text before the first error: a chunk must
have no text at `choices[0].delta.content`, an event no `text_delta`. -/
theorem connectors_respect_consumer_iff (serde : Serde) (env : TurnEnv) (vs : List Value) :
    ((DeltasInsideItems env {} ((chatSse serde).emitted vs) ↔
          ∀ v ∈ vs.takeWhile (fun v => !isErrorChunk v), contentDelta v = none) ∧
        (strayDelta ∉ (turnRun env {} ((chatSse serde).emitted vs)).errors ↔
          ∀ v ∈ vs.takeWhile (fun v => !isErrorChunk v), contentDelta v = none)) ∧
      (DeltasInsideItems env {} ((anthropicSse serde).emitted vs) ↔
          ∀ v ∈ vs.takeWhile (fun v => !isErrorEvent v), textDelta v = none) ∧
        (strayDelta ∉ (turnRun env {} ((anthropicSse serde).emitted vs)).errors ↔
          ∀ v ∈ vs.takeWhile (fun v => !isErrorEvent v), textDelta v = none) :=
  ⟨emitted_respects_iff (chatSse_emitsText serde)
      (fun _ => textDelta_not_mem_finishWith _ _ _ _ _ _) env vs,
    emitted_respects_iff (anthropicSse_emitsText serde)
      (fun _ => textDelta_not_mem_finishWith _ _ _ _ _ _) env vs⟩

theorem text_reaches_stray_delta : let env : TurnEnv := ⟨fun _ => some .userMessage, fun _ => false⟩
    let serde : Serde := ⟨fun _ => .error "", fun _ => ""⟩
    let chunk := Value.mkObj
      [("choices", .array [.mkObj [("delta", .mkObj [("content", .string "hi")])]])]
    let event := Value.mkObj [("type", .string "content_block_delta"), ("index", .ofNat 0),
      ("delta", .mkObj [("type", .string "text_delta"), ("text", .string "hi")])]
    strayDelta ∈ (turnRun env {} ((chatSse serde).emitted [chunk])).errors ∧
      strayDelta ∈ (turnRun env {} ((anthropicSse serde).emitted [event])).errors := by
  decide

end LlmSwitch
