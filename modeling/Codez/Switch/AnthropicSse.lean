import Codez.Switch.Translator

/-!
Anthropic Messages SSE events to response events (`connector/anthropic_sse.rs`).
-/

namespace LlmSwitch

open Codex

structure BlockAcc where
  isToolUse : Bool := false
  callId : Option String := none
  name : Option String := none
  partialJson : String := ""

structure AnthropicSseState where
  text : String := ""
  responseId : Option String := none
  stopReason : Option String := none
  inputTokens : Int := 0
  cachedInputTokens : Int := 0
  cacheCreationInputTokens : Int := 0
  outputTokens : Int := 0
  blocks : OrdMap Int BlockAcc := OrdMap.empty
  synthCounter : Nat := 0

def blockIndex (evt : Value) : Int := (evt.i64Field "index").getD 0

def pushMessageStart (st : AnthropicSseState) (message : Value) : AnthropicSseState :=
  let usage := message.get "usage"
  { st with
    responseId := st.responseId.or ((message.strField "id").filter fun s => s ≠ "")
    inputTokens := (usage.bind (·.i64Field "input_tokens")).getD st.inputTokens
    cachedInputTokens := (usage.bind (·.i64Field "cache_read_input_tokens")).getD st.cachedInputTokens
    cacheCreationInputTokens :=
      (usage.bind (·.i64Field "cache_creation_input_tokens")).getD st.cacheCreationInputTokens }

def startBlock (cb : Option Value) (acc : BlockAcc) : BlockAcc :=
  if cb.bind (·.strField "type") = some "tool_use" then
    { acc with
      isToolUse := true
      callId := cb.bind (·.strField "id")
      name := cb.bind (·.strField "name") }
  else acc

def updateBlock (st : AnthropicSseState) (idx : Int) (f : BlockAcc → BlockAcc) : AnthropicSseState :=
  { st with blocks := st.blocks.alter idx fun o => f (o.getD {}) }

def pushBlockDelta (st : AnthropicSseState) (idx : Int) (delta : Option Value) :
    AnthropicSseState × List ResponseEvent :=
  match delta.bind (·.strField "type") with
  | some "text_delta" =>
    match delta.bind (·.strField "text") with
    | some t => ({ st with text := st.text ++ t }, [.outputTextDelta t])
    | none => (st, [])
  | some "input_json_delta" =>
    match delta.bind (·.strField "partial_json") with
    | some p => (updateBlock st idx fun acc => { acc with partialJson := acc.partialJson ++ p }, [])
    | none => (st, [])
  | _ => (st, [])

def pushEvent (serde : Serde) (st : AnthropicSseState) (evt : Value) :
    Except ConnError (AnthropicSseState × List ResponseEvent) :=
  match evt.strField "type" with
  | some "error" =>
    .error (.hardFail ("anthropic upstream error: " ++ ((evt.get "error").map serde.display).getD ""))
  | some "message_start" =>
    match evt.get "message" with
    | some message => .ok (pushMessageStart st message, [])
    | none => .ok (st, [])
  | some "content_block_start" =>
    .ok (updateBlock st (blockIndex evt) (startBlock (evt.get "content_block")), [])
  | some "content_block_delta" => .ok (pushBlockDelta st (blockIndex evt) (evt.get "delta"))
  | some "message_delta" =>
    .ok ({ st with
      stopReason := ((evt.get "delta").bind (·.strField "stop_reason")).or st.stopReason
      outputTokens := ((evt.get "usage").bind (·.i64Field "output_tokens")).getD st.outputTokens }, [])
  | _ => .ok (st, [])

def wrapI64 (x : Int) : Int := (x + 2 ^ 63) % 2 ^ 64 - 2 ^ 63

def BlockAcc.toCall (acc : BlockAcc) : Option ToolAcc :=
  if acc.isToolUse then
    some { callId := acc.callId, name := acc.name,
           arguments := if acc.partialJson = "" then "\x7b\x7d" else acc.partialJson }
  else none

namespace AnthropicSseState

def mapEndTurn : Option String → Option Bool
  | some "end_turn" => some true
  | some "tool_use" => some false
  | _ => none

def finish (st : AnthropicSseState) : List ResponseEvent :=
  finishWith st.synthCounter (st.blocks.entries.filterMap fun e => e.2.toCall) st.text st.responseId
    (some
      { inputTokens := st.inputTokens
        cachedInputTokens := st.cachedInputTokens
        outputTokens := st.outputTokens
        reasoningOutputTokens := 0
        totalTokens := wrapI64
          (st.cachedInputTokens + st.cacheCreationInputTokens + st.inputTokens + st.outputTokens) })
    (mapEndTurn st.stopReason)

end AnthropicSseState

def anthropicSse (serde : Serde) : SseTranslator AnthropicSseState where
  init := {}
  push := pushEvent serde
  finish := AnthropicSseState.finish

def isErrorEvent (evt : Value) : Bool := evt.strField "type" = some "error"

def textDelta (evt : Value) : Option String :=
  if evt.strField "type" = some "content_block_delta" ∧
      (evt.get "delta").bind (·.strField "type") = some "text_delta" then
    (evt.get "delta").bind (·.strField "text")
  else none

def jsonFragment (evt : Value) : Option (Int × String) :=
  if evt.strField "type" = some "content_block_delta" ∧
      (evt.get "delta").bind (·.strField "type") = some "input_json_delta" then
    ((evt.get "delta").bind (·.strField "partial_json")).map fun p => (blockIndex evt, p)
  else none

def toolUseStart (evt : Value) : Option Int :=
  if evt.strField "type" = some "content_block_start" ∧
      (evt.get "content_block").bind (·.strField "type") = some "tool_use" then
    some (blockIndex evt)
  else none

variable (st : AnthropicSseState) (evt : Value) (serde : Serde)

theorem pushBlockDelta_events (h : evt.strField "type" = some "content_block_delta") :
    (pushBlockDelta st (blockIndex evt) (evt.get "delta")).2 =
      (textDelta evt).toList.map .outputTextDelta := by
  unfold pushBlockDelta
  split
  · next ht =>
    simp only [textDelta, h, ht]
    split <;> next hx => simp [hx]
  · next ht =>
    simp only [textDelta, h, ht]
    split <;> simp
  · next ht _ =>
    rw [textDelta, if_neg fun hc => ht hc.2]
    rfl

theorem anthropicSse_emitsText : (anthropicSse serde).EmitsText isErrorEvent textDelta where
  fails s v h := by
    have ht : v.strField "type" = some "error" := by simpa [isErrorEvent] using h
    exact ⟨.hardFail ("anthropic upstream error: " ++ ((v.get "error").map serde.display).getD ""),
      by simp [anthropicSse, pushEvent, ht]⟩
  emits s v h := by
    have ht : v.strField "type" ≠ some "error" := by simpa [isErrorEvent] using h
    simp only [anthropicSse]
    unfold pushEvent
    split
    · contradiction
    · next hs =>
      split <;> simp [textDelta, hs]
    · next hs => simp [textDelta, hs]
    · next hs =>
      rw [← pushBlockDelta_events s v hs]
      exact ⟨_, rfl⟩
    · next hs => simp [textDelta, hs]
    · next hs _ =>
      rw [textDelta, if_neg fun hc => hs hc.1]
      exact ⟨s, rfl⟩

def AnthropicSseState.block (st : AnthropicSseState) (i : Int) : BlockAcc := (st.blocks.get? i).getD {}

def fragmentAt (i : Int) (evt : Value) : String :=
  match jsonFragment evt with
  | some (j, p) => if i = j then p else ""
  | none => ""

def blockJson (i : Int) (evts : List Value) : String := evts.foldr (fun e s => fragmentAt i e ++ s) ""

def blockIsTool (i : Int) (evts : List Value) : Bool := evts.any fun e => toolUseStart e = some i

open AnthropicSseState

theorem block_updateBlock (idx i : Int) (f : BlockAcc → BlockAcc) :
    (updateBlock st idx f).block i = if i = idx then f (st.block i) else st.block i := by
  unfold updateBlock block
  rw [OrdMap.get?_alter]
  split
  · next h => subst h; rfl
  · rfl

theorem fragmentAt_of_ne (i : Int) (evt : Value)
    (h : evt.strField "type" ≠ some "content_block_delta") : fragmentAt i evt = "" := by
  rw [fragmentAt, jsonFragment, if_neg fun hc => h hc.1]

theorem toolUseStart_of_ne (h : evt.strField "type" ≠ some "content_block_start") :
    toolUseStart evt = none := by
  rw [toolUseStart, if_neg fun hc => h hc.1]

def blockCallId (evt : Value) : Option String := (evt.get "content_block").bind (·.strField "id")

def blockAfter (i : Int) (acc : BlockAcc) (evt : Value) : BlockAcc :=
  if toolUseStart evt = some i then
    { acc with
      isToolUse := true
      callId := blockCallId evt
      name := (evt.get "content_block").bind (·.strField "name") }
  else { acc with partialJson := acc.partialJson ++ fragmentAt i evt }

theorem blockAfter_of_ne (i : Int) (acc : BlockAcc) (evt : Value) (hs : toolUseStart evt = none)
    (hf : fragmentAt i evt = "") : blockAfter i acc evt = acc := by
  simp [blockAfter, hs, hf]

theorem pushBlockDelta_block (h : evt.strField "type" = some "content_block_delta") (i : Int) :
    (pushBlockDelta st (blockIndex evt) (evt.get "delta")).1.block i = blockAfter i (st.block i) evt := by
  have hs : toolUseStart evt = none := toolUseStart_of_ne evt (by simp [h])
  unfold pushBlockDelta
  split
  · next hd =>
    rw [blockAfter_of_ne i _ evt hs (by simp [fragmentAt, jsonFragment, hd])]
    split <;> rfl
  · next hd =>
    split
    · next p hp =>
      simp only [block_updateBlock, blockAfter, hs]
      by_cases hi : i = blockIndex evt <;> simp [hi, fragmentAt, jsonFragment, h, hd, hp]
    · next hp => rw [blockAfter_of_ne i _ evt hs (by simp [fragmentAt, jsonFragment, hp])]
  · next hd =>
    rw [blockAfter_of_ne i _ evt hs (by rw [fragmentAt, jsonFragment, if_neg fun hc => hd hc.2])]

theorem startBlock_block (h : evt.strField "type" = some "content_block_start") (i : Int) :
    (updateBlock st (blockIndex evt) (startBlock (evt.get "content_block"))).block i =
      blockAfter i (st.block i) evt := by
  rw [block_updateBlock, blockAfter, fragmentAt_of_ne i evt (by simp [h])]
  by_cases hi : i = blockIndex evt
  · simp only [startBlock, if_pos hi, toolUseStart, h, true_and]
    split <;> simp [hi, blockCallId]
  · have hn : toolUseStart evt ≠ some i := by
      simp only [toolUseStart]
      split <;> simp [Ne.symm hi]
    simp [hi, hn]

theorem pushEvent_blockAfter (st st' : AnthropicSseState) (evt : Value) (evs : List ResponseEvent)
    (h : pushEvent serde st evt = .ok (st', evs)) (i : Int) :
    st'.block i = blockAfter i (st.block i) evt := by
  -- an event of another type leaves the blocks alone
  have other : st'.blocks = st.blocks → evt.strField "type" ≠ some "content_block_delta" →
      evt.strField "type" ≠ some "content_block_start" →
      st'.block i = blockAfter i (st.block i) evt := by
    intro hb hd hs
    rw [blockAfter_of_ne i _ evt (toolUseStart_of_ne evt hs) (fragmentAt_of_ne i evt hd),
      block, hb]
    rfl
  unfold pushEvent at h
  split at h
  · cases h
  · next ht =>
    refine other ?_ (by simp [ht]) (by simp [ht])
    split at h <;> (cases h; rfl)
  · next ht =>
    cases h
    exact startBlock_block st evt ht i
  · next ht =>
    rw [← pushBlockDelta_block st evt ht i, Except.ok.inj h]
  · next ht =>
    cases h
    exact other rfl (by simp [ht]) (by simp [ht])
  · next hs hd _ =>
    cases h
    exact other rfl hd hs

theorem pushEvent_block (st st' : AnthropicSseState) (evt : Value) (evs : List ResponseEvent)
    (h : pushEvent serde st evt = .ok (st', evs)) (i : Int) :
    (st'.block i).partialJson = (st.block i).partialJson ++ fragmentAt i evt ∧
      (st'.block i).isToolUse = ((st.block i).isToolUse || decide (toolUseStart evt = some i)) := by
  rw [pushEvent_blockAfter serde st st' evt evs h i, blockAfter]
  split
  · next hs =>
    have hst : evt.strField "type" = some "content_block_start" := by
      by_contra hne
      rw [toolUseStart_of_ne evt hne] at hs
      cases hs
    rw [fragmentAt_of_ne i evt (by simp [hst])]
    simp [hs]
  · next hs => simp [hs]

/-- **Blocks of a run.**  After a run without error, block `i` holds the fragments that
name it, in order, and is a tool call when some event declared it one. -/
theorem pushAll_block (vs : List Value) (st st' : AnthropicSseState)
    (h : ((anthropicSse serde).pushAll st vs).2 = .ok st') (i : Int) :
    (st'.block i).partialJson = (st.block i).partialJson ++ blockJson i vs ∧
      (st'.block i).isToolUse = ((st.block i).isToolUse || blockIsTool i vs) := by
  induction vs generalizing st with
  | nil =>
    cases h
    simp [blockJson, blockIsTool]
  | cons v vs ih =>
    simp only [SseTranslator.pushAll] at h
    cases hp : (anthropicSse serde).push st v with
    | error e => simp [hp] at h
    | ok r =>
      obtain ⟨st1, evs⟩ := r
      simp only [hp] at h
      obtain ⟨hj, ht⟩ := pushEvent_block serde st st1 v evs hp i
      obtain ⟨hj', ht'⟩ := ih st1 h
      rw [hj', hj, ht', ht]
      simp [blockJson, blockIsTool, String.append_assoc, Bool.or_assoc]

theorem mem_calls_iff (t : ToolAcc) :
    t ∈ st.blocks.entries.filterMap (fun e => e.2.toCall) ↔ ∃ i, (st.block i).toCall = some t := by
  rw [List.mem_filterMap]
  constructor
  · rintro ⟨⟨i, acc⟩, hm, ht⟩
    refine ⟨i, ?_⟩
    rw [OrdMap.mem_entries_iff] at hm
    simpa [block, hm] using ht
  · rintro ⟨i, ht⟩
    cases hg : st.blocks.get? i with
    | none => simp [block, hg, BlockAcc.toCall] at ht
    | some acc =>
      refine ⟨(i, acc), (OrdMap.mem_entries_iff st.blocks i acc).mpr hg, ?_⟩
      simpa [block, hg] using ht

end LlmSwitch
