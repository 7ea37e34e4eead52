import Codez.Switch.Translator

/-!
Chat Completions SSE chunks to response events (`connector/chat_sse.rs`).

A chunk with an `error` field ends the stream; any other chunk is read field by field, and fields
that are missing or of another type are skipped.
-/

namespace LlmSwitch

open Codex

structure ChatSseState where
  text : String := ""
  responseId : Option String := none
  finishReason : Option String := none
  usage : Option Value := none
  toolCalls : OrdMap Int ToolAcc := OrdMap.empty
  synthCounter : Nat := 0

def nonEmpty (o : Option String) : Option String := o.filter fun s => s ≠ ""

def choice0 (chunk : Value) : Option Value := ((chunk.get "choices").bind Value.asArray).bind List.head?

def pushToolCall (calls : OrdMap Int ToolAcc) (tc : Value) : OrdMap Int ToolAcc :=
  calls.alter ((tc.i64Field "index").getD 0) fun o =>
    let acc := o.getD {}
    let func := tc.get "function"
    { callId := (nonEmpty (tc.strField "id")).or acc.callId
      name := (nonEmpty (func.bind (·.strField "name"))).or acc.name
      arguments := acc.arguments ++ (func.bind (·.strField "arguments")).getD "" }

def pushChunk (serde : Serde) (st : ChatSseState) (chunk : Value) :
    Except ConnError (ChatSseState × List ResponseEvent) :=
  match chunk.get "error" with
  | some err => .error (.hardFail ("upstream error in SSE chunk: " ++ serde.display err))
  | none =>
    let st := { st with
      -- the first id is kept, of the usage the last
      responseId := st.responseId.or (nonEmpty (chunk.strField "id"))
      usage := ((chunk.get "usage").filter fun u => u ≠ .null).or st.usage }
    match choice0 chunk with
    | none => .ok (st, [])
    | some choice =>
      let delta := choice.get "delta"
      let content := nonEmpty (delta.bind (·.strField "content"))
      let tcs := ((delta.bind (·.get "tool_calls")).bind Value.asArray).getD []
      .ok ({ st with
        finishReason := (nonEmpty (choice.strField "finish_reason")).or st.finishReason
        text := st.text ++ content.getD ""
        toolCalls := tcs.foldl pushToolCall st.toolCalls }, content.toList.map .outputTextDelta)

def mapUsage (u : Value) : TokenUsage :=
  { inputTokens := (u.i64Field "prompt_tokens").getD 0
    cachedInputTokens := ((u.get "prompt_tokens_details").bind (·.i64Field "cached_tokens")).getD 0
    outputTokens := (u.i64Field "completion_tokens").getD 0
    reasoningOutputTokens := 0
    totalTokens := (u.i64Field "total_tokens").getD 0 }

namespace ChatSseState

def mapEndTurn : Option String → Option Bool
  | some "stop" => some true
  | some "tool_calls" => some false
  | some "length" => some false
  | _ => none

def finish (st : ChatSseState) : List ResponseEvent :=
  finishWith st.synthCounter (st.toolCalls.entries.map Prod.snd) st.text st.responseId
    (st.usage.map mapUsage) (mapEndTurn st.finishReason)

end ChatSseState

def chatSse (serde : Serde) : SseTranslator ChatSseState where
  init := {}
  push := pushChunk serde
  finish := ChatSseState.finish

def isErrorChunk (chunk : Value) : Bool := (chunk.get "error").isSome

def contentDelta (chunk : Value) : Option String :=
  nonEmpty (((choice0 chunk).bind (·.get "delta")).bind (·.strField "content"))

theorem chatSse_emitsText (serde : Serde) : (chatSse serde).EmitsText isErrorChunk contentDelta where
  fails s v h := by
    obtain ⟨err, he⟩ := Option.isSome_iff_exists.mp h
    exact ⟨.hardFail ("upstream error in SSE chunk: " ++ serde.display err), by simp [chatSse, pushChunk, he]⟩
  emits s v h := by
    have he : v.get "error" = none := by simpa [isErrorChunk] using h
    cases hc : choice0 v with
    | none => simp [chatSse, pushChunk, he, hc, contentDelta, nonEmpty]
    | some choice => simp [chatSse, pushChunk, he, hc, contentDelta]

end LlmSwitch
