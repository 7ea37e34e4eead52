import Codez.Json

/-!
The protocol types that llm-compress and llm-switch share with codex: the items of
a conversation (`codex-protocol`, `models.rs`), the request that carries them and
the events a model response is turned into (`codex-api`, `common.rs`).

Fields that nothing modelled here reads (`internal_chat_message_metadata_passthrough`,
the image detail, shell and search actions, telemetry payloads) are left out.
-/

namespace Codex

inductive MessagePhase where
  | commentary
  | finalAnswer
deriving DecidableEq

inductive ContentItem where
  | inputText (text : String)
  | inputImage (imageUrl : String)
  | outputText (text : String)
deriving DecidableEq

inductive AgentMessageInputContent where
  | inputText (text : String)
  | encryptedContent (encryptedContent : String)
deriving DecidableEq

inductive FunctionCallOutputContentItem where
  | inputText (text : String)
  | inputImage (imageUrl : String)
  | encryptedContent (encryptedContent : String)
deriving DecidableEq

inductive FunctionCallOutputBody where
  | text (s : String)
  | contentItems (items : List FunctionCallOutputContentItem)
deriving DecidableEq

structure FunctionCallOutputPayload where
  body : FunctionCallOutputBody
  success : Option Bool := none
deriving DecidableEq

structure Message where
  id : Option String := none
  role : String
  content : List ContentItem
  phase : Option MessagePhase := none
deriving DecidableEq

structure AgentMessage where
  author : String := ""
  recipient : String := ""
  content : List AgentMessageInputContent
deriving DecidableEq

structure FunctionCall where
  id : Option String := none
  name : String
  ns : Option String := none
  arguments : String
  callId : String
deriving DecidableEq

structure FunctionCallOutput where
  callId : String
  output : FunctionCallOutputPayload
deriving DecidableEq

structure CustomToolCall where
  callId : String
  name : String
  input : String
deriving DecidableEq

structure CustomToolCallOutput where
  callId : String
  name : Option String := none
  output : FunctionCallOutputPayload
deriving DecidableEq

inductive ResponseItem where
  | message (m : Message)
  | agentMessage (m : AgentMessage)
  | reasoning (id : Option String) (summary : List String) (encryptedContent : Option String)
  | localShellCall (callId : Option String)
  | functionCall (c : FunctionCall)
  | toolSearchCall (callId : Option String) (execution : String) (arguments : Value)
  | functionCallOutput (o : FunctionCallOutput)
  | customToolCall (c : CustomToolCall)
  | customToolCallOutput (o : CustomToolCallOutput)
  | toolSearchOutput (callId : Option String) (status execution : String) (tools : List Value)
  | webSearchCall (id status : Option String)
  | imageGenerationCall (id : Option String) (status : String) (revisedPrompt : Option String)
      (result : String)
  | compaction (encryptedContent : String)
  | compactionTrigger
  | contextCompaction (encryptedContent : Option String)
  | other
deriving DecidableEq

structure Reasoning where
  effort : Option String := none
deriving DecidableEq

structure TextFormat where
  strict : Bool
  schema : Value
  name : String
deriving DecidableEq

structure TextControls where
  format : Option TextFormat := none
deriving DecidableEq

structure ResponsesApiRequest where
  model : String := ""
  instructions : String := ""
  input : List ResponseItem := []
  tools : List Value := []
  toolChoice : String := "auto"
  parallelToolCalls : Bool := true
  reasoning : Option Reasoning := none
  text : Option TextControls := none
deriving DecidableEq

structure TokenUsage where
  inputTokens : Int
  cachedInputTokens : Int
  outputTokens : Int
  reasoningOutputTokens : Int
  totalTokens : Int
deriving DecidableEq

inductive ResponseEvent where
  | created
  | safetyBuffering
  | outputItemDone (item : ResponseItem)
  | outputItemAdded (item : ResponseItem)
  | serverModel
  | modelVerifications
  | turnModerationMetadata
  | serverReasoningIncluded
  | completed (responseId : String) (tokenUsage : Option TokenUsage) (endTurn : Option Bool)
  | outputTextDelta (delta : String)
  | toolCallInputDelta (callId : Option String) (delta : String)
  | reasoningSummaryDelta (delta : String)
  | reasoningContentDelta (delta : String)
  | reasoningSummaryPartAdded
  | rateLimits
  | modelsEtag
deriving DecidableEq

inductive ApiError where
  | stream (message : String)
  | api (status : Nat) (message : String)
  | invalidRequest (message : String)
deriving DecidableEq

end Codex
