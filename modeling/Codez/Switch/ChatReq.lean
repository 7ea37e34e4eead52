import Codez.Switch.Request

/-!
Chat Completions requests (`connector/chat_req.rs`).

The items become messages in order; a result whose call was not seen is dropped, a call without a
result gets a placeholder, and `reorderToolMessages` puts the results right behind their call.
-/

namespace LlmSwitch.ChatReq

open Codex Fallible Run

def chatContentText : ContentItem → Except ConnError String
  | .inputText t => .ok t
  | .outputText t => .ok t
  | .inputImage _ =>
    .error (.hardFail "image input not supported in v1 chat connector (no capability flag)")

def mapMessage (role : String) (content : List ContentItem) : Except ConnError Value :=
  (concatText chatContentText content).map fun text =>
    .mkObj [("role", .string role), ("content", .string text)]

def chatAgentText : AgentMessageInputContent → Except ConnError String
  | .inputText t => .ok t
  | .encryptedContent _ => .error (.hardFail
    "AgentMessage contains encrypted content (EncryptedContent), v1 chat connector cannot read it")

def mapAgentMessage (content : List AgentMessageInputContent) : Except ConnError Value :=
  (concatText chatAgentText content).map fun text =>
    .mkObj [("role", .string "assistant"), ("content", .string text)]

def contentItemToText : FunctionCallOutputContentItem → Except ConnError String
  | .inputText t => .ok t
  | .inputImage _ => .error (.hardFail
    "tool result contains image content (InputImage), v1 chat connector does not support it")
  | .encryptedContent _ => .error (.hardFail
    "tool result contains encrypted content (EncryptedContent), v1 chat connector does not support it")

def chatToolMessage (callId text : String) : Value :=
  .mkObj [("role", .string "tool"), ("tool_call_id", .string callId), ("content", .string text)]

def mapFunctionCallOutput (callId : String) (output : FunctionCallOutputPayload) : Except ConnError Value :=
  (outputText contentItemToText output.body).map fun t =>
    chatToolMessage callId (if output.success = some false then "[tool error] " ++ t else t)

def chatTool (t : Value) : Value :=
  .mkObj [("type", .string "function"), ("function", .mkObj [("name", (t.get "name").getD .null),
      ("description", (t.get "description").getD .null), ("parameters", toolParameters t)])]

def mapTools (env : BuildEnv) (tools : List Value) : Except ConnError (Option (List Value)) :=
  mapToolsWith env chatTool " not supported in v1 chat connector (only standard function supported)" tools

def mapToolChoice (env : BuildEnv) (tc : String) : Except ConnError (Option Value) :=
  mapToolChoiceWith env.serde (.string "auto") (.string "none") (.string "required")
    (fun name => .mkObj [("type", .string "function"), ("function", .mkObj [("name", name)])])
    "Chat Completions" tc

structure ChatAcc where
  messages : List Value := []
  seenCalls : List String := []
  callsNeedingResult : List String := []

def ChatAcc.push (acc : ChatAcc) (msg : Value) : ChatAcc :=
  { acc with messages := acc.messages ++ [msg] }

def callMessage (c : FunctionCall) : Value :=
  .mkObj [("role", .string "assistant"),
    ("tool_calls", .array [.mkObj [("id", .string c.callId), ("type", .string "function"),
      ("function", .mkObj [("name", .string c.name), ("arguments", .string c.arguments)])]])]

def chatUnsupported : ResponseItem → String
  | .compaction _ => "Compaction (encrypted content) not supported in v1 chat connector"
  | .contextCompaction _ => "ContextCompaction (encrypted content) not supported in v1 chat connector"
  | .other => "unknown ResponseItem variant (Other) not supported in v1 chat connector"
  | item => variantName item ++ " not supported in v1 chat connector"

def chatItem (acc : ChatAcc) (item : ResponseItem) : Except ConnError ChatAcc :=
  match item with
  | .message m => (mapMessage m.role m.content).map acc.push
  | .functionCall c =>
    if c.ns.isSome then .error (.hardFail
      ("namespaced function call '" ++ c.name ++ "' not supported in v1 chat connector"))
    else .ok
      { messages := acc.messages ++ [callMessage c]
        seenCalls := acc.seenCalls.insert c.callId
        callsNeedingResult := acc.callsNeedingResult.insert c.callId }
  | .functionCallOutput o =>
    if o.callId ∈ acc.seenCalls then
      (mapFunctionCallOutput o.callId o.output).map fun msg =>
        { acc with
          messages := acc.messages ++ [msg]
          callsNeedingResult := acc.callsNeedingResult.filter fun id => id ≠ o.callId }
    else .ok acc
  | .agentMessage m => (mapAgentMessage m.content).map acc.push
  | .reasoning .. => .ok acc
  | .compactionTrigger => .ok acc
  | item => .error (.hardFail (chatUnsupported item))

def toolMessageId (msg : Value) : Option String :=
  if msg.strField "role" = some "tool" then msg.strField "tool_call_id" else none

def pushAt (id : String) (msg : Value) : List (String × List Value) → List (String × List Value)
  | [] => [(id, [msg])]
  | e :: m => if e.1 = id then (e.1, e.2 ++ [msg]) :: m else e :: pushAt id msg m

def splitToolMessages (messages : List Value) : List (String × List Value) × List Value :=
  messages.foldl (fun acc msg =>
    match toolMessageId msg with
    | some id => (pushAt id msg acc.1, acc.2)
    | none => (acc.1, acc.2 ++ [msg])) ([], [])

def toolCallIds (msg : Value) : List String :=
  if msg.strField "role" = some "assistant" then
    (((msg.get "tool_calls").bind Value.asArray).getD []).filterMap (·.strField "id")
  else []

def placeMessage (acc : List (String × List Value) × List Value) (msg : Value) :
    List (String × List Value) × List Value :=
  (toolCallIds msg).foldl (fun acc id =>
    match acc.1.lookup id with
    | some msgs => (acc.1.filter fun e => e.1 ≠ id, acc.2 ++ msgs)
    | none => acc) (acc.1, acc.2 ++ [msg])

def reorderToolMessages (env : BuildEnv) (messages : List Value) : List Value :=
  let parts := splitToolMessages messages
  let placed := parts.2.foldl placeMessage (parts.1, [])
  -- what no call asked for goes to the end, in the order the table is walked
  placed.2 ++ (env.hashOrder (placed.1.map Prod.fst)).flatMap fun id => (placed.1.lookup id).getD []

def applyFieldDowngrade (body : Value) (req : ResponsesApiRequest) : Value :=
  let body := match req.reasoning.bind (·.effort) with
    | some effort => body.set "reasoning_effort" (.string effort)
    | none => body
  match (req.text.bind (·.format)).map textFormatValue with
  | some fmt =>
    if fmt.strField "type" = some "json_schema" then
      let jsonSchema := ["name", "schema", "strict"].filterMap fun k => (fmt.get k).map fun v => (k, v)
      body.set "response_format"
        (.mkObj [("type", .string "json_schema"), ("json_schema", .mkObj jsonSchema)])
    else body
  | none => body

def systemMessages (req : ResponsesApiRequest) : List Value :=
  if req.instructions = "" then []
  else [.mkObj [("role", .string "system"), ("content", .string req.instructions)]]

def chatBody (env : BuildEnv) (ctx : EgressCtx) (req : ResponsesApiRequest) (acc : ChatAcc) : Value :=
  let placeholders := (env.hashOrder acc.callsNeedingResult).map fun id =>
    chatToolMessage id "[No output available yet]"
  .mkObj [("model", .string ctx.model),
    ("messages", .array (reorderToolMessages env (acc.messages ++ placeholders))),
    ("stream", .bool true), ("stream_options", .mkObj [("include_usage", .bool true)]),
    ("parallel_tool_calls", .bool req.parallelToolCalls)]

def chatTools (env : BuildEnv) (tools : Option (List Value)) (choice : String) (body : Value) :
    Except ConnError Value :=
  match tools with
  | none => .ok body
  | some ts => (mapToolChoice env choice).map fun tc =>
    let body := body.set "tools" (.array ts)
    match tc with
    | some tc => body.set "tool_choice" tc
    | none => body

def buildChatRequest (env : BuildEnv) (req : ResponsesApiRequest) (ctx : EgressCtx) :
    Except ConnError Value := do
  let tools ← mapTools env req.tools
  let acc ← req.input.foldlM chatItem { messages := systemMessages req }
  let body ← chatTools env tools req.toolChoice (chatBody env ctx req acc)
  pure (applyFieldDowngrade body req)

open Decides

theorem decides_chatContentText (c : ContentItem) :
    Decides IsHardFail (isImage c = false) (chatContentText c) := by
  cases c with
  | inputText t | outputText t => exact value (by simp [isImage])
  | inputImage u => exact decides_hardFail (by simp [isImage])

theorem decides_chatAgentText (c : AgentMessageInputContent) :
    Decides IsHardFail (isEncrypted c = false) (chatAgentText c) := by
  cases c with
  | inputText t => exact value (by simp [isEncrypted])
  | encryptedContent t => exact decides_hardFail (by simp [isEncrypted])

theorem decides_contentItemToText (c : FunctionCallOutputContentItem) :
    Decides IsHardFail (outputItemCauses c = []) (contentItemToText c) := by
  cases c with
  | inputText t => exact value (by simp [outputItemCauses])
  | inputImage u | encryptedContent t => exact decides_hardFail (by simp [outputItemCauses])

theorem decides_mapFunctionCallOutput (cid : String) (output : FunctionCallOutputPayload) :
    Decides IsHardFail (outputCauses output.body = []) (mapFunctionCallOutput cid output) :=
  (decides_outputText decides_contentItemToText output.body).map _

theorem decides_chatItem (acc : ChatAcc) (item : ResponseItem) :
    Decides IsHardFail (itemCauses (fun _ => true) acc.seenCalls item = []) (chatItem acc item) := by
  cases item with
  | message m =>
    refine (((decides_concatText decides_chatContentText m.content).map _).map _).congr ?_
    simp [itemCauses]
  | agentMessage m =>
    refine (((decides_concatText decides_chatAgentText m.content).map _).map _).congr ?_
    simp [itemCauses]
  | functionCall c =>
    simp only [chatItem]
    split
    · next h => exact decides_hardFail (by simp [itemCauses, h])
    · next h => exact value (by simp [itemCauses, h])
  | functionCallOutput o =>
    simp only [chatItem]
    split
    · next h =>
      exact ((decides_mapFunctionCallOutput o.callId o.output).map _).congr (by simp [itemCauses, h])
    · next h => exact value (by simp [itemCauses, h])
  | reasoning | compactionTrigger => exact value (by simp [itemCauses])
  | _ => exact decides_hardFail (by simp [itemCauses])

theorem chatItem_seenCalls (acc : ChatAcc) (item : ResponseItem) (acc' : ChatAcc)
    (h : chatItem acc item = .ok acc') : acc'.seenCalls = seenAfter acc.seenCalls item := by
  cases item with
  | message m | agentMessage m =>
    obtain ⟨text, -, rfl⟩ := map_eq_ok h
    rfl
  | functionCall c =>
    simp only [chatItem] at h
    split at h
    · cases h
    · cases h
      rfl
  | functionCallOutput o =>
    simp only [chatItem] at h
    split at h
    · obtain ⟨text, -, rfl⟩ := map_eq_ok h
      rfl
    · cases h
      rfl
  | reasoning | compactionTrigger =>
    cases h
    rfl
  | _ => cases h

theorem decides_chatTools (env : BuildEnv) (tools : Option (List Value)) (choice : String)
    (body : Value) :
    Decides IsHardFail (tools = none ∨ choiceExpressible env.serde choice = true)
      (chatTools env tools choice body) := by
  cases tools with
  | none => exact value (by simp)
  | some ts =>
    exact ((decides_mapToolChoiceWith env.serde _ _ _ _ _ choice).map _).congr (by simp)

/-- **When a chat request can be built.**  The build succeeds exactly on requests without a
cause of failure, and every failure is a `HardFail`. -/
theorem decides_buildChatRequest (env : BuildEnv) (req : ResponsesApiRequest) (ctx : EgressCtx) :
    Decides IsHardFail (requestCauses (fun _ => true) env.serde req = [])
      (buildChatRequest env req ctx) := by
  have hin : Decides IsHardFail
      (AllSteps (fun seen item => itemCauses (fun _ => true) seen item = []) seenAfter
        (ChatAcc.seenCalls { messages := systemMessages req }) req.input)
      (req.input.foldlM chatItem { messages := systemMessages req }) :=
    foldlM ChatAcc.seenCalls decides_chatItem chatItem_seenCalls _ _
  rw [← inputCauses_eq_nil_iff] at hin
  have h := (decides_mapToolsWith env chatTool
    " not supported in v1 chat connector (only standard function supported)" req.tools).bind
    (f := fun tools => do
      let acc ← req.input.foldlM chatItem { messages := systemMessages req }
      let body ← chatTools env tools req.toolChoice (chatBody env ctx req acc)
      pure (applyFieldDowngrade body req))
    fun tools ht => hin.bind fun acc _ =>
      ((decides_chatTools env tools req.toolChoice (chatBody env ctx req acc)).congr
        (or_congr_left (mapToolsWith_eq_none _ _ _ _ _ ht))).bind fun body _ =>
          @value _ _ _ _ (applyFieldDowngrade body req) trivial
  refine h.congr ?_
  rw [requestCauses_eq_nil_iff, and_true]

end LlmSwitch.ChatReq
