import Codez.Switch.Request

/-!
Anthropic Messages requests (`connector/anthropic_req.rs`).
-/

namespace LlmSwitch.AnthropicReq

open Codex Fallible Run

def defaultMaxTokens : Nat := 4096

def pushBlock (role : String) (turns : List (String × List Value)) (block : Value) :
    List (String × List Value) :=
  match turns.getLast? with
  | some last =>
    if last.1 = role then turns.dropLast ++ [(last.1, last.2 ++ [block])]
    else turns ++ [(role, [block])]
  | none => turns ++ [(role, [block])]

def textBlock (text : String) : Value := .mkObj [("type", .string "text"), ("text", .string text)]

def contentItemToBlock : ContentItem → Except ConnError Value
  | .inputText t => .ok (textBlock t)
  | .outputText t => .ok (textBlock t)
  | .inputImage _ =>
    .error (.hardFail "image input not supported in v1 anthropic connector (no capability flags)")

def agentBlock : AgentMessageInputContent → Except ConnError Value
  | .inputText t => .ok (textBlock t)
  | .encryptedContent _ => .error (.hardFail
    "AgentMessage contains encrypted content (EncryptedContent), v1 anthropic connector cannot read it")

def toolResultItemToText : FunctionCallOutputContentItem → Except ConnError String
  | .inputText t => .ok t
  | .inputImage _ => .error (.hardFail
    "tool result contains image content (InputImage), v1 anthropic connector not supported")
  | .encryptedContent _ => .error (.hardFail
    "tool result contains encrypted content (EncryptedContent), v1 anthropic connector not supported")

def resultBlock (callId text : String) : Value :=
  .mkObj [("type", .string "tool_result"), ("tool_use_id", .string callId), ("content", .string text)]

def toolResultBlock (callId : String) (output : FunctionCallOutputPayload) : Except ConnError Value :=
  (outputText toolResultItemToText output.body).map fun text =>
    if output.success = some false then (resultBlock callId text).set "is_error" (.bool true)
    else resultBlock callId text

def anthropicTool (t : Value) : Value :=
  let tool := Value.mkObj [("name", (t.get "name").getD .null), ("input_schema", toolParameters t)]
  let description := (t.get "description").getD .null
  if description = .null then tool else tool.set "description" description

def mapTools (env : BuildEnv) (tools : List Value) : Except ConnError (Option (List Value)) :=
  mapToolsWith env anthropicTool " not supported in v1 anthropic connector (only standard function)" tools

def mapToolChoice (env : BuildEnv) (tc : String) : Except ConnError (Option Value) :=
  mapToolChoiceWith env.serde (.mkObj [("type", .string "auto")]) (.mkObj [("type", .string "none")])
    (.mkObj [("type", .string "any")])
    (fun name => .mkObj [("type", .string "tool"), ("name", name)]) "Anthropic Messages" tc

structure AnthropicAcc where
  turns : List (String × List Value) := []
  seenCalls : List String := []
  callsNeedingResult : List String := []

def AnthropicAcc.push (acc : AnthropicAcc) (role : String) (blocks : List Value) : AnthropicAcc :=
  { acc with turns := blocks.foldl (pushBlock role) acc.turns }

def toolUseBlock (c : FunctionCall) (input : Value) : Value :=
  .mkObj [("type", .string "tool_use"), ("id", .string c.callId), ("name", .string c.name), ("input", input)]

def anthropicItem (env : BuildEnv) (acc : AnthropicAcc) (item : ResponseItem) :
    Except ConnError AnthropicAcc :=
  match item with
  | .message m =>
    (m.content.mapM contentItemToBlock).map
      (acc.push (if m.role = "assistant" then "assistant" else "user"))
  | .agentMessage m => (m.content.mapM agentBlock).map (acc.push "assistant")
  | .functionCall c =>
    if c.ns.isSome then .error (.hardFail
      ("namespaced function call '" ++ c.name ++ "' not supported in v1 anthropic connector"))
    else
      match env.serde.fromStr c.arguments with
      | .error e => .error (.hardFail ("FunctionCall arguments invalid JSON: " ++ e))
      | .ok input => .ok
        { turns := pushBlock "assistant" acc.turns (toolUseBlock c input)
          seenCalls := acc.seenCalls.insert c.callId
          callsNeedingResult := acc.callsNeedingResult ++ [c.callId] }
  | .functionCallOutput o =>
    if o.callId ∈ acc.seenCalls then
      (toolResultBlock o.callId o.output).map fun block =>
        { acc with
          turns := pushBlock "user" acc.turns block
          callsNeedingResult := acc.callsNeedingResult.filter fun id => id ≠ o.callId }
    else .ok acc
  | .reasoning .. => .ok acc
  | .compactionTrigger => .ok acc
  | item => .error (.hardFail (variantName item ++ " not supported in v1 anthropic connector"))

def thinkingBudget (body : Value) : Nat :=
  match (body.get "max_tokens").bind Value.asU64 with
  | some m => min (max (m / 2) 1024) 8000
  | none => 4000

def applyFieldDowngrade (env : BuildEnv) (body : Value) (req : ResponsesApiRequest) : Value :=
  let body := match req.reasoning.bind (·.effort) with
    | some _ => body.set "thinking"
        (.mkObj [("type", .string "enabled"), ("budget_tokens", .ofNat (thinkingBudget body))])
    | none => body
  match (req.text.bind (·.format)).map textFormatValue with
  | some fmt =>
    let hint := if fmt.strField "type" = some "json_schema" then
        "\n\nYou must respond with valid JSON matching this schema: " ++ env.serde.display fmt
      else "\n\nRespond with valid JSON."
    body.set "system" (.string ((body.strField "system").getD "" ++ hint))
  | none => body

def anthropicBody (ctx : EgressCtx) (req : ResponsesApiRequest) (acc : AnthropicAcc) : Value :=
  let turns := acc.callsNeedingResult.foldl (fun turns id =>
    pushBlock "user" turns (resultBlock id "[No output available yet]")) acc.turns
  let messages := turns.map fun t => Value.mkObj [("role", .string t.1), ("content", .array t.2)]
  let body := Value.mkObj [("model", .string ctx.model), ("messages", .array messages),
    ("max_tokens", .ofNat (ctx.defaultMaxTokens.getD defaultMaxTokens)), ("stream", .bool true)]
  if req.instructions = "" then body else body.set "system" (.string req.instructions)

def anthropicTools (env : BuildEnv) (tools : Option (List Value)) (req : ResponsesApiRequest)
    (body : Value) : Except ConnError Value :=
  match tools with
  | none => .ok body
  | some ts => (mapToolChoice env req.toolChoice).map fun tc =>
    let body := body.set "tools" (.array ts)
    let tc := if req.parallelToolCalls then tc
      else some ((tc.getD (.mkObj [("type", .string "auto")])).set "disable_parallel_tool_use" (.bool true))
    match tc with
    | some tc => body.set "tool_choice" tc
    | none => body

def buildAnthropicRequest (env : BuildEnv) (req : ResponsesApiRequest) (ctx : EgressCtx) :
    Except ConnError Value := do
  let tools ← mapTools env req.tools
  let acc ← req.input.foldlM (anthropicItem env) {}
  let body ← anthropicTools env tools req (anthropicBody ctx req acc)
  let body := applyFieldDowngrade env body req
  pure (if ctx.promptCache then body.set "cache_control" (.mkObj [("type", .string "ephemeral")]) else body)

open Decides

theorem decides_contentItemToBlock (c : ContentItem) :
    Decides IsHardFail (isImage c = false) (contentItemToBlock c) := by
  cases c with
  | inputText t | outputText t => exact value (by simp [isImage])
  | inputImage u => exact decides_hardFail (by simp [isImage])

theorem decides_agentBlock (c : AgentMessageInputContent) :
    Decides IsHardFail (isEncrypted c = false) (agentBlock c) := by
  cases c with
  | inputText t => exact value (by simp [isEncrypted])
  | encryptedContent t => exact decides_hardFail (by simp [isEncrypted])

theorem decides_toolResultItemToText (c : FunctionCallOutputContentItem) :
    Decides IsHardFail (outputItemCauses c = []) (toolResultItemToText c) := by
  cases c with
  | inputText t => exact value (by simp [outputItemCauses])
  | inputImage u | encryptedContent t => exact decides_hardFail (by simp [outputItemCauses])

variable (env : BuildEnv)

theorem decides_anthropicItem (acc : AnthropicAcc) (item : ResponseItem) :
    Decides IsHardFail (itemCauses env.serde.accepts acc.seenCalls item = [])
      (anthropicItem env acc item) := by
  cases item with
  | message m =>
    refine ((mapM decides_contentItemToBlock m.content).map _).congr ?_
    simp [itemCauses]
  | agentMessage m =>
    refine ((mapM decides_agentBlock m.content).map _).congr ?_
    simp [itemCauses]
  | functionCall c =>
    simp only [anthropicItem]
    split
    · next h => exact decides_hardFail (by simp [itemCauses, h])
    · next h =>
      cases hp : env.serde.fromStr c.arguments with
      | error e =>
        have ha : env.serde.accepts c.arguments = false := by simp only [Serde.accepts, hp]; rfl
        exact decides_hardFail (by simp [itemCauses, ha])
      | ok v =>
        have ha : env.serde.accepts c.arguments = true := by simp only [Serde.accepts, hp]; rfl
        exact value (by simp [itemCauses, ha, h])
  | functionCallOutput o =>
    simp only [anthropicItem]
    split
    · next h =>
      refine (((decides_outputText decides_toolResultItemToText o.output.body).map _).map _).congr ?_
      simp [itemCauses, h]
    · next h => exact value (by simp [itemCauses, h])
  | reasoning | compactionTrigger => exact value (by simp [itemCauses])
  | _ => exact decides_hardFail (by simp [itemCauses])

theorem anthropicItem_seenCalls (acc : AnthropicAcc) (item : ResponseItem) (acc' : AnthropicAcc)
    (h : anthropicItem env acc item = .ok acc') :
    acc'.seenCalls = seenAfter acc.seenCalls item := by
  cases item with
  | message m | agentMessage m =>
    obtain ⟨blocks, -, rfl⟩ := map_eq_ok h
    rfl
  | functionCall c =>
    simp only [anthropicItem] at h
    split at h
    · cases h
    · cases hp : env.serde.fromStr c.arguments with
      | error e =>
        rw [hp] at h
        cases h
      | ok v =>
        rw [hp] at h
        cases h
        rfl
  | functionCallOutput o =>
    simp only [anthropicItem] at h
    split at h
    · obtain ⟨text, -, rfl⟩ := map_eq_ok h
      rfl
    · cases h
      rfl
  | reasoning | compactionTrigger =>
    cases h
    rfl
  | _ => cases h

theorem decides_anthropicTools (tools : Option (List Value)) (req : ResponsesApiRequest) (body : Value) :
    Decides IsHardFail (tools = none ∨ choiceExpressible env.serde req.toolChoice = true)
      (anthropicTools env tools req body) := by
  cases tools with
  | none => exact value (by simp)
  | some ts =>
    exact ((decides_mapToolChoiceWith env.serde _ _ _ _ _ req.toolChoice).map _).congr (by simp)

/-- **When an Anthropic request can be built.**  As for chat, and the arguments of every call
must be JSON. -/
theorem decides_buildAnthropicRequest (req : ResponsesApiRequest) (ctx : EgressCtx) :
    Decides IsHardFail (requestCauses env.serde.accepts env.serde req = [])
      (buildAnthropicRequest env req ctx) := by
  have hin : Decides IsHardFail
      (AllSteps (fun seen item => itemCauses env.serde.accepts seen item = []) seenAfter
        (AnthropicAcc.seenCalls {}) req.input)
      (req.input.foldlM (anthropicItem env) {}) :=
    foldlM AnthropicAcc.seenCalls (decides_anthropicItem env) (anthropicItem_seenCalls env) _ _
  rw [← inputCauses_eq_nil_iff] at hin
  have h := (decides_mapToolsWith env anthropicTool
    " not supported in v1 anthropic connector (only standard function)" req.tools).bind
    fun tools ht => hin.bind fun acc _ =>
      ((decides_anthropicTools env tools req (anthropicBody ctx req acc)).congr
        (or_congr_left (mapToolsWith_eq_none _ _ _ _ _ ht))).bind fun body _ =>
          @value _ _ _ _ (if ctx.promptCache then (applyFieldDowngrade env body req).set "cache_control"
            (.mkObj [("type", .string "ephemeral")]) else applyFieldDowngrade env body req) trivial
  refine h.congr ?_
  rw [requestCauses_eq_nil_iff, and_true]

end LlmSwitch.AnthropicReq
