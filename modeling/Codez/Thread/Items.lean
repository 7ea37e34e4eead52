import Codez.Lib.Text
import Codez.Rollout

/-!
The items of a thread as clients see them (`app-server-protocol`, `v2/item.rs`), and how they are
built from events (`item_builders.rs` and the handlers of `thread_history.rs`).
-/

namespace AppServer

open Codex

inductive UserInput where
  | text (text : String) (textElements : List TextElement)
  | image (url : String) (detail : Option ImageDetail)
  | localImage (path : String) (detail : Option ImageDetail)

inductive CommandAction where
  | read (command name path : String)
  | listFiles (command : String) (path : Option String)
  | search (command : String) (query path : Option String)
  | unknown (command : String)

inductive CommandExecutionStatus where
  | inProgress
  | completed
  | failed
  | declined

structure CommandExecution where
  id : String
  command : String
  cwd : String
  processId : Option String
  source : ExecCommandSource
  status : CommandExecutionStatus
  commandActions : List CommandAction
  aggregatedOutput : Option String
  exitCode : Option Int
  durationMs : Option Nat

inductive PatchChangeKind where
  | add
  | delete
  | update (movePath : Option String)

structure FileUpdateChange where
  path : String
  kind : PatchChangeKind
  diff : String

inductive PatchApplyStatus where
  | inProgress
  | completed
  | failed
  | declined

inductive ToolCallStatus where
  | inProgress
  | completed
  | failed

structure McpToolCallAppContext where
  connectorId : String
  linkId : Option String
  resourceUri : Option String

structure McpToolCallResult where
  content : List Value
  structuredContent : Option Value
  resultMeta : Option Value

structure McpToolCall where
  id : String
  server : String
  tool : String
  status : ToolCallStatus
  arguments : Value
  appContext : Option McpToolCallAppContext
  mcpAppResourceUri : Option String
  pluginId : Option String
  result : Option McpToolCallResult
  error : Option String
  durationMs : Option Nat

structure DynamicToolCall where
  id : String
  ns : Option String
  tool : String
  arguments : Value
  status : ToolCallStatus
  contentItems : Option (List DynamicToolCallOutputContentItem)
  success : Option Bool
  durationMs : Option Nat

inductive CollabAgentTool where
  | spawnAgent
  | sendInput
  | resumeAgent
  | wait
  | closeAgent

inductive CollabAgentStatus where
  | pendingInit
  | running
  | interrupted
  | completed
  | errored
  | shutdown
  | notFound

structure CollabAgentState where
  status : CollabAgentStatus
  message : Option String

structure CollabAgentToolCall where
  id : String
  tool : CollabAgentTool
  status : ToolCallStatus
  senderThreadId : String
  receiverThreadIds : List String
  prompt : Option String
  model : Option String
  reasoningEffort : Option String
  agentsStates : List (String × CollabAgentState)

inductive ThreadItem where
  | userMessage (id : String) (clientId : Option String) (content : List UserInput)
  | hookPrompt (id : String) (fragments : List HookPromptFragment)
  | agentMessage (id text : String) (phase : Option MessagePhase) (memoryCitation : Option MemoryCitation)
  | plan (id text : String)
  | reasoning (id : String) (summary content : List String)
  | commandExecution (c : CommandExecution)
  | fileChange (id : String) (changes : List FileUpdateChange) (status : PatchApplyStatus)
  | mcpToolCall (c : McpToolCall)
  | dynamicToolCall (c : DynamicToolCall)
  | collabAgentToolCall (c : CollabAgentToolCall)
  | subAgentActivity (id : String) (kind : SubAgentActivityKind) (agentThreadId agentPath : String)
  | webSearch (id query : String) (action : Option WebSearchAction)
  | imageView (id path : String)
  | sleep (id : String) (durationMs : Nat)
  | imageGeneration (id status : String) (revisedPrompt : Option String) (result : String) (savedPath : Option String)
  | enteredReviewMode (id review : String)
  | exitedReviewMode (id review : String)
  | contextCompaction (id : String)

def ThreadItem.id : ThreadItem → String
  | .userMessage id _ _ => id
  | .hookPrompt id _ => id
  | .agentMessage id _ _ _ => id
  | .plan id _ => id
  | .reasoning id _ _ => id
  | .commandExecution c => c.id
  | .fileChange id _ _ => id
  | .mcpToolCall c => c.id
  | .dynamicToolCall c => c.id
  | .collabAgentToolCall c => c.id
  | .subAgentActivity id _ _ _ => id
  | .webSearch id _ _ => id
  | .imageView id _ => id
  | .sleep id _ => id
  | .imageGeneration id _ _ _ _ => id
  | .enteredReviewMode id _ => id
  | .exitedReviewMode id _ => id
  | .contextCompaction id => id

/-- The reading of hook prompts (XML) and of shell commands, the quoting of commands, paths of the host, and
random ids: a hook prompt without an id draws one, as does a turn that is opened outside a rollout.  What
is drawn for a hook prompt is given by its place in the rollout. -/
structure ThreadHost where
  parseHookPromptFragment : String → Option HookPromptFragment
  hookPromptUuid : Nat → String
  turnUuid : String
  shlexJoin : List String → String
  parseCommand : List String → List ParsedCommand
  /-- The host's path that a URI stands for. -/
  nativeCwd : String → Option String
  join : String → String → String
  inferredNativePathString : String → String

section
variable (host : ThreadHost)

/-! ## Commands -/

def CommandAction.fromCoreWithCwd (cwd : String) : ParsedCommand → CommandAction
  | .read cmd name path => .read cmd name (host.join cwd path)
  | .listFiles cmd path => .listFiles cmd path
  | .search cmd query path => .search cmd query path
  | .unknown cmd => .unknown cmd

def commandActionsForPathUri (parsedCmd : List ParsedCommand) (cwd : String) : List CommandAction :=
  let nativeCwd := host.nativeCwd cwd
  parsedCmd.filterMap fun
    | .read cmd name path => nativeCwd.map fun nativeCwd => .read cmd name (host.join nativeCwd path)
    | .listFiles cmd path => some (.listFiles cmd path)
    | .search cmd query path => some (.search cmd query path)
    | .unknown cmd => some (.unknown cmd)

def i64TryFrom (n : Nat) : Option Nat := if n < 2 ^ 63 then some n else none

def buildCommandExecutionBeginItem (e : ExecCommandBeginEvent) : ThreadItem :=
  .commandExecution {
    id := e.callId
    command := host.shlexJoin e.command
    cwd := host.inferredNativePathString e.cwd
    processId := e.processId
    source := e.source
    status := .inProgress
    commandActions := commandActionsForPathUri host e.parsedCmd e.cwd
    aggregatedOutput := none
    exitCode := none
    durationMs := none }

def commandExecutionStatus : ExecCommandStatus → CommandExecutionStatus
  | .completed => .completed
  | .failed => .failed
  | .declined => .declined

def buildCommandExecutionEndItem (e : ExecCommandEndEvent) : ThreadItem :=
  .commandExecution {
    id := e.callId
    command := host.shlexJoin e.command
    cwd := host.inferredNativePathString e.cwd
    processId := e.processId
    source := e.source
    status := commandExecutionStatus e.status
    commandActions := commandActionsForPathUri host e.parsedCmd e.cwd
    aggregatedOutput := if e.aggregatedOutput.isEmpty then none else some e.aggregatedOutput
    exitCode := some e.exitCode
    durationMs := some ((i64TryFrom e.duration).getD (2 ^ 63 - 1)) }

def guardianCommandItem (id command cwd : String) (status : CommandExecutionStatus)
    (commandActions : List CommandAction) : ThreadItem :=
  .commandExecution {
    id
    command
    cwd
    processId := none
    source := .agent
    status
    commandActions
    aggregatedOutput := none
    exitCode := none
    durationMs := none }

def buildItemFromGuardianEvent (e : GuardianAssessmentEvent) (status : CommandExecutionStatus) : Option ThreadItem :=
  match e.action with
  | .command command cwd => e.targetItemId.map fun id => guardianCommandItem id command cwd status [.unknown command]
  | .execve program argv cwd =>
    e.targetItemId.map fun id =>
      let argv := if argv.isEmpty then [program] else program :: argv.drop 1
      let command := host.shlexJoin argv
      let parsedCmd := host.parseCommand argv
      let commandActions :=
        if parsedCmd.isEmpty then [.unknown command] else parsedCmd.map (CommandAction.fromCoreWithCwd host cwd)
      guardianCommandItem id command cwd status commandActions
  | .applyPatch => none
  | .networkAccess => none
  | .mcpToolCall => none
  | .requestPermissions => none

end

def mapPatchChangeKind : FileChange → PatchChangeKind
  | .add _ => .add
  | .delete _ => .delete
  | .update _ movePath => .update movePath

def formatFileChangeDiff : FileChange → String
  | .add content => content
  | .delete content => content
  | .update unifiedDiff movePath =>
    match movePath with
    | some path => unifiedDiff ++ "\n\nMoved to: " ++ path
    | none => unifiedDiff

def convertPatchChanges (changes : List (String × FileChange)) : List FileUpdateChange :=
  (changes.map fun (path, change) =>
    { path, kind := mapPatchChangeKind change, diff := formatFileChangeDiff change : FileUpdateChange }).mergeSort
      fun a b => a.path ≤ b.path

def buildFileChangeApprovalRequestItem (e : PatchBeginEvent) : ThreadItem :=
  .fileChange e.callId (convertPatchChanges e.changes) .inProgress

def buildFileChangeBeginItem (e : PatchBeginEvent) : ThreadItem :=
  .fileChange e.callId (convertPatchChanges e.changes) .inProgress

def patchApplyStatus : Codex.PatchApplyStatus → PatchApplyStatus
  | .completed => .completed
  | .failed => .failed
  | .declined => .declined

def buildFileChangeEndItem (e : PatchApplyEndEvent) : ThreadItem :=
  .fileChange e.callId (convertPatchChanges e.changes) (patchApplyStatus e.status)

/-! ## Tool calls -/

def dynamicToolCallRequestItem (e : DynamicToolCallRequest) : ThreadItem :=
  .dynamicToolCall {
    id := e.callId
    ns := e.ns
    tool := e.tool
    arguments := e.arguments
    status := .inProgress
    contentItems := none
    success := none
    durationMs := none }

def dynamicToolCallResponseItem (e : DynamicToolCallResponseEvent) : ThreadItem :=
  .dynamicToolCall {
    id := e.callId
    ns := e.ns
    tool := e.tool
    arguments := e.arguments
    status := if e.success then .completed else .failed
    contentItems := some e.contentItems
    success := some e.success
    durationMs := i64TryFrom e.duration }

def mcpToolCallItem (e : McpToolCallBeginEvent) (status : ToolCallStatus) (result : Option McpToolCallResult)
    (error : Option String) (durationMs : Option Nat) : ThreadItem :=
  .mcpToolCall {
    id := e.callId
    server := e.invocation.server
    tool := e.invocation.tool
    status
    arguments := e.invocation.arguments.getD .null
    appContext := e.connectorId.map fun connectorId =>
      { connectorId, linkId := e.linkId, resourceUri := e.mcpAppResourceUri }
    mcpAppResourceUri := e.mcpAppResourceUri
    pluginId := e.pluginId
    result
    error
    durationMs }

def McpToolCallEndEvent.isSuccess (e : McpToolCallEndEvent) : Bool :=
  match e.result with
  | .ok result => !result.isError.getD false
  | .error _ => false

def mcpToolCallBeginItem (e : McpToolCallBeginEvent) : ThreadItem := mcpToolCallItem e .inProgress none none none

def mcpToolCallEndItem (e : McpToolCallEndEvent) : ThreadItem :=
  let status := if McpToolCallEndEvent.isSuccess e then ToolCallStatus.completed else .failed
  let durationMs := i64TryFrom e.duration
  match e.result with
  | .ok value =>
    mcpToolCallItem e.toMcpToolCallBeginEvent status
      (some ⟨value.content, value.structuredContent, value.resultMeta⟩) none durationMs
  | .error message => mcpToolCallItem e.toMcpToolCallBeginEvent status none (some message) durationMs

/-! ## Agents -/

def CollabAgentState.ofAgentStatus : AgentStatus → CollabAgentState
  | .pendingInit => ⟨.pendingInit, none⟩
  | .running => ⟨.running, none⟩
  | .interrupted => ⟨.interrupted, none⟩
  | .completed message => ⟨.completed, message⟩
  | .errored message => ⟨.errored, some message⟩
  | .shutdown => ⟨.shutdown, none⟩
  | .notFound => ⟨.notFound, none⟩

def isFailure : AgentStatus → Bool
  | .errored _ => true
  | .notFound => true
  | _ => false

def collabAgentSpawnBeginItem (e : CollabAgentSpawnBeginEvent) : ThreadItem :=
  .collabAgentToolCall {
    id := e.callId
    tool := .spawnAgent
    status := .inProgress
    senderThreadId := e.senderThreadId
    receiverThreadIds := []
    prompt := some e.prompt
    model := some e.model
    reasoningEffort := some e.reasoningEffort
    agentsStates := [] }

def collabAgentSpawnEndItem (e : CollabAgentSpawnEndEvent) : ThreadItem :=
  .collabAgentToolCall {
    id := e.callId
    tool := .spawnAgent
    status := if isFailure e.status then .failed else if e.newThreadId.isSome then .completed else .failed
    senderThreadId := e.senderThreadId
    receiverThreadIds := e.newThreadId.toList
    prompt := some e.prompt
    model := some e.model
    reasoningEffort := some e.reasoningEffort
    agentsStates := e.newThreadId.toList.map fun id => (id, .ofAgentStatus e.status) }

def collabAgentInteractionBeginItem (e : CollabAgentInteractionBeginEvent) : ThreadItem :=
  .collabAgentToolCall {
    id := e.callId
    tool := .sendInput
    status := .inProgress
    senderThreadId := e.senderThreadId
    receiverThreadIds := [e.receiverThreadId]
    prompt := some e.prompt
    model := none
    reasoningEffort := none
    agentsStates := [] }

def collabAgentInteractionEndItem (e : CollabAgentInteractionEndEvent) : ThreadItem :=
  .collabAgentToolCall {
    id := e.callId
    tool := .sendInput
    status := if isFailure e.status then .failed else .completed
    senderThreadId := e.senderThreadId
    receiverThreadIds := [e.receiverThreadId]
    prompt := some e.prompt
    model := none
    reasoningEffort := none
    agentsStates := [(e.receiverThreadId, .ofAgentStatus e.status)] }

def collabAgentItem (callId : String) (tool : CollabAgentTool) (status : ToolCallStatus) (senderThreadId : String)
    (receiverThreadIds : List String) (agentsStates : List (String × CollabAgentState)) : ThreadItem :=
  .collabAgentToolCall {
    id := callId
    tool
    status
    senderThreadId
    receiverThreadIds
    prompt := none
    model := none
    reasoningEffort := none
    agentsStates }

def collabWaitingBeginItem (e : CollabWaitingBeginEvent) : ThreadItem :=
  collabAgentItem e.callId .wait .inProgress e.senderThreadId e.receiverThreadIds []

def collabWaitingEndItem (e : CollabWaitingEndEvent) : ThreadItem :=
  collabAgentItem e.callId .wait
    (if e.statuses.any fun s => isFailure s.2 then .failed else .completed) e.senderThreadId
    ((e.statuses.map Prod.fst).mergeSort fun a b => a ≤ b) (e.statuses.map fun s => (s.1, .ofAgentStatus s.2))

def collabTargetBeginItem (tool : CollabAgentTool) (e : CollabTargetBeginEvent) : ThreadItem :=
  collabAgentItem e.callId tool .inProgress e.senderThreadId [e.receiverThreadId] []

def collabTargetEndItem (tool : CollabAgentTool) (e : CollabTargetEndEvent) : ThreadItem :=
  collabAgentItem e.callId tool (if isFailure e.status then .failed else .completed) e.senderThreadId
    [e.receiverThreadId] [(e.receiverThreadId, .ofAgentStatus e.status)]

def imageInputs (mk : String → Option ImageDetail → UserInput) (images : List String)
    (details : List (Option ImageDetail)) : List UserInput :=
  images.zipIdx.map fun (image, idx) => mk image (details[idx]?.getD none)

def buildUserInputs (e : UserMessageEvent) : List UserInput :=
  (if (Text.trim e.message.toList).isEmpty then [] else [.text e.message e.textElements]) ++
    imageInputs .image (e.images.getD []) e.imageDetails ++ imageInputs .localImage e.localImages e.localImageDetails

def reviewFallbackMessage : String := "Reviewer failed to output a response."

def renderReviewOutputText (overallExplanation : String) : String :=
  let explanation := Text.trim overallExplanation.toList
  if explanation.isEmpty then reviewFallbackMessage else String.ofList explanation

def parseHookPromptMessage (host : ThreadHost) (rolloutIndex : Nat) (id : Option String) (content : List ContentItem) :
    Option ThreadItem :=
  let fragment : ContentItem → Option HookPromptFragment
    | .inputText text => host.parseHookPromptFragment text
    | _ => none
  match content.mapM fragment with
  | some fragments =>
    if fragments.isEmpty then none else some (.hookPrompt (id.getD (host.hookPromptUuid rolloutIndex)) fragments)
  | none => none

end AppServer
