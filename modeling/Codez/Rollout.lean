import Codez.Protocol

/-!
The rollout of a thread (`protocol/src/protocol.rs`): the log of what was sent to the model
and of what the interface was told.  It is replayed by the session, which rebuilds the model's
history, and by the app server, which rebuilds the turns it shows.
-/

namespace Codex

inductive ImageDetail where
  | auto
  | low
  | high
  | original

structure TextElement where
  byteStart : Nat
  byteEnd : Nat
  placeholder : Option String

structure UserMessageEvent where
  clientId : Option String := none
  message : String
  images : Option (List String) := none
  imageDetails : List (Option ImageDetail) := []
  localImages : List String := []
  localImageDetails : List (Option ImageDetail) := []
  textElements : List TextElement := []

structure MemoryCitationEntry where
  path : String
  lineStart : Nat
  lineEnd : Nat
  note : String

structure MemoryCitation where
  entries : List MemoryCitationEntry
  rolloutIds : List String

structure AgentMessageEvent where
  message : String
  phase : Option MessagePhase := none
  memoryCitation : Option MemoryCitation := none

inductive WebSearchAction where
  | search (query : Option String) (queries : Option (List String))
  | openPage (url : Option String)
  | findInPage (url pattern : Option String)
  | other

structure WebSearchEndEvent where
  callId : String
  query : String
  action : WebSearchAction

inductive ParsedCommand where
  | read (cmd name path : String)
  | listFiles (cmd : String) (path : Option String)
  | search (cmd : String) (query path : Option String)
  | unknown (cmd : String)

inductive ExecCommandSource where
  | agent
  | userShell
  | unifiedExecStartup
  | unifiedExecInteraction

inductive ExecCommandStatus where
  | completed
  | failed
  | declined

structure ExecCommandBeginEvent where
  callId : String
  processId : Option String
  turnId : String
  command : List String
  cwd : String
  parsedCmd : List ParsedCommand
  source : ExecCommandSource

structure ExecCommandEndEvent where
  callId : String
  processId : Option String
  turnId : String
  command : List String
  cwd : String
  parsedCmd : List ParsedCommand
  source : ExecCommandSource
  aggregatedOutput : String
  exitCode : Int
  duration : Nat
  status : ExecCommandStatus

inductive GuardianAssessmentStatus where
  | inProgress
  | approved
  | denied
  | timedOut
  | aborted

inductive GuardianAssessmentAction where
  | command (command cwd : String)
  | execve (program : String) (argv : List String) (cwd : String)
  | applyPatch
  | networkAccess
  | mcpToolCall
  | requestPermissions

structure GuardianAssessmentEvent where
  targetItemId : Option String
  turnId : String
  status : GuardianAssessmentStatus
  action : GuardianAssessmentAction

inductive FileChange where
  | add (content : String)
  | delete (content : String)
  | update (unifiedDiff : String) (movePath : Option String)

inductive PatchApplyStatus where
  | completed
  | failed
  | declined

structure PatchBeginEvent where
  callId : String
  turnId : String
  changes : List (String × FileChange)

structure PatchApplyEndEvent where
  callId : String
  turnId : String
  changes : List (String × FileChange)
  status : PatchApplyStatus

inductive DynamicToolCallOutputContentItem where
  | inputText (text : String)
  | inputImage (imageUrl : String)

structure DynamicToolCallRequest where
  callId : String
  turnId : String
  ns : Option String
  tool : String
  arguments : Value

structure DynamicToolCallResponseEvent where
  callId : String
  turnId : String
  ns : Option String
  tool : String
  arguments : Value
  contentItems : List DynamicToolCallOutputContentItem
  success : Bool
  duration : Nat

structure McpInvocation where
  server : String
  tool : String
  arguments : Option Value

structure McpToolCallBeginEvent where
  callId : String
  invocation : McpInvocation
  connectorId : Option String
  mcpAppResourceUri : Option String
  linkId : Option String
  pluginId : Option String

structure CallToolResult where
  content : List Value
  structuredContent : Option Value
  isError : Option Bool
  resultMeta : Option Value

structure McpToolCallEndEvent extends McpToolCallBeginEvent where
  duration : Nat
  result : Except String CallToolResult

structure ImageGenerationEndEvent where
  callId : String
  status : String
  revisedPrompt : Option String
  result : String
  savedPath : Option String

inductive AgentStatus where
  | pendingInit
  | running
  | interrupted
  | completed (message : Option String)
  | errored (message : String)
  | shutdown
  | notFound

structure CollabAgentSpawnBeginEvent where
  callId : String
  senderThreadId : String
  prompt : String
  model : String
  reasoningEffort : String

structure CollabAgentSpawnEndEvent extends CollabAgentSpawnBeginEvent where
  newThreadId : Option String
  status : AgentStatus

structure CollabAgentInteractionBeginEvent where
  callId : String
  senderThreadId : String
  receiverThreadId : String
  prompt : String

structure CollabAgentInteractionEndEvent extends CollabAgentInteractionBeginEvent where
  status : AgentStatus

inductive SubAgentActivityKind where
  | started
  | interacted
  | interrupted

structure SubAgentActivityEvent where
  eventId : String
  agentThreadId : String
  agentPath : String
  kind : SubAgentActivityKind

structure CollabWaitingBeginEvent where
  callId : String
  senderThreadId : String
  receiverThreadIds : List String

structure CollabWaitingEndEvent where
  callId : String
  senderThreadId : String
  statuses : List (String × AgentStatus)

structure CollabTargetBeginEvent where
  callId : String
  senderThreadId : String
  receiverThreadId : String

structure CollabTargetEndEvent extends CollabTargetBeginEvent where
  status : AgentStatus

/-- The items that are started and completed as such; the others are rebuilt from their own events. -/
inductive TurnItem where
  | plan (id text : String)
  | sleep (id : String) (durationMs : Nat)
  | other

structure ItemEvent where
  turnId : String
  item : TurnItem

inductive CodexErrorInfo where
  | contextWindowExceeded
  | usageLimitExceeded
  | serverOverloaded
  | cyberPolicy
  | httpConnectionFailed (httpStatusCode : Option Nat)
  | responseStreamConnectionFailed (httpStatusCode : Option Nat)
  | internalServerError
  | unauthorized
  | badRequest
  | sandboxError
  | responseStreamDisconnected (httpStatusCode : Option Nat)
  | responseTooManyFailedAttempts (httpStatusCode : Option Nat)
  | activeTurnNotSteerable
  | threadRollbackFailed
  | other

def CodexErrorInfo.affectsTurnStatus : CodexErrorInfo → Bool
  | .threadRollbackFailed => false
  | .activeTurnNotSteerable => false
  | _ => true

structure ErrorEvent where
  message : String
  codexErrorInfo : Option CodexErrorInfo := none

def ErrorEvent.affectsTurnStatus (e : ErrorEvent) : Bool :=
  match e.codexErrorInfo with
  | none => true
  | some info => info.affectsTurnStatus

structure TurnAbortedEvent where
  turnId : Option String
  completedAt : Option Int := none
  durationMs : Option Int := none

structure TurnStartedEvent where
  turnId : String
  startedAt : Option Int := none

structure TurnCompleteEvent where
  turnId : String
  completedAt : Option Int := none
  durationMs : Option Int := none

structure HookPromptFragment where
  text : String
  hookRunId : String

inductive EventMsg where
  | userMessage (e : UserMessageEvent)
  | agentMessage (e : AgentMessageEvent)
  | agentReasoning (text : String)
  | agentReasoningRawContent (text : String)
  | webSearchBegin (callId : String)
  | webSearchEnd (e : WebSearchEndEvent)
  | execCommandBegin (e : ExecCommandBeginEvent)
  | execCommandEnd (e : ExecCommandEndEvent)
  | guardianAssessment (e : GuardianAssessmentEvent)
  | applyPatchApprovalRequest (e : PatchBeginEvent)
  | patchApplyBegin (e : PatchBeginEvent)
  | patchApplyEnd (e : PatchApplyEndEvent)
  | dynamicToolCallRequest (e : DynamicToolCallRequest)
  | dynamicToolCallResponse (e : DynamicToolCallResponseEvent)
  | mcpToolCallBegin (e : McpToolCallBeginEvent)
  | mcpToolCallEnd (e : McpToolCallEndEvent)
  | viewImageToolCall (callId path : String)
  | imageGenerationBegin (callId : String)
  | imageGenerationEnd (e : ImageGenerationEndEvent)
  | collabAgentSpawnBegin (e : CollabAgentSpawnBeginEvent)
  | collabAgentSpawnEnd (e : CollabAgentSpawnEndEvent)
  | collabAgentInteractionBegin (e : CollabAgentInteractionBeginEvent)
  | collabAgentInteractionEnd (e : CollabAgentInteractionEndEvent)
  | subAgentActivity (e : SubAgentActivityEvent)
  | collabWaitingBegin (e : CollabWaitingBeginEvent)
  | collabWaitingEnd (e : CollabWaitingEndEvent)
  | collabCloseBegin (e : CollabTargetBeginEvent)
  | collabCloseEnd (e : CollabTargetEndEvent)
  | collabResumeBegin (e : CollabTargetBeginEvent)
  | collabResumeEnd (e : CollabTargetEndEvent)
  | contextCompacted
  | enteredReviewMode (userFacingHint : Option String)
  | exitedReviewMode (overallExplanation : Option String)
  | itemStarted (e : ItemEvent)
  | itemCompleted (e : ItemEvent)
  | error (e : ErrorEvent)
  | threadRolledBack (numTurns : Nat)
  | turnAborted (e : TurnAbortedEvent)
  | turnStarted (e : TurnStartedEvent)
  | turnComplete (e : TurnCompleteEvent)
  | other

/-! ## Rollout items -/

structure InterAgentCommunication where
  author : String
  recipient : String
  content : String
  encryptedContent : Option String := none
  triggerTurn : Bool := false

def InterAgentCommunication.toModelInputItem (c : InterAgentCommunication) : ResponseItem :=
  let content : List AgentMessageInputContent :=
    match c.encryptedContent with
    | some encryptedContent =>
      let messageType := if c.triggerTurn then "NEW_TASK" else "MESSAGE"
      [.inputText ("Message Type: " ++ messageType ++ "\nTask name: " ++ c.recipient ++ "\nSender: " ++ c.author ++
        "\nPayload:\n"), .encryptedContent encryptedContent]
    | none => [.inputText c.content]
  .agentMessage { author := c.author, recipient := c.recipient, content }

structure CompactedItem where
  message : String
  replacementHistory : Option (List ResponseItem) := none
  windowNumber : Option Nat := none
  firstWindowId : Option String := none
  previousWindowId : Option String := none
  windowId : Option String := none

/-- `rest` stands for the other fields, which the replay hands on unread. -/
structure TurnContextItem where
  turnId : Option String
  model : String
  compHash : Option String := none
  realtimeActive : Option Bool := none
  rest : Value := .null
deriving DecidableEq

inductive RolloutItem where
  | sessionMeta
  | responseItem (item : ResponseItem)
  | interAgentCommunication (c : InterAgentCommunication)
  | compacted (c : CompactedItem)
  | turnContext (ctx : TurnContextItem)
  | eventMsg (event : EventMsg)

end Codex
