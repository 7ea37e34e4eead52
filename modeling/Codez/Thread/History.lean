import Codez.Lib.Coalesce
import Codez.Thread.Items

/-!
The turns of a thread, rebuilt from its rollout (`app-server-protocol`, `thread_history.rs`).

`ThreadHistoryBuilder` takes the rollout item by item and keeps the finished turns and the one that
is open.
-/

namespace AppServer

open Codex

inductive TurnStatus where
  | completed
  | interrupted
  | failed
  | inProgress
deriving DecidableEq

structure TurnError where
  message : String
  codexErrorInfo : Option CodexErrorInfo
  additionalDetails : Option String

structure TurnInfo where
  error : Option TurnError := none
  status : TurnStatus := .completed
  startedAt : Option Int := none
  completedAt : Option Int := none
  durationMs : Option Int := none

def TurnInfo.abort (e : TurnAbortedEvent) (m : TurnInfo) : TurnInfo :=
  { m with status := .interrupted, completedAt := e.completedAt, durationMs := e.durationMs }

def TurnInfo.complete (e : TurnCompleteEvent) (m : TurnInfo) : TurnInfo :=
  { m with
    status := if m.status = .completed ∨ m.status = .inProgress then .completed else m.status
    completedAt := e.completedAt
    durationMs := e.durationMs }

structure Turn where
  id : String
  items : List ThreadItem
  info : TurnInfo

def upsertTurnItem (items : List ThreadItem) (item : ThreadItem) : List ThreadItem :=
  Coalesce.upsert ThreadItem.id item items

def Turn.putItem (item : ThreadItem) (turn : Turn) : Turn := { turn with items := upsertTurnItem turn.items item }

structure PendingTurn extends Turn where
  openedExplicitly : Bool := false
  sawCompaction : Bool := false

structure ThreadHistoryItemChange where
  turnId : String
  item : ThreadItem

structure ThreadHistoryTurnChange where
  turnId : String
  info : TurnInfo

structure ThreadHistoryChangeSet where
  changedItems : List ThreadHistoryItemChange := []
  changedTurns : List ThreadHistoryTurnChange := []
  removedTurnIds : List String := []

def ThreadHistoryTurnChange.fromTurn (turn : Turn) : ThreadHistoryTurnChange := ⟨turn.id, turn.info⟩

def itemId (index : Nat) : String := "item-" ++ toString index

def rolloutId (index : Nat) : String := "rollout-" ++ toString index

structure ThreadHistoryBuilder where
  turns : List Turn := []
  currentTurn : Option PendingTurn := none
  nextItemIndex : Nat := 1
  currentRolloutIndex : Nat := 0
  nextRolloutIndex : Nat := 0
  activeChangeSet : Option ThreadHistoryChangeSet := none

namespace ThreadHistoryBuilder

def record (b : ThreadHistoryBuilder) (f : ThreadHistoryChangeSet → ThreadHistoryChangeSet) : ThreadHistoryBuilder :=
  { b with activeChangeSet := b.activeChangeSet.map f }

def recordChangedItem (b : ThreadHistoryBuilder) (turnId : String) (item : ThreadItem) : ThreadHistoryBuilder :=
  b.record fun cs => { cs with changedItems := cs.changedItems ++ [⟨turnId, item⟩] }

def recordChangedTurn (b : ThreadHistoryBuilder) (change : ThreadHistoryTurnChange) : ThreadHistoryBuilder :=
  b.record fun cs => { cs with changedTurns := cs.changedTurns ++ [change] }

def recordRemovedTurnIds (b : ThreadHistoryBuilder) (removedTurnIds : List String) : ThreadHistoryBuilder :=
  b.record fun cs => { cs with removedTurnIds := cs.removedTurnIds ++ removedTurnIds }

def finishCurrentTurn (b : ThreadHistoryBuilder) : ThreadHistoryBuilder :=
  match b.currentTurn with
  | some turn =>
    let b := { b with currentTurn := none }
    if turn.items.isEmpty && !turn.openedExplicitly && !turn.sawCompaction then b
    else { b with turns := b.turns ++ [turn.toTurn] }
  | none => b

def finish (b : ThreadHistoryBuilder) : List Turn := b.finishCurrentTurn.turns

section
variable (host : ThreadHost)

def newTurn (b : ThreadHistoryBuilder) (id : Option String) : PendingTurn where
  id := id.getD (if b.nextRolloutIndex = 0 then host.turnUuid else rolloutId b.currentRolloutIndex)
  items := []
  info := {}

def ensureTurn (b : ThreadHistoryBuilder) : ThreadHistoryBuilder × PendingTurn :=
  match b.currentTurn with
  | some turn => (b, turn)
  | none =>
    let turn := b.newTurn host none
    ({ b.recordChangedTurn (.fromTurn turn.toTurn) with currentTurn := some turn }, turn)

def pushItemInCurrentTurn (b : ThreadHistoryBuilder) (item : ThreadItem) : ThreadHistoryBuilder :=
  let (b, turn) := b.ensureTurn host
  { b with currentTurn := some { turn with items := turn.items ++ [item] } }.recordChangedItem turn.id item

def upsertItemInCurrentTurn (b : ThreadHistoryBuilder) (item : ThreadItem) : ThreadHistoryBuilder :=
  let (b, turn) := b.ensureTurn host
  { b with currentTurn := some { turn with items := upsertTurnItem turn.items item } }.recordChangedItem turn.id item

def modifyTurn (b : ThreadHistoryBuilder) (turnId : String) (f : Turn → Turn) : ThreadHistoryBuilder :=
  { b with turns := Coalesce.modify Turn.id turnId f b.turns }

def findTurn? (b : ThreadHistoryBuilder) (turnId : String) : Option Turn := b.turns.find? fun turn => turn.id = turnId

def upsertItemInTurnId (b : ThreadHistoryBuilder) (turnId : String) (item : ThreadItem) : ThreadHistoryBuilder :=
  match b.currentTurn.filter (·.id = turnId) with
  | some turn =>
    { b with currentTurn := some { turn with items := upsertTurnItem turn.items item } }.recordChangedItem turn.id item
  | none =>
    match b.findTurn? turnId with
    | some turn =>
      (b.modifyTurn turnId (Turn.putItem item)).recordChangedItem turn.id item
    | none => b

def upsertItem (b : ThreadHistoryBuilder) (turnId : String) (item : ThreadItem) : ThreadHistoryBuilder :=
  if turnId.isEmpty then b.upsertItemInCurrentTurn host item else b.upsertItemInTurnId turnId item

def nextItemId (b : ThreadHistoryBuilder) : String × ThreadHistoryBuilder :=
  (itemId b.nextItemIndex, { b with nextItemIndex := b.nextItemIndex + 1 })

def pushNewItem (b : ThreadHistoryBuilder) (mk : String → ThreadItem) : ThreadHistoryBuilder :=
  let (id, b) := b.nextItemId
  b.pushItemInCurrentTurn host (mk id)

def handleResponseItem (b : ThreadHistoryBuilder) : ResponseItem → ThreadHistoryBuilder
  | .message m =>
    if m.role = "user" then
      match parseHookPromptMessage host b.currentRolloutIndex m.id m.content with
      | some hookPrompt => b.pushItemInCurrentTurn host hookPrompt
      | none => b
    else b
  | _ => b

def handleUserMessage (b : ThreadHistoryBuilder) (e : UserMessageEvent) : ThreadHistoryBuilder :=
  let b :=
    match b.currentTurn with
    | some turn =>
      if !turn.openedExplicitly && !(turn.sawCompaction && turn.items.isEmpty) then b.finishCurrentTurn else b
    | none => b
  b.pushNewItem host fun id => .userMessage id e.clientId (buildUserInputs e)

def handleAgentMessage (b : ThreadHistoryBuilder) (e : AgentMessageEvent) : ThreadHistoryBuilder :=
  if e.message.isEmpty then b else b.pushNewItem host fun id => .agentMessage id e.message e.phase e.memoryCitation

def handleReasoning (b : ThreadHistoryBuilder) (text : String)
    (extend : List String → List String → List String × List String) :
    ThreadHistoryBuilder :=
  if text.isEmpty then b
  else
    let (b, turn) := b.ensureTurn host
    match turn.items.getLast? with
    | some (.reasoning id summary content) =>
      let (summary, content) := extend summary content
      { b with currentTurn := some { turn with
          items := turn.items.dropLast ++ [ThreadItem.reasoning id summary content] } }.recordChangedItem turn.id
        (.reasoning id summary content)
    | _ =>
      b.pushNewItem host fun id => .reasoning id (extend [] []).1 (extend [] []).2

def handleAgentReasoning (b : ThreadHistoryBuilder) (text : String) : ThreadHistoryBuilder :=
  b.handleReasoning host text fun summary content => (summary ++ [text], content)

def handleAgentReasoningRawContent (b : ThreadHistoryBuilder) (text : String) : ThreadHistoryBuilder :=
  b.handleReasoning host text fun summary content => (summary, content ++ [text])

def handleItem (b : ThreadHistoryBuilder) (e : ItemEvent) : ThreadHistoryBuilder :=
  match e.item with
  | .plan id text => if text.isEmpty then b else b.upsertItemInTurnId e.turnId (.plan id text)
  | .sleep id durationMs => b.upsertItemInTurnId e.turnId (.sleep id durationMs)
  | .other => b

def handleGuardianAssessment (b : ThreadHistoryBuilder) (e : GuardianAssessmentEvent) : ThreadHistoryBuilder :=
  let status : Option CommandExecutionStatus :=
    match e.status with
    | .inProgress => some .inProgress
    | .denied => some .declined
    | .aborted => some .declined
    | .timedOut => some .failed
    | .approved => none
  match status.bind (buildItemFromGuardianEvent host e) with
  | some item => b.upsertItem host e.turnId item
  | none => b

def handleError (b : ThreadHistoryBuilder) (e : ErrorEvent) : ThreadHistoryBuilder :=
  if e.affectsTurnStatus then
    match b.currentTurn with
    | some turn =>
      let turn := { turn with info := { turn.info with
        status := .failed
        error := some { message := e.message, codexErrorInfo := e.codexErrorInfo, additionalDetails := none } } }
      { b with currentTurn := some turn }.recordChangedTurn (.fromTurn turn.toTurn)
    | none => b
  else b

def changeCurrentTurn (b : ThreadHistoryBuilder) (turn : PendingTurn) (f : TurnInfo → TurnInfo) :
    ThreadHistoryBuilder :=
  let turn := { turn with info := f turn.info }
  { b with currentTurn := some turn }.recordChangedTurn (.fromTurn turn.toTurn)

def changeTurn (b : ThreadHistoryBuilder) (turn : Turn) (f : TurnInfo → TurnInfo) : ThreadHistoryBuilder :=
  (b.modifyTurn turn.id fun turn => { turn with info := f turn.info }).recordChangedTurn ⟨turn.id, f turn.info⟩

def handleTurnAborted (b : ThreadHistoryBuilder) (e : TurnAbortedEvent) : ThreadHistoryBuilder :=
  match e.turnId.bind fun turnId => b.currentTurn.filter (·.id = turnId) with
  | some turn => b.changeCurrentTurn turn (TurnInfo.abort e)
  | none =>
    match e.turnId.bind b.findTurn? with
    | some turn => b.changeTurn turn (TurnInfo.abort e)
    | none =>
      -- without an id, or with an unknown one, it is the open turn that is aborted
      match b.currentTurn with
      | some turn => b.changeCurrentTurn turn (TurnInfo.abort e)
      | none => b

def handleTurnStarted (b : ThreadHistoryBuilder) (e : TurnStartedEvent) : ThreadHistoryBuilder :=
  let b := b.finishCurrentTurn
  let turn := b.newTurn host (some e.turnId)
  let turn := { turn with
    info := { turn.info with status := .inProgress, startedAt := e.startedAt }, openedExplicitly := true }
  { b.recordChangedTurn (.fromTurn turn.toTurn) with currentTurn := some turn }

def handleTurnComplete (b : ThreadHistoryBuilder) (e : TurnCompleteEvent) : ThreadHistoryBuilder :=
  match b.currentTurn.filter (·.id = e.turnId) with
  | some turn => (b.changeCurrentTurn turn (TurnInfo.complete e)).finishCurrentTurn
  | none =>
    match b.findTurn? e.turnId with
    | some turn => b.changeTurn turn (TurnInfo.complete e)
    | none =>
      match b.currentTurn with
      | some turn => (b.changeCurrentTurn turn (TurnInfo.complete e)).finishCurrentTurn
      | none => b

def handleCompacted (b : ThreadHistoryBuilder) : ThreadHistoryBuilder :=
  let (b, turn) := b.ensureTurn host
  { b with currentTurn := some { turn with sawCompaction := true } }

def handleThreadRollback (b : ThreadHistoryBuilder) (n : Nat) : ThreadHistoryBuilder :=
  let b := b.finishCurrentTurn
  let removedTurnIds :=
    if b.turns.length ≤ n then b.turns.map (·.id)
    else if n = 0 then []
    else (b.turns.drop (b.turns.length - n)).map (·.id)
  let b := b.recordRemovedTurnIds removedTurnIds
  let turns := if b.turns.length ≤ n then [] else b.turns.take (b.turns.length - n)
  { b with turns, nextItemIndex := (turns.map (·.items.length)).sum + 1 }

def handleEvent (b : ThreadHistoryBuilder) : EventMsg → ThreadHistoryBuilder
  | .userMessage e => b.handleUserMessage host e
  | .agentMessage e => b.handleAgentMessage host e
  | .agentReasoning text => b.handleAgentReasoning host text
  | .agentReasoningRawContent text => b.handleAgentReasoningRawContent host text
  | .webSearchBegin callId => b.upsertItemInCurrentTurn host (.webSearch callId "" none)
  | .webSearchEnd e => b.upsertItemInCurrentTurn host (.webSearch e.callId e.query (some e.action))
  | .execCommandBegin e => b.upsertItemInTurnId e.turnId (buildCommandExecutionBeginItem host e)
  | .execCommandEnd e => b.upsertItemInTurnId e.turnId (buildCommandExecutionEndItem host e)
  | .guardianAssessment e => b.handleGuardianAssessment host e
  | .applyPatchApprovalRequest e => b.upsertItem host e.turnId (buildFileChangeApprovalRequestItem e)
  | .patchApplyBegin e => b.upsertItem host e.turnId (buildFileChangeBeginItem e)
  | .patchApplyEnd e => b.upsertItem host e.turnId (buildFileChangeEndItem e)
  | .dynamicToolCallRequest e => b.upsertItem host e.turnId (dynamicToolCallRequestItem e)
  | .dynamicToolCallResponse e => b.upsertItem host e.turnId (dynamicToolCallResponseItem e)
  | .mcpToolCallBegin e => b.upsertItemInCurrentTurn host (mcpToolCallBeginItem e)
  | .mcpToolCallEnd e => b.upsertItemInCurrentTurn host (mcpToolCallEndItem e)
  | .viewImageToolCall callId path => b.upsertItemInCurrentTurn host (.imageView callId path)
  | .imageGenerationBegin callId => b.upsertItemInCurrentTurn host (.imageGeneration callId "" none "" none)
  | .imageGenerationEnd e =>
    b.upsertItemInCurrentTurn host (.imageGeneration e.callId e.status e.revisedPrompt e.result e.savedPath)
  | .collabAgentSpawnBegin e => b.upsertItemInCurrentTurn host (collabAgentSpawnBeginItem e)
  | .collabAgentSpawnEnd e => b.upsertItemInCurrentTurn host (collabAgentSpawnEndItem e)
  | .collabAgentInteractionBegin e => b.upsertItemInCurrentTurn host (collabAgentInteractionBeginItem e)
  | .collabAgentInteractionEnd e => b.upsertItemInCurrentTurn host (collabAgentInteractionEndItem e)
  | .subAgentActivity e =>
    b.upsertItemInCurrentTurn host (.subAgentActivity e.eventId e.kind e.agentThreadId e.agentPath)
  | .collabWaitingBegin e => b.upsertItemInCurrentTurn host (collabWaitingBeginItem e)
  | .collabWaitingEnd e => b.upsertItemInCurrentTurn host (collabWaitingEndItem e)
  | .collabCloseBegin e => b.upsertItemInCurrentTurn host (collabTargetBeginItem .closeAgent e)
  | .collabCloseEnd e => b.upsertItemInCurrentTurn host (collabTargetEndItem .closeAgent e)
  | .collabResumeBegin e => b.upsertItemInCurrentTurn host (collabTargetBeginItem .resumeAgent e)
  | .collabResumeEnd e => b.upsertItemInCurrentTurn host (collabTargetEndItem .resumeAgent e)
  | .contextCompacted => b.pushNewItem host .contextCompaction
  | .enteredReviewMode userFacingHint =>
    b.pushNewItem host fun id => .enteredReviewMode id (userFacingHint.getD "Review requested.")
  | .exitedReviewMode overallExplanation =>
    b.pushNewItem host fun id =>
      .exitedReviewMode id ((overallExplanation.map renderReviewOutputText).getD reviewFallbackMessage)
  | .itemStarted e => b.handleItem e
  | .itemCompleted e => b.handleItem e
  | .error e => b.handleError e
  | .threadRolledBack numTurns => b.handleThreadRollback numTurns
  | .turnAborted e => b.handleTurnAborted e
  | .turnStarted e => b.handleTurnStarted host e
  | .turnComplete e => b.handleTurnComplete e
  | .other => b

/-- The builder at the next item of the rollout. -/
def advance (b : ThreadHistoryBuilder) : ThreadHistoryBuilder :=
  { b with currentRolloutIndex := b.nextRolloutIndex, nextRolloutIndex := b.nextRolloutIndex + 1 }

def handleRolloutItem (b : ThreadHistoryBuilder) (item : RolloutItem) : ThreadHistoryBuilder :=
  let b := b.advance
  match item with
  | .eventMsg event => b.handleEvent host event
  | .compacted _ => b.handleCompacted host
  | .responseItem item => b.handleResponseItem host item
  | .interAgentCommunication _ => b
  | .turnContext _ => b
  | .sessionMeta => b

def buildTurnsFromRolloutItems (items : List RolloutItem) : List Turn :=
  (items.foldl (handleRolloutItem host) {}).finish

def collectChanges (b : ThreadHistoryBuilder) (handle : ThreadHistoryBuilder → ThreadHistoryBuilder) :
    ThreadHistoryBuilder × ThreadHistoryChangeSet :=
  let b := handle { b with activeChangeSet := some {} }
  ({ b with activeChangeSet := none }, b.activeChangeSet.getD {})

def handleRolloutItemWithChanges (b : ThreadHistoryBuilder) (item : RolloutItem) :
    ThreadHistoryBuilder × ThreadHistoryChangeSet :=
  b.collectChanges fun b => b.handleRolloutItem host item

end

end ThreadHistoryBuilder

end AppServer
