import Codez.Lib.Run
import Codez.Thread.Tracking

/-!
Change sets rebuild the thread.

A projector that applies the change set of every batch of a rollout ends with the turns that the
builder makes of the whole rollout, however the rollout is cut into batches
(`projectBatches_eq_build`).
-/

namespace AppServer

open Codex Coalesce List

def turnItemId : TurnItem → Option String
  | .plan id _ => some id
  | .sleep id _ => some id
  | .other => none

def suppliedId : EventMsg → Option String
  | .webSearchBegin callId => some callId
  | .webSearchEnd e => some e.callId
  | .execCommandBegin e => some e.callId
  | .execCommandEnd e => some e.callId
  | .guardianAssessment e => e.targetItemId
  | .applyPatchApprovalRequest e => some e.callId
  | .patchApplyBegin e => some e.callId
  | .patchApplyEnd e => some e.callId
  | .dynamicToolCallRequest e => some e.callId
  | .dynamicToolCallResponse e => some e.callId
  | .mcpToolCallBegin e => some e.callId
  | .mcpToolCallEnd e => some e.callId
  | .viewImageToolCall callId _ => some callId
  | .imageGenerationBegin callId => some callId
  | .imageGenerationEnd e => some e.callId
  | .collabAgentSpawnBegin e => some e.callId
  | .collabAgentSpawnEnd e => some e.callId
  | .collabAgentInteractionBegin e => some e.callId
  | .collabAgentInteractionEnd e => some e.callId
  | .subAgentActivity e => some e.eventId
  | .collabWaitingBegin e => some e.callId
  | .collabWaitingEnd e => some e.callId
  | .collabCloseBegin e => some e.callId
  | .collabCloseEnd e => some e.callId
  | .collabResumeBegin e => some e.callId
  | .collabResumeEnd e => some e.callId
  | .itemStarted e => turnItemId e.item
  | .itemCompleted e => turnItemId e.item
  | _ => none

def startedId : RolloutItem → Option String
  | .eventMsg (.turnStarted e) => some e.turnId
  | _ => none

def hookPromptId (host : ThreadHost) (rolloutIndex : Nat) : RolloutItem → Option String
  | .responseItem (.message m) =>
    if m.role = "user" then (parseHookPromptMessage host rolloutIndex m.id m.content).map ThreadItem.id else none
  | _ => none

/-- No id that is brought is a number of the builder's, and a hook prompt has an id that is new to its turn. -/
structure ItemIds (host : ThreadHost) (b : ThreadHistoryBuilder) (item : RolloutItem) : Prop where
  supplied : ∀ event, item = .eventMsg event → ∀ id ∈ suppliedId event, ∀ k, id ≠ itemId k
  hookPrompt : ∀ id ∈ hookPromptId host b.nextRolloutIndex item,
    (∀ k, id ≠ itemId k) ∧ ∀ turn ∈ b.currentTurn, id ∉ turn.items.map ThreadItem.id

structure WellNamed (host : ThreadHost) (rollout : List RolloutItem) : Prop where
  started_nodup : (rollout.filterMap startedId).Nodup
  started_explicit : ∀ k, rolloutId k ∉ rollout.filterMap startedId
  items : Run.AllSteps (ItemIds host) (ThreadHistoryBuilder.handleRolloutItem host) {} rollout

namespace ThreadHistoryBuilder

/-! ## What an event does -/

section
variable (host : ThreadHost)

inductive ItemAct where
  | keep
  | put (item : ThreadItem)
  | putIn (turnId : String) (item : ThreadItem)
  | push (build : String → ThreadItem)

def ItemAct.run (b : ThreadHistoryBuilder) : ItemAct → ThreadHistoryBuilder
  | .keep => b
  | .put item => b.upsertItemInCurrentTurn host item
  | .putIn turnId item => b.upsertItemInTurnId turnId item
  | .push build => b.pushNewItem host build

def isUserMessage : ThreadItem → Bool
  | .userMessage _ _ _ => true
  | _ => false

/-- The item has the id that the event brings, or gets the next one, and is not a message of the user. -/
def ItemAct.Fits (event : EventMsg) : ItemAct → Prop
  | .keep => True
  | .put item => suppliedId event = some item.id ∧ isUserMessage item = false
  | .putIn _ item => suppliedId event = some item.id ∧ isUserMessage item = false
  | .push build => ∀ id, (build id).id = id ∧ isUserMessage (build id) = false

inductive EventKind : EventMsg → Prop
  | about {event : EventMsg} (act : ItemAct)
    (hrun : ∀ b : ThreadHistoryBuilder, b.handleEvent host event = act.run host b)
    (hfits : act.Fits event) : EventKind event
  | userMessage (e : UserMessageEvent) : EventKind (.userMessage e)
  | reasoning {event : EventMsg} (text : String) (extend : List String → List String → List String × List String)
    (hrun : ∀ b : ThreadHistoryBuilder, b.handleEvent host event = b.handleReasoning host text extend) :
    EventKind event
  | error (e : ErrorEvent) : EventKind (.error e)
  | threadRolledBack (numTurns : Nat) : EventKind (.threadRolledBack numTurns)
  | turnAborted (e : TurnAbortedEvent) : EventKind (.turnAborted e)
  | turnStarted (e : TurnStartedEvent) : EventKind (.turnStarted e)
  | turnComplete (e : TurnCompleteEvent) : EventKind (.turnComplete e)

variable {host} {event : EventMsg}

theorem EventKind.upsert (turnId : String) (item : ThreadItem)
    (hrun : ∀ b : ThreadHistoryBuilder, b.handleEvent host event = b.upsertItem host turnId item)
    (hid : suppliedId event = some item.id) (hit : isUserMessage item = false) : EventKind host event := by
  by_cases hnil : turnId.isEmpty = true
  · exact .about (.put item) (fun b => (hrun b).trans (if_pos hnil)) ⟨hid, hit⟩
  · exact .about (.putIn turnId item) (fun b => (hrun b).trans (if_neg hnil)) ⟨hid, hit⟩

theorem EventKind.turnItem (e : ItemEvent)
    (hrun : ∀ b : ThreadHistoryBuilder, b.handleEvent host event = b.handleItem e)
    (hid : suppliedId event = turnItemId e.item) : EventKind host event := by
  cases hit : e.item with
  | plan id text =>
    rw [hit] at hid
    by_cases hnil : text.isEmpty = true
    · refine .about .keep (fun b => ?_) trivial
      rw [hrun, handleItem, hit]
      exact if_pos hnil
    · refine .about (.putIn e.turnId (.plan id text)) (fun b => ?_) ⟨hid, rfl⟩
      rw [hrun, handleItem, hit]
      exact if_neg hnil
  | sleep id durationMs =>
    rw [hit] at hid
    refine .about (.putIn e.turnId (.sleep id durationMs)) (fun b => ?_) ⟨hid, rfl⟩
    rw [hrun, handleItem, hit]
    rfl
  | other =>
    refine .about .keep (fun b => ?_) trivial
    rw [hrun, handleItem, hit]
    rfl

theorem of_buildItemFromGuardianEvent {e : GuardianAssessmentEvent}
    {status : CommandExecutionStatus} {item : ThreadItem}
    (h : buildItemFromGuardianEvent host e status = some item) :
    e.targetItemId = some item.id ∧ isUserMessage item = false := by
  unfold buildItemFromGuardianEvent at h
  split at h
  · obtain ⟨id, hid, rfl⟩ := Option.map_eq_some_iff.mp h
    exact ⟨hid, rfl⟩
  · obtain ⟨id, hid, rfl⟩ := Option.map_eq_some_iff.mp h
    exact ⟨hid, rfl⟩
  all_goals cases h

theorem EventKind.guardianAssessment (e : GuardianAssessmentEvent) : EventKind host (.guardianAssessment e) := by
  let status : Option CommandExecutionStatus := GuardianAssessmentStatus.casesOn e.status
    (some .inProgress) none (some .declined) (some .failed) (some .declined)
  have hrun (b : ThreadHistoryBuilder) : b.handleEvent host (.guardianAssessment e) =
      (status.bind (buildItemFromGuardianEvent host e)).elim b (b.upsertItem host e.turnId) := by
    change b.handleGuardianAssessment host e = _
    unfold handleGuardianAssessment
    split <;> rename_i h <;> simp only [status, h, Option.bind_some, Option.bind_none]
    case h_5 => rfl
    all_goals split <;> simp [*]
  cases hit : status.bind (buildItemFromGuardianEvent host e) with
  | some item =>
    obtain ⟨_, -, hbuild⟩ := Option.bind_eq_some_iff.mp hit
    obtain ⟨hid, huser⟩ := of_buildItemFromGuardianEvent hbuild
    exact .upsert e.turnId item (fun b => by rw [hrun, hit]; rfl) hid huser
  | none => exact .about .keep (fun b => by rw [hrun, hit]; rfl) trivial

theorem fits_mcpToolCallEndItem (e : McpToolCallEndEvent) :
    some e.callId = some (mcpToolCallEndItem e).id ∧ isUserMessage (mcpToolCallEndItem e) = false := by
  unfold mcpToolCallEndItem
  dsimp only
  split <;> exact ⟨rfl, rfl⟩

variable (host) in
theorem eventKind (event : EventMsg) : EventKind host event := by
  cases event with
  | userMessage e => exact .userMessage e
  | agentMessage e =>
    by_cases hnil : e.message.isEmpty = true
    · exact .about .keep (fun _ => if_pos hnil) trivial
    · refine .about (.push fun id => .agentMessage id e.message e.phase e.memoryCitation)
        (fun b => ?_) fun _ => ⟨rfl, rfl⟩
      exact if_neg hnil
  | agentReasoning text => exact .reasoning text (fun summary content => (summary ++ [text], content)) fun _ => rfl
  | agentReasoningRawContent text =>
    exact .reasoning text (fun summary content => (summary, content ++ [text])) fun _ => rfl
  | execCommandBegin e | execCommandEnd e => exact .about (.putIn e.turnId _) (fun _ => rfl) ⟨rfl, rfl⟩
  | guardianAssessment e => exact .guardianAssessment e
  | applyPatchApprovalRequest e | patchApplyBegin e => exact .upsert e.turnId _ (fun _ => rfl) rfl rfl
  | patchApplyEnd e | dynamicToolCallRequest e => exact .upsert e.turnId _ (fun _ => rfl) rfl rfl
  | dynamicToolCallResponse e => exact .upsert e.turnId _ (fun _ => rfl) rfl rfl
  | mcpToolCallEnd e => exact .about (.put _) (fun _ => rfl) (fits_mcpToolCallEndItem e)
  | contextCompacted | enteredReviewMode hint => exact .about (.push _) (fun _ => rfl) fun _ => ⟨rfl, rfl⟩
  | exitedReviewMode explanation => exact .about (.push _) (fun _ => rfl) fun _ => ⟨rfl, rfl⟩
  | itemStarted e | itemCompleted e => exact .turnItem e (fun _ => rfl) rfl
  | error e => exact .error e
  | threadRolledBack numTurns => exact .threadRolledBack numTurns
  | turnAborted e => exact .turnAborted e
  | turnStarted e => exact .turnStarted e
  | turnComplete e => exact .turnComplete e
  | other => exact .about .keep (fun _ => rfl) trivial
  | _ => exact .about (.put _) (fun _ => rfl) ⟨rfl, rfl⟩

end

/-! ## Without a change set -/

def untracked (b : ThreadHistoryBuilder) : ThreadHistoryBuilder := { b with activeChangeSet := none }

section
variable (host : ThreadHost) (b : ThreadHistoryBuilder)

theorem untracked_finishCurrentTurn : b.finishCurrentTurn.untracked = b.untracked.finishCurrentTurn := by
  unfold finishCurrentTurn
  cases h : b.currentTurn with
  | none => simp [untracked, h]
  | some turn =>
    simp only [untracked, h]
    split <;> rfl

theorem untracked_ensureTurn :
    b.untracked.ensureTurn host = ((b.ensureTurn host).1.untracked, (b.ensureTurn host).2) := by
  unfold ensureTurn
  cases h : b.currentTurn with
  | none => simp only [untracked, h]; rfl
  | some turn => simp only [untracked, h]

theorem untracked_pushItemInCurrentTurn (item : ThreadItem) :
    (b.pushItemInCurrentTurn host item).untracked = b.untracked.pushItemInCurrentTurn host item := by
  unfold pushItemInCurrentTurn
  rw [untracked_ensureTurn]
  rfl

theorem untracked_upsertItemInCurrentTurn (item : ThreadItem) :
    (b.upsertItemInCurrentTurn host item).untracked = b.untracked.upsertItemInCurrentTurn host item := by
  unfold upsertItemInCurrentTurn
  rw [untracked_ensureTurn]
  rfl

theorem untracked_upsertItemInTurnId (turnId : String) (item : ThreadItem) :
    (b.upsertItemInTurnId turnId item).untracked = b.untracked.upsertItemInTurnId turnId item := by
  unfold upsertItemInTurnId
  have hcur : b.untracked.currentTurn = b.currentTurn := rfl
  have hfind : b.untracked.findTurn? turnId = b.findTurn? turnId := rfl
  rw [hcur, hfind]
  cases b.currentTurn.filter (·.id = turnId) with
  | some turn => rfl
  | none => cases b.findTurn? turnId <;> rfl

theorem untracked_pushNewItem (mk : String → ThreadItem) :
    (b.pushNewItem host mk).untracked = b.untracked.pushNewItem host mk :=
  untracked_pushItemInCurrentTurn host b.nextItemId.2 (mk b.nextItemId.1)

theorem untracked_handleResponseItem (item : ResponseItem) :
    (b.handleResponseItem host item).untracked = b.untracked.handleResponseItem host item := by
  unfold handleResponseItem
  split
  · split
    · have hidx : b.untracked.currentRolloutIndex = b.currentRolloutIndex := rfl
      rw [hidx]
      split
      · exact untracked_pushItemInCurrentTurn host b _
      · rfl
    · rfl
  · rfl

theorem untracked_handleUserMessage (e : UserMessageEvent) :
    (b.handleUserMessage host e).untracked = b.untracked.handleUserMessage host e := by
  unfold handleUserMessage
  have hcur : b.untracked.currentTurn = b.currentTurn := rfl
  rw [untracked_pushNewItem, hcur]
  cases b.currentTurn with
  | none => rfl
  | some turn =>
    dsimp only
    split
    · rw [untracked_finishCurrentTurn]
    · rfl

theorem untracked_handleReasoning (text : String) (extend : List String → List String → List String × List String) :
    (b.handleReasoning host text extend).untracked = b.untracked.handleReasoning host text extend := by
  unfold handleReasoning
  split
  · rfl
  · rw [untracked_ensureTurn]
    dsimp only
    split
    · rfl
    · exact untracked_pushNewItem host (b.ensureTurn host).1 _

theorem untracked_handleError (e : ErrorEvent) : (b.handleError e).untracked = b.untracked.handleError e := by
  unfold handleError
  have hcur : b.untracked.currentTurn = b.currentTurn := rfl
  rw [hcur]
  split
  · cases b.currentTurn <;> rfl
  · rfl

theorem untracked_handleTurnAborted (e : TurnAbortedEvent) :
    (b.handleTurnAborted e).untracked = b.untracked.handleTurnAborted e := by
  unfold handleTurnAborted
  have hcur : b.untracked.currentTurn = b.currentTurn := rfl
  have hfind : b.untracked.findTurn? = b.findTurn? := rfl
  rw [hcur, hfind]
  split
  · rfl
  · split
    · rfl
    · cases b.currentTurn <;> rfl

theorem untracked_handleTurnStarted (e : TurnStartedEvent) :
    (b.handleTurnStarted host e).untracked = b.untracked.handleTurnStarted host e := by
  unfold handleTurnStarted
  rw [← untracked_finishCurrentTurn]
  rfl

theorem untracked_handleTurnComplete (e : TurnCompleteEvent) :
    (b.handleTurnComplete e).untracked = b.untracked.handleTurnComplete e := by
  unfold handleTurnComplete
  have hcur : b.untracked.currentTurn = b.currentTurn := rfl
  have hfind : b.untracked.findTurn? e.turnId = b.findTurn? e.turnId := rfl
  rw [hcur, hfind]
  split
  · exact untracked_finishCurrentTurn _
  · split
    · rfl
    · cases b.currentTurn with
      | some turn => exact untracked_finishCurrentTurn _
      | none => rfl

theorem untracked_handleCompacted : (b.handleCompacted host).untracked = b.untracked.handleCompacted host := by
  unfold handleCompacted
  rw [untracked_ensureTurn]
  rfl

theorem untracked_handleThreadRollback (n : Nat) :
    (b.handleThreadRollback n).untracked = b.untracked.handleThreadRollback n := by
  unfold handleThreadRollback
  rw [← untracked_finishCurrentTurn]
  rfl

theorem ItemAct.untracked_run (act : ItemAct) : (act.run host b).untracked = act.run host b.untracked := by
  cases act with
  | keep => rfl
  | put item => exact untracked_upsertItemInCurrentTurn host b item
  | putIn turnId item => exact untracked_upsertItemInTurnId b turnId item
  | push build => exact untracked_pushNewItem host b build

theorem untracked_handleEvent (event : EventMsg) :
    (b.handleEvent host event).untracked = b.untracked.handleEvent host event := by
  cases eventKind host event with
  | about act hrun hfits =>
    rw [hrun, hrun]
    exact act.untracked_run host b
  | userMessage e => exact untracked_handleUserMessage host b e
  | reasoning text extend hrun =>
    rw [hrun, hrun]
    exact untracked_handleReasoning host b text extend
  | error e => exact untracked_handleError b e
  | threadRolledBack numTurns => exact untracked_handleThreadRollback b numTurns
  | turnAborted e => exact untracked_handleTurnAborted b e
  | turnStarted e => exact untracked_handleTurnStarted host b e
  | turnComplete e => exact untracked_handleTurnComplete b e

end

/-! ## One rollout item -/

section
variable {host : ThreadHost} {turns : List Turn} {started : List String} {n : Nat} {b : ThreadHistoryBuilder}
  {item : RolloutItem}

theorem Start.run {event : EventMsg} {act : ItemAct} (h : Start turns started n b) (hfits : act.Fits event)
    (hid : ∀ id ∈ suppliedId event, ∀ k, id ≠ itemId k) : Done turns started n (act.run host b) := by
  cases act with
  | keep => exact h.done
  | put item => exact h.upsertItemInCurrentTurn (hid _ hfits.1)
  | putIn turnId item => exact h.upsertItemInTurnId turnId (hid _ hfits.1)
  | push build => exact h.pushNewItem fun id => (hfits id).1

theorem startedId_eq_some {id : String} (h : startedId item = some id) :
    ∃ e, item = .eventMsg (.turnStarted e) ∧ e.turnId = id := by
  unfold startedId at h
  split at h
  · next e => exact ⟨e, rfl, Option.some.inj h⟩
  · cases h

theorem Start.handleEvent_of_not_started (h : Start turns started n b) (event : EventMsg)
    (hid : ∀ id ∈ suppliedId event, ∀ k, id ≠ itemId k) (hst : startedId (.eventMsg event) = none) :
    Done turns started n (b.handleEvent host event) := by
  cases eventKind host event with
  | about act hrun hfits =>
    rw [hrun]
    exact h.run hfits hid
  | userMessage e => exact h.handleUserMessage e
  | reasoning text extend hrun =>
    rw [hrun]
    exact h.handleReasoning text extend
  | error e => exact h.of_changes (changes_handleError e)
  | threadRolledBack numTurns => exact h.handleThreadRollback numTurns
  | turnAborted e => exact h.of_changes (changes_handleTurnAborted e)
  | turnStarted e => cases hst
  | turnComplete e => exact h.handleTurnComplete e

theorem Start.handleResponseItem (h : Start turns started n b) (item : ResponseItem)
    (hid : ∀ id ∈ hookPromptId host n (.responseItem item),
      (∀ k, id ≠ itemId k) ∧ ∀ turn ∈ b.currentTurn, id ∉ turn.items.map ThreadItem.id) :
    Done turns started n (b.handleResponseItem host item) := by
  unfold ThreadHistoryBuilder.handleResponseItem
  split
  · next m =>
    by_cases hrole : m.role = "user"
    · rw [if_pos hrole, h.current]
      split
      · next hookPrompt hpar =>
        obtain ⟨hnot, hnew⟩ := hid hookPrompt.id (by simp [hookPromptId, hrole, hpar])
        exact h.pushItem (fun k hk => absurd hk (hnot k)) hnew
      · exact h.done
    · rw [if_neg hrole]
      exact h.done
  · exact h.done

theorem Sound.start (h : Sound started b.nextRolloutIndex b) :
    Start b.allTurns started b.nextRolloutIndex { b.advance with activeChangeSet := some {} } :=
  { explicit := h.explicit, nodup := h.nodup, named := h.named, fresh := h.fresh, keeps := h.keeps,
    current := rfl, next := rfl, changes := rfl, turns_eq := rfl }

theorem Sound.handleRolloutItem (h : Sound started b.nextRolloutIndex b)
    (item : RolloutItem) (hids : ItemIds host b item)
    (hst : ∀ id ∈ startedId item, id ∉ started ∧ ∀ k, id ≠ rolloutId k) :
    Done b.allTurns (started ++ (startedId item).toList) b.nextRolloutIndex
      ({ b with activeChangeSet := some {} }.handleRolloutItem host item) := by
  have hstart := h.start
  cases hs : startedId item with
  | some id =>
    obtain ⟨e, rfl, rfl⟩ := startedId_eq_some hs
    obtain ⟨hnew, hexp⟩ := hst e.turnId rfl
    exact hstart.handleTurnStarted e hnew hexp
  | none =>
    rw [Option.toList_none, append_nil]
    cases item with
    | eventMsg event => exact hstart.handleEvent_of_not_started event (hids.supplied event rfl) hs
    | compacted c => exact hstart.handleCompacted
    | responseItem item => exact hstart.handleResponseItem item hids.hookPrompt
    | _ => exact hstart.done

theorem untracked_handleRolloutItem (b : ThreadHistoryBuilder) (item : RolloutItem) :
    (b.handleRolloutItem host item).untracked = b.untracked.handleRolloutItem host item := by
  cases item with
  | eventMsg event => exact untracked_handleEvent host _ event
  | compacted c => exact untracked_handleCompacted host _
  | responseItem item => exact untracked_handleResponseItem host _ item
  | _ => rfl

structure Ready (started : List String) (b : ThreadHistoryBuilder) :
    Prop extends Sound started b.nextRolloutIndex b where
  idle : b.activeChangeSet = none

theorem Ready.empty : Ready [] {} where
  explicit := by simp
  nodup := by simp [ids, allTurns]
  named := by simp [ids, allTurns]
  fresh := by simp
  keeps := by simp
  idle := rfl

theorem Ready.handleRolloutItemWithChanges (h : Ready started b) (hids : ItemIds host b item)
    (hst : ∀ id ∈ startedId item, id ∉ started ∧ ∀ k, id ≠ rolloutId k) :
    (b.handleRolloutItemWithChanges host item).1 = b.handleRolloutItem host item ∧
    Ready (started ++ (startedId item).toList) (b.handleRolloutItem host item) ∧
    applyChanges b.allTurns (b.handleRolloutItemWithChanges host item).2 = (b.handleRolloutItem host item).allTurns ∧
    ∀ c ∈ (b.handleRolloutItemWithChanges host item).2.changedItems,
      c.turnId ∈ (b.handleRolloutItem host item).ids := by
  have hdone := h.toSound.handleRolloutItem item hids hst
  have hb : ({ b with activeChangeSet := some {} } : ThreadHistoryBuilder).untracked = b := by
    rw [untracked, ← h.idle]
  have hsame : ({ b with activeChangeSet := some {} }.handleRolloutItem host item).untracked =
      b.handleRolloutItem host item := by
    rw [untracked_handleRolloutItem, hb]
  unfold ThreadHistoryBuilder.handleRolloutItemWithChanges collectChanges
  dsimp only
  rw [← hsame]
  obtain ⟨changes, hchs, happ, hi⟩ := hdone.tracked
  rw [hchs, Option.getD_some]
  refine ⟨rfl, ?_, happ, hi⟩
  exact { hdone.toNamedTurns.congr rfl with
    fresh := hdone.fresh
    keeps := hdone.keeps
    named := by rw [untracked, hdone.next]; exact hdone.named
    idle := rfl }

end

/-! ## Batches -/

section
variable {host : ThreadHost} {id : String} {turns : List Turn} {changes : ThreadHistoryChangeSet}
  {acc : ThreadHistoryChangeAccumulator} {b : ThreadHistoryBuilder} {started : List String}
  (batch rest : List RolloutItem)

theorem mem_ids_foldl_applyTurnChange (cs : List ThreadHistoryTurnChange) (turns : List Turn)
    (h : id ∈ turns.map Turn.id) : id ∈ (cs.foldl applyTurnChange turns).map Turn.id := by
  induction cs generalizing turns with
  | nil => exact h
  | cons c cs ih => exact ih _ ((mem_ids_applyTurnChange turns c id).mpr (.inr h))

theorem mem_ids_applyChanges (h : id ∈ turns.map Turn.id) (hl : id ∉ changes.removedTurnIds) :
    id ∈ (applyChanges turns changes).map Turn.id := by
  rw [applyChanges, ids_foldl_applyItemChange]
  exact mem_ids_foldl_applyTurnChange _ _ ((mem_ids_removeTurns _ _ _).mpr ⟨h, hl⟩)

/-- What has been accumulated makes the builder's turns out of `turns`. -/
structure Accumulated (turns : List Turn) (b : ThreadHistoryBuilder) (acc : ThreadHistoryChangeAccumulator) : Prop where
  apply : applyChanges turns acc.finish = b.allTurns
  items : ∀ c ∈ acc.finish.changedItems, c.turnId ∈ b.ids

theorem Accumulated.empty (b : ThreadHistoryBuilder) : Accumulated b.allTurns b {} where
  apply := removeTurns_nil b.allTurns
  items := by simp [ThreadHistoryChangeAccumulator.finish]

theorem Accumulated.push {b' : ThreadHistoryBuilder} (h : Accumulated turns b acc)
    (happ : applyChanges b.allTurns changes = b'.allTurns) (hi : ∀ c ∈ changes.changedItems, c.turnId ∈ b'.ids) :
    Accumulated turns b' (acc.push changes) where
  apply := by
    rw [acc.applyChanges_push changes turns (by rw [h.apply]; exact h.items), h.apply, happ]
  items c hc := by
    obtain ⟨-, -, hfin⟩ := acc.finish_push changes
    rw [hfin] at hc
    rcases mem_foldl_upsert hc with hc | hc
    · exact hi c hc
    · obtain ⟨hc, hl⟩ := mem_filter.mp hc
      rw [ids, ← happ]
      exact mem_ids_applyChanges (h.items c hc) (of_decide_eq_true hl)

structure NamedFrom (host : ThreadHost) (started : List String)
    (b : ThreadHistoryBuilder) (rollout : List RolloutItem) :
    Prop where
  started_nodup : (started ++ rollout.filterMap startedId).Nodup
  started_explicit : ∀ k, rolloutId k ∉ rollout.filterMap startedId
  items : Run.AllSteps (ItemIds host) (handleRolloutItem host) b rollout

theorem NamedFrom.cons {item : RolloutItem} {rollout : List RolloutItem}
    (h : NamedFrom host started b (item :: rollout)) :
    ItemIds host b item ∧ (∀ id ∈ startedId item, id ∉ started ∧ ∀ k, id ≠ rolloutId k) ∧
    NamedFrom host (started ++ (startedId item).toList) (b.handleRolloutItem host item) rollout := by
  obtain ⟨hnd, hexp, hit, hi⟩ := h
  have hids : (item :: rollout).filterMap startedId = (startedId item).toList ++ rollout.filterMap startedId := by
    cases h : startedId item <;> simp [h]
  rw [hids] at hnd hexp
  refine ⟨hit, ?_, ?_, ?_, hi⟩
  · intro id hid
    rw [Option.mem_def.mp hid] at hnd hexp
    refine ⟨fun hmem => ?_, fun k hk => hexp k (by simp [hk])⟩
    exact (nodup_append.mp hnd).2.2 id hmem id (by simp) rfl
  · rwa [append_assoc]
  · exact fun k hk => hexp k (mem_append_right _ hk)

theorem accumulate_batch (hrdy : Ready started b) (hnamed : NamedFrom host started b (batch ++ rest))
    (hacc : Accumulated turns b acc) :
    ∃ started' acc', batch.foldl (accumulateChanges host) (b, acc) = (batch.foldl (handleRolloutItem host) b, acc') ∧
      Ready started' (batch.foldl (handleRolloutItem host) b) ∧
      NamedFrom host started' (batch.foldl (handleRolloutItem host) b) rest ∧
      Accumulated turns (batch.foldl (handleRolloutItem host) b) acc' := by
  induction batch generalizing started b acc with
  | nil => exact ⟨started, acc, rfl, hrdy, hnamed, hacc⟩
  | cons item batch ih =>
    obtain ⟨hids, hst, hnamed'⟩ := hnamed.cons
    obtain ⟨hsame, hready', happ, hi⟩ := hrdy.handleRolloutItemWithChanges hids hst
    have hs : accumulateChanges host (b, acc) item =
        (b.handleRolloutItem host item, acc.push (b.handleRolloutItemWithChanges host item).2) := by
      rw [← hsame]
      rfl
    rw [foldl_cons, hs, foldl_cons]
    exact ih hready' hnamed' (hacc.push happ hi)

def projectBatch (host : ThreadHost) (s : ThreadHistoryBuilder × List Turn) (batch : List RolloutItem) :
    ThreadHistoryBuilder × List Turn :=
  let (b, changes) := s.1.handleRolloutItemsWithChanges host batch
  (b, applyChanges s.2 changes)

theorem projectBatch_spec (hrdy : Ready started b) (hnamed : NamedFrom host started b (batch ++ rest)) :
    ∃ started', projectBatch host (b, b.allTurns) batch =
        (batch.foldl (handleRolloutItem host) b, (batch.foldl (handleRolloutItem host) b).allTurns) ∧
      Ready started' (batch.foldl (handleRolloutItem host) b) ∧
      NamedFrom host started' (batch.foldl (handleRolloutItem host) b) rest := by
  obtain ⟨started', acc, hfold, hready', hnamed', hacc⟩ := accumulate_batch batch rest hrdy hnamed (Accumulated.empty b)
  refine ⟨started', ?_, hready', hnamed'⟩
  rw [projectBatch, handleRolloutItemsWithChanges, hfold, ← hacc.apply]

theorem projectBatches_eq (batches : List (List RolloutItem)) (hrdy : Ready started b)
    (hnamed : NamedFrom host started b batches.flatten) :
    ∃ started', batches.foldl (projectBatch host) (b, b.allTurns) =
        (batches.flatten.foldl (handleRolloutItem host) b,
          (batches.flatten.foldl (handleRolloutItem host) b).allTurns) ∧
      Ready started' (batches.flatten.foldl (handleRolloutItem host) b) := by
  induction batches generalizing started b with
  | nil => exact ⟨started, rfl, hrdy⟩
  | cons batch batches ih =>
    obtain ⟨started', hbatch, hready', hnamed'⟩ := projectBatch_spec batch batches.flatten hrdy hnamed
    rw [foldl_cons, hbatch, flatten_cons, foldl_append]
    exact ih hready' hnamed'

/-- However a rollout is cut into batches, the projector ends with the turns of the whole rollout. -/
theorem projectBatches_eq_build (host : ThreadHost) (batches : List (List RolloutItem))
    (h : WellNamed host batches.flatten) :
    (batches.foldl (projectBatch host) ({}, [])).2 = buildTurnsFromRolloutItems host batches.flatten := by
  obtain ⟨started', hproject, hready⟩ := projectBatches_eq batches Ready.empty
    ⟨h.started_nodup, h.started_explicit, h.items⟩
  have hempty : ({} : ThreadHistoryBuilder).allTurns = [] := rfl
  rw [hempty] at hproject
  rw [hproject, buildTurnsFromRolloutItems, finish, (allTurns_finishCurrentTurn hready.keeps).1]

end

def plainHost : ThreadHost where
  parseHookPromptFragment _ := none
  hookPromptUuid _ := ""
  turnUuid := ""
  shlexJoin command := " ".intercalate command
  parseCommand _ := []
  nativeCwd _ := none
  join base path := base ++ "/" ++ path
  inferredNativePathString uri := uri

theorem ne_itemId {id : String} (h : id.toList.take 5 ≠ "item-".toList) (k : Nat) : id ≠ itemId k := by
  rintro rfl
  exact h (by simp [itemId, String.toList_append])

theorem ne_rolloutId {id : String} (h : id.toList.take 8 ≠ "rollout-".toList) (k : Nat) : id ≠ rolloutId k := by
  rintro rfl
  exact h (by simp [rolloutId, String.toList_append])

theorem itemIds_event {host : ThreadHost} {b : ThreadHistoryBuilder} {event : EventMsg}
    (h : ∀ id ∈ suppliedId event, id.toList.take 5 ≠ "item-".toList) : ItemIds host b (.eventMsg event) :=
  ⟨fun _ he id hid => ne_itemId (h id (by cases he; exact hid)), by simp [hookPromptId]⟩

def searchBatches : List (List RolloutItem) :=
  [[.eventMsg (.turnStarted { turnId := "t" }), .eventMsg (.userMessage { message := "hi" })],
    [.eventMsg (.webSearchBegin "ws"), .eventMsg (.webSearchEnd { callId := "ws", query := "q", action := .other })],
    [.eventMsg (.turnComplete { turnId := "t" }), .eventMsg (.threadRolledBack 1),
      .eventMsg (.userMessage { message := "again" })]]

theorem projectBatches_eq_build_search :
    (searchBatches.foldl (projectBatch plainHost) ({}, [])).2 =
      buildTurnsFromRolloutItems plainHost searchBatches.flatten :=
  projectBatches_eq_build plainHost searchBatches {
    started_nodup := by decide +kernel
    started_explicit := fun k hk => @ne_rolloutId "t" (by decide) k (mem_singleton.mp hk).symm
    items := by
      refine ⟨itemIds_event ?_, itemIds_event ?_, itemIds_event ?_, itemIds_event ?_, itemIds_event ?_,
        itemIds_event ?_, itemIds_event ?_, trivial⟩
      all_goals simp [suppliedId] }

theorem plan_with_item_number : let rollout : List RolloutItem := [.eventMsg (.turnStarted { turnId := "t" }),
      .eventMsg (.itemCompleted { turnId := "t", item := .plan "item-1" "a plan" }),
        .eventMsg (.userMessage { message := "hi" })]
    (buildTurnsFromRolloutItems plainHost rollout).map (fun turn => turn.items.map ThreadItem.id) =
      [["item-1", "item-1"]] ∧
    (([rollout].foldl (projectBatch plainHost) ({}, [])).2).map
      (fun turn => turn.items.map ThreadItem.id) = [["item-1"]] := by
  decide +kernel

end ThreadHistoryBuilder

end AppServer
