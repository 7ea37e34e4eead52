import Codez.History.Turns

/-!
Rebuilding the model's history from a rollout (`session/rollout_reconstruction.rs`).

The rollout is scanned from its end for the newest surviving compaction and the settings of the
newest surviving turn; rolled back turns are skipped on the way.
-/

namespace RolloutReconstruction

open Codex ContextManager

structure PreviousTurnSettings where
  model : String
  compHash : Option String
  realtimeActive : Option Bool
deriving DecidableEq

structure ReconstructedWindow where
  number : Nat
  firstId : Option String
  previousId : Option String
  id : Option String
deriving DecidableEq

inductive TurnReferenceContextItem where
  | neverSet
  | cleared
  | latest (item : TurnContextItem)
deriving DecidableEq

structure ActiveReplaySegment where
  turnId : Option String := none
  countsAsUserTurn : Bool := false
  previousTurnSettings : Option PreviousTurnSettings := none
  referenceContextItem : TurnReferenceContextItem := .neverSet
  baseReplacementHistory : Option (List ResponseItem) := none
  window : Option ReconstructedWindow := none

structure ReverseScan where
  baseReplacementHistory : Option (List ResponseItem) := none
  previousTurnSettings : Option PreviousTurnSettings := none
  referenceContextItem : TurnReferenceContextItem := .neverSet
  window : Option ReconstructedWindow := none
  pendingRollbackTurns : Nat := 0
  rolloutSuffix : List RolloutItem
  activeSegment : Option ActiveReplaySegment := none

def turnIdsAreCompatible (activeTurnId itemTurnId : Option String) : Bool :=
  match activeTurnId, itemTurnId with
  | some turnId, some itemTurnId => itemTurnId = turnId
  | _, _ => true

def finalizeActiveSegment (s : ReverseScan) (segment : ActiveReplaySegment) : ReverseScan :=
  if 0 < s.pendingRollbackTurns then
    if segment.countsAsUserTurn then { s with pendingRollbackTurns := s.pendingRollbackTurns - 1 } else s
  else
    { s with
      baseReplacementHistory := s.baseReplacementHistory.or segment.baseReplacementHistory
      window := s.window.or segment.window
      previousTurnSettings :=
        if s.previousTurnSettings = none ∧ segment.countsAsUserTurn then segment.previousTurnSettings
        else s.previousTurnSettings
      referenceContextItem :=
        if s.referenceContextItem = .neverSet ∧
          (segment.countsAsUserTurn ∨ segment.referenceContextItem = .cleared) then segment.referenceContextItem
        else s.referenceContextItem }

section
variable (host : ReplayHost)

def compactedWindow (compacted : CompactedItem) : Option ReconstructedWindow :=
  compacted.windowNumber.map fun number =>
    { number
      firstId := compacted.firstWindowId.bind host.parseUuidV7
      previousId := compacted.previousWindowId.bind host.parseUuidV7
      id := compacted.windowId.bind host.parseUuidV7 }

def scanCompacted (s : ReverseScan) (newer : List RolloutItem) (compacted : CompactedItem) : ReverseScan :=
  let segment := s.activeSegment.getD {}
  let window := segment.window.or (compactedWindow host compacted)
  let referenceContextItem :=
    if segment.referenceContextItem = .neverSet then .cleared else segment.referenceContextItem
  match segment.baseReplacementHistory, compacted.replacementHistory with
  | none, some replacementHistory =>
    { s with
      activeSegment := some { segment with
        window, referenceContextItem, baseReplacementHistory := some replacementHistory }
      rolloutSuffix := newer }
  | _, _ => { s with activeSegment := some { segment with window, referenceContextItem } }

def scanTurnComplete (s : ReverseScan) (turnId : String) : ReverseScan :=
  let segment := s.activeSegment.getD {}
  { s with activeSegment := some { segment with turnId := segment.turnId.or (some turnId) } }

def scanTurnAborted (s : ReverseScan) (turnId : Option String) : ReverseScan :=
  match s.activeSegment with
  | some segment => { s with activeSegment := some { segment with turnId := segment.turnId.or turnId } }
  | none =>
    match turnId with
    | some turnId => { s with activeSegment := some { turnId := some turnId } }
    | none => s

def scanTurnContext (s : ReverseScan) (ctx : TurnContextItem) : ReverseScan :=
  let segment := s.activeSegment.getD {}
  let segment := { segment with turnId := segment.turnId.or ctx.turnId }
  if turnIdsAreCompatible segment.turnId ctx.turnId then
    { s with
      activeSegment := some { segment with
        previousTurnSettings := some ⟨ctx.model, ctx.compHash, ctx.realtimeActive⟩
        referenceContextItem :=
          if segment.referenceContextItem = .neverSet then .latest ctx else segment.referenceContextItem } }
  else { s with activeSegment := some segment }

def scanTurnStarted (s : ReverseScan) (turnId : String) : ReverseScan :=
  match s.activeSegment with
  | some segment =>
    if turnIdsAreCompatible segment.turnId (some turnId) then
      finalizeActiveSegment { s with activeSegment := none } segment
    else s
  | none => s

def scanItem (s : ReverseScan) (newer : List RolloutItem) : RolloutItem → ReverseScan
  | .compacted compacted => scanCompacted host s newer compacted
  | .eventMsg (.threadRolledBack numTurns) => { s with pendingRollbackTurns := s.pendingRollbackTurns + numTurns }
  | .eventMsg (.turnComplete e) => scanTurnComplete s e.turnId
  | .eventMsg (.turnAborted e) => scanTurnAborted s e.turnId
  | .eventMsg (.userMessage _) =>
    { s with activeSegment := some { s.activeSegment.getD {} with countsAsUserTurn := true } }
  | .turnContext ctx => scanTurnContext s ctx
  | .eventMsg (.turnStarted e) => scanTurnStarted s e.turnId
  | .responseItem item =>
    let segment := s.activeSegment.getD {}
    { s with
      activeSegment := some
        { segment with countsAsUserTurn := segment.countsAsUserTurn || isUserTurnBoundary host item } }
  | .interAgentCommunication _ =>
    { s with activeSegment := some { s.activeSegment.getD {} with countsAsUserTurn := true } }
  | .eventMsg _ => s
  | .sessionMeta => s

def ReverseScan.known (s : ReverseScan) : Bool :=
  s.baseReplacementHistory.isSome && s.previousTurnSettings.isSome && s.referenceContextItem != .neverSet

def scanFrom : List RolloutItem → List RolloutItem → ReverseScan → ReverseScan
  | [], _, s => s
  | item :: older, newer, s =>
    let s := scanItem host s newer item
    if s.known then s else scanFrom older (item :: newer) s

def reverseScan (items : List RolloutItem) : ReverseScan :=
  let s := scanFrom host items.reverse [] { rolloutSuffix := items }
  match s.activeSegment with
  | some segment => finalizeActiveSegment { s with activeSegment := none } segment
  | none => s

def replayItem (h : ContextManager × Bool) : RolloutItem → ContextManager × Bool
  | .responseItem item => (h.1.recordItem host item, h.2)
  | .interAgentCommunication c => (h.1.recordItem host c.toModelInputItem, h.2)
  | .compacted compacted =>
    match compacted.replacementHistory with
    | some replacementHistory => (h.1.replace replacementHistory, h.2)
    | none => (h.1.replace (host.buildCompactedHistory h.1.items compacted.message), true)
  | .eventMsg (.threadRolledBack numTurns) => (h.1.dropLastNUserTurns host numTurns, h.2)
  | .eventMsg _ => h
  | .turnContext _ => h
  | .sessionMeta => h

structure Reconstruction where
  history : List ResponseItem
  previousTurnSettings : Option PreviousTurnSettings
  referenceContextItem : Option TurnContextItem
  windowNumber : Nat
  firstWindowId : Option String
  previousWindowId : Option String
  windowId : Option String

def isCompacted : RolloutItem → Bool
  | .compacted _ => true
  | _ => false

def reconstructHistoryFromRollout (items : List RolloutItem) : Reconstruction :=
  let s := reverseScan host items
  let history : ContextManager :=
    match s.baseReplacementHistory with
    | some baseReplacementHistory => ({} : ContextManager).replace baseReplacementHistory
    | none => {}
  let (history, sawLegacyCompaction) := s.rolloutSuffix.foldl (replayItem host) (history, false)
  let referenceContextItem :=
    match s.referenceContextItem with
    | .latest item => if sawLegacyCompaction then none else some item
    | _ => none
  let window := s.window.getD ⟨items.countP isCompacted, none, none, none⟩
  { history := history.items
    previousTurnSettings := s.previousTurnSettings
    referenceContextItem
    windowNumber := window.number
    firstWindowId := window.firstId
    previousWindowId := window.previousId
    windowId := window.id }

end

end RolloutReconstruction
