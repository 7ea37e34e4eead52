import Codez.Lib.Run
import Codez.History.Reconstruct

/-!
Rolling turns back, as the rebuilt history sees it.

A rollout of completed turns and rollback markers should be rebuilt like the rollout of the turns
that are left.
-/

namespace RolloutReconstruction

open Codex ContextManager List

def Plain (host : ReplayHost) (item : ResponseItem) : Prop :=
  isUserTurnBoundary host item = false ∧ isContextual host item = false

structure Compaction (host : ReplayHost) where
  item : CompactedItem
  replacementHistory : List ResponseItem
  after : List ResponseItem
  item_replacementHistory : item.replacementHistory = some replacementHistory
  after_plain : ∀ x ∈ after, Plain host x

structure UserTurn (host : ReplayHost) where
  id : String
  startedAt : Option Int := none
  context : List ResponseItem
  instruction : ResponseItem
  turnContext : TurnContextItem
  items : List ResponseItem
  compaction : Option (Compaction host)
  completedAt : Option Int := none
  durationMs : Option Int := none
  context_contextual : ∀ x ∈ context, isContextual host x = true
  instruction_boundary : isUserTurnBoundary host instruction = true
  turnContext_turnId : turnContext.turnId = some id
  items_plain : ∀ x ∈ items, Plain host x

inductive Step (host : ReplayHost) where
  | turn (t : UserTurn host)
  | rollback (numTurns : Nat)

section
variable {host : ReplayHost}

def Compaction.rollout (c : Compaction host) : List RolloutItem :=
  .compacted c.item :: c.after.map .responseItem

def UserTurn.completed (t : UserTurn host) : RolloutItem :=
  .eventMsg (.turnComplete { turnId := t.id, completedAt := t.completedAt, durationMs := t.durationMs })

def UserTurn.body (t : UserTurn host) : List RolloutItem :=
  t.context.map .responseItem ++ .responseItem t.instruction :: .turnContext t.turnContext ::
    (t.items.map .responseItem ++ ((t.compaction.map Compaction.rollout).getD [] ++ [t.completed]))

def UserTurn.rollout (t : UserTurn host) : List RolloutItem :=
  .eventMsg (.turnStarted { turnId := t.id, startedAt := t.startedAt }) :: t.body

def Step.rollout : Step host → List RolloutItem
  | .turn t => t.rollout
  | .rollback numTurns => [.eventMsg (.threadRolledBack numTurns)]

def rolloutOf (steps : List (Step host)) : List RolloutItem := steps.flatMap Step.rollout

def push (live : List (UserTurn host)) : Step host → List (UserTurn host)
  | .turn t => live ++ [t]
  | .rollback numTurns => live.rdrop numTurns

def survivors (steps : List (Step host)) : List (UserTurn host) := steps.foldl push []

def Step.compaction : Step host → Option (Compaction host)
  | .turn t => t.compaction
  | .rollback _ => none

def sinceCompaction : List (Step host) → Option (Compaction host) × List (Step host)
  | [] => (none, [])
  | step :: steps =>
    match sinceCompaction steps with
    | (some c, post) => (some c, post)
    | (none, _) =>
      match step.compaction with
      | some c => (some c, steps)
      | none => (none, step :: steps)

def Within (live : List (UserTurn host)) : Step host → Prop
  | .turn _ => True
  | .rollback numTurns => numTurns ≤ live.length

def StaysWithin (steps : List (Step host)) : Prop := Run.AllSteps Within push [] steps

def Clean (steps : List (Step host)) : Prop :=
  match sinceCompaction steps with
  | (some _, post) => StaysWithin post
  | (none, _) => True

def baseItems (host : ReplayHost) : Option (Compaction host) → List ResponseItem
  | some c => c.replacementHistory ++ recorded host c.after
  | none => []

/-- A marker that drops every turn leaves `base`, which stands before them: with a turn in it, it must
not end in contextual messages; otherwise the first turn dropped must have none. -/
def Harmless (base : List ResponseItem) (live : List (UserTurn host)) : Step host → Prop
  | .turn _ => True
  | .rollback numTurns =>
    ∀ first ∈ live.head?, live.length ≤ numTurns →
      if base.any (isUserTurnBoundary host) then ∀ last ∈ base.getLast?, isContextual host last = false
      else first.context = []

/-- No marker disturbs what stands before the turns since the newest compaction. -/
def Undisturbed (steps : List (Step host)) : Prop :=
  Run.AllSteps (Harmless (baseItems host (sinceCompaction steps).1)) push [] (sinceCompaction steps).2

end

/-! ## Scanning a turn -/

open UserTurn

section
variable {host : ReplayHost} {s : ReverseScan} (steps : List (Step host)) (t : UserTurn host)

theorem isUserTurnBoundary_of_contextual {item : ResponseItem} (h : isContextual host item = true) :
    isUserTurnBoundary host item = false := by
  cases hb : isUserTurnBoundary host item with
  | false => rfl
  | true =>
    rw [isContextual_of_boundary hb] at h
    cases h

theorem scanFrom_step {s' : ReverseScan} {item : RolloutItem} {newer : List RolloutItem} (older : List RolloutItem)
    (hscan : scanItem host s newer item = s') (hkn : s'.known = false) :
    scanFrom host (item :: older) newer s = scanFrom host older (item :: newer) s' := by
  rw [scanFrom]
  simp [hscan, hkn]

theorem scanFrom_responses {segment : ActiveReplaySegment} (hkn : s.known = false)
    (hact : s.activeSegment = some segment) (items : List ResponseItem)
    (hi : ∀ x ∈ items, isUserTurnBoundary host x = false) (older newer : List RolloutItem) :
    scanFrom host ((items.map RolloutItem.responseItem).reverse ++ older) newer s =
      scanFrom host older (items.map .responseItem ++ newer) s := by
  induction items using List.reverseRecOn generalizing newer with
  | nil => rfl
  | append_singleton items x ih =>
    have hscan : scanItem host s newer (.responseItem x) = s := by
      obtain ⟨base, prev, ref, window, pending, suffix, active⟩ := s
      obtain rfl : active = some segment := hact
      simp [scanItem, hi x (by simp)]
    simp only [map_append, map_cons, map_nil, reverse_append, reverse_singleton,
      cons_append, nil_append, append_assoc]
    rw [scanFrom_step _ hscan hkn, ih (fun y hy => hi y (mem_append_left _ hy))]

def UserTurn.settings (t : UserTurn host) : PreviousTurnSettings :=
  ⟨t.turnContext.model, t.turnContext.compHash, t.turnContext.realtimeActive⟩

def UserTurn.reference (t : UserTurn host) : TurnReferenceContextItem :=
  if t.compaction.isSome then .cleared else .latest t.turnContext

def UserTurn.segment (t : UserTurn host) : ActiveReplaySegment where
  turnId := some t.id
  countsAsUserTurn := true
  previousTurnSettings := some t.settings
  referenceContextItem := t.reference
  baseReplacementHistory := t.compaction.map Compaction.replacementHistory
  window := t.compaction.bind fun c => compactedWindow host c.item

def UserTurn.suffix (t : UserTurn host) (newer old : List RolloutItem) : List RolloutItem :=
  match t.compaction with
  | some c => c.after.map .responseItem ++ t.completed :: newer
  | none => old

theorem context_boundary (t : UserTurn host) : ∀ x ∈ t.context, isUserTurnBoundary host x = false :=
  fun x hx => isUserTurnBoundary_of_contextual (t.context_contextual x hx)

theorem scanFrom_head {segment : ActiveReplaySegment} (hkn : s.known = false)
    (hact : s.activeSegment = some segment) (hid : segment.turnId = some t.id) (older newer : List RolloutItem) :
    scanFrom host (.turnContext t.turnContext :: .responseItem t.instruction ::
        ((t.context.map RolloutItem.responseItem).reverse ++ older)) newer s =
      scanFrom host older (t.context.map .responseItem ++
          .responseItem t.instruction :: .turnContext t.turnContext :: newer)
        { s with activeSegment := some { segment with
            countsAsUserTurn := true
            previousTurnSettings := some t.settings
            referenceContextItem :=
              if segment.referenceContextItem = .neverSet then .latest t.turnContext
              else segment.referenceContextItem } } := by
  have hctx : scanItem host s newer (.turnContext t.turnContext) =
      { s with activeSegment := some { segment with
          previousTurnSettings := some t.settings
          referenceContextItem :=
            if segment.referenceContextItem = .neverSet then .latest t.turnContext
            else segment.referenceContextItem } } := by
    simp [scanItem, scanTurnContext, hact, hid, t.turnContext_turnId, turnIdsAreCompatible, settings]
  have hcounts : ∀ (s : ReverseScan) (segment : ActiveReplaySegment) (newer : List RolloutItem),
      s.activeSegment = some segment → scanItem host s newer (.responseItem t.instruction) =
        { s with activeSegment := some { segment with countsAsUserTurn := true } } := by
    intro s segment newer hact
    simp [scanItem, hact, t.instruction_boundary]
  rw [scanFrom_step _ hctx hkn, scanFrom_step _ (hcounts _ _ _ rfl) (by exact hkn),
    scanFrom_responses (by exact hkn) rfl _ (context_boundary t)]

theorem scanFrom_body (hkn : s.known = false) (hact : s.activeSegment = none)
    (older newer : List RolloutItem) :
    scanFrom host (t.body.reverse ++ older) newer s =
      scanFrom host older (t.body ++ newer)
        { s with activeSegment := some t.segment, rolloutSuffix := t.suffix newer s.rolloutSuffix } := by
  have hcpl : scanItem host s newer t.completed = { s with activeSegment := some { turnId := some t.id } } := by
    simp [scanItem, UserTurn.completed, scanTurnComplete, hact]
  have hi : ∀ x ∈ t.items, isUserTurnBoundary host x = false := fun x hx => (t.items_plain x hx).1
  unfold UserTurn.body
  cases hcomp : t.compaction with
  | none =>
    simp only [Option.map_none, Option.getD_none, nil_append, reverse_append, reverse_cons,
      reverse_nil, append_assoc, cons_append]
    rw [scanFrom_step _ hcpl hkn, scanFrom_responses (by exact hkn) rfl _ hi,
      scanFrom_head t (by exact hkn) rfl rfl]
    simp [UserTurn.segment, UserTurn.suffix, UserTurn.reference, hcomp]
  | some c =>
    have haft : ∀ x ∈ c.after, isUserTurnBoundary host x = false := fun x hx => (c.after_plain x hx).1
    have hcompacted : ∀ (s : ReverseScan) (newer : List RolloutItem), s.activeSegment = some { turnId := some t.id } →
        scanItem host s newer (.compacted c.item) =
          { s with
            activeSegment := some {
              turnId := some t.id
              referenceContextItem := .cleared
              baseReplacementHistory := some c.replacementHistory
              window := compactedWindow host c.item }
            rolloutSuffix := newer } := by
      intro s newer hs
      simp [scanItem, scanCompacted, hs, c.item_replacementHistory]
    simp only [Option.map_some, Option.getD_some, Compaction.rollout, reverse_append, reverse_cons,
      reverse_nil, append_assoc, cons_append, nil_append]
    rw [scanFrom_step _ hcpl hkn, scanFrom_responses (by exact hkn) rfl _ haft,
      scanFrom_step _ (hcompacted _ _ rfl) (by exact hkn), scanFrom_responses (by exact hkn) rfl _ hi,
      scanFrom_head t (by exact hkn) rfl rfl]
    simp [UserTurn.segment, UserTurn.suffix, UserTurn.reference, hcomp]

theorem scanFrom_turn (hkn : s.known = false) (hact : s.activeSegment = none)
    (older newer : List RolloutItem) :
    scanFrom host (t.rollout.reverse ++ older) newer s =
      let s' := finalizeActiveSegment { s with rolloutSuffix := t.suffix newer s.rolloutSuffix } t.segment
      if s'.known then s' else scanFrom host older (t.rollout ++ newer) s' := by
  have hst : ∀ newer' : List RolloutItem,
      scanItem host { s with activeSegment := some t.segment, rolloutSuffix := t.suffix newer s.rolloutSuffix } newer'
          (.eventMsg (.turnStarted { turnId := t.id, startedAt := t.startedAt })) =
        finalizeActiveSegment { s with rolloutSuffix := t.suffix newer s.rolloutSuffix } t.segment := by
    intro newer'
    have hsame : { s with activeSegment := none, rolloutSuffix := t.suffix newer s.rolloutSuffix } =
        { s with rolloutSuffix := t.suffix newer s.rolloutSuffix } := by rw [← hact]
    rw [← hsame]
    simp [scanItem, scanTurnStarted, UserTurn.segment, turnIdsAreCompatible]
  rw [UserTurn.rollout, reverse_cons, append_assoc, singleton_append, scanFrom_body t hkn hact,
    scanFrom]
  simp only [hst]
  rfl

/-! ## Scanning turns without compactions -/

def scanStep (s : ReverseScan) : Step host → ReverseScan
  | .turn t => finalizeActiveSegment s t.segment
  | .rollback numTurns => { s with pendingRollbackTurns := s.pendingRollbackTurns + numTurns }

def NoCompaction (steps : List (Step host)) : Prop := ∀ step ∈ steps, step.compaction = none

theorem known_of_base_none (h : s.baseReplacementHistory = none) : s.known = false := by
  simp [ReverseScan.known, h]

theorem finalize_pending (h : 0 < s.pendingRollbackTurns) :
    finalizeActiveSegment s t.segment = { s with pendingRollbackTurns := s.pendingRollbackTurns - 1 } := by
  simp [finalizeActiveSegment, h, UserTurn.segment]

theorem finalize_surviving (t : UserTurn host) {s : ReverseScan} (h : s.pendingRollbackTurns = 0) :
    finalizeActiveSegment s t.segment =
      { s with
        baseReplacementHistory := s.baseReplacementHistory.or (t.compaction.map Compaction.replacementHistory)
        window := s.window.or (t.compaction.bind fun c => compactedWindow host c.item)
        previousTurnSettings := s.previousTurnSettings.or (some t.settings)
        referenceContextItem :=
          if s.referenceContextItem = .neverSet then t.reference else s.referenceContextItem } := by
  have hprev : (if s.previousTurnSettings = none then some t.settings else s.previousTurnSettings) =
      s.previousTurnSettings.or (some t.settings) := by
    cases s.previousTurnSettings <;> simp
  simp [finalizeActiveSegment, h, UserTurn.segment, hprev]

/-- What a scan has found out after `steps`, where `live` turns survive the rollbacks so far. -/
structure Scanned (s s' : ReverseScan) (live : List (UserTurn host)) : Prop where
  base : s'.baseReplacementHistory = none
  active : s'.activeSegment = none
  suffix : s'.rolloutSuffix = s.rolloutSuffix
  settings : s'.previousTurnSettings = s.previousTurnSettings.or (live.getLast?.map UserTurn.settings)
  reference : s'.referenceContextItem =
    if s.referenceContextItem = .neverSet then (live.getLast?.map UserTurn.reference).getD .neverSet
    else s.referenceContextItem

theorem rdrop_rdrop {α : Type} (l : List α) (m n : Nat) : (l.rdrop m).rdrop n = l.rdrop (m + n) := by
  simp only [List.rdrop, take_take, length_take]
  congr 1
  omega

theorem survivors_concat (step : Step host) :
    survivors (steps ++ [step]) = push (survivors steps) step := by
  rw [survivors, foldl_append]
  rfl

theorem reference_ne_neverSet : t.reference ≠ .neverSet := by
  unfold reference
  split <;> simp

theorem scanned_foldr (hnone : NoCompaction steps) (s : ReverseScan)
    (hbase : s.baseReplacementHistory = none) (hact : s.activeSegment = none) :
    Scanned s (steps.foldr (fun step s => scanStep s step) s) ((survivors steps).rdrop s.pendingRollbackTurns) := by
  induction steps using List.reverseRecOn generalizing s with
  | nil =>
    refine ⟨hbase, hact, rfl, ?_, ?_⟩
    · simp [survivors, List.rdrop]
    · simp [survivors, List.rdrop]
  | append_singleton steps step ih =>
    have hsts : NoCompaction steps := fun x hx => hnone x (mem_append_left _ hx)
    rw [foldr_append, survivors_concat]
    cases step with
    | rollback numTurns =>
      have h := ih hsts { s with pendingRollbackTurns := s.pendingRollbackTurns + numTurns } hbase hact
      rw [push, rdrop_rdrop, Nat.add_comm]
      exact ⟨h.base, h.active, h.suffix, h.settings, h.reference⟩
    | turn t =>
      have hcomp : t.compaction = none := hnone (.turn t) (by simp)
      by_cases hpend : 0 < s.pendingRollbackTurns
      · have h := ih hsts { s with pendingRollbackTurns := s.pendingRollbackTurns - 1 } hbase hact
        obtain ⟨k, hk⟩ : ∃ k, s.pendingRollbackTurns = k + 1 := ⟨_, (Nat.sub_add_cancel hpend).symm⟩
        rw [foldr_cons, foldr_nil, scanStep, finalize_pending t hpend, push, hk, rdrop_concat_succ]
        rw [hk, Nat.add_sub_cancel] at h
        exact ⟨h.base, h.active, h.suffix, h.settings, h.reference⟩
      · have hzero : s.pendingRollbackTurns = 0 := by omega
        have h := ih hsts (finalizeActiveSegment s t.segment)
        rw [finalize_surviving t hzero, hcomp] at h
        obtain ⟨hbase', hactive', hsuf, hset, href⟩ := h (by simp [hbase]) hact
        have hlive : (push (survivors steps) (.turn t)).rdrop s.pendingRollbackTurns = survivors steps ++ [t] := by
          rw [hzero, rdrop_zero, push]
        rw [hlive, foldr_cons, foldr_nil, scanStep, finalize_surviving t hzero, hcomp]
        refine ⟨hbase', hactive', hsuf, ?_, ?_⟩
        · rw [hset]
          cases s.previousTurnSettings <;> simp
        · rw [href]
          by_cases hnever : s.referenceContextItem = .neverSet
          · simp [hnever, reference_ne_neverSet]
          · simp [hnever]

theorem pending_foldr (hin : StaysWithin steps) (s : ReverseScan) :
    (steps.foldr (fun step s => scanStep s step) s).pendingRollbackTurns =
      s.pendingRollbackTurns - (survivors steps).length := by
  induction steps using List.reverseRecOn generalizing s with
  | nil => rfl
  | append_singleton steps step ih =>
    obtain ⟨hsts, hst, -⟩ := (Run.allSteps_append _ _ _).mp hin
    rw [foldr_append, foldr_cons, foldr_nil, ih hsts, survivors_concat]
    cases step with
    | rollback numTurns =>
      have hle : numTurns ≤ (survivors steps).length := hst
      simp only [scanStep, push, List.rdrop, length_take]
      omega
    | turn t =>
      rw [push, length_append, length_singleton, scanStep]
      by_cases hpend : 0 < s.pendingRollbackTurns
      · rw [finalize_pending t hpend]
        simp only
        omega
      · rw [finalize_surviving t (by omega)]
        simp only
        omega

theorem scanFrom_steps (hnone : NoCompaction steps) (s : ReverseScan)
    (hbase : s.baseReplacementHistory = none) (hact : s.activeSegment = none) (older newer : List RolloutItem) :
    scanFrom host ((rolloutOf steps).reverse ++ older) newer s =
      scanFrom host older (rolloutOf steps ++ newer) (steps.foldr (fun step s => scanStep s step) s) := by
  induction steps using List.reverseRecOn generalizing s newer with
  | nil => rfl
  | append_singleton steps step ih =>
    have hsts : NoCompaction steps := fun x hx => hnone x (mem_append_left _ hx)
    have hscan := scanned_foldr [step] (fun x hx => hnone x (mem_append_right _ hx)) s hbase hact
    have hone : ∀ older, scanFrom host (step.rollout.reverse ++ older) newer s =
        scanFrom host older (step.rollout ++ newer) (scanStep s step) := by
      intro older
      cases step with
      | rollback numTurns => exact scanFrom_step older rfl (known_of_base_none hbase)
      | turn t =>
        have hcomp : t.compaction = none := hnone (.turn t) (by simp)
        have hsuf : t.suffix newer s.rolloutSuffix = s.rolloutSuffix := by rw [suffix, hcomp]
        rw [Step.rollout, scanFrom_turn t (known_of_base_none hbase) hact, hsuf]
        have hunknown : (finalizeActiveSegment s t.segment).known = false := known_of_base_none hscan.base
        exact if_neg (Bool.eq_false_iff.mp hunknown)
    have hrollout : rolloutOf (steps ++ [step]) = rolloutOf steps ++ step.rollout := by simp [rolloutOf]
    rw [hrollout, reverse_append, append_assoc, hone,
      ih hsts (scanStep s step) hscan.base hscan.active, foldr_append, append_assoc]
    rfl

/-! ## The whole scan -/

theorem reverseScan_eq {items : List RolloutItem} (h : scanFrom host items.reverse [] { rolloutSuffix := items } = s)
    (hact : s.activeSegment = none) : reverseScan host items = s := by
  rw [reverseScan, h]
  simp only [hact]

structure Found (live : List (UserTurn host)) (s : ReverseScan) : Prop where
  settings : s.previousTurnSettings = live.getLast?.map UserTurn.settings
  reference : s.referenceContextItem = (live.getLast?.map UserTurn.reference).getD .neverSet

theorem reverseScan_of_noCompaction (hnone : NoCompaction steps) :
    (reverseScan host (rolloutOf steps)).baseReplacementHistory = none ∧
    (reverseScan host (rolloutOf steps)).rolloutSuffix = rolloutOf steps ∧
    Found (survivors steps) (reverseScan host (rolloutOf steps)) := by
  have hscan := scanFrom_steps steps hnone { rolloutSuffix := rolloutOf steps } rfl rfl [] []
  rw [append_nil, append_nil, scanFrom] at hscan
  have hscanned := scanned_foldr steps hnone { rolloutSuffix := rolloutOf steps } rfl rfl
  rw [reverseScan_eq hscan hscanned.active]
  refine ⟨hscanned.base, hscanned.suffix, ?_, ?_⟩
  · simpa using hscanned.settings
  · simpa using hscanned.reference

theorem reverseScan_of_compaction (pre post : List (Step host)) (t : UserTurn host) (c : Compaction host)
    (ht : t.compaction = some c) (hnone : NoCompaction post) (hin : StaysWithin post) :
    (reverseScan host (rolloutOf (pre ++ .turn t :: post))).baseReplacementHistory = some c.replacementHistory ∧
    (reverseScan host (rolloutOf (pre ++ .turn t :: post))).rolloutSuffix =
      c.after.map .responseItem ++ t.completed :: rolloutOf post ∧
    Found (t :: survivors post) (reverseScan host (rolloutOf (pre ++ .turn t :: post))) := by
  have hrollout : rolloutOf (pre ++ .turn t :: post) = rolloutOf pre ++ (t.rollout ++ rolloutOf post) := by
    simp [rolloutOf, Step.rollout]
  generalize hi : rolloutOf (pre ++ .turn t :: post) = items at hrollout
  have hscanned := scanned_foldr post hnone { rolloutSuffix := items } rfl rfl
  have hpend := pending_foldr post hin { rolloutSuffix := items }
  have hscan := scanFrom_steps post hnone { rolloutSuffix := items } rfl rfl
      (t.rollout.reverse ++ (rolloutOf pre).reverse) []
  rw [append_nil] at hscan
  generalize post.foldr (fun step s => scanStep s step) { rolloutSuffix := items } = s at hscanned hpend hscan
  have hzero : s.pendingRollbackTurns = 0 := by
    rw [hpend]
    exact Nat.zero_sub _
  rw [scanFrom_turn t (known_of_base_none hscanned.base) hscanned.active] at hscan
  have hfinal := @finalize_surviving host t { s with rolloutSuffix := t.suffix (rolloutOf post) s.rolloutSuffix } hzero
  generalize finalizeActiveSegment { s with rolloutSuffix := t.suffix (rolloutOf post) s.rolloutSuffix } t.segment = s'
    at hscan hfinal
  have hl : ∀ {α : Type} (f : UserTurn host → α),
      ((survivors post).getLast?.map f).or (some (f t)) = (t :: survivors post).getLast?.map f := by
    intro α f
    rw [getLast?_cons]
    cases (survivors post).getLast? <;> rfl
  have hbase : s'.baseReplacementHistory = some c.replacementHistory := by
    simp [hfinal, hscanned.base, ht]
  have hset : s'.previousTurnSettings = (t :: survivors post).getLast?.map settings := by
    rw [hfinal, ← hl]
    simp [hscanned.settings]
  have href : s'.referenceContextItem = ((t :: survivors post).getLast?.map reference).getD .neverSet := by
    rw [hfinal, ← hl]
    simp only [hscanned.reference, if_true, rdrop_zero]
    cases (survivors post).getLast? with
    | none => simp
    | some u => simp [reference_ne_neverSet]
  -- the turn with the compaction survives, so the scan ends there
  have hkn : s'.known = true := by
    have hsome : s'.previousTurnSettings.isSome = true := by simp [hset]
    have hne : s'.referenceContextItem ≠ .neverSet := by
      rw [href, ← hl]
      cases (survivors post).getLast? <;> simp [reference_ne_neverSet]
    simp [ReverseScan.known, hbase, hsome, hne]
  simp only [hkn, if_true] at hscan
  have hreverse : items.reverse = (rolloutOf post).reverse ++ (t.rollout.reverse ++ (rolloutOf pre).reverse) := by
    simp [hrollout]
  rw [← hreverse] at hscan
  have hact : s'.activeSegment = none := by simp [hfinal, hscanned.active]
  have hsuf : s'.rolloutSuffix = c.after.map .responseItem ++ t.completed :: rolloutOf post := by
    simp [hfinal, suffix, ht]
  rw [reverseScan_eq hscan hact]
  exact ⟨hbase, hsuf, hset, href⟩

end

/-! ## Replaying turns without compactions -/

section
variable {host : ReplayHost} (steps : List (Step host)) (s : List ResponseItem × List (UserTurn host))

def UserTurn.recorded (t : UserTurn host) : List ResponseItem :=
  t.context ++ t.instruction :: ContextManager.recorded host t.items

theorem foldl_responses (items : List ResponseItem) (h : ContextManager × Bool) :
    (items.map RolloutItem.responseItem).foldl (replayItem host) h = (items.foldl (recordItem host) h.1, h.2) := by
  induction items generalizing h with
  | nil => rfl
  | cons item items ih => exact ih _

theorem recorded_turn (t : UserTurn host) :
    ContextManager.recorded host (t.context ++ t.instruction :: t.items) = t.recorded := by
  obtain ⟨hapi, hprocess⟩ := recorded_of_boundary t.instruction_boundary
  have hctx : ContextManager.recorded host t.context = t.context :=
    recorded_eq_self host fun x hx => recorded_of_contextual (t.context_contextual x hx)
  rw [recorded_append, hctx, UserTurn.recorded]
  simp [ContextManager.recorded, hapi, hprocess]

theorem replay_turn (t : UserTurn host) (hnone : t.compaction = none) (h : ContextManager) (legacy : Bool) :
    ∃ h', t.rollout.foldl (replayItem host) (h, legacy) = (h', legacy) ∧ h'.items = h.items ++ t.recorded := by
  refine ⟨(t.context ++ t.instruction :: t.items).foldl (recordItem host) h, ?_, ?_⟩
  · simp only [rollout, body, hnone, Option.map_none, Option.getD_none, nil_append,
      foldl_cons, foldl_append, foldl_nil, foldl_responses]
    rfl
  · rw [items_foldl_recordItem, recorded_turn]

theorem countP_boundary {xs : List ResponseItem} (h : ∀ x ∈ xs, isUserTurnBoundary host x = false) :
    xs.countP (isUserTurnBoundary host) = 0 :=
  countP_eq_zero.mpr fun x hx => by simp [h x hx]

theorem recorded_countP (live : List (UserTurn host)) :
    (live.flatMap UserTurn.recorded).countP (isUserTurnBoundary host) = live.length := by
  induction live with
  | nil => rfl
  | cons t live ih =>
    have hplain := forall_mem_recorded host (P := fun x => isUserTurnBoundary host x = false)
      (fun x => by rw [isUserTurnBoundary_processItem]) fun y hy => (t.items_plain y hy).1
    rw [flatMap_cons, countP_append, ih, UserTurn.recorded, countP_append, countP_boundary (context_boundary t),
      countP_cons_of_pos t.instruction_boundary, countP_boundary hplain, length_cons]
    omega

theorem rdropWhile_recorded (xs : List ResponseItem) (t : UserTurn host) :
    (xs ++ t.recorded).rdropWhile (isContextual host) = xs ++ t.recorded := by
  rw [rdropWhile_eq_self_iff]
  intro hne
  have hplain : ∀ x ∈ t.instruction :: ContextManager.recorded host t.items, isContextual host x = false := by
    intro x hx
    rcases mem_cons.mp hx with rfl | hx
    · exact isContextual_of_boundary t.instruction_boundary
    · exact forall_mem_recorded host (P := fun x => isContextual host x = false)
        (fun x => by rw [isContextual_processItem]) (fun y hy => (t.items_plain y hy).2) x hx
  have hl : (xs ++ t.recorded).getLast hne ∈ t.instruction :: ContextManager.recorded host t.items := by
    simp only [UserTurn.recorded, ← append_assoc]
    rw [getLast_append_of_ne_nil _ (cons_ne_nil _ _)]
    exact getLast_mem _
  rw [hplain _ hl]
  exact Bool.false_ne_true

theorem rdropWhile_append_contextual (xs context : List ResponseItem)
    (h : ∀ x ∈ context, isContextual host x = true) :
    (xs ++ context).rdropWhile (isContextual host) = xs.rdropWhile (isContextual host) := by
  induction context using List.reverseRecOn with
  | nil => rw [append_nil]
  | append_singleton context x ih =>
    rw [← append_assoc, rdropWhile_concat_pos _ _ _ (h x (by simp)),
      ih fun y hy => h y (mem_append_left _ hy)]

/-- What is left of `before`, which stands before the turns `live`: a marker that drops every turn
trims it if there is a turn in it, and else leaves the context of the first turn there. -/
def leftBefore (before : List ResponseItem) (live : List (UserTurn host)) (numTurns : Nat) : List ResponseItem :=
  match live with
  | [] => before
  | first :: _ =>
    if live.length ≤ numTurns then
      if before.any (isUserTurnBoundary host) then before.rdropWhile (isContextual host) else before ++ first.context
    else before

def disturb (s : List ResponseItem × List (UserTurn host)) : Step host → List ResponseItem × List (UserTurn host)
  | .turn t => (s.1, push s.2 (.turn t))
  | .rollback numTurns => (leftBefore s.1 s.2 numTurns, push s.2 (.rollback numTurns))

section
variable (h : ContextManager) {before : List ResponseItem} {live rest : List (UserTurn host)} {first : UserTurn host}

theorem split_turns (first : UserTurn host) (rest : List (UserTurn host)) :
    ∃ turns, (first :: rest).flatMap UserTurn.recorded = first.context ++ first.instruction :: turns ∧
      (first.instruction :: turns).countP (isUserTurnBoundary host) = (first :: rest).length := by
  refine ⟨ContextManager.recorded host first.items ++ rest.flatMap UserTurn.recorded, ?_, ?_⟩
  · simp [UserTurn.recorded]
  · have hlive := recorded_countP (first :: rest)
    rw [flatMap_cons, UserTurn.recorded, append_assoc, countP_append, countP_boundary (context_boundary first),
      Nat.zero_add] at hlive
    exact hlive

theorem not_any_boundary (hpre : ¬before.any (isUserTurnBoundary host) = true) :
    ∀ item ∈ before, isUserTurnBoundary host item = false := by
  intro item hit
  simpa using fun hb => hpre (any_eq_true.mpr ⟨item, hit, hb⟩)

theorem items_rollback_all {numTurns : Nat} (hi : h.items = before ++ (first :: rest).flatMap recorded)
    (hall : (first :: rest).length ≤ numTurns)
    (hin : before.any (isUserTurnBoundary host) = true → numTurns ≤ (first :: rest).length) :
    (h.dropLastNUserTurns host numTurns).items =
      if before.any (isUserTurnBoundary host) then before.rdropWhile (isContextual host)
        else before ++ first.context := by
  obtain ⟨turns, hspl, hcnt⟩ := split_turns first rest
  rw [hspl, ← append_assoc] at hi
  split
  · next hpre =>
    obtain ⟨item, hit, hb⟩ := any_eq_true.mp hpre
    obtain rfl : numTurns = (first :: rest).length := Nat.le_antisymm (hin hpre) hall
    rw [← hcnt, items_dropLastNUserTurns_some h hi first.instruction_boundary
      ⟨item, mem_append_left _ hit, hb⟩, rdropWhile_append_contextual _ _ first.context_contextual]
  · next hpre =>
    refine items_dropLastNUserTurns_all h hi first.instruction_boundary ?_ (hcnt.trans_le hall)
    intro item hit
    rcases mem_append.mp hit with hit | hit
    · exact not_any_boundary hpre item hit
    · exact context_boundary first item hit

theorem items_rollback_some {kept : List (UserTurn host)} {t : UserTurn host}
    (hi : h.items = before ++ ((kept ++ [t]) ++ first :: rest).flatMap UserTurn.recorded) :
    (h.dropLastNUserTurns host (first :: rest).length).items = before ++ (kept ++ [t]).flatMap UserTurn.recorded := by
  obtain ⟨turns, hspl, hcnt⟩ := split_turns first rest
  have hitems' : h.items = (((before ++ kept.flatMap UserTurn.recorded) ++ t.recorded) ++ first.context) ++
      first.instruction :: turns := by
    rw [hi, flatMap_append, hspl]
    simp
  have hboundary : ∃ item ∈ ((before ++ kept.flatMap UserTurn.recorded) ++ t.recorded) ++ first.context,
      isUserTurnBoundary host item = true := by
    refine ⟨t.instruction, ?_, t.instruction_boundary⟩
    simp [UserTurn.recorded]
  rw [← hcnt, items_dropLastNUserTurns_some h hitems' first.instruction_boundary hboundary,
    rdropWhile_append_contextual _ _ first.context_contextual, rdropWhile_recorded]
  simp

theorem items_rollback (numTurns : Nat) (hi : h.items = before ++ live.flatMap recorded)
    (hin : before.any (isUserTurnBoundary host) = true → numTurns ≤ live.length) :
    (h.dropLastNUserTurns host numTurns).items =
      leftBefore before live numTurns ++ (live.rdrop numTurns).flatMap recorded := by
  cases live with
  | nil =>
    rw [leftBefore, rdrop_nil, ← hi]
    refine items_dropLastNUserTurns_of_none h numTurns ?_
    by_cases hpre : before.any (isUserTurnBoundary host) = true
    · exact .inl (Nat.le_zero.mp (hin hpre))
    · rw [hi, flatMap_nil, append_nil]
      exact .inr (not_any_boundary hpre)
  | cons first rest =>
    rw [leftBefore]
    by_cases hall : (first :: rest).length ≤ numTurns
    · have hnil : (first :: rest).rdrop numTurns = [] := by
        rw [List.rdrop, Nat.sub_eq_zero_of_le hall, take_zero]
      rw [if_pos hall, hnil, flatMap_nil, append_nil, items_rollback_all h hi hall hin]
    · rw [if_neg hall]
      cases numTurns with
      | zero =>
        rw [rdrop_zero, ← hi]
        exact items_dropLastNUserTurns_of_none h 0 (.inl rfl)
      | succ n =>
        have hspl : (first :: rest).rdrop (n + 1) ++ (first :: rest).drop ((first :: rest).length - (n + 1)) =
            first :: rest := take_append_drop _ _
        have hlen : ((first :: rest).drop ((first :: rest).length - (n + 1))).length = n + 1 := by
          rw [length_drop]
          omega
        have hkept : ((first :: rest).rdrop (n + 1)).length ≠ 0 := by
          rw [List.rdrop, length_take]
          omega
        generalize (first :: rest).drop ((first :: rest).length - (n + 1)) = dropped at hspl hlen
        rcases eq_nil_or_concat' ((first :: rest).rdrop (n + 1)) with hnil | ⟨kept, t, hkeep⟩
        · rw [hnil] at hkept
          exact absurd rfl hkept
        · cases dropped with
          | nil => cases hlen
          | cons first' rest' =>
            rw [hkeep] at hspl ⊢
            rw [← hspl] at hi
            rw [← hlen]
            exact items_rollback_some h hi

end

theorem any_rdropWhile (xs : List ResponseItem) :
    (xs.rdropWhile (isContextual host)).any (isUserTurnBoundary host) = xs.any (isUserTurnBoundary host) := by
  induction xs using List.reverseRecOn with
  | nil => rfl
  | append_singleton xs x ih =>
    by_cases hx : isContextual host x = true
    · rw [rdropWhile_concat_pos _ _ _ hx, ih, any_append]
      simp [isUserTurnBoundary_of_contextual hx]
    · rw [rdropWhile_concat_neg _ _ _ hx]

/-- What rollbacks do to the items that stand before the turns: items that hold a turn lose some at
their end, others get more. -/
structure Disturbed (host : ReplayHost) (before after : List ResponseItem) : Prop where
  any : after.any (isUserTurnBoundary host) = before.any (isUserTurnBoundary host)
  isPrefix : if before.any (isUserTurnBoundary host) then after <+: before else before <+: after

section
variable {xs ys zs : List ResponseItem}

theorem Disturbed.refl (xs : List ResponseItem) : Disturbed host xs xs := ⟨rfl, by simp⟩

theorem Disturbed.trans (h : Disturbed host xs ys) (h' : Disturbed host ys zs) : Disturbed host xs zs := by
  obtain ⟨hany, hpre⟩ := h
  obtain ⟨hany', hpre'⟩ := h'
  rw [hany] at hpre'
  refine ⟨hany'.trans hany, ?_⟩
  split at hpre
  · next hin =>
    rw [if_pos hin] at hpre' ⊢
    exact hpre'.trans hpre
  · next hin =>
    rw [if_neg hin] at hpre' ⊢
    exact hpre.trans hpre'

theorem Disturbed.antisymm (h : Disturbed host xs ys) (h' : Disturbed host ys xs) : xs = ys := by
  obtain ⟨hany, hpre⟩ := h
  have hpre' := h'.isPrefix
  rw [hany] at hpre'
  split at hpre
  · next hin =>
    rw [if_pos hin] at hpre'
    exact hpre'.eq_of_length_le hpre.length_le
  · next hin =>
    rw [if_neg hin] at hpre'
    exact hpre.eq_of_length_le hpre'.length_le

end

theorem disturbed_leftBefore (before : List ResponseItem) (live : List (UserTurn host)) (numTurns : Nat) :
    Disturbed host before (leftBefore before live numTurns) := by
  cases live with
  | nil => exact .refl _
  | cons first rest =>
    rw [leftBefore]
    split
    · split
      · next hany => exact ⟨any_rdropWhile before, by rw [if_pos hany]; exact List.rdropWhile_prefix _ _⟩
      · next hany =>
        have hctx : first.context.any (isUserTurnBoundary host) = false :=
          any_eq_false.mpr fun x hx => by simp [context_boundary first x hx]
        exact ⟨by rw [any_append, hctx, Bool.or_false], by rw [if_neg hany]; exact prefix_append _ _⟩
    · exact .refl _

theorem disturbed_disturb (step : Step host) : Disturbed host s.1 (disturb s step).1 := by
  cases step with
  | turn t => exact .refl _
  | rollback numTurns => exact disturbed_leftBefore s.1 s.2 numTurns

theorem disturbed_foldl : Disturbed host s.1 (steps.foldl disturb s).1 := by
  induction steps generalizing s with
  | nil => exact .refl _
  | cons step steps ih => exact (disturbed_disturb s step).trans (ih _)

theorem disturb_snd (step : Step host) :
    (disturb s step).2 = push s.2 step := by
  cases step <;> rfl

theorem foldl_disturb_snd :
    (steps.foldl disturb s).2 = steps.foldl push s.2 := by
  induction steps generalizing s with
  | nil => rfl
  | cons step steps ih => rw [foldl_cons, foldl_cons, ih, disturb_snd]

theorem replay_steps (hnone : NoCompaction steps) (h : ContextManager) (legacy : Bool)
    {s : List ResponseItem × List (UserTurn host)} (hi : h.items = s.1 ++ s.2.flatMap recorded)
    (hin : s.1.any (isUserTurnBoundary host) = true → Run.AllSteps Within push s.2 steps) :
    ∃ h', (rolloutOf steps).foldl (replayItem host) (h, legacy) = (h', legacy) ∧
      h'.items = (steps.foldl disturb s).1 ++ (steps.foldl disturb s).2.flatMap recorded := by
  induction steps generalizing h s with
  | nil => exact ⟨h, rfl, hi⟩
  | cons step steps ih =>
    have hsts : NoCompaction steps := (forall_mem_cons.mp hnone).2
    obtain ⟨h₁, hfold, hitems₁⟩ : ∃ h₁, step.rollout.foldl (replayItem host) (h, legacy) = (h₁, legacy) ∧
        h₁.items = (disturb s step).1 ++ (disturb s step).2.flatMap recorded := by
      cases step with
      | turn t =>
        obtain ⟨h₁, hfold, hitems₁⟩ := replay_turn t (hnone (.turn t) mem_cons_self) h legacy
        refine ⟨h₁, hfold, ?_⟩
        rw [hitems₁, hi]
        simp [disturb, push]
      | rollback numTurns =>
        exact ⟨_, rfl, items_rollback h numTurns hi fun hany => (hin hany).1⟩
    obtain ⟨h', hfold', hitems'⟩ := ih hsts h₁ hitems₁ fun hany => by
      rw [disturb_snd]
      rw [(disturbed_disturb s step).any] at hany
      exact (hin hany).2
    refine ⟨h', ?_, hitems'⟩
    rw [← hfold', ← hfold, ← foldl_append]
    rfl

/-! ## What the markers leave -/

theorem harmless_iff (base : List ResponseItem) (live : List (UserTurn host)) (step : Step host) :
    Harmless base live step ↔ (disturb (base, live) step).1 = base := by
  cases step with
  | turn t => exact ⟨fun _ => rfl, fun _ => trivial⟩
  | rollback numTurns =>
    cases live with
    | nil => simp [Harmless, disturb, leftBefore]
    | cons first rest =>
      simp only [Harmless, disturb, leftBefore, head?_cons, Option.mem_some_iff, forall_eq']
      by_cases hall : (first :: rest).length ≤ numTurns
      · simp only [hall, forall_const, if_true]
        by_cases hany : base.any (isUserTurnBoundary host) = true
        · simp only [hany, if_true, rdropWhile_eq_self_iff]
          rcases eq_nil_or_concat' base with rfl | ⟨init, last, rfl⟩
          · simp
          · simp
        · simp [hany]
      · simp only [hall, false_imp_iff, if_false]

theorem foldl_disturb_fst_eq_iff (base : List ResponseItem) (live : List (UserTurn host)) :
    (steps.foldl disturb (base, live)).1 = base ↔ Run.AllSteps (Harmless base) push live steps := by
  induction steps generalizing live with
  | nil => exact ⟨fun _ => trivial, fun _ => rfl⟩
  | cons step steps ih =>
    have hpair : (disturb (base, live) step).1 = base →
        disturb (base, live) step = (base, push live step) := fun h => Prod.ext h (disturb_snd (base, live) step)
    rw [foldl_cons, Run.AllSteps, harmless_iff]
    constructor
    · intro heq
      -- what was changed once never comes back
      have hfst : (disturb (base, live) step).1 = base := by
        have hr := disturbed_foldl steps (disturb (base, live) step)
        rw [heq] at hr
        exact hr.antisymm (disturbed_disturb (base, live) step)
      rw [hpair hfst] at heq
      exact ⟨hfst, (ih _).mp heq⟩
    · rintro ⟨hfst, hr⟩
      rw [hpair hfst]
      exact (ih _).mpr hr

end

/-! ## The rebuilt history -/

section
variable {host : ReplayHost} {c : Compaction host} {steps pre post : List (Step host)} {t : UserTurn host}

def referenceOf (t : Option (UserTurn host)) : Option TurnContextItem :=
  match (t.map UserTurn.reference).getD .neverSet with
  | .latest item => some item
  | _ => none

theorem sinceCompaction_none {steps post : List (Step host)} (h : sinceCompaction steps = (none, post)) :
    post = steps ∧ NoCompaction steps := by
  induction steps generalizing post with
  | nil =>
    cases h
    exact ⟨rfl, by simp [NoCompaction]⟩
  | cons step steps ih =>
    rw [sinceCompaction] at h
    split at h
    · cases h
    · next hnone =>
      split at h
      · cases h
      · next hst =>
        cases h
        refine ⟨rfl, fun x hx => ?_⟩
        rcases mem_cons.mp hx with rfl | hx
        · exact hst
        · exact (ih hnone).2 x hx

theorem sinceCompaction_some {steps post : List (Step host)} (h : sinceCompaction steps = (some c, post)) :
    ∃ pre t, steps = pre ++ .turn t :: post ∧ t.compaction = some c ∧ NoCompaction post := by
  induction steps generalizing post with
  | nil => cases h
  | cons step steps ih =>
    rw [sinceCompaction] at h
    split at h
    · next hsome =>
      cases h
      obtain ⟨pre, t, rfl, ht, hnone⟩ := ih hsome
      exact ⟨step :: pre, t, rfl, ht, hnone⟩
    · next hnone =>
      split at h
      · next hst =>
        cases h
        cases step with
        | turn t => exact ⟨[], t, rfl, hst, (sinceCompaction_none hnone).2⟩
        | rollback numTurns => cases hst
      · cases h

theorem sinceCompaction_of_noCompaction (h : NoCompaction steps) :
    sinceCompaction steps = (none, steps) := by
  cases hsin : sinceCompaction steps with
  | mk c post =>
    cases c with
    | none => rw [(sinceCompaction_none hsin).1]
    | some c =>
      obtain ⟨pre, t, rfl, ht, -⟩ := sinceCompaction_some hsin
      rw [show t.compaction = none from h (.turn t) (by simp)] at ht
      cases ht

theorem sinceCompaction_append (ht : t.compaction = some c) (h : NoCompaction post) :
    sinceCompaction (pre ++ .turn t :: post) = (some c, post) := by
  induction pre with
  | nil =>
    rw [nil_append, sinceCompaction, sinceCompaction_of_noCompaction h]
    simp [Step.compaction, ht]
  | cons step pre ih => rw [cons_append, sinceCompaction, ih]

theorem foldl_push_within (steps : List (Step host)) (before live : List (UserTurn host))
    (h : Run.AllSteps Within push live steps) :
    steps.foldl push (before ++ live) = before ++ steps.foldl push live := by
  induction steps generalizing live with
  | nil => rfl
  | cons step steps ih =>
    have hst : push (before ++ live) step = before ++ push live step := by
      cases step with
      | turn t => simp [push]
      | rollback numTurns =>
        have hle : numTurns ≤ live.length := h.1
        simp only [push, List.rdrop, length_append, Nat.add_sub_assoc hle, take_length_add_append]
    rw [foldl_cons, foldl_cons, hst, ih _ h.2]

theorem survivors_append (h : StaysWithin post) :
    survivors (pre ++ .turn t :: post) = survivors pre ++ t :: survivors post := by
  have hpost := foldl_push_within post (survivors pre ++ [t]) [] h
  rw [append_nil] at hpost
  rw [survivors, foldl_append, foldl_cons]
  simpa [survivors, push] using hpost

theorem reconstruct_of_found {items : List RolloutItem}
    {live : List (UserTurn host)} {base : Option (List ResponseItem)}
    {h : ContextManager} (hfnd : Found live (reverseScan host items))
    (hbase : (reverseScan host items).baseReplacementHistory = base)
    (hreplay : (reverseScan host items).rolloutSuffix.foldl (replayItem host)
      ((base.map ({} : ContextManager).replace).getD {}, false) = (h, false)) :
    (reconstructHistoryFromRollout host items).history = h.items ∧
    (reconstructHistoryFromRollout host items).previousTurnSettings = live.getLast?.map settings ∧
    (reconstructHistoryFromRollout host items).referenceContextItem = referenceOf live.getLast? := by
  unfold reconstructHistoryFromRollout referenceOf
  cases base with
  | none =>
    simp only [Option.map_none, Option.getD_none] at hreplay
    simp only [hbase, hreplay, hfnd.settings, hfnd.reference, true_and]
    rfl
  | some baseReplacementHistory =>
    simp only [Option.map_some, Option.getD_some] at hreplay
    simp only [hbase, hreplay, hfnd.settings, hfnd.reference, true_and]
    rfl

theorem reconstruct_clean (steps : List (Step host)) (hclean : Clean steps) :
    (reconstructHistoryFromRollout host (rolloutOf steps)).history =
      ((sinceCompaction steps).2.foldl disturb (baseItems host (sinceCompaction steps).1, [])).1 ++
        (survivors (sinceCompaction steps).2).flatMap UserTurn.recorded ∧
    (reconstructHistoryFromRollout host (rolloutOf steps)).previousTurnSettings =
      (survivors steps).getLast?.map UserTurn.settings ∧
    (reconstructHistoryFromRollout host (rolloutOf steps)).referenceContextItem =
      referenceOf (survivors steps).getLast? := by
  unfold Clean at hclean
  cases hsin : sinceCompaction steps with
  | mk c post =>
    rw [hsin] at hclean
    cases c with
    | none =>
      obtain ⟨rfl, hnone⟩ := sinceCompaction_none hsin
      obtain ⟨hbase, hsuf, hfnd⟩ := reverseScan_of_noCompaction post hnone
      obtain ⟨h', hreplay, hi⟩ := replay_steps post hnone {} false (s := ([], [])) rfl (by simp)
      rw [foldl_disturb_snd] at hi
      have h := reconstruct_of_found hfnd hbase (by rw [hsuf]; exact hreplay)
      rw [hi] at h
      exact h
    | some c =>
      obtain ⟨pre, t, rfl, ht, hnone⟩ := sinceCompaction_some hsin
      obtain ⟨hbase, hsuf, hfnd⟩ := reverseScan_of_compaction pre post t c ht hnone hclean
      obtain ⟨h', hreplay, hi⟩ := replay_steps post hnone
        (c.after.foldl (recordItem host) (({} : ContextManager).replace c.replacementHistory)) false
        (s := (baseItems host (some c), [])) (by rw [items_foldl_recordItem]; simp [baseItems, ContextManager.replace])
        fun _ => hclean
      rw [foldl_disturb_snd] at hi
      have h := reconstruct_of_found hfnd hbase (by
        rw [hsuf, foldl_append, foldl_responses]
        exact hreplay)
      rw [hi] at h
      rw [survivors_append hclean, getLast?_append_cons]
      exact h

/-! ## The rollout of the turns that are left -/

theorem survivors_turns (live : List (UserTurn host)) : survivors (live.map .turn) = live := by
  induction live using List.reverseRecOn with
  | nil => rfl
  | append_singleton live t ih =>
    rw [map_append, map_singleton, survivors_concat, ih]
    rfl

theorem mem_survivors (h : t ∈ survivors steps) : .turn t ∈ steps := by
  induction steps using List.reverseRecOn with
  | nil => cases h
  | append_singleton steps step ih =>
    rw [survivors_concat] at h
    cases step with
    | turn u =>
      rcases mem_append.mp h with h | h
      · exact mem_append_left _ (ih h)
      · rw [mem_singleton.mp h]
        exact mem_append_right _ (mem_singleton.mpr rfl)
    | rollback numTurns => exact mem_append_left _ (ih (mem_of_mem_take h))

theorem noCompaction_survivors (h : NoCompaction steps) :
    NoCompaction ((survivors steps).map .turn) := by
  intro step hst
  obtain ⟨t, ht, rfl⟩ := mem_map.mp hst
  exact h _ (mem_survivors ht)

theorem staysWithin_turns (turns live : List (UserTurn host)) :
    Run.AllSteps Within push live (turns.map .turn) := by
  induction turns generalizing live with
  | nil => trivial
  | cons t turns ih => exact ⟨trivial, ih _⟩

theorem foldl_disturb_turns (turns : List (UserTurn host)) (s : List ResponseItem × List (UserTurn host)) :
    ((turns.map .turn).foldl disturb s).1 = s.1 := by
  induction turns generalizing s with
  | nil => rfl
  | cons t turns ih => exact ih _

theorem sinceCompaction_survivors (hclean : Clean steps) :
    sinceCompaction ((survivors steps).map .turn) =
      ((sinceCompaction steps).1, (survivors (sinceCompaction steps).2).map .turn) := by
  unfold Clean at hclean
  cases hsin : sinceCompaction steps with
  | mk c post =>
    rw [hsin] at hclean
    cases c with
    | none =>
      obtain ⟨rfl, hnone⟩ := sinceCompaction_none hsin
      exact sinceCompaction_of_noCompaction (noCompaction_survivors hnone)
    | some c =>
      obtain ⟨pre, t, rfl, ht, hnone⟩ := sinceCompaction_some hsin
      rw [survivors_append hclean, map_append, map_cons]
      exact sinceCompaction_append ht (noCompaction_survivors hnone)

theorem clean_survivors (hclean : Clean steps) : Clean ((survivors steps).map .turn) := by
  unfold Clean
  rw [sinceCompaction_survivors hclean]
  cases (sinceCompaction steps).1 with
  | none => trivial
  | some c => exact staysWithin_turns _ _

/-- Where the newest compaction is not rolled back, a rollout is rebuilt like the turns it has left
iff no marker disturbs what stands before them. -/
theorem reconstruct_rollback_iff (steps : List (Step host)) (hclean : Clean steps) :
    ((reconstructHistoryFromRollout host (rolloutOf steps)).history =
        (reconstructHistoryFromRollout host (rolloutOf ((survivors steps).map .turn))).history ∧
      (reconstructHistoryFromRollout host (rolloutOf steps)).previousTurnSettings =
        (reconstructHistoryFromRollout host (rolloutOf ((survivors steps).map .turn))).previousTurnSettings ∧
      (reconstructHistoryFromRollout host (rolloutOf steps)).referenceContextItem =
        (reconstructHistoryFromRollout host (rolloutOf ((survivors steps).map .turn))).referenceContextItem) ↔
      Undisturbed steps := by
  obtain ⟨hhistory, hsettings, hreference⟩ := reconstruct_clean steps hclean
  obtain ⟨hhistory', hsettings', hreference'⟩ := reconstruct_clean _ (clean_survivors hclean)
  rw [survivors_turns] at hsettings' hreference'
  rw [sinceCompaction_survivors hclean, foldl_disturb_turns, survivors_turns] at hhistory'
  rw [hsettings, hsettings', hreference, hreference', hhistory, hhistory', append_left_inj]
  simp only [and_true]
  exact foldl_disturb_fst_eq_iff _ _ _

end

def plainHost : ReplayHost where
  parseHookPromptFragment _ := none
  isStandardContextualUserText _ := false
  isInterAgentText _ := false
  truncateFunctionOutputPayload output := output
  buildCompactedHistory _ _ := []
  parseUuidV7 _ := none

def userText (text : String) : ResponseItem := .message { role := "user", content := [.inputText text] }

def shortTurn (id text : String) (summary : Option String) : UserTurn plainHost where
  id
  context := []
  instruction := userText text
  turnContext := { turnId := some id, model := "m" }
  items := []
  compaction := summary.map fun summary =>
    { item := { message := "", replacementHistory := some [userText summary] }
      replacementHistory := [userText summary]
      after := []
      item_replacementHistory := rfl
      after_plain := by simp }
  context_contextual := by simp
  instruction_boundary := by simp [isUserTurnBoundary, userText,
    isContextualUserMessageContent, isContextualUserFragment, plainHost]
  turnContext_turnId := rfl
  items_plain := by simp

theorem reconstruct_rollback_iff_last :
    (reconstructHistoryFromRollout plainHost (rolloutOf
      [.turn (shortTurn "a" "first" none), .turn (shortTurn "b" "second" none), .rollback 1])).history =
    (reconstructHistoryFromRollout plainHost (rolloutOf [.turn (shortTurn "a" "first" none)])).history :=
  ((reconstruct_rollback_iff
    [.turn (shortTurn "a" "first" none), .turn (shortTurn "b" "second" none), .rollback 1] trivial).mpr
    ⟨trivial, trivial, fun first hfirst hle => by cases hfirst; exact absurd hle (by decide), trivial⟩).1

theorem rolled_back_compaction_loses_turn :
    (reconstructHistoryFromRollout plainHost (rolloutOf
      [.turn (shortTurn "a" "first" none), .turn (shortTurn "b" "second" (some "summary")),
        .rollback 1])).history = [] ∧
    survivors [.turn (shortTurn "a" "first" none), .turn (shortTurn "b" "second" (some "summary")), .rollback 1] =
      [shortTurn "a" "first" none] ∧
    (reconstructHistoryFromRollout plainHost (rolloutOf [.turn (shortTurn "a" "first" none)])).history =
      [userText "first"] := by
  refine ⟨by decide +kernel, rfl, by decide +kernel⟩

end RolloutReconstruction
