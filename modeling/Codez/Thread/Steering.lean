import Codez.Lib.Undo
import Codez.History.Rollback
import Codez.Thread.Projection

/-!
Rolling back turns that hold several user messages.
-/

namespace Steering

open Codex ContextManager RolloutReconstruction AppServer List

def isStructural : EventMsg → Bool
  | .userMessage _ => true
  | .threadRolledBack _ => true
  | .turnStarted _ => true
  | .turnComplete _ => true
  | _ => false

/-- An item that is neither a message that begins an instruction turn nor a contextual one. -/
def Aside (host : ReplayHost) : RolloutItem → Prop
  | .responseItem item => Plain host item
  | .eventMsg event => isStructural event = false
  | .turnContext _ => True
  | .sessionMeta => True
  | .interAgentCommunication _ => False
  | .compacted _ => False

structure Spoken (host : ReplayHost) where
  message : Message
  event : UserMessageEvent
  between : List RolloutItem := []
  message_user : message.role = "user"
  message_boundary : isUserTurnBoundary host (.message message) = true
  between_aside : ∀ item ∈ between, Aside host item

inductive Part (host : ReplayHost) where
  | spoken (u : Spoken host)
  | aside (item : RolloutItem) (h : Aside host item)

def Part.message? {host : ReplayHost} : Part host → Option (Spoken host)
  | .spoken u => some u
  | .aside _ _ => none

structure SteeredTurn (host : ReplayHost) where
  id : String
  startedAt : Option Int := none
  parts : List (Part host)
  completedAt : Option Int := none
  durationMs : Option Int := none
  spoken : parts.filterMap Part.message? ≠ []

inductive Step (host : ReplayHost) where
  | turn (t : SteeredTurn host)
  | rollback (numTurns : Nat)

section
variable {host : ReplayHost}

def SteeredTurn.messages (t : SteeredTurn host) : List (Spoken host) := t.parts.filterMap Part.message?

def Spoken.rollout (u : Spoken host) : List RolloutItem :=
  .responseItem (.message u.message) :: (u.between ++ [.eventMsg (.userMessage u.event)])

def Part.rollout : Part host → List RolloutItem
  | .spoken u => u.rollout
  | .aside item _ => [item]

def SteeredTurn.rollout (t : SteeredTurn host) : List RolloutItem :=
  .eventMsg (.turnStarted { turnId := t.id, startedAt := t.startedAt }) ::
    (t.parts.flatMap Part.rollout ++
      [.eventMsg (.turnComplete { turnId := t.id, completedAt := t.completedAt, durationMs := t.durationMs })])

def Step.rollout : Step host → List RolloutItem
  | .turn t => t.rollout
  | .rollback numTurns => [.eventMsg (.threadRolledBack numTurns)]

def rolloutOf (steps : List (Step host)) : List RolloutItem := steps.flatMap Step.rollout

theorem rolloutOf_concat (steps : List (Step host)) (step : Step host) :
    rolloutOf (steps ++ [step]) = rolloutOf steps ++ step.rollout := by
  rw [rolloutOf, flatMap_append, flatMap_singleton]
  rfl

def Step.undo : Step host → Undo.Step (Spoken host)
  | .turn t => .add t.messages
  | .rollback numTurns => .undo numTurns

end

/-! ## What is remembered -/

section
variable {host : ReplayHost} {items : List RolloutItem} {s : ReverseScan} {segment : ActiveReplaySegment}

structure Uncompacted (items : List RolloutItem) (s : ReverseScan) : Prop where
  base : s.baseReplacementHistory = none
  suffix : s.rolloutSuffix = items
  segment : ∀ segment ∈ s.activeSegment, segment.baseReplacementHistory = none

theorem Uncompacted.getD (h : Uncompacted items s) :
    (s.activeSegment.getD {}).baseReplacementHistory = none := by
  cases hact : s.activeSegment with
  | none => rfl
  | some segment => exact h.segment segment hact

theorem Uncompacted.setSegment (h : Uncompacted items s) (hseg : segment.baseReplacementHistory = none) :
    Uncompacted items { s with activeSegment := some segment } where
  base := h.base
  suffix := h.suffix
  segment := by
    rintro _ ⟨⟩
    exact hseg

theorem Uncompacted.finalize (h : Uncompacted items s) (hseg : segment.baseReplacementHistory = none) :
    Uncompacted items (finalizeActiveSegment { s with activeSegment := none } segment) := by
  have hnone : ∀ segment ∈ (none : Option ActiveReplaySegment), segment.baseReplacementHistory = none := by
    intro segment hmem
    cases hmem
  unfold finalizeActiveSegment
  split
  · split
    · exact ⟨h.base, h.suffix, hnone⟩
    · exact ⟨h.base, h.suffix, hnone⟩
  · refine ⟨?_, h.suffix, hnone⟩
    show s.baseReplacementHistory.or _ = none
    rw [h.base, hseg]
    rfl

theorem Uncompacted.scanItem {items newer : List RolloutItem} (h : Uncompacted items s) {item : RolloutItem}
    (hit : isCompacted item = false) : Uncompacted items (scanItem host s newer item) := by
  cases item with
  | compacted compacted => cases hit
  | sessionMeta => exact h
  | responseItem item | interAgentCommunication c => exact h.setSegment h.getD
  | turnContext ctx =>
    simp only [RolloutReconstruction.scanItem, scanTurnContext]
    split
    · exact h.setSegment h.getD
    · exact h.setSegment h.getD
  | eventMsg event =>
    cases event with
    | threadRolledBack numTurns => exact ⟨h.base, h.suffix, h.segment⟩
    | turnComplete e | userMessage e => exact h.setSegment h.getD
    | turnAborted e =>
      simp only [RolloutReconstruction.scanItem, scanTurnAborted]
      split
      · next segment hact => exact h.setSegment (h.segment segment hact)
      · split
        · exact h.setSegment rfl
        · exact h
    | turnStarted e =>
      simp only [RolloutReconstruction.scanItem, scanTurnStarted]
      split
      · next segment hact =>
        split
        · exact h.finalize (h.segment segment hact)
        · exact h
      · exact h
    | _ => exact h

theorem Uncompacted.scanFrom (older newer : List RolloutItem) (h : Uncompacted items s)
    (holder : ∀ item ∈ older, isCompacted item = false) :
    Uncompacted items (scanFrom host older newer s) := by
  induction older generalizing newer s with
  | nil => exact h
  | cons item older ih =>
    have hst : Uncompacted items (RolloutReconstruction.scanItem host s newer item) :=
      h.scanItem (holder item mem_cons_self)
    rw [RolloutReconstruction.scanFrom]
    simp only [known_of_base_none hst.base, Bool.false_eq_true, if_false]
    exact ih _ hst (forall_mem_cons.mp holder).2

theorem history_of_uncompacted (hi : ∀ item ∈ items, isCompacted item = false) :
    (reconstructHistoryFromRollout host items).history = (items.foldl (replayItem host) ({}, false)).1.items := by
  have hscan : Uncompacted items (reverseScan host items) := by
    have hst : Uncompacted items { rolloutSuffix := items } := ⟨rfl, rfl, by intro segment hmem; cases hmem⟩
    have hfrom : Uncompacted items (scanFrom host items.reverse [] { rolloutSuffix := items }) :=
      hst.scanFrom _ _ fun item hmem => hi item (mem_reverse.mp hmem)
    unfold reverseScan
    dsimp only
    split
    · next segment hact => exact hfrom.finalize (hfrom.segment segment hact)
    · exact hfrom
  unfold reconstructHistoryFromRollout
  simp only [hscan.base, hscan.suffix]

end

def Spoken.item {host : ReplayHost} (u : Spoken host) : ResponseItem := .message u.message

section
variable {host : ReplayHost} {h : ContextManager} {s : ContextManager × Bool} {us : List (Spoken host)}
  {item : RolloutItem} (steps : List (Step host))

/-- The messages of the user that the history holds, and nothing contextual. -/
structure Remembers (h : ContextManager) (us : List (Spoken host)) : Prop where
  messages : h.items.filter (isUserTurnBoundary host) = us.map Spoken.item
  plain : ∀ item ∈ h.items, isContextual host item = false

theorem exists_split_countP {α : Type} (p : α → Bool) {xs : List α} {n : Nat} (hpos : 0 < n) (hle : n ≤ xs.countP p) :
    ∃ before x after, xs = before ++ x :: after ∧ p x = true ∧ (x :: after).countP p = n := by
  induction xs with
  | nil =>
    rw [countP_nil] at hle
    omega
  | cons y ys ih =>
    by_cases hys : n ≤ ys.countP p
    · obtain ⟨before, x, after, rfl, hx, hcnt⟩ := ih hys
      exact ⟨y :: before, x, after, rfl, hx, hcnt⟩
    · have hy : p y = true := by
        by_contra hy
        rw [countP_cons_of_neg hy] at hle
        exact hys hle
      refine ⟨[], y, ys, rfl, hy, ?_⟩
      rw [countP_cons_of_pos hy] at hle ⊢
      omega

theorem items_dropLastNUserTurns (hplain : ∀ item ∈ h.items, isContextual host item = false) (n : Nat) :
    (h.dropLastNUserTurns host n).items <+: h.items ∧
      (h.dropLastNUserTurns host n).items.filter (isUserTurnBoundary host) =
        (h.items.filter (isUserTurnBoundary host)).rdrop n := by
  by_cases hnone : n = 0 ∨ h.items.countP (isUserTurnBoundary host) = 0
  · have hsame : (h.dropLastNUserTurns host n).items = h.items := by
      apply items_dropLastNUserTurns_of_none
      refine hnone.imp_right fun hcnt item hit => ?_
      exact Bool.eq_false_iff.mpr (countP_eq_zero.mp hcnt item hit)
    rw [hsame]
    refine ⟨prefix_rfl, ?_⟩
    obtain rfl | hcnt := hnone
    · exact (rdrop_zero _).symm
    · rw [countP_eq_length_filter, length_eq_zero_iff] at hcnt
      rw [hcnt]
      exact (rdrop_nil _).symm
  · rw [not_or] at hnone
    -- the cut is at the message `n` from the end, or at the first one
    obtain ⟨before, x, after, hi, hx, hcnt⟩ := exists_split_countP (isUserTurnBoundary host)
      (show 0 < min n (h.items.countP (isUserTurnBoundary host)) by omega) (Nat.min_le_right _ _)
    have hfilter : h.items.filter (isUserTurnBoundary host) =
        before.filter (isUserTurnBoundary host) ++ (x :: after).filter (isUserTurnBoundary host) := by
      rw [hi, filter_append]
    have htotal : h.items.countP (isUserTurnBoundary host) =
        before.countP (isUserTurnBoundary host) + (x :: after).countP (isUserTurnBoundary host) := by
      rw [hi, countP_append]
    have hres : (h.dropLastNUserTurns host n).items = before := by
      by_cases hle : h.items.countP (isUserTurnBoundary host) ≤ n
      · refine items_dropLastNUserTurns_all h hi hx ?_ (by omega)
        have hzero : before.countP (isUserTurnBoundary host) = 0 := by omega
        exact fun item hit => Bool.eq_false_iff.mpr (countP_eq_zero.mp hzero item hit)
      · have hn : (x :: after).countP (isUserTurnBoundary host) = n := by omega
        have hmore : 0 < before.countP (isUserTurnBoundary host) := by omega
        rw [countP_pos_iff] at hmore
        have hdrop := items_dropLastNUserTurns_some h hi hx hmore
        rw [hn] at hdrop
        rw [hdrop, rdropWhile_eq_self_iff]
        intro hne
        have hmem : before.getLast hne ∈ h.items := by
          rw [hi]
          exact mem_append_left _ (getLast_mem hne)
        rw [hplain _ hmem]
        exact Bool.false_ne_true
    rw [hres, hfilter]
    refine ⟨hi ▸ prefix_append _ _, ?_⟩
    have hlen : (before.filter (isUserTurnBoundary host)).length = (before.filter (isUserTurnBoundary host) ++
        (x :: after).filter (isUserTurnBoundary host)).length - n := by
      rw [length_append, ← countP_eq_length_filter, ← countP_eq_length_filter]
      omega
    rw [List.rdrop, take_left' hlen]

theorem map_rdrop {α β : Type} (f : α → β) (xs : List α) (n : Nat) : (xs.rdrop n).map f = (xs.map f).rdrop n := by
  rw [List.rdrop, List.rdrop, length_map, map_take]

/-! ### One item, one turn, a rollout -/

theorem Remembers.recordPlain {us : List (Spoken host)} (hh : Remembers h us) {item : ResponseItem}
    (hit : Plain host item) : Remembers (h.recordItem host item) us := by
  have hboundary := @forall_mem_recorded host [item] (fun item => isUserTurnBoundary host item = false)
    (fun item => by rw [isUserTurnBoundary_processItem]) (by simpa using hit.1)
  have hcontextual := @forall_mem_recorded host [item] (fun item => isContextual host item = false)
    (fun item => by rw [isContextual_processItem]) (by simpa using hit.2)
  refine ⟨?_, ?_⟩
  · rw [items_recordItem, filter_append, hh.messages, filter_eq_nil_iff.mpr, append_nil]
    intro x hx
    rw [hboundary x hx]
    exact Bool.false_ne_true
  · rw [items_recordItem]
    intro x hx
    obtain hx | hx := mem_append.mp hx
    · exact hh.plain x hx
    · exact hcontextual x hx

theorem Remembers.recordSpoken {us : List (Spoken host)} (hh : Remembers h us) (u : Spoken host) :
    Remembers (h.recordItem host u.item) (us ++ [u]) := by
  have hrecorded : recorded host [u.item] = [u.item] := by
    apply recorded_eq_self
    intro x hx
    rw [mem_singleton.mp hx]
    exact recorded_of_boundary u.message_boundary
  refine ⟨?_, ?_⟩
  · rw [items_recordItem, hrecorded, filter_append, hh.messages, map_append]
    exact congrArg _ (filter_cons_of_pos u.message_boundary)
  · rw [items_recordItem, hrecorded]
    intro x hx
    obtain hx | hx := mem_append.mp hx
    · exact hh.plain x hx
    · rw [mem_singleton.mp hx]
      exact isContextual_of_boundary u.message_boundary

theorem Remembers.replayAside (h : Remembers s.1 us) (hit : Aside host item) :
    Remembers (replayItem host s item).1 us := by
  cases item with
  | sessionMeta => exact h
  | turnContext ctx => exact h
  | responseItem item => exact h.recordPlain hit
  | interAgentCommunication c => cases hit
  | compacted c => cases hit
  | eventMsg event =>
    cases event with
    | threadRolledBack numTurns => cases hit
    | _ => exact h

theorem Remembers.replaySpoken (h : Remembers s.1 us) (u : Spoken host) :
    Remembers (u.rollout.foldl (replayItem host) s).1 (us ++ [u]) := by
  rw [Spoken.rollout, foldl_cons, foldl_append]
  have hfst : Remembers (replayItem host s (.responseItem (.message u.message))).1 (us ++ [u]) := h.recordSpoken u
  exact @Run.foldl_invariant _ _ (replayItem host) (fun s => Remembers s.1 (us ++ [u])) u.between _ hfst
    fun s item hmem hs => hs.replayAside (u.between_aside item hmem)

theorem Remembers.replayParts (h : Remembers s.1 us) (parts : List (Part host)) :
    Remembers ((parts.flatMap Part.rollout).foldl (replayItem host) s).1 (us ++ parts.filterMap Part.message?) := by
  induction parts generalizing s us with
  | nil => simpa using h
  | cons part parts ih =>
    rw [flatMap_cons, foldl_append]
    cases part with
    | spoken u =>
      have hr := ih (h.replaySpoken u)
      rw [append_assoc] at hr
      exact hr
    | aside item hit => exact ih (h.replayAside hit)

theorem Remembers.replayStep (h : Remembers s.1 us) (step : Step host) :
    Remembers (step.rollout.foldl (replayItem host) s).1 (Undo.elementStep us step.undo) := by
  cases step with
  | turn t =>
    rw [Step.rollout, SteeredTurn.rollout, foldl_cons, foldl_append]
    exact h.replayParts t.parts
  | rollback numTurns =>
    obtain ⟨hpre, hfilter⟩ := items_dropLastNUserTurns h.plain numTurns
    refine ⟨?_, fun item hit => h.plain item (hpre.subset hit)⟩
    show (s.1.dropLastNUserTurns host numTurns).items.filter _ = _
    rw [hfilter, h.messages]
    exact (map_rdrop Spoken.item us numTurns).symm

theorem remembers_rollout : Remembers ((rolloutOf steps).foldl (replayItem host) ({}, false)).1
      ((steps.map Step.undo).foldl Undo.elementStep []) := by
  induction steps using List.reverseRecOn with
  | nil => exact ⟨rfl, fun item hit => absurd hit not_mem_nil⟩
  | append_singleton steps step ih =>
    rw [rolloutOf_concat, foldl_append, map_append, foldl_append]
    exact ih.replayStep step

theorem not_compacted_of_aside (h : Aside host item) : isCompacted item = false := by
  cases item with
  | compacted c => cases h
  | _ => rfl

theorem not_compacted_of_mem {steps : List (Step host)} (h : item ∈ rolloutOf steps) :
    isCompacted item = false := by
  obtain ⟨step, -, hit⟩ := mem_flatMap.mp h
  cases step with
  | rollback numTurns =>
    rw [mem_singleton.mp hit]
    rfl
  | turn t =>
    rw [Step.rollout, SteeredTurn.rollout, mem_cons, mem_append, mem_singleton] at hit
    obtain rfl | hit | rfl := hit
    · rfl
    · obtain ⟨part, -, hit⟩ := mem_flatMap.mp hit
      cases part with
      | aside item h =>
        rw [mem_singleton.mp hit]
        exact not_compacted_of_aside h
      | spoken u =>
        rw [Part.rollout, Spoken.rollout, mem_cons, mem_append, mem_singleton] at hit
        obtain rfl | hit | rfl := hit
        · rfl
        · exact not_compacted_of_aside (u.between_aside item hit)
        · rfl
    · rfl

def remembered (host : ReplayHost) (rollout : List RolloutItem) : List ResponseItem :=
  (reconstructHistoryFromRollout host rollout).history.filter (isUserTurnBoundary host)

theorem remembered_eq :
    remembered host (rolloutOf steps) = ((steps.map Step.undo).foldl Undo.elementStep []).map Spoken.item := by
  rw [remembered, history_of_uncompacted fun item => not_compacted_of_mem]
  exact (remembers_rollout steps).messages

end

/-! ## What is seen -/

abbrev Said := Option String × List UserInput

def said? : ThreadItem → Option Said
  | .userMessage _ clientId content => some (clientId, content)
  | _ => none

def saidIn (items : List ThreadItem) : List Said := items.filterMap said?

def Numbered (items : List ThreadItem) : Prop := ∀ item ∈ items, said? item ≠ none → ∃ k, item.id = itemId k

structure Silent (item : ThreadItem) : Prop where
  said : said? item = none
  id : ∀ k, item.id ≠ itemId k

theorem Numbered.concat {items : List ThreadItem} (h : Numbered items) {item : ThreadItem}
    (hit : said? item ≠ none → ∃ k, item.id = itemId k) : Numbered (items ++ [item]) := by
  intro x hx
  obtain hx | hx := mem_append.mp hx
  · exact h x hx
  · rw [mem_singleton.mp hx]
    exact hit

theorem saidIn_upsert {items : List ThreadItem} (h : Numbered items) {item : ThreadItem} (hit : Silent item) :
    saidIn (upsertTurnItem items item) = saidIn items ∧ Numbered (upsertTurnItem items item) := by
  unfold upsertTurnItem saidIn
  induction items with
  | nil =>
    refine ⟨filterMap_cons_none hit.said, ?_⟩
    intro x hx hsaid
    rw [mem_singleton.mp hx] at hsaid
    exact absurd hit.said hsaid
  | cons x items ih =>
    obtain ⟨hsaid, hnum⟩ := ih (forall_mem_cons.mp h).2
    rw [Coalesce.upsert_cons]
    split
    · next hid =>
      have hx : said? x = none := by
        by_contra hx
        obtain ⟨k, hk⟩ := h x mem_cons_self hx
        exact hit.id k (hid ▸ hk)
      refine ⟨?_, ?_⟩
      · rw [filterMap_cons_none hit.said, filterMap_cons_none hx]
      · intro y hy hy'
        obtain rfl | hy := mem_cons.mp hy
        · exact absurd hit.said hy'
        · exact h y (mem_cons_of_mem _ hy) hy'
    · refine ⟨?_, ?_⟩
      · rw [filterMap_cons, filterMap_cons, hsaid]
      · intro y hy
        obtain rfl | hy := mem_cons.mp hy
        · exact h y mem_cons_self
        · exact hnum y hy

/-- The builder inside a turn: what the finished turns say, and the open one so far. -/
structure Speaking (b : ThreadHistoryBuilder) (done : List (List Said)) (id : String) (now : List Said) : Prop where
  turns : (b.turns.map fun turn => saidIn turn.items) = done
  numbered : ∀ turn ∈ b.turns, Numbered turn.items
  current : ∃ turn, b.currentTurn = some turn ∧ turn.id = id ∧ turn.openedExplicitly = true ∧
    saidIn turn.items = now ∧ Numbered turn.items

structure Resting (b : ThreadHistoryBuilder) (done : List (List Said)) : Prop where
  turns : (b.turns.map fun turn => saidIn turn.items) = done
  numbered : ∀ turn ∈ b.turns, Numbered turn.items
  current : b.currentTurn = none

section
open ThreadHistoryBuilder

variable {view : ThreadHost} {b b' : ThreadHistoryBuilder} {done : List (List Said)} {id : String} {now : List Said}
  {turn : PendingTurn} {mk : String → ThreadItem} {event : EventMsg} {host : ReplayHost} {item : ThreadItem}

theorem Speaking.setCurrent (h : Speaking b done id now) (hts : b'.turns = b.turns)
    {turn' : PendingTurn} (hturn : b.currentTurn = some turn) (hcur : b'.currentTurn = some turn')
    (hid : turn'.id = turn.id) (hopn : turn'.openedExplicitly = turn.openedExplicitly) {now' : List Said}
    (hsaid : saidIn turn.items = now → Numbered turn.items → saidIn turn'.items = now' ∧ Numbered turn'.items) :
    Speaking b' done id now' := by
  obtain ⟨turn₀, hturn₀, rfl, hexp, hnow, hnum⟩ := h.current
  obtain rfl : turn₀ = turn := Option.some.inj (hturn₀.symm.trans hturn)
  obtain ⟨hnow', hnumbered'⟩ := hsaid hnow hnum
  exact ⟨by rw [hts]; exact h.turns, by rw [hts]; exact h.numbered,
    ⟨turn', hcur, hid, hopn.trans hexp, hnow', hnumbered'⟩⟩

theorem Speaking.ensureTurn (h : Speaking b done id now) (view : ThreadHost) :
    ∃ turn, b.currentTurn = some turn ∧ b.ensureTurn view = (b, turn) := by
  obtain ⟨turn, hturn, -⟩ := h.current
  refine ⟨turn, hturn, ?_⟩
  unfold ThreadHistoryBuilder.ensureTurn
  rw [hturn]

theorem Speaking.upsertItemInCurrentTurn (h : Speaking b done id now) (hit : Silent item) :
    Speaking (b.upsertItemInCurrentTurn view item) done id now := by
  obtain ⟨turn, hturn, hensure⟩ := h.ensureTurn view
  unfold ThreadHistoryBuilder.upsertItemInCurrentTurn
  rw [hensure]
  refine h.setCurrent (by rfl) hturn (by rfl) (by rfl) (by rfl) ?_
  rintro rfl hnum
  exact saidIn_upsert hnum hit

theorem Speaking.pushNewItem (h : Speaking b done id now) {new : List Said} (hid : ∀ id, (mk id).id = id)
    (hnew : ∀ id, saidIn [mk id] = new) :
    Speaking (b.pushNewItem view mk) done id (now ++ new) := by
  have h' : Speaking b.nextItemId.2 done id now := ⟨h.turns, h.numbered, h.current⟩
  obtain ⟨turn, hturn, hensure⟩ := h'.ensureTurn view
  show Speaking (b.nextItemId.2.pushItemInCurrentTurn view _) done id _
  unfold pushItemInCurrentTurn
  rw [hensure]
  refine h'.setCurrent (by rfl) hturn (by rfl) (by rfl) (by rfl) ?_
  rintro rfl hnum
  refine ⟨?_, hnum.concat fun _ => ⟨b.nextItemIndex, hid _⟩⟩
  rw [saidIn, filterMap_append, ← hnew]
  rfl

theorem Speaking.modifyTurn (h : Speaking b done id now) (turnId : String) {f : Turn → Turn}
    (hf : ∀ turn, Numbered turn.items → saidIn (f turn).items = saidIn turn.items ∧ Numbered (f turn).items) :
    Speaking (b.modifyTurn turnId f) done id now := by
  have hmod : ∀ turns : List Turn, (∀ turn ∈ turns, Numbered turn.items) →
      (Coalesce.modify Turn.id turnId f turns).map (fun turn => saidIn turn.items) =
          turns.map (fun turn => saidIn turn.items) ∧
        ∀ turn ∈ Coalesce.modify Turn.id turnId f turns, Numbered turn.items := by
    intro turns hts
    induction turns with
    | nil => exact ⟨rfl, hts⟩
    | cons turn turns ih =>
      obtain ⟨hturn, hr⟩ := forall_mem_cons.mp hts
      obtain ⟨hsaid, hnum⟩ := ih hr
      rw [Coalesce.modify]
      split
      · exact ⟨by rw [map_cons, (hf turn hturn).1, map_cons], forall_mem_cons.mpr ⟨(hf turn hturn).2, hr⟩⟩
      · exact ⟨by rw [map_cons, hsaid, map_cons], forall_mem_cons.mpr ⟨hturn, hnum⟩⟩
  obtain ⟨hsaid, hnum⟩ := hmod b.turns h.numbered
  exact ⟨hsaid.trans h.turns, hnum, h.current⟩

theorem Speaking.upsertItemInTurnId (h : Speaking b done id now) (turnId : String) (hit : Silent item) :
    Speaking (b.upsertItemInTurnId turnId item) done id now := by
  unfold ThreadHistoryBuilder.upsertItemInTurnId
  split
  · next turn hturn =>
    refine h.setCurrent (by rfl) (Option.filter_eq_some_iff.mp hturn).1 (by rfl) (by rfl) (by rfl) ?_
    rintro rfl hnum
    exact saidIn_upsert hnum hit
  · split
    · have hmod := h.modifyTurn turnId (f := Turn.putItem item) fun turn hturn => saidIn_upsert hturn hit
      exact ⟨hmod.turns, hmod.numbered, hmod.current⟩
    · exact h

theorem Speaking.pushSilentItem (h : Speaking b done id now) (hid : ∀ id, (mk id).id = id)
    (hmk : ∀ id, said? (mk id) = none) : Speaking (b.pushNewItem view mk) done id now := by
  have hpush : Speaking (b.pushNewItem view mk) done id (now ++ []) :=
    h.pushNewItem hid fun id => filterMap_cons_none (hmk id)
  rwa [append_nil] at hpush

theorem Speaking.handleReasoning (h : Speaking b done id now) (text : String)
    (extend : List String → List String → List String × List String) :
    Speaking (b.handleReasoning view text extend) done id now := by
  unfold ThreadHistoryBuilder.handleReasoning
  split
  · exact h
  · obtain ⟨turn, hturn, hensure⟩ := h.ensureTurn view
    rw [hensure]
    dsimp only
    split
    · next reasoningId summary content hl =>
      obtain ⟨before, hi⟩ := getLast?_eq_some_iff.mp hl
      refine h.setCurrent (by rfl) hturn (by rfl) (by rfl) (by rfl) ?_
      rintro rfl hnum
      rw [hi, dropLast_concat]
      rw [hi] at hnum
      refine ⟨?_, Numbered.concat (fun x hx => hnum x (mem_append_left _ hx)) fun hsaid => absurd rfl hsaid⟩
      rw [saidIn, saidIn, filterMap_append, filterMap_append]
      rfl
    · exact h.pushSilentItem (fun _ => rfl) fun _ => rfl

theorem Speaking.changeCurrentTurn (h : Speaking b done id now) (hturn : b.currentTurn = some turn)
    (f : TurnInfo → TurnInfo) : Speaking (b.changeCurrentTurn turn f) done id now := by
  refine h.setCurrent (by rfl) hturn (by rfl) (by rfl) (by rfl) ?_
  exact fun hsaid hnum => ⟨hsaid, hnum⟩

theorem Speaking.changeTurn (h : Speaking b done id now) (turn : Turn) (f : TurnInfo → TurnInfo) :
    Speaking (b.changeTurn turn f) done id now := by
  have hmod := h.modifyTurn turn.id (f := fun turn => { turn with info := f turn.info }) fun _ hturn => ⟨rfl, hturn⟩
  exact ⟨hmod.turns, hmod.numbered, hmod.current⟩

theorem Speaking.of_changes (h : Speaking b done id now) (hchs : b.Changes b') :
    Speaking b' done id now := by
  cases hchs with
  | keep => exact h
  | current hturn f => exact h.changeCurrentTurn hturn f
  | finished _ f => exact h.changeTurn _ f

theorem said?_eq_none (h : isUserMessage item = false) : said? item = none := by
  cases item with
  | userMessage id clientId content => cases h
  | _ => rfl

theorem Speaking.run {act : ItemAct} (h : Speaking b done id now) (hfits : act.Fits event)
    (hid : ∀ id ∈ suppliedId event, ∀ k, id ≠ itemId k) : Speaking (act.run view b) done id now := by
  cases act with
  | keep => exact h
  | put item => exact h.upsertItemInCurrentTurn ⟨said?_eq_none hfits.2, hid _ hfits.1⟩
  | putIn turnId item => exact h.upsertItemInTurnId turnId ⟨said?_eq_none hfits.2, hid _ hfits.1⟩
  | push build => exact h.pushSilentItem (fun id => (hfits id).1) fun id => said?_eq_none (hfits id).2

theorem Speaking.handleEvent (h : Speaking b done id now) (hev : isStructural event = false)
    (hid : ∀ id ∈ suppliedId event, ∀ k, id ≠ itemId k) : Speaking (b.handleEvent view event) done id now := by
  cases eventKind view event with
  | about act hrun hfits =>
    rw [hrun]
    exact h.run hfits hid
  | reasoning text extend hrun =>
    rw [hrun]
    exact h.handleReasoning text extend
  | error e => exact h.of_changes (changes_handleError e)
  | turnAborted e => exact h.of_changes (changes_handleTurnAborted e)
  | _ => cases hev

/-! ### One item, one turn, a rollout -/

/-- The ids that the events of an item bring are not the builder's numbers. -/
def OwnIds : RolloutItem → Prop
  | .eventMsg event => ∀ id ∈ suppliedId event, ∀ k, id ≠ itemId k
  | _ => True

def viewHost (host : ReplayHost) (view : ThreadHost) : ThreadHost :=
  { view with parseHookPromptFragment := host.parseHookPromptFragment }

theorem Speaking.advance (h : Speaking b done id now) : Speaking b.advance done id now :=
  ⟨h.turns, h.numbered, h.current⟩

theorem parseHookPromptMessage_eq_none {content : List ContentItem}
    (h : isContextualUserMessageContent host content = false) (rolloutIndex : Nat) (messageId : Option String) :
    parseHookPromptMessage (viewHost host view) rolloutIndex messageId content = none := by
  unfold parseHookPromptMessage
  dsimp only
  split
  · next fragments hfragments =>
    cases content with
    | nil =>
      cases hfragments
      rfl
    | cons item content =>
      exfalso
      rw [mapM_cons] at hfragments
      obtain ⟨fragment, hfrag, -⟩ := Option.bind_eq_some_iff.mp hfragments
      rw [isContextualUserMessageContent, any_cons, Bool.or_eq_false_iff] at h
      cases item with
      | inputText text =>
        have hpar : host.parseHookPromptFragment text = some fragment := hfrag
        rw [isContextualUserFragment, hpar] at h
        cases h.1
      | _ => cases hfrag
  · rfl

theorem handleResponseItem_eq {item : ResponseItem} (h : isContextual host item = false) :
    b.handleResponseItem (viewHost host view) item = b := by
  unfold ThreadHistoryBuilder.handleResponseItem
  split
  · next m =>
    split
    · next hrole =>
      have hcontent : isContextualUserMessageContent host m.content = false := by
        simpa [isContextual, hrole] using h
      rw [parseHookPromptMessage_eq_none hcontent]
    · rfl
  · rfl

theorem Speaking.handleAside (h : Speaking b done id now) {item : RolloutItem} (hit : Aside host item)
    (hids : OwnIds item) : Speaking (b.handleRolloutItem (viewHost host view) item) done id now := by
  cases item with
  | sessionMeta | turnContext ctx => exact h.advance
  | responseItem item =>
    show Speaking (b.advance.handleResponseItem _ item) done id now
    rw [handleResponseItem_eq hit.2]
    exact h.advance
  | interAgentCommunication c => cases hit
  | compacted c => cases hit
  | eventMsg event => exact h.advance.handleEvent hit hids

def Spoken.said (u : Spoken host) : Said := (u.event.clientId, buildUserInputs u.event)

theorem Speaking.handleUserMessage (h : Speaking b done id now) (u : Spoken host) :
    Speaking (b.handleUserMessage view u.event) done id (now ++ [u.said]) := by
  obtain ⟨turn, hturn, -, hexp, -⟩ := h.current
  unfold ThreadHistoryBuilder.handleUserMessage
  rw [hturn]
  simp only [hexp, Bool.not_true, Bool.false_and, Bool.false_eq_true, if_false]
  exact h.pushNewItem (fun _ => rfl) fun _ => rfl

def Part.OwnIds (part : Part host) : Prop := ∀ item ∈ part.rollout, Steering.OwnIds item

theorem Speaking.handleSpoken (h : Speaking b done id now) (u : Spoken host) (hids : ∀ item ∈ u.rollout, OwnIds item) :
    Speaking (u.rollout.foldl (handleRolloutItem (viewHost host view)) b) done id (now ++ [u.said]) := by
  have hmsg : Speaking (b.handleRolloutItem (viewHost host view) (.responseItem (.message u.message))) done id now := by
    show Speaking (b.advance.handleResponseItem (viewHost host view) (.message u.message)) done id now
    rw [handleResponseItem_eq (isContextual_of_boundary u.message_boundary)]
    exact h.advance
  have hbetween : ∀ item ∈ u.between, OwnIds item := fun item hit =>
    hids item (mem_cons_of_mem _ (mem_append_left _ hit))
  rw [Spoken.rollout, foldl_cons, foldl_append]
  exact Speaking.handleUserMessage (@Run.foldl_invariant _ _ (handleRolloutItem (viewHost host view))
    (fun b => Speaking b done id now) u.between _ hmsg
    fun b item hit hb => hb.handleAside (u.between_aside item hit) (hbetween item hit)).advance u

theorem Speaking.handleParts (h : Speaking b done id now)
    (parts : List (Part host)) (hids : ∀ part ∈ parts, part.OwnIds) :
    Speaking ((parts.flatMap Part.rollout).foldl (handleRolloutItem (viewHost host view)) b) done id
      (now ++ (parts.filterMap Part.message?).map Spoken.said) := by
  induction parts generalizing b now with
  | nil => simpa using h
  | cons part parts ih =>
    obtain ⟨hpart, hps⟩ := forall_mem_cons.mp hids
    rw [flatMap_cons, foldl_append]
    cases part with
    | spoken u =>
      have hspoken : Speaking (u.rollout.foldl (handleRolloutItem (viewHost host view)) b) done id (now ++ [u.said]) :=
        h.handleSpoken u hpart
      have hr := ih hspoken hps
      rw [append_assoc] at hr
      exact hr
    | aside item hit => exact ih (h.handleAside hit (hpart item mem_cons_self)) hps

theorem Resting.finishCurrentTurn (h : Resting b done) : b.finishCurrentTurn = b := by
  unfold ThreadHistoryBuilder.finishCurrentTurn
  rw [h.current]

theorem Resting.advance (h : Resting b done) : Resting b.advance done := ⟨h.turns, h.numbered, h.current⟩

theorem Resting.handleTurnStarted (h : Resting b done) (e : TurnStartedEvent) :
    Speaking (b.handleRolloutItem view (.eventMsg (.turnStarted e))) done e.turnId [] := by
  show Speaking (b.advance.handleTurnStarted view e) done e.turnId []
  unfold ThreadHistoryBuilder.handleTurnStarted
  rw [h.advance.finishCurrentTurn]
  exact ⟨h.turns, h.numbered, ⟨_, rfl, rfl, rfl, rfl, fun item hit => absurd hit not_mem_nil⟩⟩

theorem Speaking.handleTurnComplete (h : Speaking b done id now) (e : TurnCompleteEvent) (hid : e.turnId = id) :
    Resting (b.handleRolloutItem view (.eventMsg (.turnComplete e))) (done ++ [now]) := by
  obtain ⟨turn, hturn, rfl, hexp, hnow, hnum⟩ := h.current
  have hfilter : b.currentTurn.filter (·.id = e.turnId) = some turn := by
    rw [hturn, Option.filter_eq_some_iff]
    exact ⟨rfl, decide_eq_true hid.symm⟩
  show Resting (b.advance.handleTurnComplete e) _
  unfold ThreadHistoryBuilder.handleTurnComplete
  have hfilter' : b.advance.currentTurn.filter (·.id = e.turnId) = some turn := hfilter
  rw [hfilter']
  simp only [ThreadHistoryBuilder.finishCurrentTurn, ThreadHistoryBuilder.changeCurrentTurn, recordChangedTurn, record,
    hexp, Bool.not_true, Bool.and_false, Bool.false_and, Bool.false_eq_true, if_false]
  refine ⟨?_, ?_, rfl⟩
  · show (b.turns ++ [_]).map _ = _
    rw [map_append, h.turns, ← hnow]
    rfl
  · intro turn' hmem
    obtain hmem | hmem := mem_append.mp hmem
    · exact h.numbered turn' hmem
    · rw [mem_singleton.mp hmem]
      exact hnum

theorem Resting.handleThreadRollback (h : Resting b done) (n : Nat) :
    Resting (b.handleRolloutItem view (.eventMsg (.threadRolledBack n))) (done.rdrop n) := by
  have hts : (b.advance.handleThreadRollback n).turns = b.turns.rdrop n := by
    rw [turns_handleThreadRollback, h.advance.finishCurrentTurn]
    rfl
  have hcur : (b.advance.handleThreadRollback n).currentTurn = none := currentTurn_finishCurrentTurn
  refine ⟨?_, ?_, hcur⟩
  · show (b.advance.handleThreadRollback n).turns.map _ = _
    rw [hts, ← h.turns, map_rdrop]
  · show ∀ turn ∈ (b.advance.handleThreadRollback n).turns, Numbered turn.items
    rw [hts]
    exact fun turn hturn => h.numbered turn (mem_of_mem_take hturn)

def saidGroups (groups : List (List (Spoken host))) : List (List Said) := groups.map (·.map Spoken.said)

def Step.OwnIds (step : Step host) : Prop := ∀ item ∈ step.rollout, Steering.OwnIds item

theorem Resting.handleStep {groups : List (List (Spoken host))} (h : Resting b (saidGroups groups)) (step : Step host)
    (hids : step.OwnIds) :
    Resting (step.rollout.foldl (handleRolloutItem (viewHost host view)) b)
      (saidGroups (Undo.groupStep groups step.undo)) := by
  cases step with
  | turn t =>
    have hps : ∀ part ∈ t.parts, part.OwnIds := fun part hpart item hit =>
      hids item (mem_cons_of_mem _ (mem_append_left _ (mem_flatMap.mpr ⟨part, hpart, hit⟩)))
    have hst : Speaking (b.handleRolloutItem (viewHost host view)
        (.eventMsg (.turnStarted { turnId := t.id, startedAt := t.startedAt }))) (saidGroups groups) t.id [] :=
      h.handleTurnStarted _
    rw [Step.rollout, SteeredTurn.rollout, foldl_cons, foldl_append]
    have hspoken : Speaking ((t.parts.flatMap Part.rollout).foldl (handleRolloutItem (viewHost host view)) _)
        (saidGroups groups) t.id (t.messages.map Spoken.said) := hst.handleParts t.parts hps
    have hgroups : saidGroups (groups ++ [t.messages]) = saidGroups groups ++ [t.messages.map Spoken.said] :=
      map_append
    have hcompleted : Resting (handleRolloutItem (viewHost host view) _ (.eventMsg (.turnComplete
        { turnId := t.id, completedAt := t.completedAt, durationMs := t.durationMs }))) _ :=
      hspoken.handleTurnComplete _ rfl
    rw [← hgroups] at hcompleted
    exact hcompleted
  | rollback numTurns =>
    have hgroups : saidGroups (groups.rdrop numTurns) = (saidGroups groups).rdrop numTurns := map_rdrop _ _ _
    have hrolledBack : Resting (handleRolloutItem (viewHost host view) b (.eventMsg (.threadRolledBack numTurns))) _ :=
      h.handleThreadRollback numTurns
    rw [← hgroups] at hrolledBack
    exact hrolledBack

def seen (view : ThreadHost) (rollout : List RolloutItem) : List Said :=
  (buildTurnsFromRolloutItems view rollout).flatMap fun turn => saidIn turn.items

theorem seen_eq (view : ThreadHost) {steps : List (Step host)} (hids : ∀ step ∈ steps, step.OwnIds) :
    seen (viewHost host view) (rolloutOf steps) =
      ((steps.map Step.undo).foldl Undo.groupStep []).flatten.map Spoken.said := by
  have hresting : Resting ((rolloutOf steps).foldl (handleRolloutItem (viewHost host view)) {})
      (saidGroups ((steps.map Step.undo).foldl Undo.groupStep [])) := by
    induction steps using List.reverseRecOn with
    | nil => exact ⟨rfl, fun turn hturn => absurd hturn not_mem_nil, rfl⟩
    | append_singleton steps step ih =>
      rw [rolloutOf_concat, foldl_append, map_append, foldl_append]
      exact (ih fun step hst => hids step (mem_append_left _ hst)).handleStep step
        (hids step (mem_append_right _ mem_cons_self))
  rw [seen, buildTurnsFromRolloutItems, finish, hresting.finishCurrentTurn, flatMap_def]
  rw [hresting.turns, saidGroups, map_flatten]

end

/-! ## Seen as remembered -/

section
variable {host : ReplayHost}

def Step.messages : Step host → List (Spoken host)
  | .turn t => t.messages
  | .rollback _ => []

/-- The view and the history hold the same of the messages that were sent. -/
def SeenAsRemembered (view : ThreadHost) (steps : List (Step host)) : Prop :=
  ∃ us : List (Spoken host), us.Sublist (steps.flatMap Step.messages) ∧
    seen (viewHost host view) (rolloutOf steps) = us.map Spoken.said ∧
    remembered host (rolloutOf steps) = us.map Spoken.item

theorem sublist_elementSteps (steps : List (Step host)) :
    ((steps.map Step.undo).foldl Undo.elementStep []).Sublist (steps.flatMap Step.messages) := by
  induction steps using List.reverseRecOn with
  | nil => exact List.Sublist.refl _
  | append_singleton steps step ih =>
    rw [map_append, foldl_append, flatMap_append, flatMap_singleton]
    cases step with
    | turn t => exact ih.append (List.Sublist.refl _)
    | rollback numTurns =>
      show (List.rdrop _ _).Sublist (_ ++ [])
      rw [append_nil]
      exact (take_sublist _ _).trans ih

theorem nonEmpty_undo {steps : List (Step host)} : ∀ step ∈ steps.map Step.undo, step.NonEmpty := by
  intro step hst
  obtain ⟨step, -, rfl⟩ := mem_map.mp hst
  cases step with
  | turn t => exact t.spoken
  | rollback numTurns => trivial

/-- **Rollbacks of steered turns.**  The view and the history hold the same messages after every step of
a rollout iff each marker drops turns of one message each, or all messages. -/
theorem seen_as_remembered_iff (view : ThreadHost) (steps : List (Step host)) (hids : ∀ step ∈ steps, step.OwnIds) :
    (∀ pre, pre <+: steps → SeenAsRemembered view pre) ↔
      Run.AllSteps Undo.Conforms Undo.groupStep [] (steps.map Step.undo) := by
  constructor
  · intro h
    rw [← Undo.lengths_agree_iff nonEmpty_undo]
    intro pre hpre
    rw [prefix_iff_eq_take, ← map_take] at hpre
    obtain ⟨us, -, hseen, hremembered⟩ := h _ (List.take_prefix pre.length steps)
    rw [seen_eq view fun step hstep => hids step (mem_of_mem_take hstep), ← hpre] at hseen
    rw [remembered_eq, ← hpre] at hremembered
    have hleft := congrArg List.length hseen
    have hright := congrArg List.length hremembered
    rw [length_map, length_map] at hleft hright
    exact hleft.trans hright.symm
  · rintro h pre ⟨post, rfl⟩
    rw [map_append, Run.allSteps_append] at h
    refine ⟨_, sublist_elementSteps pre, ?_, remembered_eq pre⟩
    rw [seen_eq view fun step hstep => hids step (mem_append_left _ hstep),
      Undo.flatten_groups nonEmpty_undo h.1]

/-! ### Runs -/

def plainSpoken (text : String) : Spoken RolloutReconstruction.plainHost where
  message := { role := "user", content := [.inputText text] }
  event := { message := text }
  message_user := rfl
  message_boundary := by
    simp [isUserTurnBoundary, isContextualUserMessageContent, isContextualUserFragment, RolloutReconstruction.plainHost]
  between_aside := by simp

/-- A turn whose first message is followed by `steering`, and then by the start of the searches `searches`. -/
def plainTurn (id text : String) (steering searches : List String) : SteeredTurn RolloutReconstruction.plainHost where
  id
  parts := (text :: steering).map (fun text => .spoken (plainSpoken text)) ++
    searches.map fun callId => .aside (.eventMsg (.webSearchBegin callId)) rfl
  spoken := by simp [Part.message?]

/-- A turn of one message is rolled back, and then two turns where one turn of two messages is left. -/
def steeredSteps : List (Step RolloutReconstruction.plainHost) :=
  [.turn (plainTurn "a" "Start" ["Steer"] []), .turn (plainTurn "b" "Next" [] []), .rollback 1, .rollback 2]

theorem ownIds_steeredSteps : ∀ step ∈ steeredSteps, step.OwnIds := by
  intro step hst item hit
  have hnone : ∀ item ∈ rolloutOf steeredSteps, ∀ event, item = .eventMsg event → suppliedId event = none := by
    simp [rolloutOf, steeredSteps, Step.rollout, SteeredTurn.rollout,
      plainTurn, Part.rollout, Spoken.rollout, plainSpoken,
      suppliedId]
  cases item with
  | eventMsg event =>
    intro id hid
    rw [hnone _ (mem_flatMap.mpr ⟨step, hst, hit⟩) event rfl] at hid
    cases hid
  | _ => trivial

theorem seen_as_remembered_iff_steered : (∀ step ∈ steeredSteps, step.OwnIds) ∧
    ∀ pre, pre <+: steeredSteps → SeenAsRemembered ThreadHistoryBuilder.plainHost pre := by
  refine ⟨ownIds_steeredSteps, ?_⟩
  apply (seen_as_remembered_iff ThreadHistoryBuilder.plainHost steeredSteps ownIds_steeredSteps).mpr
  refine ⟨trivial, trivial, .inl ?_, .inr ?_, trivial⟩
  · intro group hgroup
    rw [mem_singleton.mp hgroup]
    rfl
  · exact Nat.le_refl 2

theorem rolled_back_steering_remembered :
    let steered := [Step.turn (plainTurn "a" "Start" ["Steer"] []), .rollback 1]
    let searched := [Step.turn (plainTurn "a" "Start" [] ["item-1"])]
    seen (viewHost RolloutReconstruction.plainHost ThreadHistoryBuilder.plainHost) (rolloutOf steered) = [] ∧
    remembered RolloutReconstruction.plainHost (rolloutOf steered) = [userText "Start"] ∧
    seen (viewHost RolloutReconstruction.plainHost ThreadHistoryBuilder.plainHost) (rolloutOf searched) = [] ∧
    remembered RolloutReconstruction.plainHost (rolloutOf searched) = [userText "Start"] := by
  decide +kernel

end

end Steering
