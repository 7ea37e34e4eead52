import Codez.Thread.Projection

/-!
The numbers of items across rollbacks.

An item without an id gets the next number, and a rollback sets the next number to the count of the
items that are left, whether they have numbers or not.
-/

namespace AppServer

open Codex Coalesce List

/-- The ids of the items, turn by turn, where `next` is the next number. -/
structure Numbered (next : Nat) (ids : List (List String)) : Prop where
  once : ∀ k, ids.flatten.count (itemId k) ≤ 1
  below : ∀ k, itemId k ∈ ids.flatten → k < next
  next_le : next ≤ ids.flatten.length + 1
  early : ∀ turns, turns <+: ids → ∀ k, itemId k ∈ turns.flatten → k ≤ turns.flatten.length

section
variable {next : Nat} {ids before after : List (List String)} {turn : List String} {id : String}

theorem Numbered.nil : Numbered 1 [] := ⟨by simp, by simp, by simp, by simp⟩

theorem numbered_snoc_nil : Numbered next (ids ++ [[]]) ↔ Numbered next ids := by
  have hflatten : (ids ++ [[]]).flatten = ids.flatten := by simp
  constructor
  · intro h
    exact ⟨hflatten ▸ h.once, hflatten ▸ h.below, hflatten ▸ h.next_le,
      fun turns hts => h.early turns (hts.trans (prefix_append _ _))⟩
  · intro h
    refine ⟨by rw [hflatten]; exact h.once, by rw [hflatten]; exact h.below, by rw [hflatten]; exact h.next_le, ?_⟩
    intro turns hts
    rcases prefix_concat_iff.mp hts with rfl | hts
    · rw [hflatten]
      exact h.early ids prefix_rfl
    · exact h.early turns hts

theorem flatten_insert_perm (before after : List (List String)) (turn : List String) (id : String) :
    (before ++ (turn ++ [id]) :: after).flatten ~ id :: (before ++ turn :: after).flatten := by
  simp only [flatten_append, flatten_cons, append_assoc, singleton_append]
  rw [← append_assoc, ← append_assoc]
  exact perm_middle

theorem Numbered.insert {next' : Nat} (h : Numbered next (before ++ turn :: after)) (hle : next ≤ next')
    (hle' : next' ≤ next + 1) (hid : ∀ k, id = itemId k → k = next ∧ next' = next + 1 ∧ after = []) :
    Numbered next' (before ++ (turn ++ [id]) :: after) := by
  have hperm := flatten_insert_perm before after turn id
  have hnext := h.next_le
  refine ⟨fun k => ?_, fun k hk => ?_, ?_, fun turns hts k hk => ?_⟩
  · rw [hperm.count_eq, count_cons]
    have honce := h.once k
    split
    · next heq =>
      obtain ⟨rfl, -⟩ := hid k (by simpa using heq)
      have hnot : itemId k ∉ (before ++ turn :: after).flatten := fun hmem => absurd (h.below k hmem) (lt_irrefl k)
      rw [count_eq_zero.mpr hnot]
    · exact honce
  · rcases mem_cons.mp (hperm.mem_iff.mp hk) with hk | hk
    · obtain ⟨rfl, rfl, -⟩ := hid k hk.symm
      exact Nat.lt_succ_self k
    · exact (h.below k hk).trans_le hle
  · rw [hperm.length_eq, length_cons]
    omega
  · rcases prefix_or_prefix_of_prefix hts (prefix_append before _) with hpre | ⟨rest, rfl⟩
    · exact h.early turns (hpre.trans (prefix_append _ _)) k hk
    · rcases prefix_cons_iff.mp ((prefix_append_right_inj _).mp hts) with rfl | ⟨rest, rfl, hr⟩
      · rw [append_nil] at hk ⊢
        exact h.early before (prefix_append _ _) k hk
      · have hperm := flatten_insert_perm before rest turn id
        rw [hperm.length_eq, length_cons]
        rcases mem_cons.mp (hperm.mem_iff.mp hk) with hk | hk
        · obtain ⟨rfl, -, rfl⟩ := hid k hk.symm
          rw [prefix_nil.mp hr]
          exact hnext
        · have hold := h.early (before ++ turn :: rest)
            ((prefix_append_right_inj _).mpr (prefix_cons_iff.mpr (.inr ⟨rest, rfl, hr⟩))) k hk
          omega

theorem Numbered.take (h : Numbered next ids) (m : Nat) :
    Numbered ((ids.take m).flatten.length + 1) (ids.take m) where
  once k := ((take_sublist m ids).flatten.count_le _).trans (h.once k)
  below k hk := Nat.lt_succ_of_le (h.early _ (List.take_prefix m ids) k hk)
  next_le := le_rfl
  early turns hts := h.early turns (hts.trans (List.take_prefix m ids))

end

namespace ThreadHistoryBuilder

def itemIds (b : ThreadHistoryBuilder) : List (List String) := b.allTurns.map fun turn => turn.items.map ThreadItem.id

def Counted (b : ThreadHistoryBuilder) : Prop := Numbered b.nextItemIndex b.itemIds

section
variable {host : ThreadHost} {b b' : ThreadHistoryBuilder} {item : ThreadItem} {turn : PendingTurn}

theorem itemIds_of_current (h : b.currentTurn = some turn) :
    b.itemIds = (b.turns.map fun turn => turn.items.map ThreadItem.id) ++ [turn.items.map ThreadItem.id] := by
  rw [itemIds, allTurns_of_current h, map_append, map_singleton]

theorem Counted.congr (h : b.Counted) (hids : b'.itemIds = b.itemIds) (hnext : b'.nextItemIndex = b.nextItemIndex) :
    b'.Counted := by
  unfold Counted
  rwa [hids, hnext]

theorem Counted.finishCurrentTurn (h : b.Counted) : b.finishCurrentTurn.Counted := by
  unfold ThreadHistoryBuilder.finishCurrentTurn
  cases hcur : b.currentTurn with
  | none => exact h
  | some turn =>
    unfold Counted at h
    rw [itemIds_of_current hcur] at h
    dsimp only
    split
    · next hdrop =>
      have hnil : turn.items = [] := by simp_all
      rw [hnil, map_nil, numbered_snoc_nil] at h
      simpa [Counted, itemIds, allTurns] using h
    · simpa [Counted, itemIds, allTurns] using h

theorem Counted.openTurn (h : b.Counted) (hnone : b.currentTurn = none) (hi : turn.items = []) :
    ({ b with currentTurn := some turn } : ThreadHistoryBuilder).Counted := by
  unfold Counted at h ⊢
  rw [itemIds_of_current rfl, hi, map_nil, numbered_snoc_nil]
  rwa [itemIds, allTurns_of_none hnone] at h

theorem Counted.ensureTurn (h : b.Counted) :
    (b.ensureTurn host).1.Counted ∧ (b.ensureTurn host).1.currentTurn = some (b.ensureTurn host).2 := by
  unfold ThreadHistoryBuilder.ensureTurn
  cases hcur : b.currentTurn with
  | some turn => exact ⟨h, hcur⟩
  | none => exact ⟨h.openTurn hcur rfl, rfl⟩

theorem Counted.snoc {next : Nat} (h : b.Counted) (hcur : b.currentTurn = some turn)
    (hnext : next = b.nextItemIndex ∧ (∀ k, item.id ≠ itemId k) ∨
      next = b.nextItemIndex + 1 ∧ item.id = itemId b.nextItemIndex) :
    ({ b with currentTurn := some { turn with items := turn.items ++ [item] }, nextItemIndex := next } :
      ThreadHistoryBuilder).Counted := by
  unfold Counted at h ⊢
  rw [itemIds_of_current hcur] at h
  rw [itemIds_of_current rfl, map_append, map_singleton]
  rcases hnext with ⟨rfl, hid⟩ | ⟨rfl, hid⟩
  · exact h.insert le_rfl (Nat.le_succ _) fun k hk => absurd hk (hid k)
  · exact h.insert (Nat.le_succ _) le_rfl fun k hk => ⟨itemId_inj (hk.symm.trans hid), rfl, rfl⟩

theorem Counted.pushItem (h : b.Counted) (hid : ∀ k, item.id ≠ itemId k) :
    (b.pushItemInCurrentTurn host item).Counted :=
  h.ensureTurn.1.snoc h.ensureTurn.2 (.inl ⟨rfl, hid⟩)

theorem Counted.pushNewItem (h : b.Counted) {mk : String → ThreadItem} (hmk : ∀ id, (mk id).id = id) :
    (b.pushNewItem host mk).Counted := by
  rw [← pushNewItem_ensureTurn]
  obtain ⟨hopn, hcur⟩ := @Counted.ensureTurn host b h
  have hsame : (b.ensureTurn host).1.nextItemId.2.ensureTurn host =
      ((b.ensureTurn host).1.nextItemId.2, (b.ensureTurn host).2) := by
    rw [ThreadHistoryBuilder.ensureTurn, nextItemId, hcur]
  unfold ThreadHistoryBuilder.pushNewItem pushItemInCurrentTurn
  simp only [hsame]
  exact hopn.snoc hcur (.inr ⟨rfl, hmk _⟩)

theorem Numbered.upsert {next : Nat} {before after : List (List String)} {items : List ThreadItem}
    (h : Numbered next (before ++ items.map ThreadItem.id :: after)) (hid : ∀ k, item.id ≠ itemId k) :
    Numbered next (before ++ (upsertTurnItem items item).map ThreadItem.id :: after) := by
  rw [upsertTurnItem, keys_upsert]
  split
  · exact h
  · exact h.insert le_rfl (Nat.le_succ _) fun k hk => absurd hk (hid k)

theorem Counted.upsert (h : b.Counted) (hcur : b.currentTurn = some turn) (hid : ∀ k, item.id ≠ itemId k) :
    ({ b with currentTurn := some { turn with items := upsertTurnItem turn.items item } } :
      ThreadHistoryBuilder).Counted := by
  unfold Counted at h ⊢
  rw [itemIds_of_current hcur] at h
  rw [itemIds_of_current rfl]
  exact Numbered.upsert h hid

theorem Counted.upsertItemInTurnId (h : b.Counted) (tid : String) (hid : ∀ k, item.id ≠ itemId k) :
    (b.upsertItemInTurnId tid item).Counted := by
  unfold ThreadHistoryBuilder.upsertItemInTurnId
  split
  · next turn hturn => exact h.upsert (Option.filter_eq_some_iff.mp hturn).1 hid
  · split
    · next turn hturn =>
      obtain ⟨hfnd, before, after, hts, hpre⟩ := find?_eq_some_iff_append.mp hturn
      have hmod : Coalesce.modify Turn.id tid (Turn.putItem item) (before ++ turn :: after) =
          before ++ turn.putItem item :: after :=
        modify_append_cons _ after (by simpa using hpre) (by simpa using hfnd)
      unfold Counted at h ⊢
      simp only [itemIds, allTurns, recordChangedItem, record, ThreadHistoryBuilder.modifyTurn, hts, hmod, map_append,
        map_cons, append_assoc, cons_append] at h ⊢
      exact Numbered.upsert h hid
    · exact h

theorem Counted.handleReasoning (h : b.Counted) (text : String)
    (extend : List String → List String → List String × List String) :
    (b.handleReasoning host text extend).Counted := by
  unfold ThreadHistoryBuilder.handleReasoning
  split
  · exact h
  · obtain ⟨hopn, hcur⟩ := @Counted.ensureTurn host b h
    dsimp only
    split
    · next id summary content hl =>
      obtain ⟨init, hinit⟩ := getLast?_eq_some_iff.mp hl
      refine hopn.congr ?_ rfl
      rw [itemIds_of_current hcur, itemIds_of_current rfl, hinit, dropLast_concat, map_append, map_append]
      rfl
    · rw [pushNewItem_ensureTurn]
      exact h.pushNewItem fun _ => rfl

theorem map_modify_info (tid : String) (f : TurnInfo → TurnInfo) (turns : List Turn) :
    (Coalesce.modify Turn.id tid (fun turn => { turn with info := f turn.info }) turns).map
      (fun turn => turn.items.map ThreadItem.id) = turns.map fun turn => turn.items.map ThreadItem.id := by
  induction turns with
  | nil => rfl
  | cons turn turns ih =>
    rw [Coalesce.modify]
    split
    · rfl
    · rw [map_cons, ih, map_cons]

theorem Counted.of_changes (h : b.Counted) (hchs : b.Changes b') : b'.Counted := by
  cases hchs with
  | keep => exact h
  | current hturn f => exact h.congr (by rw [itemIds_of_current hturn, itemIds_of_current rfl]; rfl) rfl
  | finished _ f =>
    refine h.congr ?_ rfl
    simp only [itemIds, allTurns, map_append, ThreadHistoryBuilder.changeTurn, recordChangedTurn, record,
      ThreadHistoryBuilder.modifyTurn, map_modify_info]

theorem Counted.handleThreadRollback (h : b.Counted) (n : Nat) : (b.handleThreadRollback n).Counted := by
  have hfin := h.finishCurrentTurn
  have hnone := @currentTurn_finishCurrentTurn b
  have hts := turns_handleThreadRollback b n
  have hnext : (b.handleThreadRollback n).nextItemIndex =
      ((b.handleThreadRollback n).turns.map (·.items.length)).sum + 1 := rfl
  unfold Counted at hfin ⊢
  rw [itemIds, allTurns_of_none hnone] at hfin
  have htake := hfin.take (b.finishCurrentTurn.turns.length - n)
  rw [← map_take, ← hts, length_flatten, map_map] at htake
  rw [itemIds, allTurns_of_none (by exact hnone), hnext]
  simpa [Function.comp_def] using htake

theorem Counted.run {event : EventMsg} {act : ItemAct} (h : b.Counted) (hfits : act.Fits event)
    (hid : ∀ id ∈ suppliedId event, ∀ k, id ≠ itemId k) : (act.run host b).Counted := by
  cases act with
  | keep => exact h
  | put item => exact h.ensureTurn.1.upsert h.ensureTurn.2 (hid _ hfits.1)
  | putIn tid item => exact h.upsertItemInTurnId tid (hid _ hfits.1)
  | push build => exact h.pushNewItem fun id => (hfits id).1

theorem Counted.handleEvent (h : b.Counted) (event : EventMsg) (hid : ∀ id ∈ suppliedId event, ∀ k, id ≠ itemId k) :
    (b.handleEvent host event).Counted := by
  cases eventKind host event with
  | about act hrun hfits =>
    rw [hrun]
    exact h.run hfits hid
  | userMessage e =>
    show ThreadHistoryBuilder.Counted (ThreadHistoryBuilder.pushNewItem host _ _)
    refine Counted.pushNewItem ?_ fun _ => rfl
    split
    · split
      · exact h.finishCurrentTurn
      · exact h
    · exact h
  | reasoning text extend hrun =>
    rw [hrun]
    exact h.handleReasoning text extend
  | error e => exact h.of_changes (changes_handleError e)
  | threadRolledBack n => exact h.handleThreadRollback n
  | turnAborted e => exact h.of_changes (changes_handleTurnAborted e)
  | turnStarted e => exact h.finishCurrentTurn.openTurn currentTurn_finishCurrentTurn rfl
  | turnComplete e =>
    show (b.handleTurnComplete e).Counted
    obtain ⟨b', hchs, hb' | hb'⟩ := @changes_handleTurnComplete b e
    · rw [hb']
      exact h.of_changes hchs
    · rw [hb']
      exact (h.of_changes hchs).finishCurrentTurn

end

/-- No id that an event or a hook prompt brings is a number of the builder's. -/
def OwnNames (host : ThreadHost) (item : RolloutItem) : Prop :=
  (∀ event, item = .eventMsg event → ∀ id ∈ suppliedId event, ∀ k, id ≠ itemId k) ∧
    ∀ rolloutIndex, ∀ id ∈ hookPromptId host rolloutIndex item, ∀ k, id ≠ itemId k

theorem Counted.handleRolloutItem {host : ThreadHost} {b : ThreadHistoryBuilder} (h : b.Counted) {item : RolloutItem}
    (hns : OwnNames host item) : (b.handleRolloutItem host item).Counted := by
  obtain ⟨hsupplied, hhook⟩ := hns
  have hadv : b.advance.Counted := h
  unfold ThreadHistoryBuilder.handleRolloutItem
  generalize b.advance = b at hadv ⊢
  cases item with
  | eventMsg event => exact hadv.handleEvent event (hsupplied event rfl)
  | compacted c =>
    obtain ⟨hopn, hcur⟩ := @Counted.ensureTurn host _ hadv
    exact hopn.congr (by rw [itemIds_of_current hcur, itemIds_of_current rfl]; rfl) rfl
  | responseItem item =>
    unfold handleResponseItem
    dsimp only
    split
    · next m =>
      split
      · next hrole =>
        split
        · next prompt hprompt =>
          exact hadv.pushItem (hhook b.currentRolloutIndex prompt.id (by rw [hookPromptId, if_pos hrole, hprompt]; rfl))
        · exact hadv
      · exact hadv
    · exact hadv
  | _ => exact hadv

/-- **No number is used twice.** -/
theorem item_numbers_distinct (host : ThreadHost) (rollout : List RolloutItem)
    (hnames : ∀ item ∈ rollout, OwnNames host item)
    (k : Nat) : ((buildTurnsFromRolloutItems host rollout).flatMap Turn.items).countP (·.id = itemId k) ≤ 1 := by
  have hcounted : (rollout.foldl (handleRolloutItem host) {}).Counted :=
    @Run.foldl_invariant _ _ _ Counted rollout _ Numbered.nil fun b item hitem h =>
      h.handleRolloutItem (hnames item hitem)
  have honce := hcounted.finishCurrentTurn.once k
  rw [itemIds, allTurns_of_none currentTurn_finishCurrentTurn, ← flatMap_def,
    ← map_flatMap, count_eq_countP, countP_map] at honce
  refine le_of_eq_of_le (countP_congr fun item _ => ?_) honce
  simp

theorem item_numbers_distinct_search :
    ((buildTurnsFromRolloutItems plainHost searchBatches.flatten).flatMap Turn.items).countP (·.id = itemId 1) ≤ 1 := by
  refine item_numbers_distinct plainHost searchBatches.flatten (fun item hitem => ?_) 1
  simp only [searchBatches, flatten_cons, flatten_nil, cons_append,
    nil_append, mem_cons, not_mem_nil, or_false] at hitem
  rcases hitem with rfl | rfl | rfl | rfl | rfl | rfl | rfl
  all_goals exact ⟨(@itemIds_event plainHost {} _ (by simp [suppliedId])).supplied, by simp [hookPromptId]⟩

theorem plan_takes_number : let rollout : List RolloutItem := [.eventMsg (.turnStarted { turnId := "t" }),
      .eventMsg (.itemCompleted { turnId := "t", item := .plan "item-1" "a plan" }),
        .eventMsg (.userMessage { message := "hi" })]
    ((buildTurnsFromRolloutItems plainHost rollout).flatMap Turn.items).map ThreadItem.id = [itemId 1, itemId 1] ∧
    rollout.filterMap (hookPromptId plainHost 0) = [] ∧
    ∀ event, .eventMsg event ∈ rollout → (∀ e, event ≠ .itemCompleted e) → suppliedId event = none := by
  refine ⟨by decide +kernel, rfl, fun event hevent hplan => ?_⟩
  simp only [mem_cons, not_mem_nil, or_false, RolloutItem.eventMsg.injEq] at hevent
  rcases hevent with rfl | rfl | rfl
  · rfl
  · exact absurd rfl (hplan _)
  · rfl

end ThreadHistoryBuilder

end AppServer
