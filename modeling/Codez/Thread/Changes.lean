import Codez.Thread.History

/-!
Change sets of a batch of rollout items (`ThreadHistoryChangeAccumulator`), and what they are for:
`applyChanges` is the projector that keeps a copy of the turns.

`applyChanges_push` says that the coalesced changes of a batch act like the changes of its items one
after the other, as long as every changed item is in a turn that is there.
-/

namespace AppServer

open Codex Coalesce List

def ThreadHistoryItemChange.key (c : ThreadHistoryItemChange) : String × String := (c.turnId, c.item.id)

/-- The two vectors with their indexes; `removed_turn_indexes` has the ids of `removedTurnIds`. -/
structure ThreadHistoryChangeAccumulator where
  changedItems : Slots ThreadHistoryItemChange.key := .empty _
  changedTurns : Slots ThreadHistoryTurnChange.turnId := .empty _
  removedTurnIds : List String := []

namespace ThreadHistoryChangeAccumulator

def pushItemChange (acc : ThreadHistoryChangeAccumulator) (change : ThreadHistoryItemChange) :
    ThreadHistoryChangeAccumulator :=
  { acc with changedItems := acc.changedItems.push change }

def pushTurnChange (acc : ThreadHistoryChangeAccumulator) (change : ThreadHistoryTurnChange) :
    ThreadHistoryChangeAccumulator :=
  { acc with changedTurns := acc.changedTurns.push change }

def pushRemovedTurnId (acc : ThreadHistoryChangeAccumulator) (turnId : String) : ThreadHistoryChangeAccumulator where
  removedTurnIds := if turnId ∈ acc.removedTurnIds then acc.removedTurnIds else acc.removedTurnIds ++ [turnId]
  changedTurns := acc.changedTurns.remove turnId
  changedItems := acc.changedItems.removeWhere fun key => key.1 == turnId

def push (acc : ThreadHistoryChangeAccumulator) (changes : ThreadHistoryChangeSet) : ThreadHistoryChangeAccumulator :=
  let acc := changes.removedTurnIds.foldl pushRemovedTurnId acc
  let acc := changes.changedItems.foldl pushItemChange acc
  changes.changedTurns.foldl pushTurnChange acc

def finish (acc : ThreadHistoryChangeAccumulator) : ThreadHistoryChangeSet where
  changedItems := acc.changedItems.entries
  changedTurns := acc.changedTurns.entries
  removedTurnIds := acc.removedTurnIds

end ThreadHistoryChangeAccumulator

namespace ThreadHistoryBuilder

def accumulateChanges (host : ThreadHost) (s : ThreadHistoryBuilder × ThreadHistoryChangeAccumulator)
    (item : RolloutItem) : ThreadHistoryBuilder × ThreadHistoryChangeAccumulator :=
  let (b, changes) := s.1.handleRolloutItemWithChanges host item
  (b, s.2.push changes)

def handleRolloutItemsWithChanges (host : ThreadHost) (b : ThreadHistoryBuilder) (items : List RolloutItem) :
    ThreadHistoryBuilder × ThreadHistoryChangeSet :=
  let (b, acc) := items.foldl (accumulateChanges host) (b, {})
  (b, acc.finish)

end ThreadHistoryBuilder

def Turn.setInfo (info : TurnInfo) (turn : Turn) : Turn := { turn with info }

variable {id : String} (cs : List ThreadHistoryItemChange) (ids : List String) {turns : List Turn}
  {i : ThreadHistoryItemChange} (ts : List ThreadHistoryTurnChange)

theorem Turn.id_setInfo (info : TurnInfo) (turn : Turn) (h : turn.id = id) : (turn.setInfo info).id = id := h

theorem Turn.id_putItem (item : ThreadItem) (turn : Turn) (h : turn.id = id) : (turn.putItem item).id = id := h

def applyTurnChange (turns : List Turn) (change : ThreadHistoryTurnChange) : List Turn :=
  put Turn.id change.turnId (Turn.setInfo change.info) ⟨change.turnId, [], change.info⟩ turns

def applyItemChange (turns : List Turn) (change : ThreadHistoryItemChange) : List Turn :=
  modify Turn.id change.turnId (Turn.putItem change.item) turns

def removeTurns (turns : List Turn) (ids : List String) : List Turn := turns.filter fun turn => turn.id ∉ ids

def applyChanges (turns : List Turn) (changes : ThreadHistoryChangeSet) : List Turn :=
  changes.changedItems.foldl applyItemChange
    (changes.changedTurns.foldl applyTurnChange (removeTurns turns changes.removedTurnIds))

open Turn

theorem mem_ids_applyTurnChange (turns : List Turn) (c : ThreadHistoryTurnChange) (id : String) :
    id ∈ (applyTurnChange turns c).map Turn.id ↔ id = c.turnId ∨ id ∈ turns.map Turn.id := by
  rw [applyTurnChange, mem_keys_put (id_setInfo c.info) (by rfl)]

open ThreadHistoryTurnChange

theorem overwriting_applyTurnChange :
    Overwriting applyTurnChange turnId fun turns id => id ∈ turns.map Turn.id where
  has_act turns c := (mem_ids_applyTurnChange turns c _).mpr (.inl rfl)
  has_kept turns c id h := (mem_ids_applyTurnChange turns c id).mpr (.inr h)
  overwrite turns c c' hid := by
    unfold applyTurnChange
    rw [hid, put_put (id_setInfo c.info) (by rfl) (by intro; rfl) (by rfl)]
  comm turns c c' h hne := by
    unfold applyTurnChange
    rw [put_comm (id_setInfo c'.info) (id_setInfo c.info) (by rfl) (Ne.symm hne) h]

theorem overwriting_applyItemChange : Overwriting applyItemChange ThreadHistoryItemChange.key fun turns key =>
      ∀ turn ∈ turns.find? fun turn => turn.id = key.1, key.2 ∈ turn.items.map ThreadItem.id where
  has_act turns c turn hturn := by
    rw [applyItemChange, find?_modify (id_putItem c.item), ThreadHistoryItemChange.key, if_pos rfl] at hturn
    obtain ⟨old, -, rfl⟩ := Option.map_eq_some_iff.mp hturn
    exact (mem_keys_upsert c.item old.items c.item.id).mpr (.inl rfl)
  has_kept turns c key h turn hturn := by
    rw [applyItemChange, find?_modify (id_putItem c.item)] at hturn
    split at hturn
    · next hid =>
      obtain ⟨old, hold, rfl⟩ := Option.map_eq_some_iff.mp hturn
      exact (mem_keys_upsert c.item old.items key.2).mpr (.inr (h old (by rw [hid]; exact hold)))
    · exact h turn hturn
  overwrite turns c c' hkey := by
    obtain ⟨hturn, hit⟩ : c.turnId = c'.turnId ∧ c.item.id = c'.item.id := Prod.mk.inj hkey
    unfold applyItemChange
    rw [hturn, modify_modify (id_putItem c.item)]
    refine modify_congr fun turn _ => ?_
    simp only [Function.comp_apply, putItem, upsertTurnItem, upsert_upsert hit]
  comm turns c c' h hne := by
    unfold applyItemChange
    by_cases hturn : c.turnId = c'.turnId
    · have hit : c.item.id ≠ c'.item.id := fun hc => hne (Prod.ext hturn hc)
      rw [hturn, modify_modify (id_putItem c.item), modify_modify (id_putItem c'.item)]
      refine modify_congr fun turn hmem => ?_
      simp only [Function.comp_apply, putItem, upsertTurnItem, upsert_comm (h turn hmem) hit]
    · exact modify_comm (id_putItem c'.item) (id_putItem c.item) (Ne.symm hturn) turns

theorem ids_applyItemChange (turns : List Turn) (c : ThreadHistoryItemChange) :
    (applyItemChange turns c).map Turn.id = turns.map Turn.id := keys_modify (id_putItem c.item) turns

theorem ids_foldl_applyItemChange (turns : List Turn) :
    (cs.foldl applyItemChange turns).map Turn.id = turns.map Turn.id := by
  induction cs generalizing turns with
  | nil => rfl
  | cons c cs ih => rw [foldl_cons, ih, ids_applyItemChange]

theorem mem_ids_removeTurns (turns : List Turn) (ids : List String) (id : String) :
    id ∈ (removeTurns turns ids).map Turn.id ↔ id ∈ turns.map Turn.id ∧ id ∉ ids := by
  simp only [removeTurns, mem_map, mem_filter, decide_eq_true_eq]
  constructor
  · rintro ⟨turn, ⟨hturn, hnot⟩, rfl⟩
    exact ⟨⟨turn, hturn, rfl⟩, hnot⟩
  · rintro ⟨⟨turn, hturn, rfl⟩, hnot⟩
    exact ⟨turn, ⟨hturn, hnot⟩, rfl⟩

theorem removeTurns_removeTurns (turns : List Turn) (ids ids' : List String) :
    removeTurns (removeTurns turns ids) ids' = removeTurns turns (ids ++ ids') := by
  unfold removeTurns
  rw [filter_filter]
  apply filter_congr
  intro turn _
  simp [Bool.and_comm]

theorem removeTurns_congr (turns : List Turn) {ids ids' : List String} (h : ∀ id, id ∈ ids ↔ id ∈ ids') :
    removeTurns turns ids = removeTurns turns ids' := by
  apply filter_congr
  intro turn _
  simp [h]

theorem removeTurns_foldl {α : Type} {act : List Turn → α → List Turn} (turnId : α → String) (ids : List String)
    (hact : ∀ turns x, removeTurns (act turns x) ids =
      if turnId x ∈ ids then removeTurns turns ids else act (removeTurns turns ids) x)
    (xs : List α) (turns : List Turn) :
    removeTurns (xs.foldl act turns) ids = (xs.filter fun x => turnId x ∉ ids).foldl act (removeTurns turns ids) := by
  induction xs generalizing turns with
  | nil => rfl
  | cons x xs ih =>
    rw [foldl_cons, ih, hact]
    by_cases hx : turnId x ∈ ids
    · rw [if_pos hx, filter_cons_of_neg (by simpa using hx)]
    · rw [if_neg hx, filter_cons_of_pos (by simpa using hx), foldl_cons]

theorem removeTurns_applyTurnChange (turns : List Turn) (c : ThreadHistoryTurnChange) :
    removeTurns (applyTurnChange turns c) ids =
      if c.turnId ∈ ids then removeTurns turns ids else applyTurnChange (removeTurns turns ids) c := by
  have h := @filter_put _ _ _ Turn.id c.turnId _ ⟨c.turnId, [], c.info⟩ (id_setInfo c.info) rfl
    (fun id => decide (id ∉ ids)) turns
  by_cases hc : c.turnId ∈ ids
  · simpa [removeTurns, applyTurnChange, hc] using h
  · simpa [removeTurns, applyTurnChange, hc] using h

theorem removeTurns_applyItemChange (turns : List Turn) (c : ThreadHistoryItemChange) :
    removeTurns (applyItemChange turns c) ids =
      if c.turnId ∈ ids then removeTurns turns ids else applyItemChange (removeTurns turns ids) c := by
  have h := filter_modify (k := c.turnId) (id_putItem c.item) (fun id => decide (id ∉ ids)) turns
  by_cases hc : c.turnId ∈ ids
  · simpa [removeTurns, applyItemChange, hc] using h
  · simpa [removeTurns, applyItemChange, hc] using h

theorem applyTurnChange_applyItemChange (t : ThreadHistoryTurnChange) (h : i.turnId ∈ turns.map Turn.id) :
    applyTurnChange (applyItemChange turns i) t = applyItemChange (applyTurnChange turns t) i := by
  unfold applyTurnChange put
  rw [ids_applyItemChange]
  by_cases ht : t.turnId ∈ turns.map Turn.id
  · rw [if_pos ht, if_pos ht]
    unfold applyItemChange
    by_cases hti : t.turnId = i.turnId
    · rw [hti, modify_modify (id_putItem i.item), modify_modify (id_setInfo t.info)]
      exact modify_congr fun turn _ => rfl
    · exact modify_comm (id_setInfo t.info) (id_putItem i.item) hti turns
  · rw [if_neg ht, if_neg ht]
    exact (modify_append_of_mem _ _ h).symm

theorem foldl_applyTurnChange_applyItemChange (h : i.turnId ∈ turns.map Turn.id) :
    ts.foldl applyTurnChange (applyItemChange turns i) = applyItemChange (ts.foldl applyTurnChange turns) i := by
  induction ts generalizing turns with
  | nil => rfl
  | cons t ts ih =>
    rw [foldl_cons, applyTurnChange_applyItemChange t h, ih ((mem_ids_applyTurnChange turns t _).mpr (.inr h)),
      foldl_cons]

theorem foldl_applyTurnChange_comm (is : List ThreadHistoryItemChange) (h : ∀ i ∈ is, i.turnId ∈ turns.map Turn.id) :
    ts.foldl applyTurnChange (is.foldl applyItemChange turns) =
      is.foldl applyItemChange (ts.foldl applyTurnChange turns) := by
  induction is generalizing turns with
  | nil => rfl
  | cons i is ih =>
    rw [foldl_cons, ih fun j hj => by rw [ids_applyItemChange]; exact h j (mem_cons_of_mem _ hj),
      foldl_applyTurnChange_applyItemChange ts (h i mem_cons_self), foldl_cons]

open ThreadHistoryItemChange

namespace ThreadHistoryChangeAccumulator

variable (acc : ThreadHistoryChangeAccumulator)

theorem foldl_pushRemovedTurnId :
    (∀ id, id ∈ (ids.foldl pushRemovedTurnId acc).removedTurnIds ↔ id ∈ acc.removedTurnIds ++ ids) ∧
    (ids.foldl pushRemovedTurnId acc).changedTurns.entries = acc.changedTurns.entries.filter (fun c => c.turnId ∉ ids) ∧
    (ids.foldl pushRemovedTurnId acc).changedItems.entries =
      acc.changedItems.entries.filter fun c => c.turnId ∉ ids := by
  induction ids generalizing acc with
  | nil => simp
  | cons id ids ih =>
    obtain ⟨hrem, hts, hi⟩ := ih (acc.pushRemovedTurnId id)
    rw [foldl_cons]
    refine ⟨fun id' => ?_, ?_, ?_⟩
    · rw [hrem]
      simp only [pushRemovedTurnId, mem_append, mem_cons]
      split
      · next hmem =>
        constructor
        · rintro (h | h)
          · exact .inl h
          · exact .inr (.inr h)
        · rintro (h | rfl | h)
          · exact .inl h
          · exact .inl hmem
          · exact .inr h
      · simp [or_assoc]
    · rw [hts, pushRemovedTurnId, Slots.entries_remove, filter_filter]
      apply filter_congr
      intro c _
      simp [Bool.and_comm]
    · rw [hi, pushRemovedTurnId, Slots.entries_removeWhere, filter_filter]
      apply filter_congr
      intro c _
      rw [Bool.eq_iff_iff]
      simp [key, and_comm]

theorem foldl_pushItemChange :
    cs.foldl pushItemChange acc = { acc with changedItems := cs.foldl Slots.push acc.changedItems } := by
  induction cs generalizing acc with
  | nil => rfl
  | cons c cs ih => rw [foldl_cons, ih]; rfl

theorem foldl_pushTurnChange (cs : List ThreadHistoryTurnChange) (acc : ThreadHistoryChangeAccumulator) :
    cs.foldl pushTurnChange acc = { acc with changedTurns := cs.foldl Slots.push acc.changedTurns } := by
  induction cs generalizing acc with
  | nil => rfl
  | cons c cs ih => rw [foldl_cons, ih]; rfl

theorem finish_push (cs : ThreadHistoryChangeSet) :
    (∀ id, id ∈ (acc.push cs).finish.removedTurnIds ↔ id ∈ acc.finish.removedTurnIds ++ cs.removedTurnIds) ∧
    (acc.push cs).finish.changedTurns =
      cs.changedTurns.foldl (fun xs x => upsert ThreadHistoryTurnChange.turnId x xs)
        (acc.finish.changedTurns.filter fun c => c.turnId ∉ cs.removedTurnIds) ∧
    (acc.push cs).finish.changedItems =
      cs.changedItems.foldl (fun xs x => upsert ThreadHistoryItemChange.key x xs)
        (acc.finish.changedItems.filter fun c => c.turnId ∉ cs.removedTurnIds) := by
  obtain ⟨hrem, hts, hi⟩ := foldl_pushRemovedTurnId cs.removedTurnIds acc
  unfold push finish
  simp only [foldl_pushItemChange, foldl_pushTurnChange, Slots.entries_foldl_push, hts, hi, and_true]
  exact hrem

theorem applyChanges_push (cs : ThreadHistoryChangeSet) (turns : List Turn)
    (hitems : ∀ c ∈ acc.finish.changedItems, c.turnId ∈ (applyChanges turns acc.finish).map Turn.id) :
    applyChanges turns (acc.push cs).finish = applyChanges (applyChanges turns acc.finish) cs := by
  obtain ⟨hremoved', hturns', hitems'⟩ := finish_push acc cs
  have hnodupTurns : ((acc.finish.changedTurns.filter fun c => c.turnId ∉ cs.removedTurnIds).map
      ThreadHistoryTurnChange.turnId).Nodup := acc.changedTurns.nodup_keys.sublist (filter_sublist.map _)
  have hnodupItems : ((acc.finish.changedItems.filter fun c => c.turnId ∉ cs.removedTurnIds).map
      ThreadHistoryItemChange.key).Nodup := acc.changedItems.nodup_keys.sublist (filter_sublist.map _)
  unfold applyChanges
  rw [hturns', hitems', removeTurns_congr turns hremoved', ← removeTurns_removeTurns,
    overwriting_applyTurnChange.foldl_foldl_upsert _ _ hnodupTurns,
    overwriting_applyItemChange.foldl_foldl_upsert _ _ hnodupItems,
    removeTurns_foldl ThreadHistoryItemChange.turnId cs.removedTurnIds (removeTurns_applyItemChange cs.removedTurnIds),
    removeTurns_foldl ThreadHistoryTurnChange.turnId cs.removedTurnIds (removeTurns_applyTurnChange cs.removedTurnIds),
    foldl_applyTurnChange_comm]
  -- the changed items that are left are in turns that are left
  intro i hi
  obtain ⟨hi, hl⟩ := mem_filter.mp hi
  have hturn := hitems i hi
  rw [applyChanges, ids_foldl_applyItemChange] at hturn
  rw [← removeTurns_foldl ThreadHistoryTurnChange.turnId cs.removedTurnIds
    (removeTurns_applyTurnChange cs.removedTurnIds), mem_ids_removeTurns]
  exact ⟨hturn, of_decide_eq_true hl⟩

end ThreadHistoryChangeAccumulator

end AppServer
