import Codez.Thread.Changes

/-!
One rollout item, tracked: the changes that a handler records turn the turns before it into the turns
after it.
-/

namespace AppServer

open Codex Coalesce List

theorem itemId_inj {m n : Nat} (h : itemId m = itemId n) : m = n := by
  rw [itemId, itemId, String.append_right_inj] at h
  exact Nat.repr_inj.mp h

theorem rolloutId_inj {m n : Nat} (h : rolloutId m = rolloutId n) : m = n := by
  rw [rolloutId, rolloutId, String.append_right_inj] at h
  exact Nat.repr_inj.mp h

structure FreshItems (next : Nat) (items : List ThreadItem) : Prop where
  nodup : (items.map ThreadItem.id).Nodup
  below : ∀ k, itemId k ∈ items.map ThreadItem.id → k < next

theorem FreshItems.nil (next : Nat) : FreshItems next [] := ⟨nodup_nil, by simp⟩

variable {items : List ThreadItem}

theorem FreshItems.upsert {next : Nat} (h : FreshItems next items) (item : ThreadItem)
    (hid : ∀ k, item.id = itemId k → k < next) : FreshItems next (upsert ThreadItem.id item items) where
  nodup := nodup_keys_upsert item h.nodup
  below k hk := by
    rcases (mem_keys_upsert item items _).mp hk with hk | hk
    · exact hid k hk.symm
    · exact h.below k hk

theorem FreshItems.mono {next next' : Nat} (h : FreshItems next items) (hle : next ≤ next') :
    FreshItems next' items := ⟨h.nodup, fun k hk => (h.below k hk).trans_le hle⟩

def PendingTurn.Keeps (turn : PendingTurn) : Prop :=
  turn.items ≠ [] ∨ turn.openedExplicitly = true ∨ turn.sawCompaction = true

namespace ThreadHistoryBuilder

def allTurns (b : ThreadHistoryBuilder) : List Turn := b.turns ++ (b.currentTurn.map PendingTurn.toTurn).toList

def ids (b : ThreadHistoryBuilder) : List String := b.allTurns.map Turn.id

variable {turn : PendingTurn}

theorem allTurns_of_current {b : ThreadHistoryBuilder} (h : b.currentTurn = some turn) :
    b.allTurns = b.turns ++ [turn.toTurn] := by
  rw [allTurns, h]
  rfl

theorem allTurns_of_none {b : ThreadHistoryBuilder} (h : b.currentTurn = none) : b.allTurns = b.turns := by
  rw [allTurns, h]
  exact append_nil _

/-- Turns have distinct ids: those that were started, and those of implicit turns from before `n`. -/
structure NamedTurns (started : List String) (n : Nat) (b : ThreadHistoryBuilder) : Prop where
  explicit : ∀ k, rolloutId k ∉ started
  nodup : b.ids.Nodup
  named : ∀ id ∈ b.ids, id ∈ started ∨ ∃ k < n, id = rolloutId k

structure Sound (started : List String) (n : Nat) (b : ThreadHistoryBuilder) : Prop extends NamedTurns started n b where
  fresh : ∀ turn ∈ b.currentTurn, FreshItems b.nextItemIndex turn.items
  keeps : ∀ turn ∈ b.currentTurn, turn.Keeps

def Tracked (turns : List Turn) (b : ThreadHistoryBuilder) : Prop :=
  ∃ changes, b.activeChangeSet = some changes ∧ applyChanges turns changes = b.allTurns ∧
    ∀ c ∈ changes.changedItems, c.turnId ∈ b.ids

structure At (n : Nat) (b : ThreadHistoryBuilder) : Prop where
  current : b.currentRolloutIndex = n
  next : b.nextRolloutIndex = n + 1

structure Start (turns : List Turn) (started : List String) (n : Nat) (b : ThreadHistoryBuilder) : Prop extends
    Sound started n b, At n b where
  changes : b.activeChangeSet = some {}
  turns_eq : b.allTurns = turns

structure Opened (turns : List Turn) (started : List String) (n : Nat) (b : ThreadHistoryBuilder)
    (turn : PendingTurn) : Prop extends NamedTurns started (n + 1) b, At n b where
  tracked : b.Tracked turns
  currentTurn : b.currentTurn = some turn
  fresh : FreshItems b.nextItemIndex turn.items

structure Done (turns : List Turn) (started : List String) (n : Nat) (b : ThreadHistoryBuilder) : Prop extends
    Sound started (n + 1) b, At n b where
  tracked : b.Tracked turns

section
variable {host : ThreadHost} {turns : List Turn} {started started' : List String} {n : Nat} {b : ThreadHistoryBuilder}
  {item : ThreadItem} {turnId : String}

theorem NamedTurns.mono (h : NamedTurns started n b) : NamedTurns started (n + 1) b where
  explicit := h.explicit
  nodup := h.nodup
  named id hid := (h.named id hid).imp_right fun ⟨k, hk, hid⟩ => ⟨k, Nat.lt_succ_of_lt hk, hid⟩

theorem NamedTurns.congr {b' : ThreadHistoryBuilder} (h : NamedTurns started n b) (hids : b'.ids = b.ids) :
    NamedTurns started n b' := ⟨h.explicit, hids ▸ h.nodup, hids ▸ h.named⟩

theorem NamedTurns.current_not_mem (h : NamedTurns started n b) (hcur : b.currentTurn = some turn) :
    turn.id ∉ b.turns.map Turn.id := by
  have hnd := h.nodup
  rw [ids, allTurns_of_current hcur, map_append, nodup_append_comm] at hnd
  exact (nodup_cons.mp hnd).1

theorem removeTurns_nil (turns : List Turn) : removeTurns turns [] = turns := by simp [removeTurns]

theorem Start.tracked (h : Start turns started n b) : b.Tracked turns :=
  ⟨{}, h.changes, by rw [applyChanges, removeTurns_nil, h.turns_eq]; rfl, by simp⟩

theorem Start.done (h : Start turns started n b) : Done turns started n b :=
  { h.toNamedTurns.mono, h.toSound, h.toAt with tracked := h.tracked }

theorem Done.of_current (hnamed : NamedTurns started (n + 1) b) (hat : At n b) (hcur : b.currentTurn = some turn)
    (hfresh : FreshItems b.nextItemIndex turn.items) (hkeeps : turn.Keeps) (htracked : b.Tracked turns) :
    Done turns started n b where
  toNamedTurns := hnamed
  toAt := hat
  fresh turn' hturn' := by
    obtain rfl := Option.some.inj (hcur.symm.trans hturn')
    exact hfresh
  keeps turn' hturn' := by
    obtain rfl := Option.some.inj (hcur.symm.trans hturn')
    exact hkeeps
  tracked := htracked

/-! ## Finishing the open turn -/

theorem allTurns_finishCurrentTurn (hkeeps : ∀ turn ∈ b.currentTurn, turn.Keeps) :
    b.finishCurrentTurn.turns = b.allTurns ∧ b.finishCurrentTurn.currentTurn = none ∧
    b.finishCurrentTurn.allTurns = b.allTurns := by
  unfold finishCurrentTurn
  cases hcur : b.currentTurn with
  | none => exact ⟨(allTurns_of_none hcur).symm, hcur, rfl⟩
  | some turn =>
    have hdrop : (turn.items.isEmpty && !turn.openedExplicitly && !turn.sawCompaction) = false := by
      rcases hkeeps turn hcur with h | h | h
      · simp [h]
      · simp [h]
      · simp [h]
    simp only [hdrop, Bool.false_eq_true, if_false, allTurns_of_current hcur, true_and]
    exact append_nil _

theorem currentTurn_finishCurrentTurn : b.finishCurrentTurn.currentTurn = none := by
  unfold finishCurrentTurn
  cases hcur : b.currentTurn with
  | none => exact hcur
  | some turn =>
    dsimp only
    split <;> rfl

theorem finishCurrentTurn_fields : b.finishCurrentTurn.nextItemIndex = b.nextItemIndex ∧
    b.finishCurrentTurn.currentRolloutIndex = b.currentRolloutIndex ∧
    b.finishCurrentTurn.nextRolloutIndex = b.nextRolloutIndex ∧
    b.finishCurrentTurn.activeChangeSet = b.activeChangeSet := by
  unfold finishCurrentTurn
  split
  · dsimp only
    split <;> exact ⟨rfl, rfl, rfl, rfl⟩
  · exact ⟨rfl, rfl, rfl, rfl⟩

theorem Sound.finishCurrentTurn (h : Sound started n b) : Sound started n b.finishCurrentTurn := by
  obtain ⟨-, hnone, hall⟩ := allTurns_finishCurrentTurn h.keeps
  refine { h.toNamedTurns.congr (by rw [ids, ids, hall]) with fresh := ?_, keeps := ?_ }
  · rw [hnone]
    simp
  · rw [hnone]
    simp

theorem At.finishCurrentTurn (h : At n b) : At n b.finishCurrentTurn := by
  obtain ⟨-, hcur, hnext, -⟩ := finishCurrentTurn_fields (b := b)
  exact ⟨hcur.trans h.current, hnext.trans h.next⟩

theorem Tracked.finishCurrentTurn (h : b.Tracked turns) (hkeeps : ∀ turn ∈ b.currentTurn, turn.Keeps) :
    b.finishCurrentTurn.Tracked turns := by
  obtain ⟨changes, hchs, happ, hi⟩ := h
  obtain ⟨-, -, -, ha⟩ := finishCurrentTurn_fields (b := b)
  obtain ⟨-, -, hall⟩ := allTurns_finishCurrentTurn hkeeps
  refine ⟨changes, ha.trans hchs, happ.trans hall.symm, ?_⟩
  rw [ids, hall]
  exact hi

theorem Start.finishCurrentTurn (h : Start turns started n b) : Start turns started n b.finishCurrentTurn :=
  { h.toSound.finishCurrentTurn, h.toAt.finishCurrentTurn with
    changes := finishCurrentTurn_fields.2.2.2.trans h.changes
    turns_eq := (allTurns_finishCurrentTurn h.keeps).2.2.trans h.turns_eq }

theorem Done.finishCurrentTurn (h : Done turns started n b) : Done turns started n b.finishCurrentTurn :=
  { h.toSound.finishCurrentTurn, h.toAt.finishCurrentTurn with
    tracked := h.tracked.finishCurrentTurn h.keeps }

/-! ## Items of the open turn -/

theorem Start.nextItemId (h : Start turns started n b) : Start turns started n b.nextItemId.2 :=
  { h with fresh := fun turn hturn => (h.fresh turn hturn).mono (Nat.le_succ _) }

theorem Start.opened {turn : PendingTurn} (h : Start turns started n b) (hcur : b.currentTurn = some turn) :
    Opened turns started n b turn :=
  { h.toNamedTurns.mono, h.toAt with
    tracked := h.tracked
    currentTurn := hcur
    fresh := h.fresh turn hcur }

theorem applyTurnChange_of_not_mem {turns : List Turn}
    {c : ThreadHistoryTurnChange} (h : c.turnId ∉ turns.map Turn.id) :
    applyTurnChange turns c = turns ++ [⟨c.turnId, [], c.info⟩] := if_neg h

theorem Start.openTurn (h : Start turns started n b) (hnone : b.currentTurn = none) (hi : turn.items = [])
    (hnamed : NamedTurns started' (n + 1) { b with currentTurn := some turn }) :
    Opened turns started' n { b.recordChangedTurn (.fromTurn turn.toTurn) with currentTurn := some turn } turn := by
  have hall : b.turns = turns := (allTurns_of_none hnone).symm.trans h.turns_eq
  have hnot : turn.id ∉ turns.map Turn.id := hall ▸ hnamed.current_not_mem rfl
  refine { hnamed.congr rfl, h.toAt with tracked := ?_, currentTurn := rfl, fresh := ?_ }
  · refine ⟨{ changedTurns := [.fromTurn turn.toTurn] }, ?_, ?_, by simp⟩
    · simp [recordChangedTurn, record, h.changes]
    · rw [allTurns_of_current rfl]
      simp only [applyChanges, removeTurns_nil, foldl_cons, foldl_nil, recordChangedTurn, record]
      rw [applyTurnChange_of_not_mem hnot, hall, ThreadHistoryTurnChange.fromTurn, ← hi]
  · rw [hi]
    exact .nil _

theorem NamedTurns.openTurn (h : NamedTurns started n b) (hnone : b.currentTurn = none) {m : Nat}
    (hexp : ∀ k, rolloutId k ∉ started')
    (hkept : ∀ id, (id ∈ started ∨ ∃ k < n, id = rolloutId k) → id ∈ started' ∨ ∃ k < m, id = rolloutId k)
    (hnew : turn.id ∉ b.ids) (hid : turn.id ∈ started' ∨ ∃ k < m, turn.id = rolloutId k) :
    NamedTurns started' m { b with currentTurn := some turn } := by
  have hids : ({ b with currentTurn := some turn } : ThreadHistoryBuilder).ids = b.ids ++ [turn.id] := by
    rw [ids, ids, allTurns_of_current rfl, allTurns_of_none hnone, map_append, map_singleton]
  refine ⟨hexp, ?_, ?_⟩
  · rw [hids, nodup_append_comm]
    exact nodup_cons.mpr ⟨hnew, h.nodup⟩
  · intro id hmem
    rw [hids] at hmem
    rcases mem_append.mp hmem with hmem | hmem
    · exact hkept id (h.named id hmem)
    · rw [mem_singleton.mp hmem]
      exact hid

theorem Start.ensureTurn (h : Start turns started n b) :
    Opened turns started n (b.ensureTurn host).1 (b.ensureTurn host).2 := by
  unfold ThreadHistoryBuilder.ensureTurn
  cases hcur : b.currentTurn with
  | some turn => exact h.opened hcur
  | none =>
    have hid : (b.newTurn host none).id = rolloutId n := by
      simp [newTurn, h.next, h.current]
    refine h.openTurn hcur rfl (h.toNamedTurns.openTurn hcur h.explicit ?_ ?_ ?_)
    · rintro id (hid | ⟨k, hk, hid⟩)
      · exact .inl hid
      · exact .inr ⟨k, Nat.lt_succ_of_lt hk, hid⟩
    · intro hmem
      rw [hid] at hmem
      rcases h.named _ hmem with hmem | ⟨k, hk, heq⟩
      · exact h.explicit n hmem
      · exact absurd (rolloutId_inj heq) hk.ne'
    · exact .inr ⟨n, Nat.lt_succ_self n, hid⟩

theorem Opened.putItem (h : Opened turns started n b turn) (item : ThreadItem)
    (hid : ∀ k, item.id = itemId k → k < b.nextItemIndex) :
    Done turns started n ({ b with currentTurn := some { turn with
      items := upsert ThreadItem.id item turn.items } }.recordChangedItem turn.id item) := by
  have hall := allTurns_of_current h.currentTurn
  have hnot := h.current_not_mem h.currentTurn
  have happ : applyItemChange b.allTurns ⟨turn.id, item⟩ =
      b.turns ++ [{ turn.toTurn with items := upsert ThreadItem.id item turn.items }] := by
    rw [hall, applyItemChange, modify_append_of_not_mem _ _ hnot]
    simp [Coalesce.modify, Turn.putItem, upsertTurnItem]
  generalize hb' : ThreadHistoryBuilder.recordChangedItem _ _ _ = b'
  have hall' : b'.allTurns = applyItemChange b.allTurns ⟨turn.id, item⟩ := by
    rw [happ, ← hb', recordChangedItem, record, allTurns_of_current rfl]
  have hids : b'.ids = b.ids := by rw [ids, hall', ids_applyItemChange, ids]
  have hcur : b'.currentTurn = some { turn with items := upsert ThreadItem.id item turn.items } := by
    rw [← hb']
    rfl
  obtain ⟨changes, hchs, happly', hi⟩ := h.tracked
  have hat : At n b' := by
    rw [← hb']
    exact ⟨h.current, h.next⟩
  refine .of_current (h.toNamedTurns.congr hids) hat hcur ?_ ?_ ?_
  · rw [← hb']
    exact h.fresh.upsert item hid
  · have hmem := (mem_keys_upsert item turn.items item.id).mpr (.inl rfl)
    exact .inl fun hnil => ne_nil_of_mem hmem (congrArg (List.map ThreadItem.id) hnil)
  · refine ⟨{ changes with changedItems := changes.changedItems ++ [⟨turn.id, item⟩] }, ?_, ?_, ?_⟩
    · rw [← hb', recordChangedItem, record]
      simp [hchs]
    · rw [hall', ← happly', applyChanges, foldl_append]
      rfl
    · rw [hids]
      intro c hc
      rcases mem_append.mp hc with hc | hc
      · exact hi c hc
      · rw [mem_singleton.mp hc, ids, hall]
        simp

theorem nextItemIndex_ensureTurn : (b.ensureTurn host).1.nextItemIndex = b.nextItemIndex := by
  unfold ThreadHistoryBuilder.ensureTurn
  split <;> rfl

theorem Start.pushItem (h : Start turns started n b) (hid : ∀ k, item.id = itemId k → k < b.nextItemIndex)
    (hnew : ∀ turn ∈ b.currentTurn, item.id ∉ turn.items.map ThreadItem.id) :
    Done turns started n (b.pushItemInCurrentTurn host item) := by
  have hopn : Opened turns started n (b.ensureTurn host).1 (b.ensureTurn host).2 := h.ensureTurn
  have hnot : item.id ∉ (b.ensureTurn host).2.items.map ThreadItem.id := by
    unfold ThreadHistoryBuilder.ensureTurn
    split
    · next turn hturn => exact hnew turn hturn
    · simp [newTurn]
  have hdone := hopn.putItem item (by rwa [nextItemIndex_ensureTurn])
  rw [upsert_of_not_mem hnot] at hdone
  exact hdone

theorem Start.pushNewItem (h : Start turns started n b) {mk : String → ThreadItem} (hmk : ∀ id, (mk id).id = id) :
    Done turns started n (b.pushNewItem host mk) := by
  refine h.nextItemId.pushItem ?_ ?_
  · intro k hk
    rw [hmk] at hk
    exact (itemId_inj hk).symm ▸ Nat.lt_succ_self _
  · intro turn hturn hmem
    rw [hmk] at hmem
    exact absurd ((h.fresh turn hturn).below _ hmem) (lt_irrefl _)

theorem Start.upsertItemInCurrentTurn (h : Start turns started n b) (hid : ∀ k, item.id ≠ itemId k) :
    Done turns started n (b.upsertItemInCurrentTurn host item) :=
  h.ensureTurn.putItem item fun k hk => absurd hk (hid k)

theorem pushNewItem_ensureTurn (mk : String → ThreadItem) :
    (b.ensureTurn host).1.pushNewItem host mk = b.pushNewItem host mk := by
  obtain ⟨finished, current, next, rolloutIndex, nextRolloutIndex, changes⟩ := b
  cases current with
  | none => rfl
  | some turn => rfl

/-! ## Finished turns -/

theorem findTurn?_eq_some {turn : Turn} (h : b.findTurn? turnId = some turn) :
    turn.id = turnId ∧ turnId ∈ b.turns.map Turn.id := by
  have hid : turn.id = turnId := by simpa using find?_some h
  exact ⟨hid, hid ▸ mem_map.mpr ⟨turn, mem_of_find?_eq_some h, rfl⟩⟩

theorem Start.modifyTurn (h : Start turns started n b) {f : Turn → Turn} (changes : ThreadHistoryChangeSet)
    (hf : ∀ turn : Turn, turn.id = turnId → (f turn).id = turnId) (hmem : turnId ∈ b.turns.map Turn.id)
    (happ : applyChanges turns changes = Coalesce.modify Turn.id turnId f turns)
    (hi : ∀ c ∈ changes.changedItems, c.turnId = turnId) :
    Done turns started n { b.modifyTurn turnId f with activeChangeSet := some changes } := by
  generalize hb' : ({ b.modifyTurn turnId f with activeChangeSet := some changes } : ThreadHistoryBuilder) = b'
  have hall : b'.allTurns = Coalesce.modify Turn.id turnId f b.allTurns := by
    rw [← hb', allTurns, allTurns, modify_append_of_mem _ _ hmem]
    rfl
  have hids : b'.ids = b.ids := by rw [ids, hall, keys_modify hf, ids]
  have hcur : b'.currentTurn = b.currentTurn := by rw [← hb']; rfl
  have hnext : b'.nextItemIndex = b.nextItemIndex := by rw [← hb']; rfl
  refine { h.toNamedTurns.mono.congr hids with fresh := ?_, keeps := ?_, current := ?_, next := ?_, tracked := ?_ }
  · rw [hcur, hnext]
    exact h.fresh
  · rw [hcur]
    exact h.keeps
  · rw [← hb']
    exact h.current
  · rw [← hb']
    exact h.next
  · refine ⟨changes, by rw [← hb'], ?_, ?_⟩
    · rw [happ, hall, h.turns_eq]
    · intro c hc
      rw [hids, hi c hc, ids, allTurns, map_append]
      exact mem_append_left _ hmem

theorem Start.upsertItemInTurnId (h : Start turns started n b) (turnId : String) (hid : ∀ k, item.id ≠ itemId k) :
    Done turns started n (b.upsertItemInTurnId turnId item) := by
  unfold ThreadHistoryBuilder.upsertItemInTurnId
  split
  · next turn hturn =>
    exact (h.opened (Option.filter_eq_some_iff.mp hturn).1).putItem item fun k hk => absurd hk (hid k)
  · split
    · next turn hturn =>
      obtain ⟨hturnId, hmem⟩ := findTurn?_eq_some hturn
      have hdone := h.modifyTurn { changedItems := [⟨turnId, item⟩] } (Turn.id_putItem item) hmem
        (by rw [applyChanges, removeTurns_nil]; rfl) (by simp)
      have hchs : (b.modifyTurn turnId (Turn.putItem item)).activeChangeSet = some {} := h.changes
      rw [hturnId]
      rw [recordChangedItem, record, hchs]
      exact hdone
    · exact h.done

theorem Start.changeTurn (h : Start turns started n b) {turn : Turn} (hturn : b.findTurn? turnId = some turn)
    (f : TurnInfo → TurnInfo) : Done turns started n (b.changeTurn turn f) := by
  obtain ⟨rfl, hmem⟩ := findTurn?_eq_some hturn
  have hmem' : turn.id ∈ turns.map Turn.id := by
    rw [← h.turns_eq, allTurns, map_append]
    exact mem_append_left _ hmem
  have hfind : turns.find? (fun x => x.id = turn.id) = some turn := by
    rw [findTurn?] at hturn
    rw [← h.turns_eq, allTurns, find?_append, hturn]
    rfl
  have hdone := h.modifyTurn { changedTurns := [⟨turn.id, f turn.info⟩] }
    (f := fun turn => { turn with info := f turn.info }) (fun _ hid => hid) hmem (by
      simp only [applyChanges, removeTurns_nil, foldl_cons, foldl_nil, applyTurnChange, put, if_pos hmem']
      refine modify_congr fun x hx => ?_
      rw [hfind] at hx
      cases hx
      rfl) (by simp)
  have hchs : (b.modifyTurn turn.id fun turn => { turn with info := f turn.info }).activeChangeSet = some {} :=
      h.changes
  rw [ThreadHistoryBuilder.changeTurn, recordChangedTurn, record, hchs]
  exact hdone

theorem Start.changeCurrentTurn (h : Start turns started n b) (hturn : b.currentTurn = some turn)
    (f : TurnInfo → TurnInfo) : Done turns started n (b.changeCurrentTurn turn f) := by
  generalize hb' : b.changeCurrentTurn turn f = b'
  have hcur : b'.currentTurn = some { turn with info := f turn.info } := by rw [← hb']; rfl
  have hall := allTurns_of_current hturn
  have hall' : b'.allTurns = b.turns ++ [{ turn.toTurn with info := f turn.info }] := by
    rw [allTurns_of_current hcur, ← hb']
    rfl
  have hids : b'.ids = b.ids := by simp [ids, hall, hall']
  have hnot := h.current_not_mem hturn
  have hat : At n b' := by
    rw [← hb']
    exact ⟨h.current, h.next⟩
  refine .of_current (h.toNamedTurns.mono.congr hids) hat hcur ?_ (h.keeps turn hturn) ?_
  · rw [← hb']
    exact h.fresh turn hturn
  · refine ⟨{ changedTurns := [⟨turn.id, f turn.info⟩] }, ?_, ?_, by simp⟩
    · rw [← hb']
      simp [ThreadHistoryBuilder.changeCurrentTurn, recordChangedTurn,
        record, h.changes, ThreadHistoryTurnChange.fromTurn]
    · have hmem : turn.id ∈ turns.map Turn.id := by simp [← h.turns_eq, hall]
      simp only [applyChanges, removeTurns_nil, foldl_cons, foldl_nil, applyTurnChange, put, if_pos hmem]
      rw [← h.turns_eq, hall, modify_append_of_not_mem _ _ hnot, hall']
      simp [Coalesce.modify, Turn.setInfo]

theorem Opened.done {turn' : PendingTurn} (h : Opened turns started n b turn) (hturn : turn'.toTurn = turn.toTurn)
    (hkeeps : turn'.Keeps) : Done turns started n { b with currentTurn := some turn' } := by
  have hall : ({ b with currentTurn := some turn' } : ThreadHistoryBuilder).allTurns = b.allTurns := by
    rw [allTurns_of_current h.currentTurn, allTurns_of_current rfl, hturn]
  obtain ⟨changes, hchs, happ, hi⟩ := h.tracked
  refine .of_current (h.toNamedTurns.congr (by rw [ids, ids, hall])) ⟨h.current, h.next⟩ rfl (hturn ▸ h.fresh) hkeeps ?_
  · refine ⟨changes, hchs, happ.trans hall.symm, ?_⟩
    rw [ids, hall]
    exact hi

/-! ## Handlers -/

/-- What an event about the state of a turn does: nothing, or it changes the open turn or a finished one. -/
inductive Changes (b : ThreadHistoryBuilder) : ThreadHistoryBuilder → Prop
  | keep : Changes b b
  | current {turn : PendingTurn} (hturn : b.currentTurn = some turn) (f : TurnInfo → TurnInfo) :
    Changes b (b.changeCurrentTurn turn f)
  | finished {turn : Turn} {turnId : String} (hturn : b.findTurn? turnId = some turn) (f : TurnInfo → TurnInfo) :
    Changes b (b.changeTurn turn f)

theorem changes_handleError (e : ErrorEvent) : b.Changes (b.handleError e) := by
  unfold handleError
  split
  · split
    · next turn hturn =>
      exact .current hturn fun info => { info with
        status := .failed
        error := some { message := e.message, codexErrorInfo := e.codexErrorInfo, additionalDetails := none } }
    · exact .keep
  · exact .keep

theorem changes_handleTurnAborted (e : TurnAbortedEvent) : b.Changes (b.handleTurnAborted e) := by
  unfold handleTurnAborted
  split
  · next turn hturn =>
    obtain ⟨turnId, -, hturn⟩ := Option.bind_eq_some_iff.mp hturn
    exact .current (Option.filter_eq_some_iff.mp hturn).1 _
  · split
    · next turn hturn =>
      obtain ⟨turnId, -, hturn⟩ := Option.bind_eq_some_iff.mp hturn
      exact .finished hturn _
    · split
      · next turn hturn => exact .current hturn _
      · exact .keep

theorem changes_handleTurnComplete (e : TurnCompleteEvent) :
    ∃ b', b.Changes b' ∧ (b.handleTurnComplete e = b' ∨ b.handleTurnComplete e = b'.finishCurrentTurn) := by
  unfold handleTurnComplete
  split
  · next turn hturn => exact ⟨_, .current (Option.filter_eq_some_iff.mp hturn).1 _, .inr rfl⟩
  · split
    · next turn hturn => exact ⟨_, .finished hturn _, .inl rfl⟩
    · split
      · next turn hturn => exact ⟨_, .current hturn _, .inr rfl⟩
      · exact ⟨_, .keep, .inl rfl⟩

theorem Start.of_changes (h : Start turns started n b) {b' : ThreadHistoryBuilder} (hchs : b.Changes b') :
    Done turns started n b' := by
  cases hchs with
  | keep => exact h.done
  | current hturn f => exact h.changeCurrentTurn hturn f
  | finished hturn f => exact h.changeTurn hturn f

theorem Start.handleTurnComplete (h : Start turns started n b) (e : TurnCompleteEvent) :
    Done turns started n (b.handleTurnComplete e) := by
  obtain ⟨b', hchs, hb' | hb'⟩ := @changes_handleTurnComplete b e
  · rw [hb']
    exact h.of_changes hchs
  · rw [hb']
    exact (h.of_changes hchs).finishCurrentTurn

theorem Start.handleUserMessage (h : Start turns started n b) (e : UserMessageEvent) :
    Done turns started n (b.handleUserMessage host e) := by
  unfold ThreadHistoryBuilder.handleUserMessage
  split
  · split
    · exact h.finishCurrentTurn.pushNewItem fun _ => rfl
    · exact h.pushNewItem fun _ => rfl
  · exact h.pushNewItem fun _ => rfl

theorem upsert_last {last item : ThreadItem} (hl : items.getLast? = some last) (hid : item.id = last.id)
    (hnd : (items.map ThreadItem.id).Nodup) :
    upsert ThreadItem.id item items = items.dropLast ++ [item] := by
  obtain ⟨init, rfl⟩ := getLast?_eq_some_iff.mp hl
  rw [map_append, nodup_append_comm] at hnd
  rw [dropLast_concat]
  exact upsert_append_cons [] (hid ▸ (nodup_cons.mp hnd).1) hid.symm

theorem Start.handleReasoning (h : Start turns started n b) (text : String)
    (extend : List String → List String → List String × List String) :
    Done turns started n (b.handleReasoning host text extend) := by
  unfold ThreadHistoryBuilder.handleReasoning
  by_cases ht : text.isEmpty = true
  · rw [if_pos ht]
    exact h.done
  · rw [if_neg ht]
    have hopn : Opened turns started n (b.ensureTurn host).1 (b.ensureTurn host).2 := h.ensureTurn
    dsimp only
    split
    · next id summary content hl =>
      have hdone := hopn.putItem (.reasoning id (extend summary content).1 (extend summary content).2) fun k hk =>
        hopn.fresh.below k (hk ▸ mem_map.mpr ⟨_, mem_of_getLast? hl, rfl⟩)
      rw [upsert_last hl (by rfl) hopn.fresh.nodup] at hdone
      exact hdone
    · rw [pushNewItem_ensureTurn]
      exact h.pushNewItem fun _ => rfl

theorem Start.handleCompacted (h : Start turns started n b) : Done turns started n (b.handleCompacted host) :=
  h.ensureTurn.done rfl (.inr (.inr rfl))

theorem Start.handleTurnStarted (h : Start turns started n b) (e : TurnStartedEvent) (hnew : e.turnId ∉ started)
    (hexp : ∀ k, e.turnId ≠ rolloutId k) :
    Done turns (started ++ [e.turnId]) n (b.handleTurnStarted host e) := by
  have hfin := h.finishCurrentTurn
  have hnone := (allTurns_finishCurrentTurn h.keeps).2.1
  refine (hfin.openTurn hnone rfl (hfin.toNamedTurns.openTurn hnone ?_ ?_ ?_ ?_)).done rfl (.inr (.inl rfl))
  · intro k hk
    rcases mem_append.mp hk with hk | hk
    · exact h.explicit k hk
    · exact hexp k (mem_singleton.mp hk).symm
  · rintro id (hid | ⟨k, hk, hid⟩)
    · exact .inl (mem_append_left _ hid)
    · exact .inr ⟨k, Nat.lt_succ_of_lt hk, hid⟩
  · intro hmem
    rcases hfin.named _ hmem with hmem | ⟨k, -, hid⟩
    · exact hnew hmem
    · exact hexp k hid
  · exact .inl (mem_append_right _ (mem_singleton.mpr rfl))

theorem turns_handleThreadRollback (b : ThreadHistoryBuilder) (n : Nat) :
    (b.handleThreadRollback n).turns =
      b.finishCurrentTurn.turns.take (b.finishCurrentTurn.turns.length - n) := by
  show (if b.finishCurrentTurn.turns.length ≤ n then [] else b.finishCurrentTurn.turns.take _) = _
  split
  · next hle => rw [Nat.sub_eq_zero_of_le hle, take_zero]
  · rfl

theorem removeTurns_append (kept dropped : List Turn) (hnd : ((kept ++ dropped).map Turn.id).Nodup) :
    removeTurns (kept ++ dropped) (dropped.map Turn.id) = kept := by
  rw [map_append] at hnd
  have hdisjoint := (nodup_append.mp hnd).2.2
  rw [removeTurns, filter_append, filter_eq_self.mpr, filter_eq_nil_iff.mpr, append_nil]
  · intro turn hturn
    simpa using ⟨turn, hturn, rfl⟩
  · intro turn hturn
    refine decide_eq_true fun hmem => ?_
    exact hdisjoint _ (mem_map.mpr ⟨turn, hturn, rfl⟩) _ hmem rfl

theorem Start.handleThreadRollback (h : Start turns started n b) (nt : Nat) :
    Done turns started n (b.handleThreadRollback nt) := by
  have hfin := h.finishCurrentTurn
  have hnone := (allTurns_finishCurrentTurn h.keeps).2.1
  have hts : b.finishCurrentTurn.turns = turns := (allTurns_of_none hnone).symm.trans hfin.turns_eq
  have hrem : (if turns.length ≤ nt then turns.map (·.id)
      else if nt = 0 then [] else (turns.drop (turns.length - nt)).map (·.id)) =
      (turns.drop (turns.length - nt)).map Turn.id := by
    split
    · next hle => rw [Nat.sub_eq_zero_of_le hle, drop_zero]
    · split
      · next hzero => rw [hzero, Nat.sub_zero, drop_length, map_nil]
      · rfl
  have hnd : (turns.map Turn.id).Nodup := by
    rw [← hfin.turns_eq]
    exact hfin.nodup
  generalize hb' : b.handleThreadRollback nt = b'
  have hcur : b'.currentTurn = none := by
    rw [← hb']
    exact hnone
  have hall : b'.allTurns = turns.take (turns.length - nt) := by
    rw [allTurns_of_none hcur, ← hb', turns_handleThreadRollback, hts]
  refine { explicit := h.explicit, nodup := ?_, named := ?_, fresh := ?_,
           keeps := ?_, current := ?_, next := ?_, tracked := ?_ }
  · rw [ids, hall, map_take]
    exact hnd.sublist (take_sublist _ _)
  · intro id hmem
    rw [ids, hall, map_take] at hmem
    refine h.toNamedTurns.mono.named id ?_
    rw [ids, h.turns_eq]
    exact mem_of_mem_take hmem
  · rw [hcur]
    simp
  · rw [hcur]
    simp
  · rw [← hb']
    exact hfin.current
  · rw [← hb']
    exact hfin.next
  · refine ⟨{ removedTurnIds := (turns.drop (turns.length - nt)).map Turn.id }, ?_, ?_, by simp⟩
    · rw [← hb', ThreadHistoryBuilder.handleThreadRollback]
      simp only [recordRemovedTurnIds, record, hts, hrem, hfin.changes]
      rfl
    · have hcut := removeTurns_append (turns.take (turns.length - nt))
        (turns.drop (turns.length - nt)) (by rwa [take_append_drop])
      rw [take_append_drop] at hcut
      rw [hall, applyChanges]
      exact hcut

end

end ThreadHistoryBuilder

end AppServer
