import Codez.RemoteControl.Reader

/-!
Why connections are closed (`closed_for_own_reason_iff`).

A key names one connection after another, and an outbound task that ends reports only its key.
-/

namespace RemoteControl

open List

/-- A reason to close the connection that was opened for the key. -/
def Happening.ReasonFor (connectionId : Nat) (key : ClientKey) : Happening → Prop
  | .initialized k => k = key
  | .clientClosed k => k = key
  | .idle c => c = connectionId
  | .taskEnded c => c = connectionId
  | .forwardFailed c => c = connectionId
  | .shutdown => True
  | .opened _ _ => False
  | .closed _ => False

def Justified (log : List Happening) (connectionId : Nat) : Prop :=
  ∃ key before since, log = before ++ .opened connectionId key :: since ∧
    ∃ reason ∈ since, reason.ReasonFor connectionId key

def ClosedForOwnReason (log : List Happening) : Prop :=
  ∀ before connectionId after, log = before ++ .closed connectionId :: after → Justified before connectionId

/-! ## Logs -/

section
variable {log : List Happening}

theorem closedForOwnReason_nil : ClosedForOwnReason [] := by
  intro before connectionId after h
  simp at h

theorem closedForOwnReason_snoc (happening : Happening) :
    ClosedForOwnReason (log ++ [happening]) ↔
      ClosedForOwnReason log ∧ ∀ connectionId, happening = .closed connectionId → Justified log connectionId := by
  constructor
  · intro h
    refine ⟨?_, ?_⟩
    · intro before connectionId after hlog
      exact h before connectionId (after ++ [happening]) (by rw [hlog]; simp)
    · rintro connectionId rfl
      exact h log connectionId [] rfl
  · rintro ⟨hlog, hl⟩ before connectionId after heq
    rcases eq_nil_or_concat after with rfl | ⟨after', last, rfl⟩
    · obtain ⟨rfl, hhappening⟩ := append_inj' heq rfl
      exact hl connectionId (List.cons.inj hhappening).1
    · have heq' : log ++ [happening] = (before ++ .closed connectionId :: after') ++ [last] := by
        rw [heq]
        simp
      obtain ⟨hinit, -⟩ := append_inj' heq' rfl
      exact hlog before connectionId after' hinit

def openedId : Happening → Option Nat
  | .opened connectionId _ => some connectionId
  | _ => none

theorem opened_unique (hnd : (log.filterMap openedId).Nodup) {connectionId : Nat} {key key' : ClientKey}
    {before since before' since' : List Happening} (h : log = before ++ .opened connectionId key :: since)
    (h' : log = before' ++ .opened connectionId key' :: since') : key = key' ∧ since = since' := by
  have hspl := h.symm.trans h'
  rw [h, filterMap_append, filterMap_cons_some (by rfl)] at hnd
  obtain ⟨-, hsin, hpre⟩ := nodup_append.mp hnd
  have hnotSince : ∀ k, Happening.opened connectionId k ∉ since := by
    intro k hmem
    exact (nodup_cons.mp hsin).1 (mem_filterMap.mpr ⟨_, hmem, rfl⟩)
  have hnotBefore : ∀ k, Happening.opened connectionId k ∉ before := by
    intro k hmem
    exact hpre connectionId (mem_filterMap.mpr ⟨_, hmem, rfl⟩) connectionId mem_cons_self rfl
  rcases append_eq_append_iff.mp hspl with ⟨mid, hb, hs⟩ | ⟨mid, hb, hs⟩
  · cases mid with
    | nil =>
      obtain ⟨hh, htail⟩ := List.cons.inj hs
      cases hh
      exact ⟨rfl, htail⟩
    | cons m mid =>
      obtain ⟨-, htail⟩ := List.cons.inj hs
      exact absurd (by rw [htail]; simp) (hnotSince key')
  · cases mid with
    | nil =>
      obtain ⟨hh, htail⟩ := List.cons.inj hs
      cases hh
      exact ⟨rfl, htail.symm⟩
    | cons m mid =>
      obtain ⟨hh, -⟩ := List.cons.inj hs
      exact absurd (by rw [hb, ← hh]; simp) (hnotBefore key')

end

/-! ## What calls do -/

namespace ClientTracker

def connectionOf (t : ClientTracker) (key : ClientKey) : Option Nat := (t.clients.lookup key).map (·.connectionId)

def IsRunning (t : ClientTracker) (connectionId : Nat) : Prop := ∃ task ∈ t.running, task.connectionId = connectionId

structure Removed (t : ClientTracker) (key : ClientKey) (t' : ClientTracker) : Prop where
  connectionOf : ∀ k, t'.connectionOf k = if k = key then none else t.connectionOf k
  running : t'.running = t.running
  next : t'.nextConnectionId = t.nextConnectionId

/-- A move and its part of the log.  A close that only a task of another connection asked for is
`joined`. -/
inductive Move (t : ClientTracker) : List Happening → ClientTracker → Prop
  | quiet {t' : ClientTracker} (hconnections : ∀ key, t'.connectionOf key = t.connectionOf key)
    (hrunning : t'.running = t.running) (hnext : t.nextConnectionId ≤ t'.nextConnectionId) : Move t [] t'
  | note (key : ClientKey) (reason : Happening)
    (hreason : reason = .initialized key ∨ reason = .clientClosed key) (hnone : t.connectionOf key = none) :
    Move t [reason] t
  | ends {t' : ClientTracker} (key : ClientKey) (connectionId : Nat) (reason : Happening)
    (hclient : t.connectionOf key = some connectionId)
    (hreason : reason = .initialized key ∨ reason = .clientClosed key ∨ reason = .idle connectionId ∨
      reason = .forwardFailed connectionId)
    (hremoved : Removed t key t') : Move t [reason, .closed connectionId] t'
  | opens {t' : ClientTracker} (key : ClientKey) (connectionId : Nat) (hnone : t.connectionOf key = none)
    (hfresh : t.nextConnectionId ≤ connectionId)
    (hconnections : ∀ k, t'.connectionOf k = if k = key then some connectionId else t.connectionOf k)
    (hrunning : t'.running = t.running ++ [⟨key, connectionId⟩]) (hnext : t'.nextConnectionId = connectionId + 1) :
    Move t [.opened connectionId key] t'
  | opensOnly {t' : ClientTracker} (key : ClientKey) (connectionId : Nat) (hfresh : t.nextConnectionId ≤ connectionId)
    (hconnections : ∀ k, t'.connectionOf k = t.connectionOf k) (hrunning : t'.running = t.running)
    (hnext : t'.nextConnectionId = connectionId + 1) : Move t [.opened connectionId key] t'
  | taskEnds {t' : ClientTracker} (connectionId : Nat) (hconnections : ∀ k, t'.connectionOf k = t.connectionOf k)
    (hrunning : ∀ c, t'.IsRunning c ↔ c ≠ connectionId ∧ t.IsRunning c)
    (hnext : t'.nextConnectionId = t.nextConnectionId) : Move t [.taskEnded connectionId] t'
  | shutdown {t' : ClientTracker} (hconnections : ∀ k, t'.connectionOf k = t.connectionOf k)
    (hrunning : t'.running = []) (hnext : t'.nextConnectionId = t.nextConnectionId) : Move t [.shutdown] t'
  | joined {t' : ClientTracker} (key : ClientKey) (connectionId : Nat)
    (hclient : t.connectionOf key = some connectionId)
    (hended : ¬t.IsRunning connectionId) (hremoved : Removed t key t') : Move t [.closed connectionId] t'

inductive Moves : ClientTracker → List Happening → ClientTracker → Prop
  | refl (t : ClientTracker) : Moves t [] t
  | step {t t' t'' : ClientTracker} {log log' : List Happening} (hmove : Move t log t') (hmoves : Moves t' log' t'') :
    Moves t (log ++ log') t''

theorem Moves.single {t t' : ClientTracker} {log : List Happening} (h : Move t log t') : Moves t log t' := by
  have := Moves.step h (.refl t')
  rwa [append_nil] at this

structure Inv (log : List Happening) (t : ClientTracker) : Prop where
  fresh : ∀ connectionId key, .opened connectionId key ∈ log → connectionId < t.nextConnectionId
  nodup : (log.filterMap openedId).Nodup
  current : ∀ key connectionId, t.connectionOf key = some connectionId →
    ∃ before since, log = before ++ .opened connectionId key :: since ∧
      ((∃ reason ∈ since, reason.ReasonFor connectionId key) ↔ ¬t.IsRunning connectionId)

section
variable {log entries : List Happening} {t t' : ClientTracker} {key : ClientKey} {connectionId : Nat}

theorem isRunning_congr (h : t'.running = t.running) (connectionId : Nat) :
    t'.IsRunning connectionId ↔ t.IsRunning connectionId := by
  rw [IsRunning, IsRunning, h]

theorem Inv.justified_iff (h : Inv log t)
    (hcl : t.connectionOf key = some connectionId) : Justified log connectionId ↔ ¬t.IsRunning connectionId := by
  obtain ⟨before, since, hlog, hiff⟩ := h.current key connectionId hcl
  constructor
  · rintro ⟨key', before', since', hlog', hwhy⟩
    obtain ⟨rfl, rfl⟩ := opened_unique h.nodup hlog hlog'
    exact hiff.mp hwhy
  · intro hend
    exact ⟨key, before, since, hlog, hiff.mpr hend⟩

theorem Inv.key_eq (h : Inv log t) {key' : ClientKey}
    (hcl : t.connectionOf key = some connectionId) (hclient' : t.connectionOf key' = some connectionId) :
    key = key' := by
  obtain ⟨before, since, hlog, -⟩ := h.current key connectionId hcl
  obtain ⟨before', since', hlog', -⟩ := h.current key' connectionId hclient'
  exact (opened_unique h.nodup hlog hlog').1

theorem Inv.snoc (h : Inv log t) (happening : Happening) (hnext : t.nextConnectionId ≤ t'.nextConnectionId)
    (hopn : ∀ connectionId, openedId happening = some connectionId →
      t.nextConnectionId ≤ connectionId ∧ connectionId < t'.nextConnectionId)
    (hclients : ∀ key connectionId, t'.connectionOf key = some connectionId →
      t.connectionOf key = some connectionId ∧
        ((happening.ReasonFor connectionId key ∨ ¬t.IsRunning connectionId) ↔ ¬t'.IsRunning connectionId) ∨
      happening = .opened connectionId key ∧ t'.IsRunning connectionId) :
    Inv (log ++ [happening]) t' := by
  refine ⟨?_, ?_, ?_⟩
  · intro connectionId key hmem
    rcases mem_append.mp hmem with hmem | hmem
    · exact Nat.lt_of_lt_of_le (h.fresh connectionId key hmem) hnext
    · rw [← mem_singleton.mp hmem] at hopn
      exact (hopn connectionId rfl).2
  · rw [filterMap_append]
    cases hid : openedId happening with
    | none => simpa [hid] using h.nodup
    | some connectionId =>
      rw [filterMap_cons_some hid, filterMap_nil, nodup_append]
      refine ⟨h.nodup, by simp, ?_⟩
      rintro c hc c' hc' rfl
      rw [mem_singleton] at hc'
      obtain ⟨entry, hent, hopen⟩ := mem_filterMap.mp hc
      cases entry with
      | opened c₀ key =>
        cases hopen
        have hlt := h.fresh c key hent
        have hge := (hopn connectionId hid).1
        omega
      | _ => cases hopen
  · intro key connectionId hcl
    rcases hclients key connectionId hcl with ⟨hold, hiff⟩ | ⟨rfl, hrun⟩
    · obtain ⟨before, since, hlog, hsin⟩ := h.current key connectionId hold
      refine ⟨before, since ++ [happening], by rw [hlog]; simp, ?_⟩
      rw [← hiff, ← hsin]
      constructor
      · rintro ⟨reason, hmem, hwhy⟩
        rcases mem_append.mp hmem with hmem | hmem
        · exact .inr ⟨reason, hmem, hwhy⟩
        · rw [mem_singleton.mp hmem] at hwhy
          exact .inl hwhy
      · rintro (hwhy | ⟨reason, hmem, hwhy⟩)
        · exact ⟨happening, by simp, hwhy⟩
        · exact ⟨reason, mem_append_left _ hmem, hwhy⟩
    · refine ⟨log, [], rfl, ?_⟩
      constructor
      · rintro ⟨reason, hmem, -⟩
        cases hmem
      · intro hend
        exact absurd hrun hend

theorem Inv.snoc_silent (h : Inv log t) (happening : Happening) (hsilent : openedId happening = none)
    (hwhy : ∀ key connectionId, t'.connectionOf key = some connectionId → ¬happening.ReasonFor connectionId key)
    (hclients : ∀ key connectionId, t'.connectionOf key = some connectionId → t.connectionOf key = some connectionId)
    (hrun : t'.running = t.running) (hnext : t'.nextConnectionId = t.nextConnectionId) :
    Inv (log ++ [happening]) t' := by
  apply h.snoc happening hnext.ge
  · intro connectionId hid
    rw [hsilent] at hid
    cases hid
  · intro key connectionId hcl
    refine .inl ⟨hclients key connectionId hcl, ?_⟩
    rw [isRunning_congr hrun]
    exact or_iff_right (hwhy key connectionId hcl)

theorem Removed.client (h : Removed t key t') {k : ClientKey}
    (hcl : t'.connectionOf k = some connectionId) : k ≠ key ∧ t.connectionOf k = some connectionId := by
  rw [h.connectionOf] at hcl
  by_cases hk : k = key
  · rw [if_pos hk] at hcl
    cases hcl
  · rw [if_neg hk] at hcl
    exact ⟨hk, hcl⟩

theorem Inv.closed (h : Inv log t) (connectionId : Nat) (hrem : Removed t key t') :
    Inv (log ++ [.closed connectionId]) t' :=
  h.snoc_silent _ rfl (fun _ _ _ hwhy => hwhy) (fun _ _ hcl => (hrem.client hcl).2) hrem.running
    hrem.next

theorem Inv.move (h : Inv log t) (hmv : Move t entries t') : Inv (log ++ entries) t' := by
  cases hmv with
  | quiet hconns hr hnext =>
    rw [append_nil]
    refine ⟨fun c key hmem => Nat.lt_of_lt_of_le (h.fresh c key hmem) hnext, h.nodup, ?_⟩
    intro key connectionId hcl
    rw [hconns] at hcl
    rw [isRunning_congr hr]
    exact h.current key connectionId hcl
  | note key reason hwhy hnone =>
    refine h.snoc_silent reason (by rcases hwhy with rfl | rfl <;> rfl) ?_ (fun _ _ hcl => hcl) rfl rfl
    intro k connectionId hcl hfor
    have hk : key = k := by rcases hwhy with rfl | rfl <;> exact hfor
    rw [← hk, hnone] at hcl
    cases hcl
  | ends key connectionId reason hcl hwhy hrem =>
    have hmiddle : Inv (log ++ [reason]) t' := by
      refine h.snoc_silent reason (by rcases hwhy with rfl | rfl | rfl | rfl <;> rfl) ?_
        (fun _ _ hc => (hrem.client hc).2) hrem.running hrem.next
      intro k c hc hfor
      obtain ⟨hk, hold⟩ := hrem.client hc
      -- the reason names the key or the connection of the client that goes
      rcases hwhy with rfl | rfl | rfl | rfl
      · exact hk hfor.symm
      · exact hk hfor.symm
      · exact hk (h.key_eq (by rw [hold]; exact congrArg some hfor.symm) hcl)
      · exact hk (h.key_eq (by rw [hold]; exact congrArg some hfor.symm) hcl)
    have hl : Inv (log ++ [reason] ++ [.closed connectionId]) t' :=
      hmiddle.snoc_silent _ rfl (fun _ _ _ hfor => hfor) (fun _ _ hc => hc) rfl rfl
    rwa [append_assoc] at hl
  | opens key connectionId hnone hfresh hconns hr hnext =>
    have hrun : ∀ c, t'.IsRunning c ↔ t.IsRunning c ∨ connectionId = c := by
      intro c
      simp [IsRunning, hr, or_and_right, exists_or]
    apply h.snoc _ (by omega)
    · intro c hc
      cases hc
      omega
    · intro k c hc
      rw [hconns] at hc
      by_cases hk : k = key
      · rw [if_pos hk] at hc
        cases hc
        exact .inr ⟨by rw [hk], (hrun connectionId).mpr (.inr rfl)⟩
      · rw [if_neg hk] at hc
        refine .inl ⟨hc, ?_⟩
        obtain ⟨before, since, hlog, -⟩ := h.current k c hc
        have hlt := h.fresh c k (by rw [hlog]; simp)
        have hne : connectionId ≠ c := by omega
        rw [hrun, or_iff_left hne]
        exact or_iff_right fun hfor => hfor
  | opensOnly key connectionId hfresh hconns hr hnext =>
    apply h.snoc _ (by omega)
    · intro c hc
      cases hc
      omega
    · intro k c hc
      rw [hconns] at hc
      refine .inl ⟨hc, ?_⟩
      rw [isRunning_congr hr]
      exact or_iff_right fun hfor => hfor
  | taskEnds connectionId hconns hr hnext =>
    apply h.snoc _ hnext.ge
    · intro c hc
      cases hc
    · intro k c hc
      rw [hconns] at hc
      refine .inl ⟨hc, ?_⟩
      rw [hr]
      show (connectionId = c ∨ ¬t.IsRunning c) ↔ ¬(c ≠ connectionId ∧ t.IsRunning c)
      rw [not_and_or, not_not, eq_comm]
  | shutdown hconns hr hnext =>
    apply h.snoc _ hnext.ge
    · intro c hc
      cases hc
    · intro k c hc
      rw [hconns] at hc
      refine .inl ⟨hc, ?_⟩
      have hnone : ¬t'.IsRunning c := by
        rintro ⟨task, hmem, -⟩
        rw [hr] at hmem
        cases hmem
      exact iff_of_true (.inl trivial) hnone
  | joined key connectionId _ _ hrem => exact h.closed connectionId hrem

theorem ClosedForOwnReason.of_append (h : ClosedForOwnReason (log ++ entries)) :
    ClosedForOwnReason log := by
  intro before connectionId after hlog
  exact h before connectionId (after ++ entries) (by rw [hlog]; simp)

theorem Move.closedForOwnReason (h : Inv log t) (hmv : Move t entries t') (hlog : ClosedForOwnReason log) :
    ClosedForOwnReason (log ++ entries) := by
  have hopen : ∀ happening, (∀ connectionId, happening ≠ .closed connectionId) →
      ClosedForOwnReason (log ++ [happening]) := fun happening hne =>
    (closedForOwnReason_snoc happening).mpr ⟨hlog, fun c hc => absurd hc (hne c)⟩
  cases hmv with
  | quiet => rwa [append_nil]
  | note key reason hwhy =>
    apply hopen
    rintro c rfl
    rcases hwhy with hwhy | hwhy <;> cases hwhy
  | ends key connectionId reason hcl hwhy =>
    rw [← singleton_append, ← append_assoc, closedForOwnReason_snoc]
    refine ⟨hopen reason ?_, ?_⟩
    · rintro c rfl
      rcases hwhy with hwhy | hwhy | hwhy | hwhy <;> cases hwhy
    · intro c hc
      cases hc
      obtain ⟨before, since, heq, -⟩ := h.current key connectionId hcl
      refine ⟨key, before, since ++ [reason], by rw [heq]; simp, reason, by simp, ?_⟩
      rcases hwhy with rfl | rfl | rfl | rfl <;> rfl
  | joined key connectionId hcl hend =>
    rw [closedForOwnReason_snoc]
    refine ⟨hlog, ?_⟩
    intro c hc
    cases hc
    exact (h.justified_iff hcl).mpr hend
  | _ => exact hopen _ (by intro c hc; cases hc)

theorem Moves.keep (hmv : Moves t entries t') (h : Inv log t) :
    Inv (log ++ entries) t' ∧ (ClosedForOwnReason log → ClosedForOwnReason (log ++ entries)) := by
  induction hmv generalizing log with
  | refl => rw [append_nil]; exact ⟨h, id⟩
  | step hmove _ ih =>
    obtain ⟨hinv, hwhy⟩ := ih (h.move hmove)
    rw [← append_assoc]
    exact ⟨hinv, fun hlog => hwhy (hmove.closedForOwnReason h hlog)⟩

end

/-! ## The calls as moves -/

section
variable {t : ClientTracker} {key : ClientKey} {M : Type}

theorem connectionOf_eq_none : t.connectionOf key = none ↔ t.clients.lookup key = none := by
  rw [connectionOf, Option.map_eq_none_iff]

theorem connectionOf_eq_some {client : ClientState} (h : t.clients.lookup key = some client) :
    t.connectionOf key = some client.connectionId := by
  rw [connectionOf, h]
  rfl

theorem removed_removeClient (t : ClientTracker) (key : ClientKey) : Removed t key (t.removeClient key) := by
  rw [removeClient]
  cases hlk : t.clients.lookup key with
  | none =>
    refine ⟨?_, rfl, rfl⟩
    intro k
    by_cases hk : k = key
    · rw [if_pos hk, hk, connectionOf_eq_none.mpr hlk]
    · rw [if_neg hk]
  | some client =>
    refine ⟨?_, rfl, rfl⟩
    intro k
    show ((t.clients.erase key).lookup k).map _ = _
    rw [Table.lookup_erase]
    split <;> rfl

theorem closeClient_cases (t : ClientTracker) (key : ClientKey) :
    t.connectionOf key = none ∧ t.closeClient key = (t, []) ∨
      ∃ connectionId, t.connectionOf key = some connectionId ∧
        t.closeClient key = (t.removeClient key, [.closed connectionId]) := by
  rw [closeClient]
  cases hlk : t.clients.lookup key with
  | none => exact .inl ⟨connectionOf_eq_none.mpr hlk, rfl⟩
  | some client => exact .inr ⟨client.connectionId, connectionOf_eq_some hlk, rfl⟩

theorem touchClient_move (t : ClientTracker) (key : ClientKey) {f : ClientState → ClientState}
    (hf : ∀ client, (f client).connectionId = client.connectionId) : Move t [] (t.touchClient key f) := by
  rw [touchClient]
  cases hlk : t.clients.lookup key with
  | none => exact .quiet (fun _ => rfl) rfl le_rfl
  | some client =>
    refine .quiet ?_ rfl le_rfl
    intro k
    show ((t.clients.insert key (f client)).lookup k).map _ = _
    rw [Table.lookup_insert]
    by_cases hk : k = key
    · rw [if_pos hk, hk, connectionOf_eq_some hlk]
      exact congrArg some (hf client)
    · rw [if_neg hk]
      rfl

theorem recordInboundMessageDelivery_move (t : ClientTracker) (key : ClientKey) (seqId : Option Nat) :
    Move t [] (t.recordInboundMessageDelivery key seqId) := by
  cases seqId with
  | none => exact .quiet (fun _ => rfl) rfl le_rfl
  | some seqId => exact touchClient_move t key fun _ => rfl

theorem addClient_move (hnone : t.connectionOf key = none) {connectionId : Nat}
    (hfresh : t.nextConnectionId ≤ connectionId) (now : Nat)
    (legacyStreamIds : AList fun _ : ClientId => StreamId) :
    Move t [.opened connectionId key] { t.addClient key connectionId now with legacyStreamIds } := by
  refine .opens key connectionId hnone hfresh ?_ rfl rfl
  intro k
  show ((t.clients.insert key ⟨connectionId, now, none⟩).lookup k).map _ = _
  rw [Table.lookup_insert]
  split <;> rfl

theorem openConnection_moves (hnone : t.connectionOf key = none) (isLegacyStreamId : Bool) (seqId : Option Nat)
    (c : Circumstances) :
    Moves t (t.openConnection key isLegacyStreamId seqId c).log
      (t.openConnection key isLegacyStreamId seqId c).tracker := by
  have hfresh : t.nextConnectionId ≤ t.nextConnectionId + c.skipped := Nat.le_add_right _ _
  have hadd : ∃ legacyStreamIds, (if isLegacyStreamId = true then
      { t.addClient key (t.nextConnectionId + c.skipped) c.now with
        legacyStreamIds := (t.addClient key (t.nextConnectionId + c.skipped) c.now).legacyStreamIds.insert key.1 key.2 }
      else t.addClient key (t.nextConnectionId + c.skipped) c.now) =
      { t.addClient key (t.nextConnectionId + c.skipped) c.now with legacyStreamIds } := by
    cases isLegacyStreamId with
    | false => exact ⟨t.legacyStreamIds, rfl⟩
    | true => exact ⟨_, rfl⟩
  obtain ⟨legacyStreamIds, hadd⟩ := hadd
  have hopn := addClient_move hnone hfresh c.now legacyStreamIds
  rw [openConnection]
  cases c.connectionOpened with
  | failed => exact .single (.quiet (fun _ => rfl) rfl (by show _ ≤ _ + 1; omega))
  | aborted => exact .single (.opensOnly key _ hfresh (fun _ => rfl) rfl rfl)
  | sent =>
    simp only [hadd]
    cases c.incomingMessage with
    | failed =>
      have hcl : ClientTracker.connectionOf
          { t.addClient key (t.nextConnectionId + c.skipped) c.now with legacyStreamIds } key =
          some (t.nextConnectionId + c.skipped) := by
        show ((t.clients.insert key _).lookup key).map _ = _
        rw [AList.lookup_insert]
        rfl
      exact .step hopn (.single (.ends key _ _ hcl (.inr (.inr (.inr rfl))) (removed_removeClient _ key)))
    | aborted => exact .single hopn
    | sent =>
      cases isLegacyStreamId with
      | true => exact .single hopn
      | false => exact .step hopn (.single (recordInboundMessageDelivery_move _ key seqId))

theorem handleClientMessage_moves (t : ClientTracker) (key : ClientKey) (isInitialize isLegacyStreamId : Bool)
    (seqId : Option Nat) (c : Circumstances) :
    Moves t (t.handleClientMessage key isInitialize isLegacyStreamId seqId c).log
      (t.handleClientMessage key isInitialize isLegacyStreamId seqId c).tracker := by
  rw [handleClientMessage]
  cases isInitialize with
  | true =>
    rw [if_pos rfl]
    cases hlk : t.clients.lookup key with
    | none =>
      have hnone := connectionOf_eq_none.mpr hlk
      exact .step (.note key _ (.inl rfl) hnone) (openConnection_moves hnone isLegacyStreamId seqId c)
    | some client =>
      have hcl := connectionOf_eq_some hlk
      have hrem := removed_removeClient t key
      have hends : Move t [.initialized key, .closed client.connectionId] (t.removeClient key) :=
        .ends key client.connectionId _ hcl (.inl rfl) hrem
      have hc : t.closeClient key = (t.removeClient key, [.closed client.connectionId]) := by
        rw [closeClient, hlk]
      simp only [hc]
      cases c.close with
      | sent =>
        have hnone : (t.removeClient key).connectionOf key = none := by rw [hrem.connectionOf, if_pos rfl]
        exact .step hends (openConnection_moves hnone isLegacyStreamId seqId c)
      | failed | aborted => exact .single hends
  | false =>
    rw [if_neg Bool.false_ne_true]
    split
    · exact .refl t
    · cases hlk : t.clients.lookup key with
      | none => exact .refl t
      | some client =>
        show Moves t (t.forwardMessage key seqId c).log (t.forwardMessage key seqId c).tracker
        have htouch : Move t [] (t.touchClient key fun client => { client with lastActivityAt := c.now }) :=
          touchClient_move t key fun _ => rfl
        rw [forwardMessage]
        cases c.incomingMessage with
        | sent => exact .step htouch (.single (recordInboundMessageDelivery_move _ key seqId))
        | failed | aborted => exact .single htouch

theorem resolveStreamId_move (t : ClientTracker) (envelope : ClientEnvelope M) (isInitialize : Bool)
    (randomStreamId : StreamId) : Move t [] (t.resolveStreamId envelope isInitialize randomStreamId).2 := by
  rw [resolveStreamId]
  cases envelope.streamId with
  | some streamId => exact .quiet (fun _ => rfl) rfl le_rfl
  | none =>
    cases isInitialize with
    | true | false => exact .quiet (fun _ => rfl) rfl le_rfl

theorem handleOnStream_moves (t : ClientTracker) (envelope : ClientEnvelope M) (isInitialize : Bool)
    (streamId : StreamId) (c : Circumstances) :
    Moves t (t.handleOnStream envelope isInitialize streamId c).log
      (t.handleOnStream envelope isInitialize streamId c).tracker := by
  rw [handleOnStream]
  by_cases hnil : streamId.isEmpty = true
  · rw [if_pos hnil]
    exact .refl t
  rw [if_neg hnil]
  cases envelope.event with
  | clientMessage message => exact handleClientMessage_moves t _ _ _ _ c
  | clientMessageChunk _ _ _ _ => exact .refl t
  | ack _ => exact .refl t
  | ping => exact .single (touchClient_move t _ fun _ => rfl)
  | clientClosed =>
    rcases closeClient_cases t (envelope.clientId, streamId) with ⟨hnone, hc⟩ | ⟨connectionId, hcl, hc⟩
    · simp only [hc]
      exact .single (.note _ _ (.inr rfl) hnone)
    · simp only [hc]
      exact .single (.ends _ connectionId _ hcl (.inr (.inl rfl)) (removed_removeClient t _))

theorem handleMessage_moves (startsConnection : M → Bool) (t : ClientTracker) (envelope : ClientEnvelope M)
    (c : Circumstances) :
    Moves t (t.handleMessage startsConnection envelope c).log (t.handleMessage startsConnection envelope c).tracker :=
  .step (resolveStreamId_move t envelope _ c.randomStreamId) (handleOnStream_moves _ envelope _ _ c)

theorem closeExpired_moves (t : ClientTracker) (close : ClientKey → Delivery) (keys : List ClientKey) :
    Moves t (t.closeExpired close keys).log (t.closeExpired close keys).tracker := by
  induction keys generalizing t with
  | nil => exact .refl t
  | cons key keys ih =>
    rw [closeExpired]
    cases hlk : t.clients.lookup key with
    | none => exact ih t
    | some client =>
      have hends : Move t [.idle client.connectionId, .closed client.connectionId] (t.removeClient key) :=
        .ends key client.connectionId _ (connectionOf_eq_some hlk) (.inr (.inr (.inl rfl))) (removed_removeClient t key)
      cases close key with
      | sent => exact .step hends (ih (t.removeClient key))
      | failed | aborted => exact .single hends

theorem endTask_moves (t : ClientTracker) (connectionId : Nat) :
    Moves t (t.endTask connectionId).2 (t.endTask connectionId).1 := by
  rw [endTask]
  cases t.running.find? fun task => decide (task.connectionId = connectionId) with
  | none => exact .refl t
  | some task =>
    refine .single (.taskEnds connectionId (fun _ => rfl) ?_ rfl)
    intro c
    show (∃ task ∈ t.running.filter _, _) ↔ _
    constructor
    · rintro ⟨task, hmem, rfl⟩
      obtain ⟨hmem, hne⟩ := mem_filter.mp hmem
      exact ⟨of_decide_eq_true hne, task, hmem, rfl⟩
    · rintro ⟨hne, task, hmem, rfl⟩
      exact ⟨task, mem_filter.mpr ⟨hmem, decide_eq_true hne⟩, rfl⟩

theorem dropTask_move (t : ClientTracker) (task : OutboundTask) : Move t [] (t.dropTask task) :=
  .quiet (fun _ => rfl) rfl le_rfl

theorem closeClient_tasks (t : ClientTracker) (running ended : List OutboundTask) (key : ClientKey) :
    { t with running, ended }.closeClient key =
      ({ (t.closeClient key).1 with running, ended }, (t.closeClient key).2) := by
  simp only [closeClient, removeClient]
  cases t.clients.lookup key with
  | none => rfl
  | some client => rfl

theorem closeAll_tasks (t : ClientTracker) (running ended : List OutboundTask) (keys : List ClientKey) :
    { t with running, ended }.closeAll keys =
      ({ (t.closeAll keys).1 with running, ended }, (t.closeAll keys).2) := by
  induction keys generalizing t with
  | nil => rfl
  | cons key keys ih => simp only [closeAll, closeClient_tasks, ih]

theorem closeAll_moves (t : ClientTracker) (hrun : t.running = []) (keys : List ClientKey) :
    Moves t (t.closeAll keys).2 (t.closeAll keys).1 := by
  induction keys generalizing t with
  | nil => exact .refl t
  | cons key keys ih =>
    rw [closeAll]
    rcases closeClient_cases t key with ⟨-, hc⟩ | ⟨connectionId, hcl, hc⟩
    · simp only [hc]
      exact ih t hrun
    · simp only [hc]
      have hrem := removed_removeClient t key
      refine .step (.joined key connectionId hcl ?_ hrem) (ih _ (hrem.running.trans hrun))
      rintro ⟨task, hmem, -⟩
      rw [hrun] at hmem
      cases hmem

theorem shutdown_moves (t : ClientTracker) (order : List ClientKey) :
    Moves t (t.shutdown order).2 (t.shutdown order).1 := by
  have hcl := closeAll_moves { t with running := [], ended := [] } rfl order
  rw [closeAll_tasks] at hcl
  have hstop : Move t [.shutdown] { t with running := [], ended := [] } := .shutdown (fun _ => rfl) rfl rfl
  exact .step hstop hcl

end

end ClientTracker

namespace Reader

open ClientTracker

variable {M : Type} (host : SegmentHost M) (startsConnection : M → Bool)

/-- A task is joined when the client that has its key, if any, no longer has a running task itself. -/
def Conforms (r : Reader) : Event M → Prop
  | .taskJoined task _ => task ∈ r.tracker.ended → ∀ connectionId, r.tracker.connectionOf task.key = some connectionId →
      ¬r.tracker.IsRunning connectionId
  | _ => True

theorem joinTask_keeps {log : List Happening} {t : ClientTracker} (h : Inv log t) (task : OutboundTask) :
    Inv (log ++ (t.joinTask task).2) (t.joinTask task).1 ∧
      (ClosedForOwnReason (log ++ (t.joinTask task).2) ↔ ClosedForOwnReason log ∧
        ∀ connectionId, t.connectionOf task.key = some connectionId → ¬t.IsRunning connectionId) := by
  have hdrop := h.move (dropTask_move t task)
  rw [append_nil] at hdrop
  rw [joinTask]
  rcases closeClient_cases (t.dropTask task) task.key with ⟨hnone, hclose⟩ | ⟨connectionId, hcl, hclose⟩
  · rw [dropTask] at hclose
    rw [hclose, append_nil]
    refine ⟨hdrop, ⟨fun hlog => ⟨hlog, ?_⟩, fun hlog => hlog.1⟩⟩
    intro c hc
    have hc' : (t.dropTask task).connectionOf task.key = some c := hc
    rw [hnone] at hc'
    cases hc'
  · rw [dropTask] at hclose
    rw [hclose, closedForOwnReason_snoc]
    refine ⟨hdrop.closed connectionId (removed_removeClient (t.dropTask task) task.key), ?_⟩
    have hiff : Justified log connectionId ↔ ¬t.IsRunning connectionId := h.justified_iff hcl
    refine and_congr_right fun _ => ⟨?_, ?_⟩
    · intro hl c hc
      obtain rfl : connectionId = c := Option.some.inj (hcl.symm.trans hc)
      exact hiff.mp (hl connectionId rfl)
    · intro hend c hc
      cases hc
      exact hiff.mpr (hend connectionId hcl)

theorem handle_keeps {log : List Happening} {r : Reader} (h : Inv log r.tracker) (event : Event M) :
    Inv (log ++ (handle host startsConnection r event).2) (handle host startsConnection r event).1.tracker ∧
      (ClosedForOwnReason (log ++ (handle host startsConnection r event).2) ↔
        ClosedForOwnReason log ∧ Conforms r event) := by
  have hmv : ∀ {entries t'}, Moves r.tracker entries t' → Inv (log ++ entries) t' ∧
      (ClosedForOwnReason (log ++ entries) ↔ ClosedForOwnReason log ∧ True) := by
    intro entries t' hm
    obtain ⟨hinv, hwhy⟩ := hm.keep h
    exact ⟨hinv, ⟨fun hlog => ⟨ClosedForOwnReason.of_append hlog, trivial⟩, fun hlog => hwhy hlog.1⟩⟩
  cases event with
  | inbound envelope wireSizeBytes c =>
    simp only [handle]
    obtain ⟨observation, websocket⟩ := r.websocket.observeClientMessage host envelope wireSizeBytes c.now
    cases observation with
    | forward forwarded => exact hmv (handleMessage_moves startsConnection r.tracker forwarded c)
    | pending | dropped => exact hmv (.refl r.tracker)
  | taskEnds connectionId => exact hmv (endTask_moves r.tracker connectionId)
  | taskJoined task close =>
    by_cases hend : task ∈ r.tracker.ended
    · obtain ⟨hinv, hiff⟩ := joinTask_keeps h task
      simp only [handle, Conforms, hend, if_true, true_implies]
      exact ⟨hinv, hiff⟩
    · simp only [handle, Conforms, hend, if_false, false_implies]
      exact hmv (.refl r.tracker)
  | taskJoinFailed task => exact hmv (.single (dropTask_move r.tracker task))
  | sweep now order close => exact hmv (closeExpired_moves r.tracker close _)
  | shutdown order => exact hmv (shutdown_moves r.tracker order)

/-- In any run, every close has a reason of the connection's own exactly when no task is joined while
another connection has its key and a running task. -/
theorem closed_for_own_reason_iff (events : List (Event M)) :
    ClosedForOwnReason (log host startsConnection events) ↔
      Run.AllSteps Conforms (step host startsConnection) {} events := by
  suffices h : Inv (log host startsConnection events) (run host startsConnection events).tracker ∧
      (ClosedForOwnReason (log host startsConnection events) ↔
        Run.AllSteps Conforms (step host startsConnection) {} events) from h.2
  induction events using reverseRecOn with
  | nil =>
    refine ⟨⟨?_, nodup_nil, ?_⟩, iff_of_true closedForOwnReason_nil trivial⟩
    · intro connectionId key h
      cases h
    · intro key connectionId h
      cases h
  | append_singleton events event ih =>
    obtain ⟨hinv, hiff⟩ := ih
    obtain ⟨hinv', hiff'⟩ := handle_keeps host startsConnection hinv event
    rw [log, Run.emit_snoc, run, foldl_concat, Run.allSteps_append]
    refine ⟨hinv', hiff'.trans ?_⟩
    rw [hiff]
    exact and_congr_right fun _ => (and_iff_left trivial).symm

def readInitialize (bytes : Bytes) : Option Unit :=
  if bytes = ClientSegmentReassembler.ascii "\x7b\"id\":0,\"method\":\"initialize\"\x7d" then some () else none

def initializeHost : SegmentHost Unit := ClientSegmentReassembler.base64Host readInitialize

def initializeTwice : List (Event Unit) :=
  let message : ClientEnvelope Unit := ⟨.clientMessage (), ['c'], some ['s'], none, none⟩
  let circumstances : Circumstances := ⟨0, ['r'], 0, .sent, .sent, .sent⟩
  [.inbound message 0 circumstances, .inbound message 0 circumstances,
    .taskEnds 0, .taskJoined ⟨(['c'], ['s']), 0⟩ .sent]

theorem log_initializeTwice :
    log initializeHost (fun _ => true) initializeTwice =
      [.initialized (['c'], ['s']), .opened 0 (['c'], ['s']), .initialized (['c'], ['s']), .closed 0,
        .opened 1 (['c'], ['s']), .taskEnded 0, .closed 1] := by
  decide +kernel

theorem old_task_closes_new_connection :
    ¬ClosedForOwnReason (log initializeHost (fun _ => true) initializeTwice) := by
  intro h
  rw [log_initializeTwice] at h
  obtain ⟨key, before, since, hlog, reason, hmem, hreason⟩ :=
    h [.initialized (['c'], ['s']), .opened 0 (['c'], ['s']), .initialized (['c'], ['s']), .closed 0,
      .opened 1 (['c'], ['s']), .taskEnded 0] 1 [] rfl
  have hopened : [Happening.initialized (['c'], ['s']),
      .opened 0 (['c'], ['s']), .initialized (['c'], ['s']), .closed 0,
      .opened 1 (['c'], ['s']), .taskEnded 0] =
      [.initialized (['c'], ['s']), .opened 0 (['c'], ['s']), .initialized (['c'], ['s']), .closed 0] ++
        .opened 1 (['c'], ['s']) :: [.taskEnded 0] := rfl
  obtain ⟨-, rfl⟩ := opened_unique (by decide) hopened hlog
  rw [mem_singleton.mp hmem] at hreason
  cases hreason

end Reader

end RemoteControl
