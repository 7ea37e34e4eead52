import Codez.Lib.Table
import Codez.Relay.Environment

/-!
What a step of the executor's loop can do to the streams, the pending handshakes, the running checks
and the counters (`Change`), said once (`Environment.step_change`).

`Core` is the part of the state this is about; sending on the physical connection and moving a stream
on leave it alone.
-/

namespace NoiseRelay

namespace Environment

variable {M H : Type} (host : RelayHost M H) {frame : RelayMessageFrame} (env : Environment M H) {event : Event}
  {kind : RelayFrameBodyKind}

def instanceOf (env : Environment M H) (streamId : Text) : Option Nat :=
  (env.streams.lookup streamId).map (·.stream.instanceId)

structure Core (H : Type) where
  instances : Text → Option Nat
  count : Nat
  pending : AList (fun _ : Text => PendingHandshake H)
  tasks : List ValidationTask
  failed : Nat
  next : Nat
  reads : Nat
  running : Bool

def core (env : Environment M H) : Core H where
  instances := env.instanceOf
  count := env.streams.keys.length
  pending := env.pendingHandshakes
  tasks := env.validationTasks
  failed := env.failedHandshakes
  next := env.nextValidationId
  reads := env.requestsRead
  running := env.running

def Delivers (event : Event) (frame : RelayMessageFrame) (kind : RelayFrameBodyKind) : Prop :=
  ∃ payload, event = .incoming (.binary payload) ∧ host.decodeRelayMessageFrame payload = some frame ∧
    frame.validate = .ok kind

def Touches (event : Event) (streamId : Text) : Prop :=
  ∃ frame kind, Delivers host event frame kind ∧ frame.streamId = streamId ∧
    (kind = .handshake ∨ kind = .data ∨ kind = .reset)

def Spares (event : Event) (c : Core H) : Prop :=
  ∀ streamId, Touches host event streamId → streamId ∈ c.pending → c.instances streamId ≠ none

def Brings (env : Environment M H) (event : Event) (streamId : Text) (handshake : H) (authorization : Text) : Prop :=
  ∃ frame request, Delivers host event frame .handshake ∧ frame.streamId = streamId ∧
    frame.intoHandshakePayload = .ok request ∧
    readRequest host (noiseChannelPrologue env.environmentId env.executorRegistrationId streamId) request =
      .ok handshake ∧
    authorizationOf host handshake = some authorization

inductive Change (env : Environment M H) (event : Event) : Core H → Prop
  /-- Nothing, or the end of the loop. -/
  | keep (running : Bool) (hspares : Spares host event env.core) : Change env event { env.core with running }
  | streamGone (streamId : Text) (count : Nat) (hcount : count ≤ env.core.count)
      (hspares : Spares host event env.core) :
      Change env event { env.core with instances := Function.update env.core.instances streamId none, count }
  | reset (frame : RelayMessageFrame) (count : Nat) (hcount : count ≤ env.core.count)
      (hframe : Delivers host event frame .reset) :
      Change env event { env.core with
        instances := Function.update env.core.instances frame.streamId none
        count
        pending := env.core.pending.erase frame.streamId }
  /-- A second handshake, or data before its stream is there. -/
  | cancel (frame : RelayMessageFrame) (kind : RelayFrameBodyKind) (hframe : Delivers host event frame kind)
      (hkind : kind = .handshake ∨ kind = .data) (hpending : frame.streamId ∈ env.core.pending) (running : Bool)
      (hrunning : running = true → env.core.failed + 1 < maxFailedNoiseHandshakes) :
      Change env event { env.core with
        pending := env.core.pending.erase frame.streamId
        failed := env.core.failed + 1
        running }
  /-- A handshake that cannot be read. -/
  | refuse (frame : RelayMessageFrame) (hframe : Delivers host event frame .handshake)
      (hadmits : env.admits frame.streamId = true) (running : Bool)
      (hrunning : running = true → env.core.failed + 1 < maxFailedNoiseHandshakes) :
      Change env event { env.core with
        failed := env.core.failed + 1
        reads := env.core.reads + 1
        running }
  | register (streamId : Text) (handshake : H) (authorization : Text)
      (hbrings : Brings host env event streamId handshake authorization)
      (hadmits : env.admits streamId = true) :
      Change env event { env.core with
        next := env.core.next + 1
        reads := env.core.reads + 1
        pending := env.core.pending.insert streamId ⟨env.core.next, handshake⟩
        tasks := env.core.tasks ++
          [⟨streamId, env.core.next, host.initiatorPublicKey handshake, authorization⟩] }
  /-- The handshake of a check is no longer pending. -/
  | stale (task : ValidationTask) (result : Except ExecServerError Unit) (hevent : event = .validated task result)
      (hstale : ∀ pending, env.core.pending.lookup task.streamId = some pending →
        pending.validationId ≠ task.validationId) :
      Change env event { env.core with tasks := env.core.tasks.erase task }
  | reject (task : ValidationTask) (result : Except ExecServerError Unit) (pending : PendingHandshake H)
      (hevent : event = .validated task result) (htask : task ∈ env.core.tasks)
      (hpending : env.core.pending.lookup task.streamId = some pending)
      (hid : pending.validationId = task.validationId) (running : Bool)
      (hrunning : running = true → env.core.failed + 1 < maxFailedNoiseHandshakes) :
      Change env event { env.core with
        tasks := env.core.tasks.erase task
        pending := env.core.pending.erase task.streamId
        failed := env.core.failed + 1
        running }
  /-- The check says yes, but there is no room for the stream or for the reply. -/
  | overload (task : ValidationTask) (hevent : event = .validated task (.ok ())) (running : Bool) :
      Change env event { env.core with
        tasks := env.core.tasks.erase task
        pending := env.core.pending.erase task.streamId
        running }
  | accept (task : ValidationTask) (pending : PendingHandshake H) (hevent : event = .validated task (.ok ()))
      (htask : task ∈ env.core.tasks) (hpending : env.core.pending.lookup task.streamId = some pending)
      (hid : pending.validationId = task.validationId) (hcount : env.core.count < maxActiveNoiseRelayStreams)
      (count : Nat) (hsucc : count ≤ env.core.count + 1) :
      Change env event { env.core with
        tasks := env.core.tasks.erase task
        pending := env.core.pending.erase task.streamId
        instances := Function.update env.core.instances task.streamId (some task.validationId)
        count }
  | taskFailed (task : ValidationTask) (hevent : event = .taskFailed task) (htask : task ∈ env.core.tasks) :
      Change env event { env.core with tasks := env.core.tasks.erase task, pending := ∅ }

theorem core_trySend {env env' : Environment M H} (h : env.trySend frame = some env') :
    env'.core = env.core ∧ env'.streams = env.streams := by
  obtain ⟨physicalOutgoing, -, rfl⟩ := Option.map_eq_some_iff.mp h
  exact ⟨rfl, rfl⟩

@[simp] theorem core_sendReset (s : Text) : (env.sendReset s).core = env.core := by
  unfold sendReset
  cases h : env.trySend (.reset s noiseRelayResetReason) with
  | none => rfl
  | some env' => exact (core_trySend h).1

theorem core_chargeFailure :
    ∃ running, env.chargeFailure.core = { env.core with failed := env.core.failed + 1, running } ∧
      (running = true → env.core.failed + 1 < maxFailedNoiseHandshakes) := by
  refine ⟨_, rfl, ?_⟩
  intro h
  have hbudget := ((Bool.and_eq_true _ _).mp h).2
  rw [Bool.not_eq_true', decide_eq_false_iff_not] at hbudget
  exact Nat.lt_of_not_le hbudget

theorem core_sendReset_chargeFailure (s : Text) :
    ∃ running, (env.sendReset s).chargeFailure.core = { env.core with failed := env.core.failed + 1, running } ∧
      (running = true → env.core.failed + 1 < maxFailedNoiseHandshakes) := by
  have h := core_chargeFailure (env.sendReset s)
  rwa [core_sendReset] at h

theorem core_eraseStream (s : Text) :
    { env with streams := env.streams.erase s }.core = { env.core with
        instances := Function.update env.core.instances s none
        count := (env.streams.erase s).keys.length } := by
  have hinstances : ∀ id, ((env.streams.erase s).lookup id).map (·.stream.instanceId) =
      Function.update env.instanceOf s none id := by
    intro id
    rw [Table.lookup_erase, Function.update_apply, instanceOf]
    split <;> rfl
  rw [core, core]
  congr 1
  exact funext hinstances

theorem core_insertStream (s : Text) (active : ActiveStream M) :
    { env with streams := env.streams.insert s active }.core = { env.core with
        instances := Function.update env.core.instances s (some active.stream.instanceId)
        count := (env.streams.insert s active).keys.length } := by
  have hinstances : ∀ id, ((env.streams.insert s active).lookup id).map (·.stream.instanceId) =
      Function.update env.instanceOf s (some active.stream.instanceId) id := by
    intro id
    rw [Table.lookup_insert, Function.update_apply, instanceOf]
    split <;> rfl
  rw [core, core]
  congr 1
  exact funext hinstances

theorem core_replaceStream (s : Text) (active : ActiveStream M)
    (stream : NoiseVirtualStream M) (h : env.streams.lookup s = some active)
    (hid : stream.instanceId = active.stream.instanceId) :
    { env with streams := env.streams.insert s { active with stream } }.core = env.core := by
  have hmem : s ∈ env.streams := AList.lookup_isSome.mp (by rw [h]; rfl)
  have hinstance : env.core.instances s = some stream.instanceId := by
    show (env.streams.lookup s).map (·.stream.instanceId) = _
    rw [h, hid]
    rfl
  rw [core_insertStream, Table.length_keys_insert_of_mem _ _ hmem]
  show { env.core with instances := Function.update env.core.instances s (some stream.instanceId) } = env.core
  rw [← hinstance, Function.update_eq_self]

theorem not_touches (h : ∀ p, event ≠ .incoming (.binary p)) (s : Text) :
    ¬ Touches host event s := by
  rintro ⟨frame, kind, ⟨p, hev, -, -⟩, -, -⟩
  exact h p hev

theorem spares_of_not_incoming (h : ∀ p, event ≠ .incoming (.binary p)) (c : Core H) :
    Spares host event c := by
  intro s htouches
  exact absurd htouches (not_touches host h s)

theorem spares_of_frame {c : Core H} (hfr : Delivers host event frame kind)
    (h : frame.streamId ∈ c.pending → c.instances frame.streamId ≠ none) : Spares host event c := by
  rintro s ⟨frame', kind', ⟨payload', hevent', hdec', -⟩, rfl, -⟩
  obtain ⟨p, hev, hdec, -⟩ := hfr
  rw [hev] at hevent'
  cases hevent'
  rw [hdec] at hdec'
  cases hdec'
  exact h

section
variable (env : Environment M H)

theorem change_keep (hspa : Spares host event env.core) : Change host env event env.core :=
  Change.keep env.core.running hspa

theorem change_handleStreamClosed (closed : ClosedNoiseVirtualStream) :
    Change host env (.streamClosed closed) (env.handleStreamClosed closed).core := by
  have hspa : Spares host (.streamClosed closed) env.core :=
    spares_of_not_incoming host (by simp) env.core
  unfold handleStreamClosed
  split
  · rw [core_eraseStream]
    exact Change.streamGone closed.streamId _ (Table.length_keys_erase_le _ _) hspa
  · exact change_keep host env hspa

theorem change_reject (task : ValidationTask) (result : Except ExecServerError Unit) {pending : PendingHandshake H}
    (htask : task ∈ env.validationTasks) (hpend : env.pendingHandshakes.lookup task.streamId = some pending)
    (hid : pending.validationId = task.validationId) :
    Change host env (.validated task result) (chargeFailure (sendReset
      { env with
        validationTasks := env.validationTasks.erase task
        pendingHandshakes := env.pendingHandshakes.erase task.streamId } task.streamId)).core := by
  obtain ⟨running, hcore, hrun⟩ := core_sendReset_chargeFailure
    { env with
      validationTasks := env.validationTasks.erase task
      pendingHandshakes := env.pendingHandshakes.erase task.streamId } task.streamId
  rw [hcore]
  exact Change.reject task _ pending rfl htask hpend hid running hrun

theorem change_handleValidated (task : ValidationTask) (result : Except ExecServerError Unit)
    (htask : task ∈ env.validationTasks) :
    Change host env (.validated task result) (env.handleValidated host task result).core := by
  unfold handleValidated
  cases hpend : env.pendingHandshakes.lookup task.streamId with
  | none =>
    simp only [hpend]
    refine Change.stale task result rfl fun pending h => ?_
    exact absurd (hpend.symm.trans h) (by simp)
  | some pending =>
    simp only [hpend]
    by_cases hid : pending.validationId = task.validationId
    · rw [if_pos hid]
      unfold finishHandshake
      cases result with
      | error e => exact change_reject host env task _ htask hpend hid
      | ok u =>
        by_cases hfull : maxActiveNoiseRelayStreams ≤ env.streams.keys.length
        · simp only [hfull, if_true]
          rw [core_sendReset]
          exact Change.overload task rfl env.running
        · simp only [hfull, if_false]
          cases hcpl : host.complete pending.handshake with
          | error e => exact change_reject host env task _ htask hpend hid
          | ok completed =>
            obtain ⟨ct, response⟩ := completed
            simp only
            cases hsend : trySend
              { env with
                validationTasks := env.validationTasks.erase task
                pendingHandshakes := env.pendingHandshakes.erase task.streamId }
              (.handshake task.streamId response) with
            | none => exact Change.overload task rfl false
            | some env' =>
              obtain ⟨hcore, hstreams⟩ := core_trySend hsend
              simp only
              rw [core_insertStream, hcore, hstreams]
              exact Change.accept task pending rfl htask hpend hid (Nat.lt_of_not_le hfull) _
                (Table.length_keys_insert_le _ _ _)
    · rw [if_neg hid]
      refine Change.stale task result rfl fun pending' h => ?_
      rw [show env.core.pending = env.pendingHandshakes from rfl, hpend] at h
      cases h
      exact hid

theorem core_foldl_sendReset (ids : List Text) (env : Environment M H) : (ids.foldl sendReset env).core = env.core := by
  induction ids generalizing env with
  | nil => rfl
  | cons id rest ih => rw [List.foldl_cons, ih, core_sendReset]

theorem change_handleTaskFailed (task : ValidationTask) (htask : task ∈ env.validationTasks) :
    Change host env (.taskFailed task) (env.handleTaskFailed task).core := by
  rw [handleTaskFailed, core_foldl_sendReset]
  exact Change.taskFailed task rfl htask

theorem admits_iff (s : Text) :
    env.admits s = true ↔ s ∉ env.streams ∧ s ∉ env.pendingHandshakes ∧
      env.streams.keys.length < maxActiveNoiseRelayStreams ∧
      env.validationTasks.length < maxPendingHandshakeValidations := by
  simp [admits, and_assoc]

theorem change_readHandshake {request : Bytes} (hfr : Delivers host event frame .handshake)
    (hadmits : env.admits frame.streamId = true) (hrequest : frame.intoHandshakePayload = .ok request) :
    Change host env event (env.readHandshake host frame.streamId request).core := by
  have hrefuse : Change host env event
      (({ env with requestsRead := env.requestsRead + 1 }.sendReset frame.streamId).chargeFailure).core := by
    obtain ⟨running, hcore, hrun⟩ :=
      core_sendReset_chargeFailure { env with requestsRead := env.requestsRead + 1 } frame.streamId
    rw [hcore]
    exact Change.refuse frame hfr hadmits running hrun
  unfold readHandshake
  simp only
  cases hread : readRequest host
    (noiseChannelPrologue env.environmentId env.executorRegistrationId frame.streamId) request with
  | error e => exact hrefuse
  | ok handshake =>
    cases hauth : authorizationOf host handshake with
    | none => simpa only [hauth] using hrefuse
    | some authorization =>
      simp only [hauth]
      exact Change.register frame.streamId handshake authorization
        ⟨frame, request, hfr, rfl, hrequest, hread, hauth⟩ hadmits

theorem change_cancel (hfr : Delivers host event frame kind) (hkind : kind = .handshake ∨ kind = .data)
    (hpend : frame.streamId ∈ env.pendingHandshakes) :
    Change host env event
      (({ env with pendingHandshakes := env.pendingHandshakes.erase frame.streamId }.sendReset
        frame.streamId).chargeFailure).core := by
  obtain ⟨running, hcore, hrun⟩ := core_sendReset_chargeFailure
    { env with pendingHandshakes := env.pendingHandshakes.erase frame.streamId } frame.streamId
  rw [hcore]
  exact Change.cancel frame kind hfr hkind hpend running hrun

theorem mem_streams_iff (s : Text) : s ∈ env.streams ↔ env.core.instances s ≠ none := by
  rw [← AList.lookup_isSome]
  show _ ↔ (env.streams.lookup s).map (·.stream.instanceId) ≠ none
  cases env.streams.lookup s <;> simp

theorem change_handleHandshake (hfr : Delivers host event frame .handshake) :
    Change host env event (env.handleHandshake host frame).core := by
  unfold handleHandshake
  by_cases ha : frame.streamId ∈ env.streams
  · rw [if_pos ha, core_sendReset]
    exact change_keep host env (spares_of_frame host hfr fun _ => (env.mem_streams_iff _).mp ha)
  rw [if_neg ha]
  by_cases hpend : frame.streamId ∈ env.pendingHandshakes
  · rw [if_pos hpend]
    exact change_cancel host env hfr (.inl rfl) hpend
  rw [if_neg hpend]
  have hkeep : Change host env event (env.sendReset frame.streamId).core := by
    rw [core_sendReset]
    exact change_keep host env (spares_of_frame host hfr fun h => absurd h hpend)
  by_cases hstreams : maxActiveNoiseRelayStreams ≤ env.streams.keys.length
  · rw [if_pos hstreams]
    exact hkeep
  rw [if_neg hstreams]
  by_cases htasks : maxPendingHandshakeValidations ≤ env.validationTasks.length
  · rw [if_pos htasks]
    exact hkeep
  rw [if_neg htasks]
  cases hrequest : frame.intoHandshakePayload with
  | error e => exact hkeep
  | ok request =>
    exact change_readHandshake host env hfr
      ((env.admits_iff _).mpr ⟨ha, hpend, by omega, by omega⟩) hrequest

theorem change_handleData (hfr : Delivers host event frame .data) :
    Change host env event (env.handleData host frame).core := by
  unfold handleData
  cases hl : env.streams.lookup frame.streamId with
  | none =>
    simp only
    by_cases hpend : frame.streamId ∈ env.pendingHandshakes
    · rw [if_pos hpend]
      exact change_cancel host env hfr (.inr rfl) hpend
    · rw [if_neg hpend, core_sendReset]
      exact change_keep host env (spares_of_frame host hfr fun h => absurd h hpend)
  | some active =>
    have hspa : Spares host event env.core := by
      refine spares_of_frame host hfr fun _ => (env.mem_streams_iff _).mp ?_
      exact AList.lookup_isSome.mp (by rw [hl]; rfl)
    have hgone : Change host env event
        ({ env with streams := env.streams.erase frame.streamId }.sendReset frame.streamId).core := by
      rw [core_sendReset, core_eraseStream]
      exact Change.streamGone frame.streamId _ (Table.length_keys_erase_le _ _) hspa
    simp only
    cases hdata : frame.intoData with
    | error e => exact hgone
    | ok data =>
      simp only [receiveData]
      cases hreceive : active.stream.receiveData host.json active.cipher data with
      | error e stream => exact hgone
      | ok u stream =>
        simp only
        rw [core_replaceStream _ _ _ _ hl]
        · exact change_keep host env hspa
        · exact (NoiseVirtualStream.after_receiveData_instanceId host.json active.cipher data active.stream).of_ok
            hreceive

theorem change_handleReset (hfr : Delivers host event frame .reset) :
    Change host env event (env.handleReset frame).core := by
  show Change host env event { { env with
    pendingHandshakes := env.pendingHandshakes.erase frame.streamId } with
    streams := env.streams.erase frame.streamId }.core
  rw [core_eraseStream]
  exact Change.reset frame _ (Table.length_keys_erase_le _ _) hfr

theorem change_handleMessage (message : WebSocketMessage) :
    Change host env (.incoming message) (env.handleMessage host message).core := by
  have hoth : (∀ p, message ≠ .binary p) → Spares host (.incoming message) env.core :=
    fun h => spares_of_not_incoming host (by simpa using h) env.core
  cases message with
  | text | pingPongOrFrame => exact change_keep host env (hoth (by simp))
  | close | error | ended => exact Change.keep false (hoth (by simp))
  | binary p =>
    cases hdec : host.decodeRelayMessageFrame p with
    | none =>
      simp only [handleMessage, hdec]
      refine change_keep host env ?_
      rintro s ⟨frame, kind, ⟨payload', hev, hdec', -⟩, -, -⟩
      cases hev
      simp [hdec] at hdec'
    | some frame =>
      simp only [handleMessage, hdec, handleFrame]
      cases hkind : frame.validate with
      | error e =>
        refine change_keep host env ?_
        rintro s ⟨frame', kind, ⟨payload', hev, hdec', hkind'⟩, -, -⟩
        cases hev
        rw [hdec] at hdec'
        cases hdec'
        simp [hkind] at hkind'
      | ok kind =>
        have hfr : Delivers host (.incoming (.binary p)) frame kind := ⟨p, rfl, hdec, hkind⟩
        -- the other kinds touch no stream
        have hquiet : kind ≠ .handshake → kind ≠ .data → kind ≠ .reset →
            Change host env (.incoming (.binary p)) env.core := by
          intro h₁ h₂ h₃
          refine change_keep host env ?_
          rintro s ⟨frame', kind', ⟨payload', hev, hdec', hkind'⟩, -, htouch⟩
          cases hev
          rw [hdec] at hdec'
          cases hdec'
          rw [hkind] at hkind'
          cases hkind'
          simp [h₁, h₂, h₃] at htouch
        cases kind with
        | handshake => exact change_handleHandshake host env hfr
        | data => exact change_handleData host env hfr
        | reset => exact change_handleReset host env hfr
        | ack | resume | heartbeat => exact hquiet (by simp) (by simp) (by simp)

theorem core_onStream (sid : Text) (f : NoiseVirtualStream M → NoiseVirtualStream M)
    (hf : ∀ s, (f s).instanceId = s.instanceId) : (env.onStream sid f).core = env.core := by
  unfold onStream
  cases h : env.streams.lookup sid with
  | none => rfl
  | some active => exact core_replaceStream env sid active _ h (hf active.stream)

theorem step_change (event : Event) (hrun : env.running = true) :
    Change host env event (env.step host event).core := by
  rw [step, if_pos hrun]
  have hkeep : (∀ p, event ≠ .incoming (.binary p)) → Change host env event env.core :=
    fun h => change_keep host env (spares_of_not_incoming host h env.core)
  cases event with
  | writerEnded => exact Change.keep false (spares_of_not_incoming host (by simp) env.core)
  | streamClosed closed => exact change_handleStreamClosed host env closed
  | validated task result =>
    by_cases htask : task ∈ env.validationTasks
    · rw [handle, if_pos htask]
      exact change_handleValidated host env task result htask
    · rw [handle, if_neg htask]
      exact hkeep (by simp)
  | taskFailed task =>
    by_cases htask : task ∈ env.validationTasks
    · rw [handle, if_pos htask]
      exact change_handleTaskFailed host env task htask
    · rw [handle, if_neg htask]
      exact hkeep (by simp)
  | incoming message => exact change_handleMessage host env message
  | transmitted => exact hkeep (by simp)
  | streamWrote frame =>
    cases hsend : env.trySend frame with
    | none =>
      rw [handle, hsend]
      exact hkeep (by simp)
    | some env' =>
      rw [handle, hsend, Option.getD_some, (core_trySend hsend).1]
      exact hkeep (by simp)
  | consumed s | abandoned s =>
    rw [handle, core_onStream env s _ (by intro; rfl)]
    exact hkeep (by simp)

end

end Environment

end NoiseRelay
