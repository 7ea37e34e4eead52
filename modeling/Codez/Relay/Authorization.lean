import Codez.Relay.Change

/-!
Only authorized handshakes become streams, over every interleaving of frames, results of checks and
notices of closed streams (`only_authorized_handshakes_become_streams`).

Two invariants carry it: `Sound` about the state alone (a stream id is not both pending and active, a
running check that names a pending handshake was started for it, ids are used once), and `Origin` about
a pending handshake and the events since its frame.
-/

namespace NoiseRelay

open List

open Function Table

namespace Environment

variable {M H : Type} (host : RelayHost M H) {c : Core H} {env : Environment M H} {id : Text} {event : Event}
  {frame : RelayMessageFrame} {kind : RelayFrameBodyKind} {v : Nat}

structure Sound (c : Core H) : Prop where
  disjoint : ∀ id p, c.pending.lookup id = some p → c.instances id = none
  count : c.count ≤ maxActiveNoiseRelayStreams
  pendingIds : ∀ id p, c.pending.lookup id = some p → p.validationId < c.next
  taskIds : ∀ t ∈ c.tasks, t.validationId < c.next
  distinct : ∀ id id' p p', c.pending.lookup id = some p → c.pending.lookup id' = some p' →
    p.validationId = p'.validationId → id = id'
  checks : ∀ t ∈ c.tasks, ∀ p, c.pending.lookup t.streamId = some p → p.validationId = t.validationId →
    t.harnessPublicKey = host.initiatorPublicKey p.handshake ∧ authorizationOf host p.handshake = some t.authorization

theorem Sound.shrink {c' : Core H} (h : Sound host c)
    (hpend : ∀ id p, c'.pending.lookup id = some p → c.pending.lookup id = some p ∧ c'.instances id = none)
    (htasks : ∀ t ∈ c'.tasks, t ∈ c.tasks) (hcnt : c'.count ≤ maxActiveNoiseRelayStreams) (hnext : c'.next = c.next) :
    Sound host c' where
  disjoint id p hp := (hpend id p hp).2
  count := hcnt
  pendingIds id p hp := by
    rw [hnext]
    exact h.pendingIds id p (hpend id p hp).1
  taskIds t ht := by
    rw [hnext]
    exact h.taskIds t (htasks t ht)
  distinct id id' p p' hp hp' := h.distinct id id' p p' (hpend id p hp).1 (hpend id' p' hp').1
  checks t ht p hp := h.checks t (htasks t ht) p (hpend _ p hp).1

theorem Sound.register (h : Sound host c) (id : Text) (handshake : H) (authorization : Text)
    (hid : c.instances id = none) (hauth : authorizationOf host handshake = some authorization) :
    Sound host { c with
      next := c.next + 1
      reads := c.reads + 1
      pending := c.pending.insert id ⟨c.next, handshake⟩
      tasks := c.tasks ++ [⟨id, c.next, host.initiatorPublicKey handshake, authorization⟩] } := by
  -- the new entry has the new id; the others are as before
  have hlk : ∀ id' p, (c.pending.insert id ⟨c.next, handshake⟩).lookup id' = some p →
      (id' = id ∧ p = ⟨c.next, handshake⟩) ∨ (id' ≠ id ∧ c.pending.lookup id' = some p) := by
    intro id' p hp
    rw [lookup_insert] at hp
    split at hp
    · next heq => exact .inl ⟨heq, (Option.some.inj hp).symm⟩
    · next hne => exact .inr ⟨hne, hp⟩
  constructor
  · intro id' p hp
    rcases hlk id' p hp with ⟨rfl, -⟩ | ⟨-, hp⟩
    · exact hid
    · exact h.disjoint id' p hp
  · exact h.count
  · intro id' p hp
    rcases hlk id' p hp with ⟨-, rfl⟩ | ⟨-, hp⟩
    · exact Nat.lt_succ_self _
    · exact Nat.lt_succ_of_lt (h.pendingIds id' p hp)
  · intro t ht
    rcases mem_append.mp ht with ht | ht
    · exact Nat.lt_succ_of_lt (h.taskIds t ht)
    · rw [mem_singleton.mp ht]
      exact Nat.lt_succ_self _
  · intro id₁ id₂ p₁ p₂ hp₁ hp₂ heq
    rcases hlk id₁ p₁ hp₁ with ⟨hid₁, rfl⟩ | ⟨-, hold₁⟩
    · rcases hlk id₂ p₂ hp₂ with ⟨hid₂, -⟩ | ⟨-, hold₂⟩
      · rw [hid₁, hid₂]
      · have := h.pendingIds id₂ p₂ hold₂
        simp only at heq
        omega
    · rcases hlk id₂ p₂ hp₂ with ⟨-, rfl⟩ | ⟨-, hold₂⟩
      · have := h.pendingIds id₁ p₁ hold₁
        simp only at heq
        omega
      · exact h.distinct id₁ id₂ p₁ p₂ hold₁ hold₂ heq
  · intro t ht p hp hv
    rcases mem_append.mp ht with ht | ht
    · rcases hlk t.streamId p hp with ⟨-, rfl⟩ | ⟨-, hp⟩
      · have := h.taskIds t ht
        simp only at hv
        omega
      · exact h.checks t ht p hp hv
    · obtain rfl := mem_singleton.mp ht
      rcases hlk id p hp with ⟨-, rfl⟩ | ⟨hne, -⟩
      · exact ⟨rfl, hauth⟩
      · exact absurd rfl hne

theorem instances_of_admits (h : env.admits id = true) : env.core.instances id = none := by
  by_contra hne
  exact ((env.admits_iff id).mp h).1 ((env.mem_streams_iff id).mpr hne)

theorem Sound.change (h : Sound host env.core) (hc : Change host env event c) : Sound host c := by
  cases hc with
  | keep running _ => exact h.shrink host (fun id p hp => ⟨hp, h.disjoint id p hp⟩) (fun _ ht => ht) h.count rfl
  | streamGone s count hcnt _ =>
    refine h.shrink host (fun id p hp => ⟨hp, ?_⟩) (fun _ ht => ht) (hcnt.trans h.count) rfl
    show update env.core.instances s none id = none
    rw [update_apply]
    split
    · rfl
    · exact h.disjoint id p hp
  | reset frame count hcnt _ =>
    refine h.shrink host (fun id p hp => ?_) (fun _ ht => ht) (hcnt.trans h.count) rfl
    obtain ⟨hne, hp⟩ := lookup_erase_eq_some _ hp
    exact ⟨hp, (update_of_ne hne _ _).trans (h.disjoint id p hp)⟩
  | cancel frame kind _ _ _ running _ =>
    refine h.shrink host (fun id p hp => ?_) (fun _ ht => ht) h.count rfl
    obtain ⟨-, hp⟩ := lookup_erase_eq_some _ hp
    exact ⟨hp, h.disjoint id p hp⟩
  | refuse frame _ _ running _ =>
    exact h.shrink host (fun id p hp => ⟨hp, h.disjoint id p hp⟩) (fun _ ht => ht) h.count rfl
  | register s handshake authorization hbrings hadmits =>
    obtain ⟨-, -, -, -, -, -, hauth⟩ := hbrings
    exact h.register host s handshake authorization (instances_of_admits hadmits) hauth
  | stale task result _ _ =>
    exact h.shrink host (fun id p hp => ⟨hp, h.disjoint id p hp⟩) (fun _ ht => mem_of_mem_erase ht) h.count rfl
  | reject task result pending _ _ _ _ running _ | overload task _ running =>
    refine h.shrink host (fun id p hp => ?_) (fun _ ht => mem_of_mem_erase ht) h.count rfl
    obtain ⟨-, hp⟩ := lookup_erase_eq_some _ hp
    exact ⟨hp, h.disjoint id p hp⟩
  | accept task pending _ _ _ _ hcnt count hsucc =>
    refine h.shrink host (fun id p hp => ?_) (fun _ ht => mem_of_mem_erase ht) (hsucc.trans hcnt) rfl
    obtain ⟨hne, hp⟩ := lookup_erase_eq_some _ hp
    exact ⟨hp, (update_of_ne hne _ _).trans (h.disjoint id p hp)⟩
  | taskFailed task _ _ =>
    refine h.shrink host (fun id p hp => ?_) (fun _ ht => mem_of_mem_erase ht) h.count rfl
    simp at hp

/-! ## Pending handshakes and the events since their frame -/

theorem Delivers.unique {frame' : RelayMessageFrame} {kind' : RelayFrameBodyKind} (h : Delivers host event frame kind)
    (h' : Delivers host event frame' kind') : frame = frame' ∧ kind = kind' := by
  obtain ⟨p, rfl, hdec, hkind⟩ := h
  obtain ⟨payload', hev, hdec', hkind'⟩ := h'
  cases hev
  rw [hdec] at hdec'
  cases hdec'
  rw [hkind] at hkind'
  cases hkind'
  exact ⟨rfl, rfl⟩

theorem Delivers.streamId_eq (h : Delivers host event frame kind) (htouches : Touches host event id) :
    id = frame.streamId := by
  obtain ⟨frame', kind', hframe', rfl, -⟩ := htouches
  rw [(h.unique host hframe').1]

theorem pending_change {p : PendingHandshake H} (hsound : Sound host env.core) (hc : Change host env event c)
    (hp : c.pending.lookup id = some p) :
    (env.core.pending.lookup id = some p ∧ ¬ Touches host event id) ∨
      ∃ authorization, Brings host env event id p.handshake authorization ∧ p.validationId = env.core.next := by
  have hspared : Spares host event env.core → env.core.pending.lookup id = some p → ¬ Touches host event id := by
    intro hspa hold htouches
    exact hspa id htouches ((mem_iff_lookup _).mpr ⟨p, hold⟩) (hsound.disjoint id p hold)
  have hval : ∀ task result, event = .validated task result → ¬ Touches host event id := by
    rintro task result rfl
    exact not_touches host (by simp) id
  cases hc with
  | keep running hspa | streamGone s count _ hspa => exact .inl ⟨hp, hspared hspa hp⟩
  | reset frame count _ hfr | cancel frame kind hfr _ _ running _ =>
    obtain ⟨hne, hold⟩ := lookup_erase_eq_some _ hp
    exact .inl ⟨hold, fun htouches => hne (hfr.streamId_eq host htouches)⟩
  | refuse frame hfr hadmits running _ =>
    refine Or.inl ⟨hp, fun htouches => ?_⟩
    rw [hfr.streamId_eq host htouches] at hp
    exact ((env.admits_iff _).mp hadmits).2.1 ((mem_iff_lookup _).mpr ⟨p, hp⟩)
  | register s handshake authorization hbrings hadmits =>
    have hp' : (env.core.pending.insert s ⟨env.core.next, handshake⟩).lookup id = some p := hp
    rw [lookup_insert] at hp'
    split at hp'
    · next heq =>
      cases hp'
      exact .inr ⟨authorization, heq ▸ hbrings, rfl⟩
    · next hne =>
      obtain ⟨frame, request, hfr, rfl, -⟩ := hbrings
      exact .inl ⟨hp', fun htouches => hne (hfr.streamId_eq host htouches)⟩
  | stale task result hev _ => exact .inl ⟨hp, hval task result hev⟩
  | reject task result pending hev _ _ _ running _ =>
    exact .inl ⟨(lookup_erase_eq_some _ hp).2, hval task result hev⟩
  | overload task hev running => exact .inl ⟨(lookup_erase_eq_some _ hp).2, hval task _ hev⟩
  | accept task pending hev _ _ _ _ count _ =>
    exact .inl ⟨(lookup_erase_eq_some _ hp).2, hval task _ hev⟩
  | taskFailed task _ _ =>
    have hp' : (∅ : AList (fun _ : Text => PendingHandshake H)).lookup id = some p := hp
    simp at hp'

def Inserts (env env' : Environment M H) (id : Text) (v : Nat) : Prop :=
  env'.instanceOf id = some v ∧ env.instanceOf id ≠ some v

theorem inserts_change (hc : Change host env event c) (haft : c.instances id = some v)
    (hpre : env.core.instances id ≠ some v) :
    ∃ task pending, event = .validated task (.ok ()) ∧ task ∈ env.core.tasks ∧ task.streamId = id ∧
      task.validationId = v ∧ env.core.pending.lookup id = some pending ∧ pending.validationId = v ∧
      c.pending = env.core.pending.erase id := by
  have hsame : ∀ {s : Text} {f : Text → Option Nat},
      update f s none id = some v → f id = some v := by
    intro s f h
    rw [update_apply] at h
    split at h
    · cases h
    · exact h
  cases hc with
  | accept task pending hev htask hpend hid _ count _ =>
    have h : update env.core.instances task.streamId (some task.validationId) id = some v := haft
    rw [update_apply] at h
    split at h
    · next heq =>
      subst heq
      cases h
      exact ⟨task, pending, hev, htask, rfl, rfl, hpend, hid, rfl⟩
    · exact absurd h hpre
  | streamGone s count _ _ | reset frame count _ _ => exact absurd (hsame haft) hpre
  | _ => exact absurd haft hpre

/-- A validation id that no pending handshake has and no later one will have. -/
def Spent (c : Core H) (v : Nat) : Prop := v < c.next ∧ ∀ id p, c.pending.lookup id = some p → p.validationId ≠ v

theorem next_le_of_change (hc : Change host env event c) : env.core.next ≤ c.next := by
  cases hc with
  | register => exact Nat.le_succ _
  | _ => exact le_rfl

theorem Spent.change (h : Spent env.core v) (hsound : Sound host env.core) (hc : Change host env event c) :
    Spent c v := by
  refine ⟨lt_of_lt_of_le h.1 (next_le_of_change host hc), ?_⟩
  intro id p hp
  rcases pending_change host hsound hc hp with ⟨hold, -⟩ | ⟨_, -, hv⟩
  · exact h.2 id p hold
  · have := h.1
    omega

theorem spent_of_inserts (hsound : Sound host env.core) (hch : Change host env event c)
    (haft : c.instances id = some v) (hpre : env.core.instances id ≠ some v) : Spent c v := by
  obtain ⟨task, pending, -, -, -, -, hpend, rfl, hc⟩ := inserts_change host hch haft hpre
  refine ⟨lt_of_lt_of_le (hsound.pendingIds id pending hpend) (next_le_of_change host hch), ?_⟩
  intro id' p hp heq
  rw [hc] at hp
  obtain ⟨hne, hold⟩ := lookup_erase_eq_some _ hp
  exact hne (hsound.distinct id' id p pending hold hpend heq)

section
variable (environmentId executorRegistrationId : Text)

/-- The frame that brought a pending handshake, and nothing for its stream id since. -/
def Origin (past : List Event) (id : Text) (p : PendingHandshake H) : Prop :=
  ∃ pre request mid authorization, past = pre ++ request :: mid ∧
    (run host environmentId executorRegistrationId pre).running = true ∧
    (run host environmentId executorRegistrationId pre).nextValidationId = p.validationId ∧
    Brings host (run host environmentId executorRegistrationId pre) request id p.handshake authorization ∧
    ∀ e ∈ mid, ¬ Touches host e id

structure Trace (past : List Event) (env : Environment M H) : Prop where
  sound : Sound host env.core
  origin : env.running = true → ∀ id p, env.core.pending.lookup id = some p →
    Origin host environmentId executorRegistrationId past id p
  spent : ∀ pre event post id v, past = pre ++ event :: post →
    Inserts (run host environmentId executorRegistrationId pre)
      ((run host environmentId executorRegistrationId pre).step host event) id v → Spent env.core v

theorem run_snoc (past : List Event) (event : Event) :
    run host environmentId executorRegistrationId (past ++ [event]) =
      (run host environmentId executorRegistrationId past).step host event :=
  foldl_append

theorem trace (past : List Event) :
    Trace host environmentId executorRegistrationId past (run host environmentId executorRegistrationId past) := by
  induction past using reverseRecOn with
  | nil =>
    refine ⟨⟨?_, Nat.zero_le _, ?_, ?_, ?_, ?_⟩, ?_, ?_⟩
    · intro id p hp
      rfl
    · intro id p hp
      cases hp
    · intro t ht
      cases ht
    · intro id id' p p' hp
      cases hp
    · intro t ht
      cases ht
    · intro _ id p hp
      cases hp
    · intro pre event post id v hspl
      simp at hspl
  | append_singleton past event ih =>
    rw [run_snoc]
    generalize henv : run host environmentId executorRegistrationId past = env at ih
    by_cases hr : env.running = true
    · have hch := step_change host env event hr
      refine ⟨ih.sound.change host hch, ?_, ?_⟩
      · intro _ id p hp
        rcases pending_change host ih.sound hch hp with ⟨hold, huntouched⟩ | ⟨authorization, hbrings, hv⟩
        · obtain ⟨pre, request, mid, authorization, rfl, hrun, hnext, hbrings, hmid⟩ := ih.origin hr id p hold
          refine ⟨pre, request, mid ++ [event], authorization, by simp, hrun, hnext, hbrings, ?_⟩
          intro e he
          rcases mem_append.mp he with he | he
          · exact hmid e he
          · rw [mem_singleton.mp he]
            exact huntouched
        · refine ⟨past, event, [], authorization, rfl, by rw [henv]; exact hr, ?_, by rw [henv]; exact hbrings,
            by simp⟩
          rw [henv, hv]
          rfl
      · intro pre event' post id v hspl hins
        rcases eq_nil_or_concat post with rfl | ⟨post, last, rfl⟩
        · -- the insertion is this step's
          obtain ⟨rfl, hev⟩ := append_inj' hspl rfl
          cases hev
          rw [henv] at hins
          exact spent_of_inserts host ih.sound hch hins.1 hins.2
        · rw [concat_eq_append, ← cons_append, ← append_assoc] at hspl
          obtain ⟨hpast, -⟩ := append_inj' hspl rfl
          exact (ih.spent pre event' post id v hpast hins).change host ih.sound hch
    · rw [step, if_neg hr]
      refine ⟨ih.sound, fun h => absurd h hr, ?_⟩
      intro pre event' post id v hspl hins
      rcases eq_nil_or_concat post with rfl | ⟨post, last, rfl⟩
      · obtain ⟨rfl, -⟩ := append_inj' hspl rfl
        rw [henv, step, if_neg hr] at hins
        exact absurd hins.1 hins.2
      · rw [concat_eq_append, ← cons_append, ← append_assoc] at hspl
        obtain ⟨hpast, -⟩ := append_inj' hspl rfl
        exact ih.spent pre event' post id v hpast hins

theorem streams_of_streamClosed (env : Environment M H) (closed : ClosedNoiseVirtualStream)
    (h : env.instanceOf closed.streamId ≠ some closed.instanceId) :
    (env.step host (.streamClosed closed)).streams = env.streams := by
  rw [instanceOf] at h
  by_cases hrun : env.running = true
  · rw [step, if_pos hrun, handle, handleStreamClosed, if_neg h]
  · rw [step, if_neg hrun]

/-- **Authorization.**  After any events:
* a stream that the next event opens was asked for by a handshake frame, the validator accepted the key
  and the authorization of that very handshake, and nothing has come for its stream id in between;
* no stream id is both pending and active, and the number of streams is bounded;
* no instance id is used twice, and a notice of an instance that is not the current one removes nothing. -/
theorem only_authorized_handshakes_become_streams (events : List Event) :
    let env := run host environmentId executorRegistrationId events
    (∀ event id v, Inserts env (env.step host event) id v →
      ∃ pre request mid handshake authorization, events = pre ++ request :: mid ∧
        (run host environmentId executorRegistrationId pre).running = true ∧
        (run host environmentId executorRegistrationId pre).nextValidationId = v ∧
        Brings host (run host environmentId executorRegistrationId pre) request id handshake authorization ∧
        event = .validated ⟨id, v, host.initiatorPublicKey handshake, authorization⟩ (.ok ()) ∧
        ∀ e ∈ mid, ¬ Touches host e id) ∧
    (∀ id, ¬ (id ∈ env.pendingHandshakes ∧ id ∈ env.streams)) ∧
    env.streams.keys.length ≤ maxActiveNoiseRelayStreams ∧
    (∀ pre event post id old, events = pre ++ event :: post →
      Inserts (run host environmentId executorRegistrationId pre)
        ((run host environmentId executorRegistrationId pre).step host event) id old →
      (∀ event' id' v, Inserts env (env.step host event') id' v → v ≠ old) ∧
      (env.instanceOf id ≠ some old → (env.step host (.streamClosed ⟨id, old⟩)).streams = env.streams)) := by
  intro env
  have htrace : Trace host environmentId executorRegistrationId events env :=
    trace host environmentId executorRegistrationId events
  have hopened : ∀ event id v, Inserts env (env.step host event) id v → env.running = true := by
    intro event id v hinserts
    by_contra hrunning
    rw [step, if_neg hrunning] at hinserts
    exact hinserts.2 hinserts.1
  refine ⟨?_, ?_, htrace.sound.count, ?_⟩
  · intro event id v hinserts
    have hrunning := hopened event id v hinserts
    obtain ⟨task, pending, rfl, htask, rfl, rfl, hpending, hid, -⟩ :=
      inserts_change host (step_change host env event hrunning) hinserts.1 hinserts.2
    obtain ⟨hkey, hauth⟩ := htrace.sound.checks task htask pending hpending hid
    obtain ⟨pre, request, mid, authorization, hsplit, hrun, hnext, hbrings, hmid⟩ :=
      htrace.origin hrunning _ pending hpending
    refine ⟨pre, request, mid, pending.handshake, task.authorization, hsplit, hrun, by rw [hnext, hid], ?_, ?_, hmid⟩
    · obtain ⟨frame, payload, hframe, hstream, hpayload, hread, -⟩ := hbrings
      exact ⟨frame, payload, hframe, hstream, hpayload, hread, hauth⟩
    · rw [← hkey]
  · rintro id ⟨hpending, hstream⟩
    obtain ⟨p, hp⟩ := (Table.mem_iff_lookup _).mp hpending
    exact (env.mem_streams_iff id).mp hstream (htrace.sound.disjoint id p hp)
  · intro pre event post id old hsplit hinserts
    have hspent := htrace.spent pre event post id old hsplit hinserts
    refine ⟨?_, streams_of_streamClosed host env ⟨id, old⟩⟩
    intro event' id' v hinserts' hv
    obtain ⟨task, pending, -, -, -, -, hpending, hid, -⟩ :=
      inserts_change host (step_change host env event' (hopened event' id' v hinserts')) hinserts'.1 hinserts'.2
    exact hspent.2 id' pending hpending (hid.trans hv)

end

end Environment

end NoiseRelay
