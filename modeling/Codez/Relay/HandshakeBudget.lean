import Codez.Relay.Change
import Codez.Relay.Delivery

/-!
How many handshake requests a peer can have parsed whose keys the validator all rejects.

Every request that is read is charged to the failure budget or pending, and every pending handshake
that goes away is charged, except when a reset frame or a failed task takes it.
-/

namespace NoiseRelay

open List

open Table

namespace Environment

variable {M H : Type} (host : RelayHost M H) {c : Core H} {env : Environment M H} {event : Event}

def Rejected (event : Event) : Prop := ∀ task, event ≠ .validated task (.ok ())

def Charged (env : Environment M H) (event : Event) : Prop :=
  (∀ frame, Delivers host event frame .reset → frame.streamId ∉ env.pendingHandshakes) ∧
    ∀ task ∈ env.validationTasks, event = .taskFailed task → env.pendingHandshakes = ∅

/-- Every request read so far is charged or pending, and every pending handshake has its check. -/
structure Budgeted (c : Core H) : Prop where
  reads : c.reads ≤ c.failed + c.pending.keys.length
  failed : c.failed ≤ maxFailedNoiseHandshakes
  running : c.running = true → c.failed < maxFailedNoiseHandshakes
  tasks : c.tasks.length ≤ maxPendingHandshakeValidations
  covered : ∀ id p, c.pending.lookup id = some p →
    ∃ t ∈ c.tasks, t.streamId = id ∧ t.validationId = p.validationId

theorem Budgeted.pending_le (h : Budgeted c) : c.pending.keys.length ≤ c.tasks.length := by
  have hsubset : c.pending.keys ⊆ c.tasks.map (·.streamId) := by
    intro id hid
    obtain ⟨p, hp⟩ := (mem_iff_lookup c.pending).mp (AList.mem_keys.mpr hid)
    obtain ⟨t, ht, hstr, -⟩ := h.covered id p hp
    exact mem_map.mpr ⟨t, ht, hstr⟩
  have hle := (subperm_of_subset c.pending.keys_nodup hsubset).length_le
  rwa [length_map] at hle

theorem Budgeted.reads_le (h : Budgeted c) :
    c.reads ≤ maxFailedNoiseHandshakes + maxPendingHandshakeValidations := by
  have := h.reads
  have := h.failed
  have := h.pending_le
  have := h.tasks
  omega

theorem covered_erase {task : ValidationTask} {id : Text} {p : PendingHandshake H} (h : Budgeted c)
    (hp : c.pending.lookup id = some p) (hne : task.streamId = id → task.validationId ≠ p.validationId) :
    ∃ t ∈ c.tasks.erase task, t.streamId = id ∧ t.validationId = p.validationId := by
  obtain ⟨t, ht, hstr, hid⟩ := h.covered id p hp
  refine ⟨t, (mem_erase_of_ne ?_).mpr ht, hstr, hid⟩
  rintro rfl
  exact hne hstr hid

theorem Budgeted.change (h : Budgeted env.core) (hr : env.running = true) (hrejected : Rejected event)
    (hcharged : Charged host env event) (hc : Change host env event c) : Budgeted c := by
  have hfailed : env.core.failed < maxFailedNoiseHandshakes := h.running hr
  cases hc with
  | keep running _ => exact ⟨h.reads, h.failed, fun _ => hfailed, h.tasks, h.covered⟩
  | streamGone s count _ _ => exact ⟨h.reads, h.failed, h.running, h.tasks, h.covered⟩
  | reset frame count _ hfr =>
    have hsame : env.core.pending.erase frame.streamId = env.core.pending :=
      erase_of_notMem _ (hcharged.1 frame hfr)
    rw [hsame]
    exact ⟨h.reads, h.failed, h.running, h.tasks, h.covered⟩
  | cancel frame kind _ _ hpend running hrun =>
    have hcnt := length_keys_erase_of_mem _ hpend
    have hreads := h.reads
    refine ⟨?_, hfailed, hrun, h.tasks, ?_⟩
    · show env.core.reads ≤ env.core.failed + 1 + (env.core.pending.erase frame.streamId).keys.length
      omega
    · intro id p hp
      exact h.covered id p (lookup_erase_eq_some _ hp).2
  | refuse frame _ _ running hrun =>
    have hreads := h.reads
    refine ⟨?_, hfailed, hrun, h.tasks, h.covered⟩
    show env.core.reads + 1 ≤ env.core.failed + 1 + env.core.pending.keys.length
    omega
  | register s handshake authorization _ hadmits =>
    obtain ⟨-, hnotPending, -, htasks⟩ := (env.admits_iff s).mp hadmits
    have hreads := h.reads
    have hcnt := length_keys_insert_of_notMem env.core.pending (⟨env.core.next, handshake⟩ : PendingHandshake H)
      hnotPending
    refine ⟨?_, h.failed, h.running, ?_, ?_⟩
    · show env.core.reads + 1 ≤ env.core.failed + (env.core.pending.insert s _).keys.length
      rw [hcnt]
      omega
    · show (env.core.tasks ++ [_]).length ≤ _
      rw [length_append, length_singleton]
      exact htasks
    · intro id p hp
      have hp' : (env.core.pending.insert s ⟨env.core.next, handshake⟩).lookup id = some p := hp
      rw [lookup_insert] at hp'
      split at hp'
      · next heq =>
        cases hp'
        exact ⟨_, mem_append_right _ (mem_singleton_self _), heq.symm, rfl⟩
      · obtain ⟨t, ht, hstr, hid⟩ := h.covered id p hp'
        exact ⟨t, mem_append_left _ ht, hstr, hid⟩
  | stale task result _ hstale =>
    refine ⟨h.reads, h.failed, h.running, length_erase_le.trans h.tasks, ?_⟩
    intro id p hp
    refine covered_erase h hp ?_
    rintro rfl hid
    exact hstale p hp hid.symm
  | reject task result pending _ _ hpend _ running hrun =>
    have hcnt := length_keys_erase_of_mem _ ((mem_iff_lookup _).mpr ⟨pending, hpend⟩)
    have hreads := h.reads
    refine ⟨?_, hfailed, hrun, length_erase_le.trans h.tasks, ?_⟩
    · show env.core.reads ≤ env.core.failed + 1 + (env.core.pending.erase task.streamId).keys.length
      omega
    · intro id p hp
      obtain ⟨hne, hold⟩ := lookup_erase_eq_some _ hp
      exact covered_erase h hold fun heq => absurd heq.symm hne
  | overload task hev running | accept task pending hev _ _ _ _ count _ => exact absurd hev (hrejected task)
  | taskFailed task hev htask =>
    have hnil : env.core.pending = ∅ := hcharged.2 task htask hev
    refine ⟨?_, h.failed, h.running, length_erase_le.trans h.tasks, ?_⟩
    · have hreads := h.reads
      rwa [hnil] at hreads
    · intro id p hp
      have hp' : (∅ : AList (fun _ : Text => PendingHandshake H)).lookup id = some p := hp
      simp at hp'

theorem Budgeted.step (h : Budgeted env.core) (hrejected : Rejected event) (hcharged : Charged host env event) :
    Budgeted (env.step host event).core := by
  by_cases hrun : env.running = true
  · exact h.change host hrun hrejected hcharged (step_change host env event hrun)
  · rw [Environment.step, if_neg hrun]
    exact h

def probeHost : RelayHost Bool Unit where
  json := noticeJson
  decodeRelayMessageFrame
    | [0] => some (.handshake ['s'] [0])
    | [1] => some (.reset ['s'] ['r'])
    | _ => none
  readMessage _ _ := .ok ()
  initiatorPublicKey _ := ⟨[], [], []⟩
  payload _ := []
  complete _ := .error (.transport "not reached")

def rejection (k : Nat) : Event :=
  .validated ⟨['s'], k, ⟨[], [], []⟩, []⟩ (.error (.protocol "harness key is not authorized"))

def probe (k : Nat) : List Event := [.incoming (.binary [0]), .incoming (.binary [1]), rejection k]

/-- **Bounded work.**  If the validator rejects every key and no pending handshake goes away uncharged,
the requests that are read fit the failure budget and the running checks. -/
theorem handshake_work_bounded (environmentId executorRegistrationId : Text) (events : List Event)
    (hrejected : ∀ event ∈ events, Rejected event)
    (hcharged : Run.AllSteps (Charged host) (step host) { environmentId, executorRegistrationId } events) :
    (run host environmentId executorRegistrationId events).requestsRead ≤
      maxFailedNoiseHandshakes + maxPendingHandshakeValidations := by
  have hbudget : Budgeted (run host environmentId executorRegistrationId events).core := by
    refine @Run.AllSteps.invariant _ _ (Charged host) (step host) (fun env => Budgeted env.core) events ?_ _ ?_ hcharged
    · intro env event hevent h hcharge
      exact h.step host (hrejected event hevent) hcharge
    · refine ⟨Nat.le_refl 0, Nat.zero_le _, fun _ => Nat.succ_pos 7, Nat.zero_le _, ?_⟩
      intro id p hp
      cases hp
  exact hbudget.reads_le

theorem handshake_work_bounded_one :
    (run probeHost [] [] [.incoming (.binary [0]), rejection 0]).requestsRead ≤
      maxFailedNoiseHandshakes + maxPendingHandshakeValidations := by
  refine handshake_work_bounded probeHost [] [] _ ?_ ?_
  · intro event hevent
    rcases mem_cons.mp hevent with rfl | hevent
    · rintro task ⟨⟩
    · rw [mem_singleton.mp hevent]
      rintro task ⟨⟩
  · refine ⟨⟨?_, ?_⟩, ⟨?_, ?_⟩, trivial⟩
    · rintro frame ⟨payload, hpayload, hframe, hkind⟩
      cases hpayload
      cases hframe
      cases hkind
    · rintro task - ⟨⟩
    · rintro frame ⟨payload, ⟨⟩, -⟩
    · rintro task - ⟨⟩

theorem resets_escape_budget : (∀ event ∈ (List.range 41).flatMap probe, Rejected event) ∧
      maxFailedNoiseHandshakes + maxPendingHandshakeValidations <
        (run probeHost [] [] ((List.range 41).flatMap probe)).requestsRead := by
  constructor
  · intro event hevent
    obtain ⟨k, -, hk⟩ := mem_flatMap.mp hevent
    rintro task rfl
    simp [probe, rejection] at hk
  · decide +kernel

end Environment

end NoiseRelay
