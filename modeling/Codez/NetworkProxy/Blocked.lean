import Codez.Lib.Run

/-!
Counting blocked requests while the policy changes (`network-proxy/src/runtime.rs`).

Every call on a `NetworkProxyState` is a task that takes the lock several times; between its turns
other tasks have theirs.
-/

namespace NetworkProxy

structure ConfigState (C K B : Type) where
  config : C
  constraints : K
  blocked : List B := []
  blockedTotal : Nat := 0

variable {C K B : Type}

def maxBlockedEvents : Nat := 200

def ConfigState.record (s : ConfigState C K B) (entry : B) : ConfigState C K B :=
  let blocked := s.blocked ++ [entry]
  { s with
    blocked := blocked.drop (blocked.length - maxBlockedEvents)
    blockedTotal := min (s.blockedTotal + 1) (2 ^ 64 - 1) }

def ConfigState.withBlocked (self s : ConfigState C K B) : ConfigState C K B :=
  { self with blocked := s.blocked, blockedTotal := s.blockedTotal }

/-- The calls.  An update gives no new state when there is nothing to do; `other` is any call that only reloads. -/
inductive Operation (C K B : Type) where
  | recordBlocked (entry : B)
  | updateDomainList (candidate : C → K → Except Unit (Option (ConfigState C K B)))
  | replaceConfigState (new : ConfigState C K B)
  | forceReload (new : Except Unit (ConfigState C K B))
  | other

/-- Where a call is: before `reload_if_needed`, inside of it, behind it, with the state it is going to store. -/
inductive Task (C K B : Type) where
  | start (op : Operation C K B)
  | reloading (op : Operation C K B) (new : ConfigState C K B)
  | reloaded (op : Operation C K B) (new : ConfigState C K B)
  | body (op : Operation C K B)
  | updated (op : Operation C K B) (previous : C) (constraints : K) (new : ConfigState C K B)
  | done

def Task.snapshot : Task C K B → Option (ConfigState C K B)
  | reloaded _ new | updated _ _ _ new => some new
  | _ => none

def Task.records : Task C K B → Bool
  | body (.recordBlocked _) => true
  | _ => false

def Task.forces : Task C K B → Bool
  | body (.forceReload (.ok _)) => true
  | _ => false

variable [DecidableEq C] [DecidableEq K]

/-- One turn; `reload` is what `maybe_reload` answers if it is asked. -/
def Task.advance (reload : Except Unit (Option (ConfigState C K B))) (s : ConfigState C K B) :
    Task C K B → ConfigState C K B × Task C K B
  | start (.forceReload new) => (s, body (.forceReload new))
  | start op =>
    match reload with
    | .error _ => (s, done)
    | .ok none => (s, body op)
    | .ok (some new) => (s, reloading op new)
  | reloading op new => (s, reloaded op (new.withBlocked s))
  | reloaded op new => (new, body op)
  | body (.recordBlocked entry) => (s.record entry, done)
  | body (.updateDomainList candidate) =>
    match candidate s.config s.constraints with
    | .error _ | .ok none => (s, done)
    | .ok (some new) => (s, updated (.updateDomainList candidate) s.config s.constraints (new.withBlocked s))
  | body (.replaceConfigState new) => (new.withBlocked s, done)
  -- the counter is that of the new state
  | body (.forceReload (.ok new)) => ({ new with blocked := s.blocked }, done)
  | body (.forceReload (.error _)) | body .other | done => (s, done)
  | updated op previous constraints new =>
    if s.constraints ≠ constraints ∨ s.config ≠ previous then (s, start op) else (new, done)

structure Proxy (C K B : Type) where
  state : ConfigState C K B
  tasks : Nat → Task C K B
  recorded : Nat := 0

structure Turn (C K B : Type) where
  task : Nat
  reload : Except Unit (Option (ConfigState C K B)) := .ok none

def Proxy.step (p : Proxy C K B) (turn : Turn C K B) : Proxy C K B :=
  let t := p.tasks turn.task
  let r := t.advance turn.reload p.state
  { state := r.1
    tasks := Function.update p.tasks turn.task r.2
    recorded := p.recorded + if t.records then 1 else 0 }

/-- Nothing is recorded while a snapshot waits to be stored, and no reload is forced. -/
def Proxy.Undisturbed (p : Proxy C K B) (turn : Turn C K B) : Prop :=
  ((p.tasks turn.task).records = true → ∀ i, (p.tasks i).snapshot = none) ∧ (p.tasks turn.task).forces = false

structure Proxy.Counted (total : Nat) (p : Proxy C K B) : Prop where
  total : p.state.blockedTotal = min (total + p.recorded) (2 ^ 64 - 1)
  snapshots : ∀ i new, (p.tasks i).snapshot = some new → new.blockedTotal = p.state.blockedTotal

theorem Task.advance_spec {t : Task C K B} {s : ConfigState C K B} (reload : Except Unit (Option (ConfigState C K B)))
    (hsnap : ∀ new, t.snapshot = some new → new.blockedTotal = s.blockedTotal) (hforce : t.forces = false) :
    (t.advance reload s).1.blockedTotal =
      (if t.records then min (s.blockedTotal + 1) (2 ^ 64 - 1) else s.blockedTotal) ∧
    ∀ new, (t.advance reload s).2.snapshot = some new → new.blockedTotal = s.blockedTotal ∧ t.records = false := by
  fun_cases Task.advance reload s t <;>
    simp_all [snapshot, records, forces, ConfigState.record, ConfigState.withBlocked]

theorem Proxy.Counted.step {total : Nat} {p : Proxy C K B} (h : p.Counted total) (turn : Turn C K B)
    (hquiet : p.Undisturbed turn) : (p.step turn).Counted total := by
  obtain ⟨htotal, hsnap⟩ := Task.advance_spec turn.reload (h.snapshots turn.task) hquiet.2
  have hkept : (p.tasks turn.task).records = false → (p.step turn).state.blockedTotal = p.state.blockedTotal := by
    intro hrecs
    simpa [Proxy.step, hrecs] using htotal
  constructor
  · show (Task.advance _ _ _).1.blockedTotal = min (total + (p.recorded + _)) _
    rw [htotal, h.total]
    split <;> omega
  · intro i new hnew
    by_cases hi : i = turn.task
    · subst hi
      simp only [Proxy.step, Function.update_self] at hnew
      obtain ⟨heq, hrecs⟩ := hsnap new hnew
      rw [heq, hkept hrecs]
    · simp only [Proxy.step, Function.update_of_ne hi] at hnew
      have hrecs : (p.tasks turn.task).records = false := by
        by_contra hrecs
        rw [hquiet.1 (Bool.not_eq_false _ ▸ hrecs) i] at hnew
        cases hnew
      rw [h.snapshots i new hnew, hkept hrecs]

/-- **No record is lost** in a run that leaves snapshots undisturbed, up to the largest number there is. -/
theorem blocked_counted (s : ConfigState C K B) (ops : Nat → Operation C K B) (turns : List (Turn C K B))
    (hquiet : Run.AllSteps Proxy.Undisturbed Proxy.step ⟨s, fun i => .start (ops i), 0⟩ turns) :
    let p := turns.foldl Proxy.step ⟨s, fun i => .start (ops i), 0⟩
    s.blockedTotal + p.recorded < 2 ^ 64 → p.state.blockedTotal = s.blockedTotal + p.recorded := by
  intro p hmax
  have hcounted : p.Counted s.blockedTotal := by
    refine hquiet.invariant (fun p turn _ h hturn => h.step turn hturn) _ ⟨?_, fun i new hnew => nomatch hnew⟩
    show s.blockedTotal = min (s.blockedTotal + 0) _
    omega
  rw [hcounted.total]
  omega

def updateAndRecord : Nat → Operation Nat Unit Unit
  | 0 => .updateDomainList fun _ _ => .ok (some { config := 1, constraints := () })
  | _ => .recordBlocked ()

theorem blocked_counted_afterUpdate :
    let turns : List (Turn Nat Unit Unit) := [⟨0, .ok none⟩, ⟨0, .ok none⟩, ⟨0, .ok none⟩, ⟨1, .ok none⟩, ⟨1, .ok none⟩]
    (turns.foldl Proxy.step ⟨⟨0, (), [], 0⟩, fun i => .start (updateAndRecord i), 0⟩).state.blockedTotal = 1 := by
  refine blocked_counted ⟨0, (), [], 0⟩ updateAndRecord _ ?_ (by decide)
  refine ⟨⟨nofun, rfl⟩, ⟨nofun, rfl⟩, ⟨nofun, rfl⟩, ⟨nofun, rfl⟩, ⟨fun _ i => ?_, rfl⟩, trivial⟩
  match i with
  | 0 | 1 | _ + 2 => rfl

theorem record_lost :
    let turns : List (Turn Nat Unit Unit) := [⟨0, .ok none⟩, ⟨0, .ok none⟩, ⟨1, .ok none⟩, ⟨1, .ok none⟩, ⟨0, .ok none⟩]
    let p := turns.foldl Proxy.step ⟨⟨0, (), [], 0⟩, fun i => .start (updateAndRecord i), 0⟩
    p.recorded = 1 ∧ p.state.blockedTotal = 0 := by
  decide

end NetworkProxy
