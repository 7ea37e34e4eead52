import Mathlib

/-!
Computations on a state that may stop with an error, `EStateM ε σ α`.  The state survives an
error.

`After m s ok bad`: run from `s`, `m` returns a value and a state that satisfy `ok`, or stops with
an error and a state that satisfy `bad`.
-/

namespace Effect

variable {ε ε' σ δ α β : Type}

def ofResult : Except ε α → EStateM ε σ α
  | .ok a => pure a
  | .error e => throw e

def mapError (f : ε → ε') (m : EStateM ε σ α) : EStateM ε' σ α := fun s =>
  match m s with
  | .ok a s' => .ok a s'
  | .error e s' => .error (f e) s'

def lift (f : ε → ε') (m : EStateM ε σ α) : EStateM ε' (σ × δ) α := fun s =>
  match m s.1 with
  | .ok a s' => .ok a (s', s.2)
  | .error e s' => .error (f e) (s', s.2)

def zoom (part : σ → δ) (put : δ → σ → σ) (m : EStateM ε δ α) : EStateM ε σ α := fun s =>
  match m (part s) with
  | .ok a t => .ok a (put t s)
  | .error e t => .error e (put t s)

def outcome (m : EStateM ε σ α) : EStateM ε' (σ × δ) (Except ε α) := fun s =>
  match m s.1 with
  | .ok a s' => .ok (.ok a) (s', s.2)
  | .error e s' => .ok (.error e) (s', s.2)

def onError (m : EStateM ε σ α) (f : σ → σ) : EStateM ε σ α := fun s =>
  match m s with
  | .ok a s' => .ok a s'
  | .error e s' => .error e (f s')

def After (m : EStateM ε σ α) (s : σ) (ok : α → σ → Prop) (bad : ε → σ → Prop) : Prop :=
  match m s with
  | .ok a s' => ok a s'
  | .error e s' => bad e s'

namespace After

variable {m : EStateM ε σ α} {f : α → EStateM ε σ β} {s s' : σ} {a : α} {e : ε} {ok ok' : α → σ → Prop}
  {bad bad' : ε → σ → Prop} {g : ε → ε'} {t : σ × δ}

theorem value (h : ok a s) : After (pure a) s ok bad := h

theorem error (h : bad e s) : After (throw e : EStateM ε σ α) s ok bad := h

theorem bind {ok : β → σ → Prop} (h : After m s (fun a s' => After (f a) s' ok bad) bad) :
    After (m >>= f) s ok bad := by
  cases hm : m s <;> simpa [After, Bind.bind, EStateM.bind, hm] using h

theorem any : After m s (fun _ _ => True) fun _ _ => True := by
  unfold After
  split <;> trivial

theorem mono (h : After m s ok bad) (hok : ∀ a s', ok a s' → ok' a s')
    (hbad : ∀ e s', bad e s' → bad' e s') : After m s ok' bad' := by
  cases hm : m s with
  | ok a s' => simpa [After, hm] using hok a s' (by simpa [After, hm] using h)
  | error e s' => simpa [After, hm] using hbad e s' (by simpa [After, hm] using h)

theorem andThen {ok' : β → σ → Prop} (h : After m s ok bad)
    (hf : ∀ a s', ok a s' → After (f a) s' ok' bad') (hbad : ∀ e s', bad e s' → bad' e s') :
    After (m >>= f) s ok' bad' :=
  bind (h.mono hf hbad)

theorem of_ok (h : After m s ok bad) (hm : m s = .ok a s') : ok a s' := by
  simpa [After, hm] using h

theorem of_error (h : After m s ok bad) (hm : m s = .error e s') : bad e s' := by
  simpa [After, hm] using h

theorem ofResult {r : Except ε α} (hok : ∀ a, r = .ok a → ok a s) (hbad : ∀ e, r = .error e → bad e s) :
    After (Effect.ofResult r) s ok bad := by
  cases r with
  | ok a => exact hok a rfl
  | error e => exact hbad e rfl

theorem mapError {bad : ε' → σ → Prop} (h : After m s ok fun e s' => bad (g e) s') :
    After (Effect.mapError g m) s ok bad := by
  cases hm : m s <;> simpa [After, Effect.mapError, hm] using h

theorem get {ok : σ → σ → Prop} (h : ok s s) : After (get : EStateM ε σ σ) s ok bad := h

theorem modify {g : σ → σ} {ok : Unit → σ → Prop} (h : ok () (g s)) :
    After (modify g : EStateM ε σ Unit) s ok bad := h

theorem onError {g : σ → σ} (h : After m s ok fun e s' => bad e (g s')) :
    After (Effect.onError m g) s ok bad := by
  cases hm : m s <;> simpa [After, Effect.onError, hm] using h

theorem lift {ok : α → σ × δ → Prop} {bad : ε' → σ × δ → Prop}
    (h : After m t.1 (fun a s' => ok a (s', t.2)) fun e s' => bad (g e) (s', t.2)) :
    After (Effect.lift g m) t ok bad := by
  cases hm : m t.1 <;> simpa [After, Effect.lift, hm] using h

theorem zoom {part : σ → δ} {put : δ → σ → σ} {n : EStateM ε δ α}
    (h : After n (part s) (fun a t => ok a (put t s)) fun e t => bad e (put t s)) :
    After (Effect.zoom part put n) s ok bad := by
  cases hn : n (part s) <;> simpa [After, Effect.zoom, hn] using h

theorem outcome {ok : Except ε α → σ × δ → Prop} {bad : ε' → σ × δ → Prop}
    (h : After m t.1 (fun a s' => ok (.ok a) (s', t.2)) fun e s' => ok (.error e) (s', t.2)) :
    After (Effect.outcome m) t ok bad := by
  cases hm : m t.1 <;> simpa [After, Effect.outcome, hm] using h

theorem foldlM {g : β → α → EStateM ε σ β} {Inv : σ → Prop}
    (hst : ∀ b x s, Inv s → After (g b x) s (fun _ s' => Inv s') fun _ s' => Inv s')
    (xs : List α) (b : β) (hs : Inv s) :
    After (xs.foldlM g b) s (fun _ s' => Inv s') fun _ s' => Inv s' := by
  induction xs generalizing b s with
  | nil => exact hs
  | cons x xs ih =>
    rw [List.foldlM_cons]
    exact (hst b x s hs).andThen (fun b' s' hs' => ih b' hs') fun _ _ h => h

theorem forM {g : α → EStateM ε σ Unit} {ok : Unit → σ → Prop} (Inv : List α → σ → Prop) (xs : List α)
    (hs : Inv xs s) (hst : ∀ x xs s, Inv (x :: xs) s → After (g x) s (fun _ s' => Inv xs s') bad)
    (hdone : ∀ s, Inv [] s → ok () s) : After (xs.forM g) s ok bad := by
  induction xs generalizing s with
  | nil => exact hdone s hs
  | cons x xs ih => exact (hst x xs s hs).andThen (fun _ s' hs' => ih hs') fun _ _ h => h

end After

end Effect
