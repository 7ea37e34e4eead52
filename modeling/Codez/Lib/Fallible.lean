import Codez.Lib.Run

/-!
Fallible computations whose success is decided by a condition.

`Decides bad ok r`: `r` succeeds when `ok` holds and otherwise fails with an error that satisfies
`bad`.
-/

namespace Fallible

open Run List

variable {ε α β σ ω ε' : Type} {bad : ε → Prop} {xs : List α}

def Decides (bad : ε → Prop) (ok : Prop) (r : Except ε α) : Prop :=
  (ok ∧ ∃ a, r = .ok a) ∨ (¬ ok ∧ ∃ e, r = .error e ∧ bad e)

namespace Decides

variable {r x : Except ε α} {ok : Prop} {f : α → Except ε β}

theorem value {a : α} (h : ok) : Decides bad ok (.ok a) := .inl ⟨h, a, rfl⟩

theorem failure {e : ε} (h : ¬ok) (he : bad e) : Decides bad ok (.error e : Except ε α) := .inr ⟨h, e, rfl, he⟩

theorem congr {ok' : Prop} (h : Decides bad ok r) (he : ok ↔ ok') : Decides bad ok' r := by
  rwa [← propext he]

theorem bind {ok' : Prop} (hx : Decides bad ok x) (hf : ∀ a, x = .ok a → Decides bad ok' (f a)) :
    Decides bad (ok ∧ ok') (x >>= f) := by
  rcases hx with ⟨h, a, rfl⟩ | ⟨h, e, rfl, hb⟩
  · exact (hf a rfl).congr ⟨fun h' => ⟨h, h'⟩, fun h' => h'.2⟩
  · exact .inr ⟨fun h' => h h'.1, e, rfl, hb⟩

theorem map (f : α → β) (hx : Decides bad ok x) : Decides bad ok (x.map f) := by
  rcases hx with ⟨h, a, rfl⟩ | ⟨h, e, rfl, hb⟩
  · exact .inl ⟨h, f a, rfl⟩
  · exact .inr ⟨h, e, rfl, hb⟩

theorem foldlM {ok : ω → α → Prop} {upd : ω → α → ω} {f : σ → α → Except ε σ} (obs : σ → ω)
    (hf : ∀ s x, Decides bad (ok (obs s) x) (f s x))
    (hobs : ∀ s x s', f s x = .ok s' → obs s' = upd (obs s) x) (xs : List α) (s : σ) :
    Decides bad (AllSteps ok upd (obs s) xs) (xs.foldlM f s) := by
  induction xs generalizing s with
  | nil => exact value trivial
  | cons x xs ih =>
    rw [foldlM_cons]
    apply (hf s x).bind
    intro s' hs'
    rw [← hobs s x s' hs']
    exact ih s'

theorem mapM {ok : α → Prop} (hf : ∀ x, Decides bad (ok x) (f x)) (xs : List α) :
    Decides bad (∀ x ∈ xs, ok x) (xs.mapM f) := by
  induction xs with
  | nil => exact value (by simp)
  | cons x xs ih =>
    rw [mapM_cons]
    have h := (hf x).bind fun a _ => ih.bind fun b _ => @value _ _ _ _ (a :: b) trivial
    exact h.congr (by simp)

theorem isOk_iff (h : Decides bad ok r) : r.isOk = true ↔ ok := by
  rcases h with ⟨h, a, rfl⟩ | ⟨h, e, rfl, _⟩
  · exact ⟨fun _ => h, fun _ => rfl⟩
  · exact ⟨fun h' => (by cases h'), fun h' => absurd h' h⟩

theorem ok_iff (h : Decides bad ok r) : (∃ a, r = .ok a) ↔ ok := by
  rcases h with ⟨h, a, rfl⟩ | ⟨h, e, rfl, _⟩
  · exact ⟨fun _ => h, fun _ => ⟨a, rfl⟩⟩
  · refine ⟨fun h' => ?_, fun h' => absurd h' h⟩
    obtain ⟨a, ha⟩ := h'
    cases ha

theorem fails_iff (h : Decides bad ok r) : (∃ e, r = .error e ∧ bad e) ↔ ¬ ok := by
  rcases h with ⟨h, a, rfl⟩ | ⟨h, e, rfl, hb⟩
  · simp [h]
  · exact ⟨fun _ => h, fun _ => ⟨e, rfl, hb⟩⟩

end Decides

theorem bind_eq_ok {x : Except ε α} {f : α → Except ε β} {b : β} (h : x >>= f = .ok b) :
    ∃ a, x = .ok a ∧ f a = .ok b := by
  cases x with
  | error e => cases h
  | ok a => exact ⟨a, rfl, h⟩

theorem map_eq_ok {x : Except ε α} {f : α → β} {b : β} (h : x.map f = .ok b) : ∃ a, x = .ok a ∧ f a = b := by
  cases x with
  | error e => cases h
  | ok a => exact ⟨a, rfl, Except.ok.inj h⟩

theorem mapError_eq_ok {x : Except ε α} {f : ε → ε'} {a : α} (h : x.mapError f = .ok a) : x = .ok a := by
  cases x with
  | error e => cases h
  | ok b => exact congrArg Except.ok (Except.ok.inj h)

theorem mapError_eq_error {x : Except ε α} {f : ε → ε'} {e' : ε'} (h : x.mapError f = .error e') :
    ∃ e, x = .error e := by
  cases x with
  | error e => exact ⟨e, rfl⟩
  | ok b => cases h

theorem mapM_cons_eq_ok {f : α → Except ε β} {x : α} {ys : List β} :
    (x :: xs).mapM f = .ok ys ↔ ∃ y ys', f x = .ok y ∧ xs.mapM f = .ok ys' ∧ ys = y :: ys' := by
  rw [mapM_cons]
  constructor
  · intro h
    obtain ⟨y, hy, h⟩ := bind_eq_ok h
    obtain ⟨ys', hys', h⟩ := bind_eq_ok h
    exact ⟨y, ys', hy, hys', (Except.ok.inj h).symm⟩
  · rintro ⟨y, ys', hy, hys', rfl⟩
    rw [hy, hys']
    rfl

theorem mapM_map_eq_ok {γ : Type} {f : α → Except ε β} {g : β → γ} {zs : List γ} :
    xs.mapM (fun x => (f x).map g) = .ok zs ↔ ∃ ys, xs.mapM f = .ok ys ∧ zs = ys.map g := by
  induction xs generalizing zs with
  | nil =>
    constructor
    · intro h
      cases h
      exact ⟨[], rfl, rfl⟩
    · rintro ⟨ys, h, rfl⟩
      cases h
      rfl
  | cons x xs ih =>
    rw [mapM_cons_eq_ok]
    constructor
    · rintro ⟨z, zs', hz, hzs', rfl⟩
      obtain ⟨y, hy, rfl⟩ := map_eq_ok hz
      obtain ⟨ys, hys, rfl⟩ := ih.mp hzs'
      exact ⟨y :: ys, mapM_cons_eq_ok.mpr ⟨y, ys, hy, hys, rfl⟩, rfl⟩
    · rintro ⟨ys, hys, rfl⟩
      obtain ⟨y, ys', hy, hys', rfl⟩ := mapM_cons_eq_ok.mp hys
      exact ⟨g y, ys'.map g, by rw [hy]; rfl, ih.mpr ⟨ys', hys', rfl⟩, rfl⟩

theorem foldlM_invariant {f : σ → α → Except ε σ} (Inv : List α → σ → Prop) (xs : List α)
    (hst : ∀ done x todo s s', xs = done ++ x :: todo → Inv done s → f s x = .ok s' → Inv (done ++ [x]) s')
    {s s' : σ} (hs : Inv [] s) (h : xs.foldlM f s = .ok s') : Inv xs s' := by
  -- the inputs still to come are `todo`; those gone through are in front of them
  have run : ∀ todo done s, xs = done ++ todo → Inv done s → todo.foldlM f s = .ok s' → Inv xs s' := by
    intro todo
    induction todo with
    | nil =>
      intro done s hxs hs h
      cases h
      rwa [hxs, append_nil]
    | cons x todo ih =>
      intro done s hxs hs h
      rw [foldlM_cons] at h
      obtain ⟨s1, h1, h2⟩ := bind_eq_ok h
      exact ih (done ++ [x]) s1 (by rw [hxs, append_assoc]; rfl)
        (hst done x todo s s1 hxs hs h1) h2
  exact run xs [] s rfl hs h

end Fallible
