import Mathlib

/-!
Runs: a step function folded over a list of inputs.

`AllSteps P step s xs` says that `P` holds of every input together with the state it is met in.
-/

namespace Run

open List

variable {σ τ α β γ : Type} {step : σ → α → σ} {xs : List α} {s : σ} {P : α → Prop} (f : α → σ → β × σ)
  (out : σ → α → List β) {out' : σ → α → List γ}

def AllSteps (P : σ → α → Prop) (step : σ → α → σ) : σ → List α → Prop
  | _, [] => True
  | s, x :: xs => P s x ∧ AllSteps P step (step s x) xs

instance AllSteps.decidable {P : σ → α → Prop} [∀ s x, Decidable (P s x)] (step : σ → α → σ) :
    ∀ s xs, Decidable (AllSteps P step s xs)
  | _, [] => isTrue trivial
  | s, x :: xs => @instDecidableAnd _ _ _ (AllSteps.decidable step (step s x) xs)

theorem AllSteps.invariant {P : σ → α → Prop} {step : σ → α → σ} {Inv : σ → Prop} {xs : List α}
    (hst : ∀ s, ∀ x ∈ xs, Inv s → P s x → Inv (step s x)) (s : σ) (hs : Inv s)
    (h : AllSteps P step s xs) : Inv (xs.foldl step s) := by
  induction xs generalizing s with
  | nil => exact hs
  | cons x xs ih =>
    exact ih (fun s y hy => hst s y (mem_cons_of_mem _ hy)) (step s x)
      (hst s x mem_cons_self hs h.1) h.2

theorem allSteps_append {P : σ → α → Prop} (s : σ) (xs ys : List α) :
    AllSteps P step s (xs ++ ys) ↔ AllSteps P step s xs ∧ AllSteps P step (xs.foldl step s) ys := by
  induction xs generalizing s with
  | nil => simp [AllSteps]
  | cons x xs ih => simp [AllSteps, ih, and_assoc]

theorem AllSteps.mono {P Q : σ → α → Prop} (hPQ : ∀ s x, P s x → Q s x) (h : AllSteps P step s xs) :
    AllSteps Q step s xs := by
  induction xs generalizing s with
  | nil => trivial
  | cons x xs ih => exact ⟨hPQ s x h.1, ih h.2⟩

theorem allSteps_of_forall (step : σ → α → σ) (xs : List α) (s : σ) (h : ∀ x ∈ xs, P x) :
    AllSteps (fun _ x => P x) step s xs := by
  induction xs generalizing s with
  | nil => trivial
  | cons x xs ih =>
    exact ⟨h x mem_cons_self, ih (step s x) (forall_mem_cons.mp h).2⟩

theorem AllSteps.forall_of (h : AllSteps (fun _ x => P x) step s xs) : ∀ x ∈ xs, P x := by
  induction xs generalizing s with
  | nil => intro x hx; cases hx
  | cons x xs ih => exact forall_mem_cons.mpr ⟨h.1, ih h.2⟩

theorem foldl_invariant {step : σ → α → σ} {Inv : σ → Prop} (xs : List α) (s : σ) (hs : Inv s)
    (hst : ∀ s x, x ∈ xs → Inv s → Inv (step s x)) : Inv (xs.foldl step s) :=
  AllSteps.invariant (P := fun _ _ => True) (fun s x hx hi _ => hst s x hx hi) s hs
    (allSteps_of_forall step xs s fun _ _ => trivial)

def mapAccum (f : α → σ → β × σ) : List α → σ → List β × σ
  | [], s => ([], s)
  | x :: xs, s => ((f x s).1 :: (mapAccum f xs (f x s).2).1, (mapAccum f xs (f x s).2).2)

theorem mapAccum_cons (x : α) (xs : List α) (s : σ) : mapAccum f (x :: xs) s =
      ((f x s).1 :: (mapAccum f xs (f x s).2).1, (mapAccum f xs (f x s).2).2) := rfl

theorem mapAccum_snd (xs : List α) (s : σ) : (mapAccum f xs s).2 = xs.foldl (fun s x => (f x s).2) s := by
  induction xs generalizing s with
  | nil => rfl
  | cons x xs ih => exact ih (f x s).2

theorem mapAccum_map (g : γ → α) (xs : List γ) (s : σ) :
    mapAccum f (xs.map g) s = mapAccum (fun x => f (g x)) xs s := by
  induction xs generalizing s with
  | nil => rfl
  | cons x xs ih => simp only [map_cons, mapAccum_cons, ih]

theorem mapAccum_append (xs ys : List α) (s : σ) : mapAccum f (xs ++ ys) s =
      ((mapAccum f xs s).1 ++ (mapAccum f ys (mapAccum f xs s).2).1,
        (mapAccum f ys (mapAccum f xs s).2).2) := by
  induction xs generalizing s with
  | nil => rfl
  | cons x xs ih =>
    simp only [cons_append, mapAccum_cons, ih]

theorem length_mapAccum (xs : List α) (s : σ) : (mapAccum f xs s).1.length = xs.length := by
  induction xs generalizing s with
  | nil => rfl
  | cons x xs ih => exact congrArg (· + 1) (ih (f x s).2)

theorem mapAccum_flatMap {f : α → σ → α × σ} {g : γ → σ → γ × σ} {parts : α → List γ}
    (h : ∀ x s, (parts (f x s).1, (f x s).2) = mapAccum g (parts x) s) (xs : List α) (s : σ) :
    ((mapAccum f xs s).1.flatMap parts, (mapAccum f xs s).2) = mapAccum g (xs.flatMap parts) s := by
  induction xs generalizing s with
  | nil => rfl
  | cons x xs ih =>
    rw [mapAccum_cons, flatMap_cons, flatMap_cons, mapAccum_append, ← h x s, ← ih]

theorem mapAccum_lockstep {f : α → σ → β × σ} {g : α → τ → β × τ} {R : σ → τ → Prop}
    (xs : List α)
    (hst : ∀ x ∈ xs, ∀ s t, R s t → (f x s).1 = (g x t).1 ∧ R (f x s).2 (g x t).2)
    (s : σ) (t : τ) (h : R s t) :
    (mapAccum f xs s).1 = (mapAccum g xs t).1 ∧ R (mapAccum f xs s).2 (mapAccum g xs t).2 := by
  induction xs generalizing s t with
  | nil => exact ⟨rfl, h⟩
  | cons x xs ih =>
    obtain ⟨hx, hR⟩ := hst x mem_cons_self s t h
    obtain ⟨hxs, hR'⟩ := ih (forall_mem_cons.mp hst).2 _ _ hR
    simp only [mapAccum_cons]
    exact ⟨by rw [hx, hxs], hR'⟩

def emit (out : σ → α → List β) (step : σ → α → σ) : σ → List α → List β
  | _, [] => []
  | s, x :: xs => out s x ++ emit out step (step s x) xs

theorem emit_append (step : σ → α → σ) (s : σ) (xs ys : List α) :
    emit out step s (xs ++ ys) = emit out step s xs ++ emit out step (xs.foldl step s) ys := by
  induction xs generalizing s with
  | nil => rfl
  | cons x xs ih => simp [emit, ih]

theorem emit_snoc (step : σ → α → σ) (s : σ) (xs : List α) (x : α) :
    emit out step s (xs ++ [x]) = emit out step s xs ++ out (xs.foldl step s) x := by
  simp [emit_append, emit]

theorem emit_eq_append_cons (step : σ → α → σ) (s : σ) (xs : List α) (pre : List β) (y : β) (post : List β)
    (h : emit out step s xs = pre ++ y :: post) :
    ∃ l x r bpre bpost, xs = l ++ x :: r ∧ out (l.foldl step s) x = bpre ++ y :: bpost ∧
      pre = emit out step s l ++ bpre ∧
      post = bpost ++ emit out step ((l ++ [x]).foldl step s) r := by
  induction xs generalizing s pre with
  | nil => simp [emit] at h
  | cons x xs ih =>
    rw [emit] at h
    have later : ∀ mid, emit out step (step s x) xs = mid ++ y :: post → pre = out s x ++ mid →
        ∃ l x' r bpre bpost, x :: xs = l ++ x' :: r ∧ out (l.foldl step s) x' = bpre ++ y :: bpost ∧
          pre = emit out step s l ++ bpre ∧
          post = bpost ++ emit out step ((l ++ [x']).foldl step s) r := by
      intro mid hr hpre
      obtain ⟨l, x', r, bpre, bpost, hxs, hout, hp, hq⟩ := ih (step s x) mid hr
      exact ⟨x :: l, x', r, bpre, bpost, by rw [hxs]; rfl, hout, by rw [hpre, hp]; simp [emit], hq⟩
    rcases append_eq_append_iff.mp h with ⟨mid, hpre, hr⟩ | ⟨mid, hblock, hr⟩
    · exact later mid hr hpre
    · cases mid with
      | nil => exact later [] hr.symm (by rw [hblock]; simp)
      | cons z mid =>
        obtain ⟨rfl, hpost⟩ := List.cons.inj hr
        exact ⟨[], x, xs, pre, mid, rfl, hblock, rfl, hpost⟩

theorem emit_filterMap {out : σ → α → List β} {f : β → Option γ}
    (h : AllSteps (fun s x => (out s x).filterMap f = out' s x) step s xs) :
    (emit out step s xs).filterMap f = emit out' step s xs := by
  induction xs generalizing s with
  | nil => rfl
  | cons x xs ih => rw [emit, emit, filterMap_append, h.1, ih h.2]

theorem emit_map {out : σ → α → List β} {f : β → γ}
    (h : AllSteps (fun s x => (out s x).map f = out' s x) step s xs) :
    (emit out step s xs).map f = emit out' step s xs := by
  rw [← filterMap_eq_map]
  apply emit_filterMap
  simpa only [filterMap_eq_map] using h

theorem emit_const (f : α → List β) (step : σ → α → σ) (s : σ) (xs : List α) :
    emit (fun _ => f) step s xs = xs.flatMap f := by
  induction xs generalizing s with
  | nil => rfl
  | cons x xs ih => simp [emit, ih]

theorem flatMap_eq_append_cons (f : α → List β) (xs : List α) (pre : List β) (x : β) (post : List β)
    (h : xs.flatMap f = pre ++ x :: post) :
    ∃ l a r bpre bpost, xs = l ++ a :: r ∧ f a = bpre ++ x :: bpost ∧
      pre = l.flatMap f ++ bpre ∧ post = bpost ++ r.flatMap f := by
  rw [← emit_const f (fun u _ => u) ()] at h
  simpa only [emit_const] using emit_eq_append_cons _ _ _ _ _ _ _ h

end Run
