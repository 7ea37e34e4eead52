import Mathlib

/-!
Eviction from the front of a list until what is left keeps a limit on the number of
entries and one on their total size.
-/

namespace Evict

open List

variable {α : Type} (size : α → Nat) (maxCount maxTotal : Nat) (before : List α)

def total (xs : List α) : Nat := (xs.map size).sum

def Fits (xs : List α) : Prop := xs.length ≤ maxCount ∧ total size xs ≤ maxTotal

instance (xs : List α) : Decidable (Fits size maxCount maxTotal xs) :=
  inferInstanceAs (Decidable (_ ∧ _))

/-- The entries that are removed, when `count` entries of `sum` bytes are left; an entry
that cannot be removed is passed over. -/
def victims (removable : α → Bool) : Nat → Nat → List α → List α
  | _, _, [] => []
  | count, sum, x :: xs =>
    if count ≤ maxCount ∧ sum ≤ maxTotal then []
    else if removable x then x :: victims removable (count - 1) (sum - size x) xs
    else victims removable count sum xs

theorem victims_subset (removable : α → Bool) (count sum : Nat) (xs : List α) :
    victims size maxCount maxTotal removable count sum xs ⊆ xs := by
  induction xs generalizing count sum with
  | nil => exact List.Subset.refl _
  | cons x xs ih =>
    unfold victims
    split
    · exact nil_subset _
    · split
      · exact cons_subset_cons x (ih _ _)
      · exact subset_cons_of_subset x (ih _ _)

variable {size maxCount maxTotal}

theorem Fits.of_cons {x : α} {xs : List α} (h : Fits size maxCount maxTotal (x :: xs)) :
    Fits size maxCount maxTotal xs := by
  unfold Fits total at h ⊢
  simp only [length_cons, map_cons, sum_cons] at h
  omega

theorem Fits.of_append {xs ys : List α} (h : Fits size maxCount maxTotal (xs ++ ys)) :
    Fits size maxCount maxTotal ys := by
  induction xs with
  | nil => exact h
  | cons x xs ih => exact ih h.of_cons

variable (size maxCount maxTotal)

def evicted (xs : List α) : List α :=
  victims size maxCount maxTotal (fun _ => true) xs.length (total size xs) xs

theorem evicted_of_fits (xs : List α) (h : Fits size maxCount maxTotal xs) :
    evicted size maxCount maxTotal xs = [] := by
  cases xs with
  | nil => rfl
  | cons x xs =>
    unfold evicted victims
    exact if_pos h

theorem evicted_cons (x : α) (xs : List α) (h : ¬Fits size maxCount maxTotal (x :: xs)) :
    evicted size maxCount maxTotal (x :: xs) = x :: evicted size maxCount maxTotal xs := by
  have htotal : total size (x :: xs) - size x = total size xs := by
    simp [total]
  have hover : ¬((x :: xs).length ≤ maxCount ∧ total size (x :: xs) ≤ maxTotal) := h
  unfold evicted
  conv => lhs; unfold victims
  rw [if_neg hover, if_pos rfl, htotal, length_cons, Nat.add_sub_cancel]

theorem evicted_subset_of_fits (x : α) (after : List α) (h : Fits size maxCount maxTotal (x :: after)) :
    evicted size maxCount maxTotal (before ++ x :: after) ⊆ before := by
  induction before with
  | nil =>
    rw [nil_append, evicted_of_fits _ _ _ _ h]
    exact List.Subset.refl _
  | cons b before ih =>
    rw [cons_append]
    by_cases hb : Fits size maxCount maxTotal (b :: (before ++ x :: after))
    · rw [evicted_of_fits _ _ _ _ hb]
      exact nil_subset _
    · rw [evicted_cons _ _ _ _ _ hb]
      exact cons_subset_cons b ih

theorem mem_evicted_of_not_fits (x : α) (after : List α) (h : ¬Fits size maxCount maxTotal (x :: after)) :
    x ∈ evicted size maxCount maxTotal (before ++ x :: after) := by
  induction before with
  | nil =>
    rw [nil_append, evicted_cons _ _ _ _ _ h]
    exact mem_cons_self
  | cons b before ih =>
    have hb : ¬Fits size maxCount maxTotal (b :: (before ++ x :: after)) := by
      intro hf
      rw [← cons_append] at hf
      exact h hf.of_append
    rw [cons_append, evicted_cons _ _ _ _ _ hb]
    exact mem_cons_of_mem b ih

theorem mem_evicted_iff (x : α) (after : List α) (hx : x ∉ before) :
    x ∈ evicted size maxCount maxTotal (before ++ x :: after) ↔
      ¬Fits size maxCount maxTotal (x :: after) := by
  constructor
  · intro hm hf
    exact hx (evicted_subset_of_fits _ _ _ before x after hf hm)
  · exact mem_evicted_of_not_fits _ _ _ before x after

end Evict
