import Codez.Lib.Run

/-!
Undoing at two levels.
-/

namespace Undo

open List

variable {α : Type} {groups : List (List α)}

inductive Step (α : Type) where
  | add (group : List α)
  | undo (n : Nat)

def groupStep (groups : List (List α)) : Step α → List (List α)
  | .add group => groups ++ [group]
  | .undo n => groups.rdrop n

def elementStep (elements : List α) : Step α → List α
  | .add group => elements ++ group
  | .undo n => elements.rdrop n

/-- The last `n` groups have one element each, or all elements go. -/
def Conforms (groups : List (List α)) : Step α → Prop
  | .add _ => True
  | .undo n => (∀ group ∈ groups.rtake n, group.length = 1) ∨ groups.flatten.length ≤ n

def Step.NonEmpty : Step α → Prop
  | .add group => group ≠ []
  | .undo _ => True

theorem length_le_flatten (h : ∀ group ∈ groups, group ≠ []) : groups.length ≤ groups.flatten.length := by
  induction groups with
  | nil => exact Nat.le_refl 0
  | cons group groups ih =>
    have hgroup : 0 < group.length := length_pos_iff.mpr (h group mem_cons_self)
    have hrest := ih (forall_mem_cons.mp h).2
    rw [flatten_cons, length_append, length_cons]
    omega

theorem length_flatten_eq_iff (h : ∀ group ∈ groups, group ≠ []) :
    groups.flatten.length = groups.length ↔ ∀ group ∈ groups, group.length = 1 := by
  induction groups with
  | nil => simp
  | cons group groups ih =>
    have hgroup : 0 < group.length := length_pos_iff.mpr (h group mem_cons_self)
    have hne : ∀ group ∈ groups, group ≠ [] := (forall_mem_cons.mp h).2
    have hrest := length_le_flatten hne
    rw [forall_mem_cons, ← ih hne, flatten_cons, length_append, length_cons]
    omega

theorem flatten_rdrop_rtake (groups : List (List α)) (n : Nat) :
    groups.flatten = (groups.rdrop n).flatten ++ (groups.rtake n).flatten := by
  rw [← flatten_append]
  exact congrArg List.flatten (take_append_drop _ groups).symm

theorem lengths_undo_iff (h : ∀ group ∈ groups, group ≠ []) (n : Nat) :
    (groups.rdrop n).flatten.length = (groups.flatten.rdrop n).length ↔ Conforms groups (.undo n) := by
  have hdrop : ∀ group ∈ groups.rtake n, group ≠ [] := fun group hmem => h group (mem_of_mem_drop hmem)
  have hall := length_flatten_eq_iff hdrop
  have hle := length_le_flatten hdrop
  have htotal := congrArg List.length (flatten_rdrop_rtake groups n)
  have hlen : (groups.rtake n).length = groups.length - (groups.length - n) := length_drop
  have hkept : groups.length ≤ n → (groups.rdrop n).flatten.length = 0 := by
    intro hn
    rw [List.rdrop, Nat.sub_eq_zero_of_le hn]
    rfl
  rw [length_append] at htotal
  show _ = (groups.flatten.take _).length ↔ _ ∨ _
  rw [length_take, ← hall]
  by_cases hn : groups.length ≤ n
  · have := hkept hn
    omega
  · omega

theorem flatten_undo {n : Nat} (h : (groups.rdrop n).flatten.length = (groups.flatten.rdrop n).length) :
    (groups.rdrop n).flatten = groups.flatten.rdrop n := by
  have hpre : groups.flatten.rdrop n <+: groups.flatten := List.take_prefix _ _
  have hpre' : (groups.rdrop n).flatten <+: groups.flatten := by
    rw [flatten_rdrop_rtake groups n]
    exact prefix_append _ _
  exact List.IsPrefix.eq_of_length (prefix_of_prefix_length_le hpre' hpre (Nat.le_of_eq h)) h

variable {steps : List (Step α)}

theorem mem_foldl_groupStep (h : ∀ step ∈ steps, step.NonEmpty) :
    ∀ group ∈ steps.foldl groupStep [], group ≠ [] := by
  refine @Run.foldl_invariant _ _ groupStep (fun groups : List (List α) => ∀ group ∈ groups, group ≠ []) steps []
    (fun _ hmem => absurd hmem not_mem_nil) ?_
  intro groups step hst hgroups group hmem
  cases step with
  | add new =>
    obtain hmem | hmem := mem_append.mp hmem
    · exact hgroups group hmem
    · rw [mem_singleton.mp hmem]
      exact h _ hst
  | undo n => exact hgroups group (mem_of_mem_take hmem)

/-- **Two levels.**  If every undo conforms, both logs hold the same elements. -/
theorem flatten_groups (hne : ∀ step ∈ steps, step.NonEmpty) (h : Run.AllSteps Conforms groupStep [] steps) :
    (steps.foldl groupStep []).flatten = steps.foldl elementStep [] := by
  induction steps using reverseRecOn with
  | nil => rfl
  | append_singleton steps step ih =>
    have hne' : ∀ step ∈ steps, step.NonEmpty := fun step hmem => hne step (mem_append_left _ hmem)
    rw [Run.allSteps_append] at h
    have hsame := ih hne' h.1
    rw [foldl_append, foldl_append, ← hsame]
    cases step with
    | add group =>
      show (_ ++ [group]).flatten = _
      rw [flatten_append, flatten_singleton]
      rfl
    | undo n => exact flatten_undo ((lengths_undo_iff (mem_foldl_groupStep hne') n).mpr h.2.1)

/-- **Two levels.**  The logs hold equally many elements after every step iff every undo conforms. -/
theorem lengths_agree_iff (hne : ∀ step ∈ steps, step.NonEmpty) :
    (∀ pre, pre <+: steps → (pre.foldl groupStep []).flatten.length = (pre.foldl elementStep []).length) ↔
      Run.AllSteps Conforms groupStep [] steps := by
  constructor
  · intro h
    induction steps using reverseRecOn with
    | nil => trivial
    | append_singleton steps step ih =>
      have hne' : ∀ step ∈ steps, step.NonEmpty := fun step hmem => hne step (mem_append_left _ hmem)
      have hsts := ih hne' fun pre hpre => h pre (hpre.trans (prefix_append _ _))
      rw [Run.allSteps_append]
      refine ⟨hsts, ?_, trivial⟩
      cases step with
      | add group => trivial
      | undo n =>
        have hl := h _ prefix_rfl
        rw [foldl_append, foldl_append, ← flatten_groups hne' hsts] at hl
        exact (lengths_undo_iff (mem_foldl_groupStep hne') n).mp hl
  · rintro h pre ⟨post, rfl⟩
    rw [Run.allSteps_append] at h
    rw [flatten_groups (fun step hmem => hne step (mem_append_left _ hmem)) h.1]

end Undo
