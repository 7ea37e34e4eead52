import Mathlib

/-!
Lists in which runs of dropped items are folded.

Every item comes with a flag, true when it is kept.
-/

namespace Folding

open List

variable {α : Type}

inductive Piece (α : Type) where
  | kept (x : α)
  | folded (xs : List α)

namespace Piece

def items : Piece α → List (Bool × α)
  | kept x => [(true, x)]
  | folded xs => xs.map fun x => (false, x)

def isFolded : Piece α → Bool
  | kept _ => false
  | folded _ => true

def count : Piece α → Nat
  | kept _ => 0
  | folded xs => xs.length

def shown (placeholder : Nat → α) : Piece α → α
  | kept x => x
  | folded xs => placeholder xs.length

end Piece

/-- `ps` are the kept items of `ls` and its maximal runs of dropped ones. -/
structure Cuts (ls : List (Bool × α)) (ps : List (Piece α)) : Prop where
  items : ps.flatMap Piece.items = ls
  nonempty : Piece.folded [] ∉ ps
  maximal : ps.IsChain fun p q => p.isFolded = false ∨ q.isFolded = false

def fold (x : α) : List (Piece α) → List (Piece α)
  | .folded xs :: ps => .folded (x :: xs) :: ps
  | ps => .folded [x] :: ps

def pieces : List (Bool × α) → List (Piece α)
  | [] => []
  | (true, x) :: ls => .kept x :: pieces ls
  | (false, x) :: ls => fold x (pieces ls)

variable {ls : List (Bool × α)} {ps : List (Piece α)}

theorem Cuts.cons_kept (h : Cuts ls ps) (x : α) : Cuts ((true, x) :: ls) (.kept x :: ps) where
  items := by
    rw [flatMap_cons, h.items]
    rfl
  nonempty := by
    have := h.nonempty
    simpa using this
  maximal := by
    cases ps with
    | nil => exact isChain_singleton _
    | cons p ps => exact isChain_cons_cons.mpr ⟨.inl rfl, h.maximal⟩

theorem Cuts.fold (h : Cuts ls ps) (x : α) : Cuts ((false, x) :: ls) (fold x ps) := by
  obtain ⟨hi, hnonempty, hmaximal⟩ := h
  cases ps with
  | nil =>
    cases hi
    exact ⟨rfl, by simp [Folding.fold], isChain_singleton _⟩
  | cons p ps =>
    cases p with
    | kept y =>
      refine ⟨?_, ?_, ?_⟩
      · rw [← hi]
        rfl
      · simpa [Folding.fold] using hnonempty
      · exact isChain_cons_cons.mpr ⟨.inr rfl, hmaximal⟩
    | folded xs =>
      refine ⟨?_, ?_, ?_⟩
      · rw [← hi]
        rfl
      · simp only [Folding.fold, mem_cons, not_or] at hnonempty ⊢
        exact ⟨by simp, hnonempty.2⟩
      · -- the run is longer, and what follows it is the same
        cases ps with
        | nil => exact isChain_singleton _
        | cons q ps =>
          rw [isChain_cons_cons] at hmaximal
          exact isChain_cons_cons.mpr hmaximal

theorem cuts_pieces (ls : List (Bool × α)) : Cuts ls (pieces ls) := by
  induction ls with
  | nil => exact ⟨rfl, by simp [pieces], isChain_nil⟩
  | cons l ls ih =>
    obtain ⟨flag, x⟩ := l
    cases flag with
    | false => exact ih.fold x
    | true => exact ih.cons_kept x

theorem pieces_run {xs : List α} (hxs : xs ≠ []) (hls : ∀ l ∈ ls.head?, l.1 = true) :
    pieces (xs.map (fun x => (false, x)) ++ ls) = .folded xs :: pieces ls := by
  induction xs with
  | nil => exact absurd rfl hxs
  | cons x xs ih =>
    show fold x (pieces (xs.map (fun x => (false, x)) ++ ls)) = _
    cases xs with
    | cons y ys =>
      rw [ih (cons_ne_nil _ _)]
      rfl
    | nil =>
      match ls, hls with
      | [], _ => rfl
      | (true, l) :: ls, _ => rfl
      | (false, l) :: ls, hls => exact absurd (hls _ rfl) Bool.false_ne_true

theorem Cuts.sum_count (h : Cuts ls ps) : (ps.map Piece.count).sum = ls.countP fun l => !l.1 := by
  rw [← h.items]
  clear h
  induction ps with
  | nil => rfl
  | cons p ps ih =>
    rw [map_cons, sum_cons, ih, flatMap_cons, countP_append]
    congr 1
    cases p with
    | kept x => rfl
    | folded xs =>
      rw [Piece.items, countP_map]
      exact (countP_eq_length.mpr fun _ _ => rfl).symm

theorem Cuts.sublist_shown (h : Cuts ls ps) (placeholder : Nat → α) :
    ((ls.filter Prod.fst).map Prod.snd).Sublist (ps.map (Piece.shown placeholder)) := by
  rw [← h.items]
  clear h
  induction ps with
  | nil => exact List.Sublist.refl _
  | cons p ps ih =>
    rw [flatMap_cons, filter_append, map_append, map_cons]
    cases p with
    | kept x => exact ih.cons_cons x
    | folded xs =>
      have hnone : ((Piece.folded xs).items.filter Prod.fst).map Prod.snd = [] := by
        simp [Piece.items, filter_eq_nil_iff]
      rw [hnone]
      exact ih.cons _

theorem shown_of_all_kept (placeholder : Nat → α) (h : ∀ l ∈ ls, l.1 = true) :
    (pieces ls).map (Piece.shown placeholder) = ls.map Prod.snd := by
  induction ls with
  | nil => rfl
  | cons l ls ih =>
    obtain ⟨flag, x⟩ := l
    have hflag : flag = true := h _ mem_cons_self
    subst hflag
    rw [pieces, map_cons, ih (forall_mem_cons.mp h).2]
    rfl

end Folding
