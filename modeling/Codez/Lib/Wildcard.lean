import Mathlib

/-!
Patterns with wildcards.

A pattern is a list of tokens: a letter, any one letter, any run of letters.
-/

namespace Wildcard

open List

inductive Token (α : Type) where
  | letter (a : α)
  | any
  | run
deriving DecidableEq

variable {α : Type} (same : α → α → Bool)

def accepts : List (Token α) → List α → Bool
  | [], s => s.isEmpty
  | .letter a :: p, b :: s => same a b && accepts p s
  | .any :: p, _ :: s => accepts p s
  | .run :: p, s => s.tails.any (accepts p)
  | .letter _ :: _, [] => false
  | .any :: _, [] => false

variable {same} {p : List (Token α)} {s : List α}

theorem accepts_run_iff :
    accepts same (.run :: p) s = true ↔ ∃ s₁ s₂, s = s₁ ++ s₂ ∧ accepts same p s₂ = true := by
  rw [accepts, any_eq_true]
  constructor
  · rintro ⟨s₂, hs₂, hp⟩
    obtain ⟨s₁, hs⟩ := mem_tails s₂ s |>.mp hs₂
    exact ⟨s₁, s₂, hs.symm, hp⟩
  · rintro ⟨s₁, s₂, rfl, hp⟩
    exact ⟨s₂, (mem_tails _ _).mpr (suffix_append _ _), hp⟩

theorem accepts_append {q : List (Token α)} :
    accepts same (p ++ q) s = true ↔ ∃ s₁ s₂, s = s₁ ++ s₂ ∧ accepts same p s₁ = true ∧ accepts same q s₂ = true := by
  induction p generalizing s with
  | nil =>
    constructor
    · intro h
      exact ⟨[], s, rfl, rfl, h⟩
    · rintro ⟨s₁, s₂, rfl, hs₁, hs₂⟩
      rw [accepts, List.isEmpty_iff] at hs₁
      rw [hs₁]
      exact hs₂
  | cons token p ih =>
    cases token with
    | letter a =>
      cases s with
      | nil => simp [accepts]
      | cons b s =>
        rw [cons_append, accepts, Bool.and_eq_true, ih]
        constructor
        · rintro ⟨hb, s₁, s₂, rfl, hs₁, hs₂⟩
          exact ⟨b :: s₁, s₂, rfl, by rw [accepts, hb, hs₁]; rfl, hs₂⟩
        · rintro ⟨s₁, s₂, hs, hs₁, hs₂⟩
          cases s₁ with
          | nil => cases hs₁
          | cons c s₁ =>
            obtain ⟨rfl, rfl⟩ := List.cons.inj hs
            rw [accepts, Bool.and_eq_true] at hs₁
            exact ⟨hs₁.1, s₁, s₂, rfl, hs₁.2, hs₂⟩
    | any =>
      cases s with
      | nil => simp [accepts]
      | cons b s =>
        rw [cons_append, accepts, ih]
        constructor
        · rintro ⟨s₁, s₂, rfl, hs₁, hs₂⟩
          exact ⟨b :: s₁, s₂, rfl, hs₁, hs₂⟩
        · rintro ⟨s₁, s₂, hs, hs₁, hs₂⟩
          cases s₁ with
          | nil => cases hs₁
          | cons c s₁ =>
            obtain ⟨rfl, rfl⟩ := List.cons.inj hs
            exact ⟨s₁, s₂, rfl, hs₁, hs₂⟩
    | run =>
      rw [cons_append, accepts_run_iff]
      constructor
      · rintro ⟨s₁, s₂, rfl, hs⟩
        obtain ⟨t₁, t₂, rfl, ht₁, ht₂⟩ := ih.mp hs
        exact ⟨s₁ ++ t₁, t₂, (append_assoc _ _ _).symm, accepts_run_iff.mpr ⟨s₁, t₁, rfl, ht₁⟩, ht₂⟩
      · rintro ⟨s₁, s₂, rfl, hs₁, hs₂⟩
        obtain ⟨t₁, t₂, rfl, ht₂⟩ := accepts_run_iff.mp hs₁
        exact ⟨t₁, t₂ ++ s₂, append_assoc _ _ _, ih.mpr ⟨t₂, s₂, rfl, ht₂, hs₂⟩⟩

theorem accepts_letters {t : List α} (hsame : ∀ a ∈ t, ∀ b ∈ s, same a b = true ↔ a = b) :
    accepts same (t.map .letter) s = true ↔ t = s := by
  induction t generalizing s with
  | nil => cases s <;> simp [accepts]
  | cons a t ih =>
    cases s with
    | nil => simp [accepts]
    | cons b s =>
      have hrest := ih fun a ha b hb => hsame a (mem_cons_of_mem _ ha) b (mem_cons_of_mem _ hb)
      simp [accepts, hsame a mem_cons_self b mem_cons_self, hrest]

end Wildcard
