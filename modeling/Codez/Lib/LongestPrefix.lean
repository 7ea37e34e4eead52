import Mathlib

/-!
Rules for paths where the longest matching path decides, and among equal paths the
strongest rule.

A rule `e` matches a target when `path e` is a prefix of it.
-/

namespace LongestPrefix

open List

section
variable {β κ : Type} [LinearOrder κ] {key : β → κ} {xs : List β}

def maxByKey (key : β → κ) : List β → Option β
  | [] => none
  | x :: xs =>
    match maxByKey key xs with
    | none => some x
    | some y => if key y < key x then some x else some y

theorem maxByKey_eq_none : maxByKey key xs = none ↔ xs = [] := by
  cases xs with
  | nil => simp [maxByKey]
  | cons x xs =>
    simp only [maxByKey, reduceCtorEq, iff_false]
    split
    · simp
    · split <;> simp

theorem maxByKey_spec {y : β} (h : maxByKey key xs = some y) : y ∈ xs ∧ ∀ x ∈ xs, key x ≤ key y := by
  induction xs generalizing y with
  | nil => cases h
  | cons x xs ih =>
    rw [maxByKey] at h
    split at h
    · next hnone =>
      cases h
      simp [maxByKey_eq_none.mp hnone]
    · next z hz =>
      obtain ⟨hmem, hle⟩ := ih hz
      split at h
      · next hlt =>
        cases h
        refine ⟨mem_cons_self, fun w hw => ?_⟩
        rcases mem_cons.mp hw with rfl | hw
        · exact le_refl _
        · exact (hle w hw).trans hlt.le
      · next hge =>
        cases h
        refine ⟨mem_cons_of_mem _ hmem, fun w hw => ?_⟩
        rcases mem_cons.mp hw with rfl | hw
        · exact not_lt.mp hge
        · exact hle w hw

end

section
variable {α β ρ : Type} [LinearOrder ρ] (path : β → List α) (rank : β → ρ)

structure Wins (rules : List β) (t : List α) (e : β) : Prop where
  mem : e ∈ rules
  covers : path e <+: t
  longest : ∀ e' ∈ rules, path e' <+: t → (path e').length ≤ (path e).length
  strongest : ∀ e' ∈ rules, path e' = path e → rank e' ≤ rank e

variable {path rank} {rules rules' : List β} {t t' : List α} {e e' : β}

theorem Wins.above (h : Wins path rank rules t e) (hmem : e' ∈ rules) (hcov : path e' <+: t) :
    path e' <+: path e :=
  prefix_of_prefix_length_le hcov h.covers (h.longest e' hmem hcov)

theorem Wins.path_eq (h : Wins path rank rules t e) (h' : Wins path rank rules t e') : path e = path e' := by
  have hle : path e <+: path e' := h'.above h.mem h.covers
  exact hle.eq_of_length (le_antisymm hle.length_le (h.longest e' h'.mem h'.covers))

theorem Wins.rank_eq (h : Wins path rank rules t e) (h' : Wins path rank rules t e') : rank e = rank e' := by
  have hp : path e = path e' := h.path_eq h'
  exact le_antisymm (h'.strongest e h.mem hp) (h.strongest e' h'.mem hp.symm)

theorem Wins.of_between (h : Wins path rank rules t e) (hcov : path e <+: t')
    (hbetween : ∀ e' ∈ rules, path e' <+: t' → (path e').length ≤ (path e).length) :
    Wins path rank rules t' e :=
  ⟨h.mem, hcov, hbetween, h.strongest⟩

theorem Wins.self (h : Wins path rank rules t e) : Wins path rank rules (path e) e :=
  h.of_between (prefix_refl _) fun _ _ hcov => hcov.length_le

theorem Wins.of_mem_iff (hmem : ∀ e, e ∈ rules ↔ e ∈ rules') (h : Wins path rank rules t e) :
    Wins path rank rules' t e :=
  ⟨(hmem e).mp h.mem, h.covers, fun e' he' => h.longest e' ((hmem e').mpr he'),
    fun e' he' => h.strongest e' ((hmem e').mpr he')⟩

theorem wins_of_maxByKey [DecidableEq α] {κ : Type} [LinearOrder κ] {key : β → κ}
    (hlen : ∀ e e', (path e).length < (path e').length → key e < key e')
    (hrank : ∀ e e', path e = path e' → rank e < rank e' → key e < key e')
    (h : maxByKey key (rules.filter fun e => path e <+: t) = some e) : Wins path rank rules t e := by
  obtain ⟨hmem, hle⟩ := maxByKey_spec h
  obtain ⟨hmem, hcov⟩ := mem_filter.mp hmem
  have hcov : path e <+: t := of_decide_eq_true hcov
  refine ⟨hmem, hcov, fun e' he' hcovers' => ?_, fun e' he' hp => ?_⟩
  · by_contra hlt
    have hkey := hle e' (mem_filter.mpr ⟨he', decide_eq_true hcovers'⟩)
    exact absurd (hlen e e' (not_le.mp hlt)) (not_lt.mpr hkey)
  · by_contra hlt
    have hkey := hle e' (mem_filter.mpr ⟨he', decide_eq_true (hp ▸ hcov)⟩)
    exact absurd (hrank e e' hp.symm (not_le.mp hlt)) (not_lt.mpr hkey)

end

end LongestPrefix
