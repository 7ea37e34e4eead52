import Mathlib

/-!
Ordered maps as association lists with strictly increasing keys.

`alterL` is the one update: it replaces the value at a key by a function of what stood there, and
puts a new key at its place.
-/

namespace OrdMap

open List

variable {κ ν : Type} [LinearOrder κ] (k : κ) (f : Option ν → ν) (m : List (κ × ν))

def Increasing (m : List (κ × ν)) : Prop := m.Pairwise fun a b => a.1 < b.1

def alterL (k : κ) (f : Option ν → ν) : List (κ × ν) → List (κ × ν)
  | [] => [(k, f none)]
  | e :: m =>
    if k < e.1 then (k, f none) :: e :: m
    else if k = e.1 then (e.1, f (some e.2)) :: m
    else e :: alterL k f m

def insertL (k : κ) (v : ν) (m : List (κ × ν)) : List (κ × ν) := alterL k (fun _ => v) m

theorem key_of_mem_alterL (e : κ × ν) (h : e ∈ alterL k f m) : e.1 = k ∨ ∃ e' ∈ m, e'.1 = e.1 := by
  induction m with
  | nil =>
    simp only [alterL, mem_singleton] at h
    exact .inl (by rw [h])
  | cons a m ih =>
    unfold alterL at h
    split at h
    · rcases mem_cons.mp h with rfl | h
      · exact .inl rfl
      · exact .inr ⟨e, h, rfl⟩
    · split at h
      · rcases mem_cons.mp h with rfl | h
        · exact .inr ⟨a, mem_cons_self, rfl⟩
        · exact .inr ⟨e, mem_cons_of_mem _ h, rfl⟩
      · rcases mem_cons.mp h with rfl | h
        · exact .inr ⟨e, mem_cons_self, rfl⟩
        · rcases ih h with h | ⟨e', he', hk⟩
          · exact .inl h
          · exact .inr ⟨e', mem_cons_of_mem _ he', hk⟩

theorem increasing_alterL (h : Increasing m) : Increasing (alterL k f m) := by
  unfold Increasing at h ⊢
  induction m with
  | nil => simp [alterL]
  | cons a m ih =>
    rw [pairwise_cons] at h
    unfold alterL
    split
    · next hlt =>
      rw [pairwise_cons, pairwise_cons]
      refine ⟨fun e he => ?_, h⟩
      rcases mem_cons.mp he with rfl | he
      · exact hlt
      · exact lt_trans hlt (h.1 e he)
    · next hlt =>
      split
      · rw [pairwise_cons]
        exact ⟨fun e he => h.1 e he, h.2⟩
      · next hne =>
        rw [pairwise_cons]
        refine ⟨fun e he => ?_, ih h.2⟩
        rcases key_of_mem_alterL k f m e he with hk | ⟨e', he', hk⟩
        · rw [hk]
          exact lt_of_le_of_ne (not_lt.mp hlt) (fun hc => hne hc.symm)
        · rw [← hk]
          exact h.1 e' he'

theorem lookup_eq_none_of_lt (h : ∀ e ∈ m, k < e.1) : m.lookup k = none := by
  induction m with
  | nil => rfl
  | cons a m ih =>
    have hne : (k == a.1) = false := beq_false_of_ne (ne_of_lt (h a mem_cons_self))
    simp only [List.lookup, hne]
    exact ih (forall_mem_cons.mp h).2

theorem lookup_alterL_self (h : Increasing m) : (alterL k f m).lookup k = some (f (m.lookup k)) := by
  unfold Increasing at h
  induction m with
  | nil => simp [alterL]
  | cons a m ih =>
    rw [pairwise_cons] at h
    unfold alterL
    split
    · next hlt =>
      rw [lookup_eq_none_of_lt k (a :: m)]
      · simp
      · intro e he
        rcases mem_cons.mp he with rfl | he
        · exact hlt
        · exact lt_trans hlt (h.1 e he)
    · split
      · next heq =>
        subst heq
        simp [List.lookup]
      · next hne =>
        have hb : (k == a.1) = false := beq_false_of_ne hne
        simp only [List.lookup, hb]
        exact ih h.2

theorem lookup_alterL_ne (k k' : κ) (f : Option ν → ν) (m : List (κ × ν)) (h : k' ≠ k) :
    (alterL k f m).lookup k' = m.lookup k' := by
  have hb : (k' == k) = false := beq_false_of_ne h
  induction m with
  | nil => simp [alterL, List.lookup, hb]
  | cons a m ih =>
    unfold alterL
    split
    · simp [List.lookup, hb]
    · split
      · next heq =>
        subst heq
        simp [List.lookup, hb]
      · simp only [List.lookup, ih]

end OrdMap

structure OrdMap (κ ν : Type) [LinearOrder κ] where
  entries : List (κ × ν)
  increasing : OrdMap.Increasing entries

namespace OrdMap

open List

variable {κ ν : Type} [LinearOrder κ] (m : OrdMap κ ν)

def empty : OrdMap κ ν := ⟨[], List.Pairwise.nil⟩

instance : Inhabited (OrdMap κ ν) := ⟨empty⟩

def get? (m : OrdMap κ ν) (k : κ) : Option ν := m.entries.lookup k

def alter (m : OrdMap κ ν) (k : κ) (f : Option ν → ν) : OrdMap κ ν :=
  ⟨alterL k f m.entries, increasing_alterL k f m.entries m.increasing⟩

@[simp] theorem get?_empty (k : κ) : (empty : OrdMap κ ν).get? k = none := rfl

@[simp] theorem get?_alter_self (k : κ) (f : Option ν → ν) : (m.alter k f).get? k = some (f (m.get? k)) :=
  lookup_alterL_self k f m.entries m.increasing

theorem get?_alter_ne (k k' : κ) (f : Option ν → ν) (h : k' ≠ k) : (m.alter k f).get? k' = m.get? k' :=
  lookup_alterL_ne k k' f m.entries h

theorem get?_alter (k k' : κ) (f : Option ν → ν) :
    (m.alter k f).get? k' = if k' = k then some (f (m.get? k)) else m.get? k' := by
  split
  · next h => subst h; exact get?_alter_self m k' f
  · next h => exact get?_alter_ne m k k' f h

theorem mem_entries_iff (k : κ) (v : ν) : (k, v) ∈ m.entries ↔ m.get? k = some v := by
  obtain ⟨l, hl⟩ := m
  simp only [get?]
  unfold Increasing at hl
  induction l with
  | nil => simp
  | cons a l ih =>
    rw [pairwise_cons] at hl
    by_cases hk : k = a.1
    · subst hk
      have hno : ∀ v', (a.1, v') ∉ l := fun v' hm => lt_irrefl a.1 (hl.1 (a.1, v') hm)
      simp only [mem_cons, List.lookup, beq_self_eq_true, Option.some.injEq]
      constructor
      · rintro (h | h)
        · exact (congrArg Prod.snd h).symm
        · exact absurd h (hno v)
      · rintro rfl
        exact .inl rfl
    · have hb : (k == a.1) = false := beq_false_of_ne hk
      simp only [mem_cons, List.lookup, hb]
      rw [← ih hl.2]
      constructor
      · rintro (h | h)
        · exact absurd (congrArg Prod.fst h) hk
        · exact h
      · exact .inr

theorem mem_keys_iff (k : κ) : k ∈ m.entries.map Prod.fst ↔ (m.get? k).isSome := by
  rw [mem_map, Option.isSome_iff_exists]
  constructor
  · rintro ⟨e, he, rfl⟩
    exact ⟨e.2, (mem_entries_iff m e.1 e.2).mp he⟩
  · rintro ⟨v, hv⟩
    exact ⟨(k, v), (mem_entries_iff m k v).mpr hv, rfl⟩

theorem pairwise_keys : (m.entries.map Prod.fst).Pairwise (· < ·) :=
  pairwise_map.mpr m.increasing

theorem nodup_entries : m.entries.Nodup := by
  refine List.Pairwise.imp ?_ m.increasing
  rintro a b hlt rfl
  exact lt_irrefl _ hlt

theorem ext_get? {m m' : OrdMap κ ν} (h : ∀ k, m.get? k = m'.get? k) : m = m' := by
  have hmem : ∀ e, e ∈ m.entries ↔ e ∈ m'.entries := by
    rintro ⟨k, v⟩
    rw [mem_entries_iff, mem_entries_iff, h k]
  have hperm : m.entries.Perm m'.entries :=
    (perm_ext_iff_of_nodup m.nodup_entries m'.nodup_entries).mpr hmem
  obtain ⟨l, hl⟩ := m
  obtain ⟨l', hl'⟩ := m'
  obtain rfl : l = l' := hperm.eq_of_pairwise (fun a b _ _ hab hba => absurd hba (lt_asymm hab)) hl hl'
  rfl

theorem alter_comm {k k' : κ} (f g : Option ν → ν) (h : k ≠ k') :
    (m.alter k f).alter k' g = (m.alter k' g).alter k f := by
  apply ext_get?
  intro j
  simp only [get?_alter]
  by_cases hj : j = k
  · subst hj
    simp [h]
  · by_cases hj' : j = k'
    · subst hj'
      simp [hj]
    · simp [hj, hj']

theorem get?_foldl_alter {α : Type} (key : α → κ) (f : α → Option ν → ν) (xs : List α)
    (m : OrdMap κ ν) (k : κ) :
    (xs.foldl (fun m x => m.alter (key x) (f x)) m).get? k =
      (xs.filter fun x => key x = k).foldl (fun o x => some (f x o)) (m.get? k) := by
  induction xs generalizing m with
  | nil => rfl
  | cons x xs ih =>
    rw [foldl_cons, ih, get?_alter]
    by_cases hx : key x = k
    · simp [hx]
    · have hx' : k ≠ key x := fun hc => hx hc.symm
      simp [hx, hx']

end OrdMap
