import Mathlib

/-!
Tables with one entry per key (`AList`): what an entry reads after an insertion or an erasure, and
how many keys there are.
-/

namespace Table

open List

variable {κ ν : Type} [DecidableEq κ] (t : AList (fun _ : κ => ν)) {k k' : κ} {v : ν} (f : ν → Nat)

theorem lookup_insert (k : κ) (v : ν) (k' : κ) :
    (t.insert k v).lookup k' = if k' = k then some v else t.lookup k' := by
  by_cases h : k' = k
  · rw [if_pos h, h, AList.lookup_insert]
  · rw [if_neg h, AList.lookup_insert_ne h]

theorem lookup_erase (k k' : κ) : (t.erase k).lookup k' = if k' = k then none else t.lookup k' := by
  by_cases h : k' = k
  · rw [if_pos h, h, AList.lookup_erase]
  · rw [if_neg h, AList.lookup_erase_ne h]

theorem lookup_erase_eq_some (h : (t.erase k).lookup k' = some v) : k' ≠ k ∧ t.lookup k' = some v := by
  rw [lookup_erase] at h
  split at h
  · cases h
  · next hne => exact ⟨hne, h⟩

open AList

theorem erase_of_notMem (h : k ∉ t) : t.erase k = t :=
  AList.ext (kerase_of_notMem_keys fun hmem => h (mem_keys.mpr hmem))

theorem mem_iff_lookup : k ∈ t ↔ ∃ v, t.lookup k = some v := by
  rw [← lookup_isSome, Option.isSome_iff_exists]

theorem length_keys_erase_le (k : κ) : (t.erase k).keys.length ≤ t.keys.length := by
  rw [keys_erase]
  exact length_erase_le

theorem length_keys_erase_of_mem (h : k ∈ t) : (t.erase k).keys.length + 1 = t.keys.length := by
  have hmem := AList.mem_keys.mp h
  rw [AList.keys_erase, length_erase_of_mem hmem, Nat.sub_add_cancel (length_pos_of_mem hmem)]

theorem length_keys_insert_le (k : κ) (v : ν) : (t.insert k v).keys.length ≤ t.keys.length + 1 := by
  rw [keys_insert, length_cons]
  exact Nat.add_le_add_right length_erase_le 1

theorem length_keys_insert_of_mem (v : ν) (h : k ∈ t) : (t.insert k v).keys.length = t.keys.length := by
  have hmem := AList.mem_keys.mp h
  rw [AList.keys_insert, length_cons, length_erase_of_mem hmem, Nat.sub_add_cancel (length_pos_of_mem hmem)]

theorem length_keys_insert_of_notMem (v : ν) (h : k ∉ t) : (t.insert k v).keys.length = t.keys.length + 1 := by
  rw [keys_insert, length_cons, erase_of_not_mem fun hmem => h (mem_keys.mpr hmem)]

def total (f : ν → Nat) : Nat := (t.entries.map fun e => f e.2).sum

theorem total_insert (k : κ) (v : ν) : total (t.insert k v) f = f v + total (t.erase k) f := rfl

theorem total_erase_of_lookup (h : t.lookup k = some v) : f v + total (t.erase k) f = total t f := by
  have hmem : k ∈ t.entries.keys := mem_keys.mp ((mem_iff_lookup t).mpr ⟨v, h⟩)
  obtain ⟨b, l₁, l₂, -, hents, hkerase⟩ := exists_of_kerase hmem
  have hb : t.lookup k = some b := mem_lookup_iff.mpr (by rw [hents]; simp)
  obtain rfl : v = b := Option.some.inj (h.symm.trans hb)
  have herase : (t.erase k).entries = l₁ ++ l₂ := hkerase
  rw [total, total, herase, hents]
  simp only [map_append, map_cons, sum_append, sum_cons]
  omega

theorem total_erase_of_lookup_none (h : t.lookup k = none) : total (t.erase k) f = total t f := by
  rw [erase_of_notMem]
  rw [mem_iff_lookup]
  rintro ⟨v, hv⟩
  rw [h] at hv
  cases hv

end Table
