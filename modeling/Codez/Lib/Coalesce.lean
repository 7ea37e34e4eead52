import Mathlib

/-!
Coalescing: a log of changes in which a later change at a key takes the place of the earlier one.

For an action whose changes overwrite an earlier one at their key (`Overwriting`), the coalesced log
acts like the whole log (`Overwriting.foldl_upsert`).
-/

namespace Coalesce

open List

variable {σ κ α : Type} [DecidableEq κ] {key : α → κ} {x y : α} {pre xs : List α}

/-! ## The first entry at a key

An entry at the key `k` still has it when it is changed (`hg`). -/

def modify (key : α → κ) (k : κ) (g : α → α) : List α → List α
  | [] => []
  | x :: xs => if key x = k then g x :: xs else x :: modify key k g xs

section
variable {k k' : κ} {g g' : α → α} (hg : ∀ x, key x = k → key (g x) = k)

include hg

theorem keys_modify (xs : List α) : (modify key k g xs).map key = xs.map key := by
  induction xs with
  | nil => rfl
  | cons x xs ih =>
    rw [modify]
    split
    · next hx => simp [hg x hx, hx]
    · simp [ih]

theorem modify_modify (xs : List α) : modify key k g' (modify key k g xs) = modify key k (g' ∘ g) xs := by
  induction xs with
  | nil => rfl
  | cons x xs ih =>
    by_cases hx : key x = k
    · simp [modify, hx, hg x hx]
    · simp [modify, hx, ih]

theorem modify_comm (hg' : ∀ x, key x = k' → key (g' x) = k') (hne : k ≠ k') (xs : List α) :
    modify key k g (modify key k' g' xs) = modify key k' g' (modify key k g xs) := by
  induction xs with
  | nil => rfl
  | cons x xs ih =>
    by_cases hx : key x = k
    · simp [modify, hx, hg x hx, hne]
    · by_cases hx' : key x = k'
      · simp [modify, hx', hg' x hx', hne.symm]
      · simp [modify, hx, hx', ih]

theorem find?_modify (k' : κ) (xs : List α) : (modify key k g xs).find? (fun x => key x = k') =
      if k' = k then (xs.find? fun x => key x = k).map g else xs.find? fun x => key x = k' := by
  induction xs with
  | nil => simp [modify]
  | cons x xs ih =>
    by_cases hx : key x = k
    · by_cases hk : k' = k
      · simp [modify, hx, hg x hx, hk]
      · simp [modify, hx, hg x hx, hk, Ne.symm hk]
    · by_cases hx' : key x = k'
      · have hk : k' ≠ k := fun hc => hx (hx'.trans hc)
        simp [modify, hx', hk]
      · simp only [modify, hx, if_false, find?_cons, hx', decide_false, ih]

theorem filter_modify (p : κ → Bool) (xs : List α) : (modify key k g xs).filter (fun x => p (key x)) =
      if p k then modify key k g (xs.filter fun x => p (key x)) else xs.filter fun x => p (key x) := by
  induction xs with
  | nil => simp [modify]
  | cons x xs ih =>
    by_cases hx : key x = k
    · by_cases hp : p k = true
      · simp [modify, hx, hg x hx, hp]
      · simp [modify, hx, hg x hx, hp]
    · by_cases hp : p (key x) = true
      · simp only [modify, if_neg hx, filter_cons, hp, if_true, ih]
        split
        · rfl
        · rfl
      · simp only [modify, if_neg hx, filter_cons, hp, Bool.false_eq_true, if_false, ih]

end

theorem modify_append_cons {k : κ} (g : α → α) (post : List α) (hpre : k ∉ pre.map key) (hx : key x = k) :
    modify key k g (pre ++ x :: post) = pre ++ g x :: post := by
  induction pre with
  | nil => rw [nil_append, modify, if_pos hx, nil_append]
  | cons y pre ih =>
    simp only [map_cons, mem_cons, not_or] at hpre
    rw [cons_append, modify, if_neg fun hy => hpre.1 hy.symm, ih hpre.2, cons_append]

theorem modify_congr {k : κ} {g g' : α → α} (h : ∀ x ∈ xs.find? fun x => key x = k, g x = g' x) :
    modify key k g xs = modify key k g' xs := by
  induction xs with
  | nil => rfl
  | cons x xs ih =>
    by_cases hx : key x = k
    · rw [modify, modify, if_pos hx, if_pos hx, h x (by simp [hx])]
    · rw [modify, modify, if_neg hx, if_neg hx, ih (by simpa [hx] using h)]

theorem modify_append_of_mem {k : κ} (g : α → α) (ys : List α) (h : k ∈ xs.map key) :
    modify key k g (xs ++ ys) = modify key k g xs ++ ys := by
  induction xs with
  | nil => cases h
  | cons x xs ih =>
    rw [cons_append, modify, modify]
    split
    · rfl
    · next hx =>
      rw [ih ((mem_cons.mp h).resolve_left fun hk => hx hk.symm), cons_append]

theorem modify_append_of_not_mem {k : κ} (g : α → α) (ys : List α) (h : k ∉ xs.map key) :
    modify key k g (xs ++ ys) = xs ++ modify key k g ys := by
  induction xs with
  | nil => rfl
  | cons x xs ih =>
    simp only [map_cons, mem_cons, not_or] at h
    rw [cons_append, modify, if_neg fun hx => h.1 hx.symm, ih h.2, cons_append]

def put (key : α → κ) (k : κ) (g : α → α) (new : α) (xs : List α) : List α :=
  if k ∈ xs.map key then modify key k g xs else xs ++ [new]

section
variable {k k' : κ} {g g' : α → α} {new new' : α} (hg : ∀ x, key x = k → key (g x) = k) (hnew : key new = k)

include hg hnew

theorem keys_put (xs : List α) :
    (put key k g new xs).map key = if k ∈ xs.map key then xs.map key else xs.map key ++ [k] := by
  unfold put
  split
  · exact keys_modify hg xs
  · simp [hnew]

theorem mem_keys_put (xs : List α) (k' : κ) : k' ∈ (put key k g new xs).map key ↔ k' = k ∨ k' ∈ xs.map key := by
  rw [keys_put hg hnew]
  split
  · next hk =>
    constructor
    · exact .inr
    · rintro (rfl | h)
      · exact hk
      · exact h
  · rw [mem_append, mem_singleton, or_comm]

theorem put_put (hover : ∀ x, g' (g x) = g' x) (hnewover : g' new = new') (xs : List α) :
    put key k g' new' (put key k g new xs) = put key k g' new' xs := by
  unfold put
  by_cases hk : k ∈ xs.map key
  · have hk' : k ∈ (modify key k g xs).map key := (keys_modify hg xs).symm ▸ hk
    rw [if_pos hk, if_pos hk', if_pos hk, modify_modify hg]
    exact modify_congr fun x _ => hover x
  · have hk' : k ∈ (xs ++ [new]).map key := by simp [hnew]
    rw [if_neg hk, if_pos hk', if_neg hk, modify_append_of_not_mem _ _ hk, modify, if_pos hnew, hnewover]

theorem filter_put (p : κ → Bool) (xs : List α) : (put key k g new xs).filter (fun x => p (key x)) =
      if p k then put key k g new (xs.filter fun x => p (key x)) else xs.filter fun x => p (key x) := by
  unfold put
  by_cases hk : k ∈ xs.map key
  · rw [if_pos hk, filter_modify hg]
    split
    · next hp =>
      have hk' : k ∈ (xs.filter fun x => p (key x)).map key := by
        obtain ⟨x, hx, rfl⟩ := mem_map.mp hk
        exact mem_map.mpr ⟨x, mem_filter.mpr ⟨hx, hp⟩, rfl⟩
      rw [if_pos hk']
    · rfl
  · have hk' : k ∉ (xs.filter fun x => p (key x)).map key := fun h => hk <|
      (filter_sublist.map key).subset h
    rw [if_neg hk, if_neg hk', filter_append]
    split
    · next hp => simp [hnew, hp]
    · next hp => simp [hnew, hp]

omit hnew in
theorem put_comm (hg' : ∀ x, key x = k' → key (g' x) = k') (hnew' : key new' = k') (hne : k ≠ k')
    (hk : k ∈ xs.map key) :
    put key k g new (put key k' g' new' xs) = put key k' g' new' (put key k g new xs) := by
  have hk₁ : k ∈ (put key k' g' new' xs).map key := (mem_keys_put hg' hnew' xs k).mpr (.inr hk)
  rw [put, if_pos hk₁]
  simp only [put, if_pos hk, keys_modify hg]
  split
  · exact modify_comm hg hg' hne xs
  · exact modify_append_of_mem _ _ hk

end

def upsert (key : α → κ) (x : α) (xs : List α) : List α :=
  if key x ∈ xs.map key then modify key (key x) (fun _ => x) xs else xs ++ [x]

theorem upsert_of_not_mem (h : key x ∉ xs.map key) : upsert key x xs = xs ++ [x] := if_neg h

theorem upsert_cons (x y : α) (xs : List α) :
    upsert key x (y :: xs) = if key y = key x then x :: xs else y :: upsert key x xs := by
  unfold upsert
  by_cases hy : key y = key x
  · simp [hy, modify]
  · by_cases hx : key x ∈ xs.map key
    · have hx' : key x ∈ (y :: xs).map key := mem_cons_of_mem _ hx
      rw [if_pos hx', if_neg hy, if_pos hx, modify, if_neg hy]
    · have hx' : key x ∉ (y :: xs).map key := by
        rw [map_cons, mem_cons, not_or]
        exact ⟨fun h => hy h.symm, hx⟩
      rw [if_neg hx', if_neg hy, if_neg hx, cons_append]

theorem keys_upsert (x : α) (xs : List α) :
    (upsert key x xs).map key = if key x ∈ xs.map key then xs.map key else xs.map key ++ [key x] :=
  keys_put (fun _ _ => rfl) rfl xs

theorem mem_keys_upsert (x : α) (xs : List α) (k : κ) : k ∈ (upsert key x xs).map key ↔ k = key x ∨ k ∈ xs.map key :=
  mem_keys_put (fun _ _ => rfl) rfl xs k

theorem nodup_keys_upsert (x : α) (h : (xs.map key).Nodup) : ((upsert key x xs).map key).Nodup := by
  rw [keys_upsert]
  split
  · exact h
  · next hx =>
    rw [nodup_append_comm]
    exact nodup_cons.mpr ⟨hx, h⟩

theorem mem_upsert (h : y ∈ upsert key x xs) : y = x ∨ y ∈ xs := by
  induction xs with
  | nil => exact .inl (mem_singleton.mp (by simpa [upsert] using h))
  | cons z zs ih =>
    rw [upsert_cons] at h
    split at h
    · rcases mem_cons.mp h with h | h
      · exact .inl h
      · exact .inr (mem_cons_of_mem _ h)
    · rcases mem_cons.mp h with rfl | h
      · exact .inr mem_cons_self
      · exact (ih h).imp id (mem_cons_of_mem _)

theorem mem_foldl_upsert {ys : List α} (h : x ∈ ys.foldl (fun xs y => upsert key y xs) xs) :
    x ∈ ys ∨ x ∈ xs := by
  induction ys generalizing xs with
  | nil => exact .inr h
  | cons y ys ih =>
    rcases ih h with h | h
    · exact .inl (mem_cons_of_mem _ h)
    · rcases mem_upsert h with rfl | h
      · exact .inl mem_cons_self
      · exact .inr h

theorem upsert_append_cons (post : List α) (hpre : key x ∉ pre.map key) (hy : key y = key x) :
    upsert key x (pre ++ y :: post) = pre ++ x :: post := by
  have hx : key x ∈ (pre ++ y :: post).map key := by simp [hy]
  rw [upsert, if_pos hx, modify_append_cons _ _ hpre hy]

theorem upsert_upsert (hxy : key x = key y) (xs : List α) : upsert key y (upsert key x xs) = upsert key y xs := by
  have hx : upsert key x xs = put key (key y) (fun _ => x) x xs := by rw [← hxy]; rfl
  rw [hx]
  exact put_put (fun _ _ => hxy) hxy (fun _ => rfl) rfl xs

theorem upsert_comm (hy : key y ∈ xs.map key) (hne : key x ≠ key y) :
    upsert key y (upsert key x xs) = upsert key x (upsert key y xs) :=
  put_comm (fun _ _ => rfl) (fun _ _ => rfl) rfl hne.symm hy

/-- A change at a key overwrites the one before it, and where there is one it may be moved before
changes at other keys.  `has s k` says that `s` has a place for `k`. -/
structure Overwriting (act : σ → α → σ) (key : α → κ) (has : σ → κ → Prop) : Prop where
  has_act : ∀ s x, has (act s x) (key x)
  has_kept : ∀ s x k, has s k → has (act s x) k
  overwrite : ∀ s x y, key x = key y → act (act s x) y = act s y
  comm : ∀ s x y, has s (key y) → key x ≠ key y → act (act s x) y = act (act s y) x

namespace Overwriting

variable {act : σ → α → σ} {has : σ → κ → Prop}

omit [DecidableEq κ] in
theorem foldl_comm (h : Overwriting act key has) (xs : List α) {s : σ} (hs : has s (key y)) (hxs : key y ∉ xs.map key) :
    act (xs.foldl act s) y = xs.foldl act (act s y) := by
  induction xs generalizing s with
  | nil => rfl
  | cons x xs ih =>
    simp only [map_cons, mem_cons, not_or] at hxs
    rw [foldl_cons, ih (h.has_kept s x _ hs) hxs.2, h.comm s x y hs fun hx => hxs.1 hx.symm, foldl_cons]

theorem foldl_upsert (h : Overwriting act key has) (y : α) (xs : List α) (hnd : (xs.map key).Nodup) (s : σ) :
    (upsert key y xs).foldl act s = act (xs.foldl act s) y := by
  induction xs generalizing s with
  | nil => rfl
  | cons x xs ih =>
    rw [map_cons, nodup_cons] at hnd
    rw [upsert_cons]
    split
    · next hx =>
      have hs : has (act s x) (key y) := hx ▸ h.has_act s x
      rw [foldl_cons, foldl_cons, h.foldl_comm xs hs (hx ▸ hnd.1), h.overwrite s x y hx]
    · rw [foldl_cons, foldl_cons, ih hnd.2]

theorem foldl_foldl_upsert (h : Overwriting act key has) (ys xs : List α) (hnd : (xs.map key).Nodup) (s : σ) :
    (ys.foldl (fun xs y => upsert key y xs) xs).foldl act s = ys.foldl act (xs.foldl act s) := by
  induction ys generalizing xs with
  | nil => rfl
  | cons y ys ih => rw [foldl_cons, ih _ (nodup_keys_upsert y hnd), h.foldl_upsert y xs hnd, foldl_cons]

end Overwriting

def Indexed (key : α → κ) (slots : List (Option α)) (indexes : AList (fun _ : κ => Nat)) : Prop :=
  ∀ k i, indexes.lookup k = some i ↔ ∃ x, slots[i]? = some (some x) ∧ key x = k

structure Slots (key : α → κ) where
  slots : List (Option α)
  indexes : AList (fun _ : κ => Nat)
  indexed : Indexed key slots indexes

namespace Indexed

variable {slots : List (Option α)} {indexes : AList (fun _ : κ => Nat)} {i : Nat}

theorem unique (h : Indexed key slots indexes) {j : Nat} (hx : slots[i]? = some (some x))
    (hy : slots[j]? = some (some y)) (hkey : key x = key y) : i = j := by
  have hi := (h (key x) i).mpr ⟨x, hx, rfl⟩
  rw [hkey, (h (key y) j).mpr ⟨y, hy, rfl⟩] at hi
  exact (Option.some.inj hi).symm

theorem set (h : Indexed key slots indexes) (hi : indexes.lookup (key x) = some i) :
    Indexed key (slots.set i (some x)) indexes := by
  obtain ⟨y, hy, hkey⟩ := (h _ _).mp hi
  have hlt : i < slots.length := (List.getElem?_eq_some_iff.mp hy).1
  intro k j
  rw [h k j, getElem?_set]
  by_cases hij : i = j
  · subst hij
    rw [if_pos rfl, if_pos hlt, hy]
    simp [hkey]
  · rw [if_neg hij]

theorem append (h : Indexed key slots indexes) (hx : indexes.lookup (key x) = none) :
    Indexed key (slots ++ [some x]) (indexes.insert (key x) slots.length) := by
  intro k j
  by_cases hk : k = key x
  · subst hk
    rw [AList.lookup_insert, Option.some.injEq]
    constructor
    · rintro rfl
      exact ⟨x, by simp, rfl⟩
    · rintro ⟨y, hy, hkey⟩
      rcases lt_or_ge j slots.length with hj | hj
      · rw [getElem?_append_left hj] at hy
        rw [(h _ _).mpr ⟨y, hy, hkey⟩] at hx
        cases hx
      · have hlt := (List.getElem?_eq_some_iff.mp hy).1
        rw [length_append, length_singleton] at hlt
        omega
  · rw [AList.lookup_insert_ne hk, h k j]
    constructor
    · rintro ⟨y, hy, hkey⟩
      exact ⟨y, by rw [getElem?_append_left (List.getElem?_eq_some_iff.mp hy).1]; exact hy, hkey⟩
    · rintro ⟨y, hy, hkey⟩
      rcases lt_or_ge j slots.length with hj | hj
      · exact ⟨y, by rwa [getElem?_append_left hj] at hy, hkey⟩
      · rw [getElem?_append_right hj, getElem?_singleton] at hy
        split at hy
        · cases hy
          exact absurd hkey.symm hk
        · cases hy

theorem erase (h : Indexed key slots indexes) {k : κ} (hi : indexes.lookup k = some i) :
    Indexed key (slots.set i none) (indexes.erase k) := by
  obtain ⟨x, hx, hkey⟩ := (h _ _).mp hi
  intro k' j
  by_cases hk : k' = k
  · subst hk
    rw [AList.lookup_erase]
    constructor
    · intro hc
      cases hc
    · rintro ⟨y, hy, hkey'⟩
      rw [getElem?_set] at hy
      split at hy
      · split at hy <;> cases hy
      · next hij => exact absurd (h.unique hx hy (hkey.trans hkey'.symm)) hij
  · rw [AList.lookup_erase_ne hk, h k' j, getElem?_set]
    by_cases hij : i = j
    · subst hij
      rw [hx]
      constructor
      · rintro ⟨y, hy, hkey'⟩
        cases hy
        exact absurd (hkey'.symm.trans hkey) hk
      · rintro ⟨y, hy, -⟩
        split at hy
        · split at hy <;> cases hy
        · next hne => exact absurd rfl hne
    · rw [if_neg hij]

end Indexed

namespace Slots

def empty (key : α → κ) : Slots key where
  slots := []
  indexes := ∅
  indexed := by simp [Indexed]

def push (s : Slots key) (x : α) : Slots key :=
  match h : s.indexes.lookup (key x) with
  | some i => ⟨s.slots.set i (some x), s.indexes, s.indexed.set h⟩
  | none => ⟨s.slots ++ [some x], s.indexes.insert (key x) s.slots.length, s.indexed.append h⟩

def remove (s : Slots key) (k : κ) : Slots key :=
  match h : s.indexes.lookup k with
  | some i => ⟨s.slots.set i none, s.indexes.erase k, s.indexed.erase h⟩
  | none => s

def entries (s : Slots key) : List α := s.slots.reduceOption

@[simp] theorem entries_empty : (empty key).entries = [] := rfl

variable (s : Slots key)

theorem mem_entries_iff (x : α) : x ∈ s.entries ↔ ∃ i : Nat, s.slots[i]? = some (some x) := by
  rw [entries, reduceOption_mem_iff, mem_iff_getElem?]

theorem mem_keys_iff (k : κ) : k ∈ s.entries.map key ↔ ∃ i, s.indexes.lookup k = some i := by
  rw [mem_map]
  constructor
  · rintro ⟨x, hx, rfl⟩
    obtain ⟨i, hi⟩ := (s.mem_entries_iff x).mp hx
    exact ⟨i, (s.indexed _ _).mpr ⟨x, hi, rfl⟩⟩
  · rintro ⟨i, hi⟩
    obtain ⟨x, hx, hkey⟩ := (s.indexed _ _).mp hi
    exact ⟨x, (s.mem_entries_iff x).mpr ⟨i, hx⟩, hkey⟩

theorem exists_split {k : κ} {i : Nat} (h : s.indexes.lookup k = some i) :
    ∃ pre x post, s.slots = pre ++ some x :: post ∧ i = pre.length ∧ key x = k ∧
      k ∉ pre.reduceOption.map key ∧ k ∉ post.reduceOption.map key := by
  obtain ⟨x, hx, hkey⟩ := (s.indexed _ _).mp h
  obtain ⟨hlt, hget⟩ := List.getElem?_eq_some_iff.mp hx
  have hspl : s.slots = s.slots.take i ++ some x :: s.slots.drop (i + 1) := by
    rw [← hget, getElem_cons_drop, take_append_drop]
  refine ⟨s.slots.take i, x, s.slots.drop (i + 1), hspl, by rw [length_take]; omega, hkey, ?_, ?_⟩
  · intro hmem
    obtain ⟨y, hy, hkey'⟩ := mem_map.mp hmem
    obtain ⟨j, hj⟩ := mem_iff_getElem?.mp (reduceOption_mem_iff.mp hy)
    rw [getElem?_take] at hj
    split at hj
    · next hji => exact absurd (s.indexed.unique hj hx (hkey'.trans hkey.symm)) hji.ne
    · cases hj
  · intro hmem
    obtain ⟨y, hy, hkey'⟩ := mem_map.mp hmem
    obtain ⟨j, hj⟩ := mem_iff_getElem?.mp (reduceOption_mem_iff.mp hy)
    rw [getElem?_drop] at hj
    have := s.indexed.unique hj hx (hkey'.trans hkey.symm)
    omega

theorem entries_push (x : α) : (s.push x).entries = upsert key x s.entries := by
  unfold push
  split
  · next i h =>
    obtain ⟨pre, y, post, hslots, rfl, hkey, hpre, -⟩ := s.exists_split h
    simp only [entries, hslots, set_append_right _ _ le_rfl, Nat.sub_self, set_cons_zero,
      reduceOption_append, reduceOption_cons_of_some]
    rw [upsert_append_cons _ hpre hkey]
  · next h =>
    have hnot : key x ∉ s.entries.map key := by
      rw [s.mem_keys_iff, h]
      simp
    rw [upsert_of_not_mem hnot]
    simp [entries, reduceOption_append]

theorem filter_ne_of_not_mem {k : κ} (h : k ∉ xs.map key) : xs.filter (fun x => key x ≠ k) = xs := by
  rw [filter_eq_self]
  intro x hx
  exact decide_eq_true fun hc => h (mem_map.mpr ⟨x, hx, hc⟩)

theorem entries_remove (k : κ) : (s.remove k).entries = s.entries.filter fun x => key x ≠ k := by
  unfold remove
  split
  · next i h =>
    obtain ⟨pre, y, post, hslots, rfl, hkey, hpre, hpost⟩ := s.exists_split h
    simp only [entries, hslots, set_append_right _ _ le_rfl, Nat.sub_self, set_cons_zero,
      reduceOption_append, reduceOption_cons_of_some, reduceOption_cons_of_none, filter_append]
    rw [filter_ne_of_not_mem hpre, filter_cons_of_neg (by simp [hkey]), filter_ne_of_not_mem hpost]
  · next h =>
    refine (filter_ne_of_not_mem ?_).symm
    rw [s.mem_keys_iff, h]
    simp

theorem entries_foldl_push (xs : List α) (s : Slots key) :
    (xs.foldl push s).entries = xs.foldl (fun ys x => upsert key x ys) s.entries := by
  induction xs generalizing s with
  | nil => rfl
  | cons x xs ih => rw [foldl_cons, foldl_cons, ih, entries_push]

theorem entries_foldl_remove (ks : List κ) (s : Slots key) :
    (ks.foldl remove s).entries = s.entries.filter fun x => key x ∉ ks := by
  induction ks generalizing s with
  | nil => simp
  | cons k ks ih =>
    rw [foldl_cons, ih, entries_remove, filter_filter]
    apply filter_congr
    intro x _
    simp [Bool.and_comm]

theorem nodup_keys : (s.entries.map key).Nodup := by
  have hunique : ∀ {i j : Nat} {x y : α}, s.slots[i]? = some (some x) → s.slots[j]? = some (some y) → key x = key y →
      i = j := s.indexed.unique
  unfold entries
  generalize s.slots = slots at hunique
  induction slots with
  | nil => simp
  | cons slot slots ih =>
    have hr := ih fun {i j x y} hx hy hkey =>
      Nat.succ.inj (hunique (i := i + 1) (j := j + 1) (by simpa using hx) (by simpa using hy) hkey)
    cases slot with
    | none => simpa using hr
    | some x =>
      rw [reduceOption_cons_of_some, map_cons, nodup_cons]
      refine ⟨fun hmem => ?_, hr⟩
      obtain ⟨y, hy, hkey⟩ := mem_map.mp hmem
      obtain ⟨j, hj⟩ := mem_iff_getElem?.mp (reduceOption_mem_iff.mp hy)
      exact absurd (hunique (i := 0) (j := j + 1) rfl (by simpa using hj) hkey.symm) (by omega)

def removeWhere (s : Slots key) (p : κ → Bool) : Slots key := (s.indexes.keys.filter p).foldl remove s

theorem entries_removeWhere (p : κ → Bool) :
    (s.removeWhere p).entries = s.entries.filter fun x => !p (key x) := by
  rw [removeWhere, entries_foldl_remove]
  apply filter_congr
  intro x hx
  obtain ⟨i, hi⟩ := (s.mem_keys_iff (key x)).mp (mem_map.mpr ⟨x, hx, rfl⟩)
  have hmem : key x ∈ s.indexes.keys := AList.mem_keys.mpr (AList.lookup_isSome.mp (by rw [hi]; rfl))
  simp [mem_filter, hmem]

end Slots

end Coalesce
