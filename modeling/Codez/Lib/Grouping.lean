import Codez.Lib.Growth

/-!
Groups: `group` collects consecutive elements with the same key, one element after the
other (`push`).  Three facts describe it:

* nothing is lost or moved: `ungroup (group xs) = xs`;
* neighbours have different keys (`isChain_group`);
* more elements only extend the last group and open new ones (`grows_foldl_push`).
-/

namespace Grouping

open Growth List

variable {κ α : Type} (groups gs : List (κ × List α)) (x : κ × α) (xs : List (κ × α))

def ungroup (groups : List (κ × List α)) : List (κ × α) :=
  groups.flatMap fun g => g.2.map (Prod.mk g.1)

@[simp] theorem ungroup_append (gs hs : List (κ × List α)) :
    ungroup (gs ++ hs) = ungroup gs ++ ungroup hs := by
  simp [ungroup]

def More (g g' : κ × List α) : Prop := g.1 = g'.1 ∧ g.2 <+: g'.2

theorem More.refl (g : κ × List α) : More g g := ⟨rfl, prefix_rfl⟩

theorem More.trans (f g h : κ × List α) (hfg : More f g) (hgh : More g h) : More f h :=
  ⟨hfg.1.trans hgh.1, hfg.2.trans hgh.2⟩

variable [DecidableEq κ]

def push (groups : List (κ × List α)) (x : κ × α) : List (κ × List α) :=
  match groups.getLast? with
  | some last =>
    if last.1 = x.1 then groups.dropLast ++ [(last.1, last.2 ++ [x.2])]
    else groups ++ [(x.1, [x.2])]
  | none => groups ++ [(x.1, [x.2])]

def group (xs : List (κ × α)) : List (κ × List α) := xs.foldl push []

theorem push_cases :
    (∃ init as, groups = init ++ [(x.1, as)] ∧ push groups x = init ++ [(x.1, as ++ [x.2])]) ∨
      ((∀ last ∈ groups.getLast?, last.1 ≠ x.1) ∧ push groups x = groups ++ [(x.1, [x.2])]) := by
  unfold push
  cases h : groups.getLast? with
  | none => exact .inr ⟨by simp, rfl⟩
  | some last =>
    obtain ⟨init, rfl⟩ := getLast?_eq_some_iff.mp h
    by_cases hk : last.1 = x.1
    · refine Or.inl ⟨init, last.2, by rw [← hk], ?_⟩
      simp [hk]
    · refine Or.inr ⟨fun l hl => ?_, by simp [hk]⟩
      rw [← Option.mem_some.mp hl]
      exact hk

theorem ungroup_push : ungroup (push groups x) = ungroup groups ++ [x] := by
  rcases push_cases groups x with ⟨init, as, hg, hp⟩ | ⟨-, hp⟩
  · rw [hp, hg, ungroup_append, ungroup_append, append_assoc]
    simp [ungroup]
  · rw [hp, ungroup_append]
    simp [ungroup]

theorem group_append (xs ys : List (κ × α)) : group (xs ++ ys) = ys.foldl push (group xs) := by
  simp [group]

theorem group_snoc (x : κ × α) : group (xs ++ [x]) = push (group xs) x := by
  simp [group]

theorem ungroup_group : ungroup (group xs) = xs := by
  induction xs using List.reverseRecOn with
  | nil => rfl
  | append_singleton xs x ih => rw [group_snoc, ungroup_push, ih]

theorem flatMap_snd_group : (group xs).flatMap Prod.snd = xs.map Prod.snd := by
  conv_rhs => rw [← ungroup_group xs]
  simp [ungroup, map_flatMap, Function.comp_def]

theorem isChain_push (h : groups.IsChain fun a b => a.1 ≠ b.1) : (push groups x).IsChain fun a b => a.1 ≠ b.1 := by
  rcases push_cases groups x with ⟨init, as, rfl, hp⟩ | ⟨hl, hp⟩
  · rw [hp]
    rw [isChain_append] at h ⊢
    exact ⟨h.1, isChain_singleton _, fun a ha b hb => by
      simp only [head?_cons, Option.mem_some] at hb
      subst hb
      exact h.2.2 a ha (x.1, as) rfl⟩
  · rw [hp, isChain_append]
    refine ⟨h, isChain_singleton _, fun a ha b hb => ?_⟩
    simp only [head?_cons, Option.mem_some] at hb
    subst hb
    exact hl a ha

theorem isChain_group : (group xs).IsChain fun a b => a.1 ≠ b.1 := by
  induction xs using List.reverseRecOn with
  | nil => exact isChain_nil
  | append_singleton xs x ih =>
    rw [group_snoc]
    exact isChain_push _ x ih

theorem grows_push (x : κ × α) : Grows More gs (push gs x) := by
  rcases push_cases gs x with ⟨init, as, hg, hp⟩ | ⟨-, hp⟩
  · rw [hp, hg]
    exact .last init ⟨rfl, prefix_append _ _⟩
  · rw [hp]
    exact .append More.refl gs _

theorem grows_foldl_push (xs : List (κ × α)) : Grows More gs (xs.foldl push gs) := by
  induction xs generalizing gs with
  | nil => exact .refl More.refl gs
  | cons x xs ih => exact (grows_push gs x).trans More.trans (ih (push gs x))

theorem grows_group_append (xs ys : List (κ × α)) : Grows More (group xs) (group (xs ++ ys)) := by
  rw [group_append]
  exact grows_foldl_push _ ys

def changes : κ → List κ → Nat
  | _, [] => 0
  | k, k' :: ks => (if k' = k then 0 else 1) + changes k' ks

theorem changes_append (k : κ) (ks ks' : List κ) :
    changes k (ks ++ ks') = changes k ks + changes (ks.getLast?.getD k) ks' := by
  induction ks generalizing k with
  | nil => simp [changes]
  | cons a ks ih =>
    have hl : (a :: ks).getLast?.getD k = ks.getLast?.getD a := by
      rw [getLast?_cons]
      rfl
    rw [cons_append, changes, ih, hl, changes]
    omega

theorem changes_eq_zero_iff (k : κ) (ks : List κ) : changes k ks = 0 ↔ ∀ k' ∈ ks, k' = k := by
  induction ks generalizing k with
  | nil => simp [changes]
  | cons a ks ih =>
    by_cases ha : a = k
    · subst ha
      simp [changes, ih]
    · simp [changes, ha]

theorem changes_snoc_eq_one_iff {a b : κ} (hab : a ≠ b) (ks : List κ) (h : ∀ k ∈ ks, k = a ∨ k = b) :
    changes a (ks ++ [b]) = 1 ↔ ¬ List.Sublist [b, a] ks := by
  induction ks with
  | nil => simp [changes, hab.symm]
  | cons k ks ih =>
    rw [forall_mem_cons] at h
    rcases h with ⟨rfl | rfl, h⟩
    · have hskip : List.Sublist [b, k] (k :: ks) ↔ List.Sublist [b, k] ks := by
        rw [cons_sublist_cons']
        simp [hab.symm]
      rw [hskip, ← ih h]
      simp [changes]
    · -- the key has changed, every further `a` is one change too many
      have hback : List.Sublist [k, a] (k :: ks) ↔ a ∈ ks := by
        rw [cons_sublist_cons, singleton_sublist]
      have hzero : changes k (ks ++ [k]) = 0 ↔ a ∉ ks := by
        rw [changes_eq_zero_iff]
        constructor
        · intro hall ha
          exact hab (hall a (mem_append_left _ ha))
        · intro ha k' hk'
          rcases mem_append.mp hk' with hk' | hk'
          · exact (h k' hk').resolve_left fun hc => ha (hc ▸ hk')
          · exact mem_singleton.mp hk'
      rw [hback, ← hzero]
      simp [changes, hab.symm]

theorem changes_snoc_pos {a b : κ} (hab : a ≠ b) (ks : List κ) : 0 < changes a (ks ++ [b]) := by
  rw [Nat.pos_iff_ne_zero]
  intro h
  exact hab ((changes_eq_zero_iff _ _).mp h b (by simp)).symm

theorem changes_replicate_snoc (a b : κ) (ks : List κ) (n : Nat) :
    changes a (ks ++ List.replicate n b ++ [b]) = changes a (ks ++ [b]) := by
  have hcomm : ks ++ List.replicate n b ++ [b] = ks ++ [b] ++ List.replicate n b := by
    rw [append_assoc, append_assoc, ← replicate_succ', replicate_succ]
    rfl
  have hzero : changes b (List.replicate n b) = 0 :=
    (changes_eq_zero_iff _ _).mpr fun k hk => eq_of_mem_replicate hk
  rw [hcomm, changes_append, getLast?_append]
  simpa using hzero

theorem push_last (x : κ × α) : ∃ init as, push gs x = init ++ [(x.1, as ++ [x.2])] := by
  rcases push_cases gs x with ⟨init, as, -, hp⟩ | ⟨-, hp⟩
  · exact ⟨init, as, hp⟩
  · exact ⟨gs, [], hp⟩

theorem length_foldl_push (init : List (κ × List α)) (k : κ) (as : List α) (xs : List (κ × α)) :
    (xs.foldl push (init ++ [(k, as)])).length =
      (init ++ [(k, as)]).length + changes k (xs.map Prod.fst) := by
  induction xs generalizing init k as with
  | nil => simp [changes]
  | cons x xs ih =>
    rw [foldl_cons, map_cons, changes]
    rcases push_cases (init ++ [(k, as)]) x with ⟨init', as', hg, hp⟩ | ⟨hl, hp⟩
    · obtain ⟨rfl, hk⟩ := append_inj' hg rfl
      obtain ⟨rfl, rfl⟩ : k = x.1 ∧ as = as' := by simpa using hk
      rw [hp, ih]
      simp
    · have hne : x.1 ≠ k := fun hc => hl (k, as) (by simp) hc.symm
      rw [hp, ih, if_neg hne]
      simp
      omega

theorem length_group_append (x : κ × α) (ys : List (κ × α)) :
    (group (xs ++ x :: ys)).length = (group (xs ++ [x])).length + changes x.1 (ys.map Prod.fst) := by
  obtain ⟨init, as, hp⟩ := push_last (group xs) x
  rw [group_append, foldl_cons, group_snoc, hp, length_foldl_push]

theorem getElem?_group (pre : List (κ × α)) (x : κ × α) (post : List (κ × α)) :
    ∃ as, (group (pre ++ x :: post))[(group (pre ++ [x])).length - 1]? = some (x.1, as) ∧ x.2 ∈ as := by
  obtain ⟨init, as, hp⟩ := push_last (group pre) x
  have hgrows := grows_group_append (pre ++ [x]) post
  rw [group_snoc, hp, append_assoc, singleton_append] at hgrows
  rw [group_snoc, hp]
  rcases hgrows with h | ⟨init', g, ⟨k, as'⟩, rest, heq, hgroup, hmore⟩
  · simp at h
  · obtain ⟨rfl, hg⟩ := append_inj' heq rfl
    obtain rfl : (x.1, as ++ [x.2]) = g := by simpa using hg
    obtain ⟨rfl, hprefix⟩ := hmore
    exact ⟨as', by rw [hgroup]; simp, hprefix.subset (by simp)⟩

theorem getElem?_group_apart {pre : List (κ × α)} {x : κ × α} {i : Nat}
    (hi : (group (pre ++ [x])).length = i + 1) (mid : List (κ × α)) (y : κ × α) (post : List (κ × α)) :
    ∃ as, (group (pre ++ x :: (mid ++ y :: post)))[i + changes x.1 (mid.map Prod.fst ++ [y.1])]? =
      some (y.1, as) ∧ y.2 ∈ as := by
  obtain ⟨as, hget, hmem⟩ := getElem?_group (pre ++ x :: mid) y post
  refine ⟨as, ?_, hmem⟩
  rw [append_assoc, append_assoc, cons_append, cons_append,
    length_group_append, map_append, map_singleton, hi] at hget
  rw [← hget]
  congr 1
  omega

theorem exists_of_getElem?_group (i : Nat) (k : κ) (as : List α) (a : α) (h : (group xs)[i]? = some (k, as))
    (ha : a ∈ as) :
    ∃ pre post, xs = pre ++ (k, a) :: post ∧ (group (pre ++ [(k, a)])).length = i + 1 := by
  induction xs using List.reverseRecOn generalizing as with
  | nil => simp [group] at h
  | append_singleton xs x ih =>
    -- an element of an old group was there before `x`
    have old : ∀ as', (group xs)[i]? = some (k, as') → a ∈ as' →
        ∃ pre post, xs ++ [x] = pre ++ (k, a) :: post ∧ (group (pre ++ [(k, a)])).length = i + 1 := by
      intro as' h' ha'
      obtain ⟨pre, post, rfl, hi⟩ := ih as' h' ha'
      exact ⟨pre, post ++ [x], by simp, hi⟩
    have hlen : (group (xs ++ [x])).length = (push (group xs) x).length := by rw [group_snoc]
    rw [group_snoc] at h
    rcases push_cases (group xs) x with ⟨init, as', hg, hp⟩ | ⟨-, hp⟩
    · rw [hp] at h hlen
      rcases Nat.lt_or_ge i init.length with hi | hi
      · apply old as _ ha
        rw [hg, getElem?_append_left hi]
        rwa [getElem?_append_left hi] at h
      · rw [getElem?_append_right hi, getElem?_singleton] at h
        split at h
        · next hz =>
          obtain ⟨rfl, rfl⟩ : x.1 = k ∧ as' ++ [x.2] = as := by simpa using h
          rcases mem_append.mp ha with ha | ha
          · exact old as' (by rw [hg, getElem?_append_right hi, hz]; rfl) ha
          · obtain rfl : a = x.2 := by simpa using ha
            refine ⟨xs, [], rfl, ?_⟩
            rw [hlen, length_append, length_singleton]
            omega
        · cases h
    · rw [hp] at h hlen
      rcases Nat.lt_or_ge i (group xs).length with hi | hi
      · exact old as (by rwa [getElem?_append_left hi] at h) ha
      · rw [getElem?_append_right hi, getElem?_singleton] at h
        split at h
        · next hz =>
          obtain ⟨rfl, rfl⟩ : x.1 = k ∧ [x.2] = as := by simpa using h
          obtain rfl : a = x.2 := by simpa using ha
          refine ⟨xs, [], rfl, ?_⟩
          rw [hlen, length_append, length_singleton]
          omega
        · cases h

end Grouping
