import Mathlib

/-!
Incremental framing: a reader keeps a buffer, takes complete frames off its front as long as
there is one, and hands each to a step that may stop the run.

A `Cutter` finds the first frame of a buffer; a frame uses up part of the buffer and stays the first
one when more arrives.
-/

namespace Framing

open List

structure Cutter (α β : Type) where
  cut : List α → Option (β × List α)
  shrinks : ∀ b f r, cut b = some (f, r) → r.length < b.length
  stable : ∀ b f r x, cut b = some (f, r) → cut (b ++ x) = some (f, r ++ x)

variable {α β σ ω : Type} (C : Cutter α β) (step : σ → β → Except ω σ) {b : List α}

def drainN (C : Cutter α β) (step : σ → β → Except ω σ) : Nat → σ → List α → Except ω (σ × List α)
  | 0, s, b => .ok (s, b)
  | n + 1, s, b =>
    match C.cut b with
    | none => .ok (s, b)
    | some (f, r) =>
      match step s f with
      | .error w => .error w
      | .ok s' => drainN C step n s' r

def drain (C : Cutter α β) (step : σ → β → Except ω σ) (s : σ) (b : List α) : Except ω (σ × List α) :=
  drainN C step b.length s b

def feed (C : Cutter α β) (step : σ → β → Except ω σ) : σ → List α → List (List α) → Except ω (σ × List α)
  | s, b, [] => .ok (s, b)
  | s, b, c :: cs =>
    match drain C step s (b ++ c) with
    | .error w => .error w
    | .ok (s', b') => feed C step s' b' cs

def framesN (C : Cutter α β) : Nat → List α → List β × List α
  | 0, b => ([], b)
  | n + 1, b =>
    match C.cut b with
    | none => ([], b)
    | some (f, r) => (f :: (framesN C n r).1, (framesN C n r).2)

def frames (C : Cutter α β) (b : List α) : List β × List α := framesN C b.length b

theorem cut_nil : C.cut [] = none := by
  cases h : C.cut [] with
  | none => rfl
  | some p =>
    have := C.shrinks [] p.1 p.2 h
    simp at this

theorem framesN_nil (n : Nat) : framesN C n [] = ([], []) := by
  cases n <;> simp [framesN, cut_nil]

theorem framesN_congr (n : Nat) : ∀ m b, b.length ≤ n → b.length ≤ m → framesN C n b = framesN C m b := by
  induction n with
  | zero =>
    intro m b hn _
    rw [length_eq_zero_iff.mp (Nat.le_zero.mp hn), framesN_nil, framesN_nil]
  | succ n ih =>
    intro m b hn hm
    cases m with
    | zero => rw [length_eq_zero_iff.mp (Nat.le_zero.mp hm), framesN_nil, framesN_nil]
    | succ m =>
      simp only [framesN]
      cases hc : C.cut b with
      | none => rfl
      | some p =>
        have hs := C.shrinks b p.1 p.2 hc
        simp only [ih m p.2 (by omega) (by omega)]

theorem frames_of_none (b : List α) (h : C.cut b = none) : frames C b = ([], b) := by
  unfold frames
  cases b.length <;> simp [framesN, h]

theorem frames_of_some (b : List α) (f : β) (r : List α) (h : C.cut b = some (f, r)) :
    frames C b = (f :: (frames C r).1, (frames C r).2) := by
  have hs := C.shrinks b f r h
  obtain ⟨n, hn⟩ : ∃ n, b.length = n + 1 := ⟨b.length - 1, by omega⟩
  unfold frames
  rw [hn]
  simp only [framesN, h]
  rw [framesN_congr C n r.length r (by omega) (by omega)]

theorem cut_frames_rest (b : List α) : C.cut (frames C b).2 = none := by
  induction hb : b.length using Nat.strongRecOn generalizing b with
  | _ n ih =>
    cases hc : C.cut b with
    | none => rw [frames_of_none C b hc]; exact hc
    | some p =>
      have hs := C.shrinks b p.1 p.2 hc
      rw [frames_of_some C b p.1 p.2 hc]
      exact ih p.2.length (by omega) p.2 rfl

/-- **Frames do not move.**  What a buffer holds is still there when more arrives;
the new part goes behind the rest. -/
theorem frames_append (b c : List α) : frames C (b ++ c) =
      ((frames C b).1 ++ (frames C ((frames C b).2 ++ c)).1, (frames C ((frames C b).2 ++ c)).2) := by
  induction hb : b.length using Nat.strongRecOn generalizing b with
  | _ n ih =>
    cases hc : C.cut b with
    | none => rw [frames_of_none C b hc]; simp
    | some p =>
      have hs := C.shrinks b p.1 p.2 hc
      rw [frames_of_some C b p.1 p.2 hc, frames_of_some C (b ++ c) p.1 (p.2 ++ c) (C.stable b p.1 p.2 c hc),
        ih p.2.length (by omega) p.2 rfl]
      simp

/-! ## The loops -/

theorem drain_eq_foldlM (s : σ) (b : List α) : drain C step s b =
      ((frames C b).1.foldlM step s).map fun s' => (s', (frames C b).2) := by
  unfold drain frames
  generalize b.length = n
  induction n generalizing s b with
  | zero => rfl
  | succ n ih =>
    simp only [drainN, framesN]
    cases hc : C.cut b with
    | none => rfl
    | some p =>
      simp only [foldlM_cons]
      cases hs : step s p.1 with
      | error w => rfl
      | ok s' => exact ih s' p.2

theorem drain_append (s : σ) (b c : List α) : drain C step s (b ++ c) = match drain C step s b with
      | .error w => .error w
      | .ok (s', b') => drain C step s' (b' ++ c) := by
  simp only [drain_eq_foldlM]
  rw [frames_append, foldlM_append]
  cases (frames C b).1.foldlM step s with
  | error w => rfl
  | ok s' => rfl

/-- **Chunking independence.**  Feeding chunks is draining their concatenation. -/
theorem feed_eq_drain (cs : List (List α)) :
    ∀ s b, C.cut b = none → feed C step s b cs = drain C step s (b ++ cs.flatten) := by
  induction cs with
  | nil =>
    intro s b hb
    simp only [feed, flatten_nil, append_nil]
    rw [drain_eq_foldlM, frames_of_none C b hb]
    rfl
  | cons c cs ih =>
    intro s b _
    simp only [feed, flatten_cons]
    rw [← append_assoc, drain_append C step s (b ++ c), drain_eq_foldlM C step s (b ++ c)]
    cases (frames C (b ++ c)).1.foldlM step s with
    | error w => rfl
    | ok s' => exact ih s' _ (cut_frames_rest C (b ++ c))

/-! ## Separators -/

def cutAt [BEq α] (sep : List α) : List α → Option (List α × List α)
  | [] => none
  | x :: b =>
    if sep.isPrefixOf (x :: b) then some ([], (x :: b).drop sep.length)
    else (cutAt sep b).map fun p => (x :: p.1, p.2)

section
variable [BEq α] [LawfulBEq α]

theorem cutAt_eq_some (sep : List α) (b f r : List α) (h : cutAt sep b = some (f, r)) :
    b = f ++ sep ++ r := by
  induction b generalizing f with
  | nil => simp [cutAt] at h
  | cons x b ih =>
    unfold cutAt at h
    split at h
    · next hp =>
      simp only [Option.some.injEq, Prod.mk.injEq] at h
      obtain ⟨rfl, rfl⟩ := h
      obtain ⟨t, ht⟩ := List.isPrefixOf_iff_prefix.mp hp
      rw [← ht]
      simp
    · obtain ⟨p, hp, he⟩ := Option.map_eq_some_iff.mp h
      simp only [Prod.mk.injEq] at he
      obtain ⟨rfl, rfl⟩ := he
      rw [ih p.1 hp]
      simp

theorem cutAt_stable (sep : List α) (b f r x : List α) (h : cutAt sep b = some (f, r)) :
    cutAt sep (b ++ x) = some (f, r ++ x) := by
  induction b generalizing f with
  | nil => simp [cutAt] at h
  | cons y b ih =>
    unfold cutAt at h
    rw [cons_append]
    unfold cutAt
    split at h
    · next hp =>
      simp only [Option.some.injEq, Prod.mk.injEq] at h
      obtain ⟨rfl, rfl⟩ := h
      obtain ⟨t, ht⟩ := List.isPrefixOf_iff_prefix.mp hp
      have ht' : y :: (b ++ x) = sep ++ (t ++ x) := by rw [← cons_append, ← ht]; simp
      rw [ht', if_pos (List.isPrefixOf_iff_prefix.mpr ⟨t ++ x, rfl⟩), ← ht]
      simp
    · next hp =>
      obtain ⟨p, hp', he⟩ := Option.map_eq_some_iff.mp h
      simp only [Prod.mk.injEq] at he
      obtain ⟨rfl, rfl⟩ := he
      -- the separator found further on shows that this position was not cut short
      have hlen : sep.length ≤ b.length := by
        rw [cutAt_eq_some sep b p.1 p.2 hp']; simp; omega
      have hnp : ¬ sep.isPrefixOf (y :: (b ++ x)) = true := by
        intro hq
        apply hp
        rw [List.isPrefixOf_iff_prefix] at hq ⊢
        rw [← cons_append] at hq
        exact prefix_of_prefix_length_le hq (prefix_append _ _) (by simp; omega)
      rw [if_neg hnp, ih p.1 hp']
      rfl

def sepCutter (sep : List α) (hsep : sep ≠ []) : Cutter α (List α) where
  cut := cutAt sep
  shrinks := by
    intro b f r h
    have := length_pos_iff.mpr hsep
    rw [cutAt_eq_some sep b f r h]
    simp
    omega
  stable := cutAt_stable sep

theorem cutAt_append_of_not_mem (x : α) (sep f r : List α) (hf : x ∉ f) :
    cutAt (x :: sep) (f ++ r) = (cutAt (x :: sep) r).map fun p => (f ++ p.1, p.2) := by
  induction f with
  | nil => simp
  | cons y f ih =>
    have hy : (x == y) = false := by
      apply beq_false_of_ne
      rintro rfl
      exact hf mem_cons_self
    rw [cons_append, cutAt, if_neg (by simp [List.isPrefixOf, hy]), ih fun h => hf (mem_cons_of_mem _ h)]
    simp [Function.comp_def]

theorem cutAt_append (x : α) (sep f r : List α) (hf : x ∉ f) :
    cutAt (x :: sep) (f ++ x :: sep ++ r) = some (f, r) := by
  rw [append_assoc, cutAt_append_of_not_mem x sep f _ hf]
  simp [cutAt]

end

/-! ### A separator that is cut off

The end of a buffer may be the start of a separator whose rest is still to come. -/

/-- The longest start of `sep`, of at most `n` elements, that `b` ends with: its length. -/
def overlapUpTo [BEq α] (sep b : List α) : Nat → Nat
  | 0 => 0
  | n + 1 => if (sep.take (n + 1)).isSuffixOf b then n + 1 else overlapUpTo sep b n

def overlap [BEq α] (sep b : List α) : Nat := overlapUpTo sep b (min b.length (sep.length - 1))

theorem cutAt_drop_eq_none [BEq α] (sep b : List α) (h : cutAt sep b = none) (n : Nat) :
    cutAt sep (b.drop n) = none := by
  induction n generalizing b with
  | zero => exact h
  | succ n ih =>
    cases b with
    | nil => exact h
    | cons x b =>
      rw [cutAt] at h
      split at h
      · cases h
      · exact ih b (Option.map_eq_none_iff.mp h)

theorem overlapUpTo_le [BEq α] (sep b : List α) (n : Nat) : overlapUpTo sep b n ≤ n := by
  induction n with
  | zero => exact Nat.le_refl 0
  | succ n ih =>
    unfold overlapUpTo
    split
    · exact Nat.le_refl _
    · omega

theorem overlap_le_length [BEq α] (sep b : List α) : overlap sep b ≤ b.length :=
  Nat.le_trans (overlapUpTo_le sep b _) (Nat.min_le_left _ _)

section
variable [BEq α] [LawfulBEq α]

theorem not_suffix_of_overlapUpTo_lt (sep b : List α) {n k : Nat} (hk : overlapUpTo sep b n < k) (hn : k ≤ n) :
    ¬ sep.take k <:+ b := by
  induction n with
  | zero => omega
  | succ n ih =>
    unfold overlapUpTo at hk
    split at hk
    · omega
    · next hnot =>
      by_cases hl : k = n + 1
      · subst hl
        intro hs
        exact hnot (isSuffixOf_iff_suffix.mpr hs)
      · exact ih hk (by omega)

theorem not_suffix_of_overlap_lt (sep b : List α) {k : Nat} (hk : overlap sep b < k) (hlen : k < sep.length) :
    ¬ sep.take k <:+ b := by
  intro hs
  have hle : k ≤ b.length := by
    have := hs.length_le
    rw [length_take] at this
    omega
  exact not_suffix_of_overlapUpTo_lt sep b hk (by omega) hs

theorem cutAt_append_held (sep f h t : List α) (hnone : cutAt sep (f ++ h) = none)
    (hlong : ∀ k, h.length < k → k < sep.length → ¬ sep.take k <:+ f ++ h) :
    cutAt sep (f ++ (h ++ t)) = (cutAt sep (h ++ t)).map fun p => (f ++ p.1, p.2) := by
  induction f with
  | nil => simp
  | cons x f ih =>
    rw [cons_append, cutAt] at hnone
    split at hnone
    · cases hnone
    · next hnot =>
      rw [Option.map_eq_none_iff] at hnone
      have hr := ih hnone fun k hk hlen hs => hlong k hk hlen (hs.trans (suffix_cons x _))
      have hst : ¬ sep.isPrefixOf (x :: (f ++ (h ++ t))) = true := by
        intro hp
        rw [List.isPrefixOf_iff_prefix, ← append_assoc, ← cons_append] at hp
        by_cases hlen : sep.length ≤ (x :: (f ++ h)).length
        · apply hnot
          rw [List.isPrefixOf_iff_prefix]
          exact prefix_of_prefix_length_le hp (prefix_append _ _) hlen
        · -- all of `x :: f ++ h` is a start of the separator
          have hall : x :: (f ++ h) <+: sep :=
            prefix_of_prefix_length_le (prefix_append _ _) hp (by omega)
          apply hlong (x :: (f ++ h)).length
          · rw [length_cons, length_append]
            omega
          · omega
          · rw [← prefix_iff_eq_take.mp hall]
            exact suffix_refl _
      rw [cons_append, cutAt, if_neg hst, hr, Option.map_map]
      rfl

theorem cutAt_drop_overlap (sep b t : List α) (hnone : cutAt sep b = none) {keep : Nat} (hkeep : overlap sep b ≤ keep)
    (hle : keep ≤ b.length) :
    cutAt sep (b ++ t) =
      (cutAt sep (b.drop (b.length - keep) ++ t)).map fun p => (b.take (b.length - keep) ++ p.1, p.2) := by
  have hlen : (b.drop (b.length - keep)).length = keep := by
    rw [length_drop]
    omega
  have hspl := take_append_drop (b.length - keep) b
  have held := cutAt_append_held sep (b.take (b.length - keep)) (b.drop (b.length - keep)) t
    (by rw [hspl]; exact hnone)
    (by rw [hspl, hlen]; exact fun k hk hk' => not_suffix_of_overlap_lt sep b (by omega) hk')
  rw [← append_assoc, hspl] at held
  exact held

end

section
variable [BEq α] [LawfulBEq α]

theorem cutAt_ne_none {sep : List α} (hsep : sep ≠ []) (f r : List α) : cutAt sep (f ++ (sep ++ r)) ≠ none := by
  intro hnone
  have hdrop := cutAt_drop_eq_none sep _ hnone f.length
  rw [drop_left] at hdrop
  cases sep with
  | nil => exact hsep rfl
  | cons x sep => simp [cutAt] at hdrop

theorem length_lt_of_cutAt_append {sep sep' t f f' r r' : List α} (hsep' : sep' ≠ [])
    (hcut : cutAt sep b = some (f, r)) (hnone : cutAt sep' b = none) (hcut' : cutAt sep' (b ++ t) = some (f', r'))
    (hclear : ¬ sep <:+: sep'.dropLast) : f.length < f'.length := by
  by_contra hle
  have hb := cutAt_eq_some sep b f r hcut
  have hbt := cutAt_eq_some sep' (b ++ t) f' r' hcut'
  rw [append_assoc] at hb hbt
  obtain ⟨k, rfl⟩ : f' <+: f :=
    prefix_of_prefix_length_le ⟨_, hbt.symm⟩ ⟨sep ++ r ++ t, by rw [hb]; simp⟩ (by omega)
  rw [hb, append_assoc, append_assoc, append_cancel_left_eq] at hbt
  -- `w` is what the text without `t` has from the start of the later separator on
  obtain ⟨w, hw⟩ : ∃ w, w = k ++ (sep ++ r) := ⟨_, rfl⟩
  rw [append_assoc, ← hw] at hb
  rw [← append_assoc, ← hw] at hbt
  obtain ⟨c, hc, -⟩ | ⟨c, hc, -⟩ := append_eq_append_iff.mp hbt
  · by_cases hnil : c = []
    · rw [hnil, append_nil] at hc
      rw [hb, ← hc] at hnone
      exact cutAt_ne_none hsep' f' [] (by rw [append_nil]; exact hnone)
    · apply hclear
      rw [hc, dropLast_append_of_ne_nil hnil, hw]
      exact ⟨k, r ++ c.dropLast, by simp⟩
  · rw [hb, hc] at hnone
    exact cutAt_ne_none hsep' f' c hnone

end

/-! ## Headers -/

section
variable {ε : Type} {size : List α → Except ε Nat}

/-- Frames behind a header of `h` elements that says how long they are.  A header that says
nothing is a frame of its own. -/
def headerCut (h : Nat) (size : List α → Except ε Nat) (b : List α) : Option (Except ε (List α) × List α) :=
  if b.length < h then none
  else
    match size (b.take h) with
    | .error e => some (.error e, b.drop h)
    | .ok n => if b.length < h + n then none else some (.ok ((b.drop h).take n), b.drop (h + n))

theorem headerCut_eq_some {h : Nat} {f : Except ε (List α)} {r : List α} (hcut : headerCut h size b = some (f, r)) :
    h ≤ b.length ∧ ((∃ e, size (b.take h) = .error e ∧ f = .error e ∧ r = b.drop h) ∨
        ∃ n, size (b.take h) = .ok n ∧ h + n ≤ b.length ∧ f = .ok ((b.drop h).take n) ∧ r = b.drop (h + n)) := by
  unfold headerCut at hcut
  split at hcut
  · cases hcut
  · next hlen =>
    refine ⟨by omega, ?_⟩
    cases hs : size (b.take h) with
    | error e =>
      rw [hs] at hcut
      cases hcut
      exact .inl ⟨e, rfl, rfl, rfl⟩
    | ok n =>
      simp only [hs] at hcut
      split at hcut
      · cases hcut
      · next hn =>
        cases hcut
        exact .inr ⟨n, rfl, by omega, rfl, rfl⟩

def headerCutter (h : Nat) (hpos : 0 < h) (size : List α → Except ε Nat) : Cutter α (Except ε (List α)) where
  cut := headerCut h size
  shrinks := by
    intro b f r hcut
    obtain ⟨hle, ⟨e, -, -, rfl⟩ | ⟨n, -, hn, -, rfl⟩⟩ := headerCut_eq_some hcut
    · rw [length_drop]; omega
    · rw [length_drop]; omega
  stable := by
    intro b f r x hcut
    obtain ⟨hle, ⟨e, hs, rfl, rfl⟩ | ⟨n, hs, hn, rfl, rfl⟩⟩ := headerCut_eq_some hcut
    · rw [headerCut, if_neg (by rw [length_append]; omega), take_append_of_le_length hle, hs,
        drop_append_of_le_length hle]
    · rw [headerCut, if_neg (by rw [length_append]; omega), take_append_of_le_length hle, hs]
      simp only
      rw [if_neg (by rw [length_append]; omega), drop_append_of_le_length hle,
        drop_append_of_le_length hn, take_append_of_le_length (by rw [length_drop]; omega)]

theorem frames_headerCutter {h : Nat} (hpos : 0 < h) (header : List α → List α) (bodies : List (List α))
    (hlen : ∀ body ∈ bodies, (header body).length = h) (hsz : ∀ body ∈ bodies, size (header body) = .ok body.length) :
    frames (headerCutter h hpos size) (bodies.flatMap fun body => header body ++ body) =
      (bodies.map .ok, []) := by
  induction bodies with
  | nil => exact frames_of_none _ _ (cut_nil _)
  | cons body rest ih =>
    have hl := hlen body mem_cons_self
    have hcut : (headerCutter h hpos size).cut ((body :: rest).flatMap fun body => header body ++ body) =
        some (.ok body, rest.flatMap fun body => header body ++ body) := by
      show headerCut h size _ = _
      rw [flatMap_cons, append_assoc, headerCut, if_neg (by simp; omega), ← hl, take_left,
        hsz body mem_cons_self]
      simp only [drop_left, take_left]
      rw [if_neg (by simp), ← append_assoc, drop_left' (by simp)]
    rw [frames_of_some _ _ _ _ hcut, ih (forall_mem_cons.mp hlen).2
      (forall_mem_cons.mp hsz).2]
    rfl

theorem frames_fst_prefix {s : List α} (h : b <+: s) : (frames C b).1 <+: (frames C s).1 := by
  obtain ⟨c, rfl⟩ := h
  rw [frames_append]
  exact prefix_append _ _

end

end Framing
