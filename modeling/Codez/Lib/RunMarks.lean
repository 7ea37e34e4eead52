import Mathlib

/-!
Runs of equal items, each run written as one item and a mark with its length.

The marks are items themselves, so that an item followed by a mark reads like a run:

    encode [x, x] = [x, mark 2] = encode [x, mark 2]
-/

namespace RunMarks

open List

variable {α : Type} [DecidableEq α] (reserved : α → Bool) (mark : Nat → α) (may : α → Prop) {x : α} {ys xs : List α}
  {n : Nat}

def run (x : α) (n : Nat) : List α := if 2 ≤ n then [x, mark n] else [x]

def encodeGo (cur : α) (n : Nat) : List α → List α
  | [] => run mark cur n
  | y :: ys => if y = cur ∧ reserved y = false then encodeGo cur (n + 1) ys else run mark cur n ++ encodeGo y 1 ys

def encode : List α → List α
  | [] => []
  | x :: xs => encodeGo reserved mark x 1 xs

/-- A single item is followed by a mark, and could as well be repeated. -/
def Ambiguous (xs : List α) : Prop :=
  ∃ pre x n post, xs = pre ++ x :: mark n :: post ∧ 2 ≤ n ∧ reserved x = false ∧ may x ∧
    pre.getLast? ≠ some x ∧ post.head? ≠ some x

def Spread (xs : List α) : Prop := xs.IsChain fun a b => may a ∨ may b

variable {reserved mark may}

theorem encodeGo_replicate (hx : reserved x = false) (n k : Nat) (hys : ys.head? ≠ some x) :
    encodeGo reserved mark x n (List.replicate k x ++ ys) = run mark x (n + k) ++ encode reserved mark ys := by
  induction k generalizing n with
  | zero =>
    cases ys with
    | nil => simp [encodeGo, encode]
    | cons y ys =>
      have hne : y ≠ x := fun heq => hys (by rw [heq]; rfl)
      show (if y = x ∧ reserved y = false then _ else _) = _
      rw [if_neg fun h => hne h.1]
      rfl
  | succ k ih =>
    rw [replicate_succ, cons_append, encodeGo, if_pos ⟨rfl, hx⟩, ih]
    congr 2
    omega

theorem encode_reserved (hx : reserved x = true) (ys : List α) :
    encode reserved mark (x :: ys) = x :: encode reserved mark ys := by
  cases ys with
  | nil => rfl
  | cons y ys =>
    show (if y = x ∧ reserved y = false then _ else _) = _
    rw [if_neg]
    · rfl
    · rintro ⟨rfl, hy⟩
      rw [hx] at hy
      cases hy

theorem encode_run {x : α} {k : Nat} {ys : List α} (hk : reserved x = true → k = 0)
    (hys : reserved x = false → ys.head? ≠ some x) :
    encode reserved mark (List.replicate (k + 1) x ++ ys) = run mark x (k + 1) ++ encode reserved mark ys := by
  cases hx : reserved x with
  | true =>
    obtain rfl := hk hx
    exact encode_reserved hx ys
  | false =>
    rw [replicate_succ, cons_append, encode, encodeGo_replicate hx 1 k (hys hx), Nat.add_comm]

omit [DecidableEq α] in
theorem exists_run (reserved : α → Bool) (x : α) (xs : List α) :
    ∃ k ys, x :: xs = List.replicate (k + 1) x ++ ys ∧ (reserved x = true → k = 0) ∧
      (reserved x = false → ys.head? ≠ some x) := by
  classical
  cases hx : reserved x with
  | true => exact ⟨0, xs, rfl, fun _ => rfl, nofun⟩
  | false =>
    clear hx
    induction xs with
    | nil => exact ⟨0, [], rfl, nofun, by simp⟩
    | cons y xs ih =>
      by_cases hy : y = x
      · subst hy
        obtain ⟨k, ys, heq, -, hys⟩ := ih
        exact ⟨k + 1, ys, by rw [heq]; rfl, nofun, hys⟩
      · exact ⟨0, y :: xs, rfl, nofun, by simpa using hy⟩

theorem head?_encode (xs : List α) : (encode reserved mark xs).head? = xs.head? := by
  cases xs with
  | nil => rfl
  | cons x xs =>
    obtain ⟨k, ys, heq, hk, hys⟩ := exists_run reserved x xs
    rw [heq, encode_run hk hys, run]
    split <;> rfl

theorem encode_ne_nil (h : xs ≠ []) : encode reserved mark xs ≠ [] := by
  intro hnil
  have hh := @head?_encode _ _ reserved mark xs
  rw [hnil] at hh
  exact h (head?_eq_none_iff.mp hh.symm)

omit [DecidableEq α] in
theorem mem_run {cur : α} (h : x ∈ run mark cur n) : x = cur ∨ ∃ k, x = mark k := by
  unfold run at h
  split at h
  · rw [mem_pair] at h
    exact h.imp_right fun h => ⟨n, h⟩
  · exact .inl (mem_singleton.mp h)

theorem mem_encodeGo {cur : α} (h : x ∈ encodeGo reserved mark cur n ys) :
    x = cur ∨ x ∈ ys ∨ ∃ k, x = mark k := by
  induction ys generalizing cur n with
  | nil => exact (mem_run h).imp_right .inr
  | cons y ys ih =>
    unfold encodeGo at h
    split at h
    · obtain hcur | hys | hmark := ih h
      · exact .inl hcur
      · exact .inr (.inl (mem_cons_of_mem _ hys))
      · exact .inr (.inr hmark)
    · rcases mem_append.mp h with h | h
      · exact (mem_run h).imp_right .inr
      · obtain rfl | hys | hmark := ih h
        · exact .inr (.inl mem_cons_self)
        · exact .inr (.inl (mem_cons_of_mem _ hys))
        · exact .inr (.inr hmark)

theorem mem_encode (h : x ∈ encode reserved mark xs) : x ∈ xs ∨ ∃ k, x = mark k := by
  cases xs with
  | nil => cases h
  | cons y ys =>
    obtain rfl | hys | hmark := mem_encodeGo h
    · exact .inl mem_cons_self
    · exact .inl (mem_cons_of_mem _ hys)
    · exact .inr hmark

theorem encode_append (h : ∀ x ∈ xs.getLast?, reserved x = false → ys.head? ≠ some x) :
    encode reserved mark (xs ++ ys) = encode reserved mark xs ++ encode reserved mark ys := by
  induction hlen : xs.length using Nat.strongRecOn generalizing xs with
  | ind n ih =>
  cases xs with
  | nil => rfl
  | cons x xs =>
    obtain ⟨k, zs, heq, hk, hzs⟩ := exists_run reserved x xs
    rw [heq] at h hlen ⊢
    rw [append_assoc, encode_run hk hzs, append_assoc]
    cases zs with
    | nil =>
      rw [append_nil, getLast?_replicate] at h
      rw [nil_append, encode_run hk (h x rfl)]
      rfl
    | cons z zs =>
      have hzs' : reserved x = false → (z :: zs ++ ys).head? ≠ some x := hzs
      rw [encode_run hk hzs', ih _ ?_ ?_ rfl]
      · rw [length_append, length_replicate] at hlen
        omega
      · rwa [getLast?_append_of_ne_nil _ (cons_ne_nil _ _)] at h

omit [DecidableEq α] in
theorem Ambiguous.append_left {k : Nat} (h : Ambiguous reserved mark may ys)
    (hys : reserved x = false → ys.head? ≠ some x) : Ambiguous reserved mark may (List.replicate (k + 1) x ++ ys) := by
  obtain ⟨pre, z, n, post, rfl, hn, hz, hmay, hpre, hpost⟩ := h
  refine ⟨List.replicate (k + 1) x ++ pre, z, n, post, (append_assoc ..).symm, hn, hz, hmay, ?_, hpost⟩
  cases pre with
  | nil =>
    rw [append_nil, getLast?_replicate]
    rintro ⟨⟩
    exact hys hz rfl
  | cons y pre => rwa [getLast?_append_of_ne_nil _ (cons_ne_nil _ _)]

theorem not_single_and_run (hrsv : ∀ n, reserved (mark n) = true) {zs : List α} (hn : 2 ≤ n)
    (hx : reserved x = false) (hmay : may x) (hclear : ¬Ambiguous reserved mark may (x :: ys))
    (hzs : zs.head? ≠ some x) :
    encode reserved mark ys ≠ mark n :: encode reserved mark zs := by
  intro h
  have hh := congrArg List.head? h
  rw [head?_encode] at hh
  obtain ⟨ys', rfl⟩ : ∃ ys', ys = mark n :: ys' := head?_eq_some_iff.mp hh
  rw [encode_reserved (hrsv n), cons_inj_right] at h
  have hpost : ys'.head? ≠ some x := by
    rw [← @head?_encode _ _ reserved mark ys', h, head?_encode]
    exact hzs
  exact hclear ⟨[], x, n, ys', rfl, hn, hx, hmay, by simp, hpost⟩

omit [DecidableEq α] in
theorem Spread.of_run {k : Nat} {rest : List α} (hk : 1 ≤ k) (h : Spread may (List.replicate (k + 1) x ++ rest)) :
    may x := by
  obtain ⟨k, rfl⟩ : ∃ j, k = j + 1 := ⟨k - 1, by omega⟩
  exact (isChain_cons_cons.mp h).1.elim id id

theorem encode_inj (hrsv : ∀ n, reserved (mark n) = true) (hmark : Function.Injective mark)
    (hxs : ¬Ambiguous reserved mark may xs) (hys : ¬Ambiguous reserved mark may ys) (hxs' : Spread may xs)
    (hys' : Spread may ys) (h : encode reserved mark xs = encode reserved mark ys) : xs = ys := by
  induction hlen : xs.length using Nat.strongRecOn generalizing xs ys with
  | ind n ih =>
  have hh := congrArg List.head? h
  rw [head?_encode, head?_encode] at hh
  match xs, ys, hh with
  | [], [], _ => rfl
  | [], y :: ys, hh => cases hh
  | x :: xs, [], hh => cases hh
  | x :: xs, y :: ys, hh =>
    cases hh
    obtain ⟨a, rest, hr, ha, hrestHead⟩ := exists_run reserved x xs
    obtain ⟨b, rest', hrest', hb, hrestHead'⟩ := exists_run reserved x ys
    rw [hr] at hxs hxs' hlen h ⊢
    rw [hrest'] at hys hys' h ⊢
    rw [encode_run ha hrestHead, encode_run hb hrestHead'] at h
    have unreserved : ∀ {k : Nat}, 2 ≤ k + 1 → (reserved x = true → k = 0) → reserved x = false := by
      intro k hk hzero
      rw [← Bool.not_eq_true]
      intro hx
      have := hzero hx
      omega
    have hrests : encode reserved mark rest = encode reserved mark rest' → rest = rest' := by
      intro heq
      refine ih rest.length ?_ (fun h => hxs (h.append_left hrestHead)) (fun h => hys (h.append_left hrestHead'))
        (isChain_append.mp hxs').2.1 (isChain_append.mp hys').2.1 heq rfl
      rw [length_append, length_replicate] at hlen
      omega
    unfold run at h
    split at h
    · next hmany =>
      have hx := unreserved hmany ha
      split at h
      · simp only [cons_append, nil_append, List.cons.injEq, true_and] at h
        rw [hmark h.1, hrests h.2]
      · next hone =>
        obtain rfl : b = 0 := by omega
        simp only [cons_append, nil_append, List.cons.injEq, true_and] at h
        exact absurd h.symm (not_single_and_run hrsv hmany hx (Spread.of_run (by omega) hxs') hys (hrestHead hx))
    · next hone =>
      obtain rfl : a = 0 := by omega
      split at h
      · next hmany =>
        have hx := unreserved hmany hb
        simp only [cons_append, nil_append, List.cons.injEq, true_and] at h
        exact absurd h (not_single_and_run hrsv hmany hx (Spread.of_run (by omega) hys') hxs (hrestHead' hx))
      · next hone' =>
        obtain rfl : b = 0 := by omega
        simp only [cons_append, nil_append, List.cons.injEq, true_and] at h
        rw [hrests h]

theorem encode_expand (hrsv : ∀ n, reserved (mark n) = true) {pre post : List α} (hn : 2 ≤ n)
    (hx : reserved x = false) (hpre : pre.getLast? ≠ some x) (hpost : post.head? ≠ some x) :
    encode reserved mark (pre ++ (List.replicate n x ++ post)) = encode reserved mark (pre ++ x :: mark n :: post) := by
  have hreserved' : ∀ k, reserved x = true → k = 0 := by
    intro k h
    rw [hx] at h
    cases h
  obtain ⟨k, rfl⟩ : ∃ k, n = k + 1 := ⟨n - 1, by omega⟩
  have hmarkHead : (mark (k + 1) :: post).head? ≠ some x := by
    rintro ⟨⟩
    rw [hrsv] at hx
    cases hx
  have hspl : ∀ ys : List α, ys.head? = some x →
      encode reserved mark (pre ++ ys) = encode reserved mark pre ++ encode reserved mark ys := by
    intro ys hys
    refine encode_append fun y hy _ hh => hpre ?_
    rw [hys] at hh
    cases hh
    exact hy
  rw [hspl _ rfl, hspl _ rfl]
  congr 1
  calc encode reserved mark (List.replicate (k + 1) x ++ post)
      = run mark x (k + 1) ++ encode reserved mark post := encode_run (hreserved' k) fun _ => hpost
    _ = [x] ++ mark (k + 1) :: encode reserved mark post := by
      rw [run, if_pos hn]
      rfl
    _ = run mark x 1 ++ encode reserved mark (mark (k + 1) :: post) := by
      rw [encode_reserved (hrsv _)]
      rfl
    _ = encode reserved mark (x :: mark (k + 1) :: post) :=
      (@encode_run _ _ reserved mark x 0 _ (hreserved' 0) fun _ => hmarkHead).symm

omit [DecidableEq α] in
theorem Spread.expand {pre post : List α} {y : α} (hx : may x) (hn : 2 ≤ n) (h : Spread may (pre ++ x :: y :: post)) :
    Spread may (pre ++ (List.replicate n x ++ post)) := by
  obtain ⟨hpre, hr, -⟩ := isChain_append.mp h
  have hpost : Spread may post := (isChain_cons.mp (isChain_cons.mp hr).2).2
  refine isChain_append.mpr ⟨hpre, ?_, ?_⟩
  · refine isChain_append.mpr ⟨isChain_replicate_of_rel n (.inl hx), hpost, ?_⟩
    intro a ha b _
    rw [eq_of_mem_replicate (mem_of_getLast? ha)]
    exact .inl hx
  · intro a _ b hb
    obtain ⟨k, rfl⟩ : ∃ k, n = k + 1 := ⟨n - 1, by omega⟩
    cases hb
    exact .inr hx

theorem exists_unambiguous (hrsv : ∀ n, reserved (mark n) = true) (hspread : Spread may xs)
    (h : Ambiguous reserved mark may xs) :
    ∃ ys, ¬Ambiguous reserved mark may ys ∧ Spread may ys ∧ ys ⊆ xs ∧
      encode reserved mark ys = encode reserved mark xs ∧
      ys.countP reserved < xs.countP reserved := by
  induction hcnt : xs.countP reserved using Nat.strongRecOn generalizing xs with
  | ind c ih =>
  obtain ⟨pre, x, n, post, rfl, hn, hx, hmay, hpre, hpost⟩ := h
  have hless : (pre ++ (List.replicate n x ++ post)).countP reserved < c := by
    rw [← hcnt]
    simp [countP_append, countP_replicate, hx, hrsv]
  have hspread' := hspread.expand hmay hn
  have hsubset : pre ++ (List.replicate n x ++ post) ⊆ pre ++ x :: mark n :: post := by
    intro y hy
    simp only [mem_append, mem_replicate, mem_cons] at hy ⊢
    tauto
  have henc := encode_expand hrsv hn hx hpre hpost
  by_cases hagain : Ambiguous reserved mark may (pre ++ (List.replicate n x ++ post))
  · obtain ⟨ys, hys, hysSpread, hysSubset, hysEncode, hysCount⟩ := ih _ hless hspread' hagain rfl
    exact ⟨ys, hys, hysSpread, fun y hy => hsubset (hysSubset hy), hysEncode.trans henc, hysCount.trans hless⟩
  · exact ⟨_, hagain, hspread', hsubset, henc, hless⟩

end RunMarks
