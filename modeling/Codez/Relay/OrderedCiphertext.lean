import Codez.Lib.Effect
import Codez.Lib.Reorder
import Codez.Lib.Table

/-!
The reorder buffer of the Noise relay (`noise_relay/ordered_ciphertext.rs`).

`OrderedCiphertextFrames.after_push`: the buffer has released the first copies of the records in
order, up to the first one that is missing.
-/

namespace NoiseRelay

open Effect List

abbrev Bytes := List UInt8

inductive ExecServerError where
  | protocol (message : String)
  | json (error : String)
deriving DecidableEq

def u32Max : Nat := 2 ^ 32 - 1

def maxReorderDistance : Nat := 64

def maxPendingBytes : Nat := 1024 * 1024

structure OrderedCiphertextFrames where
  nextSeq : Nat := 0
  pending : AList (fun _ : Nat => Bytes) := ∅
  pendingBytes : Nat := 0

open AList After Reorder

namespace OrderedCiphertextFrames

def reorderWindowError : ExecServerError := .protocol "Noise relay ciphertext exceeds reorder window"

def pendingBufferError : ExecServerError := .protocol "Noise relay pending ciphertext buffer is full"

def sequenceError : ExecServerError := .protocol "Noise relay sequence number exhausted"

def advance : EStateM ExecServerError OrderedCiphertextFrames Unit := do
  let s ← get
  if s.nextSeq < u32Max then modify fun s => { s with nextSeq := s.nextSeq + 1 }
  else throw sequenceError

def release : Nat → EStateM ExecServerError OrderedCiphertextFrames (List Bytes)
  | 0 => pure []
  | fuel + 1 => do
    let s ← get
    match s.pending.lookup s.nextSeq with
    | none => pure []
    | some payload =>
      modify fun s => { s with
        pending := s.pending.erase s.nextSeq
        pendingBytes := s.pendingBytes - payload.length }
      advance
      let ready ← release fuel
      pure (payload :: ready)

def push (seq : Nat) (payload : Bytes) : EStateM ExecServerError OrderedCiphertextFrames (List Bytes) := do
  let s ← get
  if seq < s.nextSeq ∨ seq ∈ s.pending then pure []
  else if s.nextSeq < seq then
    if maxReorderDistance < seq - s.nextSeq then throw reorderWindowError
    else if maxPendingBytes < s.pendingBytes + payload.length then throw pendingBufferError
    else
      modify fun s => { s with
        pending := s.pending.insert seq payload
        pendingBytes := s.pendingBytes + payload.length }
      pure []
  else
    advance
    let ready ← release s.pending.keys.length
    pure (payload :: ready)

/-- The buffer holds the first copies of `frames` from `n` on, and the earlier ones have all
arrived. -/
structure HoldsFrom (frames : List (Nat × Bytes)) (n : Nat) (s : OrderedCiphertextFrames) : Prop where
  next : s.nextSeq = n
  arrived : ∀ k < n, frames.lookup k ≠ none
  lookup : ∀ k, s.pending.lookup k = if n ≤ k then frames.lookup k else none
  bytes : s.pendingBytes = Reorder.waitingFrom List.length frames n

def Holds (frames : List (Nat × Bytes)) (s : OrderedCiphertextFrames) : Prop :=
  HoldsFrom frames (Reorder.expected frames) s

theorem holds_nil : Holds [] {} := by
  rw [Holds, expected_nil]
  refine ⟨rfl, by simp, ?_, rfl⟩
  intro k
  rw [lookup_empty, if_pos (Nat.zero_le k)]
  rfl

/-- The end of the sequence numbers is only met when all of them have arrived. -/
def Exhausts (frames : List (Nat × Bytes)) (e : ExecServerError) : Prop :=
  e = sequenceError ∧ frames.lookup u32Max ≠ none

variable {frames : List (Nat × Bytes)} {n : Nat} {s : OrderedCiphertextFrames} (payload : Bytes)

theorem after_advance {ok : Unit → OrderedCiphertextFrames → Prop}
    {bad : ExecServerError → OrderedCiphertextFrames → Prop}
    (hok : s.nextSeq < u32Max → ok () { s with nextSeq := s.nextSeq + 1 })
    (hbad : u32Max ≤ s.nextSeq → bad sequenceError s) : After advance s ok bad := by
  apply After.bind
  apply After.get
  split
  · next h => exact modify (hok h)
  · next h => exact error (hbad (by omega))

theorem HoldsFrom.take {payload : Bytes} (h : HoldsFrom frames n s) (hp : s.pending.lookup s.nextSeq = some payload) :
    frames.lookup n = some payload ∧ HoldsFrom frames (n + 1) { s with
        nextSeq := s.nextSeq + 1
        pending := s.pending.erase s.nextSeq
        pendingBytes := s.pendingBytes - payload.length } := by
  have hn : frames.lookup n = some payload := by
    rw [h.next, h.lookup n, if_pos le_rfl] at hp
    exact hp
  refine ⟨hn, by rw [h.next], ?_, ?_, ?_⟩
  · intro k hk
    rcases Nat.lt_succ_iff_lt_or_eq.mp hk with hlt | rfl
    · exact h.arrived k hlt
    · simp [hn]
  · intro k
    simp only [h.next]
    by_cases hk : k = n
    · rw [hk, lookup_erase, if_neg (by omega)]
    · rw [lookup_erase_ne hk, h.lookup k]
      by_cases hle : n ≤ k
      · rw [if_pos hle, if_pos (by omega)]
      · rw [if_neg hle, if_neg (by omega)]
  · show s.pendingBytes - payload.length = _
    rw [h.bytes, waitingFrom_eq_add List.length hn, Nat.add_sub_cancel]

theorem after_release (fuel : Nat) (hfuel : s.pending.keys.length ≤ fuel) (h : HoldsFrom frames n s) :
    After (release fuel) s
      (fun ready s' => Holds frames s' ∧ Reorder.inOrder frames = Reorder.upTo frames n ++ ready)
      fun e _ => Exhausts frames e := by
  have stop : ∀ {s : OrderedCiphertextFrames} {n : Nat}, HoldsFrom frames n s →
      s.pending.lookup s.nextSeq = none →
      Holds frames s ∧ Reorder.inOrder frames = Reorder.upTo frames n ++ [] := by
    intro s n h hnone
    have hn : frames.lookup n = none := by rwa [h.next, h.lookup n, if_pos le_rfl] at hnone
    have hexp : Reorder.expected frames = n := Reorder.expected_eq_iff.mpr ⟨hn, h.arrived⟩
    rw [Holds, Reorder.inOrder, hexp, append_nil]
    exact ⟨h, rfl⟩
  induction fuel generalizing s n with
  | zero =>
    apply After.value
    apply stop h
    rw [AList.lookup_eq_none, AList.mem_keys, length_eq_zero_iff.mp (Nat.le_zero.mp hfuel)]
    exact not_mem_nil
  | succ fuel ih =>
    apply After.bind
    apply After.get
    cases hp : s.pending.lookup s.nextSeq with
    | none => exact After.value (stop h hp)
    | some payload =>
      obtain ⟨hn, htaken⟩ := h.take hp
      have hmem : s.nextSeq ∈ s.pending := AList.lookup_isSome.mp (by rw [hp]; rfl)
      apply After.bind
      apply After.modify
      apply After.bind
      apply after_advance
      · intro _
        apply After.bind
        refine (ih ?_ htaken).mono ?_ fun _ _ he => he
        · rw [AList.keys_erase, length_erase_of_mem (AList.mem_keys.mp hmem)]
          omega
        · intro ready s' hs'
          refine After.value ⟨hs'.1, ?_⟩
          rw [hs'.2, Reorder.upTo_succ hn, append_assoc, singleton_append]
      · intro hmax
        refine ⟨rfl, ?_⟩
        have hle : u32Max ≤ n := h.next ▸ hmax
        rcases Nat.eq_or_lt_of_le hle with heq | hlt
        · rw [heq, hn]; simp
        · exact h.arrived u32Max hlt

def Overflows (frames : List (Nat × Bytes)) (seq : Nat) (payload : Bytes) (e : ExecServerError) : Prop :=
  (e = reorderWindowError ∧ Reorder.expected frames + maxReorderDistance < seq) ∨
    (e = pendingBufferError ∧ maxPendingBytes < Reorder.waiting List.length (frames ++ [(seq, payload)]))

theorem Holds.duplicate {seq : Nat} (h : Holds frames s) (hseq : frames.lookup seq ≠ none) :
    Holds (frames ++ [(seq, payload)]) s ∧
      inOrder (frames ++ [(seq, payload)]) = inOrder frames := by
  have hlk := lookup_snoc_of_ne_none payload hseq
  have hexp : expected (frames ++ [(seq, payload)]) = expected frames := by
    rw [expected_eq_iff]
    refine ⟨by rw [hlk, lookup_expected], ?_⟩
    intro k hk
    rw [hlk]
    exact lookup_ne_none_of_lt_expected hk
  rw [Holds, inOrder, inOrder, hexp]
  refine ⟨⟨h.next, ?_, ?_, ?_⟩, upTo_congr fun k _ => hlk k⟩
  · intro k hk
    rw [hlk]
    exact h.arrived k hk
  · intro k
    rw [hlk]
    exact h.lookup k
  · rw [h.bytes]
    exact (waitingFrom_congr List.length _ hlk).symm

theorem Holds.early {seq : Nat} (h : Holds frames s) (hseq : frames.lookup seq = none)
    (hgap : expected frames < seq) :
    waiting List.length (frames ++ [(seq, payload)]) = s.pendingBytes + payload.length ∧
      Holds (frames ++ [(seq, payload)]) { s with
        pending := s.pending.insert seq payload
        pendingBytes := s.pendingBytes + payload.length } ∧
      inOrder (frames ++ [(seq, payload)]) = inOrder frames := by
  have hoth : ∀ k ≤ expected frames, (frames ++ [(seq, payload)]).lookup k = frames.lookup k :=
    fun k hk => lookup_snoc_ne payload (by omega)
  have hexp : expected (frames ++ [(seq, payload)]) = expected frames := by
    rw [expected_eq_iff]
    refine ⟨by rw [hoth _ le_rfl, lookup_expected], ?_⟩
    intro k hk
    rw [hoth k hk.le]
    exact lookup_ne_none_of_lt_expected hk
  have hbytes : s.pendingBytes + payload.length =
      waitingFrom List.length (frames ++ [(seq, payload)]) (expected frames) := by
    rw [h.bytes, waitingFrom_snoc List.length payload hseq hgap.le]
  rw [waiting, Holds, inOrder, inOrder, hexp]
  refine ⟨hbytes.symm, ⟨h.next, ?_, ?_, hbytes⟩, upTo_congr fun k hk => hoth k hk.le⟩
  · intro k hk
    rw [hoth k hk.le]
    exact h.arrived k hk
  · intro k
    by_cases hk : k = seq
    · rw [hk, lookup_insert, if_pos hgap.le, lookup_snoc_self payload hseq]
    · rw [lookup_insert_ne hk, lookup_snoc_ne payload hk]
      exact h.lookup k

theorem Holds.expected (h : Holds frames s) :
    HoldsFrom (frames ++ [(s.nextSeq, payload)]) (s.nextSeq + 1) { s with nextSeq := s.nextSeq + 1 } ∧
      upTo (frames ++ [(s.nextSeq, payload)]) (s.nextSeq + 1) = inOrder frames ++ [payload] := by
  have hnone : frames.lookup s.nextSeq = none := by rw [h.next, lookup_expected]
  have hself := lookup_snoc_self payload hnone
  refine ⟨⟨rfl, ?_, ?_, ?_⟩, ?_⟩
  · intro k hk
    rcases Nat.lt_succ_iff_lt_or_eq.mp hk with hlt | rfl
    · rw [lookup_snoc_ne payload hlt.ne]
      exact h.arrived k (h.next ▸ hlt)
    · rw [hself]; simp
  · intro k
    by_cases hk : k = s.nextSeq
    · rw [if_neg (by omega), hk]
      show s.pending.lookup s.nextSeq = none
      rw [h.lookup, ← h.next, if_pos le_rfl, hnone]
    · rw [lookup_snoc_ne payload hk]
      show s.pending.lookup k = _
      rw [h.lookup k, ← h.next]
      by_cases hle : s.nextSeq ≤ k
      · rw [if_pos hle, if_pos (by omega)]
      · rw [if_neg hle, if_neg (by omega)]
  · show s.pendingBytes = _
    have hadd := waitingFrom_eq_add List.length hself
    rw [waitingFrom_snoc List.length payload hnone le_rfl] at hadd
    rw [h.bytes, ← h.next]
    exact Nat.add_right_cancel hadd
  · rw [upTo_succ hself, inOrder, ← h.next]
    congr 1
    exact upTo_congr fun k hk => lookup_snoc_ne payload hk.ne

theorem Holds.mem_pending_or_lt (h : Holds frames s) (seq : Nat) :
    (seq < s.nextSeq ∨ seq ∈ s.pending) ↔ frames.lookup seq ≠ none := by
  rw [h.next, ← AList.lookup_isSome, h.lookup seq]
  by_cases hlt : seq < Reorder.expected frames
  · simpa [hlt] using Reorder.lookup_ne_none_of_lt_expected hlt
  · rw [if_pos (by omega), Option.isSome_iff_ne_none]
    simp [hlt]

theorem after_push (seq : Nat) (payload : Bytes) (h : Holds frames s) : After (push seq payload) s
      (fun ready s' => Holds (frames ++ [(seq, payload)]) s' ∧
        Reorder.inOrder (frames ++ [(seq, payload)]) = Reorder.inOrder frames ++ ready)
      fun e _ => Overflows frames seq payload e ∨ Exhausts (frames ++ [(seq, payload)]) e := by
  apply After.bind
  apply After.get
  by_cases hdup : seq < s.nextSeq ∨ seq ∈ s.pending
  · rw [if_pos hdup]
    obtain ⟨hholds, hin⟩ := h.duplicate payload ((h.mem_pending_or_lt seq).mp hdup)
    exact After.value ⟨hholds, by rw [hin, append_nil]⟩
  · rw [if_neg hdup]
    have hnone : frames.lookup seq = none := by
      by_contra hne
      exact hdup ((h.mem_pending_or_lt seq).mpr hne)
    have hnext := h.next
    by_cases hgap : s.nextSeq < seq
    · rw [if_pos hgap]
      obtain ⟨hbytes, hholds, hin⟩ := h.early payload hnone (hnext ▸ hgap)
      by_cases hwindow : maxReorderDistance < seq - s.nextSeq
      · rw [if_pos hwindow]
        exact After.error (.inl (.inl ⟨rfl, by omega⟩))
      · rw [if_neg hwindow]
        by_cases hfull : maxPendingBytes < s.pendingBytes + payload.length
        · rw [if_pos hfull]
          exact After.error (.inl (.inr ⟨rfl, by rw [hbytes]; exact hfull⟩))
        · rw [if_neg hfull]
          apply After.bind
          apply After.modify
          exact After.value ⟨hholds, by rw [hin, append_nil]⟩
    · rw [if_neg hgap]
      obtain rfl : seq = s.nextSeq := by omega
      obtain ⟨hfrom, hupTo⟩ := h.expected payload
      apply After.bind
      apply after_advance
      · intro _
        apply After.bind
        refine (after_release _ le_rfl hfrom).mono ?_ fun _ _ he => .inr he
        intro ready s' hs'
        refine After.value ⟨hs'.1, ?_⟩
        rw [hs'.2, hupTo, append_assoc, singleton_append]
      · intro hmax
        refine Or.inr ⟨rfl, ?_⟩
        rcases Nat.eq_or_lt_of_le hmax with heq | hlt
        · rw [heq, Reorder.lookup_snoc_self payload hnone]; simp
        · rw [Reorder.lookup_snoc_ne payload hlt.ne]
          exact h.arrived u32Max (hnext ▸ hlt)

/-! ## Bounds -/

/-- What is held lies inside the window, and its bytes are counted and limited. -/
structure Bounded (s : OrderedCiphertextFrames) : Prop where
  bytes : s.pendingBytes = Table.total s.pending List.length
  limit : s.pendingBytes ≤ maxPendingBytes
  window : ∀ k ∈ s.pending, s.nextSeq ≤ k ∧ k ≤ s.nextSeq + maxReorderDistance

theorem Bounded.advance (h : Bounded s) (hnext : s.nextSeq ∉ s.pending) :
    After advance s (fun _ s' => Bounded s') fun _ s' => Bounded s' := by
  apply after_advance
  · intro _
    refine ⟨h.bytes, h.limit, fun k hk => ?_⟩
    have hne : k ≠ s.nextSeq := fun heq => hnext (heq ▸ hk)
    have hin := h.window k hk
    show s.nextSeq + 1 ≤ k ∧ k ≤ s.nextSeq + 1 + maxReorderDistance
    omega
  · exact fun _ => h

theorem Bounded.release (h : Bounded s) (fuel : Nat) :
    After (release fuel) s (fun _ s' => Bounded s') fun _ s' => Bounded s' := by
  induction fuel generalizing s with
  | zero => exact h
  | succ fuel ih =>
    apply After.bind
    apply After.get
    cases hp : s.pending.lookup s.nextSeq with
    | none => exact h
    | some payload =>
      have htotal := Table.total_erase_of_lookup s.pending List.length hp
      have htaken : Bounded { s with
          pending := s.pending.erase s.nextSeq
          pendingBytes := s.pendingBytes - payload.length } := by
        refine ⟨?_, (Nat.sub_le _ _).trans h.limit, fun k hk => h.window k (mem_erase.mp hk).2⟩
        show s.pendingBytes - payload.length = Table.total (s.pending.erase s.nextSeq) List.length
        rw [h.bytes]
        omega
      apply After.bind
      apply After.modify
      refine (htaken.advance fun hmem => (AList.mem_erase.mp hmem).1 rfl).andThen (fun _ s' hs' => ?_) fun _ _ he => he
      exact After.bind (ih hs')

theorem Bounded.push (h : Bounded s) (seq : Nat) (payload : Bytes) :
    After (push seq payload) s (fun _ s' => Bounded s') fun _ s' => Bounded s' := by
  apply After.bind
  apply After.get
  by_cases hdup : seq < s.nextSeq ∨ seq ∈ s.pending
  · rw [if_pos hdup]
    exact h
  rw [if_neg hdup]
  rw [not_or] at hdup
  by_cases hgap : s.nextSeq < seq
  · rw [if_pos hgap]
    split
    · exact h
    split
    · exact h
    · next hwindow hfull =>
      refine ⟨?_, Nat.le_of_not_lt hfull, fun k hk => ?_⟩
      · show s.pendingBytes + payload.length = Table.total (s.pending.insert seq payload) List.length
        rw [Table.total_insert, Table.erase_of_notMem _ hdup.2, h.bytes, Nat.add_comm]
      · show s.nextSeq ≤ k ∧ k ≤ s.nextSeq + maxReorderDistance
        rcases (AList.mem_insert _).mp hk with rfl | hk
        · omega
        · exact h.window k hk
  · rw [if_neg hgap]
    obtain rfl : seq = s.nextSeq := by omega
    refine (h.advance hdup.2).andThen (fun _ s' hs' => ?_) fun _ _ he => he
    exact After.bind (hs'.release _)

/-- **Bounded memory**, whatever the relay sends, up to and including the record that is refused. -/
theorem push_bounded (frames : List (Nat × Bytes)) :
    After (frames.foldlM (fun _ frame => push frame.1 frame.2) []) {} (fun _ s => Bounded s) fun _ s => Bounded s :=
  After.foldlM (fun _ frame _ h => h.push frame.1 frame.2) frames [] ⟨rfl, Nat.zero_le _, by simp⟩

end OrderedCiphertextFrames

end NoiseRelay
