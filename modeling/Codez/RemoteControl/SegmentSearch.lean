import Codez.RemoteControl.Split

/-!
Which chunk sizes the search for a split tries (`split_server_envelope_for_transport`).

The number of segments goes up by one from turn to turn, as long as this makes the chunks smaller.
-/

namespace RemoteControl

open ClientSegmentReassembler

variable {M N : Type} {host : SplitHost M N} {envelope : ServerEnvelope M} {raw : Bytes} {n size : Nat}

def FitsAt (host : SplitHost M N) (envelope : ServerEnvelope M) (raw : Bytes) (chunkSize : Nat) : Prop :=
  ((Chunks.chunks chunkSize raw).zipIdx.all fun (chunk, segmentId) =>
    chunkFits host envelope segmentId (raw.length ⌈/⌉ chunkSize) raw.length chunk) = true

instance (chunkSize : Nat) : Decidable (FitsAt host envelope raw chunkSize) := inferInstanceAs (Decidable (_ = true))

/-- One byte, or the chunk size for a number of segments from `first` on, up to which each further segment
makes the chunks smaller. -/
def Tried (size first chunkSize : Nat) : Prop :=
  chunkSize = 1 ∨ ∃ count, first ≤ count ∧ chunkSize = chunkSizeFor size count ∧
    ∀ m, first ≤ m → m < count → chunkSizeFor size (m + 1) < chunkSizeFor size m

theorem chunkSizeFor_anti {size m n : Nat} (hm : 0 < m) (h : m ≤ n) : chunkSizeFor size n ≤ chunkSizeFor size m := by
  refine chunkSizeFor_le (Nat.lt_of_lt_of_le hm h) (chunkSizeFor_pos _ _) ?_
  have hcover : size ≤ m * chunkSizeFor size m := (ceilDiv_le_iff_le_mul hm).mp (le_max_right _ _)
  exact hcover.trans (Nat.mul_le_mul_right _ h)

theorem ceilDiv_chunkSizeFor (h : chunkSizeFor size (n + 1) < chunkSizeFor size n) (hn : 0 < n) :
    size ⌈/⌉ chunkSizeFor size (n + 1) = n + 1 := by
  have hpos := chunkSizeFor_pos size (n + 1)
  apply le_antisymm
  · rw [ceilDiv_le_iff_le_mul hpos, Nat.mul_comm]
    exact (ceilDiv_le_iff_le_mul (Nat.succ_pos n)).mp (le_max_right _ _)
  · by_contra hless
    have hle : size ≤ chunkSizeFor size (n + 1) * n := (ceilDiv_le_iff_le_mul hpos).mp (by omega)
    exact absurd (chunkSizeFor_le hn hpos (by rwa [Nat.mul_comm])) (not_le.mpr h)

theorem chunkSizeFor_ceilDiv (hn : 0 < n) (hsz : 0 < size) :
    chunkSizeFor size (size ⌈/⌉ chunkSizeFor size n) = chunkSizeFor size n := by
  have hpos := chunkSizeFor_pos size n
  have hcnt : 0 < size ⌈/⌉ chunkSizeFor size n := by
    by_contra hzero
    have hle := (ceilDiv_le_iff_le_mul hpos).mp (Nat.le_of_not_lt hzero)
    omega
  apply le_antisymm
  · refine chunkSizeFor_le hcnt hpos ?_
    rw [Nat.mul_comm]
    exact (ceilDiv_le_iff_le_mul hpos).mp le_rfl
  · refine chunkSizeFor_anti hcnt ((ceilDiv_le_iff_le_mul hpos).mpr ?_)
    rw [Nat.mul_comm]
    exact (ceilDiv_le_iff_le_mul hn).mp (le_max_right _ _)

theorem Tried.succ_iff {chunkSize : Nat} (h : chunkSizeFor size (n + 1) < chunkSizeFor size n) :
    Tried size n chunkSize ↔ chunkSize = chunkSizeFor size n ∨ Tried size (n + 1) chunkSize := by
  constructor
  · rintro (hone | ⟨count, hle, rfl, hdec⟩)
    · exact .inr (.inl hone)
    · obtain rfl | hlt := Nat.eq_or_lt_of_le hle
      · exact .inl rfl
      · exact .inr (.inr ⟨count, hlt, rfl, fun m hm => hdec m (by omega)⟩)
  · rintro (rfl | hone | ⟨count, hle, rfl, hdec⟩)
    · exact .inr ⟨n, le_rfl, rfl, fun m hm hlt => absurd hm (not_le.mpr hlt)⟩
    · exact .inl hone
    · refine .inr ⟨count, by omega, rfl, fun m hm hlt => ?_⟩
      obtain rfl | hm := Nat.eq_or_lt_of_le hm
      · exact h
      · exact hdec m hm hlt

theorem Tried.stop_iff {chunkSize : Nat} (h : ¬ chunkSizeFor size (n + 1) < chunkSizeFor size n) :
    Tried size n chunkSize ↔ chunkSize = chunkSizeFor size n ∨ chunkSize = 1 := by
  constructor
  · rintro (hone | ⟨count, hle, rfl, hdec⟩)
    · exact .inr hone
    · obtain rfl | hlt := Nat.eq_or_lt_of_le hle
      · exact .inl rfl
      · exact absurd (hdec n le_rfl hlt) h
  · rintro (rfl | hone)
    · exact .inr ⟨n, le_rfl, rfl, fun m hm hlt => absurd hm (not_le.mpr hlt)⟩
    · exact .inl hone

theorem splitLoop_of_fits (hraw : raw ≠ []) (fuel : Nat)
    (hfits : FitsAt host envelope raw (chunkSizeFor raw.length n)) :
    splitLoop host envelope raw (fuel + 1) n ≠ some (.ok []) := by
  obtain ⟨out, hout, hspl⟩ := isSplit_of_fits (chunkSizeFor_pos _ _) hraw hfits
  rw [FitsAt] at hfits
  rw [splitLoop, if_pos hfits, hout]
  intro hnil
  simp only [Option.some.injEq, Except.ok.injEq] at hnil
  have hps := hspl.out_eq
  rw [hnil, eq_comm, List.map_eq_nil_iff, List.zipIdx_eq_nil_iff] at hps
  apply hraw
  rw [← hspl.flatten, hps]
  rfl

theorem splitLoop_eq_nil_iff (hraw : raw ≠ []) (fuel : Nat) (hn : 0 < n)
    (hcnt : raw.length ⌈/⌉ chunkSizeFor raw.length n = n) (hfuel : chunkSizeFor raw.length n ≤ fuel) :
    splitLoop host envelope raw fuel n = some (.ok []) ↔
      ∀ chunkSize, Tried raw.length n chunkSize → ¬FitsAt host envelope raw chunkSize := by
  have hsz := List.length_pos_iff.mpr hraw
  induction fuel generalizing n with
  | zero => exact absurd hfuel (not_le.mpr (chunkSizeFor_pos _ _))
  | succ fuel ih =>
    have hself : Tried raw.length n (chunkSizeFor raw.length n) :=
      .inr ⟨n, le_rfl, rfl, fun m hm hlt => absurd hm (not_le.mpr hlt)⟩
    by_cases hfits : FitsAt host envelope raw (chunkSizeFor raw.length n)
    · exact iff_of_false (splitLoop_of_fits hraw fuel hfits) fun hnone => hnone _ hself hfits
    have hturn : splitLoop host envelope raw (fuel + 1) n = if chunkSizeFor raw.length n = 1 then some (.ok [])
        else splitLoop host envelope raw fuel (nextSegmentCount raw.length n (chunkSizeFor raw.length n)) := by
      rw [FitsAt] at hfits
      rw [splitLoop, if_neg hfits, hcnt]
    rw [hturn]
    by_cases hone : chunkSizeFor raw.length n = 1
    · rw [if_pos hone]
      refine iff_of_true rfl fun chunkSize htried => ?_
      have hstop : ¬ chunkSizeFor raw.length (n + 1) < chunkSizeFor raw.length n := by
        have := chunkSizeFor_pos raw.length (n + 1)
        omega
      obtain rfl | rfl := (Tried.stop_iff hstop).mp htried
      · exact hfits
      · rwa [hone] at hfits
    rw [if_neg hone, nextSegmentCount]
    have hanti := @chunkSizeFor_anti raw.length n (n + 1) hn (Nat.le_succ n)
    by_cases hsame : chunkSizeFor raw.length (n + 1) = chunkSizeFor raw.length n
    · rw [if_pos hsame]
      have hbyte : chunkSizeFor raw.length raw.length = 1 :=
        le_antisymm (chunkSizeFor_le hsz Nat.one_pos (by omega)) (chunkSizeFor_pos _ _)
      have hl : ¬ chunkSizeFor raw.length (raw.length + 1) < chunkSizeFor raw.length raw.length := by
        have := chunkSizeFor_pos raw.length (raw.length + 1)
        omega
      have hr := ih hsz (by rw [hbyte]; simp) (by have := chunkSizeFor_pos raw.length n; omega)
      refine hr.trans ?_
      simp only [Tried.stop_iff hl, Tried.stop_iff (hsame.not_lt), hbyte, or_self, forall_eq, forall_eq_or_imp]
      exact (and_iff_right hfits).symm
    · have hless : chunkSizeFor raw.length (n + 1) < chunkSizeFor raw.length n := lt_of_le_of_ne hanti hsame
      have hr := ih (n := n + 1) (by omega) (ceilDiv_chunkSizeFor hless hn) (by omega)
      rw [if_neg hsame]
      refine hr.trans ?_
      simp only [Tried.succ_iff hless, forall_eq_or_imp]
      exact (and_iff_right hfits).symm

/-- **When a message is dropped.**  Of the messages that are not too large, those whose own envelope does
not fit are dropped exactly if the first test fails or no chunk size that is tried fits. -/
theorem split_eq_nil_iff (host : SplitHost M N) (envelope : ServerEnvelope M) (message : M)
    (hevent : envelope.event = .serverMessage message) (hraw : host.toVec message ≠ [])
    (hsize : (host.toVec message).length ≤ remoteControlReassembledMaxBytes) :
    let size := (host.toVec message).length
    let first := max 2 (size ⌈/⌉ remoteControlSegmentTargetBytes)
    splitServerEnvelopeForTransport host envelope = some (.ok []) ↔
      remoteControlSegmentMaxBytes < host.serializedLen envelope ∧
        (remoteControlSegmentMaxBytes < host.serializedLen (chunkEnvelope host envelope
            (min (max size 1) remoteControlSegmentCountMax) size ((host.toVec message).take 1, 0)) ∨
          ∀ chunkSize, Tried size (size ⌈/⌉ chunkSizeFor size first) chunkSize →
            ¬FitsAt host envelope (host.toVec message) chunkSize) := by
  intro size first
  have hpos : 0 < size := List.length_pos_iff.mpr hraw
  have hfirst : 0 < first := Nat.lt_of_lt_of_le Nat.two_pos (le_max_left _ _)
  have hsame := chunkSizeFor_ceilDiv hfirst hpos
  have hloop : splitLoop host envelope (host.toVec message) (size + 1) first = some (.ok []) ↔
      ∀ chunkSize, Tried size (size ⌈/⌉ chunkSizeFor size first) chunkSize →
        ¬FitsAt host envelope (host.toVec message) chunkSize := by
    -- the loop only looks at the chunk size, which the number of pieces gives back
    have hstart : splitLoop host envelope (host.toVec message) (size + 1) first =
        splitLoop host envelope (host.toVec message) (size + 1) (size ⌈/⌉ chunkSizeFor size first) := by
      simp only [splitLoop, size, hsame]
    rw [hstart]
    refine splitLoop_eq_nil_iff hraw (size + 1) ?_ (by rw [hsame]) ?_
    · by_contra hzero
      have hle := (ceilDiv_le_iff_le_mul (chunkSizeFor_pos size first)).mp (Nat.le_of_not_lt hzero)
      omega
    · rw [hsame]
      exact chunkSizeFor_le hfirst (by omega) (by nlinarith)
  have hminimal := @buildChunkEnvelope_of_le M N host envelope
    (min (max (host.toVec message).length 1) remoteControlSegmentCountMax) (min_le_right _ _)
    (host.toVec message).length ((host.toVec message).take 1, 0)
  simp only [splitServerEnvelopeForTransport, hevent, serializedChunkLen, hminimal]
  by_cases hsmall : host.serializedLen envelope ≤ remoteControlSegmentMaxBytes
  · rw [if_pos hsmall]
    exact iff_of_false (by simp) fun h => absurd h.1 (not_lt.mpr hsmall)
  rw [if_neg hsmall, if_neg (not_lt.mpr hsize), and_iff_right (not_le.mp hsmall)]
  by_cases hlong : remoteControlSegmentMaxBytes < host.serializedLen (chunkEnvelope host envelope
      (min (max size 1) remoteControlSegmentCountMax) size ((host.toVec message).take 1, 0))
  · exact iff_of_true (if_pos hlong) (.inl hlong)
  · rw [or_iff_right hlong, ← hloop]
    exact ⟨fun h => (if_neg hlong).symm.trans h, fun h => (if_neg hlong).trans h⟩

def tightReply : ServerEnvelope Nat := ⟨.serverMessage 1059, List.replicate 153419 'c', ['s'], 1⟩

theorem split_eq_nil_iff_tight :
    remoteControlSegmentMaxBytes < (replySplitHost 153420).serializedLen tightReply ∧
      splitServerEnvelopeForTransport (replySplitHost 153300) longReply ≠ some (.ok []) := by
  constructor
  · exact ((split_eq_nil_iff (replySplitHost 153420) tightReply 1059 rfl (by decide +kernel) (by decide +kernel)).mp
      (by decide +kernel)).1
  · intro hnil
    obtain ⟨-, hfirst | hnone⟩ :=
      (split_eq_nil_iff (replySplitHost 153300) longReply 200 rfl (by decide +kernel) (by decide +kernel)).mp hnil
    · exact absurd hfirst (by decide +kernel)
    have htried : Tried 241 2 81 := by
      refine .inr ⟨3, by decide, by decide +kernel, fun m hm hlt => ?_⟩
      obtain rfl : m = 2 := by omega
      decide +kernel
    have hraw : ((replySplitHost 153300).toVec 200).length = 241 := length_errorReply 200
    have hcount : 241 ⌈/⌉ chunkSizeFor 241 (max 2 (241 ⌈/⌉ remoteControlSegmentTargetBytes)) = 2 := by decide +kernel
    simp only [hraw, hcount] at hnone
    exact hnone 81 htried (by decide +kernel)

theorem splittable_message_dropped :
    splitServerEnvelopeForTransport (replySplitHost 153420) tightReply = some (.ok []) ∧
      FitsAt (replySplitHost 153420) tightReply (errorReply 1059) 3 := by
  decide +kernel

end RemoteControl
