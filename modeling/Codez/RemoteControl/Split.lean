import Codez.Lib.Chunks
import Codez.RemoteControl.Transfer

/-!
Splitting server messages (`remote_control/segment.rs`, `split_server_envelope_for_transport`).

The number of segments is searched: a turn takes the smallest chunk size that the number allows, and
stops when every chunk's envelope is small enough.
-/

namespace RemoteControl

open ClientSegmentReassembler List

def remoteControlSegmentTargetBytes : Nat := 100 * 1024

/-- base64 and JSON.  The server writes messages `M`, a client reads them as `N`. -/
structure SplitHost (M N : Type) where
  encode : Bytes → Text
  toVec : M → Bytes
  serializedLen : ServerEnvelope M → Nat
  received : M → N

/-- Of the errors of `split_server_envelope_for_transport` only this one is not of serialization. -/
inductive IoError where
  | segmentCountExceedsMaximum
deriving DecidableEq

section
variable {M N : Type} (host : SplitHost M N)

def buildChunkEnvelope (envelope : ServerEnvelope M) (segmentId segmentCount messageSizeBytes : Nat) (chunk : Bytes) :
    Except IoError (ServerEnvelope M) :=
  if remoteControlSegmentCountMax < segmentCount then .error .segmentCountExceedsMaximum
  else .ok { envelope with
    event := .serverMessageChunk segmentId segmentCount messageSizeBytes (host.encode chunk) }

def serializedChunkLen (envelope : ServerEnvelope M) (segmentId segmentCount messageSizeBytes : Nat) (chunk : Bytes) :
    Except IoError Nat := do
  let chunkEnvelope ← buildChunkEnvelope host envelope segmentId segmentCount messageSizeBytes chunk
  return host.serializedLen chunkEnvelope

def chunkFits (envelope : ServerEnvelope M) (segmentId segmentCount messageSizeBytes : Nat) (chunk : Bytes) : Bool :=
  match serializedChunkLen host envelope segmentId segmentCount messageSizeBytes chunk with
  | .ok size => decide (size ≤ remoteControlSegmentMaxBytes)
  | .error _ => false

def chunkSizeFor (messageSizeBytes segmentCount : Nat) : Nat := max 1 (messageSizeBytes ⌈/⌉ segmentCount)

def nextSegmentCount (messageSizeBytes segmentCount chunkSize : Nat) : Nat :=
  if chunkSizeFor messageSizeBytes (segmentCount + 1) = chunkSize then messageSizeBytes else segmentCount + 1

def splitLoop (envelope : ServerEnvelope M) (raw : Bytes) :
    Nat → Nat → Option (Except IoError (List (ServerEnvelope M)))
  | 0, _ => none
  | fuel + 1, segmentCount =>
    let messageSizeBytes := raw.length
    let chunkSize := chunkSizeFor messageSizeBytes segmentCount
    let segmentCount := messageSizeBytes ⌈/⌉ chunkSize
    let chunks := (Chunks.chunks chunkSize raw).zipIdx
    if chunks.all fun (chunk, segmentId) => chunkFits host envelope segmentId segmentCount messageSizeBytes chunk then
      some (chunks.mapM fun (chunk, segmentId) =>
        buildChunkEnvelope host envelope segmentId segmentCount messageSizeBytes chunk)
    else if chunkSize = 1 then some (.ok [])
    else splitLoop envelope raw fuel (nextSegmentCount messageSizeBytes segmentCount chunkSize)

def splitServerEnvelopeForTransport (envelope : ServerEnvelope M) :
    Option (Except IoError (List (ServerEnvelope M))) :=
  match envelope.event with
  | .serverMessage message =>
    if host.serializedLen envelope ≤ remoteControlSegmentMaxBytes then some (.ok [envelope])
    else
      let raw := host.toVec message
      let messageSizeBytes := raw.length
      if remoteControlReassembledMaxBytes < messageSizeBytes then some (.ok [])
      else
        match serializedChunkLen host envelope 0 (min (max messageSizeBytes 1) remoteControlSegmentCountMax)
          messageSizeBytes (raw.take 1) with
        | .error e => some (.error e)
        | .ok size =>
          if remoteControlSegmentMaxBytes < size then some (.ok [])
          else splitLoop host envelope raw (messageSizeBytes + 1)
            (max 2 (messageSizeBytes ⌈/⌉ remoteControlSegmentTargetBytes))
  | _ => some (.ok [envelope])

end

theorem chunkSizeFor_pos (messageSizeBytes segmentCount : Nat) : 0 < chunkSizeFor messageSizeBytes segmentCount :=
  Nat.lt_of_lt_of_le Nat.zero_lt_one (le_max_left _ _)

theorem chunkSizeFor_le {messageSizeBytes segmentCount size : Nat} (hcnt : 0 < segmentCount) (hsz : 0 < size)
    (h : messageSizeBytes ≤ segmentCount * size) : chunkSizeFor messageSizeBytes segmentCount ≤ size :=
  max_le hsz ((ceilDiv_le_iff_le_mul hcnt).mpr h)

theorem nextChunkSize_lt {messageSizeBytes chunkSize : Nat} (hpos : 0 < messageSizeBytes) (hsz : 1 < chunkSize) :
    chunkSizeFor messageSizeBytes
      (nextSegmentCount messageSizeBytes (messageSizeBytes ⌈/⌉ chunkSize) chunkSize) < chunkSize := by
  rw [nextSegmentCount]
  by_cases hsame : chunkSizeFor messageSizeBytes (messageSizeBytes ⌈/⌉ chunkSize + 1) = chunkSize
  · rw [if_pos hsame]
    have hone : chunkSizeFor messageSizeBytes messageSizeBytes ≤ 1 :=
      chunkSizeFor_le hpos Nat.zero_lt_one (Nat.mul_one _).ge
    omega
  · rw [if_neg hsame]
    apply lt_of_le_of_ne _ hsame
    apply chunkSizeFor_le (Nat.succ_pos _) (by omega)
    have hcover : messageSizeBytes ≤ chunkSize * (messageSizeBytes ⌈/⌉ chunkSize) :=
      (ceilDiv_le_iff_le_mul (by omega)).mp le_rfl
    calc messageSizeBytes ≤ chunkSize * (messageSizeBytes ⌈/⌉ chunkSize) := hcover
      _ = (messageSizeBytes ⌈/⌉ chunkSize) * chunkSize := Nat.mul_comm _ _
      _ ≤ (messageSizeBytes ⌈/⌉ chunkSize + 1) * chunkSize := Nat.mul_le_mul_right _ (Nat.le_succ _)

/-! ## What it finds -/

open Chunks

section
variable {M N : Type} {host : SplitHost M N} {envelope : ServerEnvelope M} {raw : Bytes}
  {chunkSize messageSizeBytes : Nat}

def chunkEnvelope (host : SplitHost M N) (envelope : ServerEnvelope M) (segmentCount messageSizeBytes : Nat)
    (chunk : Bytes × Nat) : ServerEnvelope M :=
  { envelope with event := .serverMessageChunk chunk.2 segmentCount messageSizeBytes (host.encode chunk.1) }

/-- `parts` are the pieces of a message, and `out` their envelopes. -/
structure IsSplit (host : SplitHost M N) (envelope : ServerEnvelope M) (raw : Bytes) (parts : List Bytes)
    (out : List (ServerEnvelope M)) : Prop where
  length_le : parts.length ≤ remoteControlSegmentCountMax
  ne_nil : ∀ part ∈ parts, part ≠ []
  flatten : parts.flatten = raw
  out_eq : out = parts.zipIdx.map (chunkEnvelope host envelope parts.length raw.length)
  small : ∀ chunk ∈ out, host.serializedLen chunk ≤ remoteControlSegmentMaxBytes

theorem buildChunkEnvelope_of_le {segmentCount : Nat} (h : segmentCount ≤ remoteControlSegmentCountMax)
    (messageSizeBytes : Nat) (chunk : Bytes × Nat) :
    buildChunkEnvelope host envelope chunk.2 segmentCount messageSizeBytes chunk.1 =
      .ok (chunkEnvelope host envelope segmentCount messageSizeBytes chunk) := by
  rw [buildChunkEnvelope, if_neg (not_lt.mpr h)]
  rfl

theorem chunkFits_eq_true {segmentCount : Nat} {chunk : Bytes × Nat}
    (h : chunkFits host envelope chunk.2 segmentCount messageSizeBytes chunk.1 = true) :
    segmentCount ≤ remoteControlSegmentCountMax ∧
      host.serializedLen (chunkEnvelope host envelope segmentCount messageSizeBytes chunk) ≤
        remoteControlSegmentMaxBytes := by
  by_cases hcnt : remoteControlSegmentCountMax < segmentCount
  · rw [chunkFits, serializedChunkLen, buildChunkEnvelope, if_pos hcnt] at h
    cases h
  · have hbuild := @buildChunkEnvelope_of_le M N host envelope segmentCount (not_lt.mp hcnt) messageSizeBytes chunk
    rw [chunkFits, serializedChunkLen, hbuild] at h
    exact ⟨not_lt.mp hcnt, of_decide_eq_true h⟩

theorem two_le_ceilDiv (hpos : 0 < chunkSize) (hlt : chunkSize < messageSizeBytes) :
    2 ≤ messageSizeBytes ⌈/⌉ chunkSize := by
  by_contra hless
  have hle : messageSizeBytes ≤ chunkSize * 1 := (ceilDiv_le_iff_le_mul hpos).mp (by omega)
  omega

theorem isSplit_of_fits (hpos : 0 < chunkSize) (hraw : raw ≠ [])
    (hfits : ((chunks chunkSize raw).zipIdx.all fun (chunk, segmentId) =>
      chunkFits host envelope segmentId (raw.length ⌈/⌉ chunkSize) raw.length chunk) = true) :
    ∃ out, ((chunks chunkSize raw).zipIdx.mapM fun (chunk, segmentId) =>
        buildChunkEnvelope host envelope segmentId (raw.length ⌈/⌉ chunkSize) raw.length chunk) = .ok out ∧
      IsSplit host envelope raw (chunks chunkSize raw) out := by
  have hlen := length_chunks hpos raw
  rw [all_eq_true] at hfits
  have hfit : ∀ chunk ∈ (chunks chunkSize raw).zipIdx, raw.length ⌈/⌉ chunkSize ≤ remoteControlSegmentCountMax ∧
      host.serializedLen (chunkEnvelope host envelope (raw.length ⌈/⌉ chunkSize) raw.length chunk) ≤
        remoteControlSegmentMaxBytes := fun chunk hmem => chunkFits_eq_true (hfits chunk hmem)
  have hcnt : raw.length ⌈/⌉ chunkSize ≤ remoteControlSegmentCountMax := by
    have hne : (chunks chunkSize raw).zipIdx ≠ [] := by
      intro hnil
      rw [zipIdx_eq_nil_iff] at hnil
      apply hraw
      rw [← flatten_chunks hpos raw, hnil]
      rfl
    obtain ⟨chunk, hmem⟩ := exists_mem_of_ne_nil _ hne
    exact (hfit chunk hmem).1
  refine ⟨(chunks chunkSize raw).zipIdx.map (chunkEnvelope host envelope (raw.length ⌈/⌉ chunkSize) raw.length),
    ?_, ?_⟩
  · have hbuild := @buildChunkEnvelope_of_le M N host envelope _ hcnt raw.length
    simp only [hbuild]
    exact mapM_pure
  · refine ⟨hlen ▸ hcnt, fun part hmem => ne_nil_of_mem hpos hmem, flatten_chunks hpos raw,
      by rw [hlen], ?_⟩
    intro chunk hmem
    obtain ⟨piece, hpiece, rfl⟩ := mem_map.mp hmem
    exact (hfit piece hpiece).2

theorem splitLoop_spec (fuel segmentCount : Nat) (hfuel : chunkSizeFor raw.length segmentCount ≤ fuel) :
    ∃ out, splitLoop host envelope raw fuel segmentCount = some (.ok out) ∧
      (out = [] ∨ ∃ parts, IsSplit host envelope raw parts out ∧
        (chunkSizeFor raw.length segmentCount < raw.length → 2 ≤ parts.length)) := by
  induction fuel generalizing segmentCount with
  | zero => exact absurd hfuel (not_le.mpr (chunkSizeFor_pos _ _))
  | succ fuel ih =>
    have hpos := chunkSizeFor_pos raw.length segmentCount
    have hnil : raw.length = 0 → chunkSizeFor raw.length segmentCount = 1 := by
      intro hzero
      rw [hzero]
      simp [chunkSizeFor]
    simp only [splitLoop]
    generalize chunkSizeFor raw.length segmentCount = chunkSize at hfuel hpos hnil ⊢
    by_cases hfits : ((chunks chunkSize raw).zipIdx.all fun (chunk, segmentId) =>
        chunkFits host envelope segmentId (raw.length ⌈/⌉ chunkSize) raw.length chunk) = true
    · rw [if_pos hfits]
      by_cases hraw : raw = []
      · subst hraw
        exact ⟨[], rfl, .inl rfl⟩
      · obtain ⟨out, hout, hspl⟩ := isSplit_of_fits hpos hraw hfits
        rw [hout]
        refine ⟨out, rfl, .inr ⟨_, hspl, fun hlt => ?_⟩⟩
        rw [length_chunks hpos]
        exact two_le_ceilDiv hpos hlt
    · rw [if_neg hfits]
      by_cases hone : chunkSize = 1
      · rw [if_pos hone]
        exact ⟨[], rfl, .inl rfl⟩
      · rw [if_neg hone]
        have hnext := @nextChunkSize_lt raw.length chunkSize (by omega) (by omega)
        obtain ⟨out, hout, hres⟩ :=
          ih (nextSegmentCount raw.length (raw.length ⌈/⌉ chunkSize) chunkSize) (by omega)
        refine ⟨out, hout, hres.imp_right ?_⟩
        rintro ⟨parts, hspl, htwo⟩
        exact ⟨parts, hspl, fun hlt => htwo (by omega)⟩

theorem split_spec (host : SplitHost M N) (envelope : ServerEnvelope M) :
    ∃ out, splitServerEnvelopeForTransport host envelope = some (.ok out) ∧
      (out = [envelope] ∨ out = [] ∨ ∃ message parts, envelope.event = .serverMessage message ∧
        (host.toVec message).length ≤ remoteControlReassembledMaxBytes ∧
        IsSplit host envelope (host.toVec message) parts out ∧
        (2 ≤ (host.toVec message).length → 2 ≤ parts.length)) := by
  rw [splitServerEnvelopeForTransport]
  cases hev : envelope.event with
  | serverMessage message =>
    by_cases hsmall : host.serializedLen envelope ≤ remoteControlSegmentMaxBytes
    · simp only [if_pos hsmall]
      exact ⟨_, rfl, .inl rfl⟩
    simp only [if_neg hsmall]
    by_cases hlarge : remoteControlReassembledMaxBytes < (host.toVec message).length
    · simp only [if_pos hlarge]
      exact ⟨_, rfl, .inr (.inl rfl)⟩
    simp only [if_neg hlarge]
    have hminimal := @buildChunkEnvelope_of_le M N host envelope
      (min (max (host.toVec message).length 1) remoteControlSegmentCountMax) (min_le_right _ _)
      (host.toVec message).length ((host.toVec message).take 1, 0)
    simp only [serializedChunkLen, hminimal]
    by_cases hfit : remoteControlSegmentMaxBytes < host.serializedLen (chunkEnvelope host envelope
        (min (max (host.toVec message).length 1) remoteControlSegmentCountMax) (host.toVec message).length
        ((host.toVec message).take 1, 0))
    · refine ⟨[], ?_, .inr (.inl rfl)⟩
      exact if_pos hfit
    · have hfuel : chunkSizeFor (host.toVec message).length
          (max 2 ((host.toVec message).length ⌈/⌉ remoteControlSegmentTargetBytes)) ≤
            (host.toVec message).length + 1 := by
        apply chunkSizeFor_le (by omega) (by omega)
        calc (host.toVec message).length ≤ 2 * ((host.toVec message).length + 1) := by omega
          _ ≤ _ := Nat.mul_le_mul_right _ (le_max_left _ _)
      obtain ⟨out, hout, hres⟩ := @splitLoop_spec M N host envelope (host.toVec message)
        ((host.toVec message).length + 1)
          (max 2 ((host.toVec message).length ⌈/⌉ remoteControlSegmentTargetBytes)) hfuel
      refine ⟨out, (if_neg hfit).trans hout, ?_⟩
      rcases hres with rfl | ⟨parts, hspl, htwo⟩
      · exact .inr (.inl rfl)
      refine .inr (.inr ⟨message, parts, rfl, not_lt.mp hlarge, hspl, fun hsz => htwo ?_⟩)
      -- two segments at least, so the first chunk size is below the message's
      have hfst : chunkSizeFor (host.toVec message).length
          (max 2 ((host.toVec message).length ⌈/⌉ remoteControlSegmentTargetBytes)) ≤
            (host.toVec message).length - 1 := by
        apply chunkSizeFor_le (by omega) (by omega)
        calc (host.toVec message).length ≤ 2 * ((host.toVec message).length - 1) := by omega
          _ ≤ _ := Nat.mul_le_mul_right _ (le_max_left _ _)
      omega
  | _ => exact ⟨_, rfl, .inl rfl⟩

end

/-! ## A client that reads it -/

/-- Decoding inverts encoding, JSON is read back as it was written, and a message, a JSON object, has
its two braces. -/
structure RoundTrips {M N : Type} (host : SplitHost M N) (client : SegmentHost N) : Prop where
  exact : ExactBase64 client
  decode_encode : ∀ bytes, client.decode (host.encode bytes) = some bytes
  fromSlice_toVec : ∀ message, client.fromSlice (host.toVec message) = some (host.received message)
  two_le_length_toVec : ∀ message, 2 ≤ (host.toVec message).length

section
variable {M N : Type} {host : SplitHost M N} {client : SegmentHost N} {out : List (ServerEnvelope M)}
  {envelope : ServerEnvelope M} {parts : List Bytes} {message : M}

theorem RoundTrips.encode_ne_nil (h : RoundTrips host client) {bytes : Bytes} (hne : bytes ≠ []) :
    host.encode bytes ≠ [] := by
  intro hnil
  have hdec := h.decode_encode bytes
  rw [hnil, client.decode_nil] at hdec
  exact hne (Option.some.inj hdec).symm

def clientChunk (host : SplitHost M N) (clientId : ClientId) (streamId : StreamId) (metadata : ClientSegmentMetadata)
    (cursor : Nat → Option Text) (chunk : Bytes × Nat) : ClientEnvelope N :=
  ⟨.clientMessageChunk chunk.2 metadata.segmentCount metadata.messageSizeBytes (host.encode chunk.1),
    clientId, some streamId, some metadata.seqId, cursor chunk.2⟩

def transferOf (host : SplitHost M N) (clientId : ClientId) (streamId : StreamId) (metadata : ClientSegmentMetadata)
    (cursor : Nat → Option Text) (now : Nat → Nat) (parts : List Bytes) (message : N) : Transfer N where
  clientId
  streamId
  metadata
  chunk i := clientChunk host clientId streamId metadata cursor (parts.getD i [], i)
  now
  between _ := []
  payload i := host.encode (parts.getD i [])
  part i := parts.getD i []
  message

theorem zipIdx_eq_map_range {α : Type} (xs : List α) (d : α) :
    xs.zipIdx = (List.range' 0 xs.length).map fun i => (xs.getD i d, i) := by
  apply ext_getElem
  · simp
  · intro i hi _
    simp only [length_zipIdx] at hi
    simp [hi]

theorem flatMap_range_getD (parts : List Bytes) :
    (List.range parts.length).flatMap (fun i => parts.getD i []) = parts.flatten := by
  have hps : (List.range parts.length).map (fun i => parts.getD i []) = parts := by
    apply ext_getElem
    · simp
    · intro i hi _
      simp only [length_map, length_range] at hi
      simp [hi]
  rw [flatMap_def, hps]

variable (h : RoundTrips host client) (hsz : (host.toVec message).length ≤ remoteControlReassembledMaxBytes)
  (hspl : IsSplit host envelope (host.toVec message) parts out) (htwo : 2 ≤ parts.length) (clientId : ClientId)
  (streamId : StreamId) (seqId : Nat) (cursor : Nat → Option Text) (now : Nat → Nat)
include h hsz hspl htwo

theorem wellFormed_transferOf :
    (transferOf host clientId streamId ⟨seqId, parts.length, (host.toVec message).length⟩ cursor now parts
      (host.received message)).WellFormed client where
  count_pos := Nat.lt_of_lt_of_le Nat.two_pos htwo
  count_le := hspl.length_le
  size_pos := Nat.lt_of_lt_of_le Nat.two_pos (h.two_le_length_toVec message)
  size_le := hsz
  chunk _ _ := ⟨rfl, rfl, rfl, rfl⟩
  payload_ne i hi := by
    have hi : i < parts.length := hi
    show host.encode (parts.getD i []) ≠ []
    rw [getD_eq_getElem _ _ hi]
    exact h.encode_ne_nil (hspl.ne_nil _ (getElem_mem hi))
  decode i _ := h.decode_encode _
  length_raw := by
    show ((List.range parts.length).flatMap fun i => parts.getD i []).length = (host.toVec message).length
    rw [flatMap_range_getD, hspl.flatten]
  fromSlice := by
    show client.fromSlice ((List.range parts.length).flatMap fun i => parts.getD i []) = _
    rw [flatMap_range_getD, hspl.flatten]
    exact h.fromSlice_toVec message

theorem observations_of_isSplit :
    (Run.mapAccum (fun (chunk : Bytes × Nat) (r : ClientSegmentReassembler) => r.observe client
        (clientChunk host clientId streamId ⟨seqId, parts.length, (host.toVec message).length⟩ cursor chunk)
        (now chunk.2))
      parts.zipIdx {}).1 =
      List.replicate (parts.length - 1) .pending ++
        [.forward ⟨.clientMessage (host.received message), clientId, some streamId, some seqId,
          cursor (parts.length - 1)⟩] := by
  have hwf := wellFormed_transferOf h hsz hspl htwo clientId streamId seqId cursor now
  have hrdy : Transfer.Ready (transferOf host clientId streamId ⟨seqId, parts.length, (host.toVec message).length⟩
      cursor now parts (host.received message)) {} 0 := by
    rw [Transfer.Ready, if_pos rfl]
    intro assembly hlk
    cases hlk
  have hcnt : 0 + (parts.length - 1) + 1 = parts.length := by omega
  have hobs := hrdy.observations h.exact hwf (parts.length - 1) hcnt
  rw [zipIdx_eq_map_range parts [], Run.mapAccum_map]
  rw [show parts.length - 1 + 1 = parts.length by omega, Nat.zero_add] at hobs
  exact hobs

end

/-- The search ends with the envelope itself, with nothing, or with chunks that are small enough, that
make up the message, and that a fresh reassembler takes for it. -/
theorem split_accepted {M N : Type} (host : SplitHost M N) (client : SegmentHost N) (h : RoundTrips host client)
    (envelope : ServerEnvelope M) :
    ∃ out, splitServerEnvelopeForTransport host envelope = some (.ok out) ∧
      (out = [envelope] ∨ out = [] ∨ ∃ message, ∃ parts : List Bytes, envelope.event = .serverMessage message ∧
        2 ≤ parts.length ∧ parts.length ≤ remoteControlSegmentCountMax ∧
        out = parts.zipIdx.map (chunkEnvelope host envelope parts.length (host.toVec message).length) ∧
        (∀ chunk ∈ out, host.serializedLen chunk ≤ remoteControlSegmentMaxBytes) ∧
        (∀ part ∈ parts, client.decode (host.encode part) = some part) ∧ parts.flatten = host.toVec message ∧
        ∀ clientId streamId seqId (cursor : Nat → Option Text) (now : Nat → Nat),
          (Run.mapAccum (fun (chunk : Bytes × Nat) (r : ClientSegmentReassembler) => r.observe client
              (clientChunk host clientId streamId ⟨seqId, parts.length, (host.toVec message).length⟩ cursor chunk)
              (now chunk.2)) parts.zipIdx {}).1 =
            List.replicate (parts.length - 1) .pending ++
              [.forward ⟨.clientMessage (host.received message), clientId, some streamId, some seqId,
                cursor (parts.length - 1)⟩]) := by
  obtain ⟨out, hout, hresult⟩ := split_spec host envelope
  refine ⟨out, hout, ?_⟩
  rcases hresult with hself | hempty | ⟨message, parts, hevent, hsize, hsplit, htwo⟩
  · exact .inl hself
  · exact .inr (.inl hempty)
  · have htwo := htwo (h.two_le_length_toVec message)
    refine .inr (.inr ⟨message, parts, hevent, htwo, hsplit.length_le, hsplit.out_eq, hsplit.small,
      fun part _ => h.decode_encode part, hsplit.flatten, ?_⟩)
    intro clientId streamId seqId cursor now
    exact observations_of_isSplit h hsize hsplit htwo clientId streamId seqId cursor now

/-- The JSON lengths of envelopes whose client and stream ids take `idBytes` bytes. -/
def replySplitHost (idBytes : Nat) : SplitHost Nat Nat where
  encode := Base64.encode
  toVec := errorReply
  serializedLen envelope :=
    let digits (n : Nat) : Nat := (Nat.toDigits 10 n).length
    let event :=
      match envelope.event with
      | .serverMessage n => (ascii "\"type\":\"server_message\",\"message\":").length + (errorReply n).length
      | .serverMessageChunk segmentId segmentCount messageSizeBytes payload =>
        (ascii "\"type\":\"server_message_chunk\",\"segment_id\":").length + digits segmentId +
          (ascii ",\"segment_count\":").length + digits segmentCount +
          (ascii ",\"message_size_bytes\":").length + digits messageSizeBytes +
          (ascii ",\"message_chunk_base64\":\"\"").length + payload.length
      | .ack => (ascii "\"type\":\"ack\"").length
      | .pong .active => (ascii "\"type\":\"pong\",\"status\":\"active\"").length
      | .pong .unknown => (ascii "\"type\":\"pong\",\"status\":\"unknown\"").length
    event + (ascii "\x7b,\"client_id\":\"\",\"stream_id\":\"\",\"seq_id\":\x7d").length
      + idBytes + digits envelope.seqId
  received := id

theorem roundTrips_replySplitHost (idBytes : Nat) : RoundTrips (replySplitHost idBytes) replyHost where
  exact := exactBase64_base64Host _
  decode_encode := Base64.decode_encode
  fromSlice_toVec := readErrorReply_errorReply
  two_le_length_toVec message := by
    show 2 ≤ (errorReply message).length
    rw [length_errorReply]
    omega

/-- An error of 200 letters to a client whose id takes up most of an envelope. -/
def longReply : ServerEnvelope Nat := ⟨.serverMessage 200, replicate 153299 'c', ['s'], 7⟩

theorem split_accepted_longReply : ∃ parts : List Bytes, parts.length = 3 ∧ parts.flatten = errorReply 200 ∧
    splitServerEnvelopeForTransport (replySplitHost 153300) longReply =
      some (.ok (parts.zipIdx.map (chunkEnvelope (replySplitHost 153300) longReply 3 241))) ∧
    (Run.mapAccum (fun (chunk : Bytes × Nat) (r : ClientSegmentReassembler) => r.observe replyHost
        (clientChunk (replySplitHost 153300) ['c'] ['s'] ⟨7, 3, 241⟩ (fun _ => none) chunk) 0) parts.zipIdx {}).1 =
      [.pending, .pending, .forward ⟨.clientMessage 200, ['c'], some ['s'], some 7, none⟩] := by
  have hthree : (splitServerEnvelopeForTransport (replySplitHost 153300) longReply).map
      (fun result => result.toOption.map length) = some (some 3) := by decide +kernel
  obtain ⟨out, hout, hself | hnil | ⟨message, parts, hevent, -, -, hparts, -, -, hflat, hobs⟩⟩ :=
    split_accepted (replySplitHost 153300) replyHost (roundTrips_replySplitHost _) longReply
  · simp [hout, hself, Except.toOption] at hthree
  · simp [hout, hnil, Except.toOption] at hthree
  · cases hevent
    have hraw : ((replySplitHost 153300).toVec 200).length = 241 := length_errorReply 200
    have hlen : parts.length = 3 := by simpa [hout, hparts, Except.toOption] using hthree
    have hobs := hobs ['c'] ['s'] 7 (fun _ => none) (fun _ => 0)
    rw [hlen, hraw] at hparts hobs
    exact ⟨parts, hlen, hflat, by rw [hout, hparts], hobs⟩

end RemoteControl
