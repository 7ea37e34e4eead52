import Codez.Lib.Base64
import Codez.Lib.Run
import Codez.Lib.Table
import Codez.RemoteControl.Protocol

/-!
Segmented client messages (`remote_control/segment.rs`, `ClientSegmentReassembler`).

A client has at most one assembly; chunks must come in order, and whatever does not fit drops the
assembly.
-/

namespace RemoteControl

def remoteControlSegmentMaxBytes : Nat := 150 * 1024

def remoteControlReassembledMaxBytes : Nat := 100 * 1024 * 1024

def remoteControlSegmentCountMax : Nat := 1024

def remoteControlSegmentAssemblyMaxCount : Nat := 128

structure ClientSegmentMetadata where
  seqId : Nat
  segmentCount : Nat
  messageSizeBytes : Nat
deriving DecidableEq

structure ClientSegmentAssembly where
  streamId : StreamId
  metadata : ClientSegmentMetadata
  raw : Bytes
  nextSegmentId : Nat
  lastChunkSeenAt : Nat

abbrev Assemblies := AList (fun _ : ClientId => ClientSegmentAssembly)

/-- `decodeSlice s room` is `decode_slice` into `room` bytes: it writes the decoded bytes or fails.
`oldest` is `min_by_key` over the map, whose order is not known: some client whose last chunk was seen
the longest time ago. -/
structure SegmentHost (M : Type) where
  decode : Text → Option Bytes
  decodeSlice : Text → Nat → Option Bytes
  decodedLenEstimate : Nat → Nat
  fromSlice : Bytes → Option M
  oldest : Assemblies → Option ClientId
  decode_nil : decode [] = some []
  decodeSlice_eq_some : ∀ s room b, decodeSlice s room = some b → decode s = some b ∧ b.length ≤ room
  exists_oldest : ∀ assemblies : Assemblies, assemblies.keys ≠ [] →
    ∃ id assembly, oldest assemblies = some id ∧ assemblies.lookup id = some assembly ∧
      ∀ id' assembly', assemblies.lookup id' = some assembly' →
        assembly.lastChunkSeenAt ≤ assembly'.lastChunkSeenAt

structure ClientSegmentReassembler where
  assemblies : Assemblies := ∅

inductive ClientSegmentObservation (M : Type) where
  | forward (envelope : ClientEnvelope M)
  | pending
  | dropped
deriving DecidableEq

inductive AssemblyUpdate (M : Type) where
  | pending
  | ignore
  | drop
  | complete (message : M)

open Table

namespace ClientSegmentReassembler

def shouldIgnoreChunk (r : ClientSegmentReassembler) (clientId : ClientId)
    (streamId : StreamId) (seqId segmentId : Nat) :
    Bool :=
  match r.assemblies.lookup clientId with
  | none => false
  | some assembly =>
    decide (assembly.streamId = streamId) &&
      (decide (seqId < assembly.metadata.seqId) ||
        (decide (seqId = assembly.metadata.seqId) && decide (segmentId < assembly.nextSegmentId)))

def removeAssembly (r : ClientSegmentReassembler) (clientId : ClientId) (streamId : StreamId) :
    ClientSegmentReassembler :=
  if ((r.assemblies.lookup clientId).map (·.streamId)) = some streamId then
    { r with assemblies := r.assemblies.erase clientId }
  else r

def invalidateStream (r : ClientSegmentReassembler) (clientId : ClientId) (streamId : StreamId) :
    ClientSegmentReassembler :=
  r.removeAssembly clientId streamId

def invalidateClient (r : ClientSegmentReassembler) (clientId : ClientId) : ClientSegmentReassembler :=
  { r with assemblies := r.assemblies.erase clientId }

section
variable {M : Type} (host : SegmentHost M)

def evictAssembliesIfFull : Nat → Assemblies → Assemblies
  | 0, assemblies => assemblies
  | fuel + 1, assemblies =>
    if remoteControlSegmentAssemblyMaxCount ≤ assemblies.keys.length then
      match host.oldest assemblies with
      | some clientId => evictAssembliesIfFull fuel (assemblies.erase clientId)
      | none => assemblies
    else assemblies

def newAssembly (streamId : StreamId) (metadata : ClientSegmentMetadata) (now : Nat) : ClientSegmentAssembly :=
  ⟨streamId, metadata, [], 0, now⟩

def openAssembly (assemblies : Assemblies) (clientId : ClientId) (streamId : StreamId)
    (metadata : ClientSegmentMetadata) (now : Nat) : Assemblies :=
  match assemblies.lookup clientId with
  | some assembly =>
    if assembly.streamId ≠ streamId then assemblies.insert clientId (newAssembly streamId metadata now)
    else assemblies
  | none =>
    (evictAssembliesIfFull host assemblies.keys.length assemblies).insert clientId (newAssembly streamId metadata now)

def appendChunk (assembly : ClientSegmentAssembly) (chunk : Bytes) (now : Nat) : ClientSegmentAssembly :=
  { assembly with
    raw := assembly.raw ++ chunk
    nextSegmentId := assembly.nextSegmentId + 1
    lastChunkSeenAt := now }

def finishChunk (assembly : ClientSegmentAssembly) (metadata : ClientSegmentMetadata) : AssemblyUpdate M :=
  if assembly.nextSegmentId < metadata.segmentCount then .pending
  else if assembly.raw.length ≠ metadata.messageSizeBytes then .drop
  else
    match host.fromSlice assembly.raw with
    | some message => .complete message
    | none => .drop

def chunkRoom (assembly : ClientSegmentAssembly) (metadata : ClientSegmentMetadata) (messageChunkBase64 : Text) : Nat :=
  let chunkStart := assembly.raw.length
  let chunkEnd := min metadata.messageSizeBytes (chunkStart + host.decodedLenEstimate (Text.byteLen messageChunkBase64))
  chunkEnd - chunkStart

/-- A chunk that does not decode drops the assembly, so its half-written buffer is never read. -/
def updateAssembly (assembly : ClientSegmentAssembly) (metadata : ClientSegmentMetadata) (segmentId : Nat)
    (messageChunkBase64 : Text) (now : Nat) : AssemblyUpdate M × ClientSegmentAssembly :=
  if metadata.seqId < assembly.metadata.seqId then (.ignore, assembly)
  else if assembly.metadata ≠ metadata then (.drop, assembly)
  else if segmentId < assembly.nextSegmentId then (.pending, assembly)
  else if segmentId ≠ assembly.nextSegmentId then (.drop, assembly)
  else
    match host.decodeSlice messageChunkBase64 (chunkRoom host assembly metadata messageChunkBase64) with
    | none => (.drop, assembly)
    | some chunk =>
      let assembly := appendChunk assembly chunk now
      (finishChunk host assembly metadata, assembly)

def invalidChunk (segmentId segmentCount messageSizeBytes : Nat) (messageChunkBase64 : Text) : Bool :=
  decide (segmentCount = 0) || decide (remoteControlSegmentCountMax < segmentCount) ||
    decide (segmentCount ≤ segmentId) || decide (messageSizeBytes = 0) ||
    decide (remoteControlReassembledMaxBytes < messageSizeBytes) || messageChunkBase64.isEmpty

def applyUpdate (r : ClientSegmentReassembler) (envelope : ClientEnvelope M) (streamId : StreamId) :
    AssemblyUpdate M → ClientSegmentObservation M × ClientSegmentReassembler
  | .pending => (.pending, r)
  | .ignore => (.dropped, r)
  | .drop => (.dropped, r.removeAssembly envelope.clientId streamId)
  | .complete message =>
    (.forward { envelope with event := .clientMessage message }, r.removeAssembly envelope.clientId streamId)

def observeChunk (r : ClientSegmentReassembler) (envelope : ClientEnvelope M) (streamId : StreamId)
    (metadata : ClientSegmentMetadata) (segmentId : Nat) (messageChunkBase64 : Text) (now : Nat) :
    ClientSegmentObservation M × ClientSegmentReassembler :=
  if r.shouldIgnoreChunk envelope.clientId streamId metadata.seqId segmentId then (.dropped, r)
  else if invalidChunk segmentId metadata.segmentCount metadata.messageSizeBytes messageChunkBase64 then
    (.dropped, r.removeAssembly envelope.clientId streamId)
  else
    let opened := openAssembly host r.assemblies envelope.clientId streamId metadata now
    match opened.lookup envelope.clientId with
    | none => (.dropped, ⟨opened⟩)
    | some assembly =>
      let (update, assembly) := updateAssembly host assembly metadata segmentId messageChunkBase64 now
      applyUpdate ⟨opened.insert envelope.clientId assembly⟩ envelope streamId update

def observe (r : ClientSegmentReassembler) (envelope : ClientEnvelope M) (now : Nat) :
    ClientSegmentObservation M × ClientSegmentReassembler :=
  match envelope.event with
  | .clientMessageChunk segmentId segmentCount messageSizeBytes messageChunkBase64 =>
    match envelope.seqId, envelope.streamId with
    | some seqId, some streamId =>
      r.observeChunk host envelope streamId ⟨seqId, segmentCount, messageSizeBytes⟩ segmentId messageChunkBase64 now
    | _, _ => (.dropped, r)
  | _ => (.forward envelope, r)

/-! ## What the functions do -/

variable {host} (fuel : Nat) (assemblies : Assemblies) {assembly : ClientSegmentAssembly} {clientId other : ClientId}
  (r : ClientSegmentReassembler) (envelope : ClientEnvelope M)

theorem evictAssembliesIfFull_sub (h : (evictAssembliesIfFull host fuel assemblies).lookup clientId = some assembly) :
    assemblies.lookup clientId = some assembly := by
  induction fuel generalizing assemblies with
  | zero => exact h
  | succ fuel ih =>
    rw [evictAssembliesIfFull] at h
    by_cases hfull : remoteControlSegmentAssemblyMaxCount ≤ assemblies.keys.length
    · rw [if_pos hfull] at h
      cases hold : host.oldest assemblies with
      | none => rwa [hold] at h
      | some victim =>
        rw [hold] at h
        exact (lookup_erase_eq_some _ (ih _ h)).2
    · rwa [if_neg hfull] at h

theorem length_evictAssembliesIfFull_lt (hfuel : assemblies.keys.length ≤ fuel) :
    (evictAssembliesIfFull host fuel assemblies).keys.length < remoteControlSegmentAssemblyMaxCount := by
  have hmax : 0 < remoteControlSegmentAssemblyMaxCount := by decide
  induction fuel generalizing assemblies with
  | zero =>
    show assemblies.keys.length < _
    omega
  | succ fuel ih =>
    rw [evictAssembliesIfFull]
    by_cases hfull : remoteControlSegmentAssemblyMaxCount ≤ assemblies.keys.length
    · have hne : assemblies.keys ≠ [] := by
        intro hnil
        rw [hnil, List.length_nil] at hfull
        omega
      obtain ⟨victim, assembly, hold, hlk, -⟩ := host.exists_oldest assemblies hne
      have hlen := length_keys_erase_of_mem assemblies ((mem_iff_lookup _).mpr ⟨assembly, hlk⟩)
      rw [if_pos hfull, hold]
      apply ih
      omega
    · rw [if_neg hfull]
      omega

theorem openAssembly_spec (clientId : ClientId) (s : StreamId) (m : ClientSegmentMetadata) (now : Nat) :
    (∃ assembly, (openAssembly host assemblies clientId s m now).lookup clientId = some assembly ∧
      assembly.streamId = s ∧
      (assemblies.lookup clientId = some assembly ∨ assembly = newAssembly s m now)) ∧
    ∀ other assembly, other ≠ clientId →
      (openAssembly host assemblies clientId s m now).lookup other = some assembly →
      assemblies.lookup other = some assembly := by
  rw [openAssembly]
  cases hlk : assemblies.lookup clientId with
  | none =>
    refine ⟨⟨_, AList.lookup_insert _, rfl, .inr rfl⟩, ?_⟩
    intro other assembly hne h
    rw [lookup_insert, if_neg hne] at h
    exact evictAssembliesIfFull_sub _ _ h
  | some assembly =>
    by_cases hstr : assembly.streamId ≠ s
    · simp only [if_pos hstr]
      refine ⟨⟨_, AList.lookup_insert _, rfl, .inr rfl⟩, ?_⟩
      intro other assembly hne h
      rwa [lookup_insert, if_neg hne] at h
    · simp only [if_neg hstr]
      exact ⟨⟨assembly, hlk, not_not.mp hstr, .inl rfl⟩, fun _ _ _ h => h⟩

def NeedsRoom (assemblies : Assemblies) (clientId : ClientId) : Prop :=
  assemblies.lookup clientId = none ∧ remoteControlSegmentAssemblyMaxCount ≤ assemblies.keys.length

theorem evictAssembliesIfFull_of_room {assemblies : Assemblies}
    (h : assemblies.keys.length < remoteControlSegmentAssemblyMaxCount) :
    evictAssembliesIfFull host fuel assemblies = assemblies := by
  cases fuel with
  | zero => rfl
  | succ fuel => rw [evictAssembliesIfFull, if_neg (not_le.mpr h)]

theorem lookup_openAssembly_of_ne {assemblies : Assemblies} (s : StreamId) (m : ClientSegmentMetadata)
    (now : Nat) (hne : other ≠ clientId) (h : ¬NeedsRoom assemblies clientId) :
    (openAssembly host assemblies clientId s m now).lookup other = assemblies.lookup other := by
  rw [openAssembly]
  cases hl : assemblies.lookup clientId with
  | none =>
    have hroom : assemblies.keys.length < remoteControlSegmentAssemblyMaxCount :=
      not_le.mp fun hfull => h ⟨hl, hfull⟩
    simp only [evictAssembliesIfFull_of_room _ hroom]
    rw [lookup_insert, if_neg hne]
  | some assembly =>
    by_cases hstr : assembly.streamId ≠ s
    · simp only [if_pos hstr]
      rw [lookup_insert, if_neg hne]
    · simp only [if_neg hstr]

theorem length_openAssembly_le (clientId : ClientId) (s : StreamId) (m : ClientSegmentMetadata)
    (now : Nat) (h : assemblies.keys.length ≤ remoteControlSegmentAssemblyMaxCount) :
    (openAssembly host assemblies clientId s m now).keys.length ≤
      remoteControlSegmentAssemblyMaxCount := by
  rw [openAssembly]
  cases hl : assemblies.lookup clientId with
  | none =>
    have hroom := @length_evictAssembliesIfFull_lt M host assemblies.keys.length assemblies le_rfl
    exact (length_keys_insert_le _ _ _).trans hroom
  | some assembly =>
    by_cases hstr : assembly.streamId ≠ s
    · simp only [if_pos hstr]
      rw [length_keys_insert_of_mem _ _ ((mem_iff_lookup _).mpr ⟨assembly, hl⟩)]
      exact h
    · simp only [if_neg hstr]
      exact h

theorem finishChunk_eq_complete {md : ClientSegmentMetadata} {message : M}
    (h : finishChunk host assembly md = .complete message) :
    md.segmentCount ≤ assembly.nextSegmentId ∧ assembly.raw.length = md.messageSizeBytes ∧
      host.fromSlice assembly.raw = some message := by
  rw [finishChunk] at h
  by_cases hcnt : assembly.nextSegmentId < md.segmentCount
  · rw [if_pos hcnt] at h
    cases h
  · by_cases hsz : assembly.raw.length ≠ md.messageSizeBytes
    · rw [if_neg hcnt, if_pos hsz] at h
      cases h
    · rw [if_neg hcnt, if_neg hsz] at h
      cases hjson : host.fromSlice assembly.raw with
      | none => rw [hjson] at h; cases h
      | some m =>
        rw [hjson] at h
        cases h
        exact ⟨not_lt.mp hcnt, not_not.mp hsz, rfl⟩

/-- A chunk leaves an assembly alone, completing nothing, or is appended to it. -/
inductive Updated (host : SegmentHost M) (assembly : ClientSegmentAssembly) (metadata : ClientSegmentMetadata)
    (segmentId : Nat) (messageChunkBase64 : Text) (now : Nat) : AssemblyUpdate M → ClientSegmentAssembly → Prop
  | unchanged (update : AssemblyUpdate M) (h : ∀ message, update ≠ .complete message) :
    Updated host assembly metadata segmentId messageChunkBase64 now update assembly
  | appended (chunk : Bytes) (hmetadata : assembly.metadata = metadata) (hnext : segmentId = assembly.nextSegmentId)
    (hdecode : host.decode messageChunkBase64 = some chunk)
    (hroom : chunk.length ≤ metadata.messageSizeBytes - assembly.raw.length) :
    Updated host assembly metadata segmentId messageChunkBase64 now
      (finishChunk host (appendChunk assembly chunk now) metadata) (appendChunk assembly chunk now)

theorem updateAssembly_updated (assembly : ClientSegmentAssembly) (m : ClientSegmentMetadata) (segmentId : Nat)
    (b : Text) (now : Nat) :
    Updated host assembly m segmentId b now
      (updateAssembly host assembly m segmentId b now).1
      (updateAssembly host assembly m segmentId b now).2 := by
  rw [updateAssembly]
  by_cases hstale : m.seqId < assembly.metadata.seqId
  · rw [if_pos hstale]
    exact .unchanged _ (by intro _ h; cases h)
  rw [if_neg hstale]
  by_cases hmeta : assembly.metadata ≠ m
  · rw [if_pos hmeta]
    exact .unchanged _ (by intro _ h; cases h)
  rw [if_neg hmeta]
  by_cases hold : segmentId < assembly.nextSegmentId
  · rw [if_pos hold]
    exact .unchanged _ (by intro _ h; cases h)
  rw [if_neg hold]
  by_cases hnext : segmentId ≠ assembly.nextSegmentId
  · rw [if_pos hnext]
    exact .unchanged _ (by intro _ h; cases h)
  rw [if_neg hnext]
  cases hslice : host.decodeSlice b (chunkRoom host assembly m b) with
  | none => exact .unchanged _ (by intro _ h; cases h)
  | some chunk =>
    obtain ⟨hdec, hlen⟩ := host.decodeSlice_eq_some _ _ _ hslice
    have hroom : chunkRoom host assembly m b ≤ m.messageSizeBytes - assembly.raw.length :=
      Nat.sub_le_sub_right (min_le_left _ _) _
    exact .appended chunk (not_not.mp hmeta) (not_not.mp hnext) hdec (hlen.trans hroom)

theorem updateAssembly_next {b : Text} {chunk : Bytes} (now : Nat)
    (h : host.decodeSlice b (chunkRoom host assembly assembly.metadata b) = some chunk) :
    updateAssembly host assembly assembly.metadata assembly.nextSegmentId b now =
      (finishChunk host (appendChunk assembly chunk now) assembly.metadata, appendChunk assembly chunk now) := by
  simp [updateAssembly, h]

theorem invalidChunk_eq_false_iff {segmentId n messageSizeBytes : Nat} {b : Text} :
    invalidChunk segmentId n messageSizeBytes b = false ↔
      segmentId < n ∧ n ≤ remoteControlSegmentCountMax ∧ 0 < messageSizeBytes ∧
        messageSizeBytes ≤ remoteControlReassembledMaxBytes ∧ b ≠ [] := by
  simp only [invalidChunk, Bool.or_eq_false_iff, decide_eq_false_iff_not, List.isEmpty_eq_false_iff]
  constructor
  · rintro ⟨⟨⟨⟨⟨-, hcnt⟩, hid⟩, hzero⟩, hsz⟩, hnil⟩
    exact ⟨by omega, by omega, by omega, by omega, hnil⟩
  · rintro ⟨hid, hcnt, hzero, hsz, hnil⟩
    exact ⟨⟨⟨⟨⟨by omega, by omega⟩, by omega⟩, by omega⟩, by omega⟩, hnil⟩

inductive Observed (host : SegmentHost M) (r : ClientSegmentReassembler) (envelope : ClientEnvelope M)
    (streamId : StreamId) (metadata : ClientSegmentMetadata) (segmentId : Nat) (messageChunkBase64 : Text) (now : Nat) :
    ClientSegmentObservation M × ClientSegmentReassembler → Prop
  | ignored (h : r.shouldIgnoreChunk envelope.clientId streamId metadata.seqId segmentId = true) :
    Observed host r envelope streamId metadata segmentId messageChunkBase64 now (.dropped, r)
  | refused (h : invalidChunk segmentId metadata.segmentCount metadata.messageSizeBytes messageChunkBase64 = true) :
    Observed host r envelope streamId metadata segmentId messageChunkBase64 now
      (.dropped, r.removeAssembly envelope.clientId streamId)
  | updated (assembly assembly' : ClientSegmentAssembly) (update : AssemblyUpdate M)
    (hvalid : invalidChunk segmentId metadata.segmentCount metadata.messageSizeBytes messageChunkBase64 = false)
    (hlookup : (openAssembly host r.assemblies envelope.clientId streamId metadata now).lookup envelope.clientId =
      some assembly)
    (hstream : assembly.streamId = streamId)
    (horigin : r.assemblies.lookup envelope.clientId = some assembly ∨ assembly = newAssembly streamId metadata now)
    (hupdated : Updated host assembly metadata segmentId messageChunkBase64 now update assembly') :
    Observed host r envelope streamId metadata segmentId messageChunkBase64 now
      (applyUpdate ⟨(openAssembly host r.assemblies envelope.clientId streamId metadata now).insert envelope.clientId
        assembly'⟩ envelope streamId update)

theorem observeChunk_observed (s : StreamId) (m : ClientSegmentMetadata) (segmentId : Nat)
    (b : Text) (now : Nat) :
    Observed host r envelope s m segmentId b now
      (r.observeChunk host envelope s m segmentId b now) := by
  rw [observeChunk]
  by_cases hign : r.shouldIgnoreChunk envelope.clientId s m.seqId segmentId = true
  · rw [if_pos hign]
    exact .ignored hign
  rw [if_neg hign]
  by_cases hinvalid : invalidChunk segmentId m.segmentCount m.messageSizeBytes b = true
  · rw [if_pos hinvalid]
    exact .refused hinvalid
  rw [if_neg hinvalid]
  obtain ⟨⟨assembly, hlk, hstr, horigin⟩, -⟩ :=
    @openAssembly_spec M host r.assemblies envelope.clientId s m now
  simp only [hlk]
  exact .updated assembly _ _ (Bool.eq_false_iff.mpr hinvalid) hlk hstr horigin
    (updateAssembly_updated assembly m segmentId b now)

theorem lookup_removeAssembly_of_ne (s : StreamId) (hne : other ≠ clientId) :
    (r.removeAssembly clientId s).assemblies.lookup other = r.assemblies.lookup other := by
  rw [removeAssembly]
  split
  · exact AList.lookup_erase_ne hne
  · rfl

theorem lookup_removeAssembly_self {r : ClientSegmentReassembler} {s : StreamId}
    (h : ∀ assembly, r.assemblies.lookup clientId = some assembly → assembly.streamId = s) :
    (r.removeAssembly clientId s).assemblies.lookup clientId = none := by
  rw [removeAssembly]
  cases hl : r.assemblies.lookup clientId with
  | none => simp [hl]
  | some assembly => simp [h assembly hl]

theorem lookup_applyUpdate_of_ne (s : StreamId) (update : AssemblyUpdate M) (hne : other ≠ envelope.clientId) :
    (applyUpdate r envelope s update).2.assemblies.lookup other = r.assemblies.lookup other := by
  cases update with
  | pending => rfl
  | ignore => rfl
  | drop | complete message => exact lookup_removeAssembly_of_ne r s hne

end

/-! ## A host -/

def oldestEntry (assemblies : Assemblies) : Option ClientId :=
  (assemblies.entries.argmin fun entry => entry.2.lastChunkSeenAt).map (·.1)

theorem exists_oldestEntry (assemblies : Assemblies) (hne : assemblies.keys ≠ []) :
    ∃ id assembly, oldestEntry assemblies = some id ∧ assemblies.lookup id = some assembly ∧
      ∀ id' assembly', assemblies.lookup id' = some assembly' →
        assembly.lastChunkSeenAt ≤ assembly'.lastChunkSeenAt := by
  cases hmin : assemblies.entries.argmin fun entry => entry.2.lastChunkSeenAt with
  | none =>
    rw [List.argmin_eq_none] at hmin
    exact absurd (by rw [AList.keys, hmin]; rfl) hne
  | some entry =>
    refine ⟨entry.1, entry.2, by rw [oldestEntry, hmin]; rfl, ?_, ?_⟩
    · exact AList.mem_lookup_iff.mpr (List.argmin_mem hmin)
    · intro id' assembly' h
      have hmem : (⟨id', assembly'⟩ : Sigma fun _ : ClientId => ClientSegmentAssembly) ∈ assemblies.entries :=
        AList.mem_lookup_iff.mp h
      exact @List.le_of_mem_argmin _ _ _ (fun entry => entry.2.lastChunkSeenAt) _ _ _ hmem hmin

def base64Host {M : Type} (fromSlice : Bytes → Option M) : SegmentHost M where
  decode := Base64.decode
  decodeSlice s room := (Base64.decode s).filter fun b => b.length ≤ room
  decodedLenEstimate encodedLen := (encodedLen + 3) / 4 * 3
  fromSlice
  oldest := oldestEntry
  decode_nil := rfl
  decodeSlice_eq_some := by
    intro s room b h
    rw [Option.filter_eq_some_iff] at h
    exact ⟨h.1, of_decide_eq_true h.2⟩
  exists_oldest := exists_oldestEntry

def ascii (s : String) : Bytes := s.toList.map fun c => c.toNat.toUInt8

/-- The JSON of an error whose message is `n` times the letter `a`. -/
def errorReply (n : Nat) : Bytes :=
  ascii "\x7b\"error\":\x7b\"code\":-1,\"message\":\"" ++ List.replicate n 97 ++ ascii "\"\x7d,\"id\":1\x7d"

def readErrorReply (bytes : Bytes) : Option Nat :=
  if bytes = errorReply (bytes.length - 41) then some (bytes.length - 41) else none

theorem length_errorReply (n : Nat) : (errorReply n).length = n + 41 := by
  have hhead : (ascii "\x7b\"error\":\x7b\"code\":-1,\"message\":\"").length = 31 := by decide +kernel
  have htail : (ascii "\"\x7d,\"id\":1\x7d").length = 10 := by decide +kernel
  rw [errorReply, List.length_append, List.length_append, hhead, htail, List.length_replicate]
  omega

theorem readErrorReply_errorReply (n : Nat) : readErrorReply (errorReply n) = some n := by
  rw [readErrorReply, length_errorReply, Nat.add_sub_cancel, if_pos rfl]

def replyHost : SegmentHost Nat := base64Host readErrorReply

def replyPart (segmentId : Nat) : Bytes := if segmentId = 0 then (errorReply 0).take 20 else (errorReply 0).drop 20

def replyChunk (seqId segmentId : Nat) : ClientEnvelope Nat :=
  ⟨.clientMessageChunk segmentId 2 41 (Base64.encode (replyPart segmentId)), ['c'], some ['s'], some seqId, none⟩

end ClientSegmentReassembler

end RemoteControl
