import Codez.RemoteControl.Segment

/-!
What a run of `ClientSegmentReassembler` forwards.

    run host calls = r → observe host r chunk now = (forward envelope, _) →
      envelope carries the message that the concatenated payloads of chunks 0 .. n-1 decode to
                                                                    (reassembled_faithfully)
-/

namespace RemoteControl

open List

namespace ClientSegmentReassembler

inductive Call (M : Type) where
  | observe (envelope : ClientEnvelope M) (now : Nat)
  | invalidateStream (clientId : ClientId) (streamId : StreamId)
  | invalidateClient (clientId : ClientId)

variable {M : Type} (host : SegmentHost M) {seen' : List (ClientEnvelope M)} {assembly : ClientSegmentAssembly}
  {r : ClientSegmentReassembler} {update : AssemblyUpdate M}

def call (r : ClientSegmentReassembler) : Call M → ClientSegmentReassembler
  | .observe envelope now => (r.observe host envelope now).2
  | .invalidateStream clientId streamId => r.invalidateStream clientId streamId
  | .invalidateClient clientId => r.invalidateClient clientId

def run (calls : List (Call M)) : ClientSegmentReassembler := calls.foldl (call host) {}

def Call.envelope : Call M → Option (ClientEnvelope M)
  | .observe envelope _ => some envelope
  | .invalidateStream _ _ => none
  | .invalidateClient _ => none

def observed (calls : List (Call M)) : List (ClientEnvelope M) := calls.filterMap Call.envelope

def IsChunk (envelope : ClientEnvelope M) (clientId : ClientId) (streamId : StreamId)
    (metadata : ClientSegmentMetadata) (segmentId : Nat) : Prop :=
  envelope.clientId = clientId ∧ envelope.streamId = some streamId ∧ envelope.seqId = some metadata.seqId ∧
    ∃ payload, envelope.event =
      .clientMessageChunk segmentId metadata.segmentCount metadata.messageSizeBytes payload

def decoded (envelope : ClientEnvelope M) : Option Bytes :=
  match envelope.event with
  | .clientMessageChunk _ _ _ payload => host.decode payload
  | _ => none

/-- `raw` is what the first `count` chunks of a message decode to, all of them among `seen`. -/
def Collected (seen : List (ClientEnvelope M)) (clientId : ClientId) (streamId : StreamId)
    (metadata : ClientSegmentMetadata) (count : Nat) (raw : Bytes) : Prop :=
  ∃ chunks : List (ClientEnvelope M), ∃ parts : List Bytes, chunks.Sublist seen ∧ chunks.length = count ∧
    (∀ i envelope, chunks[i]? = some envelope → IsChunk envelope clientId streamId metadata i) ∧
    chunks.map (decoded host) = parts.map some ∧ raw = parts.flatten

variable {host} {seen : List (ClientEnvelope M)} {clientId : ClientId} {streamId : StreamId}
  {metadata : ClientSegmentMetadata} {count : Nat} {raw : Bytes}

theorem Collected.nil : Collected host seen clientId streamId metadata 0 [] :=
  ⟨[], [], nil_sublist _, rfl, by simp, rfl, rfl⟩

theorem Collected.mono (h : Collected host seen clientId streamId metadata count raw) (hsub : seen.Sublist seen') :
    Collected host seen' clientId streamId metadata count raw := by
  obtain ⟨chunks, parts, hchs, hr⟩ := h
  exact ⟨chunks, parts, hchs.trans hsub, hr⟩

theorem Collected.snoc {envelope : ClientEnvelope M} {part : Bytes}
    (h : Collected host seen clientId streamId metadata count raw)
    (hchk : IsChunk envelope clientId streamId metadata count) (hdecoded : decoded host envelope = some part) :
    Collected host (seen ++ [envelope]) clientId streamId metadata (count + 1) (raw ++ part) := by
  obtain ⟨chunks, parts, hsub, hlen, hpieces, hps, rfl⟩ := h
  refine ⟨chunks ++ [envelope], parts ++ [part], hsub.append (List.Sublist.refl _), by simp [hlen], ?_,
    by simp [hps, hdecoded], by simp⟩
  intro i e he
  rcases lt_trichotomy i chunks.length with hi | hi | hi
  · rw [getElem?_append_left hi] at he
    exact hpieces i e he
  · rw [hi, getElem?_concat_length] at he
    cases he
    rwa [hi, hlen]
  · rw [getElem?_eq_none (by simp; omega)] at he
    cases he

structure Sound (host : SegmentHost M) (seen : List (ClientEnvelope M)) (clientId : ClientId)
    (assembly : ClientSegmentAssembly) : Prop where
  collected : Collected host seen clientId assembly.streamId assembly.metadata assembly.nextSegmentId assembly.raw
  length_raw : assembly.raw.length ≤ assembly.metadata.messageSizeBytes
  size_le : assembly.metadata.messageSizeBytes ≤ remoteControlReassembledMaxBytes

structure Good (host : SegmentHost M) (seen : List (ClientEnvelope M)) (r : ClientSegmentReassembler) : Prop where
  count_le : r.assemblies.keys.length ≤ remoteControlSegmentAssemblyMaxCount
  sound : ∀ clientId assembly, r.assemblies.lookup clientId = some assembly → Sound host seen clientId assembly

theorem Sound.mono (h : Sound host seen clientId assembly) (hsub : seen.Sublist seen') :
    Sound host seen' clientId assembly :=
  ⟨h.collected.mono hsub, h.length_raw, h.size_le⟩

theorem Good.mono (h : Good host seen r) (hsub : seen.Sublist seen') : Good host seen' r :=
  ⟨h.count_le, fun c a ha => (h.sound c a ha).mono hsub⟩

theorem Good.invalidateClient (h : Good host seen r) (clientId : ClientId) :
    Good host seen (r.invalidateClient clientId) :=
  ⟨(Table.length_keys_erase_le _ _).trans h.count_le,
    fun c a ha => h.sound c a (Table.lookup_erase_eq_some _ ha).2⟩

theorem Good.removeAssembly (h : Good host seen r) (clientId : ClientId) (streamId : StreamId) :
    Good host seen (r.removeAssembly clientId streamId) := by
  unfold ClientSegmentReassembler.removeAssembly
  split
  · exact h.invalidateClient clientId
  · exact h

theorem Good.openAssembly (h : Good host seen r) (clientId : ClientId) (streamId : StreamId) (now : Nat)
    (hsz : metadata.messageSizeBytes ≤ remoteControlReassembledMaxBytes) :
    Good host seen ⟨openAssembly host r.assemblies clientId streamId metadata now⟩ := by
  obtain ⟨⟨assembly, hlk, -, horigin⟩, hothers⟩ := @openAssembly_spec M host r.assemblies clientId streamId metadata now
  refine ⟨length_openAssembly_le _ _ _ _ _ h.count_le, ?_⟩
  intro c a ha
  by_cases hc : c = clientId
  · subst hc
    obtain rfl : assembly = a := Option.some.inj (hlk.symm.trans ha)
    rcases horigin with hold | rfl
    · exact h.sound c assembly hold
    · exact ⟨Collected.nil, Nat.zero_le _, hsz⟩
  · exact h.sound c a (hothers c a hc ha)

theorem Updated.sound {assembly' : ClientSegmentAssembly} {envelope : ClientEnvelope M} {segmentId now : Nat}
    {payload : Text} (h : Sound host seen envelope.clientId assembly)
    (hstr : envelope.streamId = some assembly.streamId) (hseq : envelope.seqId = some metadata.seqId)
    (hev : envelope.event = .clientMessageChunk segmentId metadata.segmentCount metadata.messageSizeBytes payload)
    (hupd : Updated host assembly metadata segmentId payload now update assembly') :
    Sound host (seen ++ [envelope]) envelope.clientId assembly' := by
  cases hupd with
  | unchanged => exact h.mono (sublist_append_left _ _)
  | appended chunk hmeta hnext hdec hroom =>
    have hchk : IsChunk envelope envelope.clientId assembly.streamId assembly.metadata assembly.nextSegmentId := by
      rw [hmeta, ← hnext]
      exact ⟨rfl, hstr, hseq, payload, hev⟩
    have hdecoded : decoded host envelope = some chunk := by
      rw [decoded, hev]
      exact hdec
    refine ⟨h.collected.snoc hchk hdecoded, ?_, h.size_le⟩
    have hlen := h.length_raw
    rw [← hmeta] at hroom
    show (assembly.raw ++ chunk).length ≤ assembly.metadata.messageSizeBytes
    rw [length_append]
    omega

theorem Good.insert {assembly' : ClientSegmentAssembly} (h : Good host seen r)
    (hold : r.assemblies.lookup clientId = some assembly) (hnew : Sound host seen clientId assembly') :
    Good host seen ⟨r.assemblies.insert clientId assembly'⟩ := by
  constructor
  · show (r.assemblies.insert clientId assembly').keys.length ≤ _
    rw [Table.length_keys_insert_of_mem _ _ ((Table.mem_iff_lookup _).mpr ⟨assembly, hold⟩)]
    exact h.count_le
  · intro c a ha
    rw [Table.lookup_insert] at ha
    by_cases hc : c = clientId
    · rw [if_pos hc] at ha
      cases ha
      rwa [hc]
    · rw [if_neg hc] at ha
      exact h.sound c a ha

theorem Good.applyUpdate (h : Good host seen r) (envelope : ClientEnvelope M) (streamId : StreamId)
    (update : AssemblyUpdate M) : Good host seen (applyUpdate r envelope streamId update).2 := by
  cases update with
  | pending => exact h
  | ignore => exact h
  | drop | complete message => exact h.removeAssembly _ _

theorem applyUpdate_eq_forward {envelope forwarded : ClientEnvelope M}
    (h : (applyUpdate r envelope streamId update).1 = .forward forwarded) :
    ∃ message, update = .complete message ∧ forwarded = { envelope with event := .clientMessage message } := by
  cases update with
  | complete message =>
    cases h
    exact ⟨message, rfl, rfl⟩
  | _ => cases h

/-- The message of a forwarded envelope is what the chunks of `metadata` say. -/
def Reassembled (host : SegmentHost M) (seen : List (ClientEnvelope M)) (streamId : StreamId)
    (metadata : ClientSegmentMetadata) (last forwarded : ClientEnvelope M) : Prop :=
  ∃ message raw, forwarded = { last with event := .clientMessage message } ∧
    Collected host seen last.clientId streamId metadata metadata.segmentCount raw ∧
    raw.length = metadata.messageSizeBytes ∧ host.fromSlice raw = some message

theorem Good.observeChunk {envelope : ClientEnvelope M} {segmentId : Nat} {p : Text} (now : Nat)
    (h : Good host seen r) (hstr : envelope.streamId = some streamId) (hseq : envelope.seqId = some metadata.seqId)
    (hev : envelope.event = .clientMessageChunk segmentId metadata.segmentCount metadata.messageSizeBytes p) :
    Good host (seen ++ [envelope]) (r.observeChunk host envelope streamId metadata segmentId p now).2 ∧
    ∀ forwarded, (r.observeChunk host envelope streamId metadata segmentId p now).1 = .forward forwarded →
      Reassembled host (seen ++ [envelope]) streamId metadata envelope forwarded := by
  have hseen : seen.Sublist (seen ++ [envelope]) := sublist_append_left _ _
  have hobs := @observeChunk_observed M host r envelope streamId metadata segmentId p now
  generalize r.observeChunk host envelope streamId metadata segmentId p now = result at hobs ⊢
  cases hobs with
  | ignored => exact ⟨h.mono hseen, by intro _ hf; cases hf⟩
  | refused => exact ⟨(h.mono hseen).removeAssembly _ _, by intro _ hf; cases hf⟩
  | updated assembly assembly' update hval hl hsame _ hupd =>
    obtain ⟨hid, -, -, hsz, -⟩ := invalidChunk_eq_false_iff.mp hval
    have hopn := h.openAssembly envelope.clientId streamId now hsz
    have hsound : Sound host (seen ++ [envelope]) envelope.clientId assembly' :=
      Updated.sound (hopn.sound _ _ hl) (by rw [hstr, hsame]) hseq hev hupd
    have hgood := (hopn.mono hseen).insert hl hsound
    refine ⟨hgood.applyUpdate envelope streamId update, ?_⟩
    intro forwarded hf
    obtain ⟨message, rfl, hfwd⟩ := applyUpdate_eq_forward hf
    generalize hcpl : AssemblyUpdate.complete message = update at hupd
    cases hupd with
    | unchanged _ hne => exact absurd hcpl.symm (hne message)
    | appended chunk hmeta hnext hdec hroom =>
      obtain ⟨hcnt, hlen, hjson⟩ := finishChunk_eq_complete hcpl.symm
      -- the chunk's own number is below the count, so the count is reached exactly
      have hex : assembly.nextSegmentId + 1 = metadata.segmentCount := by
        have hreached : metadata.segmentCount ≤ assembly.nextSegmentId + 1 := hcnt
        omega
      have hcollected : Collected host (seen ++ [envelope]) envelope.clientId assembly.streamId assembly.metadata
          (assembly.nextSegmentId + 1) (assembly.raw ++ chunk) := hsound.collected
      rw [hsame, hmeta, hex] at hcollected
      exact ⟨message, _, hfwd, hcollected, hlen, hjson⟩

theorem Good.observe (h : Good host seen r) (envelope : ClientEnvelope M) (now : Nat) :
    Good host (seen ++ [envelope]) (r.observe host envelope now).2 := by
  have hsame := h.mono (sublist_append_left seen [envelope])
  rw [ClientSegmentReassembler.observe]
  cases hev : envelope.event with
  | clientMessageChunk segmentId segmentCount messageSizeBytes p =>
    cases hseq : envelope.seqId with
    | none => exact hsame
    | some seqId =>
      cases hstr : envelope.streamId with
      | none => exact hsame
      | some streamId =>
        exact (@Good.observeChunk M host r seen streamId ⟨seqId, segmentCount, messageSizeBytes⟩ envelope segmentId
          p now h hstr hseq hev).1
  | _ => exact hsame

theorem Good.call (h : Good host seen r) (c : Call M) : Good host (seen ++ observed [c]) (r.call host c) := by
  cases c with
  | observe envelope now => exact h.observe envelope now
  | invalidateStream clientId streamId =>
    rw [show observed [Call.invalidateStream (M := M) clientId streamId] = [] from rfl, append_nil]
    exact h.removeAssembly clientId streamId
  | invalidateClient clientId =>
    rw [show observed [Call.invalidateClient (M := M) clientId] = [] from rfl, append_nil]
    exact h.invalidateClient clientId

theorem good_run (calls : List (Call M)) : Good host (observed calls) (run host calls) := by
  induction calls using reverseRecOn with
  | nil => exact ⟨Nat.zero_le _, by intro _ _ h; cases h⟩
  | append_singleton calls c ih =>
    rw [run, foldl_concat, observed, filterMap_append]
    exact ih.call c

/-- At every moment of a run the assemblies keep their bounds, and a chunk that completes a message
forwards what the chunks `0 .. segmentCount - 1` of that message decode to. -/
theorem reassembled_faithfully (host : SegmentHost M) (calls : List (Call M)) :
    ((run host calls).assemblies.keys.length ≤ remoteControlSegmentAssemblyMaxCount ∧
      ∀ clientId assembly, (run host calls).assemblies.lookup clientId = some assembly →
        assembly.raw.length ≤ assembly.metadata.messageSizeBytes ∧
        assembly.metadata.messageSizeBytes ≤ remoteControlReassembledMaxBytes) ∧
    ∀ envelope now forwarded segmentId segmentCount messageSizeBytes payload,
      envelope.event = .clientMessageChunk segmentId segmentCount messageSizeBytes payload →
      ((run host calls).observe host envelope now).1 = .forward forwarded →
      ∃ streamId seqId message, ∃ chunks : List (ClientEnvelope M), ∃ parts : List Bytes,
        forwarded = { envelope with event := .clientMessage message } ∧
        chunks.Sublist (observed calls ++ [envelope]) ∧ chunks.length = segmentCount ∧
        (∀ i chunk, chunks[i]? = some chunk →
          IsChunk chunk envelope.clientId streamId ⟨seqId, segmentCount, messageSizeBytes⟩ i) ∧
        chunks.map (decoded host) = parts.map some ∧
        parts.flatten.length = messageSizeBytes ∧ host.fromSlice parts.flatten = some message := by
  have hgood := @good_run M host calls
  refine ⟨⟨hgood.count_le, fun c a ha => ⟨(hgood.sound c a ha).length_raw, (hgood.sound c a ha).size_le⟩⟩, ?_⟩
  intro envelope now forwarded segmentId segmentCount messageSizeBytes payload hevent hforward
  rw [ClientSegmentReassembler.observe, hevent] at hforward
  cases hseq : envelope.seqId with
  | none =>
    rw [hseq] at hforward
    cases hforward
  | some seqId =>
    cases hstream : envelope.streamId with
    | none =>
      rw [hseq, hstream] at hforward
      cases hforward
    | some streamId =>
      rw [hseq, hstream] at hforward
      obtain ⟨message, raw, hforwarded, ⟨chunks, parts, hsub, hlen, hchunks, hparts, rfl⟩, hsize, hjson⟩ :=
        (@Good.observeChunk M host _ _ streamId ⟨seqId, segmentCount, messageSizeBytes⟩ envelope segmentId payload now
          hgood hstream hseq hevent).2 forwarded hforward
      exact ⟨streamId, seqId, message, chunks, parts, by rw [hforwarded, hstream, hseq],
        hsub, hlen, hchunks, hparts, hsize, hjson⟩

theorem reassembled_faithfully_two_chunks :
    ((run replyHost [.observe (replyChunk 1 0) 0]).observe replyHost (replyChunk 1 1) 0).1 =
      .forward { replyChunk 1 1 with event := .clientMessage 0 } ∧
    ∃ streamId seqId message, ∃ chunks : List (ClientEnvelope Nat), ∃ parts : List Bytes,
      { replyChunk 1 1 with event := .clientMessage 0 } =
        { replyChunk 1 1 with event := .clientMessage message } ∧
      chunks.Sublist (observed [.observe (replyChunk 1 0) 0] ++ [replyChunk 1 1]) ∧ chunks.length = 2 ∧
      (∀ i chunk, chunks[i]? = some chunk → IsChunk chunk ['c'] streamId ⟨seqId, 2, 41⟩ i) ∧
      chunks.map (decoded replyHost) = parts.map some ∧
      parts.flatten.length = 41 ∧ replyHost.fromSlice parts.flatten = some message := by
  have hforward : ((run replyHost [.observe (replyChunk 1 0) 0]).observe replyHost (replyChunk 1 1) 0).1 =
      .forward { replyChunk 1 1 with event := .clientMessage 0 } := by
    decide +kernel
  exact ⟨hforward, (reassembled_faithfully replyHost [.observe (replyChunk 1 0) 0]).2 (replyChunk 1 1) 0 _
    1 2 41 (Base64.encode (replyPart 1)) rfl hforward⟩

end ClientSegmentReassembler

end RemoteControl
