import Codez.RemoteControl.Reassembly

/-!
One message among other calls.
-/

namespace RemoteControl

open List

open AList ClientSegmentReassembler

namespace ClientSegmentReassembler

variable {M : Type}

/-- `decode_slice` succeeds when the decoded bytes fit, and they fit into the estimate. -/
structure ExactBase64 (host : SegmentHost M) : Prop where
  decodeSlice : ∀ s room b, host.decode s = some b → b.length ≤ room → host.decodeSlice s room = some b
  length_le : ∀ s b, host.decode s = some b → b.length ≤ host.decodedLenEstimate (Text.byteLen s)

def Call.ChunkOf (clientId : ClientId) : Call M → Prop
  | .observe envelope _ => envelope.clientId = clientId ∧ envelope.event.isChunk = true
  | _ => False

def Evicts (r : ClientSegmentReassembler) : Call M → Prop
  | .observe envelope _ =>
    (∃ segmentId segmentCount messageSizeBytes payload streamId seqId,
      envelope.event = .clientMessageChunk segmentId segmentCount messageSizeBytes payload ∧
      envelope.streamId = some streamId ∧ envelope.seqId = some seqId ∧
      invalidChunk segmentId segmentCount messageSizeBytes payload = false) ∧
    NeedsRoom r.assemblies envelope.clientId
  | _ => False

def Call.Invalidates (clientId : ClientId) (streamId : StreamId) : Call M → Prop
  | .invalidateStream c s => c = clientId ∧ s = streamId
  | .invalidateClient c => c = clientId
  | .observe _ _ => False

/-! ## Other calls -/

section
variable {host : SegmentHost M} {r : ClientSegmentReassembler} {clientId : ClientId} {streamId : StreamId}
  {envelope : ClientEnvelope M} {assembly : ClientSegmentAssembly} {c : Call M}

theorem lookup_observeChunk_of_ne {metadata : ClientSegmentMetadata} {segmentId : Nat} {payload : Text} (now : Nat)
    (hne : clientId ≠ envelope.clientId) :
    (∀ assembly,
      (r.observeChunk host envelope streamId metadata segmentId payload now).2.assemblies.lookup clientId =
        some assembly →
      r.assemblies.lookup clientId = some assembly) ∧
    ((invalidChunk segmentId metadata.segmentCount metadata.messageSizeBytes payload = false →
        ¬NeedsRoom r.assemblies envelope.clientId) →
      (r.observeChunk host envelope streamId metadata segmentId payload now).2.assemblies.lookup clientId =
        r.assemblies.lookup clientId) := by
  have hobs := @observeChunk_observed M host r envelope streamId metadata segmentId payload now
  generalize r.observeChunk host envelope streamId metadata segmentId payload now = result at hobs ⊢
  cases hobs with
  | ignored => exact ⟨fun _ h => h, fun _ => rfl⟩
  | refused =>
    have hsame := lookup_removeAssembly_of_ne r streamId hne
    exact ⟨fun _ h => hsame.symm.trans h, fun _ => hsame⟩
  | updated assembly assembly' update hval =>
    rw [lookup_applyUpdate_of_ne _ _ _ _ hne, lookup_insert_ne hne]
    refine ⟨fun a h => (openAssembly_spec _ _ _ _ _).2 clientId a hne h, ?_⟩
    intro hroom
    exact lookup_openAssembly_of_ne _ _ _ hne (hroom hval)

theorem lookup_observe_of_not_chunkOf {now : Nat} (h : ¬Call.ChunkOf clientId (.observe envelope now)) :
    (∀ assembly, (r.observe host envelope now).2.assemblies.lookup clientId = some assembly →
      r.assemblies.lookup clientId = some assembly) ∧
    (¬Evicts r (.observe envelope now) →
      (r.observe host envelope now).2.assemblies.lookup clientId = r.assemblies.lookup clientId) := by
  rw [observe]
  cases hev : envelope.event with
  | clientMessageChunk segmentId segmentCount messageSizeBytes payload =>
    have hne : clientId ≠ envelope.clientId := by
      intro heq
      exact h ⟨heq.symm, by rw [hev]; rfl⟩
    cases hseq : envelope.seqId with
    | none => exact ⟨fun _ h => h, fun _ => rfl⟩
    | some seqId =>
      cases hstr : envelope.streamId with
      | none => exact ⟨fun _ h => h, fun _ => rfl⟩
      | some s =>
        obtain ⟨hsub, hsame⟩ := @lookup_observeChunk_of_ne M host r clientId s envelope
          ⟨seqId, segmentCount, messageSizeBytes⟩ segmentId payload now hne
        refine ⟨hsub, fun hroom => hsame fun hval hneeds => hroom ⟨?_, hneeds⟩⟩
        exact ⟨segmentId, segmentCount, messageSizeBytes, payload, s, seqId, hev, hstr, hseq, hval⟩
  | _ => exact ⟨fun _ h => h, fun _ => rfl⟩

theorem lookup_removeAssembly_sub {c : ClientId} {s : StreamId}
    (h : (r.removeAssembly c s).assemblies.lookup clientId = some assembly) :
    r.assemblies.lookup clientId = some assembly := by
  unfold removeAssembly at h
  split at h
  · exact (Table.lookup_erase_eq_some _ h).2
  · exact h

theorem lookup_call_sub (h : ¬c.ChunkOf clientId)
    (hl : (r.call host c).assemblies.lookup clientId = some assembly) :
    r.assemblies.lookup clientId = some assembly := by
  cases c with
  | observe envelope now => exact (lookup_observe_of_not_chunkOf h).1 assembly hl
  | invalidateStream c s => exact lookup_removeAssembly_sub hl
  | invalidateClient c => exact (Table.lookup_erase_eq_some _ hl).2

theorem lookup_call_of_quiet (hlk : r.assemblies.lookup clientId = some assembly) (hchk : ¬c.ChunkOf clientId)
    (hevict : ¬Evicts r c) (hinv : ¬c.Invalidates clientId assembly.streamId) :
    (r.call host c).assemblies.lookup clientId = some assembly := by
  cases c with
  | observe envelope now => exact ((lookup_observe_of_not_chunkOf hchk).2 hevict).trans hlk
  | invalidateStream c s =>
    show (r.removeAssembly c s).assemblies.lookup clientId = some assembly
    by_cases hc : c = clientId
    · subst hc
      have hs : ¬assembly.streamId = s := fun hs => hinv ⟨rfl, hs.symm⟩
      simp [removeAssembly, hlk, hs]
    · rw [lookup_removeAssembly_of_ne r s (Ne.symm hc), hlk]
  | invalidateClient c =>
    have hc : clientId ≠ c := fun hc => hinv hc.symm
    exact (lookup_erase_ne hc).trans hlk

theorem lookup_call_of_invalidates
    (hstr : ∀ assembly, r.assemblies.lookup clientId = some assembly → assembly.streamId = streamId)
    (h : c.Invalidates clientId streamId) : (r.call host c).assemblies.lookup clientId = none := by
  cases c with
  | observe envelope now => exact h.elim
  | invalidateStream c s =>
    obtain ⟨rfl, rfl⟩ := h
    exact lookup_removeAssembly_self hstr
  | invalidateClient c =>
    obtain rfl : c = clientId := h
    exact lookup_erase _ _

theorem lookup_calls_none (calls : List (Call M)) (h : ∀ c ∈ calls, ¬c.ChunkOf clientId)
    (hnone : r.assemblies.lookup clientId = none) : (calls.foldl (call host) r).assemblies.lookup clientId = none := by
  apply @Run.foldl_invariant _ _ _ (fun r => r.assemblies.lookup clientId = none) calls r hnone
  intro r c hc hnone
  by_contra hsome
  obtain ⟨assembly, hl⟩ := Option.ne_none_iff_exists'.mp hsome
  rw [lookup_call_sub (h c hc) hl] at hnone
  cases hnone

theorem lookup_calls_between (calls : List (Call M))
    (hquiet : Run.AllSteps (fun r c => ¬c.ChunkOf clientId ∧ ¬Evicts r c) (call host) r calls)
    (hl : r.assemblies.lookup clientId = some assembly) :
    ((∀ c ∈ calls, ¬c.Invalidates clientId assembly.streamId) →
      (calls.foldl (call host) r).assemblies.lookup clientId = some assembly) ∧
    ((∃ c ∈ calls, c.Invalidates clientId assembly.streamId) →
      (calls.foldl (call host) r).assemblies.lookup clientId = none) := by
  induction calls generalizing r with
  | nil => exact ⟨fun _ => hl, by rintro ⟨c, hc, -⟩; cases hc⟩
  | cons c calls ih =>
    obtain ⟨⟨hchk, hevict⟩, hr⟩ := hquiet
    by_cases hinv : c.Invalidates clientId assembly.streamId
    · have hgone : (r.call host c).assemblies.lookup clientId = none := by
        apply lookup_call_of_invalidates _ hinv
        intro a ha
        rw [Option.some.inj (ha.symm.trans hl)]
      refine ⟨fun h => absurd hinv (h c mem_cons_self), fun _ => ?_⟩
      apply lookup_calls_none calls _ hgone
      exact Run.AllSteps.forall_of (hr.mono fun _ _ h => h.1)
    · have hkept : (r.call host c).assemblies.lookup clientId = some assembly :=
        lookup_call_of_quiet hl hchk hevict hinv
      obtain ⟨hstay, hgone⟩ := ih hr hkept
      refine ⟨fun h => hstay fun c' hc' => h c' (mem_cons_of_mem _ hc'), ?_⟩
      rintro ⟨c', hc', h⟩
      rcases mem_cons.mp hc' with rfl | hc'
      · exact absurd h hinv
      · exact hgone ⟨c', hc', h⟩

end

/-! ## The client's own chunks -/

section
variable {host : SegmentHost M} {r : ClientSegmentReassembler} {envelope : ClientEnvelope M} {streamId : StreamId}
  {metadata : ClientSegmentMetadata} {segmentId now : Nat} {payload : Text} {clientId : ClientId}
  {assembly : ClientSegmentAssembly} {as : Assemblies}

theorem shouldIgnoreChunk_eq_false {seqId : Nat}
    (h : ∀ assembly, r.assemblies.lookup clientId = some assembly → assembly.streamId = streamId →
      assembly.metadata.seqId < seqId ∨ assembly.metadata.seqId = seqId ∧ assembly.nextSegmentId ≤ segmentId) :
    r.shouldIgnoreChunk clientId streamId seqId segmentId = false := by
  rw [shouldIgnoreChunk]
  cases hl : r.assemblies.lookup clientId with
  | none => rfl
  | some assembly =>
    by_cases hstr : assembly.streamId = streamId
    · have := h assembly hl hstr
      have hseq : ¬seqId < assembly.metadata.seqId := by omega
      have hid : ¬(seqId = assembly.metadata.seqId ∧ segmentId < assembly.nextSegmentId) := by omega
      simp only [hstr, decide_true, Bool.true_and, Bool.or_eq_false_iff, decide_eq_false_iff_not,
        ← Bool.decide_and]
      exact ⟨hseq, hid⟩
    · simp [hstr]

theorem lookup_openAssembly_same (hlk : as.lookup clientId = some assembly)
    (hstr : assembly.streamId = streamId) :
    (openAssembly host as clientId streamId metadata now).lookup clientId = some assembly := by
  simp [openAssembly, hlk, hstr]

theorem lookup_openAssembly_new
    (h : ∀ assembly, as.lookup clientId = some assembly → assembly.streamId ≠ streamId) :
    (openAssembly host as clientId streamId metadata now).lookup clientId =
      some (newAssembly streamId metadata now) := by
  rw [openAssembly]
  cases hl : as.lookup clientId with
  | none => exact lookup_insert _
  | some assembly =>
    simp only [if_pos (h assembly hl)]
    exact lookup_insert _

/-- A chunk was dropped, and with it all that was assembled of its message. -/
def Drops (clientId : ClientId) (step : ClientSegmentObservation M × ClientSegmentReassembler) : Prop :=
  step.1 = .dropped ∧ step.2.assemblies.lookup clientId = none

section
variable (hign : r.shouldIgnoreChunk envelope.clientId streamId metadata.seqId segmentId = false)
  (hval : invalidChunk segmentId metadata.segmentCount metadata.messageSizeBytes payload = false)
  (hlk : (openAssembly host r.assemblies envelope.clientId streamId metadata now).lookup envelope.clientId =
    some assembly)
include hign hval hlk

theorem observeChunk_eq :
    r.observeChunk host envelope streamId metadata segmentId payload now =
      applyUpdate ⟨(openAssembly host r.assemblies envelope.clientId streamId metadata now).insert envelope.clientId
        (updateAssembly host assembly metadata segmentId payload now).2⟩ envelope streamId
        (updateAssembly host assembly metadata segmentId payload now).1 := by
  simp only [observeChunk, hign, hval, hlk, Bool.false_eq_true, if_false]

theorem observeChunk_drop (hstr : assembly.streamId = streamId)
    (hdrop : (updateAssembly host assembly metadata segmentId payload now) = (.drop, assembly)) :
    Drops envelope.clientId (r.observeChunk host envelope streamId metadata segmentId payload now) := by
  rw [observeChunk_eq hign hval hlk, hdrop]
  refine ⟨rfl, lookup_removeAssembly_self ?_⟩
  intro a ha
  rw [lookup_insert] at ha
  rw [← Option.some.inj ha, hstr]

theorem observeChunk_next {part : Bytes} (hex : ExactBase64 host)
    (hmeta : assembly.metadata = metadata) (hnext : assembly.nextSegmentId = segmentId)
    (hdec : host.decode payload = some part)
    (hfits : assembly.raw.length + part.length ≤ metadata.messageSizeBytes) :
    r.observeChunk host envelope streamId metadata segmentId payload now =
      applyUpdate ⟨(openAssembly host r.assemblies envelope.clientId streamId metadata now).insert envelope.clientId
        (appendChunk assembly part now)⟩ envelope streamId
        (finishChunk host (appendChunk assembly part now) metadata) := by
  subst hmeta hnext
  have hroom : part.length ≤ chunkRoom host assembly assembly.metadata payload := by
    have hestimate := hex.length_le payload part hdec
    show part.length ≤ min assembly.metadata.messageSizeBytes
      (assembly.raw.length + host.decodedLenEstimate (Text.byteLen payload)) - assembly.raw.length
    omega
  rw [observeChunk_eq hign hval hlk, updateAssembly_next now (hex.decodeSlice _ _ _ hdec hroom)]

end

theorem observeChunk_stale
    (hval : invalidChunk segmentId metadata.segmentCount metadata.messageSizeBytes payload = false)
    (hl : r.assemblies.lookup envelope.clientId = some assembly) (hstr : assembly.streamId = streamId)
    (hold : assembly.metadata.seqId < metadata.seqId) :
    Drops envelope.clientId (r.observeChunk host envelope streamId metadata segmentId payload now) := by
  have hne : assembly.metadata ≠ metadata := by
    rintro rfl
    exact absurd hold (lt_irrefl _)
  apply observeChunk_drop _ hval (lookup_openAssembly_same hl hstr) hstr
  · rw [updateAssembly, if_neg (not_lt.mpr hold.le), if_pos hne]
  · apply shouldIgnoreChunk_eq_false
    intro a ha _
    left
    rwa [← Option.some.inj (hl.symm.trans ha)]

theorem observeChunk_lost
    (hval : invalidChunk segmentId metadata.segmentCount metadata.messageSizeBytes payload = false)
    (hl : r.assemblies.lookup envelope.clientId = none) (hid : 0 < segmentId) :
    Drops envelope.clientId (r.observeChunk host envelope streamId metadata segmentId payload now) := by
  have hnone : ∀ assembly, r.assemblies.lookup envelope.clientId ≠ some assembly := by
    intro a ha
    rw [hl] at ha
    cases ha
  apply observeChunk_drop _ hval (lookup_openAssembly_new fun a ha => absurd ha (hnone a)) rfl
  · simp [updateAssembly, newAssembly, Nat.pos_iff_ne_zero.mp hid]
  · exact shouldIgnoreChunk_eq_false fun a ha => absurd ha (hnone a)

theorem lookup_applyUpdate_sub {update : AssemblyUpdate M}
    (h : (applyUpdate r envelope streamId update).2.assemblies.lookup clientId = some assembly) :
    r.assemblies.lookup clientId = some assembly := by
  cases update with
  | pending => exact h
  | ignore => exact h
  | drop | complete message => exact lookup_removeAssembly_sub h

theorem metadata_observeChunk {assembly' : ClientSegmentAssembly}
    (h : (r.observeChunk host envelope streamId metadata segmentId payload now).2.assemblies.lookup envelope.clientId =
      some assembly') :
    (∃ assembly, r.assemblies.lookup envelope.clientId = some assembly ∧ assembly.metadata = assembly'.metadata) ∨
      assembly'.metadata = metadata := by
  have hobs := @observeChunk_observed M host r envelope streamId metadata segmentId payload now
  generalize r.observeChunk host envelope streamId metadata segmentId payload now = result at hobs h
  cases hobs with
  | ignored => exact .inl ⟨assembly', h, rfl⟩
  | refused => exact .inl ⟨assembly', lookup_removeAssembly_sub h, rfl⟩
  | updated assembly assembly'' update _ _ _ horigin hupd =>
    have hinserted := lookup_applyUpdate_sub h
    rw [lookup_insert] at hinserted
    obtain rfl := Option.some.inj hinserted
    have hmeta : assembly''.metadata = assembly.metadata := by
      cases hupd with
      | unchanged => rfl
      | appended => rfl
    rcases horigin with hold | rfl
    · exact .inl ⟨assembly, hold, hmeta.symm⟩
    · exact .inr hmeta

end

def SeenSeq (seen : List (ClientEnvelope M)) (clientId : ClientId) (seqId : Nat) : Prop :=
  ∃ envelope ∈ seen, envelope.clientId = clientId ∧ envelope.event.isChunk = true ∧ envelope.seqId = some seqId

theorem seenSeq_observe {host : SegmentHost M} {r : ClientSegmentReassembler} {seen : List (ClientEnvelope M)}
    (h : ∀ clientId assembly, r.assemblies.lookup clientId = some assembly →
      SeenSeq seen clientId assembly.metadata.seqId)
    (envelope : ClientEnvelope M) (now : Nat) (clientId : ClientId) (assembly : ClientSegmentAssembly)
    (hl : (r.observe host envelope now).2.assemblies.lookup clientId = some assembly) :
    SeenSeq (seen ++ [envelope]) clientId assembly.metadata.seqId := by
  have hearlier : ∀ c q, SeenSeq seen c q → SeenSeq (seen ++ [envelope]) c q := by
    rintro c q ⟨e, he, hr⟩
    exact ⟨e, mem_append_left _ he, hr⟩
  by_cases hchk : Call.ChunkOf clientId (.observe envelope now)
  · obtain ⟨rfl, hchk⟩ := hchk
    rw [observe] at hl
    cases hev : envelope.event with
    | clientMessageChunk segmentId n messageSizeBytes payload =>
      rw [hev] at hl
      cases hseq : envelope.seqId with
      | none =>
        rw [hseq] at hl
        exact hearlier _ _ (h _ _ hl)
      | some seqId =>
        cases hstr : envelope.streamId with
        | none =>
          rw [hseq, hstr] at hl
          exact hearlier _ _ (h _ _ hl)
        | some streamId =>
          rw [hseq, hstr] at hl
          rcases metadata_observeChunk hl with ⟨old, hold, hmeta⟩ | hmeta
          · rw [← hmeta]
            exact hearlier _ _ (h _ _ hold)
          · rw [hmeta]
            exact ⟨envelope, by simp, rfl, hchk, hseq⟩
    | _ => rw [hev] at hchk; cases hchk
  · exact hearlier _ _ (h _ _ ((lookup_observe_of_not_chunkOf hchk).1 _ hl))

theorem seenSeq_run {host : SegmentHost M} (calls : List (Call M)) :
    ∀ clientId assembly, (run host calls).assemblies.lookup clientId = some assembly →
      SeenSeq (observed calls) clientId assembly.metadata.seqId := by
  induction calls using reverseRecOn with
  | nil => intro _ _ h; cases h
  | append_singleton calls c ih =>
    intro clientId assembly hl
    rw [run, foldl_concat] at hl
    rw [observed, filterMap_append]
    cases c with
    | observe envelope now => exact seenSeq_observe ih envelope now clientId assembly hl
    | invalidateStream c s =>
      rw [show [Call.invalidateStream (M := M) c s].filterMap Call.envelope = [] from rfl, append_nil]
      exact ih clientId assembly (lookup_removeAssembly_sub hl)
    | invalidateClient c =>
      rw [show [Call.invalidateClient (M := M) c].filterMap Call.envelope = [] from rfl, append_nil]
      exact ih clientId assembly (Table.lookup_erase_eq_some _ hl).2

/-! ## A message in order -/

/-- A message whose chunks are observed in order; `between k` are the calls after chunk `k`. -/
structure Transfer (M : Type) where
  clientId : ClientId
  streamId : StreamId
  metadata : ClientSegmentMetadata
  chunk : Nat → ClientEnvelope M
  now : Nat → Nat
  between : Nat → List (Call M)
  payload : Nat → Text
  part : Nat → Bytes
  message : M

namespace Transfer
variable (host : SegmentHost M) (t : Transfer M)

def raw (k : Nat) : Bytes := (List.range k).flatMap t.part

structure WellFormed : Prop where
  count_pos : 0 < t.metadata.segmentCount
  count_le : t.metadata.segmentCount ≤ remoteControlSegmentCountMax
  size_pos : 0 < t.metadata.messageSizeBytes
  size_le : t.metadata.messageSizeBytes ≤ remoteControlReassembledMaxBytes
  chunk : ∀ i, i < t.metadata.segmentCount → (t.chunk i).clientId = t.clientId ∧
    (t.chunk i).streamId = some t.streamId ∧ (t.chunk i).seqId = some t.metadata.seqId ∧
    (t.chunk i).event =
      .clientMessageChunk i t.metadata.segmentCount t.metadata.messageSizeBytes (t.payload i)
  payload_ne : ∀ i, i < t.metadata.segmentCount → t.payload i ≠ []
  decode : ∀ i, i < t.metadata.segmentCount → host.decode (t.payload i) = some (t.part i)
  length_raw : (t.raw t.metadata.segmentCount).length = t.metadata.messageSizeBytes
  fromSlice : host.fromSlice (t.raw t.metadata.segmentCount) = some t.message

def afterChunk (r : ClientSegmentReassembler) (k : Nat) : ClientSegmentReassembler :=
  (r.observe host (t.chunk k) (t.now k)).2

def stateBefore (r : ClientSegmentReassembler) : Nat → ClientSegmentReassembler
  | 0 => r
  | k + 1 => (t.between k).foldl (call host) (t.afterChunk host (stateBefore r k) k)

/-- Between the chunks there is no other chunk of the client and no eviction. -/
def Quiet (r : ClientSegmentReassembler) : Prop :=
  ∀ k, k + 1 < t.metadata.segmentCount →
    Run.AllSteps (fun r c => ¬c.ChunkOf t.clientId ∧ ¬Evicts r c) (call host)
      (t.afterChunk host (t.stateBefore host r k) k) (t.between k)

/-- The client has no assembly on the stream at first, and none is taken from it before chunk `k`. -/
def Clear (r : ClientSegmentReassembler) (k : Nat) : Prop :=
  (∀ assembly, r.assemblies.lookup t.clientId = some assembly → assembly.streamId ≠ t.streamId) ∧
    ∀ j, j < k → ∀ c ∈ t.between j, ¬c.Invalidates t.clientId t.streamId

def Ready (r : ClientSegmentReassembler) (k : Nat) : Prop :=
  if k = 0 then ∀ assembly, r.assemblies.lookup t.clientId = some assembly → assembly.streamId ≠ t.streamId
  else ∃ assembly, r.assemblies.lookup t.clientId = some assembly ∧ assembly.streamId = t.streamId ∧
    assembly.metadata = t.metadata ∧ assembly.nextSegmentId = k ∧ assembly.raw = t.raw k

def Blocked (r : ClientSegmentReassembler) (k : Nat) : Prop :=
  if k = 0 then ∃ assembly, r.assemblies.lookup t.clientId = some assembly ∧ assembly.streamId = t.streamId ∧
    assembly.metadata.seqId < t.metadata.seqId
  else r.assemblies.lookup t.clientId = none

variable {host t} {r : ClientSegmentReassembler} {k : Nat}

theorem raw_succ (k : Nat) : t.raw (k + 1) = t.raw k ++ t.part k := by
  simp [raw, range_succ]

theorem length_raw_le {k k' : Nat} (h : k ≤ k') : (t.raw k).length ≤ (t.raw k').length := by
  induction h with
  | refl => exact le_rfl
  | step _ ih =>
    rw [raw_succ, length_append]
    omega

theorem WellFormed.valid (h : t.WellFormed host) (hk : k < t.metadata.segmentCount) :
    invalidChunk k t.metadata.segmentCount t.metadata.messageSizeBytes (t.payload k) = false :=
  invalidChunk_eq_false_iff.mpr ⟨hk, h.count_le, h.size_pos, h.size_le, h.payload_ne k hk⟩

theorem WellFormed.observe_chunk (h : t.WellFormed host) (hk : k < t.metadata.segmentCount) :
    r.observe host (t.chunk k) (t.now k) =
      r.observeChunk host (t.chunk k) t.streamId t.metadata k (t.payload k) (t.now k) := by
  obtain ⟨-, hstr, hseq, hev⟩ := h.chunk k hk
  simp only [observe, hev, hseq, hstr]

theorem Ready.opened (hrdy : t.Ready r k) (now : Nat) :
    r.shouldIgnoreChunk t.clientId t.streamId t.metadata.seqId k = false ∧
    ∃ assembly, (openAssembly host r.assemblies t.clientId t.streamId t.metadata now).lookup t.clientId =
      some assembly ∧
      assembly.streamId = t.streamId ∧ assembly.metadata = t.metadata ∧ assembly.nextSegmentId = k ∧
      assembly.raw = t.raw k := by
  by_cases hzero : k = 0
  · subst hzero
    have hnone := hrdy
    rw [Ready, if_pos rfl] at hnone
    refine ⟨shouldIgnoreChunk_eq_false fun a ha hs => absurd hs (hnone a ha), ?_⟩
    exact ⟨newAssembly t.streamId t.metadata now, lookup_openAssembly_new hnone, rfl, rfl, rfl, rfl⟩
  · rw [Ready, if_neg hzero] at hrdy
    obtain ⟨assembly, hlk, hstr, hmeta, hnext, hraw⟩ := hrdy
    refine ⟨?_, assembly, lookup_openAssembly_same hlk hstr, hstr, hmeta, hnext, hraw⟩
    apply shouldIgnoreChunk_eq_false
    intro a ha _
    rw [← Option.some.inj (hlk.symm.trans ha), hmeta, hnext]
    exact .inr ⟨rfl, le_rfl⟩

theorem Ready.observe (hex : ExactBase64 host) (hwf : t.WellFormed host) (hk : k < t.metadata.segmentCount)
    (hrdy : t.Ready r k) :
    (k + 1 < t.metadata.segmentCount → (r.observe host (t.chunk k) (t.now k)).1 = .pending ∧
      t.Ready (t.afterChunk host r k) (k + 1)) ∧
    (k + 1 = t.metadata.segmentCount → (r.observe host (t.chunk k) (t.now k)).1 =
      .forward { t.chunk k with event := .clientMessage t.message }) := by
  obtain ⟨hign, assembly, hlk, hstr, hmeta, hnext, hraw⟩ := @Ready.opened M host t r k hrdy (t.now k)
  have hcl := (hwf.chunk k hk).1
  have happended : (appendChunk assembly (t.part k) (t.now k)).raw = t.raw (k + 1) := by
    rw [raw_succ, ← hraw]
    rfl
  have hfits : assembly.raw.length + (t.part k).length ≤ t.metadata.messageSizeBytes := by
    rw [hraw, ← length_append, ← raw_succ, ← hwf.length_raw]
    exact length_raw_le hk
  rw [← hcl] at hign hlk
  have hst := observeChunk_next hign (hwf.valid hk) hlk hex hmeta hnext (hwf.decode k hk) hfits
  rw [afterChunk, hwf.observe_chunk hk, hst]
  have hcnt : (appendChunk assembly (t.part k) (t.now k)).nextSegmentId = k + 1 := by
    rw [← hnext]
    rfl
  constructor
  · intro hlt
    rw [finishChunk, hcnt, if_pos hlt, Ready, if_neg (Nat.succ_ne_zero k)]
    refine ⟨rfl, appendChunk assembly (t.part k) (t.now k), ?_, hstr, hmeta, hcnt, happended⟩
    rw [hcl]
    exact lookup_insert _
  · intro heq
    rw [finishChunk, hcnt, if_neg (by omega), happended, heq, if_neg (not_not.mpr hwf.length_raw), hwf.fromSlice]
    rfl

theorem Blocked.observe (hwf : t.WellFormed host) (hk : k < t.metadata.segmentCount) (hblocked : t.Blocked r k) :
    Drops t.clientId (r.observe host (t.chunk k) (t.now k)) := by
  have hcl := (hwf.chunk k hk).1
  rw [hwf.observe_chunk hk, ← hcl]
  by_cases hzero : k = 0
  · rw [Blocked, if_pos hzero] at hblocked
    obtain ⟨assembly, hlk, hstr, hold⟩ := hblocked
    rw [← hcl] at hlk
    exact observeChunk_stale (hwf.valid hk) hlk hstr hold
  · rw [Blocked, if_neg hzero, ← hcl] at hblocked
    exact observeChunk_lost (hwf.valid hk) hblocked (Nat.pos_of_ne_zero hzero)

theorem Ready.observations (hex : ExactBase64 host) (hwf : t.WellFormed host) (left : Nat)
    (hk : k + left + 1 = t.metadata.segmentCount) (hrdy : t.Ready r k) :
    (Run.mapAccum (fun i (r : ClientSegmentReassembler) => r.observe host (t.chunk i) (t.now i))
      (List.range' k (left + 1)) r).1 =
      List.replicate left .pending ++ [.forward { t.chunk (k + left) with event := .clientMessage t.message }] := by
  induction left generalizing k r with
  | zero =>
    have hl := (hrdy.observe hex hwf (by omega)).2 hk
    show [(r.observe host (t.chunk k) (t.now k)).1] = _
    rw [hl]
    rfl
  | succ left ih =>
    obtain ⟨hpend, hnext⟩ := (hrdy.observe hex hwf (by omega)).1 (by omega)
    have hr := ih (by omega) hnext
    rw [List.range'_succ, Run.mapAccum_cons, hpend, replicate_succ, cons_append]
    rw [show k + (left + 1) = k + 1 + left by omega]
    exact congrArg (ClientSegmentObservation.pending :: ·) hr

theorem ready_or_blocked (hex : ExactBase64 host) (hwf : t.WellFormed host) (hquiet : t.Quiet host r)
    (hold : ∀ assembly, r.assemblies.lookup t.clientId = some assembly → assembly.metadata.seqId < t.metadata.seqId)
    (hk : k < t.metadata.segmentCount) :
    (t.Clear r k → t.Ready (t.stateBefore host r k) k) ∧
      (¬t.Clear r k → t.Blocked (t.stateBefore host r k) k) := by
  induction k with
  | zero =>
    constructor
    · intro hclear
      rw [Ready, if_pos rfl]
      exact hclear.1
    · intro hclear
      rw [Blocked, if_pos rfl]
      by_contra hnone
      apply hclear
      refine ⟨fun a ha hs => hnone ⟨a, ha, hs, hold a ha⟩, ?_⟩
      intro j hj
      exact absurd hj (Nat.not_lt_zero j)
  | succ k ih =>
    have hk' : k < t.metadata.segmentCount := by omega
    have hcs := hquiet k hk
    by_cases hclear : t.Clear r k
    · have hrdy := (((ih hk').1 hclear).observe hex hwf hk').1 hk |>.2
      rw [Ready, if_neg (Nat.succ_ne_zero k)] at hrdy
      obtain ⟨assembly, hlk, hstr, hr⟩ := hrdy
      obtain ⟨hstay, hgone⟩ := lookup_calls_between (t.between k) hcs hlk
      rw [hstr] at hstay hgone
      constructor
      · intro hclear'
        rw [Ready, if_neg (Nat.succ_ne_zero k)]
        exact ⟨assembly, hstay (hclear'.2 k (Nat.lt_succ_self k)), hstr, hr⟩
      · intro hclear'
        rw [Blocked, if_neg (Nat.succ_ne_zero k)]
        apply hgone
        by_contra hnone
        apply hclear'
        refine ⟨hclear.1, ?_⟩
        intro j hj c hc hinv
        rcases Nat.lt_succ_iff_lt_or_eq.mp hj with hj | rfl
        · exact hclear.2 j hj c hc hinv
        · exact hnone ⟨c, hc, hinv⟩
    · have hlost := (((ih hk').2 hclear).observe hwf hk').2
      constructor
      · intro hclear'
        exact absurd ⟨hclear'.1, fun j hj => hclear'.2 j (by omega)⟩ hclear
      · intro _
        rw [Blocked, if_neg (Nat.succ_ne_zero k)]
        exact lookup_calls_none _ (Run.AllSteps.forall_of (hcs.mono fun _ _ h => h.1)) hlost

end Transfer

/-- After any run, a complete message with a new `seq_id` is forwarded exactly when the client has no
assembly left on its stream and none is taken from it on the way. -/
theorem complete_message_forwarded_iff (host : SegmentHost M) (hexact : ExactBase64 host) (calls : List (Call M))
    (t : Transfer M) (hwf : t.WellFormed host)
    (hnew : ∀ seqId, SeenSeq (observed calls) t.clientId seqId → seqId < t.metadata.seqId)
    (hquiet : t.Quiet host (run host calls)) :
    ((t.stateBefore host (run host calls) (t.metadata.segmentCount - 1)).observe host
        (t.chunk (t.metadata.segmentCount - 1)) (t.now (t.metadata.segmentCount - 1))).1 =
      .forward { t.chunk (t.metadata.segmentCount - 1) with event := .clientMessage t.message } ↔
    t.Clear (run host calls) (t.metadata.segmentCount - 1) := by
  have hpos := hwf.count_pos
  have hk : t.metadata.segmentCount - 1 < t.metadata.segmentCount := by omega
  have hold : ∀ assembly, (run host calls).assemblies.lookup t.clientId = some assembly →
      assembly.metadata.seqId < t.metadata.seqId := by
    intro assembly hlookup
    exact hnew _ (seenSeq_run calls t.clientId assembly hlookup)
  obtain ⟨hready, hblocked⟩ := Transfer.ready_or_blocked hexact hwf hquiet hold hk
  constructor
  · intro hforward
    by_contra hclear
    rw [((hblocked hclear).observe hwf hk).1] at hforward
    cases hforward
  · intro hclear
    exact ((hready hclear).observe hexact hwf hk).2 (by omega)

/-! ### A message in two chunks -/

theorem exactBase64_base64Host {M : Type} (fromSlice : Bytes → Option M) : ExactBase64 (base64Host fromSlice) where
  decodeSlice s room b h hroom := by
    show (Base64.decode s).filter _ = some b
    rw [Option.filter_eq_some_iff]
    exact ⟨h, decide_eq_true hroom⟩
  length_le s b h := by
    have hlen := Base64.length_decode_le h
    have hbytes : s.length ≤ Text.byteLen s := by
      have hone : ∀ n ∈ s.map Char.utf8Size, 1 ≤ n := by
        intro n hn
        obtain ⟨c, -, rfl⟩ := mem_map.mp hn
        exact c.utf8Size_pos
      simpa [Text.byteLen] using card_nsmul_le_sum (s.map Char.utf8Size) 1 hone
    show b.length ≤ (Text.byteLen s + 3) / 4 * 3
    omega

def reply (seqId : Nat) : Transfer Nat where
  clientId := ['c']
  streamId := ['s']
  metadata := ⟨seqId, 2, 41⟩
  chunk i := replyChunk seqId i
  now _ := 0
  between _ := []
  payload i := Base64.encode (replyPart i)
  part := replyPart
  message := 0

theorem wellFormed_reply (seqId : Nat) : (reply seqId).WellFormed replyHost where
  count_pos := Nat.two_pos
  count_le := by show 2 ≤ 1024; omega
  size_pos := by show 0 < 41; omega
  size_le := by show 41 ≤ 100 * 1024 * 1024; omega
  chunk _ _ := ⟨rfl, rfl, rfl, rfl⟩
  payload_ne i _ := by
    show Base64.encode (replyPart i) ≠ []
    rw [replyPart]
    split <;> decide +kernel
  decode i _ := Base64.decode_encode _
  length_raw := show ((List.range 2).flatMap replyPart).length = 41 by decide +kernel
  fromSlice := show readErrorReply ((List.range 2).flatMap replyPart) = some 0 by decide +kernel

theorem complete_message_forwarded_iff_reply :
    (((reply 2).stateBefore replyHost (run replyHost []) 1).observe replyHost (replyChunk 2 1) 0).1 =
      .forward { replyChunk 2 1 with event := .clientMessage 0 } := by
  apply (complete_message_forwarded_iff replyHost (exactBase64_base64Host _) [] (reply 2) (wellFormed_reply 2) _ _).mpr
  · constructor
    · intro assembly h
      cases h
    · intro j _ c hc
      cases hc
  · rintro seqId ⟨_, h, -⟩
    cases h
  · intro k _
    trivial

theorem older_assembly_swallows_message : (reply 2).WellFormed replyHost ∧
    (∀ seqId, SeenSeq (observed [.observe (replyChunk 1 0) 0]) (reply 2).clientId seqId → seqId < 2) ∧
    (reply 2).Quiet replyHost (run replyHost [.observe (replyChunk 1 0) 0]) ∧
    (((reply 2).stateBefore replyHost (run replyHost [.observe (replyChunk 1 0) 0]) 1).observe replyHost
      (replyChunk 2 1) 0).1 = .dropped := by
  refine ⟨wellFormed_reply 2, ?_, fun _ _ => trivial, by decide +kernel⟩
  rintro seqId ⟨envelope, hmem, -, -, hseq⟩
  obtain rfl : envelope = replyChunk 1 0 := mem_singleton.mp hmem
  cases hseq
  omega

end ClientSegmentReassembler

end RemoteControl
