import Codez.Relay.MessageFraming

/-!
One virtual stream of the exec-server relay after its handshake (`noise_relay/executor_stream.rs`,
`noise_channel.rs`): the writer cuts framed messages into records and encrypts each under the next
nonce; the reader puts records in order, decrypts them and forwards the complete messages to a
bounded queue.  The cipher is a parameter, and the receiving end of the queue is part of a run.
-/

namespace NoiseRelay

open Effect Framing List

def tagLen : Nat := 16

/-- AES-GCM under a nonce; a ciphertext is longer than its plaintext by the tag. -/
structure Cipher where
  sendVec : Nat → Bytes → Except String Bytes
  receiveVec : Nat → Bytes → Except String Bytes
  length_sendVec : ∀ k p c, sendVec k p = .ok c → c.length = p.length + tagLen

def maxMessageLen : Nat := 65535

inductive NoiseChannelError where
  | invalidMessage (message : String)
  | transport (error : String)
deriving DecidableEq

def NoiseChannelError.toString : NoiseChannelError → String
  | invalidMessage message => "invalid Noise channel message: " ++ message
  | transport error => "Noise channel transport failed: " ++ error

def ensureNoiseFrameLen (frameLen : Nat) (message : String) : Except NoiseChannelError Unit :=
  if maxMessageLen < frameLen then .error (.invalidMessage message) else .ok ()

structure NoiseTransport where
  sendNonce : Nat := 0
  receiveNonce : Nat := 0

namespace NoiseTransport

variable (cipher : Cipher)

def encrypt (t : NoiseTransport) (plaintext : Bytes) : Except NoiseChannelError (Bytes × NoiseTransport) := do
  ensureNoiseFrameLen (plaintext.length + tagLen) "transport plaintext is too large"
  let ciphertext ← (cipher.sendVec t.sendNonce plaintext).mapError .transport
  pure (ciphertext, { t with sendNonce := t.sendNonce + 1 })

def decrypt (t : NoiseTransport) (ciphertext : Bytes) : Except NoiseChannelError (Bytes × NoiseTransport) := do
  if ciphertext.length < tagLen then throw (.invalidMessage "transport ciphertext is too short")
  ensureNoiseFrameLen ciphertext.length "transport ciphertext is too large"
  let plaintext ← (cipher.receiveVec t.receiveNonce ciphertext).mapError .transport
  pure (plaintext, { t with receiveNonce := t.receiveNonce + 1 })

end NoiseTransport

structure RelayData where
  seq : Nat
  payload : Bytes
deriving DecidableEq

inductive WriterStop where
  | framing (e : ExecServerError)
  | sequence (e : ExecServerError)
  | encryption (e : NoiseChannelError)

structure Writer where
  nextSeq : Nat := 0
  transport : NoiseTransport := {}
  sent : List RelayData := []

namespace Writer

def takeNextSequence : EStateM WriterStop Writer Nat := do
  let w ← get
  if w.nextSeq < u32Max then
    modify fun w => { w with nextSeq := w.nextSeq + 1 }
    pure w.nextSeq
  else throw (.sequence (.protocol "Noise relay sequence number exhausted"))

section
variable {M : Type} (json : JsonCodec M) (cipher : Cipher)

def sendRecord (record : Bytes) : EStateM WriterStop Writer Unit := do
  let seq ← takeNextSequence
  let w ← get
  let (ciphertext, transport) ← ofResult ((w.transport.encrypt cipher record).mapError .encryption)
  modify fun w => { w with transport, sent := w.sent ++ [⟨seq, ciphertext⟩] }

def sendMessage (message : M) : EStateM WriterStop Writer Unit := do
  let framed ← ofResult ((frameJsonrpcMessage json message).mapError .framing)
  (Chunks.chunks noiseRecordPlaintextLen framed).forM (sendRecord cipher)

def writerTask (messages : List M) : EStateM WriterStop Writer Unit := messages.forM (sendMessage json cipher)

end

end Writer

def channelCapacity : Nat := 128

/-- A bounded queue: what it has accepted, how much of that has been received, and whether the
receiving end is gone. -/
structure Channel (α : Type) where
  accepted : List α := []
  received : Nat := 0
  closed : Bool := false

namespace Channel
variable {α : Type}

def trySend (c : Channel α) (x : α) : Option (Channel α) :=
  if c.closed ∨ channelCapacity ≤ c.accepted.length - c.received then none
  else some { c with accepted := c.accepted ++ [x] }

def recv (c : Channel α) : Channel α := { c with received := min (c.received + 1) c.accepted.length }

def close (c : Channel α) : Channel α := { c with closed := true }

theorem accepted_of_trySend {c c' : Channel α} {x : α} (h : c.trySend x = some c') :
    c'.accepted = c.accepted ++ [x] := by
  unfold trySend at h
  split at h
  · cases h
  · cases h
    rfl

end Channel

inductive JsonRpcConnectionEvent (M : Type) where
  | message (message : M)
  | disconnected (reason : Option String)

structure NoiseVirtualStream (M : Type) where
  incoming : Channel (JsonRpcConnectionEvent M) := {}
  disconnected : Bool := false
  transport : NoiseTransport := {}
  inboundCiphertexts : OrderedCiphertextFrames := {}
  inboundDecoder : JsonRpcMessageDecoder := {}
  instanceId : Nat

namespace NoiseVirtualStream

variable {M : Type}

def disconnect (s : NoiseVirtualStream M) (reason : Option String) : NoiseVirtualStream M :=
  { s with
    disconnected := true
    incoming := (s.incoming.trySend (.disconnected reason)).getD s.incoming }

def inboundQueueError : ExecServerError :=
  .protocol "Noise virtual stream inbound queue is full or closed"

def forward (message : M) : EStateM ExecServerError (NoiseVirtualStream M) Unit := do
  let s ← get
  match s.incoming.trySend (.message message) with
  | none => throw inboundQueueError
  | some incoming => modify fun s => { s with incoming }

section
variable (json : JsonCodec M) (cipher : Cipher)

def decryptionError (e : NoiseChannelError) : ExecServerError :=
  .protocol ("Noise relay decryption failed: " ++ e.toString)

def receiveRecord (ciphertext : Bytes) : EStateM ExecServerError (NoiseVirtualStream M) Unit := do
  let s ← get
  let (plaintext, transport) ← ofResult ((s.transport.decrypt cipher ciphertext).mapError decryptionError)
  modify fun s => { s with transport }
  let (messages, inboundDecoder) ← ofResult (s.inboundDecoder.push json plaintext)
  modify fun s => { s with inboundDecoder }
  messages.forM forward

def receiveData (data : RelayData) : EStateM ExecServerError (NoiseVirtualStream M) Unit := do
  let ready ← zoom inboundCiphertexts (fun inboundCiphertexts s => { s with inboundCiphertexts })
    (OrderedCiphertextFrames.push data.seq data.payload)
  ready.forM (receiveRecord json cipher)

end

theorem after_receiveData_instanceId (json : JsonCodec M) (cipher : Cipher) (data : RelayData)
    (s : NoiseVirtualStream M) :
    After (receiveData json cipher data) s (fun _ s' => s'.instanceId = s.instanceId) fun _ _ => True := by
  have hforward : ∀ (m : M) (t : NoiseVirtualStream M),
      After (forward m) t (fun _ t' => t'.instanceId = t.instanceId) fun _ _ => True := by
    intro m t
    apply After.bind
    apply After.get
    cases t.incoming.trySend (.message m) with
    | none => exact After.error trivial
    | some incoming => exact After.modify rfl
  have hrecord : ∀ (c : Bytes) (t : NoiseVirtualStream M),
      After (receiveRecord json cipher c) t (fun _ t' => t'.instanceId = t.instanceId) fun _ _ => True := by
    intro c t
    apply After.bind
    apply After.get
    apply After.bind
    refine After.ofResult (fun opened _ => ?_) fun _ _ => trivial
    apply After.bind
    apply After.modify
    apply After.bind
    refine After.ofResult (fun decoded _ => ?_) fun _ _ => trivial
    apply After.bind
    apply After.modify
    refine After.forM (fun _ t' => t'.instanceId = t.instanceId) decoded.1 rfl ?_ fun _ h => h
    intro m _ t' ht'
    exact (hforward m t').mono (fun _ _ h => h.trans ht') fun _ _ h => h
  apply After.bind
  apply After.zoom
  refine After.any.mono ?_ fun _ _ h => h
  intro ready buffer _
  refine After.forM (fun _ t' => t'.instanceId = s.instanceId) ready rfl ?_ fun _ h => h
  intro c _ t' ht'
  exact (hrecord c t').mono (fun _ _ h => h.trans ht') fun _ _ h => h

def forwarded (s : NoiseVirtualStream M) : List M :=
  s.incoming.accepted.filterMap fun
    | .message m => some m
    | .disconnected _ => none

end NoiseVirtualStream

section
variable {M : Type} (json : JsonCodec M) (cipher : Cipher)

def recordsOf (messages : List M) : List Bytes :=
  messages.flatMap fun m => Chunks.chunks noiseRecordPlaintextLen (framed json m)

def records (messages : List M) : List Bytes := recordsOf json (framable json messages)

theorem flatten_recordsOf (messages : List M) : (recordsOf json messages).flatten = messages.flatMap (framed json) := by
  induction messages with
  | nil => rfl
  | cons m rest ih =>
    rw [recordsOf, flatMap_cons, flatten_append, Chunks.flatten_chunks (by decide), flatMap_cons]
    exact congrArg _ ih

theorem length_le_of_mem_recordsOf {messages : List M} {r : Bytes} (h : r ∈ recordsOf json messages) :
    r.length ≤ noiseRecordPlaintextLen := by
  obtain ⟨m, -, hr⟩ := mem_flatMap.mp h
  exact Chunks.length_le_of_mem (by decide) hr

structure Writer.Sent (records : List Bytes) (w : Writer) : Prop where
  nextSeq : w.nextSeq = records.length
  nonce : w.transport.sendNonce = records.length
  length_le : records.length ≤ u32Max
  length : w.sent.length = records.length
  frame : ∀ k d, w.sent[k]? = some d → d.seq = k ∧ ∃ r, records[k]? = some r ∧ cipher.sendVec k r = .ok d.payload

namespace Writer

variable {w : Writer} {sent : List Bytes}

theorem after_sendRecord (r : Bytes) (h : w.Sent cipher sent) :
    After (sendRecord cipher r) w (fun _ w' => w'.Sent cipher (sent ++ [r])) fun _ _ => True := by
  apply After.bind
  apply After.bind
  apply After.get
  split
  · next hlt =>
    apply After.bind
    apply After.modify
    apply After.value
    apply After.bind
    apply After.get
    apply After.bind
    apply After.ofResult
    · rintro ⟨ciphertext, transport⟩ hencrypt
      obtain ⟨⟨⟩, -, hencrypt⟩ := Fallible.bind_eq_ok (Fallible.mapError_eq_ok hencrypt)
      obtain ⟨c, hseal, hpure⟩ := Fallible.bind_eq_ok hencrypt
      cases hpure
      have hseal := Fallible.mapError_eq_ok hseal
      simp only [h.nonce] at hseal
      apply After.modify
      refine ⟨by simp [h.nextSeq], by simp [h.nonce], ?_, by simp [h.length], ?_⟩
      · rw [length_append, length_singleton, ← h.nextSeq]
        exact hlt
      · intro k d hk
        by_cases hnew : k < w.sent.length
        · rw [getElem?_append_left hnew] at hk
          obtain ⟨hseq, r', hr', hseal'⟩ := h.frame k d hk
          exact ⟨hseq, r', by rw [getElem?_append_left (by rw [← h.length]; exact hnew), hr'], hseal'⟩
        · have hlen : k < w.sent.length + 1 := by
            have := (List.getElem?_eq_some_iff.mp hk).1
            simpa using this
          obtain rfl : k = w.sent.length := by omega
          simp only [getElem?_concat_length, Option.some.injEq] at hk
          subst hk
          refine ⟨by rw [h.length]; exact h.nextSeq, r, ?_, by rw [h.length]; exact hseal⟩
          rw [h.length, getElem?_concat_length]
    · intro _ _
      trivial
  · exact After.error trivial

theorem after_sendRecords (rs : List Bytes) (h : w.Sent cipher sent) :
    After (rs.forM (sendRecord cipher)) w (fun _ w' => w'.Sent cipher (sent ++ rs)) fun _ _ => True := by
  refine After.forM (fun rest w => ∃ done, sent ++ rs = done ++ rest ∧ w.Sent cipher done) rs
    ⟨sent, rfl, h⟩ ?_ ?_
  · rintro r rest w ⟨done, hall, hw⟩
    refine (after_sendRecord cipher r hw).mono ?_ fun _ _ _ => trivial
    intro _ w' hw'
    exact ⟨done ++ [r], by rw [hall]; simp, hw'⟩
  · rintro w' ⟨done, hall, hw'⟩
    rwa [hall, append_nil]

theorem after_writerTask (messages : List M) : After (writerTask json cipher messages) {}
      (fun _ w => framable json messages = messages ∧ w.Sent cipher (records json messages)) fun _ _ => True := by
  have hst : Writer.Sent cipher [] ({} : Writer) := ⟨rfl, rfl, Nat.zero_le _, rfl, by simp⟩
  refine After.forM (fun rest w => ∃ done, messages = done ++ rest ∧
    (∀ m ∈ done, (frameJsonrpcMessage json m).isOk = true) ∧ w.Sent cipher (recordsOf json done)) messages
    ⟨[], rfl, by simp, hst⟩ ?_ ?_
  · rintro m rest w ⟨done, hall, hok, hw⟩
    apply After.bind
    apply After.ofResult
    · intro b hb
      have hfr := Fallible.mapError_eq_ok hb
      refine (after_sendRecords cipher _ hw).mono ?_ fun _ _ _ => trivial
      intro _ w' hw'
      refine ⟨done ++ [m], by rw [hall]; simp, ?_, ?_⟩
      · intro m' hm'
        rcases mem_append.mp hm' with hm' | hm'
        · exact hok m' hm'
        · rw [mem_singleton.mp hm', hfr]
          rfl
      · have hframed : framed json m = b := by rw [framed, hfr]; rfl
        rw [recordsOf, flatMap_append, flatMap_singleton, hframed]
        exact hw'
    · intro _ _
      trivial
  · rintro w ⟨done, hall, hok, hw⟩
    rw [append_nil] at hall
    subst hall
    have hframable : framable json messages = messages := takeWhile_eq_self_iff.mpr hok
    rw [records, hframable]
    exact ⟨rfl, hw⟩

end Writer

end

end NoiseRelay
