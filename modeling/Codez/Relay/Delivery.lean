import Codez.Relay.Stream

/-!
Delivery over an untrusted relay.  A peer frames messages, cuts the frames into records and sends
record `k` under nonce `k`; the relay hands the reader any numbered payloads it likes.

`receive_delivers`: the messages the reader forwards are the first of those the peer framed.
-/

namespace NoiseRelay

open Effect Framing NoiseVirtualStream List

variable {M : Type} (json : JsonCodec M) (cipher : Cipher) {messages : List M} {w : Writer} {sent : List Bytes}
  {arrived : List (Nat × Bytes)}

def Authentic (sent : List Bytes) (k : Nat) (ciphertext : Bytes) : Prop :=
  ∃ r, sent[k]? = some r ∧ cipher.sendVec k r = .ok ciphertext

/-- Decryption `k` succeeds on record `k` alone and gives its plaintext. -/
structure Ideal (sent : List Bytes) : Prop where
  authentic : ∀ k c p, cipher.receiveVec k c = .ok p → sent[k]? = some p ∧ cipher.sendVec k p = .ok c
  correct : ∀ k c p, sent[k]? = some p → cipher.sendVec k p = .ok c → cipher.receiveVec k c = .ok p

open After

namespace NoiseVirtualStream

variable {s : NoiseVirtualStream M} {messages : List M} {n : Nat}

def plaintext (messages : List M) (n : Nat) : Bytes := ((records json messages).take n).flatten

/-- The reader has decrypted the first `n` records and forwarded the messages complete in them. -/
structure Delivered (messages : List M) (n : Nat) (s : NoiseVirtualStream M) : Prop where
  nonce : s.transport.receiveNonce = n
  buffered : s.inboundDecoder.buffered = (frames messageCutter (plaintext json messages n)).2
  forwarded : s.forwarded = (framable json messages).take (complete (plaintext json messages n))

theorem delivered_zero (instanceId : Nat) : Delivered json messages 0 { instanceId } := by
  have hnil : frames messageCutter [] = ([], []) := frames_of_none _ _ (cut_nil _)
  refine ⟨rfl, ?_, ?_⟩
  · rw [plaintext, take_zero, flatten_nil, hnil]
  · rw [plaintext, take_zero, flatten_nil, complete, hnil]
    rfl

def Refuses (s : NoiseVirtualStream M) : Prop :=
  s.incoming.closed = true ∨ channelCapacity ≤ s.incoming.accepted.length - s.incoming.received

theorem after_forward (m : M) :
    After (forward m) s (fun _ s' => s'.forwarded = s.forwarded ++ [m] ∧ s' = { s with incoming := s'.incoming })
      fun e s' => e = inboundQueueError ∧ s'.forwarded = s.forwarded ∧ s'.Refuses := by
  apply After.bind
  apply After.get
  cases hsend : s.incoming.trySend (.message m) with
  | none =>
    refine After.error ⟨rfl, rfl, ?_⟩
    unfold Channel.trySend at hsend
    split at hsend
    · next hfull => exact hfull
    · cases hsend
  | some incoming =>
    apply After.modify
    refine ⟨?_, rfl⟩
    show incoming.accepted.filterMap _ = _
    rw [Channel.accepted_of_trySend hsend, filterMap_append]
    rfl

theorem after_forwardAll (out : List M) : After (out.forM forward) s
      (fun _ s' => s'.forwarded = s.forwarded ++ out ∧ s' = { s with incoming := s'.incoming })
      fun e s' => e = inboundQueueError ∧ s'.forwarded <+: s.forwarded ++ out ∧ s'.Refuses := by
  refine forM (fun rest s' => s'.forwarded ++ rest = s.forwarded ++ out ∧
    s' = { s with incoming := s'.incoming }) out ⟨rfl, rfl⟩ ?_ ?_
  · rintro m rest s' ⟨hall, hfr⟩
    refine (after_forward m).mono ?_ ?_
    · rintro _ s'' ⟨hfwd, hframe'⟩
      refine ⟨by rw [hfwd, ← hall]; simp, ?_⟩
      rw [hframe', hfr]
    · rintro e s'' ⟨he, hfwd, hrefuses⟩
      exact ⟨he, by rw [hfwd, ← hall]; exact prefix_append _ _, hrefuses⟩
  · rintro s' ⟨hall, hfr⟩
    rw [append_nil] at hall
    exact ⟨hall, hfr⟩

theorem decrypt_eq_ok {t t' : NoiseTransport} {c p : Bytes} (h : t.decrypt cipher c = .ok (p, t')) :
    cipher.receiveVec t.receiveNonce c = .ok p ∧ t' = { t with receiveNonce := t.receiveNonce + 1 } := by
  unfold NoiseTransport.decrypt at h
  by_cases hshort : c.length < tagLen
  · simp [hshort, throw, throwThe, MonadExceptOf.throw, Bind.bind, Except.bind] at h
  · rw [if_neg hshort] at h
    obtain ⟨⟨⟩, -, h⟩ := Fallible.bind_eq_ok h
    obtain ⟨p', hp', h⟩ := Fallible.bind_eq_ok h
    cases h
    exact ⟨Fallible.mapError_eq_ok hp', rfl⟩

theorem decrypt_authentic (ideal : Ideal cipher (records json messages)) {t : NoiseTransport} {c : Bytes}
    (h : Authentic cipher (records json messages) t.receiveNonce c) :
    ∃ p t', t.decrypt cipher c = .ok (p, t') := by
  obtain ⟨r, hr, hseal⟩ := h
  have hlen := cipher.length_sendVec _ _ _ hseal
  have hle : r.length ≤ noiseRecordPlaintextLen := length_le_of_mem_recordsOf json (mem_of_getElem? hr)
  have hopen := ideal.correct _ _ _ hr hseal
  refine ⟨r, { t with receiveNonce := t.receiveNonce + 1 }, ?_⟩
  unfold NoiseTransport.decrypt ensureNoiseFrameLen
  rw [if_neg (by omega), if_neg (by rw [hlen]; unfold maxMessageLen tagLen noiseRecordPlaintextLen at *; omega), hopen]
  rfl

theorem plaintext_succ {p : Bytes} (h : (records json messages)[n]? = some p) :
    plaintext json messages (n + 1) = plaintext json messages n ++ p := by
  rw [plaintext, plaintext, take_add_one, h, flatten_append]
  simp

theorem plaintext_prefix (n : Nat) :
    plaintext json messages n <+: (framable json messages).flatMap (framed json) := by
  rw [← flatten_recordsOf]
  exact (List.take_prefix n _).flatten

theorem after_receiveRecord (ideal : Ideal cipher (records json messages)) (c : Bytes)
    (h : Delivered json messages n s) :
    After (receiveRecord json cipher c) s
      (fun _ s' => Delivered json messages (n + 1) s' ∧ s'.inboundCiphertexts = s.inboundCiphertexts)
      fun e s' => s'.forwarded <+: messages ∧
        ((e = inboundQueueError ∧ s'.Refuses) ∨ ¬ Authentic cipher (records json messages) n c) := by
  have hpart : s.forwarded <+: messages := by
    rw [h.forwarded]
    exact (List.take_prefix _ _).trans (framable_isPrefix json messages)
  apply After.bind
  apply After.get
  apply After.bind
  apply After.ofResult
  · rintro ⟨p, transport⟩ hp
    obtain ⟨hopen, rfl⟩ := decrypt_eq_ok cipher (Fallible.mapError_eq_ok hp)
    rw [h.nonce] at hopen
    obtain ⟨hrecord, -⟩ := ideal.authentic _ _ _ hopen
    have hsucc := plaintext_succ json hrecord
    have hnext : plaintext json messages (n + 1) <+: _ := plaintext_prefix json (n + 1)
    obtain ⟨out, d, hpush, hbuffered, htake⟩ := JsonRpcMessageDecoder.push_eq_ok json (framable json messages)
      (fun m hm => isOk_of_mem_framable json hm) (hsucc ▸ hnext)
      (length_le_of_mem_recordsOf json (mem_of_getElem? hrecord)) h.buffered
    rw [← hsucc] at hbuffered htake
    apply After.bind
    apply After.modify
    apply After.bind
    apply After.ofResult
    · rintro ⟨out', d'⟩ hpush'
      rw [hpush] at hpush'
      cases hpush'
      apply After.bind
      apply After.modify
      refine (after_forwardAll out).mono ?_ ?_
      · rintro _ s' ⟨hfwd, hfr⟩
        rw [hfr]
        refine ⟨⟨by simp [h.nonce], hbuffered, ?_⟩, rfl⟩
        rw [htake, ← h.forwarded]
        exact hfwd
      · rintro e s' ⟨he, hfwd, hrefuses⟩
        refine ⟨hfwd.trans ?_, .inl ⟨he, hrefuses⟩⟩
        show s.forwarded ++ out <+: messages
        rw [h.forwarded, ← htake]
        exact (List.take_prefix _ _).trans (framable_isPrefix json messages)
    · intro e hpush'
      rw [hpush] at hpush'
      cases hpush'
  · intro e he
    refine ⟨hpart, .inr fun hauth => ?_⟩
    rw [← h.nonce] at hauth
    obtain ⟨p, t', hok⟩ := decrypt_authentic json cipher ideal hauth
    rw [hok] at he
    cases he

structure Tracks (messages : List M) (arrived : List (Nat × Bytes)) (s : NoiseVirtualStream M) : Prop where
  holds : s.inboundCiphertexts.Holds arrived
  delivered : Delivered json messages (Reorder.inOrder arrived).length s

def Fault (messages : List M) (arrived : List (Nat × Bytes)) (data : RelayData) (e : ExecServerError) : Prop :=
  OrderedCiphertextFrames.Overflows arrived data.seq data.payload e ∨
    OrderedCiphertextFrames.Exhausts (arrived ++ [(data.seq, data.payload)]) e ∨
    ∃ k c, (Reorder.inOrder (arrived ++ [(data.seq, data.payload)]))[k]? = some c ∧
      ¬ Authentic cipher (records json messages) k c

theorem after_receiveData (ideal : Ideal cipher (records json messages))
    (data : RelayData) (h : Tracks json messages arrived s) :
    After (receiveData json cipher data) s
      (fun _ s' => Tracks json messages (arrived ++ [(data.seq, data.payload)]) s')
      fun e s' => s'.forwarded <+: messages ∧
        ((e = inboundQueueError ∧ s'.Refuses) ∨ Fault json cipher messages arrived data e) := by
  have hpart : s.forwarded <+: messages := by
    rw [h.delivered.forwarded]
    exact (List.take_prefix _ _).trans (framable_isPrefix json messages)
  apply After.bind
  apply After.zoom
  refine (OrderedCiphertextFrames.after_push data.seq data.payload h.holds).mono ?_ ?_
  · rintro ready buffer ⟨hholds, hin⟩
    refine After.forM (fun rest s' => ∃ done : List Bytes,
      Reorder.inOrder (arrived ++ [(data.seq, data.payload)]) = done ++ rest ∧
      Delivered json messages done.length s' ∧ s'.inboundCiphertexts = buffer) ready
      ⟨_, hin, ⟨h.delivered.nonce, h.delivered.buffered, h.delivered.forwarded⟩, rfl⟩ ?_ ?_
    · rintro c rest s' ⟨done, hall, hdelivered, hbuf⟩
      refine (after_receiveRecord json cipher ideal c hdelivered).mono ?_ ?_
      · rintro _ s'' ⟨hdelivered', hbuffer'⟩
        exact ⟨done ++ [c], by rw [hall]; simp, by rw [length_append]; exact hdelivered', hbuffer'.trans hbuf⟩
      · rintro e s'' ⟨hpart', hwhy⟩
        refine ⟨hpart', hwhy.imp_right fun hforged => .inr (.inr ⟨done.length, c, ?_, hforged⟩)⟩
        rw [hall, getElem?_append_right le_rfl, Nat.sub_self]
        rfl
    · rintro s' ⟨done, hall, hdelivered, hbuf⟩
      rw [append_nil] at hall
      exact ⟨by rw [hbuf]; exact hholds, by rw [hall]; exact hdelivered⟩
  · rintro e buffer (hover | hexhausts)
    · exact ⟨hpart, .inr (.inl hover)⟩
    · exact ⟨hpart, .inr (.inr (.inl hexhausts))⟩

end NoiseVirtualStream

inductive StreamEvent where
  | data (data : RelayData)
  | recv
  | close

def handle : StreamEvent → EStateM ExecServerError (NoiseVirtualStream M) Unit
  | .data data => receiveData json cipher data
  | .recv => modify fun s => { s with incoming := s.incoming.recv }
  | .close => modify fun s => { s with incoming := s.incoming.close }

def run (instanceId : Nat) (events : List StreamEvent) : Option ExecServerError × NoiseVirtualStream M :=
  match events.forM (handle json cipher) { instanceId } with
  | .ok _ s => (none, s)
  | .error e s => (some e, s)

def arrivals (events : List StreamEvent) : List (Nat × Bytes) :=
  events.filterMap fun
    | .data data => some (data.seq, data.payload)
    | _ => none

open Reorder

theorem after_events (ideal : Ideal cipher (records json messages)) (instanceId : Nat) (es : List StreamEvent) :
    After (es.forM (handle json cipher)) { instanceId }
      (fun _ s => Tracks json messages (arrivals es) s)
      fun e s => s.forwarded <+: messages ∧ ((e = inboundQueueError ∧ s.Refuses) ∨ ∃ pre data after,
          arrivals es = pre ++ (data.seq, data.payload) :: after ∧ Fault json cipher messages pre data e) := by
  refine forM (fun rest s => ∃ done, arrivals es = done ++ arrivals rest ∧ Tracks json messages done s)
    es ⟨[], rfl, OrderedCiphertextFrames.holds_nil, ?_⟩ ?_ ?_
  · rw [inOrder, expected_nil]
    exact delivered_zero json instanceId
  · rintro event rest s ⟨done, hall, htr⟩
    cases event with
    | data data =>
      refine (after_receiveData json cipher ideal data htr).mono ?_ ?_
      · intro _ s' hs'
        exact ⟨done ++ [(data.seq, data.payload)], by rw [hall]; simp [arrivals], hs'⟩
      · rintro e s' ⟨hpart, hwhy⟩
        exact ⟨hpart, hwhy.imp_right fun hfault => ⟨done, data, arrivals rest, hall, hfault⟩⟩
    | recv | close => exact ⟨done, hall, htr.holds, htr.delivered.nonce, htr.delivered.buffered,
        htr.delivered.forwarded⟩
  · rintro s ⟨done, hall, htr⟩
    have hdone : arrivals es = done := by rw [hall]; simp [arrivals]
    rwa [hdone]

def FirstCopiesAuthentic (sent : List RelayData) (arrived : List (Nat × Bytes)) : Prop :=
  ∀ k c, arrived.lookup k = some c → sent[k]? = some ⟨k, c⟩

def WithinBounds (arrived : List (Nat × Bytes)) : Prop :=
  ∀ before seq payload after, arrived = before ++ (seq, payload) :: after →
    seq ≤ Reorder.expected before + maxReorderDistance ∧
      Reorder.waiting List.length (before ++ [(seq, payload)]) ≤ maxPendingBytes

theorem not_fault {pre after : List (Nat × Bytes)} {data : RelayData} {e : ExecServerError}
    (hw : w.Sent cipher (records json messages)) (hfst : FirstCopiesAuthentic w.sent arrived)
    (hbounds : WithinBounds arrived) (hspl : arrived = pre ++ (data.seq, data.payload) :: after) :
    ¬ Fault json cipher messages pre data e := by
  obtain ⟨hwindow, hbytes⟩ := hbounds pre data.seq data.payload after hspl
  -- the first copies so far are first copies of the whole run
  have hlk : ∀ k c, (pre ++ [(data.seq, data.payload)]).lookup k = some c → w.sent[k]? = some ⟨k, c⟩ := by
    intro k c hk
    apply hfst
    rw [hspl, ← singleton_append, ← append_assoc, lookup_append, hk]
    rfl
  rintro ((⟨-, hfar⟩ | ⟨-, hfull⟩) | ⟨-, hend⟩ | ⟨k, c, hk, hforged⟩)
  · omega
  · omega
  · obtain ⟨c, hc⟩ := Option.ne_none_iff_exists'.mp hend
    have hlt := (List.getElem?_eq_some_iff.mp (hlk _ c hc)).1
    have := hw.length
    have := hw.length_le
    omega
  · apply hforged
    obtain ⟨-, r, hr, hseal⟩ := hw.frame k _ (hlk k c (lookup_of_getElem?_inOrder hk))
    exact ⟨r, hr, hseal⟩

theorem forwarded_eq_of_tracks {s : NoiseVirtualStream M}
    (hframable : framable json messages = messages) (hw : w.Sent cipher (records json messages))
    (hfst : FirstCopiesAuthentic w.sent arrived) (hall : ∀ k < w.sent.length, arrived.lookup k ≠ none)
    (h : Tracks json messages arrived s) : s.forwarded = messages := by
  have hexp : expected arrived = (records json messages).length := by
    rw [← hw.length]
    refine expected_eq_iff.mpr ⟨?_, hall⟩
    cases hlook : arrived.lookup w.sent.length with
    | none => rfl
    | some c =>
      have hlt := (List.getElem?_eq_some_iff.mp (hfst _ c hlook)).1
      omega
  have hplain : plaintext json messages (inOrder arrived).length = messages.flatMap (framed json) := by
    rw [length_inOrder, hexp, plaintext, take_length, records, hframable, flatten_recordsOf]
  rw [h.delivered.forwarded, hplain, hframable, complete, frames_framed json messages]
  · simp
  · intro m hm
    rw [← hframable] at hm
    exact isOk_of_mem_framable json hm

theorem arrivals_map_data (sent : List RelayData) :
    arrivals (sent.map .data) = sent.map fun d => (d.seq, d.payload) := by
  rw [arrivals, filterMap_map, ← filterMap_eq_map]
  rfl

theorem Writer.Sent.numbered (hw : w.Sent cipher sent) : Reorder.Numbered (arrivals (w.sent.map .data)) := by
  intro k p hk
  rw [arrivals_map_data, getElem?_map] at hk
  obtain ⟨d, hd, rfl⟩ := Option.map_eq_some_iff.mp hk
  exact (hw.frame k d hd).1

theorem honest_relay (hw : w.Sent cipher sent) : FirstCopiesAuthentic w.sent (arrivals (w.sent.map .data)) ∧
      (∀ k < w.sent.length, (arrivals (w.sent.map .data)).lookup k ≠ none) ∧
      WithinBounds (arrivals (w.sent.map .data)) := by
  have hnum := hw.numbered
  have hlk : ∀ k, (arrivals (w.sent.map .data)).lookup k = w.sent[k]?.map RelayData.payload := by
    intro k
    rw [hnum.lookup, arrivals_map_data, getElem?_map, Option.map_map]
    rfl
  refine ⟨?_, ?_, ?_⟩
  · intro k c hk
    rw [hlk] at hk
    obtain ⟨d, hd, rfl⟩ := Option.map_eq_some_iff.mp hk
    rw [hd, ← (hw.frame k d hd).1]
  · intro k hk
    rw [hlk, getElem?_eq_getElem hk]
    simp
  · intro pre seq p after hspl
    rw [hspl, ← singleton_append, ← append_assoc] at hnum
    have hnow := hnum.append_left
    have hseq := hnow pre.length (seq, p) (by rw [getElem?_concat_length])
    rw [hnow.waiting, hnow.append_left.expected]
    exact ⟨by simp only at hseq; omega, Nat.zero_le _⟩

def noticeText (exit : Bool) : Bytes :=
  (if exit then "\x7b\"method\":\"exit\"\x7d" else "\x7b\"method\":\"initialized\"\x7d").toList.map (·.toNat.toUInt8)

/-- Two notifications as JSON. -/
def noticeJson : JsonCodec Bool where
  toVec exit := .ok (noticeText exit)
  fromSlice text :=
    if text = noticeText true then .ok true
    else if text = noticeText false then .ok false
    else .error "data did not match any variant of untagged enum JSONRPCMessage"
  fromSlice_toVec := by
    rintro exit _ ⟨⟩
    cases exit with
    | true | false => decide +kernel
  fromSlice_nil := by decide +kernel

/-- An ideal cipher for the records `sent`: it opens their ciphertexts and nothing else. -/
def recordCipher (sent : List Bytes) : Cipher where
  sendVec _ p := .ok (p ++ List.replicate tagLen 0)
  receiveVec k c :=
    match sent[k]? with
    | some p => if c = p ++ List.replicate tagLen 0 then .ok p else .error "authentication failed"
    | none => .error "authentication failed"
  length_sendVec := by
    rintro k p c hc
    cases hc
    rw [length_append, length_replicate]

theorem recordCipher_ideal (sent : List Bytes) : Ideal (recordCipher sent) sent := by
  constructor
  · intro k c p hopen
    cases hk : sent[k]? with
    | none => simp [recordCipher, hk] at hopen
    | some r =>
      simp only [recordCipher, hk] at hopen
      split at hopen
      · next hc =>
        cases hopen
        exact ⟨rfl, by rw [hc]; rfl⟩
      · cases hopen
  · intro k c p hk hc
    cases hc
    simp [recordCipher, hk]

/-- **Delivery.**  The messages forwarded are the first of the peer's messages, whatever arrives.
With authentic first copies of all records, within the bounds of the reorder buffer, all of them are
forwarded, or the queue takes no more. -/
theorem receive_delivers (messages : List M) (ideal : Ideal cipher (records json messages)) (instanceId : Nat)
    (events : List StreamEvent) :
    (run json cipher instanceId events).2.forwarded <+: messages ∧
      ∀ w, Writer.writerTask json cipher messages {} = .ok () w →
        FirstCopiesAuthentic w.sent (arrivals events) → (∀ k < w.sent.length, (arrivals events).lookup k ≠ none) →
        WithinBounds (arrivals events) → ((run json cipher instanceId events).1 = none ∧
            (run json cipher instanceId events).2.forwarded = messages) ∨
          ((run json cipher instanceId events).1 = some inboundQueueError ∧
            (run json cipher instanceId events).2.Refuses) := by
  have hafter := after_events json cipher ideal instanceId events
  rw [run]
  cases hrun : events.forM (handle json cipher) ({ instanceId } : NoiseVirtualStream M) with
  | ok _ s =>
    have htracks := hafter.of_ok hrun
    refine ⟨?_, ?_⟩
    · show s.forwarded <+: messages
      rw [htracks.delivered.forwarded]
      exact (List.take_prefix _ _).trans (framable_isPrefix json messages)
    · intro w hw hfirst hall _
      obtain ⟨hframable, hsent⟩ := (Writer.after_writerTask json cipher messages).of_ok hw
      exact .inl ⟨rfl, forwarded_eq_of_tracks json cipher hframable hsent hfirst hall htracks⟩
  | error e s =>
    obtain ⟨hpart, hwhy⟩ := hafter.of_error hrun
    refine ⟨hpart, ?_⟩
    intro w hw hfirst _ hbounds
    obtain ⟨-, hsent⟩ := (Writer.after_writerTask json cipher messages).of_ok hw
    rcases hwhy with ⟨he, hrefuses⟩ | ⟨before, data, after, hsplit, hfault⟩
    · exact .inr ⟨by rw [he], hrefuses⟩
    · exact absurd hfault (not_fault json cipher hsent hfirst hbounds hsplit)

theorem receive_delivers_two_notices :
    ∃ w, Writer.writerTask noticeJson (recordCipher (records noticeJson [false, true])) [false, true] {} = .ok () w ∧
      (((run noticeJson (recordCipher (records noticeJson [false, true])) 0 (w.sent.map .data)).1 = none ∧
          (run noticeJson (recordCipher (records noticeJson [false, true])) 0 (w.sent.map .data)).2.forwarded =
          [false, true]) ∨
        ((run noticeJson (recordCipher (records noticeJson [false, true])) 0 (w.sent.map .data)).1 =
          some inboundQueueError ∧
          (run noticeJson (recordCipher (records noticeJson [false, true])) 0 (w.sent.map .data)).2.Refuses)) := by
  have hdone : ∃ w, Writer.writerTask noticeJson (recordCipher (records noticeJson [false, true]))
      [false, true] {} = .ok () w :=
    ⟨_, rfl⟩
  obtain ⟨w, hw⟩ := hdone
  obtain ⟨-, hsent⟩ :=
    (Writer.after_writerTask noticeJson (recordCipher (records noticeJson [false, true])) [false, true]).of_ok hw
  obtain ⟨hfirst, hall, hbounds⟩ := honest_relay (recordCipher (records noticeJson [false, true])) hsent
  exact ⟨w, hw, (receive_delivers noticeJson (recordCipher (records noticeJson [false, true])) [false, true]
    (recordCipher_ideal _) 0 (w.sent.map .data)).2 w hw hfirst hall hbounds⟩

theorem full_queue_stops_delivery :
    ∃ w, Writer.writerTask noticeJson (recordCipher (records noticeJson (List.replicate 129 false)))
        (List.replicate 129 false) {} = .ok () w ∧
      FirstCopiesAuthentic w.sent (arrivals (w.sent.map .data)) ∧
      (∀ k < w.sent.length, (arrivals (w.sent.map .data)).lookup k ≠ none) ∧
      WithinBounds (arrivals (w.sent.map .data)) ∧
      (run noticeJson (recordCipher (records noticeJson (List.replicate 129 false))) 0 (w.sent.map .data)).1 =
        some inboundQueueError := by
  generalize hcipher : recordCipher (records noticeJson (List.replicate 129 false)) = cipher
  have hrun : ∃ w, Writer.writerTask noticeJson cipher (List.replicate 129 false) {} = .ok () w ∧
      (run noticeJson cipher 0 (w.sent.map .data)).1 = some inboundQueueError := by
    have hcheck : (match Writer.writerTask noticeJson cipher (List.replicate 129 false) {} with
        | .ok _ w => (run noticeJson cipher 0 (w.sent.map .data)).1
        | .error _ _ => none) = some inboundQueueError := by
      rw [← hcipher]
      decide +kernel
    cases hw : Writer.writerTask noticeJson cipher (List.replicate 129 false) {} with
    | ok u w => exact ⟨w, rfl, by simpa only [hw] using hcheck⟩
    | error e w =>
      simp only [hw] at hcheck
      cases hcheck
  obtain ⟨w, hw, hstop⟩ := hrun
  obtain ⟨-, hsent⟩ := (Writer.after_writerTask noticeJson cipher (List.replicate 129 false)).of_ok hw
  obtain ⟨hfirst, hall, hbounds⟩ := honest_relay cipher hsent
  exact ⟨w, hw, hfirst, hall, hbounds, hstop⟩

end NoiseRelay
