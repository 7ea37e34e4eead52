import Codez.RemoteControl.Outbound

/-!
What the outbound buffers hold (`unacknowledged_kept_exactly`).

A history of assigned events and acknowledgements says which envelopes of a stream are still
unacknowledged (`unacked`).
-/

namespace RemoteControl

open List

variable {M N C : Type}

open Table

namespace BoundedOutboundBuffer

def Balanced (b : BoundedOutboundBuffer M) : Prop := b.used = Table.total b.bufferByStream List.length

theorem bufferOf_insert (b : BoundedOutboundBuffer M) (envelope : ServerEnvelope M) (key : StreamKey) :
    (b.insert envelope).bufferOf key =
      if key = envelope.key then b.bufferOf key ++ [envelope] else b.bufferOf key := by
  show ((b.bufferByStream.insert envelope.key (b.bufferOf envelope.key ++ [envelope])).lookup key).getD [] = _
  rw [lookup_insert]
  by_cases h : key = envelope.key
  · rw [if_pos h, if_pos h, h]
    rfl
  · rw [if_neg h, if_neg h]
    rfl

theorem length_bufferOf_add_total_erase (b : BoundedOutboundBuffer M) (key : StreamKey) :
    (b.bufferOf key).length + total (b.bufferByStream.erase key) List.length =
      total b.bufferByStream List.length := by
  cases hlk : b.bufferByStream.lookup key with
  | none =>
    rw [bufferOf, hlk, total_erase_of_lookup_none _ _ hlk]
    exact Nat.zero_add _
  | some buffer =>
    rw [bufferOf, hlk]
    exact total_erase_of_lookup _ _ hlk

variable {b : BoundedOutboundBuffer M}

theorem Balanced.insert (h : b.Balanced) (envelope : ServerEnvelope M) : (b.insert envelope).Balanced := by
  have hold := length_bufferOf_add_total_erase b envelope.key
  show b.used + 1 = total (b.bufferByStream.insert envelope.key (b.bufferOf envelope.key ++ [envelope])) List.length
  rw [h, total_insert, length_append, length_singleton]
  omega

theorem foldl_insert {key : StreamKey} (envelopes : List (ServerEnvelope M)) (b : BoundedOutboundBuffer M)
    (hkey : ∀ envelope ∈ envelopes, envelope.key = key) :
    (∀ k, (envelopes.foldl insert b).bufferOf k = if k = key then b.bufferOf k ++ envelopes else b.bufferOf k) ∧
      (envelopes.foldl insert b).used = b.used + envelopes.length ∧
      (b.Balanced → (envelopes.foldl insert b).Balanced) := by
  induction envelopes generalizing b with
  | nil => simp
  | cons envelope envelopes ih =>
    obtain ⟨hbuf, hused, hbalanced⟩ := ih (b.insert envelope) (forall_mem_cons.mp hkey).2
    have hself : envelope.key = key := hkey envelope mem_cons_self
    refine ⟨?_, ?_, fun h => hbalanced (h.insert envelope)⟩
    · intro k
      rw [foldl_cons, hbuf, bufferOf_insert, hself]
      by_cases h : k = key
      · simp [h]
      · simp [h]
    · rw [foldl_cons, hused, length_cons]
      show b.used + 1 + envelopes.length = _
      omega

theorem bufferOf_ack (b : BoundedOutboundBuffer M) (c : ClientId) (s : StreamId) (seqId : Nat)
    (segmentId : Option Nat) (key : StreamKey) :
    (b.ack c s seqId segmentId).bufferOf key = if key = (c, s) then
        (b.bufferOf key).filter fun envelope => !cursorLe envelope.cursor (seqId, segmentId.getD usizeMax)
      else b.bufferOf key := by
  rw [ack]
  cases hlk : b.bufferByStream.lookup (c, s) with
  | none =>
    by_cases h : key = (c, s)
    · subst h
      have hnil : b.bufferOf (c, s) = [] := by rw [bufferOf, hlk]; rfl
      rw [if_pos rfl, hnil]
      rfl
    · rw [if_neg h]
  | some buffer =>
    have hbuf : b.bufferOf (c, s) = buffer := by rw [bufferOf, hlk]; rfl
    generalize hkept : buffer.filter (fun envelope => !cursorLe envelope.cursor (seqId, segmentId.getD usizeMax)) = kept
    simp only [hkept]
    have hlookup' : ((if kept.isEmpty = true then b.bufferByStream.erase (c, s)
        else b.bufferByStream.insert (c, s) kept).lookup key).getD [] =
        if key = (c, s) then kept else b.bufferOf key := by
      by_cases hemp : kept.isEmpty = true
      · rw [if_pos hemp, lookup_erase, List.isEmpty_iff.mp hemp]
        split <;> rfl
      · rw [if_neg hemp, lookup_insert]
        split <;> rfl
    refine hlookup'.trans ?_
    by_cases h : key = (c, s)
    · subst h
      rw [if_pos rfl, if_pos rfl, hbuf, hkept]
    · rw [if_neg h, if_neg h]

theorem used_ack_le (b : BoundedOutboundBuffer M) (c : ClientId) (s : StreamId) (seqId : Nat)
    (segmentId : Option Nat) : (b.ack c s seqId segmentId).used ≤ b.used := by
  rw [ack]
  cases b.bufferByStream.lookup (c, s) with
  | none => exact le_rfl
  | some buffer => exact Nat.sub_le _ _

theorem Balanced.ack (h : b.Balanced) (c : ClientId) (s : StreamId) (seqId : Nat) (segmentId : Option Nat) :
    (b.ack c s seqId segmentId).Balanced := by
  rw [BoundedOutboundBuffer.ack]
  cases hl : b.bufferByStream.lookup (c, s) with
  | none => exact h
  | some buffer =>
    have hold := Table.total_erase_of_lookup b.bufferByStream List.length hl
    have hused : b.used = Table.total b.bufferByStream List.length := h
    generalize hkept : buffer.filter (fun envelope => !cursorLe envelope.cursor (seqId, segmentId.getD usizeMax)) = kept
    have hle : kept.length ≤ buffer.length := by
      rw [← hkept]
      exact length_filter_le _ _
    by_cases hnil : kept.isEmpty = true
    · have hzero : kept.length = 0 := length_eq_zero_iff.mpr (List.isEmpty_iff.mp hnil)
      simp only [hkept, if_pos hnil]
      show b.used - (buffer.length - kept.length) = Table.total (b.bufferByStream.erase (c, s)) List.length
      omega
    · simp only [hkept, if_neg hnil]
      show b.used - (buffer.length - kept.length) =
        Table.total (b.bufferByStream.insert (c, s) kept) List.length
      rw [Table.total_insert]
      omega

end BoundedOutboundBuffer

def Writer.mayAssign : Writer M → Bool
  | .selecting outboundHasCapacity => outboundHasCapacity
  | .received _ => true
  | _ => false

def Writer.pending : Writer M → List (ServerEnvelope M)
  | .resending left => left
  | .sending left => left
  | _ => []

namespace Outbound

variable (key : StreamKey) {history happened : List (Happening M)} {s s' : Outbound M}
  {envelopes out : List (ServerEnvelope M)} {host : SplitHost M N} {event : Event M C} {order : List StreamKey}

theorem unacked_snoc (history : List (Happening M)) (last : Happening M) :
    unacked key (history ++ [last]) =
      ((unacked key history).filter fun envelope => !last.covers key envelope) ++ last.envelopesFor key := by
  induction history with
  | nil => simp [unacked]
  | cons happening history ih =>
    rw [cons_append, unacked, unacked, ih, filter_append, filter_filter, ← append_assoc]
    congr 2
    apply filter_congr
    intro envelope _
    rw [any_append, any_cons, any_nil, Bool.or_false, Bool.not_or, Bool.and_comm]

theorem unacked_sublist (history : List (Happening M)) :
    (unacked key history).Sublist (assignedTo key history) := by
  induction history with
  | nil => exact List.Sublist.refl _
  | cons happening history ih =>
    rw [unacked, assignedTo, flatMap_cons]
    exact List.Sublist.append filter_sublist ih

theorem assignedTo_snoc (history : List (Happening M)) (last : Happening M) :
    assignedTo key (history ++ [last]) = assignedTo key history ++ last.envelopesFor key := by
  simp [assignedTo]

theorem unacked_assigned (key k : StreamKey) (history : List (Happening M)) (envelopes : List (ServerEnvelope M)) :
    unacked key (history ++ [.assigned k envelopes]) = unacked key history ++ if k = key then envelopes else [] := by
  have hall : ((unacked key history).filter fun envelope => !(Happening.assigned k envelopes).covers key envelope) =
      unacked key history := filter_eq_self.mpr fun _ _ => rfl
  rw [unacked_snoc, hall, Happening.envelopesFor]

theorem countP_snoc (history : List (Happening M)) (last : Happening M) :
    (history ++ [last]).countP (Happening.isEventOf key) =
      history.countP (Happening.isEventOf key) + if last.isEventOf key = true then 1 else 0 := by
  rw [countP_append, countP_singleton]

theorem pairwise_zipIdx {α : Type} (xs : List α) : xs.zipIdx.Pairwise fun a b => a.2 < b.2 := by
  have h : (xs.zipIdx.map Prod.snd).Pairwise (· < ·) := by
    rw [zipIdx_map_snd]
    exact pairwise_lt_range'
  exact pairwise_map.mp h

theorem envelopesOf_spec (host : SplitHost M N) (s : Outbound M) (qs : QueuedServerEnvelope M) :
    ∃ envelopes, envelopesOf host s qs = some envelopes ∧ envelopes.length ≤ remoteControlSegmentCountMax ∧
      envelopes.Pairwise CursorLt ∧
      ∀ envelope ∈ envelopes, envelope.key = (qs.clientId, qs.streamId) ∧
        envelope.seqId = s.nextSeqId (qs.clientId, qs.streamId) ∧ envelope.cursor.2 ≤ usizeMax := by
  obtain ⟨out, hout, hres⟩ := split_spec host
    ⟨qs.event, qs.clientId, qs.streamId, s.nextSeqId (qs.clientId, qs.streamId)⟩
  refine ⟨out, by rw [envelopesOf, hout], ?_⟩
  rcases hres with rfl | rfl | ⟨message, parts, -, -, hspl, -⟩
  · refine ⟨by show 1 ≤ 1024; omega, pairwise_singleton _ _, ?_⟩
    intro envelope hmem
    rw [mem_singleton.mp hmem]
    exact ⟨rfl, rfl, qs.segmentId_le⟩
  · exact ⟨Nat.zero_le _, List.Pairwise.nil, by intro _ h; cases h⟩
  · rw [hspl.out_eq]
    refine ⟨by rw [length_map, length_zipIdx]; exact hspl.length_le, ?_, ?_⟩
    · rw [pairwise_map]
      exact (pairwise_zipIdx parts).imp fun h => .inr ⟨rfl, h⟩
    · intro envelope hmem
      obtain ⟨⟨part, i⟩, hpart, rfl⟩ := mem_map.mp hmem
      refine ⟨rfl, rfl, ?_⟩
      have hi : i < parts.length := by simpa using (mem_zipIdx hpart).2.1
      have hmax : remoteControlSegmentCountMax ≤ usizeMax := by decide
      show i ≤ usizeMax
      exact hi.le.trans (hspl.length_le.trans hmax)

/-! ## States against histories -/

structure Kept (history : List (Happening M)) (s : Outbound M) : Prop where
  buffer : ∀ key, s.buffer.bufferOf key = unacked key history
  sorted : ∀ key, (assignedTo key history).Pairwise CursorLt
  below : ∀ key, ∀ envelope ∈ assignedTo key history,
    envelope.key = key ∧ envelope.seqId < s.nextSeqId key ∧ envelope.cursor.2 ≤ usizeMax
  next : ∀ key, s.nextSeqId key = history.countP (Happening.isEventOf key) + 1
  balanced : s.buffer.Balanced
  used_le : s.buffer.used ≤ channelCapacity + remoteControlSegmentCountMax - 1
  room : s.writer.mayAssign = true → s.buffer.used < channelCapacity

theorem Kept.withWriter (h : Kept history s) (writer : Writer M)
    (hroom : writer.mayAssign = true → s.buffer.used < channelCapacity) : Kept history { s with writer } :=
  ⟨h.buffer, h.sorted, h.below, h.next, h.balanced, h.used_le, hroom⟩

theorem Kept.turn (h : Kept history s) : Kept history s.turn :=
  h.withWriter _ fun hcapacity => of_decide_eq_true hcapacity

theorem covers_acked (seqId : Nat) (segmentId : Option Nat) {envelope : ServerEnvelope M}
    (h : envelope.cursor.2 ≤ usizeMax) :
    (Happening.acked key seqId segmentId).covers key envelope =
      cursorLe envelope.cursor (seqId, segmentId.getD usizeMax) := by
  cases segmentId with
  | some segmentId => simp [Happening.covers]
  | none =>
    show (decide (key = key) && decide (envelope.seqId ≤ seqId)) = cursorLe envelope.cursor (seqId, usizeMax)
    have hiff : envelope.seqId ≤ seqId ↔
        envelope.cursor.1 < seqId ∨ envelope.cursor.1 = seqId ∧ envelope.cursor.2 ≤ usizeMax := by
      have hseq : envelope.cursor.1 = envelope.seqId := rfl
      omega
    rw [Bool.eq_iff_iff]
    simpa [cursorLe] using hiff

theorem Kept.acked (h : Kept history s) (c : ClientId) (sid : StreamId) (seqId : Nat)
    (segmentId : Option Nat) :
    Kept (history ++ [.acked (c, sid) seqId segmentId])
      { s with buffer := s.buffer.ack c sid seqId segmentId } := by
  have hused := BoundedOutboundBuffer.used_ack_le s.buffer c sid seqId segmentId
  have hassigned : ∀ key, assignedTo key (history ++ [.acked (c, sid) seqId segmentId]) =
      assignedTo key history := by
    intro key
    rw [assignedTo_snoc]
    exact append_nil _
  refine ⟨?_, ?_, ?_, ?_, h.balanced.ack _ _ _ _, hused.trans h.used_le, fun hmay => hused.trans_lt (h.room hmay)⟩
  · intro key
    show (s.buffer.ack c sid seqId segmentId).bufferOf key = _
    rw [BoundedOutboundBuffer.bufferOf_ack, unacked_snoc, h.buffer key]
    show _ = _ ++ []
    rw [append_nil]
    by_cases hkey : key = (c, sid)
    · subst hkey
      rw [if_pos rfl]
      apply filter_congr
      intro envelope hmem
      rw [covers_acked _ _ _ (h.below _ envelope ((unacked_sublist _ _).subset hmem)).2.2]
    · rw [if_neg hkey]
      symm
      apply filter_eq_self.mpr
      intro envelope _
      simp [Happening.covers, Ne.symm hkey]
  · intro key
    rw [hassigned]
    exact h.sorted key
  · intro key
    rw [hassigned]
    exact h.below key
  · intro key
    rw [countP_snoc]
    exact h.next key

theorem nextSeqId_assign (key k : StreamKey) (seqId : Nat) (buffer : BoundedOutboundBuffer M) (writer : Writer M) :
    nextSeqId ⟨buffer, s.nextSeqIdByStream.insert key seqId, writer⟩ k = if k = key then seqId else s.nextSeqId k := by
  rw [nextSeqId, lookup_insert]
  split <;> rfl

theorem Kept.assign (host : SplitHost M N) (h : Kept history s) (qs : QueuedServerEnvelope M)
    (hroom : s.buffer.used < channelCapacity) (henvs : envelopesOf host s qs = some envelopes)
    (hfew : s.nextSeqId (qs.clientId, qs.streamId) < u64Max) :
    Kept (history ++ [.assigned (qs.clientId, qs.streamId) envelopes]) (s.assign host qs) := by
  obtain ⟨out, hout, hlen, hsort, hfacts⟩ := envelopesOf_spec host s qs
  obtain rfl : out = envelopes := Option.some.inj (hout.symm.trans henvs)
  obtain ⟨hbuf, hused, hbalanced⟩ :=
    BoundedOutboundBuffer.foldl_insert out s.buffer fun envelope hmem => (hfacts envelope hmem).1
  have hnext : min (s.nextSeqId (qs.clientId, qs.streamId) + 1) u64Max =
      s.nextSeqId (qs.clientId, qs.streamId) + 1 := min_eq_left hfew
  have hassign : s.assign host qs = ⟨out.foldl BoundedOutboundBuffer.insert s.buffer,
      s.nextSeqIdByStream.insert (qs.clientId, qs.streamId)
        (s.nextSeqId (qs.clientId, qs.streamId) + 1), .sending out⟩ := by
    simp only [Outbound.assign, hout, hnext]
  rw [hassign]
  refine ⟨?_, ?_, ?_, ?_, hbalanced h.balanced, ?_, by intro hmay; cases hmay⟩
  · intro key
    show (out.foldl BoundedOutboundBuffer.insert s.buffer).bufferOf key = _
    rw [hbuf key, unacked_assigned, h.buffer key]
    by_cases hkey : key = (qs.clientId, qs.streamId)
    · rw [if_pos hkey, if_pos hkey.symm]
    · rw [if_neg hkey, if_neg (Ne.symm hkey), append_nil]
  · intro key
    rw [assignedTo_snoc, Happening.envelopesFor]
    by_cases hkey : (qs.clientId, qs.streamId) = key
    · subst hkey
      rw [if_pos rfl, pairwise_append]
      refine ⟨h.sorted _, hsort, ?_⟩
      intro a ha b hb
      left
      show a.seqId < b.seqId
      rw [(hfacts b hb).2.1]
      exact (h.below _ a ha).2.1
    · rw [if_neg hkey, append_nil]
      exact h.sorted key
  · intro key envelope hmem
    rw [nextSeqId_assign]
    rw [assignedTo_snoc, Happening.envelopesFor, mem_append] at hmem
    rcases hmem with hmem | hmem
    · obtain ⟨hkey, hseq, hseg⟩ := h.below key envelope hmem
      refine ⟨hkey, ?_, hseg⟩
      split
      · next heq => rw [← heq]; omega
      · exact hseq
    · by_cases hkey : (qs.clientId, qs.streamId) = key
      · rw [if_pos hkey] at hmem
        obtain ⟨hself, hseq, hseg⟩ := hfacts envelope hmem
        refine ⟨hself.trans hkey, ?_, hseg⟩
        rw [if_pos hkey.symm, hseq]
        exact Nat.lt_succ_self _
      · rw [if_neg hkey] at hmem
        cases hmem
  · intro key
    rw [nextSeqId_assign, countP_snoc, Happening.isEventOf]
    by_cases hkey : key = (qs.clientId, qs.streamId)
    · subst hkey
      rw [if_pos rfl, h.next, if_pos (decide_eq_true rfl)]
    · rw [if_neg hkey, h.next, if_neg (by simpa using Ne.symm hkey)]
  · show (out.foldl BoundedOutboundBuffer.insert s.buffer).used ≤ _
    rw [hused]
    omega

inductive Move (host : SplitHost M N) (s : Outbound M) (event : Event M C) :
    List (Happening M) → List (ServerEnvelope M) → Outbound M → Prop
  | idle : Move host s event [] [] s
  | start (order : List StreamKey) (hstopped : s.writer = .stopped)
    (hperm : order.Perm s.buffer.bufferByStream.keys) :
    Move host s event [] [] { s with writer := .resending (s.buffer.serverEnvelopes order) }
  | stop (hevent : event = .stop) : Move host s event [] [] { s with writer := .stopped }
  | send (envelope : ServerEnvelope M) (writer : Writer M) (hpending : s.writer.pending = envelope :: writer.pending)
    (hmay : writer.mayAssign = false) (hrunning : writer ≠ .stopped) :
    Move host s event [] [envelope] { s with writer }
  | turn (hpending : s.writer.pending = []) (hrunning : s.writer ≠ .stopped) : Move host s event [] [] s.turn
  | receive (queued : QueuedServerEnvelope M) (hselecting : s.writer = .selecting true) :
    Move host s event [] [] { s with writer := .received queued }
  | assign (queued : QueuedServerEnvelope M) (envelopes : List (ServerEnvelope M))
    (hreceived : s.writer = .received queued)
    (henvelopes : envelopesOf host s queued = some envelopes) :
    Move host s event [.assigned (queued.clientId, queued.streamId) envelopes] [] (s.assign host queued)
  | acked (clientId : ClientId) (streamId : StreamId) (seqId : Nat) (segmentId : Option Nat) :
    Move host s event [.acked (clientId, streamId) seqId segmentId] []
      { s with buffer := s.buffer.ack clientId streamId seqId segmentId }

theorem step_move (host : SplitHost M N) (s : Outbound M) (event : Event M C) :
    Move host s event (happens host s event) (sends s event) (s.step host event) := by
  obtain ⟨buffer, nextSeqIdByStream, writer⟩ := s
  cases event with
  | start order =>
    cases writer with
    | stopped =>
      by_cases hperm : order.Perm buffer.bufferByStream.keys
      · simp only [step, if_pos hperm]
        exact .start order rfl hperm
      · simp only [step, if_neg hperm]
        exact .idle
    | _ => exact .idle
  | send =>
    cases writer with
    | resending left =>
      cases left with
      | nil => exact .idle
      | cons envelope left => exact .send envelope (.resending left) rfl rfl (by intro h; cases h)
    | sending left =>
      cases left with
      | nil => exact .idle
      | cons envelope left => exact .send envelope (.sending left) rfl rfl (by intro h; cases h)
    | _ => exact .idle
  | turn =>
    cases writer with
    | resending left | sending left =>
      cases left with
      | nil => exact .turn rfl (by intro h; cases h)
      | cons envelope left => exact .idle
    | selecting outboundHasCapacity => exact .turn rfl (by intro h; cases h)
    | stopped => exact .idle
    | received qs => exact .idle
  | receive qs =>
    cases writer with
    | selecting outboundHasCapacity =>
      cases outboundHasCapacity with
      | false => exact .idle
      | true => exact .receive qs rfl
    | _ => exact .idle
  | assign =>
    cases writer with
    | received qs =>
      obtain ⟨envelopes, henvs, -⟩ := envelopesOf_spec host ⟨buffer, nextSeqIdByStream, .received qs⟩ qs
      simp only [happens, henvs]
      exact .assign qs envelopes rfl henvs
    | _ => exact .idle
  | stop => exact .stop rfl
  | deliver envelope =>
    obtain ⟨event, clientId, streamId, seqId, cursor⟩ := envelope
    cases event with
    | ack segmentId =>
      cases seqId with
      | none => exact .idle
      | some seqId =>
        cases streamId with
        | none => exact .idle
        | some streamId => exact .acked clientId streamId seqId segmentId
    | _ => exact .idle

theorem Kept.move (h : Kept history s) (hmv : Move host s event happened out s')
    (hfew : ∀ key, (history ++ happened).countP (Happening.isEventOf key) < u64Max) :
    Kept (history ++ happened) s' := by
  cases hmv with
  | idle => rwa [append_nil]
  | start order | stop =>
    rw [append_nil]
    exact h.withWriter _ (by intro hmay; cases hmay)
  | send envelope writer _ hidle =>
    rw [append_nil]
    exact h.withWriter writer (by intro hmay; rw [hidle] at hmay; cases hmay)
  | turn =>
    rw [append_nil]
    exact h.turn
  | receive qs hselecting =>
    rw [append_nil]
    exact h.withWriter _ fun _ => h.room (by rw [hselecting]; rfl)
  | assign qs envelopes hrec henvs =>
    apply Kept.assign host h qs (h.room (by rw [hrec]; rfl)) henvs
    have hcnt := hfew (qs.clientId, qs.streamId)
    rw [countP_snoc, Happening.isEventOf, if_pos (decide_eq_true rfl)] at hcnt
    rw [h.next]
    exact hcnt
  | acked c sid seqId segmentId => exact h.acked c sid seqId segmentId

theorem kept_run (host : SplitHost M N) (es : List (Event M C))
    (hfew : ∀ key, (happenings host {} es).countP (Happening.isEventOf key) < u64Max) :
    Kept (happenings host {} es) (run host es) := by
  induction es using reverseRecOn with
  | nil =>
    refine ⟨fun _ => rfl, fun _ => List.Pairwise.nil, ?_, fun _ => rfl, rfl, Nat.zero_le _, by intro h; cases h⟩
    intro _ _ h
    cases h
  | append_singleton es event ih =>
    rw [happenings, Run.emit_snoc] at hfew ⊢
    rw [run, foldl_concat]
    apply Kept.move (ih _) (step_move host _ event) hfew
    intro key
    have hcnt := hfew key
    rw [countP_append] at hcnt
    exact Nat.lt_of_le_of_lt (Nat.le_add_right _ _) hcnt

/-! ## One writer -/

def assignedAll (history : List (Happening M)) : List (ServerEnvelope M) :=
  history.flatMap fun
    | .assigned _ envelopes => envelopes
    | .acked _ _ _ => []

theorem Move.sent_append_pending (hmv : Move host s event happened out s') (hr : s.writer ≠ .stopped)
    (hev : event ≠ .stop) :
    out ++ s'.writer.pending = s.writer.pending ++ assignedAll happened ∧ s'.writer ≠ .stopped := by
  cases hmv with
  | idle | acked c sid seqId segmentId => exact ⟨by simp [assignedAll], hr⟩
  | start order hstopped => exact absurd hstopped hr
  | stop hstop => exact absurd hstop hev
  | send envelope writer hpend _ hrun => exact ⟨by simp [assignedAll, hpend], hrun⟩
  | turn hpend => exact ⟨by rw [hpend]; rfl, by intro h; cases h⟩
  | receive qs hselecting =>
    exact ⟨by simp [assignedAll, hselecting, Writer.pending], by intro h; cases h⟩
  | assign qs envelopes hrec henvs =>
    have hwriter : (s.assign host qs).writer = .sending envelopes := by
      simp only [Outbound.assign, henvs]
    rw [hwriter, hrec]
    exact ⟨by simp [assignedAll, Writer.pending], by intro h; cases h⟩

theorem sent_append_pending (host : SplitHost M N) (es : List (Event M C)) (hrun : s.writer ≠ .stopped)
    (hevents : ∀ event ∈ es, event ≠ .stop) :
    sent host s es ++ (es.foldl (step host) s).writer.pending =
      s.writer.pending ++ assignedAll (happenings host s es) := by
  induction es generalizing s with
  | nil => simp [sent, happenings, Run.emit, assignedAll]
  | cons event es ih =>
    obtain ⟨hone, hrunning'⟩ := (step_move host s event).sent_append_pending hrun (hevents event mem_cons_self)
    have hr := ih hrunning' (forall_mem_cons.mp hevents).2
    rw [sent, Run.emit, happenings, Run.emit, foldl_cons, append_assoc]
    rw [sent, happenings] at hr
    rw [hr, ← append_assoc, hone, append_assoc]
    simp [assignedAll]

theorem filter_key {k : StreamKey} (h : ∀ envelope ∈ envelopes, envelope.key = k) (key : StreamKey) :
    envelopes.filter (fun envelope => decide (envelope.key = key)) = if k = key then envelopes else [] := by
  split
  · next hk => exact filter_eq_self.mpr fun e he => decide_eq_true ((h e he).trans hk)
  · next hk =>
    refine filter_eq_nil_iff.mpr fun e he heq => hk ?_
    exact (h e he).symm.trans (of_decide_eq_true heq)

theorem Move.filter_assignedAll (hmv : Move host s event happened out s') (key : StreamKey) :
    (assignedAll happened).filter (fun envelope => decide (envelope.key = key)) = assignedTo key happened := by
  cases hmv with
  | assign qs envelopes _ henvs =>
    obtain ⟨out, hout, -, -, hfacts⟩ := envelopesOf_spec host s qs
    obtain rfl : out = envelopes := Option.some.inj (hout.symm.trans henvs)
    simp only [assignedAll, assignedTo, flatMap_cons, flatMap_nil, append_nil, Happening.envelopesFor]
    exact filter_key (fun e he => (hfacts e he).1) key
  | _ => rfl

theorem filter_assignedAll (host : SplitHost M N) (s : Outbound M) (es : List (Event M C)) (key : StreamKey) :
    (assignedAll (happenings host s es)).filter (fun envelope => decide (envelope.key = key)) =
      assignedTo key (happenings host s es) := by
  induction es generalizing s with
  | nil => rfl
  | cons event es ih =>
    have hh := (step_move host s event).filter_assignedAll key
    have htail := ih (s.step host event)
    rw [happenings] at htail
    rw [happenings, Run.emit, assignedAll, assignedTo, flatMap_append, flatMap_append, filter_append]
    exact congrArg₂ (· ++ ·) hh htail

theorem flatMap_ite_eq {α : Type} (h : order.Nodup) (key : StreamKey) (l : List α) :
    order.flatMap (fun k => if k = key then l else []) = if key ∈ order then l else [] := by
  induction order with
  | nil => simp
  | cons k order ih =>
    obtain ⟨hk, hnd⟩ := nodup_cons.mp h
    rw [flatMap_cons, ih hnd]
    by_cases heq : k = key
    · subst heq
      simp [hk]
    · simp [heq, Ne.symm heq]

theorem filter_serverEnvelopes (h : Kept history s) (hperm : order.Perm s.buffer.bufferByStream.keys)
    (key : StreamKey) :
    (s.buffer.serverEnvelopes order).filter (fun envelope => decide (envelope.key = key)) = s.buffer.bufferOf key := by
  have hpart : ∀ k, (s.buffer.bufferOf k).filter (fun envelope => decide (envelope.key = key)) =
      if k = key then s.buffer.bufferOf key else [] := by
    intro k
    rw [filter_key (k := k)]
    · split
      · next hk => rw [hk]
      · rfl
    · intro envelope hmem
      rw [h.buffer k] at hmem
      exact (h.below k envelope ((unacked_sublist _ _).subset hmem)).1
  have hnd : order.Nodup := hperm.nodup_iff.mpr s.buffer.bufferByStream.nodupKeys
  rw [BoundedOutboundBuffer.serverEnvelopes, filter_flatMap]
  simp only [hpart]
  rw [flatMap_ite_eq hnd]
  split
  · rfl
  · next hkey =>
    have hnot : key ∉ s.buffer.bufferByStream := fun hin => hkey (hperm.mem_iff.mpr (AList.mem_keys.mp hin))
    rw [BoundedOutboundBuffer.bufferOf, AList.lookup_eq_none.mpr hnot]
    rfl

/-! ## The run -/

/-- Two pongs of which the first is acknowledged, and then a new connection. -/
def restartEvents : List (Event Nat Nat) :=
  [.start [], .turn, .receive ⟨.pong .active, ['c'], ['s'], none, Nat.zero_le _⟩, .assign, .send, .turn,
    .receive ⟨.pong .unknown, ['c'], ['s'], none, Nat.zero_le _⟩, .assign,
    .deliver ⟨.ack none, ['c'], some ['s'], some 1, none⟩, .stop, .start [(['c'], ['s'])], .send]

end Outbound

end RemoteControl
