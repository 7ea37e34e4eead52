import Codez.RemoteControl.Split

/-!
Outbound envelopes (`remote_control/websocket.rs`: `BoundedOutboundBuffer`, `run_server_writer_inner`,
the acknowledgements of `record_client_message_delivery`).

Envelopes are buffered per stream before they are sent and leave the buffer when they are
acknowledged; a writer that starts again first sends what is buffered.
-/

namespace RemoteControl

def channelCapacity : Nat := 128

def u64Max : Nat := 2 ^ 64 - 1

def usizeMax : Nat := 2 ^ 64 - 1

abbrev StreamKey := ClientId × StreamId

variable {M N C : Type}

def ServerEnvelope.key (envelope : ServerEnvelope M) : StreamKey := (envelope.clientId, envelope.streamId)

def ServerEnvelope.cursor (envelope : ServerEnvelope M) : Nat × Nat :=
  (envelope.seqId, envelope.event.segmentId.getD 0)

def cursorLe (a b : Nat × Nat) : Bool := decide (a.1 < b.1) || (decide (a.1 = b.1) && decide (a.2 ≤ b.2))

structure BoundedOutboundBuffer (M : Type) where
  bufferByStream : AList (fun _ : StreamKey => List (ServerEnvelope M)) := ∅
  used : Nat := 0

namespace BoundedOutboundBuffer

def bufferOf (b : BoundedOutboundBuffer M) (key : StreamKey) : List (ServerEnvelope M) :=
  (b.bufferByStream.lookup key).getD []

def insert (b : BoundedOutboundBuffer M) (envelope : ServerEnvelope M) : BoundedOutboundBuffer M where
  bufferByStream := b.bufferByStream.insert envelope.key (b.bufferOf envelope.key ++ [envelope])
  used := b.used + 1

def ack (b : BoundedOutboundBuffer M) (clientId : ClientId) (streamId : StreamId) (ackedSeqId : Nat)
    (ackedSegmentId : Option Nat) : BoundedOutboundBuffer M :=
  let key := (clientId, streamId)
  match b.bufferByStream.lookup key with
  | none => b
  | some buffer =>
    let ackedCursor := (ackedSeqId, ackedSegmentId.getD usizeMax)
    let kept := buffer.filter fun envelope => !cursorLe envelope.cursor ackedCursor
    { bufferByStream :=
        if kept.isEmpty then b.bufferByStream.erase key else b.bufferByStream.insert key kept
      used := b.used - (buffer.length - kept.length) }

def serverEnvelopes (b : BoundedOutboundBuffer M) (order : List StreamKey) : List (ServerEnvelope M) :=
  order.flatMap b.bufferOf

end BoundedOutboundBuffer

structure QueuedServerEnvelope (M : Type) where
  event : ServerEvent M
  clientId : ClientId
  streamId : StreamId
  /-- the sender of a oneshot channel, which carries no value -/
  writeCompleteTx : Option Unit := none
  segmentId_le : event.segmentId.getD 0 ≤ usizeMax

/-- Where the writer is: sending what was buffered when it started, at its `select!`, with an event that
it took from the channel, or sending the envelopes of that event. -/
inductive Writer (M : Type) where
  | stopped
  | resending (left : List (ServerEnvelope M))
  | selecting (outboundHasCapacity : Bool)
  | received (queued : QueuedServerEnvelope M)
  | sending (left : List (ServerEnvelope M))

structure Outbound (M : Type) where
  buffer : BoundedOutboundBuffer M := {}
  nextSeqIdByStream : AList (fun _ : StreamKey => Nat) := ∅
  writer : Writer M := .stopped

namespace Outbound

/-- `stop` is any end of the writer: shutdown, an error of the connection, an abort. -/
inductive Event (M C : Type) where
  | start (order : List StreamKey)
  | send
  | turn
  | receive (queued : QueuedServerEnvelope M)
  | assign
  | stop
  | deliver (envelope : ClientEnvelope C)

def nextSeqId (s : Outbound M) (key : StreamKey) : Nat := (s.nextSeqIdByStream.lookup key).getD 1

def recordClientMessageDelivery (s : Outbound M) (envelope : ClientEnvelope C) : Outbound M :=
  match envelope.event, envelope.seqId, envelope.streamId with
  | .ack segmentId, some seqId, some streamId =>
    { s with buffer := s.buffer.ack envelope.clientId streamId seqId segmentId }
  | _, _, _ => s

def envelopesOf (host : SplitHost M N) (s : Outbound M) (queued : QueuedServerEnvelope M) :
    Option (List (ServerEnvelope M)) :=
  match splitServerEnvelopeForTransport host
    ⟨queued.event, queued.clientId, queued.streamId, s.nextSeqId (queued.clientId, queued.streamId)⟩ with
  | some (.ok envelopes) => some envelopes
  | _ => none

def assign (host : SplitHost M N) (s : Outbound M) (queued : QueuedServerEnvelope M) : Outbound M :=
  let seqKey := (queued.clientId, queued.streamId)
  let seqId := s.nextSeqId seqKey
  match envelopesOf host s queued with
  | some envelopes =>
    { buffer := envelopes.foldl BoundedOutboundBuffer.insert s.buffer
      nextSeqIdByStream := s.nextSeqIdByStream.insert seqKey (min (seqId + 1) u64Max)
      writer := .sending envelopes }
  | none => { s with nextSeqIdByStream := s.nextSeqIdByStream.insert seqKey seqId, writer := .sending [] }

def turn (s : Outbound M) : Outbound M :=
  { s with writer := .selecting (decide (s.buffer.used < channelCapacity)) }

def step (host : SplitHost M N) (s : Outbound M) : Event M C → Outbound M
  | .start order =>
    match s.writer with
    | .stopped =>
      if order.Perm s.buffer.bufferByStream.keys then
        { s with writer := .resending (s.buffer.serverEnvelopes order) }
      else s
    | _ => s
  | .send =>
    match s.writer with
    | .resending (_ :: left) => { s with writer := .resending left }
    | .sending (_ :: left) => { s with writer := .sending left }
    | _ => s
  | .turn =>
    match s.writer with
    | .resending [] => s.turn
    | .sending [] => s.turn
    | .selecting _ => s.turn
    | _ => s
  | .receive queued =>
    match s.writer with
    | .selecting true => { s with writer := .received queued }
    | _ => s
  | .assign =>
    match s.writer with
    | .received queued => s.assign host queued
    | _ => s
  | .stop => { s with writer := .stopped }
  | .deliver envelope => s.recordClientMessageDelivery envelope

def run (host : SplitHost M N) (events : List (Event M C)) : Outbound M := events.foldl (step host) {}

inductive Happening (M : Type) where
  | assigned (key : StreamKey) (envelopes : List (ServerEnvelope M))
  | acked (key : StreamKey) (seqId : Nat) (segmentId : Option Nat)

def happens (host : SplitHost M N) (s : Outbound M) : Event M C → List (Happening M)
  | .assign =>
    match s.writer with
    | .received queued =>
      match envelopesOf host s queued with
      | some envelopes => [.assigned (queued.clientId, queued.streamId) envelopes]
      | none => []
    | _ => []
  | .deliver envelope =>
    match envelope.event, envelope.seqId, envelope.streamId with
    | .ack segmentId, some seqId, some streamId => [.acked (envelope.clientId, streamId) seqId segmentId]
    | _, _, _ => []
  | _ => []

def sends (s : Outbound M) : Event M C → List (ServerEnvelope M)
  | .send =>
    match s.writer with
    | .resending (envelope :: _) => [envelope]
    | .sending (envelope :: _) => [envelope]
    | _ => []
  | _ => []

def happenings (host : SplitHost M N) (s : Outbound M) (events : List (Event M C)) : List (Happening M) :=
  Run.emit (happens host) (step host) s events

def sent (host : SplitHost M N) (s : Outbound M) (events : List (Event M C)) : List (ServerEnvelope M) :=
  Run.emit sends (step host) s events

namespace Happening

def covers (key : StreamKey) (envelope : ServerEnvelope M) : Happening M → Bool
  | .acked ackedKey seqId segmentId =>
    decide (ackedKey = key) && match segmentId with
      | none => decide (envelope.seqId ≤ seqId)
      | some segmentId => cursorLe envelope.cursor (seqId, segmentId)
  | .assigned _ _ => false

def envelopesFor (key : StreamKey) : Happening M → List (ServerEnvelope M)
  | .assigned assignedKey envelopes => if assignedKey = key then envelopes else []
  | .acked _ _ _ => []

def isEventOf (key : StreamKey) : Happening M → Bool
  | .assigned assignedKey _ => decide (assignedKey = key)
  | .acked _ _ _ => false

end Happening

def assignedTo (key : StreamKey) (history : List (Happening M)) : List (ServerEnvelope M) :=
  history.flatMap (Happening.envelopesFor key)

def unacked (key : StreamKey) : List (Happening M) → List (ServerEnvelope M)
  | [] => []
  | happening :: later =>
    ((happening.envelopesFor key).filter fun envelope => !later.any (Happening.covers key envelope)) ++
      unacked key later

def CursorLt (a b : ServerEnvelope M) : Prop :=
  a.cursor.1 < b.cursor.1 ∨ a.cursor.1 = b.cursor.1 ∧ a.cursor.2 < b.cursor.2

end Outbound

end RemoteControl
