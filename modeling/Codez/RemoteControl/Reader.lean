import Codez.RemoteControl.ClientTracker
import Codez.RemoteControl.Segment

/-!
The reader (`remote_control/websocket.rs`, `run_websocket_reader_inner` and the inbound half of
`WebsocketState`).

One event is one turn of the reader's `select!`, or the end of an outbound task, which may come at
any time.
-/

namespace RemoteControl

abbrev ClientMessageKey := ClientId × Option StreamId

structure WebsocketState where
  subscribeCursor : Option Text := none
  lastCompletedClientChunkSeqIdByStream : AList (fun _ : ClientMessageKey => Nat) := ∅
  clientSegmentReassembler : ClientSegmentReassembler := {}

namespace WebsocketState

variable {M : Type} (host : SegmentHost M)

def clientMessageKey (envelope : ClientEnvelope M) : Option (ClientMessageKey × Nat) :=
  match envelope.event, envelope.seqId with
  | .clientMessageChunk _ _ _ _, some seqId => some ((envelope.clientId, envelope.streamId), seqId)
  | _, _ => none

def alreadyCompleted (w : WebsocketState) (key : Option (ClientMessageKey × Nat)) : Bool :=
  match key with
  | some (key, seqId) =>
    (w.lastCompletedClientChunkSeqIdByStream.lookup key).any fun lastSeqId => decide (seqId ≤ lastSeqId)
  | none => false

def ignoresChunk (w : WebsocketState) (envelope : ClientEnvelope M) : Bool :=
  match clientMessageKey envelope, envelope.streamId, envelope.event with
  | some (_, seqId), some streamId, .clientMessageChunk segmentId _ _ _ =>
    w.clientSegmentReassembler.shouldIgnoreChunk envelope.clientId streamId seqId segmentId
  | _, _, _ => false

def observeClientMessage (w : WebsocketState) (envelope : ClientEnvelope M) (wireSizeBytes now : Nat) :
    ClientSegmentObservation M × WebsocketState :=
  let key := clientMessageKey envelope
  if w.alreadyCompleted key then (.dropped, w)
  else if w.ignoresChunk envelope then (.dropped, w)
  else if key.isSome && decide (remoteControlSegmentMaxBytes < wireSizeBytes) then
    match envelope.streamId with
    | some streamId =>
      (.dropped, { w with
        clientSegmentReassembler := w.clientSegmentReassembler.invalidateStream envelope.clientId streamId })
    | none => (.dropped, w)
  else
    let (observation, reassembler) := w.clientSegmentReassembler.observe host envelope now
    (observation, { w with clientSegmentReassembler := reassembler })

def recordClientMessageDelivery (w : WebsocketState) (envelope : ClientEnvelope M)
    (key : Option (ClientMessageKey × Nat)) : WebsocketState :=
  let w := match envelope.cursor with
    | some cursor => { w with subscribeCursor := some cursor }
    | none => w
  match key with
  | some (key, seqId) =>
    { w with lastCompletedClientChunkSeqIdByStream := w.lastCompletedClientChunkSeqIdByStream.insert key seqId }
  | none => w

def invalidateStream (w : WebsocketState) (clientId : ClientId) (streamId : StreamId) : WebsocketState :=
  { w with
    clientSegmentReassembler := w.clientSegmentReassembler.invalidateStream clientId streamId
    lastCompletedClientChunkSeqIdByStream := w.lastCompletedClientChunkSeqIdByStream.erase (clientId, some streamId) }

def invalidateClient (w : WebsocketState) (clientId : ClientId) : WebsocketState :=
  { w with
    clientSegmentReassembler := w.clientSegmentReassembler.invalidateClient clientId
    lastCompletedClientChunkSeqIdByStream :=
      (w.lastCompletedClientChunkSeqIdByStream.keys.filter fun key => decide (key.1 = clientId)).foldl
        (fun t key => t.erase key) w.lastCompletedClientChunkSeqIdByStream }

end WebsocketState

structure Reader where
  tracker : ClientTracker := {}
  websocket : WebsocketState := {}

namespace Reader

variable {M : Type} (host : SegmentHost M) (startsConnection : M → Bool)

inductive Event (M : Type) where
  | inbound (envelope : ClientEnvelope M) (wireSizeBytes : Nat) (c : Circumstances)
  | taskEnds (connectionId : Nat)
  | taskJoined (task : OutboundTask) (close : Delivery)
  | taskJoinFailed (task : OutboundTask)
  | sweep (now : Nat) (order : List ClientKey) (close : ClientKey → Delivery)
  | shutdown (order : List ClientKey)

def afterMessage (w : WebsocketState) (envelope : ClientEnvelope M) (key : Option (ClientMessageKey × Nat)) :
    WebsocketState :=
  let w := w.recordClientMessageDelivery envelope key
  match envelope.event, envelope.streamId with
  | .clientClosed, some streamId => w.invalidateStream envelope.clientId streamId
  | .clientClosed, none => w.invalidateClient envelope.clientId
  | _, _ => w

def handle (r : Reader) : Event M → Reader × List Happening
  | .inbound envelope wireSizeBytes c =>
    match r.websocket.observeClientMessage host envelope wireSizeBytes c.now with
    | (.forward forwarded, websocket) =>
      let handled := r.tracker.handleMessage startsConnection forwarded c
      (⟨handled.tracker,
        if handled.ok then afterMessage websocket forwarded (WebsocketState.clientMessageKey envelope) else websocket⟩,
        handled.log)
    | (_, websocket) => ({ r with websocket }, [])
  | .taskEnds connectionId =>
    let (tracker, log) := r.tracker.endTask connectionId
    ({ r with tracker }, log)
  | .taskJoined task close =>
    if task ∈ r.tracker.ended then
      let (tracker, log) := r.tracker.joinTask task
      (⟨tracker, if close = .sent then r.websocket.invalidateStream task.key.1 task.key.2 else r.websocket⟩, log)
    else (r, [])
  | .taskJoinFailed task => ({ r with tracker := r.tracker.dropTask task }, [])
  | .sweep now order close =>
    let keys := r.tracker.expired now order
    let handled := r.tracker.closeExpired close keys
    (⟨handled.tracker,
      if handled.ok then keys.foldl (fun w key => w.invalidateStream key.1 key.2) r.websocket else r.websocket⟩,
      handled.log)
  | .shutdown order =>
    let (tracker, log) := r.tracker.shutdown order
    ({ r with tracker }, log)

def step (r : Reader) (event : Event M) : Reader := (handle host startsConnection r event).1

def log (events : List (Event M)) : List Happening :=
  Run.emit (fun r event => (handle host startsConnection r event).2) (step host startsConnection) {} events

def run (events : List (Event M)) : Reader := events.foldl (step host startsConnection) {}

end Reader

end RemoteControl
