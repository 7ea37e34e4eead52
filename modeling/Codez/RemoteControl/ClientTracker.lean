import Codez.Lib.Table
import Codez.RemoteControl.Protocol

/-!
The clients of the remote control (`remote_control/client_tracker.rs`).

A client is known by its `(client_id, stream_id)`; each initialize message opens a connection with
an id of its own and spawns an outbound task for it.
-/

namespace RemoteControl

abbrev ClientKey := ClientId × StreamId

def remoteControlClientIdleTimeout : Nat := 10 * 60

structure ClientState where
  connectionId : Nat
  lastActivityAt : Nat
  lastInboundSeqId : Option Nat

structure OutboundTask where
  key : ClientKey
  connectionId : Nat
deriving DecidableEq

structure ClientTracker where
  clients : AList (fun _ : ClientKey => ClientState) := ∅
  legacyStreamIds : AList (fun _ : ClientId => StreamId) := ∅
  running : List OutboundTask := []
  ended : List OutboundTask := []
  nextConnectionId : Nat := 0

inductive Delivery where
  | sent
  | failed
  | aborted
deriving DecidableEq

inductive Happening where
  | opened (connectionId : Nat) (key : ClientKey)
  | closed (connectionId : Nat)
  | initialized (key : ClientKey)
  | clientClosed (key : ClientKey)
  | idle (connectionId : Nat)
  | taskEnded (connectionId : Nat)
  | forwardFailed (connectionId : Nat)
  | shutdown
deriving DecidableEq

structure Handled where
  tracker : ClientTracker
  log : List Happening
  ok : Bool

/-- What a message meets.  `skipped` connection ids went to other transports. -/
structure Circumstances where
  now : Nat
  randomStreamId : StreamId
  skipped : Nat
  close : Delivery
  connectionOpened : Delivery
  incomingMessage : Delivery

namespace ClientTracker

def removeClient (t : ClientTracker) (key : ClientKey) : ClientTracker :=
  match t.clients.lookup key with
  | none => t
  | some _ =>
    { t with
      clients := t.clients.erase key
      legacyStreamIds :=
        if t.legacyStreamIds.lookup key.1 = some key.2 then t.legacyStreamIds.erase key.1 else t.legacyStreamIds }

def closeClient (t : ClientTracker) (key : ClientKey) : ClientTracker × List Happening :=
  match t.clients.lookup key with
  | none => (t, [])
  | some client => (t.removeClient key, [.closed client.connectionId])

def touchClient (t : ClientTracker) (key : ClientKey) (f : ClientState → ClientState) : ClientTracker :=
  match t.clients.lookup key with
  | none => t
  | some client => { t with clients := t.clients.insert key (f client) }

def recordInboundMessageDelivery (t : ClientTracker) (key : ClientKey) (seqId : Option Nat) : ClientTracker :=
  match seqId with
  | none => t
  | some seqId => t.touchClient key fun client => { client with lastInboundSeqId := some seqId }

def addClient (t : ClientTracker) (key : ClientKey) (connectionId now : Nat) : ClientTracker :=
  { t with
    clients := t.clients.insert key ⟨connectionId, now, none⟩
    running := t.running ++ [⟨key, connectionId⟩]
    nextConnectionId := connectionId + 1 }

def openConnection (t : ClientTracker) (key : ClientKey) (isLegacyStreamId : Bool) (seqId : Option Nat)
    (c : Circumstances) : Handled :=
  let connectionId := t.nextConnectionId + c.skipped
  match c.connectionOpened with
  | .failed => ⟨{ t with nextConnectionId := connectionId + 1 }, [], false⟩
  | .aborted => ⟨{ t with nextConnectionId := connectionId + 1 }, [.opened connectionId key], false⟩
  | .sent =>
    let t := t.addClient key connectionId c.now
    let t := if isLegacyStreamId then { t with legacyStreamIds := t.legacyStreamIds.insert key.1 key.2 } else t
    match c.incomingMessage with
    | .failed =>
      ⟨t.removeClient key, [.opened connectionId key, .forwardFailed connectionId, .closed connectionId], false⟩
    | .aborted => ⟨t, [.opened connectionId key], false⟩
    | .sent =>
      ⟨if isLegacyStreamId then t else t.recordInboundMessageDelivery key seqId, [.opened connectionId key], true⟩

def forwardMessage (t : ClientTracker) (key : ClientKey) (seqId : Option Nat) (c : Circumstances) : Handled :=
  let t := t.touchClient key fun client => { client with lastActivityAt := c.now }
  match c.incomingMessage with
  | .sent => ⟨t.recordInboundMessageDelivery key seqId, [], true⟩
  | _ => ⟨t, [], false⟩

def isDuplicate (t : ClientTracker) (key : ClientKey) (seqId : Option Nat) : Bool :=
  match seqId, t.clients.lookup key with
  | some seqId, some client => client.lastInboundSeqId.any fun lastSeqId => decide (seqId ≤ lastSeqId)
  | _, _ => false

def handleClientMessage (t : ClientTracker) (key : ClientKey) (isInitialize isLegacyStreamId : Bool)
    (seqId : Option Nat) (c : Circumstances) : Handled :=
  if isInitialize then
    match t.clients.lookup key with
    | none =>
      let opened := t.openConnection key isLegacyStreamId seqId c
      { opened with log := .initialized key :: opened.log }
    | some _ =>
      let (t, closed) := t.closeClient key
      match c.close with
      | .sent =>
        let opened := t.openConnection key isLegacyStreamId seqId c
        { opened with log := .initialized key :: (closed ++ opened.log) }
      | _ => ⟨t, .initialized key :: closed, false⟩
  else if t.isDuplicate key seqId then ⟨t, [], true⟩
  else
    match t.clients.lookup key with
    | some _ => t.forwardMessage key seqId c
    | none => ⟨t, [], true⟩

def resolveStreamId {M : Type} (t : ClientTracker) (envelope : ClientEnvelope M) (isInitialize : Bool)
    (randomStreamId : StreamId) : StreamId × ClientTracker :=
  match envelope.streamId with
  | some streamId => (streamId, t)
  | none =>
    let legacy := t.legacyStreamIds.lookup envelope.clientId
    if isInitialize then
      (legacy.getD randomStreamId, { t with legacyStreamIds := t.legacyStreamIds.erase envelope.clientId })
    else
      (legacy.getD (match envelope.event with | .ping => randomStreamId | _ => []), t)

def handleOnStream {M : Type} (t : ClientTracker) (envelope : ClientEnvelope M) (isInitialize : Bool)
    (streamId : StreamId) (c : Circumstances) : Handled :=
  if streamId.isEmpty then ⟨t, [], true⟩
  else
    let key := (envelope.clientId, streamId)
    match envelope.event with
    | .clientMessage _ => t.handleClientMessage key isInitialize envelope.streamId.isNone envelope.seqId c
    | .clientMessageChunk _ _ _ _ => ⟨t, [], true⟩
    | .ack _ => ⟨t, [], true⟩
    | .ping => ⟨t.touchClient key fun client => { client with lastActivityAt := c.now }, [], true⟩
    | .clientClosed =>
      let (t, closed) := t.closeClient key
      ⟨t, .clientClosed key :: closed, decide (c.close = .sent)⟩

def handleMessage {M : Type} (startsConnection : M → Bool) (t : ClientTracker) (envelope : ClientEnvelope M)
    (c : Circumstances) : Handled :=
  let isInitialize :=
    match envelope.event with
    | .clientMessage message => startsConnection message
    | _ => false
  let (streamId, t) := t.resolveStreamId envelope isInitialize c.randomStreamId
  t.handleOnStream envelope isInitialize streamId c

def isAlive (client : ClientState) (now : Nat) : Bool :=
  decide (now - client.lastActivityAt < remoteControlClientIdleTimeout)

def closeExpired (t : ClientTracker) (close : ClientKey → Delivery) : List ClientKey → Handled
  | [] => ⟨t, [], true⟩
  | key :: keys =>
    match t.clients.lookup key with
    | none => t.closeExpired close keys
    | some client =>
      let t := t.removeClient key
      let log := [.idle client.connectionId, .closed client.connectionId]
      match close key with
      | .sent =>
        let rest := t.closeExpired close keys
        { rest with log := log ++ rest.log }
      | _ => ⟨t, log, false⟩

def expired (t : ClientTracker) (now : Nat) (order : List ClientKey) : List ClientKey :=
  order.filter fun key => (t.clients.lookup key).any fun client => !isAlive client now

def endTask (t : ClientTracker) (connectionId : Nat) : ClientTracker × List Happening :=
  match t.running.find? fun task => decide (task.connectionId = connectionId) with
  | none => (t, [])
  | some task =>
    ({ t with
      running := t.running.filter fun task => decide (task.connectionId ≠ connectionId)
      ended := t.ended ++ [task] }, [.taskEnded connectionId])

def joinTask (t : ClientTracker) (task : OutboundTask) : ClientTracker × List Happening :=
  { t with ended := t.ended.erase task }.closeClient task.key

def dropTask (t : ClientTracker) (task : OutboundTask) : ClientTracker :=
  { t with ended := t.ended.erase task }

def closeAll (t : ClientTracker) : List ClientKey → ClientTracker × List Happening
  | [] => (t, [])
  | key :: keys =>
    let (t, closed) := t.closeClient key
    let (t, rest) := t.closeAll keys
    (t, closed ++ rest)

def shutdown (t : ClientTracker) (order : List ClientKey) : ClientTracker × List Happening :=
  let (t, closed) := t.closeAll order
  ({ t with running := [], ended := [] }, .shutdown :: closed)

end ClientTracker

end RemoteControl
