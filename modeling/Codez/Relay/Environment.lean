import Codez.Lib.Text
import Codez.Relay.Stream

/-!
The executor's end of one physical relay connection (`relay.rs`, `run_multiplexed_environment`): a
loop over inbound frames, results of authorization checks, notices of closed streams and the end of
the websocket writer.

`Environment.step` handles one event; a loop that has ended handles nothing more.
-/

namespace NoiseRelay

open Effect

inductive RelayBody where
  | data (seq segmentIndex segmentCount : Nat) (payload : Bytes)
  | ackFrame
  | resume
  | reset (reason : Text)
  | heartbeat
  | handshake (payload : Bytes)
deriving DecidableEq

structure RelayMessageFrame where
  version : Nat
  streamId : Text
  body : Option RelayBody
deriving DecidableEq

inductive RelayFrameBodyKind where
  | data | ack | resume | reset | heartbeat | handshake
deriving DecidableEq

def relayMessageFrameVersion : Nat := 1

def noiseRelayResetReason : Text := "noise_relay_protocol_error".toList

namespace RelayMessageFrame

def handshake (streamId : Text) (payload : Bytes) : RelayMessageFrame :=
  ⟨relayMessageFrameVersion, streamId, some (.handshake payload)⟩

def reset (streamId reason : Text) : RelayMessageFrame :=
  ⟨relayMessageFrameVersion, streamId, some (.reset reason)⟩

def validate (frame : RelayMessageFrame) : Except ExecServerError RelayFrameBodyKind :=
  if frame.version ≠ relayMessageFrameVersion then
    .error (.protocol ("unsupported relay message frame version " ++ toString frame.version))
  else if (Text.trim frame.streamId).isEmpty then
    .error (.protocol "relay message frame is missing stream_id")
  else
    match frame.body with
    | some (.data _ segmentIndex segmentCount payload) =>
      if segmentIndex ≠ 0 ∨ segmentCount ≠ 1 ∨ payload.isEmpty then
        .error (.protocol "relay data message frame is missing required fields")
      else .ok .data
    | some .ackFrame => .ok .ack
    | some .resume => .ok .resume
    | some (.reset reason) =>
      if reason.isEmpty then .error (.protocol "relay reset message frame is missing reason") else .ok .reset
    | some .heartbeat => .ok .heartbeat
    | some (.handshake payload) =>
      if payload.isEmpty then .error (.protocol "relay handshake message frame is missing payload")
      else .ok .handshake
    | none => .error (.protocol "relay message frame is missing body")

def intoData (frame : RelayMessageFrame) : Except ExecServerError RelayData := do
  let kind ← frame.validate
  if kind ≠ .data then throw (.protocol "expected relay data message frame")
  match frame.body with
  | some (.data seq _ _ payload) => pure ⟨seq, payload⟩
  | _ => throw (.protocol "expected relay data message frame")

def intoHandshakePayload (frame : RelayMessageFrame) : Except ExecServerError Bytes := do
  let kind ← frame.validate
  if kind ≠ .handshake then throw (.protocol "expected relay handshake message frame")
  match frame.body with
  | some (.handshake payload) => pure payload
  | _ => throw (.protocol "expected relay handshake message frame")

end RelayMessageFrame

structure NoiseChannelPublicKey where
  suite : Text
  x25519PublicKey : Text
  mlkem768PublicKey : Text
deriving DecidableEq

/-- Libraries of the relay: protobuf, JSON and the Noise responder `H`, whose `complete` gives the
transport's cipher and the response. -/
structure RelayHost (M H : Type) where
  json : JsonCodec M
  decodeRelayMessageFrame : Bytes → Option RelayMessageFrame
  readMessage : Bytes → Bytes → Except NoiseChannelError H
  initiatorPublicKey : H → NoiseChannelPublicKey
  payload : H → Bytes
  complete : H → Except NoiseChannelError (Cipher × Bytes)

def u64BeBytes (n : Nat) : Bytes := (List.range 8).reverse.map fun i => UInt8.ofNat (n / 256 ^ i)

def prologueDomain : Bytes := Text.bytes "codex-exec-server-relay-noise/v1".toList

def appendProloguePart (prologue part : Bytes) : Bytes := prologue ++ u64BeBytes part.length ++ part

def noiseChannelPrologue (environmentId executorRegistrationId streamId : Text) : Bytes :=
  [prologueDomain, Text.bytes environmentId, Text.bytes executorRegistrationId, Text.bytes streamId].foldl
    appendProloguePart []

section
variable {M H : Type} (host : RelayHost M H)

def readRequest (prologue request : Bytes) : Except NoiseChannelError H := do
  ensureNoiseFrameLen request.length "handshake request is too large"
  host.readMessage prologue request

end

structure PendingHandshake (H : Type) where
  validationId : Nat
  handshake : H

structure ValidationTask where
  streamId : Text
  validationId : Nat
  harnessPublicKey : NoiseChannelPublicKey
  authorization : Text
deriving DecidableEq

structure ClosedNoiseVirtualStream where
  streamId : Text
  instanceId : Nat

def maxActiveNoiseRelayStreams : Nat := 128

def maxFailedNoiseHandshakes : Nat := 8

def maxHarnessKeyAuthorizationBytes : Nat := 4096

def maxPendingHandshakeValidations : Nat := 32

structure ActiveStream (M : Type) where
  stream : NoiseVirtualStream M
  cipher : Cipher

/-- The locals of the loop.  `requestsRead` counts the handshake requests it has parsed. -/
structure Environment (M H : Type) where
  environmentId : Text
  executorRegistrationId : Text
  streams : AList (fun _ : Text => ActiveStream M) := ∅
  pendingHandshakes : AList (fun _ : Text => PendingHandshake H) := ∅
  validationTasks : List ValidationTask := []
  failedHandshakes : Nat := 0
  nextValidationId : Nat := 0
  physicalOutgoing : Channel RelayMessageFrame := {}
  requestsRead : Nat := 0
  running : Bool := true

inductive WebSocketMessage where
  | binary (payload : Bytes)
  | text
  | pingPongOrFrame
  | close
  | error
  | ended

inductive Event where
  | writerEnded
  | streamClosed (closed : ClosedNoiseVirtualStream)
  | validated (task : ValidationTask) (result : Except ExecServerError Unit)
  | taskFailed (task : ValidationTask)
  | incoming (message : WebSocketMessage)
  | transmitted
  | streamWrote (frame : RelayMessageFrame)
  | consumed (streamId : Text)
  | abandoned (streamId : Text)

namespace Environment

variable {M H : Type} (host : RelayHost M H)

def stop (env : Environment M H) : Environment M H := { env with running := false }

def chargeFailure (env : Environment M H) : Environment M H :=
  { env with
    failedHandshakes := env.failedHandshakes + 1
    running := env.running && !decide (maxFailedNoiseHandshakes ≤ env.failedHandshakes + 1) }

def trySend (env : Environment M H) (frame : RelayMessageFrame) : Option (Environment M H) :=
  (env.physicalOutgoing.trySend frame).map fun physicalOutgoing => { env with physicalOutgoing }

def sendReset (env : Environment M H) (streamId : Text) : Environment M H :=
  (env.trySend (.reset streamId noiseRelayResetReason)).getD env

def handleStreamClosed (env : Environment M H) (closed : ClosedNoiseVirtualStream) : Environment M H :=
  if ((env.streams.lookup closed.streamId).map (·.stream.instanceId)) = some closed.instanceId then
    { env with streams := env.streams.erase closed.streamId }
  else env

def finishHandshake (env : Environment M H) (task : ValidationTask) (pending : PendingHandshake H) :
    Except ExecServerError Unit → Environment M H
  | .error _ => (env.sendReset task.streamId).chargeFailure
  | .ok () =>
    if maxActiveNoiseRelayStreams ≤ env.streams.keys.length then env.sendReset task.streamId
    else
      match host.complete pending.handshake with
      | .error _ => (env.sendReset task.streamId).chargeFailure
      | .ok (cipher, response) =>
        match env.trySend (.handshake task.streamId response) with
        | none => env.stop
        | some env =>
          { env with streams := env.streams.insert task.streamId ⟨{ instanceId := task.validationId }, cipher⟩ }

def handleValidated (env : Environment M H) (task : ValidationTask) (result : Except ExecServerError Unit) :
    Environment M H :=
  let env := { env with validationTasks := env.validationTasks.erase task }
  match env.pendingHandshakes.lookup task.streamId with
  | none => env
  | some pending =>
    if pending.validationId = task.validationId then
      finishHandshake host
        { env with pendingHandshakes := env.pendingHandshakes.erase task.streamId } task pending result
    else env

def handleTaskFailed (env : Environment M H) (task : ValidationTask) : Environment M H :=
  env.pendingHandshakes.keys.foldl sendReset
    { env with validationTasks := env.validationTasks.erase task, pendingHandshakes := ∅ }

def authorizationOf (handshake : H) : Option Text :=
  match Text.fromUtf8 (host.payload handshake) with
  | some authorization =>
    if Text.byteLen authorization ≤ maxHarnessKeyAuthorizationBytes then some authorization else none
  | none => none

def registerHandshake (env : Environment M H) (streamId : Text) (handshake : H) (authorization : Text) :
    Environment M H :=
  { env with
    nextValidationId := env.nextValidationId + 1
    pendingHandshakes := env.pendingHandshakes.insert streamId ⟨env.nextValidationId, handshake⟩
    validationTasks := env.validationTasks ++
      [⟨streamId, env.nextValidationId, host.initiatorPublicKey handshake, authorization⟩] }

def admits (env : Environment M H) (streamId : Text) : Bool :=
  !decide (streamId ∈ env.streams) && !decide (streamId ∈ env.pendingHandshakes) &&
    decide (env.streams.keys.length < maxActiveNoiseRelayStreams) &&
    decide (env.validationTasks.length < maxPendingHandshakeValidations)

def readHandshake (env : Environment M H) (streamId : Text) (request : Bytes) : Environment M H :=
  let env := { env with requestsRead := env.requestsRead + 1 }
  match readRequest host (noiseChannelPrologue env.environmentId env.executorRegistrationId streamId) request with
  | .error _ => (env.sendReset streamId).chargeFailure
  | .ok handshake =>
    match authorizationOf host handshake with
    | none => (env.sendReset streamId).chargeFailure
    | some authorization => env.registerHandshake host streamId handshake authorization

def handleHandshake (env : Environment M H) (frame : RelayMessageFrame) : Environment M H :=
  if frame.streamId ∈ env.streams then env.sendReset frame.streamId
  else if frame.streamId ∈ env.pendingHandshakes then
    ({ env with
        pendingHandshakes := env.pendingHandshakes.erase frame.streamId }.sendReset frame.streamId).chargeFailure
  else if maxActiveNoiseRelayStreams ≤ env.streams.keys.length then env.sendReset frame.streamId
  else if maxPendingHandshakeValidations ≤ env.validationTasks.length then env.sendReset frame.streamId
  else
    match frame.intoHandshakePayload with
    | .error _ => env.sendReset frame.streamId
    | .ok request => env.readHandshake host frame.streamId request

def receiveData (env : Environment M H) (streamId : Text) (active : ActiveStream M) (data : RelayData) :
    Environment M H :=
  match active.stream.receiveData host.json active.cipher data with
  | .ok _ stream => { env with streams := env.streams.insert streamId { active with stream } }
  | .error _ _ => { env with streams := env.streams.erase streamId }.sendReset streamId

def handleData (env : Environment M H) (frame : RelayMessageFrame) : Environment M H :=
  match env.streams.lookup frame.streamId with
  | none =>
    if frame.streamId ∈ env.pendingHandshakes then
      ({ env with
          pendingHandshakes := env.pendingHandshakes.erase frame.streamId }.sendReset frame.streamId).chargeFailure
    else env.sendReset frame.streamId
  | some active =>
    match frame.intoData with
    | .error _ => { env with streams := env.streams.erase frame.streamId }.sendReset frame.streamId
    | .ok data => env.receiveData host frame.streamId active data

def handleReset (env : Environment M H) (frame : RelayMessageFrame) : Environment M H :=
  { env with
    pendingHandshakes := env.pendingHandshakes.erase frame.streamId
    streams := env.streams.erase frame.streamId }

def handleFrame (env : Environment M H) (frame : RelayMessageFrame) : Environment M H :=
  match frame.validate with
  | .error _ => env
  | .ok .handshake => env.handleHandshake host frame
  | .ok .data => env.handleData host frame
  | .ok .reset => env.handleReset frame
  | .ok .ack => env
  | .ok .resume => env
  | .ok .heartbeat => env

def handleMessage (env : Environment M H) : WebSocketMessage → Environment M H
  | .binary payload =>
    match host.decodeRelayMessageFrame payload with
    | some frame => env.handleFrame host frame
    | none => env
  | .close => env.stop
  | .ended => env.stop
  | .error => env.stop
  | .pingPongOrFrame => env
  | .text => env

def onStream (env : Environment M H) (streamId : Text) (f : NoiseVirtualStream M → NoiseVirtualStream M) :
    Environment M H :=
  match env.streams.lookup streamId with
  | some active => { env with streams := env.streams.insert streamId { active with stream := f active.stream } }
  | none => env

def handle (env : Environment M H) : Event → Environment M H
  | .writerEnded => env.stop
  | .streamClosed closed => env.handleStreamClosed closed
  | .validated task result => if task ∈ env.validationTasks then env.handleValidated host task result else env
  | .taskFailed task => if task ∈ env.validationTasks then env.handleTaskFailed task else env
  | .incoming message => env.handleMessage host message
  | .transmitted => { env with physicalOutgoing := env.physicalOutgoing.recv }
  | .streamWrote frame => (env.trySend frame).getD env
  | .consumed streamId => env.onStream streamId fun s => { s with incoming := s.incoming.recv }
  | .abandoned streamId => env.onStream streamId fun s => { s with incoming := s.incoming.close }

def step (env : Environment M H) (event : Event) : Environment M H :=
  if env.running then env.handle host event else env

def run (environmentId executorRegistrationId : Text) (events : List Event) : Environment M H :=
  events.foldl (step host) { environmentId, executorRegistrationId }

end Environment

end NoiseRelay
