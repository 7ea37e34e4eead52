import Codez.Lib.Text

/-!
Envelopes of the remote control (`remote_control/protocol.rs`).  Messages are a type parameter; what
the modelled code reads in them is a parameter of the functions that read it.
-/

namespace RemoteControl

abbrev Bytes := List UInt8

abbrev ClientId := Text

abbrev StreamId := Text

inductive ClientEvent (M : Type) where
  | clientMessage (message : M)
  | clientMessageChunk (segmentId segmentCount messageSizeBytes : Nat) (messageChunkBase64 : Text)
  | ack (segmentId : Option Nat)
  | ping
  | clientClosed
deriving DecidableEq

def ClientEvent.isChunk {M : Type} : ClientEvent M → Bool
  | .clientMessageChunk _ _ _ _ => true
  | _ => false

structure ClientEnvelope (M : Type) where
  event : ClientEvent M
  clientId : ClientId
  streamId : Option StreamId
  seqId : Option Nat
  cursor : Option Text
deriving DecidableEq

inductive PongStatus where
  | active
  | unknown
deriving DecidableEq

inductive ServerEvent (M : Type) where
  | serverMessage (message : M)
  | serverMessageChunk (segmentId segmentCount messageSizeBytes : Nat) (messageChunkBase64 : Text)
  | ack
  | pong (status : PongStatus)
deriving DecidableEq

def ServerEvent.segmentId {M : Type} : ServerEvent M → Option Nat
  | .serverMessageChunk segmentId _ _ _ => some segmentId
  | .serverMessage _ => none
  | .ack => none
  | .pong _ => none

structure ServerEnvelope (M : Type) where
  event : ServerEvent M
  clientId : ClientId
  streamId : StreamId
  seqId : Nat
deriving DecidableEq

end RemoteControl
