import Codez.Lib.Chunks
import Codez.Lib.Fallible
import Codez.Lib.Framing
import Codez.Relay.OrderedCiphertext

/-!
JSON-RPC messages in Noise records (`noise_relay/message_framing.rs`).
-/

namespace NoiseRelay

open Framing List

/-- JSON of the messages.  Decoding inverts encoding, and there is no empty JSON text. -/
structure JsonCodec (M : Type) where
  toVec : M → Except String Bytes
  fromSlice : Bytes → Except String M
  fromSlice_toVec : ∀ m b, toVec m = .ok b → fromSlice b = .ok m
  fromSlice_nil : ∀ m, fromSlice [] ≠ .ok m

def lengthPrefixBytes : Nat := 4

def maxNoiseJsonrpcMessageLen : Nat := 64 * 1024 * 1024

def noiseRecordPlaintextLen : Nat := 60 * 1024

def toBeBytes (n : Nat) : Bytes :=
  [UInt8.ofNat (n / 2 ^ 24), UInt8.ofNat (n / 2 ^ 16), UInt8.ofNat (n / 2 ^ 8), UInt8.ofNat n]

def fromBeBytes (b : Bytes) : Nat := b.foldl (fun n byte => n * 256 + byte.toNat) 0

theorem fromBeBytes_toBeBytes (n : Nat) (h : n < 2 ^ 32) : fromBeBytes (toBeBytes n) = n := by
  simp only [toBeBytes, fromBeBytes, foldl_cons, foldl_nil, UInt8.toNat_ofNat']
  omega

section
variable {M : Type} (json : JsonCodec M) (messages : List M) {m : M}

def frameJsonrpcMessage (message : M) : Except ExecServerError Bytes := do
  let body ← (json.toVec message).mapError .json
  if maxNoiseJsonrpcMessageLen < body.length then
    throw (.protocol "Noise relay JSON-RPC message exceeds maximum length")
  pure (toBeBytes body.length ++ body)

def invalidLengthError : ExecServerError := .protocol "Noise relay JSON-RPC message has invalid length"

def messageLen (lengthPrefix : Bytes) : Except ExecServerError Nat :=
  if fromBeBytes lengthPrefix = 0 ∨ maxNoiseJsonrpcMessageLen < fromBeBytes lengthPrefix then
    .error invalidLengthError
  else .ok (fromBeBytes lengthPrefix)

def messageCutter : Cutter UInt8 (Except ExecServerError Bytes) :=
  headerCutter lengthPrefixBytes (by decide) messageLen

structure JsonRpcMessageDecoder where
  buffered : Bytes := []

namespace JsonRpcMessageDecoder

def pushFrame (messages : List M) (frame : Except ExecServerError Bytes) : Except ExecServerError (List M) := do
  let body ← frame
  let message ← (json.fromSlice body).mapError .json
  pure (messages ++ [message])

def push (d : JsonRpcMessageDecoder) (plaintextRecord : Bytes) :
    Except ExecServerError (List M × JsonRpcMessageDecoder) := do
  if noiseRecordPlaintextLen < plaintextRecord.length then
    throw (.protocol "Noise relay plaintext record exceeds maximum length")
  let (messages, buffered) ← drain messageCutter (pushFrame json) [] (d.buffered ++ plaintextRecord)
  if lengthPrefixBytes + maxNoiseJsonrpcMessageLen < buffered.length then
    throw (.protocol "Noise relay JSON-RPC reassembly buffer exceeds maximum length")
  pure (messages, ⟨buffered⟩)

end JsonRpcMessageDecoder

def framed (message : M) : Bytes := (frameJsonrpcMessage json message).toOption.getD []

def body (message : M) : Bytes := (json.toVec message).toOption.getD []

def framable (messages : List M) : List M := messages.takeWhile fun m => (frameJsonrpcMessage json m).isOk

theorem framable_isPrefix : framable json messages <+: messages :=
  List.takeWhile_prefix _

theorem isOk_of_mem_framable {messages : List M} (h : m ∈ framable json messages) :
    (frameJsonrpcMessage json m).isOk = true :=
  @List.mem_takeWhile_imp _ (fun m => (frameJsonrpcMessage json m).isOk) _ _ h

theorem frameJsonrpcMessage_eq_ok {b : Bytes} (h : frameJsonrpcMessage json m = .ok b) :
    json.toVec m = .ok (body json m) ∧ (body json m).length ≤ maxNoiseJsonrpcMessageLen ∧
      b = toBeBytes (body json m).length ++ body json m := by
  unfold frameJsonrpcMessage at h
  obtain ⟨text, ht, h⟩ := Fallible.bind_eq_ok h
  have hvec := Fallible.mapError_eq_ok ht
  have hbody : body json m = text := by rw [body, hvec]; rfl
  rw [hbody]
  by_cases hlen : maxNoiseJsonrpcMessageLen < text.length
  · simp [hlen, throw, throwThe, MonadExceptOf.throw, Bind.bind, Except.bind] at h
  · simp only [hlen, if_false] at h
    cases h
    exact ⟨hvec, by omega, rfl⟩

theorem framed_eq (h : (frameJsonrpcMessage json m).isOk = true) :
    framed json m = toBeBytes (body json m).length ++ body json m := by
  cases hf : frameJsonrpcMessage json m with
  | error e => rw [hf] at h; cases h
  | ok b =>
    rw [framed, hf]
    exact (frameJsonrpcMessage_eq_ok json hf).2.2

theorem toVec_of_framable (h : (frameJsonrpcMessage json m).isOk = true) :
    json.toVec m = .ok (body json m) ∧ (body json m).length ≤ maxNoiseJsonrpcMessageLen := by
  cases hf : frameJsonrpcMessage json m with
  | error e => rw [hf] at h; cases h
  | ok b => exact ⟨(frameJsonrpcMessage_eq_ok json hf).1, (frameJsonrpcMessage_eq_ok json hf).2.1⟩

theorem fromSlice_body (h : (frameJsonrpcMessage json m).isOk = true) :
    json.fromSlice (body json m) = .ok m :=
  json.fromSlice_toVec m _ (toVec_of_framable json h).1

theorem body_ne_nil (h : (frameJsonrpcMessage json m).isOk = true) : body json m ≠ [] := by
  intro hnil
  apply json.fromSlice_nil m
  rw [← hnil]
  exact fromSlice_body json h

theorem frames_framed (h : ∀ m ∈ messages, (frameJsonrpcMessage json m).isOk = true) :
    frames messageCutter (messages.flatMap (framed json)) = (messages.map fun m => .ok (body json m), []) := by
  have hstr : messages.flatMap (framed json) =
      (messages.map (body json)).flatMap fun b => toBeBytes b.length ++ b := by
    rw [flatMap_map]
    exact flatMap_congr fun m hm => framed_eq json (h m hm)
  have hbody : ∀ b ∈ messages.map (body json), b ≠ [] ∧ b.length ≤ maxNoiseJsonrpcMessageLen := by
    intro b hb
    obtain ⟨m, hm, rfl⟩ := mem_map.mp hb
    exact ⟨body_ne_nil json (h m hm), (toVec_of_framable json (h m hm)).2⟩
  rw [hstr, messageCutter, frames_headerCutter]
  · rw [map_map]
    rfl
  · intro b _
    rfl
  · intro b hb
    obtain ⟨hne, hlen⟩ := hbody b hb
    have hpos := length_pos_iff.mpr hne
    have hlt : b.length < 2 ^ 32 := lt_of_le_of_lt hlen (by decide)
    rw [messageLen, fromBeBytes_toBeBytes _ hlt]
    exact if_neg (by omega)

def complete (received : Bytes) : Nat := (frames messageCutter received).1.length

theorem foldlM_pushFrame (messages acc : List M)
    (h : ∀ m ∈ messages, (frameJsonrpcMessage json m).isOk = true) :
    (messages.map fun m => Except.ok (body json m)).foldlM (JsonRpcMessageDecoder.pushFrame json) acc =
      .ok (acc ++ messages) := by
  induction messages generalizing acc with
  | nil => simp [pure, Except.pure]
  | cons m rest ih =>
    have hm : JsonRpcMessageDecoder.pushFrame json acc (.ok (body json m)) = .ok (acc ++ [m]) := by
      simp [JsonRpcMessageDecoder.pushFrame, fromSlice_body json (h m mem_cons_self), Except.mapError,
        Bind.bind, Except.bind, pure, Except.pure]
    rw [map_cons, foldlM_cons, hm]
    have := ih (acc ++ [m]) fun m' hm' => h m' (mem_cons_of_mem _ hm')
    rw [append_assoc, singleton_append] at this
    exact this

theorem length_rest_le (b : Bytes) :
    (frames messageCutter b).2.length ≤ lengthPrefixBytes + maxNoiseJsonrpcMessageLen := by
  have hnone := cut_frames_rest messageCutter b
  generalize (frames messageCutter b).2 = r at hnone
  by_contra hlong
  have hcut : headerCut lengthPrefixBytes messageLen r = none := hnone
  rw [headerCut, if_neg (by omega)] at hcut
  cases hlen : messageLen (r.take lengthPrefixBytes) with
  | error e => simp [hlen] at hcut
  | ok n =>
    have hn : n ≤ maxNoiseJsonrpcMessageLen := by
      unfold messageLen at hlen
      split at hlen
      · cases hlen
      · next hval => cases hlen; omega
    simp only [hlen] at hcut
    rw [if_neg (by omega)] at hcut
    cases hcut

theorem JsonRpcMessageDecoder.push_eq_ok (hmsgs : ∀ m ∈ messages, (frameJsonrpcMessage json m).isOk = true)
    {received record : Bytes} (hpart : received ++ record <+: messages.flatMap (framed json))
    (hlen : record.length ≤ noiseRecordPlaintextLen) {d : JsonRpcMessageDecoder}
    (hd : d.buffered = (frames messageCutter received).2) :
    ∃ out d', d.push json record = .ok (out, d') ∧
      d'.buffered = (frames messageCutter (received ++ record)).2 ∧
      messages.take (complete (received ++ record)) = messages.take (complete received) ++ out := by
  -- the frames complete so far are the bodies of the first messages
  have hall := frames_fst_prefix messageCutter hpart
  rw [frames_framed json messages hmsgs] at hall
  have happ := frames_append messageCutter received record
  rw [← hd] at happ
  generalize hnew : frames messageCutter (d.buffered ++ record) = new at happ
  have hf : (frames messageCutter received).1 ++ new.1 <+: messages.map fun m => .ok (body json m) := by
    have hfst := congrArg Prod.fst happ
    simp only at hfst
    rwa [← hfst]
  have hcnt : complete (received ++ record) = complete received + new.1.length := by
    rw [complete, happ, length_append, complete]
  have hnewFrames : new.1 =
      ((messages.drop (complete received)).take new.1.length).map fun m => .ok (body json m) := by
    obtain ⟨rest, hr⟩ := hf
    rw [map_take, map_drop, ← hr, append_assoc, complete, drop_left, take_left]
  have hdrain : drain messageCutter (pushFrame json) [] (d.buffered ++ record) =
      .ok ((messages.drop (complete received)).take new.1.length, new.2) := by
    rw [drain_eq_foldlM, hnew, hnewFrames, foldlM_pushFrame json _ []]
    · simp [Except.map]
    · intro m hm
      exact hmsgs m (mem_of_mem_drop (mem_of_mem_take hm))
  have hr : new.2.length ≤ lengthPrefixBytes + maxNoiseJsonrpcMessageLen := by
    rw [← hnew]
    exact length_rest_le _
  refine ⟨(messages.drop (complete received)).take new.1.length, ⟨new.2⟩, ?_, ?_, ?_⟩
  · unfold push
    rw [if_neg (by omega), hdrain]
    simp only [Bind.bind, Except.bind, pure, Except.pure]
    rw [if_neg (by omega)]
  · rw [happ]
  · rw [hcnt, take_add]

end

end NoiseRelay
