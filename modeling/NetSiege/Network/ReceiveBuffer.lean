import NetSiege.Network.NetworkClient
import NetSiege.Network.NetworkServer

/-!
# The receive buffer (`networkserver.cpp`, `clientsession.cpp`, `networkclient.cpp`)

A received datagram overwrites the first bytes of `m_receiveBuffer`, and `handle_receive` parses the
whole buffer, whatever the error code and the number of bytes transferred are. The parser is a
parameter; all that is asked of it is that the last of several fields with one number counts. The
message then depends on the datagram alone exactly when the datagram fills the buffer
(`message_determined_iff`).
-/

namespace NetSiege

open Lib

variable {β : Type}

/-- `package_buffer_t`, as `m_receiveBuffer`. -/
structure ReceiveBuffer where
  bytes : List UInt8
  size_eq : bytes.length = maxPackageSize

/-- A completed `async_receive_from`: the error code and the bytes it transferred. -/
structure Completion where
  error : Nat
  transferred : List UInt8
  fits : transferred.length ≤ maxPackageSize

namespace ReceiveBuffer

/-- A buffer of zeros. -/
def zero : ReceiveBuffer := ⟨List.replicate maxPackageSize 0, List.length_replicate⟩

/-- The buffer when the handler of the receive is called. -/
def receive (buffer : ReceiveBuffer) (c : Completion) : ReceiveBuffer where
  bytes := overwrite buffer.bytes 0 c.transferred
  size_eq := by
    rw [length_overwrite, buffer.size_eq]
    rw [buffer.size_eq, Nat.zero_add]
    exact c.fits

/-- The buffer after earlier datagrams. -/
def receiveAll (buffer : ReceiveBuffer) (history : List Completion) : ReceiveBuffer :=
  history.foldl receive buffer

end ReceiveBuffer

/-- The `pb::C2SMessage` that `ClientSession::inputPackage` hands to `parsePackage`. -/
def ClientSession.inputPackage (parseFromArray : List UInt8 → Message Unit)
    (package : ReceiveBuffer) : Message Unit :=
  parseFromArray package.bytes

/-- The message that `NetworkServer::handle_receive` processes. -/
def NetworkServer.receivedMessage (parseFromArray : List UInt8 → Message Unit)
    (receiveBuffer : ReceiveBuffer) (_error _bytesTransferred : Nat) : Message Unit :=
  ClientSession.inputPackage parseFromArray receiveBuffer

/-- The `pb::S2CMessage` that `NetworkClient::handle_receive` processes. -/
def NetworkClient.receivedMessage (parseFromArray : List UInt8 → Message WorldStateUpdate)
    (receiveBuffer : ReceiveBuffer) (_error _bytesTransferred : Nat) : Message WorldStateUpdate :=
  parseFromArray receiveBuffer.bytes

/-- The message depends on a datagram of `n` bytes alone, not on the datagrams before it and not on
the error code. -/
def MessageDetermined (message : ReceiveBuffer → Nat → Nat → Message β) (n : Nat) : Prop :=
  ∀ (buffer buffer' : ReceiveBuffer) (history history' : List Completion) (c c' : Completion),
    c.transferred = c'.transferred → c.transferred.length = n →
      message ((buffer.receiveAll history).receive c) c.error n =
        message ((buffer'.receiveAll history').receive c') c'.error n

/-- Fields with number 1, `protocol_id`, and values of one byte each. -/
def protocolIdFields (vs : List UInt8) : List UInt8 := vs.flatMap fun v => [0x08, v]

/-- What is asked of `ParseFromArray`: of several `protocol_id` fields the last one counts. -/
def LastFieldCounts (parseFromArray : List UInt8 → Message β) : Prop :=
  ∀ vs v, (∀ w ∈ vs, w < 128) → v < 128 →
    (parseFromArray (protocolIdFields (vs ++ [v]))).protocolId = v.toUInt32

theorem length_protocolIdFields (vs : List UInt8) :
    (protocolIdFields vs).length = 2 * vs.length := by
  simp [protocolIdFields, List.length_flatMap, Nat.mul_comm]

theorem protocolIdFields_concat (vs : List UInt8) (v : UInt8) :
    protocolIdFields (vs ++ [v]) = (protocolIdFields vs ++ [0x08]) ++ [v] := by
  simp [protocolIdFields]

/-- A datagram that fills the buffer with `protocol_id` fields, the last with value `v`. -/
def fullDatagram (v : UInt8) : Completion where
  error := 0
  transferred := protocolIdFields (List.replicate 15999 1 ++ [v])
  fits := by
    rw [length_protocolIdFields, List.length_append, List.length_replicate]
    rfl

/-- Its first `n` bytes as a datagram of their own. -/
def truncatedDatagram (n : Nat) : Completion where
  error := 0
  transferred := (fullDatagram 1).transferred.take n
  fits := (List.length_take_le' _ _).trans (fullDatagram 1).fits

theorem length_fullDatagram (v : UInt8) : (fullDatagram v).transferred.length = maxPackageSize := by
  rw [fullDatagram, length_protocolIdFields, List.length_append, List.length_replicate]
  rfl

theorem take_fullDatagram (v v' : UInt8) (hn : n < maxPackageSize) :
    (fullDatagram v).transferred.take n = (fullDatagram v').transferred.take n := by
  have hsplit : ∀ v, (fullDatagram v).transferred =
      (protocolIdFields (List.replicate 15999 1) ++ [0x08]) ++ [v] :=
    fun v => protocolIdFields_concat _ v
  have hlen : (protocolIdFields (List.replicate 15999 1) ++ [0x08]).length = 31999 := by
    rw [List.length_append, length_protocolIdFields, List.length_replicate]
    rfl
  have hn : n ≤ (protocolIdFields (List.replicate 15999 1) ++ [0x08]).length := by
    rw [hlen]
    exact Nat.le_of_lt_succ hn
  rw [hsplit, hsplit, List.take_append_of_le_length hn, List.take_append_of_le_length hn]

namespace ReceiveBuffer

/-- A datagram that fills the buffer leaves nothing of its earlier content. -/
theorem receive_full (buffer : ReceiveBuffer) {c : Completion}
    (h : c.transferred.length = maxPackageSize) : (buffer.receive c).bytes = c.transferred := by
  have hdrop : buffer.bytes.drop (0 + c.transferred.length) = [] := by
    rw [List.drop_eq_nil_iff, buffer.size_eq, h, Nat.zero_add]
  simp only [receive, overwrite, hdrop, List.take_zero, List.nil_append, List.append_nil]

/-- The beginning of what the buffer already holds leaves it as it is. -/
theorem receive_take (buffer : ReceiveBuffer) {c : Completion}
    (h : c.transferred = buffer.bytes.take n) (hn : n ≤ maxPackageSize) :
    (buffer.receive c).bytes = buffer.bytes := by
  have hlen : c.transferred.length = n := by
    rw [h, List.length_take, buffer.size_eq, Nat.min_eq_left hn]
  simp only [receive, overwrite, List.take_zero, List.nil_append, hlen, Nat.zero_add]
  rw [h, List.take_append_drop]

end ReceiveBuffer

/-- A message that is parsed from the whole buffer is determined by a datagram that fills it. -/
theorem messageDetermined_of_full (parseFromArray : List UInt8 → Message β)
    (hn : maxPackageSize ≤ n) :
    MessageDetermined (fun buffer _ _ => parseFromArray buffer.bytes) n := by
  intro buffer buffer' history history' c c' heq hlen
  have hfull : c.transferred.length = maxPackageSize :=
    Nat.le_antisymm c.fits (hlen.symm ▸ hn)
  dsimp only
  rw [ReceiveBuffer.receive_full _ hfull, ReceiveBuffer.receive_full _ (heq ▸ hfull), heq]

/-- Behind a shorter datagram an earlier one shows. -/
theorem not_messageDetermined {parseFromArray : List UInt8 → Message β}
    (hparse : LastFieldCounts parseFromArray) (hn : n < maxPackageSize) :
    ¬ MessageDetermined (fun buffer _ _ => parseFromArray buffer.bytes) n := by
  intro H
  have hbuffer : ∀ v, ((ReceiveBuffer.zero.receiveAll [fullDatagram v]).receive
      (truncatedDatagram n)).bytes = (fullDatagram v).transferred := by
    intro v
    have hfull := ReceiveBuffer.zero.receive_full (length_fullDatagram v)
    refine (ReceiveBuffer.receive_take _ ?_ (Nat.le_of_lt hn)).trans hfull
    change _ = (ReceiveBuffer.zero.receive (fullDatagram v)).bytes.take n
    rw [hfull]
    exact take_fullDatagram 1 v hn
  have hlast : ∀ v, v < 128 →
      (parseFromArray (fullDatagram v).transferred).protocolId = v.toUInt32 := by
    intro v hv
    refine hparse _ v (fun w hw => ?_) hv
    rw [List.eq_of_mem_replicate hw]
    decide
  have hlen : (truncatedDatagram n).transferred.length = n := by
    rw [truncatedDatagram, List.length_take, length_fullDatagram, Nat.min_eq_left hn.le]
  have heq := H .zero .zero [fullDatagram 1] [fullDatagram 2] _ _ rfl hlen
  dsimp only at heq
  rw [hbuffer, hbuffer] at heq
  have hid := congrArg Message.protocolId heq
  rw [hlast 1 (by decide), hlast 2 (by decide)] at hid
  revert hid
  decide

/-- **The message processed and the datagram received.** The message the server and the client
process depends on the received datagram alone, whatever was received before and whatever the error
code is, if and only if the datagram fills the buffer. -/
theorem message_determined_iff {parseC2S : List UInt8 → Message Unit}
    {parseS2C : List UInt8 → Message WorldStateUpdate} (hC2S : LastFieldCounts parseC2S)
    (hS2C : LastFieldCounts parseS2C) (n : Nat) :
    (MessageDetermined (NetworkServer.receivedMessage parseC2S) n ↔ maxPackageSize ≤ n) ∧
      (MessageDetermined (NetworkClient.receivedMessage parseS2C) n ↔ maxPackageSize ≤ n) := by
  refine ⟨⟨fun H => ?_, fun hn => messageDetermined_of_full parseC2S hn⟩,
    ⟨fun H => ?_, fun hn => messageDetermined_of_full parseS2C hn⟩⟩
  · exact Nat.le_of_not_lt fun hn => not_messageDetermined hC2S hn H
  · exact Nat.le_of_not_lt fun hn => not_messageDetermined hS2C hn H

/-- A parser of the header fields with values of one byte. It stops at any other field. -/
def parseHeader (msg : Message β) : List UInt8 → Message β
  | tag :: v :: rest =>
    if v < 128 then
      match tag with
      | 0x08 => parseHeader { msg with protocolId := v.toUInt32 } rest
      | 0x10 => parseHeader { msg with seqId := v.toUInt32 } rest
      | 0x18 => parseHeader { msg with ackSeqId := v.toUInt32 } rest
      | 0x20 => parseHeader { msg with ackMask := v.toUInt32 } rest
      | _ => msg
    else msg
  | _ => msg

theorem lastFieldCounts_parseHeader : LastFieldCounts (parseHeader ({} : Message β)) := by
  intro vs v hvs hv
  generalize ({} : Message β) = msg
  induction vs generalizing msg with
  | nil =>
    change (parseHeader msg [0x08, v]).protocolId = _
    rw [parseHeader, if_pos hv]
    rfl
  | cons w vs ih =>
    obtain ⟨hw, hvs⟩ := List.forall_mem_cons.1 hvs
    change (parseHeader msg (0x08 :: w :: protocolIdFields (vs ++ [v]))).protocolId = _
    rw [parseHeader, if_pos hw]
    exact ih hvs _

theorem message_determined_header :
    (MessageDetermined (NetworkServer.receivedMessage (parseHeader {})) 32000 ↔
        maxPackageSize ≤ 32000) ∧
      (MessageDetermined (NetworkClient.receivedMessage (parseHeader {})) 32000 ↔
        maxPackageSize ≤ 32000) :=
  message_determined_iff lastFieldCounts_parseHeader lastFieldCounts_parseHeader 32000

/-- Two bytes received behind a longer datagram. -/
theorem message_determined_short :
    ¬ MessageDetermined (NetworkServer.receivedMessage (parseHeader {})) 2 :=
  not_messageDetermined lastFieldCounts_parseHeader (by decide)

end NetSiege
