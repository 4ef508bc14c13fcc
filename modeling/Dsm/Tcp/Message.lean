import Dsm.Library.Bytes
import Dsm.Types

/-!
# Messages on a connection

The packed header that precedes every payload, and the buffers that `dsm_tcp_send` hands to
`dsm_tcp_send_raw`. The nodes are little-endian machines.
-/

namespace Dsm

def magic : UInt32 := 0x44534D00

def tcpBufferSize : Nat := 65536

structure Header where
  magic : UInt32
  type : UInt32
  srcNode : UInt32
  dstNode : UInt32
  seqNum : UInt32
  payloadLen : UInt32
deriving DecidableEq, Repr

/-- `sizeof(dsm_msg_header_t)`. -/
def headerSize : Nat := 24

def Header.encode (h : Header) : List UInt8 :=
  Bytes.le h.magic.toNat 4 ++ (Bytes.le h.type.toNat 4 ++ (Bytes.le h.srcNode.toNat 4 ++
    (Bytes.le h.dstNode.toNat 4 ++ (Bytes.le h.seqNum.toNat 4 ++ Bytes.le h.payloadLen.toNat 4))))

def Header.decode (bytes : List UInt8) : Header :=
  { magic := UInt32.ofNat (Bytes.field bytes 0 4)
    type := UInt32.ofNat (Bytes.field bytes 4 4)
    srcNode := UInt32.ofNat (Bytes.field bytes 8 4)
    dstNode := UInt32.ofNat (Bytes.field bytes 12 4)
    seqNum := UInt32.ofNat (Bytes.field bytes 16 4)
    payloadLen := UInt32.ofNat (Bytes.field bytes 20 4) }

/-- A message that a caller hands to `dsm_tcp_send`; `payload` is empty where it passes `NULL`. -/
structure Message where
  header : Header
  payload : List UInt8
deriving DecidableEq, Repr

/-- The test of `dsm_tcp_send` for a payload: `payload && header->payload_len > 0`. -/
def Message.HasPayload (m : Message) : Prop := m.payload ≠ [] ∧ 0 < m.header.payloadLen.toNat

instance (m : Message) : Decidable m.HasPayload := inferInstanceAs (Decidable (_ ∧ _))

/-- The buffers that `dsm_tcp_send` passes to `dsm_tcp_send_raw`, one after the other. -/
def tcpSendBuffers (m : Message) : List (List UInt8) :=
  m.header.encode ::
    if m.HasPayload then [m.payload.take m.header.payloadLen.toNat] else []

/-- A message as the callers build it: `dsm_create_header` sets the magic, and the payload has the
length that the header says. -/
structure Message.WellFormed (m : Message) : Prop where
  magic : m.header.magic = Dsm.magic
  small : m.header.payloadLen.toNat ≤ tcpBufferSize
  length : m.payload.length = m.header.payloadLen.toNat

@[simp] theorem Header.length_encode (h : Header) : h.encode.length = headerSize := by
  simp [Header.encode, headerSize]

theorem Header.encode_ne_nil (h : Header) : h.encode ≠ [] :=
  List.ne_nil_of_length_pos (by rw [Header.length_encode, headerSize]; omega)

theorem Header.decode_encode (h : Header) : Header.decode h.encode = h := by
  simp only [Header.decode, Header.encode, Bytes.field, List.drop_append, List.take_append,
    Bytes.length_le]
  simp [List.drop_of_length_le, List.take_of_length_le, Bytes.ofLe_le]

def Message.frame (m : Message) : List UInt8 := m.header.encode ++ m.payload

theorem Message.WellFormed.flatten_tcpSendBuffers {m : Message} (h : m.WellFormed) :
    (tcpSendBuffers m).flatten = m.frame := by
  by_cases hempty : m.payload = []
  · simp [tcpSendBuffers, Message.HasPayload, Message.frame, hempty]
  · have hpos : 0 < m.payload.length := List.length_pos_of_ne_nil hempty
    simp [tcpSendBuffers, Message.HasPayload, Message.frame, hempty, hpos, ← h.length]

/-- A stream of frames that has a whole header begins with the header of its first message. -/
theorem flatMap_frame_head {bytes more : List UInt8} {rest : List Message}
    (hlen : bytes.length = headerSize) (hstream : bytes ++ more = rest.flatMap Message.frame) :
    ∃ m rest', rest = m :: rest' ∧ bytes = m.header.encode ∧
      more = m.payload ++ rest'.flatMap Message.frame := by
  cases rest with
  | nil =>
      have hnil : bytes = [] := (List.append_eq_nil_iff.mp hstream).1
      rw [hnil] at hlen
      cases hlen
  | cons m rest' =>
      rw [List.flatMap_cons, Message.frame, List.append_assoc] at hstream
      obtain ⟨hhead, hmore⟩ := List.append_inj hstream (by rw [hlen, Header.length_encode])
      exact ⟨m, rest', rfl, hhead, hmore⟩

/-- The call of `dsm_handle_message` that a message is meant to lead to; the payload is `NULL` where
the header announces none. -/
def Message.call (m : Message) : Header × Option (List UInt8) :=
  (m.header, if m.header.payloadLen.toNat = 0 then none else some m.payload)

end Dsm
