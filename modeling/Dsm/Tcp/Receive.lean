import Dsm.Library.Machine
import Dsm.Tcp.Message

/-!
# One connection, cut at any byte

A thread calls `dsm_tcp_send` with one message after another, `send` accepts as many bytes of the
buffer as it likes, the network delivers any number of bytes at a time, and the server thread runs
`handle_client_data` on what has arrived. A call to `send` or `recv` that returns `EAGAIN` inside one
of the loops that try again changes nothing and is not a step.

The invariant says what is ahead of the receiver: the bytes that it has not yet taken, wherever they
are, are the frames of the messages that it has not yet handled, less the part of the first frame
that is already in its own buffers.
-/

namespace Dsm.Tcp

/-- Where `handle_client_data` stands. -/
inductive Receiver where
  /-- Not running: the server thread is in `epoll_wait`. -/
  | idle
  /-- Before the `recv` with `MSG_PEEK`. -/
  | peeking
  /-- The peek has shown a whole header. -/
  | peeked
  /-- In the loop that fills `recv_buf` with the payload of `header`. -/
  | payload (header : Header) (recvBuf : List UInt8)
deriving DecidableEq, Repr

structure Connection where
  /-- The messages with which `dsm_tcp_send` is still to be called. -/
  queue : List Message
  /-- The rest of the buffers of the current `dsm_tcp_send`. -/
  buffers : List (List UInt8)
  wire : List UInt8
  /-- The receive buffer of the socket. -/
  rcv : List UInt8
  receiver : Receiver
  /-- Bytes have arrived that no `recv` has been asked for since. -/
  notified : Bool
  /-- The calls of `dsm_handle_message`, with `none` for a `NULL` payload. -/
  handled : List (Header × Option (List UInt8))
deriving DecidableEq, Repr

inductive Action where
  /-- `dsm_tcp_send` is called with the next message. -/
  | begin
  | accept (k : Nat)
  | deliver (k : Nat)
  /-- `epoll_wait` reports the connection. -/
  | call
  | peekAgain
  | peek (k : Nat)
  | readHeader
  | readPayload (k : Nat)
deriving DecidableEq, Repr

/-- `handle_client_data` from the header that it has read: what `header.magic` and
`header.payload_len` decide. -/
def Connection.onHeader (s : Connection) (header : Header) : Connection :=
  if header.magic ≠ magic then { s with receiver := .idle }
  else if 0 < header.payloadLen.toNat then
    if header.payloadLen.toNat > tcpBufferSize then { s with receiver := .idle }
    else { s with receiver := .payload header [] }
  else { s with receiver := .peeking, handled := s.handled ++ [(header, none)] }

/-- The loop that reads the payload, after a `recv` that brought `bytes`. -/
def Connection.onPayload (s : Connection) (header : Header) (recvBuf : List UInt8) : Connection :=
  if recvBuf.length < header.payloadLen.toNat then { s with receiver := .payload header recvBuf }
  else { s with receiver := .peeking, handled := s.handled ++ [(header, some recvBuf)] }

def step (s : Connection) : Action → Option Connection
  | .begin =>
      match s.buffers, s.queue with
      | [], m :: queue => some { s with queue := queue, buffers := tcpSendBuffers m }
      | _, _ => none
  | .accept k =>
      match s.buffers with
      | [] => none
      | buffer :: buffers =>
          if 0 < k ∧ k ≤ buffer.length then
            some { s with
              wire := s.wire ++ buffer.take k
              buffers := if k < buffer.length then buffer.drop k :: buffers else buffers }
          else none
  | .deliver k =>
      if 0 < k ∧ k ≤ s.wire.length then
        some { s with
          rcv := s.rcv ++ s.wire.take k, wire := s.wire.drop k, notified := true }
      else none
  | .call => if s.receiver = .idle then some { s with receiver := .peeking } else none
  | .peekAgain =>
      if s.receiver = .peeking then
        some { s with receiver := .idle, notified := decide (s.rcv ≠ []) }
      else none
  | .peek k =>
      if s.receiver = .peeking ∧ 0 < k ∧ k ≤ headerSize ∧ k ≤ s.rcv.length then
        if k < headerSize then
          some { s with receiver := .idle, notified := decide (k ≠ s.rcv.length) }
        else some { s with receiver := .peeked }
      else none
  -- a `recv` after a peek returns what the peek has shown, so the branch for a short header is dead
  | .readHeader =>
      if s.receiver = .peeked then
        some (({ s with rcv := s.rcv.drop headerSize }).onHeader
          (Header.decode (s.rcv.take headerSize)))
      else none
  | .readPayload k =>
      match s.receiver with
      | .payload header recvBuf =>
          if 0 < k ∧ k ≤ s.rcv.length ∧ recvBuf.length + k ≤ header.payloadLen.toNat then
            some (({ s with rcv := s.rcv.drop k }).onPayload header (recvBuf ++ s.rcv.take k))
          else none
      | _ => none

/-- The effects of the steps of a connection. -/
inductive Connection.Effect (s : Connection) : Action → Connection → Prop where
  | begin {m : Message} {queue : List Message} (hbuffers : s.buffers = [])
      (hqueue : s.queue = m :: queue) :
      Effect s .begin { s with queue := queue, buffers := tcpSendBuffers m }
  | accept {k : Nat} {buffer : List UInt8} {buffers : List (List UInt8)}
      (hbuffers : s.buffers = buffer :: buffers) (hpos : 0 < k) (hk : k ≤ buffer.length) :
      Effect s (.accept k)
        { s with
          wire := s.wire ++ buffer.take k
          buffers := if k < buffer.length then buffer.drop k :: buffers else buffers }
  | deliver {k : Nat} (hpos : 0 < k) (hk : k ≤ s.wire.length) :
      Effect s (.deliver k)
        { s with rcv := s.rcv ++ s.wire.take k, wire := s.wire.drop k, notified := true }
  | call (hpc : s.receiver = .idle) : Effect s .call { s with receiver := .peeking }
  | peekAgain (hpc : s.receiver = .peeking) :
      Effect s .peekAgain { s with receiver := .idle, notified := decide (s.rcv ≠ []) }
  | peekShort {k : Nat} (hpc : s.receiver = .peeking) (hpos : 0 < k) (hk : k ≤ s.rcv.length)
      (hshort : k < headerSize) :
      Effect s (.peek k) { s with receiver := .idle, notified := decide (k ≠ s.rcv.length) }
  | peek {k : Nat} (hpc : s.receiver = .peeking) (hk : k ≤ s.rcv.length) (hwhole : k = headerSize) :
      Effect s (.peek k) { s with receiver := .peeked }
  | readHeader (hpc : s.receiver = .peeked) :
      Effect s .readHeader (({ s with rcv := s.rcv.drop headerSize } : Connection).onHeader
        (Header.decode (s.rcv.take headerSize)))
  | readPayload {k : Nat} {header : Header} {recvBuf : List UInt8}
      (hpc : s.receiver = .payload header recvBuf) (hpos : 0 < k) (hk : k ≤ s.rcv.length)
      (hfits : recvBuf.length + k ≤ header.payloadLen.toNat) :
      Effect s (.readPayload k) (({ s with rcv := s.rcv.drop k } : Connection).onPayload header
        (recvBuf ++ s.rcv.take k))

theorem step_effect {s t : Connection} {a : Action} (h : step s a = some t) : s.Effect a t := by
  cases a with
  | begin =>
      simp only [step] at h
      split at h
      · rename_i m queue hbuffers hqueue
        cases h
        exact .begin hbuffers hqueue
      · cases h
  | accept k =>
      simp only [step] at h
      split at h
      · cases h
      · rename_i buffer buffers hbuffers
        rw [Option.ite_none_right_eq_some] at h
        obtain ⟨⟨hpos, hk⟩, heq⟩ := h
        cases heq
        exact .accept hbuffers hpos hk
  | deliver k =>
      rw [step, Option.ite_none_right_eq_some] at h
      obtain ⟨⟨hpos, hk⟩, heq⟩ := h
      cases heq
      exact .deliver hpos hk
  | call =>
      rw [step, Option.ite_none_right_eq_some] at h
      obtain ⟨hpc, heq⟩ := h
      cases heq
      exact .call hpc
  | peekAgain =>
      rw [step, Option.ite_none_right_eq_some] at h
      obtain ⟨hpc, heq⟩ := h
      cases heq
      exact .peekAgain hpc
  | peek k =>
      rw [step, Option.ite_none_right_eq_some] at h
      obtain ⟨⟨hpc, hpos, hsize, hk⟩, h⟩ := h
      split_ifs at h with hshort
      · cases h
        exact .peekShort hpc hpos hk hshort
      · cases h
        exact .peek hpc hk (by omega)
  | readHeader =>
      rw [step, Option.ite_none_right_eq_some] at h
      obtain ⟨hpc, heq⟩ := h
      cases heq
      exact .readHeader hpc
  | readPayload k =>
      simp only [step] at h
      split at h
      · rename_i header recvBuf hpc
        rw [Option.ite_none_right_eq_some] at h
        obtain ⟨⟨hpos, hk, hfits⟩, heq⟩ := h
        cases heq
        exact .readPayload hpc hpos hk hfits
      · cases h

/-- A connection that has just been opened, over which `msgs` are going to be sent. -/
def opened (msgs : List Message) : Connection :=
  { queue := msgs, buffers := [], wire := [], rcv := [], receiver := .idle, notified := false,
    handled := [] }

def connection (msgs : List Message) : Machine Connection Action where
  start s := s = opened msgs
  step := step

/-- The bytes that the receiver has not taken from its socket yet. -/
def Connection.ahead (s : Connection) : List UInt8 :=
  s.rcv ++ (s.wire ++ (s.buffers.flatten ++ s.queue.flatMap Message.frame))

/-- What a receiver has taken of the frame that it is reading. -/
def Receiver.taken : Receiver → List UInt8
  | .payload header recvBuf => header.encode ++ recvBuf
  | _ => []

structure ConnectionInv (msgs : List Message) (s : Connection) : Prop where
  queue : ∀ m ∈ s.queue, m.WellFormed
  framed : ∃ done rest, done ++ rest = msgs ∧ s.handled = done.map Message.call ∧
    s.receiver.taken ++ s.ahead = rest.flatMap Message.frame
  peeked : s.receiver = .peeked → headerSize ≤ s.rcv.length
  payload : ∀ h recvBuf, s.receiver = .payload h recvBuf →
    recvBuf.length < h.payloadLen.toNat
  idle : s.receiver = .idle → s.notified = false → s.rcv.length < headerSize

/-! ### The sender and the network -/

theorem ahead_begin {s : Connection} {m : Message} {queue : List Message} (hm : m.WellFormed)
    (hbuffers : s.buffers = []) (hqueue : s.queue = m :: queue) :
    Connection.ahead { s with queue := queue, buffers := tcpSendBuffers m } = s.ahead := by
  simp [Connection.ahead, hbuffers, hqueue, hm.flatten_tcpSendBuffers]

theorem ahead_accept {s : Connection} {k : Nat} {buffer : List UInt8} {buffers : List (List UInt8)}
    (hbuffers : s.buffers = buffer :: buffers) (hk : k ≤ buffer.length) :
    Connection.ahead { s with
      wire := s.wire ++ buffer.take k
      buffers := if k < buffer.length then buffer.drop k :: buffers else buffers } = s.ahead := by
  have hsplit : buffer.take k ++ buffer.drop k = buffer := List.take_append_drop k buffer
  by_cases hlt : k < buffer.length
  · simp only [Connection.ahead, if_pos hlt, hbuffers, List.flatten_cons, List.append_assoc]
    rw [← List.append_assoc (buffer.take k), hsplit]
  · have hall : buffer.take k = buffer := List.take_of_length_le (by omega)
    simp only [Connection.ahead, if_neg hlt, hbuffers, List.flatten_cons, List.append_assoc, hall]

theorem ahead_deliver (s : Connection) (k : Nat) :
    Connection.ahead { s with
      rcv := s.rcv ++ s.wire.take k, wire := s.wire.drop k, notified := true } = s.ahead := by
  simp only [Connection.ahead, List.append_assoc]
  rw [← List.append_assoc (s.wire.take k), List.take_append_drop]

/-! ### The receiver -/

theorem ConnectionInv.opened {msgs : List Message} (hmsgs : ∀ m ∈ msgs, m.WellFormed) :
    ConnectionInv msgs (opened msgs) where
  queue := hmsgs
  framed := ⟨[], msgs, rfl, rfl, by simp [Tcp.opened, Connection.ahead, Receiver.taken]⟩
  peeked := by
    intro h
    cases h
  payload := by
    intro _ _ h
    cases h
  idle := fun _ _ => by simp [Tcp.opened, headerSize]

section Steps

variable {msgs : List Message} {s t : Connection}

theorem ConnectionInv.moved (h : ConnectionInv msgs s) (hahead : t.ahead = s.ahead)
    (hreceiver : t.receiver = s.receiver) (hhandled : t.handled = s.handled)
    (hqueue : ∀ m ∈ t.queue, m ∈ s.queue) (hrcv : s.rcv.length ≤ t.rcv.length)
    (hnotified : t.notified = false → s.notified = false ∧ t.rcv = s.rcv) :
    ConnectionInv msgs t where
  queue m hm := h.queue m (hqueue m hm)
  framed := by
    obtain ⟨done, rest, hmsgs, hdone, hstream⟩ := h.framed
    exact ⟨done, rest, hmsgs, by rw [hhandled, hdone], by rw [hreceiver, hahead, hstream]⟩
  peeked hpc := le_trans (h.peeked (hreceiver ▸ hpc)) hrcv
  payload header recvBuf hpc := h.payload header recvBuf (hreceiver ▸ hpc)
  idle hpc hseen := by
    obtain ⟨hold, hsame⟩ := hnotified hseen
    rw [hsame]
    exact h.idle (hreceiver ▸ hpc) hold

theorem ConnectionInv.looked {receiver : Receiver} {notified : Bool} (h : ConnectionInv msgs s)
    (hold : s.receiver.taken = []) (hnew : receiver.taken = [])
    (hpeeked : receiver = .peeked → headerSize ≤ s.rcv.length)
    (hidle : receiver = .idle → notified = false → s.rcv.length < headerSize) :
    ConnectionInv msgs { s with receiver := receiver, notified := notified } where
  queue := h.queue
  framed := by
    obtain ⟨done, rest, hmsgs, hdone, hstream⟩ := h.framed
    rw [hold] at hstream
    exact ⟨done, rest, hmsgs, hdone, by rw [hnew]; exact hstream⟩
  peeked := hpeeked
  payload header recvBuf hpc := by
    simp only at hpc
    rw [hpc, Receiver.taken] at hnew
    exact absurd (List.append_eq_nil_iff.mp hnew).1 header.encode_ne_nil
  idle := hidle

theorem ConnectionInv.readHeader (h : ConnectionInv msgs s) (hmsgs : ∀ m ∈ msgs, m.WellFormed)
    (hpc : s.receiver = .peeked) :
    ConnectionInv msgs (({ s with rcv := s.rcv.drop headerSize }).onHeader
      (Header.decode (s.rcv.take headerSize))) := by
  obtain ⟨done, rest, hall, hdone, hstream⟩ := h.framed
  have hsplit : s.rcv.take headerSize ++
      Connection.ahead { s with rcv := s.rcv.drop headerSize } = rest.flatMap Message.frame := by
    rw [hpc] at hstream
    change s.ahead = _ at hstream
    rw [← hstream, Connection.ahead, Connection.ahead, ← List.append_assoc, List.take_append_drop]
  have hlen : (s.rcv.take headerSize).length = headerSize :=
    List.length_take_of_le (h.peeked hpc)
  obtain ⟨m, rest', rfl, hheader, hmore⟩ := flatMap_frame_head hlen hsplit
  have hm : m.WellFormed := hmsgs m (by rw [← hall]; simp)
  rw [hheader, Header.decode_encode]
  by_cases hpayload : 0 < m.header.payloadLen.toNat
  · -- the payload is still to come
    have hgoal : Connection.onHeader { s with rcv := s.rcv.drop headerSize } m.header =
        { s with rcv := s.rcv.drop headerSize, receiver := .payload m.header [] } := by
      simp [Connection.onHeader, hm.magic, hpayload, hm.small]
    rw [hgoal]
    refine ⟨h.queue, ⟨done, m :: rest', hall, hdone, ?_⟩, nofun, ?_, nofun⟩
    · simpa [Receiver.taken, hheader, Connection.ahead] using hsplit
    · rintro _ _ ⟨⟩
      exact hpayload
  · -- the message is complete
    have hgoal : Connection.onHeader { s with rcv := s.rcv.drop headerSize } m.header =
        { s with rcv := s.rcv.drop headerSize, receiver := .peeking,
                 handled := s.handled ++ [m.call] } := by
      have hzero : m.header.payloadLen.toNat = 0 := by omega
      simp [Connection.onHeader, hm.magic, Message.call, hzero]
    have hnil : m.payload = [] := List.eq_nil_of_length_eq_zero (by rw [hm.length]; omega)
    rw [hgoal]
    refine ⟨h.queue, ⟨done ++ [m], rest', by rw [← hall]; simp, ?_, ?_⟩, nofun, nofun, nofun⟩
    · simp [hdone]
    · rw [hnil, List.nil_append] at hmore
      exact hmore

theorem ConnectionInv.readPayload {k : Nat} {header : Header} {recvBuf : List UInt8}
    (h : ConnectionInv msgs s) (hmsgs : ∀ m ∈ msgs, m.WellFormed)
    (hpc : s.receiver = .payload header recvBuf) (hk : k ≤ s.rcv.length)
    (hfits : recvBuf.length + k ≤ header.payloadLen.toNat) :
    ConnectionInv msgs (({ s with rcv := s.rcv.drop k }).onPayload header
      (recvBuf ++ s.rcv.take k)) := by
  obtain ⟨done, rest, hall, hdone, hstream⟩ := h.framed
  have hsplit : header.encode ++ ((recvBuf ++ s.rcv.take k) ++
      Connection.ahead { s with rcv := s.rcv.drop k }) = rest.flatMap Message.frame := by
    rw [hpc, Receiver.taken] at hstream
    rw [← hstream, Connection.ahead, Connection.ahead]
    simp only [List.append_assoc]
    rw [← List.append_assoc (s.rcv.take k), List.take_append_drop]
  obtain ⟨m, rest', rfl, hheader, hmore⟩ := flatMap_frame_head header.length_encode hsplit
  have hm : m.WellFormed := hmsgs m (by rw [← hall]; simp)
  obtain rfl : header = m.header := by
    rw [← header.decode_encode, hheader, Header.decode_encode]
  have hread : (recvBuf ++ s.rcv.take k).length = recvBuf.length + k := by
    rw [List.length_append, List.length_take_of_le hk]
  by_cases hlt : (recvBuf ++ s.rcv.take k).length < m.header.payloadLen.toNat
  · rw [Connection.onPayload, if_pos hlt]
    refine ⟨h.queue, ⟨done, m :: rest', hall, hdone, ?_⟩, nofun, ?_, nofun⟩
    · rw [← hsplit, Receiver.taken, List.append_assoc]
      rfl
    · rintro _ _ ⟨⟩
      exact hlt
  · have hfull : (recvBuf ++ s.rcv.take k).length = m.payload.length := by
      rw [hm.length]
      omega
    obtain ⟨hpayload, hnext⟩ := List.append_inj hmore hfull
    have hpos : m.header.payloadLen.toNat ≠ 0 := by
      have := h.payload _ _ hpc
      omega
    rw [Connection.onPayload, if_neg hlt, hpayload]
    refine ⟨h.queue, ⟨done ++ [m], rest', by rw [← hall]; simp, ?_, ?_⟩, nofun, nofun, nofun⟩
    · simp [hdone, Message.call, hpos]
    · exact hnext

theorem ConnectionInv.step {a : Action} (h : ConnectionInv msgs s)
    (hmsgs : ∀ m ∈ msgs, m.WellFormed) (ha : step s a = some t) : ConnectionInv msgs t := by
  cases step_effect ha with
  | @begin m queue hbuffers hqueue =>
      have hm : m.WellFormed := h.queue m (by rw [hqueue]; exact List.mem_cons_self)
      refine h.moved (ahead_begin hm hbuffers hqueue) rfl rfl ?_ le_rfl fun hseen => ⟨hseen, rfl⟩
      intro m' hm'
      rw [hqueue]
      exact List.mem_cons_of_mem m hm'
  | accept hbuffers hpos hk =>
      exact h.moved (ahead_accept hbuffers hk) rfl rfl (fun _ hm => hm) le_rfl
        fun hseen => ⟨hseen, rfl⟩
  | @deliver k hpos hk =>
      refine h.moved (ahead_deliver s k) rfl rfl (fun _ hm => hm) ?_ fun hseen => by cases hseen
      rw [List.length_append]
      omega
  | call hpc =>
      exact h.looked (by rw [hpc]; rfl) rfl (fun hpeeked => by cases hpeeked)
        (fun hidle => by cases hidle)
  | peekAgain hpc =>
      refine h.looked (by rw [hpc]; rfl) rfl (fun hpeeked => by cases hpeeked) fun _ hseen => ?_
      have hnil : s.rcv = [] := by simpa using hseen
      simp [hnil, headerSize]
  | @peekShort k hpc hpos hk hshort =>
      refine h.looked (by rw [hpc]; rfl) rfl (fun hpeeked => by cases hpeeked) fun _ hseen => ?_
      have hall : k = s.rcv.length := by simpa using hseen
      omega
  | peek hpc hk hwhole =>
      exact h.looked (by rw [hpc]; rfl) rfl (fun _ => by omega) (fun hidle => by cases hidle)
  | readHeader hpc => exact h.readHeader hmsgs hpc
  | readPayload hpc hpos hk hfits => exact h.readPayload hmsgs hpc hk hfits

end Steps

theorem ConnectionInv.of_reachable {msgs : List Message} (hmsgs : ∀ m ∈ msgs, m.WellFormed)
    {s : Connection} (hs : (connection msgs).Reachable s) : ConnectionInv msgs s :=
  hs.invariant (fun _ hstart => hstart ▸ .opened hmsgs) fun _ _ _ h ha => h.step hmsgs ha

theorem handled_prefix {msgs : List Message} (hmsgs : ∀ m ∈ msgs, m.WellFormed)
    {s : Connection} (hs : (connection msgs).Reachable s) :
    s.handled <+: msgs.map Message.call := by
  obtain ⟨done, rest, hall, hdone, -⟩ := (ConnectionInv.of_reachable hmsgs hs).framed
  exact ⟨rest.map Message.call, by rw [← hall, hdone, List.map_append]⟩

theorem ConnectionInv.rest_eq_nil {msgs rest : List Message} {s : Connection}
    (h : ConnectionInv msgs s) (hwell : ∀ m ∈ rest, m.WellFormed)
    (hstream : s.receiver.taken ++ s.rcv = rest.flatMap Message.frame)
    (hread : s.rcv = [] ∨ s.receiver = .idle ∧ s.notified = false) : rest = [] := by
  cases rest with
  | nil => rfl
  | cons m rest =>
      exfalso
      have hlen : s.receiver.taken.length + s.rcv.length =
          headerSize + m.payload.length + (rest.flatMap Message.frame).length := by
        rw [← List.length_append, hstream, List.flatMap_cons, List.length_append, Message.frame,
          List.length_append, Header.length_encode]
      cases hpc : s.receiver with
      | payload header recvBuf =>
          have hnil : s.rcv = [] := hread.resolve_right fun hidle => by simp [hpc] at hidle
          rw [hpc, hnil, Receiver.taken, List.append_assoc] at hstream
          obtain ⟨_, _, hcons, hheader, -⟩ := flatMap_frame_head header.length_encode hstream
          obtain ⟨rfl, -⟩ := List.cons.inj hcons
          obtain rfl : header = m.header := by
            rw [← header.decode_encode, hheader, Header.decode_encode]
          have hpartial := h.payload _ _ hpc
          have hfull := (hwell m List.mem_cons_self).length
          simp only [hpc, hnil, Receiver.taken, List.length_append, Header.length_encode,
            List.length_nil] at hlen
          omega
      | idle =>
          have htaken : s.receiver.taken.length = 0 := by rw [hpc]; rfl
          have hshort : s.rcv.length < headerSize := by
            rcases hread with hnil | ⟨-, hseen⟩
            · simp [hnil, headerSize]
            · exact h.idle hpc hseen
          omega
      | peeking | peeked =>
          have htaken : s.receiver.taken.length = 0 := by rw [hpc]; rfl
          have hnil : s.rcv.length = 0 := by
            rw [hread.resolve_right fun hidle => by simp [hpc] at hidle, List.length_nil]
          simp only [headerSize] at hlen
          omega

/-- Once everything that was sent has arrived and has been read, or the last call has returned after
it saw all that had arrived, every message has been handled once, in the order of the sends. -/
theorem framing_round_trip {msgs : List Message} (hmsgs : ∀ m ∈ msgs, m.WellFormed)
    {s : Connection} (hs : (connection msgs).Reachable s) (hqueue : s.queue = [])
    (hbuffers : s.buffers = []) (hwire : s.wire = [])
    (hread : s.rcv = [] ∨ s.receiver = .idle ∧ s.notified = false) :
    s.handled = msgs.map Message.call := by
  have h := ConnectionInv.of_reachable hmsgs hs
  obtain ⟨done, rest, hall, hdone, hstream⟩ := h.framed
  have hahead : s.ahead = s.rcv := by
    simp [Connection.ahead, hwire, hbuffers, hqueue]
  rw [hahead] at hstream
  have hwell : ∀ m ∈ rest, m.WellFormed := fun m hm =>
    hmsgs m (by rw [← hall]; exact List.mem_append_right done hm)
  rw [h.rest_eq_nil hwell hstream hread, List.append_nil] at hall
  rw [hdone, hall]

private def cutFirst : Message :=
  ⟨{ magic := magic, type := 10, srcNode := 2, dstNode := 1, seqNum := 0, payloadLen := 2 }, [7, 9]⟩

private def cutSecond : Message :=
  ⟨{ magic := magic, type := 11, srcNode := 2, dstNode := 1, seqNum := 1, payloadLen := 0 }, []⟩

/-- The first header is cut after ten bytes and its payload after one. -/
private def cutRun : List Action :=
  [.begin, .accept 10, .deliver 10, .call, .peek 10, .accept 14, .accept 1, .deliver 15, .call,
    .peek 24, .readHeader, .readPayload 1, .accept 1, .deliver 1, .readPayload 1, .begin,
    .peekAgain, .accept 24, .deliver 24, .call, .peek 24, .readHeader, .peekAgain]

private def cutEnd : Connection :=
  { queue := [], buffers := [], wire := [], rcv := [], receiver := .idle, notified := false,
    handled := [cutFirst.call, cutSecond.call] }

theorem framing_round_trip_cut :
    (connection [cutFirst, cutSecond]).Reachable cutEnd ∧
      cutEnd.handled = [cutFirst, cutSecond].map Message.call := by
  have hreach : (connection [cutFirst, cutSecond]).Reachable cutEnd :=
    Machine.reachable_iff_exec.mpr ⟨_, cutRun, rfl, by decide⟩
  have hwell : ∀ m ∈ [cutFirst, cutSecond], m.WellFormed := by
    intro m hm
    rcases List.mem_pair.mp hm with rfl | rfl
    · exact ⟨rfl, by decide, rfl⟩
    · exact ⟨rfl, by decide, rfl⟩
  exact ⟨hreach, framing_round_trip hwell hreach rfl rfl rfl (.inl rfl)⟩

end Dsm.Tcp
