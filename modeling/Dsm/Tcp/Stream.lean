import Dsm.Tcp.Receive

/-!
# A connection as a queue

Messages are handed to a connection while it carries others. However few bytes `send` accepts, the
network delivers and `recv` returns at a time, for those at its ends a connection is a queue: a step of
the bytes leaves the queue as it is or takes its first message (`Stream.Inv.step`). The calls of
`dsm_tcp_send` for one connection do not overlap.
-/

namespace Dsm.Tcp

/-- What `dsm_handle_message` is called with: a header, and the payload unless it is `NULL`. -/
abbrev Call := Header × Option (List UInt8)

/-- One direction of a connection, with all messages that were handed to it. -/
structure Stream where
  conn : Connection
  sent : List Message
deriving DecidableEq, Repr

namespace Stream

def opened : Stream := { conn := Tcp.opened [], sent := [] }

/-- `dsm_tcp_send` is going to be called with more messages. -/
def send (s : Stream) (msgs : List Message) : Stream :=
  { conn := { s.conn with queue := s.conn.queue ++ msgs }, sent := s.sent ++ msgs }

/-- Some messages, or none, were handed to the connection. -/
def Handed (s t : Stream) : Prop := ∃ msgs, (∀ m ∈ msgs, m.WellFormed) ∧ t = s.send msgs

/-- A step of the bytes, and the call of `dsm_handle_message` that it leads to. -/
def step (s : Stream) (a : Action) : Option (Stream × Option Call) :=
  (Tcp.step s.conn a).map fun c => ({ s with conn := c }, c.handled[s.conn.handled.length]?)

/-- The messages that have not been handled yet. -/
def pending (s : Stream) : List Message := s.sent.drop s.conn.handled.length

/-- What a reader who knows some of the messages is still going to read. -/
def decoded {α : Type*} (decode : Call → Option α) (s : Stream) : List α :=
  s.pending.filterMap fun m => decode m.call

structure Inv (s : Stream) : Prop where
  wellFormed : ∀ m ∈ s.sent, m.WellFormed
  conn : ConnectionInv s.sent s.conn

end Stream

/-! ### The calls of one step -/

theorem handled_step {s t : Connection} {a : Action} (h : step s a = some t) :
    t.handled = s.handled ∨ ∃ call, t.handled = s.handled ++ [call] := by
  cases step_effect h with
  | readHeader =>
      unfold Connection.onHeader
      split_ifs
      · exact .inl rfl
      · exact .inl rfl
      · exact .inl rfl
      · exact .inr ⟨_, rfl⟩
  | readPayload =>
      unfold Connection.onPayload
      split_ifs
      · exact .inl rfl
      · exact .inr ⟨_, rfl⟩
  | begin | accept | deliver | call | peekAgain | peekShort | peek => exact .inl rfl

theorem ConnectionInv.handled_take {msgs : List Message} {s : Connection} (h : ConnectionInv msgs s) :
    s.handled = (msgs.take s.handled.length).map Message.call := by
  obtain ⟨done, rest, rfl, hdone, -⟩ := h.framed
  rw [hdone, List.length_map, List.take_left]

/-- The sender appends to its queue, behind everything that the receiver has to read. -/
theorem ConnectionInv.send {msgs more : List Message} {s : Connection} (h : ConnectionInv msgs s)
    (hmore : ∀ m ∈ more, m.WellFormed) :
    ConnectionInv (msgs ++ more) { s with queue := s.queue ++ more } where
  queue := List.forall_mem_append.mpr ⟨h.queue, hmore⟩
  framed := by
    obtain ⟨done, rest, hall, hdone, hstream⟩ := h.framed
    refine ⟨done, rest ++ more, by rw [← hall, List.append_assoc], hdone, ?_⟩
    rw [List.flatMap_append, ← hstream]
    simp only [Connection.ahead, List.flatMap_append, List.append_assoc]
  peeked := h.peeked
  payload := h.payload
  idle := h.idle

theorem payload_call {m : Message} (h : m.WellFormed) : m.call.2.getD [] = m.payload := by
  rw [Message.call]
  split_ifs with hzero
  · exact (List.eq_nil_of_length_eq_zero (h.length.trans hzero)).symm
  · rfl

/-! ### The queue -/

namespace Stream

theorem Inv.opened : Stream.opened.Inv where
  wellFormed := List.forall_mem_nil _
  conn := .opened (List.forall_mem_nil _)

theorem mem_sent_of_pending {s : Stream} {m : Message} (hm : m ∈ s.pending) : m ∈ s.sent :=
  List.mem_of_mem_drop hm

variable {s t : Stream} (h : s.Inv)
include h

theorem Inv.length_handled_le : s.conn.handled.length ≤ s.sent.length := by
  have hlen := congrArg List.length h.conn.handled_take
  rw [List.length_map, List.length_take] at hlen
  omega

theorem Inv.send {msgs : List Message} (hmsgs : ∀ m ∈ msgs, m.WellFormed) :
    (s.send msgs).Inv ∧ (s.send msgs).pending = s.pending ++ msgs := by
  refine ⟨⟨List.forall_mem_append.mpr ⟨h.wellFormed, hmsgs⟩, h.conn.send hmsgs⟩, ?_⟩
  exact List.drop_append_of_le_length h.length_handled_le

/-- A step of the bytes is nothing to the queue, or it takes the first message. -/
theorem Inv.step {a : Action} {call : Option Call} (hstep : s.step a = some (t, call)) :
    t.Inv ∧ t.sent = s.sent ∧ (call = none ∧ t.pending = s.pending ∨
      ∃ m, call = some m.call ∧ s.pending = m :: t.pending) := by
  obtain ⟨c, hc, heq⟩ := Option.map_eq_some_iff.mp hstep
  obtain ⟨rfl, rfl⟩ := Prod.mk.inj heq
  have hinv := h.conn.step h.wellFormed hc
  refine ⟨⟨h.wellFormed, hinv⟩, rfl, ?_⟩
  simp only [pending]
  rcases handled_step hc with hsame | ⟨call, hcall⟩
  · left
    rw [hsame, List.getElem?_eq_none le_rfl]
    exact ⟨rfl, rfl⟩
  · right
    have hold := h.conn.handled_take
    have hnew := hinv.handled_take
    have hlt : s.conn.handled.length < s.sent.length := by
      have hlen := congrArg List.length hnew
      rw [List.length_map, List.length_take, hcall, List.length_append, List.length_singleton] at hlen
      omega
    rw [hcall, List.length_append, List.length_singleton, ← List.take_append_getElem hlt,
      List.map_append, ← hold, List.append_cancel_left_eq] at hnew
    refine ⟨s.sent[s.conn.handled.length], ?_, ?_⟩
    · rw [hcall, List.getElem?_concat_length, (List.cons.inj hnew).1]
    · rw [hcall, List.length_append, List.length_singleton]
      exact List.drop_eq_getElem_cons hlt

/-! ### The queue of a reader -/

variable {α : Type*} {decode : Call → Option α}

theorem Inv.decoded_send {encode : α → Message} {as : List α} (hwell : ∀ a ∈ as, (encode a).WellFormed)
    (hround : ∀ a ∈ as, decode (encode a).call = some a) :
    (s.send (as.map encode)).Inv ∧
      (s.send (as.map encode)).decoded decode = s.decoded decode ++ as := by
  obtain ⟨hinv, hpending⟩ := h.send (List.forall_mem_map.mpr hwell)
  refine ⟨hinv, ?_⟩
  have has : (as.map encode).filterMap (fun m => decode m.call) = as := by
    rw [List.filterMap_map]
    exact (List.filterMap_congr hround).trans List.filterMap_some
  rw [decoded, hpending, List.filterMap_append, has, decoded]

theorem Inv.decoded_send_other {m : Message} (hwell : m.WellFormed) (hother : decode m.call = none) :
    (s.send [m]).Inv ∧ (s.send [m]).decoded decode = s.decoded decode := by
  have hwell : ∀ m' ∈ [m], m'.WellFormed := List.forall_mem_singleton.mpr hwell
  obtain ⟨hinv, hpending⟩ := h.send hwell
  refine ⟨hinv, ?_⟩
  have hnone : [m].filterMap (fun m => decode m.call) = [] := by simp [hother]
  rw [decoded, hpending, List.filterMap_append, hnone, List.append_nil, decoded]

theorem Inv.decoded_step (decode : Call → Option α) {a : Action} {call : Option Call}
    (hstep : s.step a = some (t, call)) :
    t.Inv ∧ (call.bind decode = none ∧ t.decoded decode = s.decoded decode ∨
      ∃ x, call.bind decode = some x ∧ s.decoded decode = x :: t.decoded decode) := by
  obtain ⟨hinv, -, ⟨rfl, hpending⟩ | ⟨m, rfl, hpending⟩⟩ := h.step hstep
  · exact ⟨hinv, .inl ⟨rfl, by rw [decoded, hpending, decoded]⟩⟩
  · refine ⟨hinv, ?_⟩
    simp only [decoded, hpending, List.filterMap_cons, Option.bind_some]
    cases hdecode : decode m.call with
    | none => exact .inl ⟨rfl, rfl⟩
    | some x => exact .inr ⟨x, rfl, rfl⟩

omit h

theorem Handed.refl (s : Stream) : s.Handed s :=
  ⟨[], List.forall_mem_nil _, by rw [send, List.append_nil, List.append_nil]⟩

/-! ### Several connections -/

variable {ι : Type*} [DecidableEq ι] {streams : ι → Stream}

theorem forall_inv_update (hall : ∀ i, (streams i).Inv) (i : ι) (hinv : t.Inv) :
    ∀ j, (Function.update streams i t j).Inv :=
  (Function.forall_update_iff streams fun _ stream => stream.Inv).mpr ⟨hinv, fun j _ => hall j⟩

theorem Handed.update {i : ι} (hsent : (streams i).Handed t) (j : ι) :
    (streams j).Handed (Function.update streams i t j) := by
  by_cases heq : j = i
  · subst heq
    rwa [Function.update_self]
  · rw [Function.update_of_ne heq]
    exact .refl _

theorem decoded_update (i : ι) :
    (fun j => (Function.update streams i t j).decoded decode) =
      Function.update (fun j => (streams j).decoded decode) i (t.decoded decode) :=
  Function.comp_update (decoded decode) streams i t

end Stream

end Dsm.Tcp
