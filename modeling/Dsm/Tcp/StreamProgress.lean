import Dsm.Tcp.ServerProgress
import Dsm.Tcp.Stream

/-!
# Every message of a stream is handled

A connection that is used for ever: its sender hands over new messages all the time, so its work is never
done. Yet each message is handled. The bytes of the first frame that is not complete arrive, since what is
sent later stays behind them, and the receiver takes them (`leadsTo_handled`). The connection may be part
of any machine; what it needs is that its three parties go on.
-/

namespace Dsm.Tcp

/-! ### The first frame -/

namespace Connection

/-- How many bytes have arrived since the last complete frame. -/
def arrived (c : Connection) : Nat := c.receiver.taken.length + c.rcv.length

def onWire (c : Connection) : Nat := c.arrived + c.wire.length

def buffered (c : Connection) : Nat := c.onWire + c.buffers.flatten.length

/-- What the sender and the network have still to do for a frame of this length. -/
def missing (c : Connection) (len : Nat) : Nat :=
  (len - c.arrived) + (len - c.onWire) + (len - c.buffered)

end Connection

/-- What the receiver has still to do for a frame of this length that has arrived. -/
def Receiver.remaining (len : Nat) : Receiver → Nat
  | .idle => len + 3
  | .peeking => len + 2
  | .peeked => len + 1
  | .payload header recvBuf => len - (Receiver.payload header recvBuf).taken.length

/-- The receiver is between frames, or the bytes that it has taken are a part of the first frame. -/
theorem ConnectionInv.taken_lt {msgs : List Message} {c : Connection} {m : Message} {rest : List Message}
    (h : ConnectionInv msgs c) (hm : m.WellFormed)
    (hstream : c.receiver.taken ++ c.ahead = (m :: rest).flatMap Message.frame) :
    c.receiver.taken.length < m.frame.length := by
  cases hpc : c.receiver with
  | idle | peeking | peeked => exact length_frame_pos m
  | payload header recvBuf =>
      rw [hpc, Receiver.taken, List.append_assoc] at hstream
      obtain ⟨_, _, hcons, hheader, -⟩ := flatMap_frame_head header.length_encode hstream
      obtain ⟨rfl, -⟩ := List.cons.inj hcons
      obtain rfl : header = m.header := by
        rw [← header.decode_encode, hheader, Header.decode_encode]
      have hpart := h.payload _ _ hpc
      rw [Receiver.taken, Message.frame, List.length_append, List.length_append, hm.length]
      omega

section Step

variable {msgs : List Message} {c c' : Connection} {a : Action}

/-- A step of the sender or the network is for the first frame, or follows bytes that have yet to be
delivered. -/
theorem ConnectionInv.peer_missing (h : ConnectionInv msgs c) (ha : a.byPeer = true)
    (hstep : Tcp.step c a = some c') {len : Nat} (harrived : c.arrived < len) :
    c'.missing len < c.missing len ∨
      c'.missing len = c.missing len ∧ c.wire ≠ [] ∧ c'.wire ≠ [] ∧ ∀ k, a ≠ .deliver k := by
  have hwire : len ≤ c.onWire → c.wire ≠ [] := by
    intro hle hnil
    rw [Connection.onWire, hnil, List.length_nil] at hle
    omega
  cases Tcp.step_effect hstep with
  | call | peekAgain | peekShort | peek | readHeader | readPayload => cases ha
  | @begin m queue hbuffers hqueue =>
      have hpos : 0 < (tcpSendBuffers m).flatten.length := by
        rw [(h.queue m (by rw [hqueue]; exact List.mem_cons_self)).flatten_tcpSendBuffers]
        exact length_frame_pos m
      simp only [Connection.missing, Connection.buffered, Connection.onWire, Connection.arrived,
        hbuffers, List.flatten_nil, List.length_nil] at hwire harrived ⊢
      by_cases hle : len ≤ c.receiver.taken.length + c.rcv.length + c.wire.length
      · exact .inr ⟨by omega, hwire hle, hwire hle, nofun⟩
      · exact .inl (by omega)
  | @accept k buffer buffers hbuffers hpos hk =>
      have htake : (buffer.take k).length = k := List.length_take_of_le hk
      have hrest : k + (if k < buffer.length then buffer.drop k :: buffers else buffers).flatten.length =
          buffer.length + buffers.flatten.length := by
        split_ifs
        · rw [List.flatten_cons, List.length_append, List.length_drop]
          omega
        · omega
      simp only [Connection.missing, Connection.buffered, Connection.onWire, Connection.arrived,
        hbuffers, List.flatten_cons, List.length_append, htake] at hwire harrived ⊢
      by_cases hle : len ≤ c.receiver.taken.length + c.rcv.length + c.wire.length
      · exact .inr ⟨by omega, hwire hle, List.append_ne_nil_of_left_ne_nil (hwire hle) _, nofun⟩
      · exact .inl (by omega)
  | @deliver k hpos hk =>
      left
      simp only [Connection.missing, Connection.buffered, Connection.onWire, Connection.arrived,
        List.length_append, List.length_take_of_le hk, List.length_drop] at harrived ⊢
      omega

/-- A step of the receiver completes the first frame, or changes nothing of what has arrived and, once
the frame has arrived, is one of finitely many. -/
theorem ConnectionInv.reader_remaining (h : ConnectionInv msgs c) (hmsgs : ∀ m ∈ msgs, m.WellFormed)
    (ha : a.byPeer = false) (hsees : a.SeesAll c) (hstep : Tcp.step c a = some c')
    {m : Message} {rest : List Message} (hm : m.WellFormed)
    (hstream : c.receiver.taken ++ c.ahead = (m :: rest).flatMap Message.frame) :
    c.handled.length < c'.handled.length ∨
      c'.handled = c.handled ∧ c'.arrived = c.arrived ∧ c'.wire = c.wire ∧ c'.buffers = c.buffers ∧
        (m.frame.length ≤ c.arrived →
          c'.receiver.remaining m.frame.length < c.receiver.remaining m.frame.length) := by
  have hframe : headerSize ≤ m.frame.length := by
    rw [Message.frame, List.length_append, Header.length_encode]
    omega
  have htaken := h.taken_lt hm hstream
  cases Tcp.step_effect hstep with
  | begin | accept | deliver => cases ha
  | call hpc | peek hpc =>
      right
      simp [Connection.arrived, hpc, Receiver.taken, Receiver.remaining]
  | peekAgain hpc =>
      have hrcv : c.rcv = [] := hsees
      refine .inr ⟨rfl, ?_, rfl, rfl, fun hall => ?_⟩
      · simp [Connection.arrived, hpc, Receiver.taken]
      · rw [Connection.arrived, hpc, hrcv] at hall
        exact absurd (hframe.trans hall) (by decide)
  | @peekShort k hpc _ _ hshort =>
      have hmin : k = min headerSize c.rcv.length := hsees
      refine .inr ⟨rfl, ?_, rfl, rfl, fun hall => ?_⟩
      · simp [Connection.arrived, hpc, Receiver.taken]
      · simp only [Connection.arrived, hpc, Receiver.taken, List.length_nil] at hall
        omega
  | readHeader hpc =>
      obtain ⟨m', hm', hheader⟩ := h.header_mem hpc
      have hwell := hmsgs m' hm'
      have hlen := h.peeked hpc
      rw [hheader, Connection.onHeader, if_neg (not_not.mpr hwell.magic)]
      split
      · rw [if_neg (Nat.not_lt.mpr hwell.small)]
        refine .inr ⟨rfl, ?_, rfl, rfl, fun _ => ?_⟩
        · simp only [Connection.arrived, hpc, Receiver.taken, List.append_nil, Header.length_encode,
            List.length_nil, List.length_drop]
          omega
        · rw [hpc]
          simp only [Receiver.remaining]
          omega
      · left
        simp
  | @readPayload k header recvBuf hpc hpos hk =>
      rw [hpc, Receiver.taken, List.length_append, Header.length_encode] at htaken
      unfold Connection.onPayload
      split
      · refine .inr ⟨rfl, ?_, rfl, rfl, fun _ => ?_⟩
        · simp only [Connection.arrived, hpc, Receiver.taken, List.length_append, Header.length_encode,
            List.length_take_of_le hk, List.length_drop]
          omega
        · simp only [hpc, Receiver.remaining, Receiver.taken, List.length_append, Header.length_encode,
            List.length_take_of_le hk]
          omega
      · left
        simp

/-- The bytes ahead of the receiver, with those of the frame that it is reading. -/
theorem ConnectionInv.stream_eq (h : ConnectionInv msgs c) :
    c.receiver.taken ++ c.ahead = (msgs.drop c.handled.length).flatMap Message.frame := by
  obtain ⟨done, rest, rfl, hdone, hstream⟩ := h.framed
  rw [hstream, hdone, List.length_map, List.drop_left]

/-- If a frame has not arrived and nothing of it is on the wire, the sender has not written it all. -/
theorem Connection.unwritten {m : Message} {rest : List Message}
    (hstream : c.receiver.taken ++ c.ahead = (m :: rest).flatMap Message.frame)
    (harrived : c.arrived < m.frame.length) (hwire : c.wire = []) :
    c.buffers ≠ [] ∨ c.queue ≠ [] := by
  by_contra hnone
  rw [not_or, not_not, not_not] at hnone
  have hlen := congrArg List.length hstream
  rw [Connection.ahead, hwire, hnone.1, hnone.2, List.flatMap_cons] at hlen
  simp only [List.flatten_nil, List.flatMap_nil, List.append_nil, List.length_append] at hlen
  rw [Connection.arrived] at harrived
  omega

end Step

/-! ### A stream in a run -/

section Run

variable {σ α : Type*} {M : Machine σ α}

/-- In the run, `stream` is a stream whose bytes move in the actions `does a`, and to which the other
actions hand messages. -/
structure Carries (r : M.Run) (stream : σ → Stream) (does : Action → α) : Prop where
  injective : Function.Injective does
  start : (stream (r.state 0)).Inv
  step : ∀ n, (∃ a call, r.act n = does a ∧
      (stream (r.state n)).step a = some (stream (r.state (n + 1)), call)) ∨
    (∀ a, r.act n ≠ does a) ∧ (stream (r.state n)).Handed (stream (r.state (n + 1)))

/-- The sender, the network and the receiver go on while there are bytes for them, and `recv` returns what
has arrived. -/
structure StreamFair (r : M.Run) (stream : σ → Stream) (does : Action → α) : Prop where
  sender : ∀ n, (stream (r.state n)).conn.buffers ≠ [] ∨ (stream (r.state n)).conn.queue ≠ [] →
    ∃ m, n ≤ m ∧ ∃ a, r.act m = does a ∧ a.byPeer = true ∧ ∀ k, a ≠ .deliver k
  network : ∀ n, (stream (r.state n)).conn.wire ≠ [] → ∃ m, n ≤ m ∧ ∃ k, r.act m = does (.deliver k)
  receiver : ∀ n, (stream (r.state n)).conn.rcv ≠ [] →
    ∃ m, n ≤ m ∧ ∃ a, r.act m = does a ∧ a.byPeer = false
  recv : ∀ n a, r.act n = does a → a.SeesAll (stream (r.state n)).conn

/-- A machine that may stand still carries a stream if each of its steps does. -/
theorem Carries.of_step (r : M.idling.Run) {stream : σ → Stream} {does : Action → α}
    (hinjective : Function.Injective does) (hstart : ∀ s, M.start s → (stream s).Inv)
    (hstep : ∀ s a t, M.step s a = some t →
      (∃ b call, a = does b ∧ (stream s).step b = some (stream t, call)) ∨
        (∀ b, a ≠ does b) ∧ (stream s).Handed (stream t)) :
    Carries r stream fun b => some (does b) where
  injective := (Option.some_injective α).comp hinjective
  start := hstart _ r.start
  step n := by
    have hnow := r.step n
    cases hact : r.act n with
    | none =>
        rw [hact] at hnow
        rw [← Option.some.inj hnow]
        exact .inr ⟨nofun, .refl _⟩
    | some a =>
        rw [hact] at hnow
        refine (hstep _ a _ hnow).imp ?_ ?_
        · rintro ⟨b, call, rfl, hbytes⟩
          exact ⟨b, call, rfl, hbytes⟩
        · rintro ⟨hother, hsent⟩
          exact ⟨fun b heq => hother b (Option.some.inj heq), hsent⟩

variable {r : M.Run} {stream : σ → Stream} {does : Action → α}

theorem Carries.inv (h : Carries r stream does) (n : ℕ) : (stream (r.state n)).Inv := by
  induction n with
  | zero => exact h.start
  | succ n ih =>
      rcases h.step n with ⟨a, call, -, hstep⟩ | ⟨-, msgs, hwell, heq⟩
      · exact (ih.step hstep).1
      · rw [heq]
        exact (ih.send hwell).1

/-- The next message to be handled is number `k`, and it is `m`. -/
def Stream.Next (k : Nat) (m : Message) (s : Stream) : Prop :=
  s.conn.handled.length = k ∧ s.sent[k]? = some m

theorem Stream.Inv.first {s : Stream} {k : Nat} {m : Message} (h : s.Inv) (hnext : s.Next k m) :
    m.WellFormed ∧
      ∃ rest, s.conn.receiver.taken ++ s.conn.ahead = (m :: rest).flatMap Message.frame := by
  obtain ⟨rfl, hm⟩ := hnext
  obtain ⟨hlt, hget⟩ := List.getElem?_eq_some_iff.mp hm
  refine ⟨h.wellFormed m (hget ▸ List.getElem_mem hlt), s.sent.drop (s.conn.handled.length + 1), ?_⟩
  rw [h.conn.stream_eq, List.drop_eq_getElem_cons hlt, hget]

/-- What a step may do that does not complete the next message `m`. -/
inductive Connection.Moves (c c' : Connection) (m : Message) : Option Action → Prop where
  | send (harrived : c'.arrived = c.arrived) (hwire : c'.wire = c.wire) (hbuffers : c'.buffers = c.buffers)
      (hreceiver : c'.receiver = c.receiver) : Moves c c' m none
  | peer {a : Action} (ha : a.byPeer = true) (harrived : c.arrived ≤ c'.arrived)
      (hreceiver : c'.receiver = c.receiver)
      (hmissing : c.arrived < m.frame.length → c'.missing m.frame.length < c.missing m.frame.length ∨
        c'.missing m.frame.length = c.missing m.frame.length ∧ c.wire ≠ [] ∧ c'.wire ≠ [] ∧
          ∀ k, a ≠ .deliver k) : Moves c c' m (some a)
  | reader {a : Action} (ha : a.byPeer = false) (harrived : c'.arrived = c.arrived)
      (hwire : c'.wire = c.wire) (hbuffers : c'.buffers = c.buffers)
      (hremaining : m.frame.length ≤ c.arrived →
        c'.receiver.remaining m.frame.length < c.receiver.remaining m.frame.length) :
      Moves c c' m (some a)

variable (hcarries : Carries r stream does) (hfair : StreamFair r stream does)
include hcarries hfair

theorem next_step {n : ℕ} {k : Nat} {m : Message} (hnext : (stream (r.state n)).Next k m) :
    k < (stream (r.state (n + 1))).conn.handled.length ∨
      (stream (r.state (n + 1))).Next k m ∧ ∃ a, (∀ b, r.act n = does b ↔ a = some b) ∧
        (stream (r.state n)).conn.Moves (stream (r.state (n + 1))).conn m a := by
  have hinv := hcarries.inv n
  obtain ⟨hm, rest, hstream⟩ := hinv.first hnext
  obtain ⟨hk, hsent⟩ := hnext
  rcases hcarries.step n with ⟨a, call, hact, hstep⟩ | ⟨hother, msgs, -, heq⟩
  · have hthis : ∀ b, r.act n = does b ↔ some a = some b := by
      intro b
      rw [hact, hcarries.injective.eq_iff, Option.some.injEq]
    obtain ⟨c, hc, hpair⟩ := Option.map_eq_some_iff.mp hstep
    rw [← (Prod.mk.inj hpair).1]
    cases ha : a.byPeer with
    | true =>
        obtain ⟨-, -, hreceiver, hhandled, hrcv⟩ := hinv.conn.peer_step ha hc
        refine .inr ⟨⟨hhandled ▸ hk, hsent⟩, some a, hthis, .peer ha ?_ hreceiver ?_⟩
        · rw [Connection.arrived, Connection.arrived, hreceiver]
          exact Nat.add_le_add_left hrcv _
        · exact hinv.conn.peer_missing ha hc
    | false =>
        rcases hinv.conn.reader_remaining hinv.wellFormed ha (hfair.recv n a hact) hc hm hstream with
          hmore | ⟨hhandled, harrived, hwire, hbuffers, hremaining⟩
        · exact .inl (hk ▸ hmore)
        · exact .inr ⟨⟨hhandled ▸ hk, hsent⟩, some a, hthis,
            .reader ha harrived hwire hbuffers hremaining⟩
  · right
    rw [heq]
    refine ⟨⟨hk, ?_⟩, none, fun b => ?_, .send rfl rfl rfl rfl⟩
    · rw [Stream.send, List.getElem?_append_left (List.getElem?_eq_some_iff.mp hsent).1]
      exact hsent
    · exact iff_of_false (hother b) fun heq => by cases heq

theorem leadsTo_arrived (k : Nat) (m : Message) :
    r.LeadsTo (fun s => (stream s).Next k m)
      (fun s => (stream s).Next k m ∧ m.frame.length ≤ (stream s).conn.arrived ∨
        k < (stream s).conn.handled.length) := by
  refine Machine.Run.LeadsTo.of_measure (fun s => (stream s).conn.missing m.frame.length) fun j => ?_
  let Here : σ → Prop := fun s => (stream s).Next k m ∧
    (stream s).conn.missing m.frame.length = j ∧ (stream s).conn.arrived < m.frame.length
  let Goal : σ → Prop := fun s => ((stream s).Next k m ∧ (stream s).conn.missing m.frame.length < j) ∨
    (stream s).Next k m ∧ m.frame.length ≤ (stream s).conn.arrived ∨ k < (stream s).conn.handled.length
  have hstep : ∀ n, Here (r.state n) → Goal (r.state (n + 1)) ∨ Here (r.state (n + 1)) ∧
      ((stream (r.state (n + 1))).conn.wire = [] ↔ (stream (r.state n)).conn.wire = []) ∧
      ∀ a, r.act n = does a → a.byPeer = true →
        (stream (r.state n)).conn.wire ≠ [] ∧ ∀ k, a ≠ .deliver k := by
    rintro n ⟨hnext, hj, harrived⟩
    rcases next_step hcarries hfair hnext with hdone | ⟨hnext', a, hact, hmoves⟩
    · exact .inl (.inr (.inr hdone))
    by_cases hall : m.frame.length ≤ (stream (r.state (n + 1))).conn.arrived
    · exact .inl (.inr (.inl ⟨hnext', hall⟩))
    have hhere : (stream (r.state (n + 1))).conn.missing m.frame.length =
        (stream (r.state n)).conn.missing m.frame.length → Here (r.state (n + 1)) :=
      fun hsame => ⟨hnext', hsame.trans hj, Nat.lt_of_not_le hall⟩
    cases hmoves with
    | send ha hwire hbuffers =>
        refine .inr ⟨hhere ?_, by rw [hwire], fun a hdoes => ?_⟩
        · simp only [Connection.missing, Connection.buffered, Connection.onWire, ha, hwire, hbuffers]
        · cases (hact a).mp hdoes
    | reader hreader ha hwire hbuffers =>
        refine .inr ⟨hhere ?_, by rw [hwire], fun a hdoes hpeer => ?_⟩
        · simp only [Connection.missing, Connection.buffered, Connection.onWire, ha, hwire, hbuffers]
        · cases (hact a).mp hdoes
          cases hreader.symm.trans hpeer
    | peer _ _ _ hmissing =>
        rcases hmissing harrived with hless | ⟨hsame, hwire, hwire', hother⟩
        · exact .inl (.inl ⟨hnext', hj ▸ hless⟩)
        · refine .inr ⟨hhere hsame, iff_of_false hwire' hwire, fun a hdoes _ => ?_⟩
          cases (hact a).mp hdoes
          exact ⟨hwire, hother⟩
  have hdelivered : r.LeadsTo (fun s => Here s ∧ (stream s).conn.wire ≠ []) Goal := by
    refine Machine.Run.leadsTo_of_unless (fun x => ∃ k, x = does (.deliver k)) ?_ ?_
      fun n hn => hfair.network n hn.2
    · rintro n ⟨hhere, hwire⟩
      rcases hstep n hhere with hgoal | ⟨hhere', hiff, -⟩
      · exact .inr hgoal
      · exact .inl ⟨hhere', fun hnil => hwire (hiff.mp hnil)⟩
    · rintro n ⟨hhere, -⟩ ⟨k, hact⟩
      refine (hstep n hhere).resolve_right fun hsame => ?_
      exact (hsame.2.2 _ hact rfl).2 k rfl
  have hwritten : r.LeadsTo (fun s => Here s ∧ (stream s).conn.wire = []) Goal := by
    refine Machine.Run.leadsTo_of_unless
      (fun x => ∃ a, x = does a ∧ a.byPeer = true ∧ ∀ k, a ≠ .deliver k) ?_ ?_ ?_
    · rintro n ⟨hhere, hwire⟩
      rcases hstep n hhere with hgoal | ⟨hhere', hiff, -⟩
      · exact .inr hgoal
      · exact .inl ⟨hhere', hiff.mpr hwire⟩
    · rintro n ⟨hhere, hwire⟩ ⟨a, hact, hpeer, -⟩
      refine (hstep n hhere).resolve_right fun hsame => ?_
      exact (hsame.2.2 a hact hpeer).1 hwire
    · rintro n ⟨⟨hnext, -, harrived⟩, hwire⟩
      obtain ⟨-, rest, hstream⟩ := (hcarries.inv n).first hnext
      exact hfair.sender n (Connection.unwritten hstream harrived hwire)
  rintro n ⟨hnext, hj⟩
  by_cases hall : m.frame.length ≤ (stream (r.state n)).conn.arrived
  · exact ⟨n, Nat.le_refl n, .inr (.inl ⟨hnext, hall⟩)⟩
  have hhere : Here (r.state n) := ⟨hnext, hj, Nat.lt_of_not_le hall⟩
  by_cases hwire : (stream (r.state n)).conn.wire = []
  · exact hwritten n ⟨hhere, hwire⟩
  · exact hdelivered n ⟨hhere, hwire⟩

theorem leadsTo_taken_of_arrived (k : Nat) (m : Message) :
    r.LeadsTo (fun s => (stream s).Next k m ∧ m.frame.length ≤ (stream s).conn.arrived)
      (fun s => k < (stream s).conn.handled.length) := by
  refine Machine.Run.LeadsTo.of_measure
    (fun s => (stream s).conn.receiver.remaining m.frame.length) fun j => ?_
  have hstep : ∀ n, (stream (r.state n)).Next k m ∧ m.frame.length ≤ (stream (r.state n)).conn.arrived →
      k < (stream (r.state (n + 1))).conn.handled.length ∨
        ((stream (r.state (n + 1))).Next k m ∧
            m.frame.length ≤ (stream (r.state (n + 1))).conn.arrived) ∧
          ((stream (r.state (n + 1))).conn.receiver.remaining m.frame.length <
              (stream (r.state n)).conn.receiver.remaining m.frame.length ∨
            (stream (r.state (n + 1))).conn.receiver = (stream (r.state n)).conn.receiver ∧
              ∀ a, r.act n = does a → a.byPeer = true) := by
    rintro n ⟨hnext, hall⟩
    rcases next_step hcarries hfair hnext with hdone | ⟨hnext', a, hact, hmoves⟩
    · exact .inl hdone
    right
    cases hmoves with
    | send harrived _ _ hreceiver =>
        refine ⟨⟨hnext', harrived ▸ hall⟩, .inr ⟨hreceiver, fun a hdoes => ?_⟩⟩
        cases (hact a).mp hdoes
    | peer hpeer harrived hreceiver =>
        refine ⟨⟨hnext', hall.trans harrived⟩, .inr ⟨hreceiver, fun a hdoes => ?_⟩⟩
        cases (hact a).mp hdoes
        exact hpeer
    | reader _ harrived _ _ hremaining => exact ⟨⟨hnext', harrived ▸ hall⟩, .inl (hremaining hall)⟩
  refine Machine.Run.leadsTo_of_unless (fun x => ∃ a, x = does a ∧ a.byPeer = false) ?_ ?_ ?_
  · rintro n ⟨hhere, hj⟩
    rcases hstep n hhere with hdone | ⟨hhere', hless | ⟨hsame, -⟩⟩
    · exact .inr (.inr hdone)
    · exact .inr (.inl ⟨hhere', hj ▸ hless⟩)
    · exact .inl ⟨hhere', by rw [hsame, hj]⟩
  · rintro n ⟨hhere, hj⟩ ⟨a, hact, hreader⟩
    rcases hstep n hhere with hdone | ⟨hhere', hless | ⟨-, hpeer⟩⟩
    · exact .inr hdone
    · exact .inl ⟨hhere', hj ▸ hless⟩
    · cases hreader.symm.trans (hpeer a hact)
  · rintro n ⟨⟨hnext, hall⟩, -⟩
    refine hfair.receiver n fun hnil => ?_
    obtain ⟨hm, rest, hstream⟩ := (hcarries.inv n).first hnext
    have htaken := (hcarries.inv n).conn.taken_lt hm hstream
    rw [Connection.arrived, hnil, List.length_nil] at hall
    omega

theorem leadsTo_next (k : Nat) (m : Message) :
    r.LeadsTo (fun s => (stream s).Next k m) (fun s => k < (stream s).conn.handled.length) :=
  (leadsTo_arrived hcarries hfair k m).trans
    ((leadsTo_taken_of_arrived hcarries hfair k m).or (.of_imp fun _ h => h))

omit hfair in
theorem sent_grows (n : ℕ) : (stream (r.state n)).sent <+: (stream (r.state (n + 1))).sent := by
  rcases hcarries.step n with ⟨a, call, -, hstep⟩ | ⟨-, msgs, -, heq⟩
  · rw [((hcarries.inv n).step hstep).2.1]
  · rw [heq]
    exact List.prefix_append _ _

theorem leadsTo_handled (k : Nat) :
    r.LeadsTo (fun s => k < (stream s).sent.length) (fun s => k < (stream s).conn.handled.length) := by
  have hstays : r.Stable fun s => k < (stream s).sent.length :=
    fun n hn => hn.trans_le (sent_grows hcarries n).length_le
  refine Machine.Run.LeadsTo.of_measure (fun s => k + 1 - (stream s).conn.handled.length) fun j => ?_
  rintro n ⟨hsent, hj⟩
  by_cases hdone : k < (stream (r.state n)).conn.handled.length
  · exact ⟨n, Nat.le_refl n, .inr hdone⟩
  have hlt : (stream (r.state n)).conn.handled.length < (stream (r.state n)).sent.length := by omega
  obtain ⟨m, hnm, hm⟩ := leadsTo_next hcarries hfair _ _ n ⟨rfl, List.getElem?_eq_getElem hlt⟩
  exact ⟨m, hnm, .inl ⟨hstays.lasts hsent hnm, by omega⟩⟩

omit hfair in
theorem stable_sent (k : Nat) (m : Message) : r.Stable fun s => (stream s).sent[k]? = some m := by
  intro n hn
  obtain ⟨rest, heq⟩ := sent_grows hcarries n
  rw [← heq, List.getElem?_append_left (List.getElem?_eq_some_iff.mp hn).1]
  exact hn

theorem exists_handling {k n : ℕ} {m : Message} (hsent : (stream (r.state n)).sent[k]? = some m)
    (hahead : (stream (r.state n)).conn.handled.length ≤ k) :
    ∃ i, n ≤ i ∧ ∃ a t, r.act i = does a ∧ (stream (r.state i)).step a = some (t, some m.call) := by
  obtain ⟨i, hni, hi⟩ := leadsTo_handled hcarries hfair k n (List.getElem?_eq_some_iff.mp hsent).1
  induction i, hni using Nat.le_induction with
  | base => exact absurd hi (Nat.not_lt.mpr hahead)
  | succ i hni ih =>
      by_cases hbefore : k < (stream (r.state i)).conn.handled.length
      · exact ih hbefore
      refine ⟨i, hni, ?_⟩
      rcases hcarries.step i with ⟨a, call, hact, hstep⟩ | ⟨-, msgs, -, heq⟩
      · obtain ⟨hinv, hsame, htakes⟩ := (hcarries.inv i).step hstep
        have hlen : (stream (r.state (i + 1))).pending.length + k <
            (stream (r.state (i + 1))).sent.length := by
          have hle := hinv.length_handled_le
          rw [Stream.pending, List.length_drop]
          omega
        rcases htakes with ⟨-, hpending⟩ | ⟨m', rfl, hpending⟩
        · rw [hpending, hsame, Stream.pending, List.length_drop] at hlen
          omega
        · have hget := (stable_sent hcarries k m).lasts hsent hni
          have hk : (stream (r.state i)).conn.handled.length = k := by
            have hlong := congrArg List.length hpending
            rw [Stream.pending, List.length_drop, List.length_cons] at hlong
            rw [hsame] at hlen
            omega
          have hfirst := congrArg List.head? hpending
          rw [Stream.pending, List.head?_drop, hk, hget, List.head?_cons] at hfirst
          exact ⟨a, _, hact, (Option.some.inj hfirst) ▸ hstep⟩
      · rw [heq] at hi
        exact absurd hi hbefore

theorem exists_read {β : Type*} {decode : Call → Option β} {n : ℕ}
    (hmore : (stream (r.state n)).decoded decode ≠ []) :
    ∃ i, n ≤ i ∧ ∃ a t call, r.act i = does a ∧ (stream (r.state i)).step a = some (t, some call) ∧
      (decode call).isSome = true := by
  obtain ⟨x, hx⟩ := List.exists_mem_of_ne_nil _ hmore
  obtain ⟨m, hm, hdecode⟩ := List.mem_filterMap.mp hx
  obtain ⟨j, hj⟩ := List.mem_iff_getElem?.mp hm
  rw [Stream.pending, List.getElem?_drop] at hj
  obtain ⟨i, hni, a, t, hact, hstep⟩ := exists_handling hcarries hfair hj (Nat.le_add_right _ _)
  exact ⟨i, hni, a, t, m.call, hact, hstep, by rw [hdecode]; rfl⟩

end Run

/-! ### Finite runs -/

def Action.delivers : Action → Bool
  | .deliver _ => true
  | _ => false

/-- Evaluate along a run whether what waits in a stream is taken up, and its receiver sees all of it. -/
def serves {σ α : Type*} (M : Machine σ α) (stream : σ → Stream) (bytes : α → Option Action) (s : σ)
    (as : List α) : Bool :=
  M.answered (fun s => decide ((stream s).conn.buffers ≠ [] ∨ (stream s).conn.queue ≠ []))
      (fun x => (bytes x).any fun a => a.byPeer && !a.delivers) s as &&
    M.answered (fun s => decide ((stream s).conn.wire ≠ [])) (fun x => (bytes x).any Action.delivers)
      s as &&
    M.answered (fun s => decide ((stream s).conn.rcv ≠ [])) (fun x => (bytes x).any fun a => !a.byPeer)
      s as &&
    M.checks (fun s x => ∀ a ∈ bytes x, a.SeesAll (stream s).conn) s as

theorem streamFair_ofExec {σ α : Type*} {M : Machine σ α} {s t : σ} {as : List α} {idle : α}
    (hs : M.start s) (has : M.exec s as = some t) (hidle : M.step t idle = some t) {stream : σ → Stream}
    {does : Action → α} {bytes : α → Option Action} (hbytes : ∀ x a, bytes x = some a ↔ x = does a)
    (hserves : serves M stream bytes s as = true) (hquiet : bytes idle = none) :
    StreamFair (Machine.Run.ofExec hs has hidle) stream does := by
  rw [serves, Bool.and_eq_true, Bool.and_eq_true, Bool.and_eq_true] at hserves
  obtain ⟨⟨⟨hsender, hnetwork⟩, hreceiver⟩, hrecv⟩ := hserves
  refine ⟨fun n hn => ?_, fun n hn => ?_, fun n hn => ?_, fun n a hact => ?_⟩
  · obtain ⟨m, hnm, hm⟩ := Machine.Run.ofExec_answered hs has hidle hsender n (decide_eq_true hn)
    obtain ⟨a, ha, hsends⟩ := (Option.any_eq_true ..).mp hm
    rw [Bool.and_eq_true, Bool.not_eq_true'] at hsends
    refine ⟨m, hnm, a, (hbytes _ a).mp ha, hsends.1, ?_⟩
    rintro k rfl
    cases hsends.2
  · obtain ⟨m, hnm, hm⟩ := Machine.Run.ofExec_answered hs has hidle hnetwork n (decide_eq_true hn)
    obtain ⟨a, ha, hdelivers⟩ := (Option.any_eq_true ..).mp hm
    cases a with
    | deliver k => exact ⟨m, hnm, k, (hbytes _ _).mp ha⟩
    | begin | accept | call | peekAgain | peek | readHeader | readPayload => cases hdelivers
  · obtain ⟨m, hnm, hm⟩ := Machine.Run.ofExec_answered hs has hidle hreceiver n (decide_eq_true hn)
    obtain ⟨a, ha, hreads⟩ := (Option.any_eq_true ..).mp hm
    rw [Bool.not_eq_true'] at hreads
    exact ⟨m, hnm, a, (hbytes _ a).mp ha, hreads⟩
  · have hlast : ∀ a ∈ bytes idle, a.SeesAll (stream t).conn := by
      rw [hquiet]
      exact fun _ ha => by cases ha
    have heach := Machine.Run.ofExec_each hs has hidle (Machine.eachStep_of_checks hrecv) hlast n
    exact heach a ((hbytes _ a).mpr hact)

end Dsm.Tcp
