import Dsm.Library.Fairness
import Dsm.Tcp.ServerMachine

/-!
# Every message is handled

What the server thread is for: whatever connections there are, and however their bytes arrive, every
message that a peer sends over an accepted or pending connection is handled in the end, once and in
order. The thread always returns to `epoll_wait`, since a payload that it waits for in
`handle_client_data` arrives; a socket that holds a frame is ready, so some round has an event for it;
and a round goes through all of its events.

What is assumed: a peer that has begun a frame completes it and the network delivers it, the thread is
scheduled, `recv` returns what has arrived, and `epoll_wait` reports at some time whatever stays ready.
-/

namespace Dsm.Tcp

/-! ### The bytes of a connection -/

/-- What the peer and the network have still to do, counted so that each of their steps lowers it. -/
def Connection.todo (c : Connection) : Nat :=
  c.wire.length + 2 * c.buffers.flatten.length + 3 * (c.queue.flatMap Message.frame).length

/-- What the reader has still to do for the bytes ahead of it. -/
def Connection.work (c : Connection) : Nat :=
  2 * c.ahead.length + if c.receiver = .peeking then 1 else 0

/-- A `recv` with `MSG_PEEK` shows all that has arrived, up to the length of a header. -/
def Action.SeesAll (c : Connection) : Action → Prop
  | .peek k => k = min headerSize c.rcv.length
  | .peekAgain => c.rcv = []
  | _ => True

instance (c : Connection) : DecidablePred (Action.SeesAll c)
  | .peek _ => inferInstanceAs (Decidable (_ = _))
  | .peekAgain => inferInstanceAs (Decidable (_ = _))
  | .begin | .accept _ | .deliver _ | .call | .readHeader | .readPayload _ => .isTrue trivial

theorem Connection.ahead_eq_rcv {c : Connection} (h : c.todo = 0) : c.ahead = c.rcv := by
  unfold Connection.todo at h
  have hwire : c.wire = [] := List.length_eq_zero_iff.mp (by omega)
  have hbuffers : c.buffers.flatten = [] := List.length_eq_zero_iff.mp (by omega)
  have hqueue : c.queue.flatMap Message.frame = [] := List.length_eq_zero_iff.mp (by omega)
  rw [Connection.ahead, hwire, hbuffers, hqueue, List.append_nil, List.append_nil, List.append_nil]

theorem length_frame_pos (m : Message) : 0 < m.frame.length := by
  rw [Message.frame, List.length_append, Header.length_encode, headerSize]
  omega

section Connection

variable {msgs : List Message} {c c' : Connection} {a : Action}

theorem ConnectionInv.peer_step (h : ConnectionInv msgs c) (ha : a.byPeer = true)
    (hstep : Tcp.step c a = some c') :
    c'.todo < c.todo ∧ c'.ahead = c.ahead ∧ c'.receiver = c.receiver ∧ c'.handled = c.handled ∧
      c.rcv.length ≤ c'.rcv.length := by
  cases Tcp.step_effect hstep with
  | call | peekAgain | peekShort | peek | readHeader | readPayload => cases ha
  | @begin m queue hbuffers hqueue =>
      have hm : m.WellFormed := h.queue m (by rw [hqueue]; exact List.mem_cons_self)
      refine ⟨?_, ahead_begin hm hbuffers hqueue, rfl, rfl, Nat.le_refl _⟩
      have hpos := length_frame_pos m
      simp only [Connection.todo, hbuffers, hqueue, hm.flatten_tcpSendBuffers, List.flatten_nil,
        List.length_nil, List.flatMap_cons, List.length_append]
      omega
  | @accept k buffer buffers hbuffers hpos hk =>
      refine ⟨?_, ahead_accept hbuffers hk, rfl, rfl, Nat.le_refl _⟩
      have htake : (buffer.take k).length = k := List.length_take_of_le hk
      by_cases hlt : k < buffer.length
      · simp only [Connection.todo, if_pos hlt, hbuffers, List.flatten_cons, List.length_append,
          htake, List.length_drop]
        omega
      · simp only [Connection.todo, if_neg hlt, hbuffers, List.flatten_cons, List.length_append, htake]
        omega
  | @deliver k hpos hk =>
      refine ⟨?_, ahead_deliver c k, rfl, rfl, ?_⟩
      · simp only [Connection.todo, List.length_drop]
        omega
      · rw [List.length_append]
        omega

/-- The header that the reader takes is the one of a message that has been sent. -/
theorem ConnectionInv.header_mem (h : ConnectionInv msgs c) (hpc : c.receiver = .peeked) :
    ∃ m ∈ msgs, Header.decode (c.rcv.take headerSize) = m.header := by
  obtain ⟨done, rest, hall, -, hstream⟩ := h.framed
  rw [hpc] at hstream
  have hlen : (c.rcv.take headerSize).length = headerSize := List.length_take_of_le (h.peeked hpc)
  have hsplit : c.rcv.take headerSize ++ (c.rcv.drop headerSize ++
      (c.wire ++ (c.buffers.flatten ++ c.queue.flatMap Message.frame))) =
      rest.flatMap Message.frame := by
    rw [← List.append_assoc, List.take_append_drop]
    exact hstream
  obtain ⟨m, rest', rfl, hheader, -⟩ := flatMap_frame_head hlen hsplit
  refine ⟨m, by rw [← hall]; simp, ?_⟩
  rw [hheader, Header.decode_encode]

theorem length_ahead_drop_lt {k : Nat} (hpos : 0 < k) (hk : k ≤ c.rcv.length) :
    (Connection.ahead { c with rcv := c.rcv.drop k }).length < c.ahead.length := by
  simp only [Connection.ahead, List.length_append, List.length_drop]
  omega

/-- A step of the reader leaves the connection with all of what has arrived seen, finds a whole header,
or takes bytes. -/
theorem ConnectionInv.reader_step (h : ConnectionInv msgs c) (hmsgs : ∀ m ∈ msgs, m.WellFormed)
    (ha : a.byReader = true) (hsees : a.SeesAll c) (hstep : Tcp.step c a = some c') :
    c'.todo = c.todo ∧
      (c'.receiver = .idle ∧ c'.ahead = c.ahead ∧ c.receiver = .peeking ∧
          c.rcv.length < headerSize ∨
        c'.receiver = .peeked ∧ c'.ahead = c.ahead ∧ c.receiver = .peeking ∨
        c'.receiver ≠ .idle ∧ c'.ahead.length < c.ahead.length) := by
  cases Tcp.step_effect hstep with
  | begin | accept | deliver | call => cases ha
  | peekAgain hpc =>
      refine ⟨rfl, .inl ⟨rfl, rfl, hpc, ?_⟩⟩
      rw [show c.rcv = [] from hsees, List.length_nil, headerSize]
      omega
  | @peekShort k hpc _ _ hshort =>
      refine ⟨rfl, .inl ⟨rfl, rfl, hpc, ?_⟩⟩
      have hmin : k = min headerSize c.rcv.length := hsees
      omega
  | peek hpc => exact ⟨rfl, .inr (.inl ⟨rfl, rfl, hpc⟩)⟩
  | readHeader hpc =>
      obtain ⟨m, hm, hheader⟩ := h.header_mem hpc
      have hwell := hmsgs m hm
      have hless := length_ahead_drop_lt (c := c) (k := headerSize) (by decide) (h.peeked hpc)
      rw [hheader, Connection.onHeader, if_neg (not_not.mpr hwell.magic)]
      split
      · rw [if_neg (Nat.not_lt.mpr hwell.small)]
        exact ⟨rfl, .inr (.inr ⟨fun hidle => (by cases hidle), hless⟩)⟩
      · exact ⟨rfl, .inr (.inr ⟨fun hidle => (by cases hidle), hless⟩)⟩
  | readPayload _ hpos hk =>
      have hless := length_ahead_drop_lt hpos hk
      unfold Connection.onPayload
      split <;> exact ⟨rfl, .inr (.inr ⟨fun hidle => (by cases hidle), hless⟩)⟩

theorem ConnectionInv.handled_of_ahead (h : ConnectionInv msgs c) (hmsgs : ∀ m ∈ msgs, m.WellFormed)
    (hahead : c.ahead = []) : c.handled = msgs.map Message.call := by
  obtain ⟨done, rest, hall, hdone, hstream⟩ := h.framed
  have hrcv : c.rcv = [] := (List.append_eq_nil_iff.mp hahead).1
  have hwell : ∀ m ∈ rest, m.WellFormed := fun m hm =>
    hmsgs m (by rw [← hall]; exact List.mem_append_right done hm)
  rw [hahead, ← hrcv] at hstream
  rw [h.rest_eq_nil hwell hstream (.inl hrcv), List.append_nil] at hall
  rw [hdone, hall]

theorem ConnectionInv.headerSize_le (h : ConnectionInv msgs c) (htaken : c.receiver.taken = [])
    (hahead : c.ahead ≠ []) : headerSize ≤ c.ahead.length := by
  obtain ⟨done, rest, -, -, hstream⟩ := h.framed
  rw [htaken, List.nil_append] at hstream
  cases rest with
  | nil => exact absurd hstream hahead
  | cons m rest =>
      rw [hstream, List.flatMap_cons, Message.frame, List.length_append, List.length_append,
        Header.length_encode]
      omega

theorem ConnectionInv.ahead_ne_nil_of_payload (h : ConnectionInv msgs c)
    (hmsgs : ∀ m ∈ msgs, m.WellFormed) {header : Header} {recvBuf : List UInt8}
    (hpc : c.receiver = .payload header recvBuf) : c.ahead ≠ [] := by
  intro hahead
  obtain ⟨done, rest, hall, -, hstream⟩ := h.framed
  have hrcv : c.rcv = [] := (List.append_eq_nil_iff.mp hahead).1
  have hwell : ∀ m ∈ rest, m.WellFormed := fun m hm =>
    hmsgs m (by rw [← hall]; exact List.mem_append_right done hm)
  rw [hahead, ← hrcv] at hstream
  rw [h.rest_eq_nil hwell hstream (.inl hrcv), hpc, Receiver.taken, List.flatMap_nil] at hstream
  exact header.encode_ne_nil (List.append_eq_nil_iff.mp (List.append_eq_nil_iff.mp hstream).1).1

end Connection

/-! ### The steps of a run -/

variable {ι : Type*} [DecidableEq ι] {msgs : ι → List Message}

/-- A step of the server thread. -/
def ServerAction.byThread : Option (ServerAction ι) → Bool
  | some (.wait _) | some .accept | some .call | some (.read _) => true
  | _ => false

/-- The thread is not in a `recv` that has nothing to return. -/
def Server.Runs (s : Server ι) : Prop :=
  ∀ i ∈ s.reading, (s.conn i).receiver.taken ≠ [] → (s.conn i).rcv ≠ []

/-- What `recv` returns is all that has arrived. -/
def Server.SeesAll (s : Server ι) : Option (ServerAction ι) → Prop
  | some (.read a) => ∀ i ∈ s.reading, a.SeesAll (s.conn i)
  | _ => True

instance (s : Server ι) : DecidablePred s.SeesAll
  | some (.read a) => inferInstanceAs (Decidable (∀ i ∈ s.reading, a.SeesAll (s.conn i)))
  | none | some (.connect _) | some (.peer _ _) | some (.wait _) | some .accept | some .call =>
      .isTrue trivial

/-- The peers and the network go on with what they have begun, the thread is scheduled, `epoll_wait`
reports at some time what stays ready, and `recv` returns what has arrived. -/
structure ServerFair (r : (server msgs).idling.Run) : Prop where
  peer : ∀ i n, (r.state n).Connected i → ((r.state n).conn i).todo ≠ 0 →
    ∃ m, n ≤ m ∧ ∃ a, r.act m = some (.peer i a)
  thread : ∀ n, (r.state n).Runs → ∃ m, n ≤ m ∧ ServerAction.byThread (r.act m) = true
  reports : ∀ e n, (r.state n).Ready e → (∀ m, ∃ k, m ≤ k ∧ ∃ events, r.act k = some (.wait events)) →
    ∃ m, n ≤ m ∧ (¬ (r.state m).Ready e ∨ ∃ events, r.act m = some (.wait events) ∧ e ∈ events)
  recv : ∀ n, (r.state n).SeesAll (r.act n)

/-- What a step does to connection `i`. -/
inductive Server.OnConn (s t : Server ι) (i : ι) : Option (ServerAction ι) → Prop where
  | same {a : Option (ServerAction ι)} (hconn : t.conn i = s.conn i) (hpeer : ∀ b, a ≠ some (.peer i b))
      (hread : s.reading = some i → ServerAction.byThread a = false ∧ t.reading = some i) :
      OnConn s t i a
  | peer {b : Action} (hb : b.byPeer = true) (hstep : Tcp.step (s.conn i) b = some (t.conn i))
      (hreading : t.reading = s.reading) : OnConn s t i (some (.peer i b))
  | call (hreading : s.reading = none) (hstep : Tcp.step (s.conn i) .call = some (t.conn i))
      (hnow : t.reading = some i) : OnConn s t i (some .call)
  | read {b : Action} (hreading : s.reading = some i) (hb : b.byReader = true)
      (hstep : Tcp.step (s.conn i) b = some (t.conn i))
      (hnow : t.reading = if (t.conn i).receiver = .idle then none else some i) :
      OnConn s t i (some (.read b))

theorem Server.Effect.onConn {s t : Server ι} {a : ServerAction ι} (h : s.Effect a t) (i : ι) :
    s.OnConn t i (some a) := by
  cases h with
  | connect => exact .same rfl nofun fun hreading => ⟨rfl, hreading⟩
  | wait hreading | acceptNone hreading | accept hreading =>
      exact .same rfl nofun fun hbusy => by cases hreading.symm.trans hbusy
  | @peer j b c hb _ hstep =>
      by_cases heq : i = j
      · subst heq
        exact .peer hb (by rw [Server.setConn_self]; exact hstep) rfl
      · refine .same (Server.setConn_of_ne c heq) (fun b' hb' => ?_) fun hreading => ⟨rfl, hreading⟩
        cases hb'
        exact heq rfl
  | @call j events c hreading _ hstep =>
      by_cases heq : i = j
      · subst heq
        refine .call hreading ?_ rfl
        change _ = some ((s.setConn i c).conn i)
        rw [Server.setConn_self]
        exact hstep
      · exact .same (Server.setConn_of_ne c heq) nofun fun hbusy => by cases hreading.symm.trans hbusy
  | @read j b c hreading hb hstep =>
      by_cases heq : i = j
      · subst heq
        have hself : (s.setConn i c).conn i = c := Server.setConn_self ..
        refine .read hreading hb ?_ ?_
        · change _ = some ((s.setConn i c).conn i)
          rw [hself]
          exact hstep
        · change _ = if ((s.setConn i c).conn i).receiver = .idle then none else some i
          rw [hself]
      · refine .same (Server.setConn_of_ne c heq) nofun fun hbusy => ?_
        exact absurd (Option.some.inj (hbusy.symm.trans hreading)) heq

section Run

variable (r : (server msgs).idling.Run)

theorem server_step (n : ℕ) : r.act n = none ∧ r.state (n + 1) = r.state n ∨
    ∃ a, r.act n = some a ∧ (r.state n).Effect a (r.state (n + 1)) := by
  have hstep := r.step n
  cases hact : r.act n with
  | none =>
      rw [hact] at hstep
      exact .inl ⟨rfl, (Option.some.inj hstep).symm⟩
  | some a =>
      rw [hact] at hstep
      exact .inr ⟨a, rfl, Server.step_effect hstep⟩

theorem onConn_of_run (n : ℕ) (i : ι) : (r.state n).OnConn (r.state (n + 1)) i (r.act n) := by
  rcases server_step r n with ⟨hact, hsame⟩ | ⟨a, hact, heffect⟩
  · rw [hact, hsame]
    exact .same rfl nofun fun hreading => ⟨rfl, hreading⟩
  · rw [hact]
    exact heffect.onConn i

theorem connInv_of_run (hmsgs : ∀ i, ∀ m ∈ msgs i, m.WellFormed) (n : ℕ) (i : ι) :
    ConnectionInv (msgs i) ((r.state n).conn i) :=
  .of_reachable (hmsgs i) (reachable_conn (Machine.reachable_of_idling (r.reachable n)) i)

theorem serverInv_of_run (n : ℕ) : ServerInv (r.state n) :=
  serverInv_of_reachable (Machine.reachable_of_idling (r.reachable n))

variable {r}

theorem ahead_of_call {c c' : Connection} (hstep : Tcp.step c .call = some c') :
    c'.ahead = c.ahead ∧ c'.todo = c.todo := by
  cases Tcp.step_effect hstep with
  | call => exact ⟨rfl, rfl⟩

/-- No step takes bytes away from the peer, or puts bytes ahead of the reader. -/
theorem measures_le (hmsgs : ∀ i, ∀ m ∈ msgs i, m.WellFormed) (hfair : ServerFair r) (n : ℕ) (i : ι) :
    ((r.state (n + 1)).conn i).todo ≤ ((r.state n).conn i).todo ∧
      ((r.state (n + 1)).conn i).ahead.length ≤ ((r.state n).conn i).ahead.length := by
  have hinv := connInv_of_run r hmsgs n i
  have hrecv := hfair.recv n
  have hon := onConn_of_run r n i
  generalize r.act n = a at hon hrecv
  cases hon with
  | same hconn =>
      rw [hconn]
      exact ⟨Nat.le_refl _, Nat.le_refl _⟩
  | peer hb hstep =>
      obtain ⟨htodo, hahead, -⟩ := hinv.peer_step hb hstep
      rw [hahead]
      exact ⟨htodo.le, Nat.le_refl _⟩
  | call _ hstep =>
      obtain ⟨hahead, htodo⟩ := ahead_of_call hstep
      rw [hahead, htodo]
      exact ⟨Nat.le_refl _, Nat.le_refl _⟩
  | @read b hreading hb hstep =>
      obtain ⟨htodo, hread⟩ := hinv.reader_step (hmsgs i) hb (hrecv i hreading) hstep
      rw [htodo]
      refine ⟨Nat.le_refl _, ?_⟩
      rcases hread with ⟨-, hahead, -⟩ | ⟨-, hahead, -⟩ | ⟨-, hless⟩
      · rw [hahead]
      · rw [hahead]
      · exact hless.le

theorem stable_connected (i : ι) : r.Stable fun s => s.Connected i := by
  refine Machine.Run.stable_of_step fun s a t _ hstep hi => ?_
  cases Server.step_effect hstep with
  | connect => exact hi.imp_left (List.mem_append_left _)
  | accept _ _ hbacklog =>
      rcases hi with hi | hi
      · rw [hbacklog] at hi
        rcases List.mem_cons.mp hi with rfl | hi
        · exact .inr (List.mem_append_right _ List.mem_cons_self)
        · exact .inl hi
      · exact .inr (List.mem_append_left _ hi)
  | peer | wait | acceptNone | call | read => exact hi

theorem stable_registered (i : ι) : r.Stable fun s => i ∈ s.registered := by
  refine Machine.Run.stable_of_step fun s a t _ hstep hi => ?_
  cases Server.step_effect hstep with
  | accept => exact List.mem_append_left _ hi
  | connect | peer | wait | acceptNone | call | read => exact hi

/-! ### The bytes of a connection arrive -/

theorem leadsTo_arrived_bytes (hmsgs : ∀ i, ∀ m ∈ msgs i, m.WellFormed) (hfair : ServerFair r) (i : ι) :
    r.LeadsTo (fun s => s.Connected i) (fun s => (s.conn i).todo = 0) := by
  refine Machine.Run.LeadsTo.of_measure (fun s => (s.conn i).todo) fun k => ?_
  by_cases hk : k = 0
  · exact Machine.Run.LeadsTo.of_imp fun n hn => .inr (hn.2.trans hk)
  refine Machine.Run.leadsTo_of_unless (fun a => ∃ b, a = some (.peer i b)) (fun n hn => ?_)
    (fun n hn hact => ?_) fun n hn => hfair.peer i n hn.1 (by rw [hn.2]; exact hk)
  · have hconnected := stable_connected i n hn.1
    have hle := (measures_le hmsgs hfair n i).1
    rw [hn.2] at hle
    rcases Nat.eq_or_lt_of_le hle with heq | hlt
    · exact .inl ⟨hconnected, heq⟩
    · exact .inr (.inl ⟨hconnected, hlt⟩)
  · obtain ⟨b, hact⟩ := hact
    have hon := onConn_of_run r n i
    rw [hact] at hon
    cases hon with
    | same _ hpeer => exact absurd rfl (hpeer b)
    | peer hb hstep =>
        refine .inl ⟨stable_connected i n hn.1, ?_⟩
        have hless := ((connInv_of_run r hmsgs n i).peer_step hb hstep).1
        exact hn.2 ▸ hless

/-! ### The thread returns to `epoll_wait` -/

/-- While the thread is in a connection, only its own steps change where it is. -/
theorem reading_step (hmsgs : ∀ i, ∀ m ∈ msgs i, m.WellFormed) (hfair : ServerFair r) {n : ℕ} {i : ι}
    (hreading : (r.state n).reading = some i) :
    ((r.state (n + 1)).reading = some i ∧
          ((r.state (n + 1)).conn i).work = ((r.state n).conn i).work ∧
          ServerAction.byThread (r.act n) = false) ∨
      ((r.state (n + 1)).reading = some i ∧
          ((r.state (n + 1)).conn i).work < ((r.state n).conn i).work) ∨
      (r.state (n + 1)).reading = none := by
  have hinv := connInv_of_run r hmsgs n i
  have hrecv := hfair.recv n
  have hon := onConn_of_run r n i
  generalize r.act n = a at hon hrecv
  cases hon with
  | same hconn _ hread =>
      obtain ⟨hthread, hstill⟩ := hread hreading
      exact .inl ⟨hstill, by rw [hconn], hthread⟩
  | peer hb hstep hkept =>
      obtain ⟨-, hahead, hreceiver, -⟩ := hinv.peer_step hb hstep
      refine .inl ⟨hkept.trans hreading, ?_, rfl⟩
      rw [Connection.work, hahead, hreceiver, Connection.work]
  | call hnone => cases hnone.symm.trans hreading
  | @read b _ hb hstep hnow =>
      obtain ⟨-, hread⟩ := hinv.reader_step (hmsgs i) hb (hrecv i hreading) hstep
      by_cases hidle : ((r.state (n + 1)).conn i).receiver = .idle
      · exact .inr (.inr (hnow.trans (if_pos hidle)))
      · refine .inr (.inl ⟨hnow.trans (if_neg hidle), ?_⟩)
        unfold Connection.work
        rcases hread with ⟨hreturned, -⟩ | ⟨hpeeked, hahead, hpeeking⟩ | ⟨-, hless⟩
        · exact absurd hreturned hidle
        · rw [hpeeked, hahead, hpeeking, if_neg nofun, if_pos rfl]
          exact Nat.lt_succ_self _
        · split <;> split <;> omega

/-- Once all bytes of the connection have arrived, the thread never waits in it. -/
theorem runs_of_arrived (hmsgs : ∀ i, ∀ m ∈ msgs i, m.WellFormed) {n : ℕ} {i : ι}
    (hreading : (r.state n).reading = some i) (htodo : ((r.state n).conn i).todo = 0) :
    (r.state n).Runs := by
  intro j hj htaken
  obtain rfl : i = j := Option.some.inj (hreading.symm.trans hj)
  cases hpc : ((r.state n).conn i).receiver with
  | payload header recvBuf =>
      rw [← Connection.ahead_eq_rcv htodo]
      exact (connInv_of_run r hmsgs n i).ahead_ne_nil_of_payload (hmsgs i) hpc
  | idle | peeking | peeked =>
      rw [hpc] at htaken
      exact absurd rfl htaken

theorem leadsTo_returned (hmsgs : ∀ i, ∀ m ∈ msgs i, m.WellFormed) (hfair : ServerFair r) (i : ι) :
    r.LeadsTo (fun s => s.reading = some i) (fun s => s.reading = none) := by
  refine Machine.Run.LeadsTo.of_measure (fun s => (s.conn i).work) fun k => ?_
  let Here : Server ι → Prop := fun s => s.reading = some i ∧ (s.conn i).work = k
  let Next : Server ι → Prop := fun s =>
    (s.reading = some i ∧ (s.conn i).work < k) ∨ s.reading = none
  have hlasts : r.Unless Here Next := by
    rintro n ⟨hreading, hwork⟩
    rcases reading_step hmsgs hfair hreading with ⟨hstill, hsame, -⟩ | ⟨hstill, hless⟩ | hnone
    · exact .inl ⟨hstill, hsame.trans hwork⟩
    · exact .inr (.inl ⟨hstill, hwork ▸ hless⟩)
    · exact .inr (.inr hnone)
  have harrived := (leadsTo_arrived_bytes hmsgs hfair i).psp hlasts
  have hgoes : r.LeadsTo (fun s => (s.conn i).todo = 0 ∧ Here s) Next := by
    refine Machine.Run.leadsTo_of_unless (fun a => ServerAction.byThread a = true) (fun n hn => ?_)
      (fun n hn hact => ?_) fun n hn => hfair.thread n (runs_of_arrived hmsgs hn.2.1 hn.1)
    · refine (hlasts n hn.2).imp_left fun hhere => ⟨?_, hhere⟩
      exact Nat.le_zero.mp (hn.1 ▸ (measures_le hmsgs hfair n i).1)
    · obtain ⟨-, hreading, hwork⟩ := hn
      rcases reading_step hmsgs hfair hreading with ⟨-, -, hother⟩ | ⟨hstill, hless⟩ | hnone
      · rw [hother] at hact
        cases hact
      · exact .inl ⟨hstill, hwork ▸ hless⟩
      · exact .inr hnone
  intro n hn
  have hconnected : (r.state n).Connected i := .inr ((serverInv_of_run r n).busy i hn.1).2
  exact (harrived.trans (hgoes.or (.of_imp fun _ hnext => hnext))) n ⟨hconnected, hn⟩

/-- What the thread does with an event: it goes into the connection, or accepts one. -/
def Server.Dispatched (s t : Server ι) : Event ι → Prop
  | .client i => t.reading = some i
  | .listen => s.backlog = [] ∨
      ∃ i, s.backlog = i :: t.backlog ∧ t.registered = s.registered ++ [i]

/-- In every step of a run the events of the round stay, lose their first, or are new. -/
theorem events_step (n : ℕ) :
    ((r.state (n + 1)).events = (r.state n).events ∧ ((r.state n).reading = none →
        ServerAction.byThread (r.act n) = false ∧ (r.state (n + 1)).reading = none)) ∨
      ((r.state n).reading = none ∧ ∃ e, (r.state n).events = e :: (r.state (n + 1)).events ∧
        (r.state n).Dispatched (r.state (n + 1)) e) ∨
      ((r.state n).reading = none ∧ (r.state n).events = [] ∧
        r.act n = some (.wait (r.state (n + 1)).events)) := by
  rcases server_step r n with ⟨hact, hsame⟩ | ⟨a, hact, heffect⟩
  · rw [hact, hsame]
    exact .inl ⟨rfl, fun hreading => ⟨rfl, hreading⟩⟩
  · rw [hact]
    generalize r.state (n + 1) = t at heffect ⊢
    cases heffect with
    | connect | peer => exact .inl ⟨rfl, fun hreading => ⟨rfl, hreading⟩⟩
    | wait hreading hevents => exact .inr (.inr ⟨hreading, hevents, rfl⟩)
    | acceptNone hreading hevents hbacklog => exact .inr (.inl ⟨hreading, _, hevents, .inl hbacklog⟩)
    | accept hreading hevents hbacklog =>
        exact .inr (.inl ⟨hreading, _, hevents, .inr ⟨_, hbacklog, rfl⟩⟩)
    | call hreading hevents => exact .inr (.inl ⟨hreading, _, hevents, rfl⟩)
    | read hreading => exact .inl ⟨rfl, fun hnone => by cases hreading.symm.trans hnone⟩

theorem leadsTo_free (hmsgs : ∀ i, ∀ m ∈ msgs i, m.WellFormed) (hfair : ServerFair r)
    (events : List (Event ι)) : r.LeadsTo (fun s => s.events = events)
      (fun s => s.reading = none ∧ s.events = events) := by
  have hkept : r.Unless (fun s => s.reading ≠ none ∧ s.events = events)
      (fun s => s.reading = none ∧ s.events = events) := by
    rintro n ⟨hbusy, hevents⟩
    have hsame : (r.state (n + 1)).events = events := by
      rcases events_step (r := r) n with ⟨hsame, -⟩ | ⟨hnone, -⟩ | ⟨hnone, -⟩
      · exact hsame.trans hevents
      · exact absurd hnone hbusy
      · exact absurd hnone hbusy
    by_cases hnone : (r.state (n + 1)).reading = none
    · exact .inr ⟨hnone, hsame⟩
    · exact .inl ⟨hnone, hsame⟩
  intro n hevents
  cases hreading : (r.state n).reading with
  | none => exact ⟨n, Nat.le_refl n, hreading, hevents⟩
  | some i =>
      obtain ⟨m, hnm, hm⟩ := ((leadsTo_returned hmsgs hfair i).psp hkept) n
        ⟨hreading, by rw [hreading]; exact nofun, hevents⟩
      exact ⟨m, hnm, hm.resolve_left fun hboth => hboth.2.1 hboth.1⟩

section Dispatch

variable {R T D : Server ι → Prop}

theorem leadsTo_of_head (hmsgs : ∀ i, ∀ m ∈ msgs i, m.WellFormed) (hfair : ServerFair r)
    {e : Event ι} {rest : List (Event ι)} (hR : r.Unless R T)
    (hD : ∀ n, R (r.state n) → (r.state (n + 1)).events = rest →
      (r.state n).Dispatched (r.state (n + 1)) e → D (r.state (n + 1)) ∨ T (r.state (n + 1))) :
    r.LeadsTo (fun s => s.events = e :: rest ∧ R s) (fun s => D s ∨ T s) := by
  have hstep : ∀ n, (r.state n).reading = none → (r.state n).events = e :: rest → R (r.state n) →
      ((r.state (n + 1)).reading = none ∧ (r.state (n + 1)).events = e :: rest ∧
          ServerAction.byThread (r.act n) = false) ∨ D (r.state (n + 1)) ∨ T (r.state (n + 1)) := by
    intro n hreading hevents hRn
    rcases events_step (r := r) n with ⟨hsame, hother⟩ | ⟨-, e', htail, hdone⟩ | ⟨-, hnil, -⟩
    · obtain ⟨hthread, hnone⟩ := hother hreading
      exact .inl ⟨hnone, hsame.trans hevents, hthread⟩
    · rw [hevents] at htail
      obtain ⟨rfl, hrest⟩ := List.cons.inj htail
      exact .inr (hD n hRn hrest.symm hdone)
    · cases hevents.symm.trans hnil
  have hhead : r.LeadsTo (fun s => (s.reading = none ∧ s.events = e :: rest) ∧ R s)
      (fun s => D s ∨ T s) := by
    refine Machine.Run.leadsTo_of_unless (fun a => ServerAction.byThread a = true) (fun n hn => ?_)
      (fun n hn hact => ?_) fun n hn => hfair.thread n fun i hi => by cases hn.1.1.symm.trans hi
    · rcases hstep n hn.1.1 hn.1.2 hn.2 with ⟨hnone, hsame, -⟩ | hdone
      · rcases hR n hn.2 with hkept | hT
        · exact .inl ⟨⟨hnone, hsame⟩, hkept⟩
        · exact .inr (.inr hT)
      · exact .inr hdone
    · refine (hstep n hn.1.1 hn.1.2 hn.2).resolve_left fun hkept => ?_
      rw [hkept.2.2] at hact
      cases hact
  exact ((leadsTo_free hmsgs hfair (e :: rest)).psp hR).trans (hhead.or (.of_imp fun _ hT => .inr hT))

theorem leadsTo_of_event (hmsgs : ∀ i, ∀ m ∈ msgs i, m.WellFormed) (hfair : ServerFair r)
    {e : Event ι} (hR : r.Unless R T)
    (hD : ∀ n, R (r.state n) → (r.state n).Dispatched (r.state (n + 1)) e →
      D (r.state (n + 1)) ∨ T (r.state (n + 1))) :
    r.LeadsTo (fun s => e ∈ s.events ∧ R s) (fun s => D s ∨ T s) := by
  have hsplit : ∀ pre post : List (Event ι),
      r.LeadsTo (fun s => s.events = pre ++ e :: post ∧ R s) (fun s => D s ∨ T s) := by
    intro pre post
    induction pre with
    | nil => exact leadsTo_of_head hmsgs hfair hR fun n hRn _ hdone => hD n hRn hdone
    | cons e' pre ih =>
        have hfirst : r.LeadsTo (fun s => s.events = e' :: (pre ++ e :: post) ∧ R s)
            (fun s => (s.events = pre ++ e :: post ∧ R s) ∨ T s) :=
          leadsTo_of_head hmsgs hfair hR fun n hRn hrest _ => (hR n hRn).imp_left fun h => ⟨hrest, h⟩
        exact hfirst.trans (ih.or (.of_imp fun _ hT => .inr hT))
  rintro n ⟨hmem, hRn⟩
  obtain ⟨pre, post, heq⟩ := List.append_of_mem hmem
  exact hsplit pre post n ⟨heq, hRn⟩

end Dispatch

theorem leadsTo_roundOver (hmsgs : ∀ i, ∀ m ∈ msgs i, m.WellFormed) (hfair : ServerFair r)
    (events : List (Event ι)) : r.LeadsTo (fun s => s.events = events)
      (fun s => s.reading = none ∧ s.events = []) := by
  induction events with
  | nil => exact leadsTo_free hmsgs hfair []
  | cons e rest ih =>
      have hfirst : r.LeadsTo (fun s => s.events = e :: rest ∧ True)
          (fun s => s.events = rest ∨ False) :=
        leadsTo_of_head hmsgs hfair (fun _ _ => .inl trivial) fun n _ hrest _ => .inl hrest
      exact fun n hn => (hfirst.trans (ih.or (.of_imp fun _ h => h.elim))) n ⟨hn, trivial⟩

theorem waits_again (hmsgs : ∀ i, ∀ m ∈ msgs i, m.WellFormed) (hfair : ServerFair r) (n : ℕ) :
    ∃ m, n ≤ m ∧ ∃ events, r.act m = some (.wait events) := by
  obtain ⟨m, hnm, hreading, hevents⟩ := leadsTo_roundOver hmsgs hfair (r.state n).events n rfl
  by_contra hnever
  have hstays : ∀ k, m ≤ k → (r.state k).reading = none ∧ (r.state k).events = [] ∧
      ServerAction.byThread (r.act k) = false := by
    have hone : ∀ k, n ≤ k → (r.state k).reading = none → (r.state k).events = [] →
        ServerAction.byThread (r.act k) = false ∧ (r.state (k + 1)).reading = none ∧
          (r.state (k + 1)).events = [] := by
      intro k hnk hreading hevents
      rcases events_step (r := r) k with ⟨hsame, hother⟩ | ⟨-, e, htail, -⟩ | ⟨-, -, hwait⟩
      · obtain ⟨hthread, hnone⟩ := hother hreading
        exact ⟨hthread, hnone, hsame.trans hevents⟩
      · cases hevents.symm.trans htail
      · exact absurd ⟨k, hnk, _, hwait⟩ hnever
    intro k hmk
    induction k, hmk using Nat.le_induction with
    | base => exact ⟨hreading, hevents, (hone m hnm hreading hevents).1⟩
    | succ k hmk ih =>
        obtain ⟨-, hreading', hevents'⟩ := hone k (hnm.trans hmk) ih.1 ih.2.1
        exact ⟨hreading', hevents', (hone (k + 1) (by omega) hreading' hevents').1⟩
  obtain ⟨k, hmk, hact⟩ := hfair.thread m fun i hi => by cases hreading.symm.trans hi
  rw [(hstays k hmk).2.2] at hact
  cases hact

theorem leadsTo_event (hmsgs : ∀ i, ∀ m ∈ msgs i, m.WellFormed) (hfair : ServerFair r) (e : Event ι) :
    r.LeadsTo (fun s => s.Ready e) (fun s => ¬ s.Ready e ∨ e ∈ s.events) := by
  intro n hready
  obtain ⟨m, hnm, hnot | ⟨events, hwait, hmem⟩⟩ :=
    hfair.reports e n hready (waits_again hmsgs hfair)
  · exact ⟨m, hnm, .inl hnot⟩
  · refine ⟨m + 1, Nat.le_succ_of_le hnm, .inr ?_⟩
    have heffect := Server.step_effect (show (r.state m).step (.wait events) = _ from hwait ▸ r.step m)
    generalize r.state (m + 1) = t at heffect ⊢
    cases heffect with
    | wait => exact hmem

/-! ### Every connection is accepted -/

theorem unless_backlog (i : ι) (k : Nat) :
    r.Unless (fun s => i ∈ s.backlog ∧ s.backlog.idxOf i = k)
      (fun s => (i ∈ s.backlog ∧ s.backlog.idxOf i < k) ∨ i ∈ s.registered) := by
  rintro n ⟨hmem, hk⟩
  rcases server_step r n with ⟨-, hsame⟩ | ⟨a, -, heffect⟩
  · rw [hsame]
    exact .inl ⟨hmem, hk⟩
  · generalize r.state (n + 1) = t at heffect ⊢
    cases heffect with
    | connect =>
        refine .inl ⟨List.mem_append_left _ hmem, ?_⟩
        rw [List.idxOf_append_of_mem hmem]
        exact hk
    | @accept j backlog _ _ _ hbacklog =>
        rw [hbacklog] at hmem hk
        by_cases heq : j = i
        · exact .inr (.inr (List.mem_append_right _ (List.mem_singleton.mpr heq.symm)))
        · rw [List.idxOf_cons_ne _ heq] at hk
          have hrest := (List.mem_cons.mp hmem).resolve_left (Ne.symm heq)
          exact .inr (.inl ⟨hrest, by dsimp only; omega⟩)
    | peer | wait | acceptNone | call | read => exact .inl ⟨hmem, hk⟩

theorem leadsTo_registered (hmsgs : ∀ i, ∀ m ∈ msgs i, m.WellFormed) (hfair : ServerFair r) (i : ι) :
    r.LeadsTo (fun s => i ∈ s.backlog) (fun s => i ∈ s.registered) := by
  refine Machine.Run.LeadsTo.of_measure (fun s => s.backlog.idxOf i) fun k => ?_
  have hR := unless_backlog (r := r) i k
  have hdispatched : r.LeadsTo (fun s => .listen ∈ s.events ∧ i ∈ s.backlog ∧ s.backlog.idxOf i = k)
      (fun s => False ∨ (i ∈ s.backlog ∧ s.backlog.idxOf i < k) ∨ i ∈ s.registered) := by
    refine leadsTo_of_event hmsgs hfair hR fun n hn hdone => .inr ?_
    obtain ⟨hmem, hk⟩ := hn
    rcases hdone with hnil | ⟨j, hhead, hregistered⟩
    · rw [hnil] at hmem
      exact absurd hmem List.not_mem_nil
    · rw [hhead] at hmem hk
      by_cases heq : j = i
      · refine .inr ?_
        rw [hregistered]
        exact List.mem_append_right _ (List.mem_singleton.mpr heq.symm)
      · rw [List.idxOf_cons_ne _ heq] at hk
        exact .inl ⟨(List.mem_cons.mp hmem).resolve_left (Ne.symm heq), by omega⟩
  have hready : r.LeadsTo (fun s => i ∈ s.backlog ∧ s.backlog.idxOf i = k)
      (fun s => (.listen ∈ s.events ∧ i ∈ s.backlog ∧ s.backlog.idxOf i = k) ∨
        (i ∈ s.backlog ∧ s.backlog.idxOf i < k) ∨ i ∈ s.registered) := by
    intro n hn
    obtain ⟨m, hnm, ⟨hevent, hkept⟩ | hmoved⟩ := ((leadsTo_event hmsgs hfair .listen).psp hR) n
      ⟨List.ne_nil_of_mem hn.1, hn⟩
    · refine ⟨m, hnm, .inl ⟨?_, hkept⟩⟩
      exact hevent.resolve_left fun hnot => hnot (List.ne_nil_of_mem hkept.1)
    · exact ⟨m, hnm, .inr hmoved⟩
  have hnext := hready.trans (hdispatched.or (.of_imp fun _ hmoved => .inr hmoved))
  exact hnext.trans (.of_imp fun _ hn => hn.resolve_left id)

/-! ### Every message is handled -/

/-- In a connection whose bytes have all arrived the thread does not stop between two frames. -/
theorem arrived_step (hmsgs : ∀ i, ∀ m ∈ msgs i, m.WellFormed) (hfair : ServerFair r) {n : ℕ} {i : ι}
    (hreading : (r.state n).reading = some i) (htodo : ((r.state n).conn i).todo = 0)
    (hahead : ((r.state n).conn i).ahead ≠ []) :
    (r.state (n + 1)).reading = some i ∨
      ((r.state (n + 1)).conn i).ahead.length < ((r.state n).conn i).ahead.length := by
  have hinv := connInv_of_run r hmsgs n i
  have hrecv := hfair.recv n
  have hon := onConn_of_run r n i
  generalize r.act n = a at hon hrecv
  cases hon with
  | same _ _ hread => exact .inl (hread hreading).2
  | peer _ _ hkept => exact .inl (hkept.trans hreading)
  | call hnone => cases hnone.symm.trans hreading
  | @read b _ hb hstep hnow =>
      obtain ⟨-, hread⟩ := hinv.reader_step (hmsgs i) hb (hrecv i hreading) hstep
      rcases hread with ⟨-, -, hpeeking, hshort⟩ | ⟨hpeeked, -⟩ | ⟨-, hless⟩
      · have hwhole := hinv.headerSize_le (by rw [hpeeking]; rfl) hahead
        rw [Connection.ahead_eq_rcv htodo] at hwhole
        omega
      · rw [hpeeked] at hnow
        exact .inl (hnow.trans (if_neg nofun))
      · exact .inr hless

theorem leadsTo_taken (hmsgs : ∀ i, ∀ m ∈ msgs i, m.WellFormed) (hfair : ServerFair r) (i : ι)
    {k : Nat} (hk : 0 < k) :
    r.LeadsTo (fun s => s.reading = some i ∧ (s.conn i).todo = 0 ∧ (s.conn i).ahead.length = k)
      (fun s => (s.conn i).ahead.length < k) := by
  refine Machine.Run.LeadsTo.of_measure (fun s => (s.conn i).work) fun w => ?_
  have hstep : ∀ n, (r.state n).reading = some i → ((r.state n).conn i).todo = 0 →
      ((r.state n).conn i).ahead.length = k → ((r.state n).conn i).work = w →
      (((r.state (n + 1)).reading = some i ∧ ((r.state (n + 1)).conn i).todo = 0 ∧
          ((r.state (n + 1)).conn i).ahead.length = k) ∧
          (((r.state (n + 1)).conn i).work = w ∧ ServerAction.byThread (r.act n) = false ∨
            ((r.state (n + 1)).conn i).work < w)) ∨
        ((r.state (n + 1)).conn i).ahead.length < k := by
    intro n hreading htodo hlen hwork
    obtain ⟨htodo', hahead'⟩ := measures_le hmsgs hfair n i
    rw [htodo, Nat.le_zero] at htodo'
    rw [hlen] at hahead'
    rcases Nat.eq_or_lt_of_le hahead' with hsame | hless
    · have hne : ((r.state n).conn i).ahead ≠ [] := List.ne_nil_of_length_pos (hlen ▸ hk)
      have hstill := (arrived_step hmsgs hfair hreading htodo hne).resolve_right (by omega)
      refine .inl ⟨⟨hstill, htodo', hsame⟩, ?_⟩
      rcases reading_step hmsgs hfair hreading with ⟨-, hkept, hthread⟩ | ⟨-, hdown⟩ | hnone
      · exact .inl ⟨hkept.trans hwork, hthread⟩
      · exact .inr (hwork ▸ hdown)
      · cases hstill.symm.trans hnone
    · exact .inr hless
  refine Machine.Run.leadsTo_of_unless (fun a => ServerAction.byThread a = true) ?_ ?_
    fun n hn => hfair.thread n (runs_of_arrived hmsgs hn.1.1 hn.1.2.1)
  · rintro n ⟨⟨hreading, htodo, hlen⟩, hwork⟩
    rcases hstep n hreading htodo hlen hwork with ⟨hkept, ⟨hsame, -⟩ | hdown⟩ | hless
    · exact .inl ⟨hkept, hsame⟩
    · exact .inr (.inl ⟨hkept, hdown⟩)
    · exact .inr (.inr hless)
  · rintro n ⟨⟨hreading, htodo, hlen⟩, hwork⟩ hact
    rcases hstep n hreading htodo hlen hwork with ⟨hkept, ⟨-, hother⟩ | hdown⟩ | hless
    · rw [hother] at hact
      cases hact
    · exact .inl ⟨hkept, hdown⟩
    · exact .inr hless

theorem leadsTo_handled_of_registered (hmsgs : ∀ i, ∀ m ∈ msgs i, m.WellFormed) (hfair : ServerFair r)
    (i : ι) : r.LeadsTo (fun s => i ∈ s.registered)
      (fun s => (s.conn i).handled = (msgs i).map Message.call) := by
  refine Machine.Run.LeadsTo.of_measure (fun s => (s.conn i).ahead.length) fun k => ?_
  rcases Nat.eq_zero_or_pos k with rfl | hk
  · refine Machine.Run.LeadsTo.of_imp fun n hn => .inr ?_
    exact (connInv_of_run r hmsgs n i).handled_of_ahead (hmsgs i) (List.length_eq_zero_iff.mp hn.2)
  let Less : Server ι → Prop := fun s => i ∈ s.registered ∧ (s.conn i).ahead.length < k
  have hlasts : r.Unless (fun s => i ∈ s.registered ∧ (s.conn i).ahead.length = k) Less := by
    rintro n ⟨hmem, hlen⟩
    have hle := (measures_le hmsgs hfair n i).2
    rw [hlen] at hle
    exact (Nat.eq_or_lt_of_le hle).imp (fun heq => ⟨stable_registered i n hmem, heq⟩)
      fun hlt => ⟨stable_registered i n hmem, hlt⟩
  let Waits : Server ι → Prop := fun s =>
    (s.conn i).todo = 0 ∧ i ∈ s.registered ∧ (s.conn i).ahead.length = k
  have hwaits : r.Unless Waits Less := by
    rintro n ⟨htodo, hkept⟩
    refine (hlasts n hkept).imp_left fun hnext => ⟨?_, hnext⟩
    exact Nat.le_zero.mp (htodo ▸ (measures_le hmsgs hfair n i).1)
  have harrived : r.LeadsTo (fun s => i ∈ s.registered ∧ (s.conn i).ahead.length = k)
      (fun s => Waits s ∨ Less s) :=
    fun n hn => ((leadsTo_arrived_bytes hmsgs hfair i).psp hlasts) n ⟨.inr hn.1, hn⟩
  have hready : ∀ s, Waits s → s.Ready (.client i) := by
    rintro s ⟨htodo, hmem, hlen⟩
    refine ⟨hmem, ?_⟩
    rw [← Connection.ahead_eq_rcv htodo]
    exact List.ne_nil_of_length_pos (hlen ▸ hk)
  have hevent : r.LeadsTo Waits (fun s => (.client i ∈ s.events ∧ Waits s) ∨ Less s) := by
    intro n hn
    obtain ⟨m, hnm, ⟨hevent, hstill⟩ | hless⟩ :=
      ((leadsTo_event hmsgs hfair (.client i)).psp hwaits) n ⟨hready _ hn, hn⟩
    · exact ⟨m, hnm, .inl ⟨hevent.resolve_left fun hnot => hnot (hready _ hstill), hstill⟩⟩
    · exact ⟨m, hnm, .inr hless⟩
  have hcalled : r.LeadsTo (fun s => .client i ∈ s.events ∧ Waits s)
      (fun s => (s.reading = some i ∧ Waits s) ∨ Less s) :=
    leadsTo_of_event hmsgs hfair hwaits fun n hn hdone => (hwaits n hn).imp_left fun h => ⟨hdone, h⟩
  have htaken : r.LeadsTo (fun s => s.reading = some i ∧ Waits s) Less := by
    intro n hn
    obtain ⟨m, hnm, hless⟩ := leadsTo_taken hmsgs hfair i hk n ⟨hn.1, hn.2.1, hn.2.2.2⟩
    exact ⟨m, hnm, (stable_registered i).lasts hn.2.2.1 hnm, hless⟩
  have hless : r.LeadsTo Less Less := .of_imp fun _ h => h
  have hall := harrived.trans ((hevent.trans ((hcalled.trans (htaken.or hless)).or hless)).or hless)
  exact hall.trans (.of_imp fun _ h => .inl h)

/-- Every message of every connection is handled: under a fair scheduler, a network that delivers and
an `epoll_wait` that reports what stays ready, a connection that has been established is accepted and
its socket registered, and the calls of `dsm_handle_message` for it become those of all messages that
its peer sends. -/
theorem messages_handled (hmsgs : ∀ i, ∀ m ∈ msgs i, m.WellFormed) (hfair : ServerFair r) (i : ι) :
    r.LeadsTo (fun s => s.Connected i)
      (fun s => i ∈ s.registered ∧ (s.conn i).handled = (msgs i).map Message.call) := by
  have hregistered : r.LeadsTo (fun s => i ∈ s.registered)
      (fun s => i ∈ s.registered ∧ (s.conn i).handled = (msgs i).map Message.call) := by
    intro n hn
    obtain ⟨m, hnm, hhandled⟩ := leadsTo_handled_of_registered hmsgs hfair i n hn
    exact ⟨m, hnm, (stable_registered i).lasts hn hnm, hhandled⟩
  exact ((leadsTo_registered hmsgs hfair i).trans hregistered).or hregistered

end Run

/-- One peer sends a message with two bytes of payload, the other one without any. -/
def twoPeers : Bool → List Message
  | false => [⟨{ magic := magic, type := 10, srcNode := 2, dstNode := 1, seqNum := 0, payloadLen := 2 },
      [7, 9]⟩]
  | true => [⟨{ magic := magic, type := 11, srcNode := 3, dstNode := 1, seqNum := 0, payloadLen := 0 },
      []⟩]

/-- The first header comes in two parts, and the other message in between. -/
def twoPeersRun : List (ServerAction Bool) :=
  [.connect false, .connect true, .peer false .begin, .peer false (.accept 10),
    .peer false (.deliver 10), .wait [.listen], .accept, .wait [.listen, .client false], .accept, .call,
    .read (.peek 10), .peer true .begin, .peer true (.accept 24), .peer true (.deliver 24),
    .wait [.client true, .client false], .call, .read (.peek 24), .read .readHeader, .read .peekAgain,
    .call, .read (.peek 10), .peer false (.accept 14), .peer false (.accept 1),
    .peer false (.deliver 15), .wait [.client false], .call, .read (.peek 24), .read .readHeader,
    .read (.readPayload 1), .peer false (.accept 1), .peer false (.deliver 1), .read (.readPayload 1),
    .read .peekAgain]

/-- A step of the peer of connection `i`, or of the network for it. -/
def actsFor (i : Bool) : Option (ServerAction Bool) → Bool
  | some (.peer j _) => decide (j = i)
  | _ => false

theorem messages_handled_two_peers : ∃ r : (server twoPeers).idling.Run,
    ServerFair r ∧ (r.state 1).Connected false ∧
      ∃ m, 1 ≤ m ∧ false ∈ (r.state m).registered ∧
        ((r.state m).conn false).handled = (twoPeers false).map Message.call := by
  let s : Server Bool :=
    { conn := fun i => opened (twoPeers i), backlog := [], registered := [], events := [],
      reading := none }
  let M := (server twoPeers).idling
  have hrun : ((server twoPeers).exec s twoPeersRun).any (fun t => decide (t.reading = none) &&
      decide (t.events = []) && decide (∀ i, ¬ t.Ready (.client i)) && decide (¬ t.Ready .listen)) =
      true := by decide +kernel
  obtain ⟨t, ht, hend⟩ := (Option.any_eq_true ..).mp hrun
  simp only [Bool.and_eq_true, decide_eq_true_eq] at hend
  obtain ⟨⟨⟨hreading, hevents⟩, hclients⟩, hlisten⟩ := hend
  have hexec : M.exec s (twoPeersRun.map some) = some t := by
    rw [Machine.exec_idling]
    exact ht
  have hidle : M.step t (some (.wait [])) = some t := by
    refine (if_pos ⟨hreading, hevents, Nat.zero_le _, List.forall_mem_nil _⟩).trans ?_
    rw [← hevents]
  let r : M.Run := Machine.Run.ofExec rfl hexec hidle
  have hlate : ∀ n, r.state (max n twoPeersRun.length) = t ∧
      r.act (max n twoPeersRun.length) = some (.wait []) := by
    intro n
    have hle : (twoPeersRun.map some).length ≤ max n twoPeersRun.length := by
      rw [List.length_map]
      exact Nat.le_max_right _ _
    exact ⟨Machine.Run.ofExec_state_of_le rfl hexec hidle hle,
      Machine.Run.ofExec_act_of_le rfl hexec hidle hle⟩
  have hpeer : ∀ i n, (r.state n).Connected i → ((r.state n).conn i).todo ≠ 0 →
      ∃ m, n ≤ m ∧ ∃ a, r.act m = some (.peer i a) := by
    intro i n hi htodo
    have hanswered : M.answered (fun s => decide (s.Connected i) && decide ((s.conn i).todo ≠ 0))
        (actsFor i) s (twoPeersRun.map some) = true := by
      cases i <;> decide +kernel
    obtain ⟨m, hnm, hm⟩ := Machine.Run.ofExec_answered rfl hexec hidle hanswered n
      (by rw [Bool.and_eq_true]; exact ⟨decide_eq_true hi, decide_eq_true htodo⟩)
    unfold actsFor at hm
    split at hm
    · rename_i j a hact
      exact ⟨m, hnm, a, (of_decide_eq_true hm) ▸ hact⟩
    · cases hm
  have hrecv : ∀ n, (r.state n).SeesAll (r.act n) := by
    have hchecks : M.checks Server.SeesAll s (twoPeersRun.map some) = true := by decide +kernel
    exact Machine.Run.ofExec_each rfl hexec hidle (Machine.eachStep_of_checks hchecks) trivial
  have hfair : ServerFair r := by
    refine ⟨hpeer, fun n _ => ?_, fun e n _ _ => ?_, hrecv⟩
    · exact ⟨max n twoPeersRun.length, Nat.le_max_left _ _, by rw [(hlate n).2]; rfl⟩
    · refine ⟨max n twoPeersRun.length, Nat.le_max_left _ _, .inl ?_⟩
      rw [(hlate n).1]
      cases e with
      | listen => exact hlisten
      | client i => exact hclients i
  have hconnected : (r.state 1).Connected false := by
    have hone : (M.exec s ((twoPeersRun.map some).take 1)).any
        (fun u => decide (u.Connected false)) = true := by decide +kernel
    obtain ⟨u, hu, hconn⟩ := (Option.any_eq_true ..).mp hone
    rw [show r.state 1 = u from Machine.Run.ofExec_state rfl hexec hidle hu]
    exact of_decide_eq_true hconn
  have hmsgs : ∀ i, ∀ m ∈ twoPeers i, m.WellFormed := by
    intro i m hm
    cases i with
    | false =>
        obtain rfl := List.mem_singleton.mp hm
        exact ⟨rfl, by decide, rfl⟩
    | true =>
        obtain rfl := List.mem_singleton.mp hm
        exact ⟨rfl, by decide, rfl⟩
  exact ⟨r, hfair, hconnected, messages_handled hmsgs hfair false 1 hconnected⟩

end Dsm.Tcp
