import Dsm.Tcp.Receive

/-!
# The server thread and its connections

`tcp_server_thread_func` over any number of connections: `epoll_wait` reports some of the descriptors
that are ready, the thread goes through the events of that round one by one, accepts one connection
for an event of the listening socket, and runs `handle_client_data` to its end for an event of a
client. The peers go on in the meantime. A registration is level-triggered, so what is still ready is
reported again.

Each connection by itself does what the machine of one connection can do, and the thread is inside at
most one of them, so that the static `recv_buf` belongs to one payload at a time.
-/

namespace Dsm.Tcp

variable {ι : Type*}

/-- `MAX_EPOLL_EVENTS`. -/
def maxEpollEvents : Nat := 64

/-- `events[i].data.fd`: the listening socket, or a connection. -/
inductive Event (ι : Type*) where
  | listen
  | client (i : ι)
deriving DecidableEq

structure Server (ι : Type*) where
  conn : ι → Connection
  /-- Connections that are established and wait for `accept`. -/
  backlog : List ι
  /-- Connections that are added to `g_epoll_fd`. -/
  registered : List ι
  /-- The events of the current round that have still to be looked at. -/
  events : List (Event ι)
  /-- The connection on which `handle_client_data` runs. -/
  reading : Option ι

/-- The steps of the peer of a connection and of the network. -/
def Action.byPeer : Action → Bool
  | .begin | .accept _ | .deliver _ => true
  | .call | .peekAgain | .peek _ | .readHeader | .readPayload _ => false

/-- The steps of `handle_client_data`. -/
def Action.byReader : Action → Bool
  | .peekAgain | .peek _ | .readHeader | .readPayload _ => true
  | .begin | .accept _ | .deliver _ | .call => false

inductive ServerAction (ι : Type*) where
  /-- The connection is established. -/
  | connect (i : ι)
  | peer (i : ι) (a : Action)
  /-- `epoll_wait` returns these events; there are none after a timeout. -/
  | wait (events : List (Event ι))
  /-- The next event is one of the listening socket. -/
  | accept
  /-- The next event is one of a client. -/
  | call
  | read (a : Action)

namespace Server

variable [DecidableEq ι]

/-- What a level-triggered `EPOLLIN` reports. -/
def Ready (s : Server ι) : Event ι → Prop
  | .listen => s.backlog ≠ []
  | .client i => i ∈ s.registered ∧ (s.conn i).rcv ≠ []

instance (s : Server ι) : DecidablePred s.Ready
  | .listen => inferInstanceAs (Decidable (_ ≠ _))
  | .client _ => inferInstanceAs (Decidable (_ ∧ _))

def Connected (s : Server ι) (i : ι) : Prop := i ∈ s.backlog ∨ i ∈ s.registered

instance (s : Server ι) (i : ι) : Decidable (s.Connected i) := inferInstanceAs (Decidable (_ ∨ _))

def setConn (s : Server ι) (i : ι) (c : Connection) : Server ι :=
  { s with conn := Function.update s.conn i c }

theorem setConn_self (s : Server ι) (i : ι) (c : Connection) : (s.setConn i c).conn i = c :=
  Function.update_self ..

theorem setConn_of_ne {s : Server ι} {i j : ι} (c : Connection) (h : j ≠ i) :
    (s.setConn i c).conn j = s.conn j :=
  Function.update_of_ne h ..

/-- The loop of `tcp_server_thread_func`; in `accept`, `handle_new_connection` adds the connection to
the epoll set. -/
def step (s : Server ι) : ServerAction ι → Option (Server ι)
  | .connect i => if s.Connected i then none else some { s with backlog := s.backlog ++ [i] }
  | .peer i a =>
      if a.byPeer = true ∧ s.Connected i then (Tcp.step (s.conn i) a).map (s.setConn i) else none
  | .wait events =>
      if s.reading = none ∧ s.events = [] ∧ events.length ≤ maxEpollEvents ∧
          ∀ e ∈ events, s.Ready e then
        some { s with events := events }
      else none
  | .accept =>
      match s.reading, s.events with
      | none, .listen :: events =>
          match s.backlog with
          | [] => some { s with events := events }
          | i :: backlog =>
              some { s with backlog := backlog, registered := s.registered ++ [i], events := events }
      | _, _ => none
  | .call =>
      match s.reading, s.events with
      | none, .client i :: events =>
          (Tcp.step (s.conn i) .call).map fun c =>
            { s.setConn i c with events := events, reading := some i }
      | _, _ => none
  | .read a =>
      match s.reading with
      | some i =>
          if a.byReader = true then
            (Tcp.step (s.conn i) a).map fun c =>
              { s.setConn i c with reading := if c.receiver = .idle then none else some i }
          else none
      | none => none

/-- The effects of the steps of the server. -/
inductive Effect (s : Server ι) : ServerAction ι → Server ι → Prop where
  | connect {i : ι} (hi : ¬ s.Connected i) :
      Effect s (.connect i) { s with backlog := s.backlog ++ [i] }
  | peer {i : ι} {a : Action} {c : Connection} (ha : a.byPeer = true) (hi : s.Connected i)
      (hstep : Tcp.step (s.conn i) a = some c) : Effect s (.peer i a) (s.setConn i c)
  | wait {events : List (Event ι)} (hreading : s.reading = none) (hevents : s.events = [])
      (hready : ∀ e ∈ events, s.Ready e) : Effect s (.wait events) { s with events := events }
  | acceptNone {events : List (Event ι)} (hreading : s.reading = none)
      (hevents : s.events = .listen :: events) (hbacklog : s.backlog = []) :
      Effect s .accept { s with events := events }
  | accept {i : ι} {backlog : List ι} {events : List (Event ι)} (hreading : s.reading = none)
      (hevents : s.events = .listen :: events) (hbacklog : s.backlog = i :: backlog) :
      Effect s .accept
        { s with backlog := backlog, registered := s.registered ++ [i], events := events }
  | call {i : ι} {events : List (Event ι)} {c : Connection} (hreading : s.reading = none)
      (hevents : s.events = .client i :: events) (hstep : Tcp.step (s.conn i) .call = some c) :
      Effect s .call { s.setConn i c with events := events, reading := some i }
  | read {i : ι} {a : Action} {c : Connection} (hreading : s.reading = some i)
      (ha : a.byReader = true) (hstep : Tcp.step (s.conn i) a = some c) :
      Effect s (.read a)
        { s.setConn i c with reading := if c.receiver = .idle then none else some i }

theorem step_effect {s t : Server ι} {a : ServerAction ι} (h : s.step a = some t) : s.Effect a t := by
  cases a with
  | connect i =>
      simp only [step, Option.ite_none_left_eq_some, Option.some.injEq] at h
      obtain ⟨hi, rfl⟩ := h
      exact .connect hi
  | peer i a =>
      simp only [step, Option.ite_none_right_eq_some, Option.map_eq_some_iff] at h
      obtain ⟨⟨ha, hi⟩, c, hc, rfl⟩ := h
      exact .peer ha hi hc
  | wait events =>
      simp only [step, Option.ite_none_right_eq_some, Option.some.injEq] at h
      obtain ⟨⟨hreading, hevents, -, hready⟩, rfl⟩ := h
      exact .wait hreading hevents hready
  | accept =>
      simp only [step] at h
      split at h
      · rename_i events hreading hevents
        split at h
        · rename_i hbacklog
          cases h
          exact .acceptNone hreading hevents hbacklog
        · rename_i i backlog hbacklog
          cases h
          exact .accept hreading hevents hbacklog
      · cases h
  | call =>
      simp only [step] at h
      split at h
      · rename_i i events hreading hevents
        obtain ⟨c, hc, rfl⟩ := Option.map_eq_some_iff.mp h
        exact .call hreading hevents hc
      · cases h
  | read a =>
      simp only [step] at h
      split at h
      · rename_i i hreading
        simp only [Option.ite_none_right_eq_some, Option.map_eq_some_iff] at h
        obtain ⟨ha, c, hc, rfl⟩ := h
        exact .read hreading ha hc
      · cases h

end Server

/-- The server before any connection, where the messages that each peer is going to send are given. -/
def server [DecidableEq ι] (msgs : ι → List Message) : Machine (Server ι) (ServerAction ι) where
  start s := s = { conn := fun i => opened (msgs i), backlog := [], registered := [], events := [],
                   reading := none }
  step := Server.step

section Invariant

variable [DecidableEq ι] {msgs : ι → List Message} {s t : Server ι}

theorem reachable_conn (h : (server msgs).Reachable s) (i : ι) :
    (connection (msgs i)).Reachable (s.conn i) := by
  have hset : ∀ (s : Server ι) (j : ι) (c : Connection) (a : Action),
      Tcp.step (s.conn j) a = some c → (s.setConn j c).conn i = s.conn i ∨
        ∃ b, (connection (msgs i)).step (s.conn i) b = some ((s.setConn j c).conn i) := by
    intro s j c a hc
    by_cases heq : i = j
    · subst heq
      refine .inr ⟨a, ?_⟩
      rw [Server.setConn_self]
      exact hc
    · exact .inl (Server.setConn_of_ne c heq)
  refine h.map (N := connection (msgs i)) (fun s => s.conn i) (fun s hs => ?_) fun s a t hstep => ?_
  · rw [show s = _ from hs]
    rfl
  · cases Server.step_effect hstep with
    | connect | wait | acceptNone | accept => exact .inl rfl
    | peer _ _ hc => exact hset s _ _ _ hc
    | call _ _ hc => exact hset s _ _ _ hc
    | read _ _ hc => exact hset s _ _ _ hc

/-- The thread is inside at most one connection, which it has added to its epoll set. -/
structure ServerInv (s : Server ι) : Prop where
  idle : ∀ i, s.reading ≠ some i → (s.conn i).receiver = .idle
  busy : ∀ i, s.reading = some i → (s.conn i).receiver ≠ .idle ∧ i ∈ s.registered
  events : ∀ i, .client i ∈ s.events → i ∈ s.registered

theorem receiver_of_byPeer {c c' : Connection} {a : Action} (ha : a.byPeer = true)
    (hstep : Tcp.step c a = some c') : c'.receiver = c.receiver := by
  cases Tcp.step_effect hstep with
  | begin | accept | deliver => rfl
  | call | peekAgain | peekShort | peek | readHeader | readPayload => cases ha

theorem receiver_of_call {c c' : Connection} (hstep : Tcp.step c .call = some c') :
    c'.receiver ≠ .idle := by
  cases Tcp.step_effect hstep with
  | call => exact nofun

theorem ServerInv.start (h : (server msgs).start s) : ServerInv s := by
  rw [show s = _ from h]
  exact ⟨fun _ _ => rfl, nofun, nofun⟩

theorem ServerInv.step {a : ServerAction ι} (h : ServerInv s) (hstep : s.step a = some t) :
    ServerInv t := by
  cases Server.step_effect hstep with
  | connect => exact ⟨h.idle, h.busy, h.events⟩
  | @peer i a c ha _ hc =>
      have hreceiver := receiver_of_byPeer ha hc
      have hsame : ∀ j, ((s.setConn i c).conn j).receiver = (s.conn j).receiver := by
        intro j
        by_cases heq : j = i
        · subst heq
          rw [Server.setConn_self]
          exact hreceiver
        · rw [Server.setConn_of_ne c heq]
      refine ⟨fun j hj => (hsame j).trans (h.idle j hj), fun j hj => ?_, h.events⟩
      rw [hsame j]
      exact h.busy j hj
  | wait _ _ hready => exact ⟨h.idle, h.busy, fun i hi => (hready _ hi).1⟩
  | acceptNone _ hevents =>
      exact ⟨h.idle, h.busy, fun i hi => h.events i (by rw [hevents]; exact List.mem_cons_of_mem _ hi)⟩
  | accept _ hevents =>
      refine ⟨h.idle, fun i hi => ?_, fun i hi => List.mem_append_left _ (h.events i ?_)⟩
      · exact (h.busy i hi).imp_right (List.mem_append_left _)
      · rw [hevents]
        exact List.mem_cons_of_mem _ hi
  | @call i events c hreading hevents hc =>
      have hevent : ∀ j, .client j ∈ Event.client i :: events → j ∈ s.registered :=
        fun j hj => h.events j (hevents ▸ hj)
      refine ⟨fun j hj => ?_, fun j hj => ?_, fun j hj => hevent j (List.mem_cons_of_mem _ hj)⟩
      · have hne : j ≠ i := fun heq => hj (congrArg some heq.symm)
        refine (congrArg _ (Server.setConn_of_ne c hne)).trans (h.idle j ?_)
        rw [hreading]
        exact nofun
      · obtain rfl : i = j := Option.some.inj hj
        refine ⟨?_, hevent i List.mem_cons_self⟩
        change ((s.setConn i c).conn i).receiver ≠ .idle
        rw [Server.setConn_self]
        exact receiver_of_call hc
  | @read i a c hreading _ hc =>
      refine ⟨fun j hj => ?_, fun j hj => ?_, h.events⟩
      · by_cases heq : j = i
        · subst heq
          change ((s.setConn j c).conn j).receiver = .idle
          rw [Server.setConn_self]
          by_contra hbusy
          exact hj (if_neg hbusy)
        · refine (congrArg _ (Server.setConn_of_ne c heq)).trans (h.idle j fun hj' => heq ?_)
          exact Option.some.inj (hj'.symm.trans hreading)
      · dsimp only at hj
        split at hj
        · cases hj
        · rename_i hbusy
          obtain rfl : i = j := Option.some.inj hj
          change ((s.setConn i c).conn i).receiver ≠ .idle ∧ i ∈ s.registered
          rw [Server.setConn_self]
          exact ⟨hbusy, (h.busy i hreading).2⟩

theorem serverInv_of_reachable (h : (server msgs).Reachable s) : ServerInv s :=
  h.invariant (fun _ hs => .start hs) fun _ _ _ hinv hstep => hinv.step hstep

end Invariant

end Dsm.Tcp
