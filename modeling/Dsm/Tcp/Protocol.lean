import Dsm.Library.Fairness
import Dsm.Tcp.Dispatch
import Dsm.Tcp.Stream

/-!
# A protocol over connections

A protocol between a master and its workers, which is a machine with a channel each way for every worker,
and the same protocol with the bytes of its messages: the nodes write them to their connection, among
messages of other kinds, and the server thread at the other end handles what it has read. The channels are
what the dispatcher will make of the messages that have not been handled yet (`ProtocolWire.abstract`).
What the rest of the development uses is that every step of the bytes, the nodes and the other traffic is
then a step of the protocol or none (`ProtocolWireInv.step`), for which a protocol has to be
`Protocol.Lawful`: its threads do not look at what was sent before, its handlers send nothing, and the
other end takes a message for what it is.
-/

namespace Dsm

instance (m : Message) : Decidable m.WellFormed :=
  decidable_of_iff (m.header.magic = magic ∧ m.header.payloadLen.toNat ≤ tcpBufferSize ∧
      m.payload.length = m.header.payloadLen.toNat)
    ⟨fun h => ⟨h.1, h.2.1, h.2.2⟩, fun h => ⟨h.magic, h.small, h.length⟩⟩

/-- A message that is of none of these types. -/
def Message.Avoids (types : List MsgType) (m : Message) : Prop :=
  m.WellFormed ∧ ∀ t ∈ types, MsgType.ofCode m.header.type ≠ some t

instance Message.decidableAvoids (types : List MsgType) (m : Message) : Decidable (m.Avoids types) :=
  inferInstanceAs (Decidable (_ ∧ _))

/-- The types that change the ids of nodes or who is in the node table. -/
def membershipTypes : List MsgType := [.joinResponse, .nodeTable, .nodeLeft, .shutdown]

structure Protocol (σ α μ ν : Type*) where
  machine : Machine σ α
  toMaster : σ → NodeId → List μ
  toWorker : σ → NodeId → List ν
  setChannels : σ → (NodeId → List μ) → (NodeId → List ν) → σ
  /-- The server thread of the master takes the first message of worker `w`. -/
  masterReceive : NodeId → α
  /-- The server thread of worker `w` takes its first message. -/
  workerReceive : NodeId → α
  messageToMaster : NodeId → UInt32 → μ → Message
  messageToWorker : NodeId → UInt32 → ν → Message
  /-- What the dispatcher takes a call for. -/
  ofCallToMaster : Tcp.Call → Option μ
  ofCallToWorker : Tcp.Call → Option ν
  /-- The types of its messages. -/
  types : List MsgType

namespace Protocol

variable {σ α μ ν : Type*} (P : Protocol σ α μ ν)

/-- Nothing is on its way between the threads of a node and its sockets. -/
def Quiet (s : σ) : Prop := ∀ w, P.toMaster s w = [] ∧ P.toWorker s w = []

/-- The sockets have taken what the nodes sent. -/
def taken (s : σ) : σ := P.setChannels s (fun _ => []) fun _ => []

/-- What was sent before comes before what the nodes send now. -/
def behind (s : σ) (toMaster : NodeId → List μ) (toWorker : NodeId → List ν) : σ :=
  P.setChannels s (fun w => toMaster w ++ P.toMaster s w) fun w => toWorker w ++ P.toWorker s w

/-- The message that the master handles. -/
def arrivedAtMaster (s : σ) (w : NodeId) (msg : μ) : σ :=
  P.setChannels s (Function.update (fun _ => []) w [msg]) fun _ => []

/-- The message that worker `w` handles. -/
def arrivedAtWorker (s : σ) (w : NodeId) (msg : ν) : σ :=
  P.setChannels s (fun _ => []) (Function.update (fun _ => []) w [msg])

/-- Other traffic neither is of this protocol nor changes the membership. -/
def Other (m : Message) : Prop := m.Avoids (P.types ++ membershipTypes)

instance : DecidablePred P.Other := fun m => inferInstanceAs (Decidable (m.Avoids _))

structure Lawful : Prop where
  toMaster_setChannels : ∀ s f g, P.toMaster (P.setChannels s f g) = f
  toWorker_setChannels : ∀ s f g, P.toWorker (P.setChannels s f g) = g
  setChannels_self : ∀ s, P.setChannels s (P.toMaster s) (P.toWorker s) = s
  setChannels_idem : ∀ s f g f' g', P.setChannels (P.setChannels s f g) f' g' = P.setChannels s f' g'
  quiet_start : ∀ s, P.machine.start s → P.Quiet s
  /-- A thread does not look at what was sent before. -/
  step_behind : ∀ {s t a}, P.Quiet s → P.machine.step s a = some t →
    ∀ f g, P.machine.step (P.behind s f g) a = some (P.behind t f g)
  /-- The master handles the message that has just arrived as it handles the first one of its channel. -/
  masterReceive : ∀ {s t w msg}, P.Quiet s →
    P.machine.step (P.arrivedAtMaster s w msg) (P.masterReceive w) = some t →
    P.Quiet t ∧ ∀ f g rest, f w = msg :: rest →
      P.machine.step (P.setChannels s f g) (P.masterReceive w) =
        some (P.setChannels t (Function.update f w rest) g)
  workerReceive : ∀ {s t w msg}, P.Quiet s →
    P.machine.step (P.arrivedAtWorker s w msg) (P.workerReceive w) = some t →
    P.Quiet t ∧ ∀ f g rest, g w = msg :: rest →
      P.machine.step (P.setChannels s f g) (P.workerReceive w) =
        some (P.setChannels t f (Function.update g w rest))
  wellFormedToMaster : ∀ w seqNum msg, (P.messageToMaster w seqNum msg).WellFormed
  wellFormedToWorker : ∀ w seqNum msg, (P.messageToWorker w seqNum msg).WellFormed
  /-- The other end takes a message for what it is. -/
  ofCall_messageToMaster : ∀ {s w msg}, P.machine.Reachable s → msg ∈ P.toMaster s w →
    ∀ seqNum, P.ofCallToMaster (P.messageToMaster w seqNum msg).call = some msg
  ofCall_messageToWorker : ∀ {s w msg}, P.machine.Reachable s → msg ∈ P.toWorker s w →
    ∀ seqNum, P.ofCallToWorker (P.messageToWorker w seqNum msg).call = some msg
  /-- It takes nothing else for a message. -/
  otherToMaster : ∀ {m}, P.Other m → P.ofCallToMaster m.call = none
  otherToWorker : ∀ {m}, P.Other m → P.ofCallToWorker m.call = none

end Protocol

/-! ### The machine -/

/-- The nodes, and the two directions of the connection of each worker. The channels of `nodes` are
empty between steps: a step leaves in them what it sends. -/
structure ProtocolWire (σ : Type*) where
  nodes : σ
  toMaster : NodeId → Tcp.Stream
  toWorker : NodeId → Tcp.Stream

inductive ProtocolWireAction (α : Type*) where
  /-- A step of a thread; the header of a message that it sends has this sequence number. -/
  | thread (a : α) (seqNum : UInt32)
  /-- A step of the bytes from worker `w` to the master, and the handling of the message that it
  completes. -/
  | toMaster (w : NodeId) (a : Tcp.Action)
  /-- The same in the other direction. -/
  | toWorker (w : NodeId) (a : Tcp.Action)
  /-- Worker `w` sends something else. -/
  | otherToMaster (w : NodeId) (m : Message)
  /-- The master sends worker `w` something else. -/
  | otherToWorker (w : NodeId) (m : Message)

namespace ProtocolWire

variable {σ α μ ν : Type*} (P : Protocol σ α μ ν)

/-- The messages of a step are handed to the connections. -/
def send (s : ProtocolWire σ) (t : σ) (seqNum : UInt32) : ProtocolWire σ :=
  { nodes := P.taken t
    toMaster := fun w => (s.toMaster w).send ((P.toMaster t w).map (P.messageToMaster w seqNum))
    toWorker := fun w => (s.toWorker w).send ((P.toWorker t w).map (P.messageToWorker w seqNum)) }

/-- The master handles the message that a connection has completed. -/
def handleToMaster (s : ProtocolWire σ) (w : NodeId) (call : Option Tcp.Call) :
    Option (ProtocolWire σ) :=
  match call.bind P.ofCallToMaster with
  | none => some s
  | some msg =>
      (P.machine.step (P.arrivedAtMaster s.nodes w msg) (P.masterReceive w)).map fun t =>
        { s with nodes := t }

/-- Worker `w` handles the message that its connection has completed. -/
def handleToWorker (s : ProtocolWire σ) (w : NodeId) (call : Option Tcp.Call) :
    Option (ProtocolWire σ) :=
  match call.bind P.ofCallToWorker with
  | none => some s
  | some msg =>
      (P.machine.step (P.arrivedAtWorker s.nodes w msg) (P.workerReceive w)).map fun t =>
        { s with nodes := t }

def step (s : ProtocolWire σ) : ProtocolWireAction α → Option (ProtocolWire σ)
  | .thread a seqNum => (P.machine.step s.nodes a).map fun t => s.send P t seqNum
  | .toMaster w a =>
      ((s.toMaster w).step a).bind fun out =>
        { s with toMaster := Function.update s.toMaster w out.1 }.handleToMaster P w out.2
  | .toWorker w a =>
      ((s.toWorker w).step a).bind fun out =>
        { s with toWorker := Function.update s.toWorker w out.1 }.handleToWorker P w out.2
  | .otherToMaster w m =>
      if P.Other m then
        some { s with toMaster := Function.update s.toMaster w ((s.toMaster w).send [m]) }
      else none
  | .otherToWorker w m =>
      if P.Other m then
        some { s with toWorker := Function.update s.toWorker w ((s.toWorker w).send [m]) }
      else none

/-- The state of the protocol that the nodes and their connections stand for. -/
def abstract (s : ProtocolWire σ) : σ :=
  P.behind s.nodes (fun w => (s.toMaster w).decoded P.ofCallToMaster)
    fun w => (s.toWorker w).decoded P.ofCallToWorker

end ProtocolWire

/-- The step of the protocol that a step is; none where it only moves bytes or sends something else. -/
def ProtocolWireAction.abstract {σ α μ ν : Type*} (P : Protocol σ α μ ν) (s : ProtocolWire σ) :
    ProtocolWireAction α → Option α
  | .thread a _ => some a
  | .toMaster w a =>
      (((s.toMaster w).step a).bind fun out => out.2.bind P.ofCallToMaster).map fun _ => P.masterReceive w
  | .toWorker w a =>
      (((s.toWorker w).step a).bind fun out => out.2.bind P.ofCallToWorker).map fun _ => P.workerReceive w
  | .otherToMaster .. | .otherToWorker .. => none

/-- The connections have just been opened. -/
def ProtocolWire.opened {σ : Type*} (nodes : σ) : ProtocolWire σ :=
  { nodes := nodes, toMaster := fun _ => .opened, toWorker := fun _ => .opened }

/-- The protocol over connections. -/
def Protocol.wire {σ α μ ν : Type*} (P : Protocol σ α μ ν) :
    Machine (ProtocolWire σ) (ProtocolWireAction α) where
  start s := ∃ nodes, P.machine.start nodes ∧ s = .opened nodes
  step := ProtocolWire.step P

/-! ### The refinement -/

variable {σ α μ ν : Type*} {P : Protocol σ α μ ν}

variable (P) in
theorem Protocol.behind_of_quiet {s : σ} (hquiet : P.Quiet s) (f : NodeId → List μ)
    (g : NodeId → List ν) : P.behind s f g = P.setChannels s f g := by
  simp only [behind, (hquiet _).1, (hquiet _).2, List.append_nil]

namespace Protocol.Lawful

variable (hP : P.Lawful) {s : σ}
include hP

theorem quiet_taken : P.Quiet (P.taken s) := by
  intro w
  rw [taken, hP.toMaster_setChannels, hP.toWorker_setChannels]
  exact ⟨rfl, rfl⟩

theorem behind_taken (f : NodeId → List μ) (g : NodeId → List ν) :
    P.behind (P.taken s) (fun w => f w ++ P.toMaster s w) (fun w => g w ++ P.toWorker s w) =
      P.behind s f g := by
  rw [P.behind_of_quiet hP.quiet_taken, taken, hP.setChannels_idem, behind]

end Protocol.Lawful

/-- Between steps the nodes have nothing in hand, and with what is in the connections they are in a
state of the protocol. -/
structure ProtocolWireInv (P : Protocol σ α μ ν) (s : ProtocolWire σ) : Prop where
  quiet : P.Quiet s.nodes
  toMaster : ∀ w, (s.toMaster w).Inv
  toWorker : ∀ w, (s.toWorker w).Inv
  reachable : P.machine.Reachable (s.abstract P)

namespace ProtocolWireInv

variable {s t : ProtocolWire σ} (h : ProtocolWireInv P s)
include h

theorem simulated (hquiet : P.Quiet t.nodes) (htoMaster : ∀ w, (t.toMaster w).Inv)
    (htoWorker : ∀ w, (t.toWorker w).Inv) {a : Option α}
    (hstep : P.machine.idling.step (s.abstract P) a = some (t.abstract P)) :
    ProtocolWireInv P t ∧ P.machine.idling.step (s.abstract P) a = some (t.abstract P) := by
  refine ⟨⟨hquiet, htoMaster, htoWorker, ?_⟩, hstep⟩
  cases a with
  | none =>
      rw [← Option.some.inj hstep]
      exact h.reachable
  | some a => exact h.reachable.step a hstep

variable (hP : P.Lawful)
include hP

/-- A thread takes a step, and what it sends is what the other end will take it for. -/
theorem thread {a : α} {n : σ} (hstep : P.machine.step s.nodes a = some n) (seqNum : UInt32) :
    ProtocolWireInv P (s.send P n seqNum) ∧
      P.machine.idling.step (s.abstract P) (some a) = some ((s.send P n seqNum).abstract P) := by
  have hbehind : P.machine.step (s.abstract P) a = some (P.behind n
      (fun w => (s.toMaster w).decoded P.ofCallToMaster)
      fun w => (s.toWorker w).decoded P.ofCallToWorker) := hP.step_behind h.quiet hstep _ _
  have hreach := h.reachable.step a hbehind
  have htoMaster : ∀ w, ((s.send P n seqNum).toMaster w).Inv ∧
      ((s.send P n seqNum).toMaster w).decoded P.ofCallToMaster =
        (s.toMaster w).decoded P.ofCallToMaster ++ P.toMaster n w := by
    refine fun w => (h.toMaster w).decoded_send (fun msg _ => hP.wellFormedToMaster ..) fun msg hmsg => ?_
    refine hP.ofCall_messageToMaster hreach ?_ seqNum
    rw [Protocol.behind, hP.toMaster_setChannels]
    exact List.mem_append_right _ hmsg
  have htoWorker : ∀ w, ((s.send P n seqNum).toWorker w).Inv ∧
      ((s.send P n seqNum).toWorker w).decoded P.ofCallToWorker =
        (s.toWorker w).decoded P.ofCallToWorker ++ P.toWorker n w := by
    refine fun w => (h.toWorker w).decoded_send (fun msg _ => hP.wellFormedToWorker ..) fun msg hmsg => ?_
    refine hP.ofCall_messageToWorker hreach ?_ seqNum
    rw [Protocol.behind, hP.toWorker_setChannels]
    exact List.mem_append_right _ hmsg
  refine h.simulated hP.quiet_taken (fun w => (htoMaster w).1) (fun w => (htoWorker w).1) ?_
  have hsame : (s.send P n seqNum).abstract P = P.behind n
      (fun w => (s.toMaster w).decoded P.ofCallToMaster)
      fun w => (s.toWorker w).decoded P.ofCallToWorker := by
    rw [← hP.behind_taken]
    simp only [ProtocolWire.abstract, (htoMaster _).2, (htoWorker _).2]
    rfl
  rw [hsame]
  exact hbehind

/-- The bytes from a worker to the master move, and the master handles what they complete. -/
theorem bytesToMaster {w : NodeId} {a : Tcp.Action} {stream : Tcp.Stream} {call : Option Tcp.Call}
    (hstep : (s.toMaster w).step a = some (stream, call))
    (hhandle : { s with toMaster := Function.update s.toMaster w stream }.handleToMaster P w call =
      some t) :
    ProtocolWireInv P t ∧ P.machine.idling.step (s.abstract P)
      ((call.bind P.ofCallToMaster).map fun _ => P.masterReceive w) = some (t.abstract P) := by
  obtain ⟨hinv, hcall⟩ := (h.toMaster w).decoded_step P.ofCallToMaster hstep
  have hstreams := Tcp.Stream.forall_inv_update h.toMaster w hinv
  rw [ProtocolWire.handleToMaster] at hhandle
  rcases hcall with ⟨hnone, hsame⟩ | ⟨msg, hmsg, hfirst⟩
  · rw [hnone] at hhandle ⊢
    cases hhandle
    apply h.simulated
    · exact h.quiet
    · exact hstreams
    · exact h.toWorker
    · rw [ProtocolWire.abstract, ProtocolWire.abstract, Tcp.Stream.decoded_update, hsame,
        Function.update_eq_self]
      rfl
  · rw [hmsg] at hhandle ⊢
    obtain ⟨n, hn, rfl⟩ := Option.map_eq_some_iff.mp hhandle
    obtain ⟨hquiet, hreceive⟩ := hP.masterReceive h.quiet hn
    apply h.simulated
    · exact hquiet
    · exact hstreams
    · exact h.toWorker
    · rw [ProtocolWire.abstract, ProtocolWire.abstract, P.behind_of_quiet h.quiet,
        P.behind_of_quiet hquiet, Tcp.Stream.decoded_update]
      exact hreceive _ _ _ hfirst

/-- The bytes from the master to a worker move, and the worker handles what they complete. -/
theorem bytesToWorker {w : NodeId} {a : Tcp.Action} {stream : Tcp.Stream} {call : Option Tcp.Call}
    (hstep : (s.toWorker w).step a = some (stream, call))
    (hhandle : { s with toWorker := Function.update s.toWorker w stream }.handleToWorker P w call =
      some t) :
    ProtocolWireInv P t ∧ P.machine.idling.step (s.abstract P)
      ((call.bind P.ofCallToWorker).map fun _ => P.workerReceive w) = some (t.abstract P) := by
  obtain ⟨hinv, hcall⟩ := (h.toWorker w).decoded_step P.ofCallToWorker hstep
  have hstreams := Tcp.Stream.forall_inv_update h.toWorker w hinv
  rw [ProtocolWire.handleToWorker] at hhandle
  rcases hcall with ⟨hnone, hsame⟩ | ⟨msg, hmsg, hfirst⟩
  · rw [hnone] at hhandle ⊢
    cases hhandle
    apply h.simulated
    · exact h.quiet
    · exact h.toMaster
    · exact hstreams
    · rw [ProtocolWire.abstract, ProtocolWire.abstract, Tcp.Stream.decoded_update, hsame,
        Function.update_eq_self]
      rfl
  · rw [hmsg] at hhandle ⊢
    obtain ⟨n, hn, rfl⟩ := Option.map_eq_some_iff.mp hhandle
    obtain ⟨hquiet, hreceive⟩ := hP.workerReceive h.quiet hn
    apply h.simulated
    · exact hquiet
    · exact h.toMaster
    · exact hstreams
    · rw [ProtocolWire.abstract, ProtocolWire.abstract, P.behind_of_quiet h.quiet,
        P.behind_of_quiet hquiet, Tcp.Stream.decoded_update]
      exact hreceive _ _ _ hfirst

/-- The step lemma, and the simulation: every step is the step of the protocol that it stands for. -/
theorem step {a : ProtocolWireAction α} (hstep : s.step P a = some t) :
    ProtocolWireInv P t ∧ P.machine.idling.step (s.abstract P) (a.abstract P s) = some (t.abstract P) := by
  cases a with
  | thread a seqNum =>
      obtain ⟨n, hn, rfl⟩ := Option.map_eq_some_iff.mp hstep
      exact h.thread hP hn seqNum
  | toMaster w a =>
      obtain ⟨out, hout, hhandle⟩ := Option.bind_eq_some_iff.mp hstep
      rw [ProtocolWireAction.abstract, hout, Option.bind_some]
      exact h.bytesToMaster hP hout hhandle
  | toWorker w a =>
      obtain ⟨out, hout, hhandle⟩ := Option.bind_eq_some_iff.mp hstep
      rw [ProtocolWireAction.abstract, hout, Option.bind_some]
      exact h.bytesToWorker hP hout hhandle
  | otherToMaster w m =>
      rw [ProtocolWire.step, Option.ite_none_right_eq_some] at hstep
      obtain ⟨hother, heq⟩ := hstep
      cases heq
      obtain ⟨hinv, hsame⟩ := (h.toMaster w).decoded_send_other hother.1 (hP.otherToMaster hother)
      apply h.simulated
      · exact h.quiet
      · exact Tcp.Stream.forall_inv_update h.toMaster w hinv
      · exact h.toWorker
      · rw [ProtocolWire.abstract, ProtocolWire.abstract, Tcp.Stream.decoded_update, hsame,
          Function.update_eq_self]
        rfl
  | otherToWorker w m =>
      rw [ProtocolWire.step, Option.ite_none_right_eq_some] at hstep
      obtain ⟨hother, heq⟩ := hstep
      cases heq
      obtain ⟨hinv, hsame⟩ := (h.toWorker w).decoded_send_other hother.1 (hP.otherToWorker hother)
      apply h.simulated
      · exact h.quiet
      · exact h.toMaster
      · exact Tcp.Stream.forall_inv_update h.toWorker w hinv
      · rw [ProtocolWire.abstract, ProtocolWire.abstract, Tcp.Stream.decoded_update, hsame,
          Function.update_eq_self]
        rfl

end ProtocolWireInv

/-- The run lemma: over connections the protocol goes through its own states only. -/
theorem Protocol.Lawful.wireInv (hP : P.Lawful) {s : ProtocolWire σ} (h : P.wire.Reachable s) :
    ProtocolWireInv P s := by
  refine h.invariant (fun s hs => ?_) fun _ _ _ hinv hstep => (hinv.step hP hstep).1
  obtain ⟨nodes, hstart, rfl⟩ := hs
  have hquiet := hP.quiet_start _ hstart
  have hsame : (ProtocolWire.opened nodes).abstract P = nodes := hP.setChannels_self nodes
  exact ⟨hquiet, fun _ => .opened, fun _ => .opened, .start (hsame.symm ▸ hstart)⟩

end Dsm
