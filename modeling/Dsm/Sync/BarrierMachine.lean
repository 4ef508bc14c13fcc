import Dsm.Types
import Dsm.Library.Machine
import Mathlib.Logic.Function.Basic

/-!
# Barriers in a cluster

`dsm_barrier` on a master and its workers, `dsm_sync_handle_barrier_enter`, and the `BARRIER_*`
branches of `dsm_handle_message`, as one machine. The handler keeps the barrier's mutex while it
sends the releases one by one, so the machine records the thread that is in that loop and the nodes
it has left, and no step of another thread takes the mutex meanwhile. A condition wait returns only
after a broadcast.
-/

namespace Dsm

/-- `dsm_barrier_t`; `arrived` is `arrived[0..arrived_count)`. -/
structure Barrier where
  barrierId : Nat
  arrived : List NodeId
deriving DecidableEq, Repr

/-- The two threads of the master that run `dsm_sync_handle_barrier_enter`. -/
inductive BarrierThread where
  | tcp
  | app
deriving DecidableEq, Repr

/-- Where the application thread of the master is in `dsm_barrier`. -/
inductive BarrierMasterPc where
  | idle
  /-- About to run `dsm_sync_handle_barrier_enter`. -/
  | enter
  /-- Sending releases in that handler. -/
  | inHandler
  /-- About to take the mutex and read `barrier_id`. -/
  | read
  /-- In `pthread_cond_wait`, with the `current_id` it has read. -/
  | waiting (currentId : Nat)
  /-- Past a broadcast, about to take the mutex again. -/
  | woken (currentId : Nat)
deriving DecidableEq, Repr

/-- Where the application thread of a worker is in `dsm_barrier`. -/
inductive BarrierWorkerPc where
  | idle
  | send
  /-- About to take the mutex and wait. -/
  | lock
  | waiting
  | woken
deriving DecidableEq, Repr

structure BarrierMaster where
  pc : BarrierMasterPc
  barrier : Barrier
  /-- The thread in the release loop of the handler, and the nodes it has still to visit. -/
  releasing : Option (BarrierThread × List NodeId)
  /-- How often the barrier has been reset; `barrier_id` without its wrap-around. -/
  completed : Nat
  calls : Nat
  rets : Nat

/-- A worker with the two channels of its connection: the `src_node` of every `BARRIER_ENTER` on its
way to the master, and the number of `BARRIER_RELEASE` messages on their way back. -/
structure BarrierWorker where
  pc : BarrierWorkerPc
  toMaster : List NodeId
  toWorker : Nat
  calls : Nat
  rets : Nat

structure BarrierState where
  master : BarrierMaster
  worker : NodeId → BarrierWorker

inductive BarrierMasterAction where
  | call
  | enter
  | read
  | wake
  /-- The TCP thread takes the next `BARRIER_ENTER` of worker `w`. -/
  | receive (w : NodeId)
  /-- The thread in the release loop visits the next node. -/
  | visit
  /-- It leaves the loop, resets the barrier and wakes the local waiters. -/
  | reset
deriving DecidableEq, Repr

inductive BarrierWorkerAction where
  | call
  | send
  | wait
  /-- The TCP thread takes the next `BARRIER_RELEASE` and broadcasts. -/
  | receive
  | ret
deriving DecidableEq, Repr

inductive BarrierAction where
  | master (a : BarrierMasterAction)
  | worker (w : NodeId) (a : BarrierWorkerAction)
deriving DecidableEq, Repr

/-- `dsm_sync_handle_barrier_enter` up to its release loop. -/
def BarrierMaster.arrive (cl : Cluster) (m : BarrierMaster) (thread : BarrierThread)
    (fromNode : NodeId) : BarrierMaster :=
  let arrived := m.barrier.arrived ++ [fromNode]
  { m with
    barrier := { m.barrier with arrived := arrived }
    releasing := if cl.nodes.length ≤ arrived.length then some (thread, arrived) else none }

/-- The reset of the barrier and the broadcast with which `thread` ends the release loop. -/
def BarrierMaster.reset (m : BarrierMaster) (thread : BarrierThread) : BarrierMaster :=
  { m with
    barrier := { barrierId := (m.barrier.barrierId + 1) % 2 ^ 32, arrived := [] }
    releasing := none
    completed := m.completed + 1
    pc := match thread, m.pc with
      | .app, _ => .read
      | .tcp, .waiting currentId => .woken currentId
      | .tcp, pc => pc }

/-- One evaluation of the condition of the wait loop in `dsm_barrier`. -/
def BarrierMaster.test (m : BarrierMaster) (currentId : Nat) : BarrierMaster :=
  if m.barrier.barrierId = currentId ∧ 0 < m.barrier.arrived.length then
    { m with pc := .waiting currentId }
  else { m with pc := .idle, rets := m.rets + 1 }

/-- The steps of worker `w`: the worker branch of `dsm_barrier`, and `BARRIER_RELEASE`. -/
def BarrierWorker.step (w : NodeId) (n : BarrierWorker) : BarrierWorkerAction → Option BarrierWorker
  | .call => if n.pc = .idle then some { n with pc := .send, calls := n.calls + 1 } else none
  | .send =>
      if n.pc = .send then some { n with pc := .lock, toMaster := n.toMaster ++ [w] } else none
  | .wait => if n.pc = .lock then some { n with pc := .waiting } else none
  | .receive =>
      match n.toWorker with
      | rest + 1 =>
          some { n with toWorker := rest, pc := if n.pc = .waiting then .woken else n.pc }
      | 0 => none
  | .ret => if n.pc = .woken then some { n with pc := .idle, rets := n.rets + 1 } else none

namespace BarrierState

def setMaster (s : BarrierState) (m : BarrierMaster) : BarrierState := { s with master := m }

def setWorker (s : BarrierState) (w : NodeId) (n : BarrierWorker) : BarrierState :=
  { s with worker := Function.update s.worker w n }

/-- `dsm_tcp_send` of `BARRIER_RELEASE` to a node that has arrived, unless it is the master. -/
def sendRelease (s : BarrierState) (node : NodeId) : BarrierState :=
  if node ≠ masterId then
    s.setWorker node { s.worker node with toWorker := (s.worker node).toWorker + 1 }
  else s

/-- The steps of the master; those that take the mutex need it free. -/
def masterStep (cl : Cluster) (s : BarrierState) : BarrierMasterAction → Option BarrierState
  | .call =>
      if s.master.pc = .idle then
        some (s.setMaster { s.master with pc := .enter, calls := s.master.calls + 1 })
      else none
  | .enter =>
      if s.master.pc = .enter ∧ s.master.releasing = none then
        let m := s.master.arrive cl .app masterId
        some (s.setMaster { m with pc := if m.releasing = none then .read else .inHandler })
      else none
  | .read =>
      if s.master.pc = .read ∧ s.master.releasing = none then
        some (s.setMaster (s.master.test s.master.barrier.barrierId))
      else none
  | .wake =>
      match s.master.pc with
      | .woken currentId =>
          if s.master.releasing = none then some (s.setMaster (s.master.test currentId)) else none
      | _ => none
  | .receive w =>
      match (s.worker w).toMaster with
      | srcNode :: rest =>
          if w ∈ cl.workers ∧ s.master.releasing = none then
            some ((s.setMaster (s.master.arrive cl .tcp srcNode)).setWorker w
              { s.worker w with toMaster := rest })
          else none
      | [] => none
  | .visit =>
      match s.master.releasing with
      | some (thread, node :: rest) =>
          some ((s.setMaster { s.master with releasing := some (thread, rest) }).sendRelease node)
      | _ => none
  | .reset =>
      match s.master.releasing with
      | some (thread, []) => some (s.setMaster (s.master.reset thread))
      | _ => none

def step (cl : Cluster) (s : BarrierState) : BarrierAction → Option BarrierState
  | .master a => s.masterStep cl a
  | .worker w a => if w ∈ cl.workers then ((s.worker w).step w a).map (s.setWorker w) else none

/-- The calls of `dsm_barrier` that node `i` has made. -/
def calls (s : BarrierState) (i : NodeId) : Nat :=
  if i = masterId then s.master.calls else (s.worker i).calls

/-- The calls of `dsm_barrier` that have returned on node `i`. -/
def rets (s : BarrierState) (i : NodeId) : Nat :=
  if i = masterId then s.master.rets else (s.worker i).rets

end BarrierState

/-- The nodes as `dsm_sync_init` leaves them. -/
def BarrierState.initial : BarrierState :=
  { master :=
      { pc := .idle, barrier := { barrierId := 0, arrived := [] }, releasing := none
        completed := 0, calls := 0, rets := 0 }
    worker := fun _ => { pc := .idle, toMaster := [], toWorker := 0, calls := 0, rets := 0 } }

def barrierMachine (cl : Cluster) : Machine BarrierState BarrierAction where
  start s := s = .initial
  step := BarrierState.step cl

end Dsm
