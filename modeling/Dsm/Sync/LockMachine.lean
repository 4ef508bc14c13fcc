import Dsm.Sync.Lock
import Dsm.Library.Machine

/-!
# Locks in a cluster

A master and its workers running `dsm_lock`, `dsm_unlock` and the `LOCK_*` branches of
`dsm_handle_message`, as one machine. Each application thread runs one call at a time; a step is one
critical section, one send, or the delivery of one message. A channel carries whole messages in
order. The master has two threads that send grants, its TCP thread and its application thread, and
both send after they have left the critical section that decided the grant.
-/

namespace Dsm

/-- Where the application thread of the master is in `dsm_lock` or `dsm_unlock`. -/
inductive MasterPc where
  | idle
  /-- About to take the mutex and test the record. -/
  | acquire (l : LockId)
  /-- In `pthread_cond_wait`, and whether it has been signalled. -/
  | sleep (l : LockId) (signalled : Bool)
  | release (l : LockId)
  /-- About to send the grant that the release decided. -/
  | grant (l : LockId) (next : NodeId)
  | signal (l : LockId)
deriving DecidableEq, Repr

/-- Where the application thread of a worker is in `dsm_lock` or `dsm_unlock`. -/
inductive WorkerPc where
  | idle
  | request (l : LockId)
  /-- About to take the mutex and test the local record. -/
  | wait (l : LockId)
  /-- In `pthread_cond_wait`, and whether it has been signalled. -/
  | sleep (l : LockId) (signalled : Bool)
  | release (l : LockId)
  | clear (l : LockId)
deriving DecidableEq, Repr

/-- A message from a worker, with the `src_node` of its header. -/
inductive ToMaster where
  | request (srcNode : NodeId) (l : LockId)
  | release (srcNode : NodeId) (l : LockId)
deriving DecidableEq, Repr

def ToMaster.srcNode : ToMaster → NodeId
  | .request srcNode _ => srcNode
  | .release srcNode _ => srcNode

structure MasterNode where
  pc : MasterPc
  /-- The locks whose `dsm_lock` has returned and whose `dsm_unlock` has not been called since. -/
  inside : LockId → Bool
  locks : LockTable
  /-- The grant that the TCP thread is about to send. -/
  tcpGrant : Option (NodeId × LockId)

/-- A worker with the two channels of its connection; `toWorker` holds the lock ids of the
`LOCK_GRANT` messages on their way to it. -/
structure WorkerNode where
  pc : WorkerPc
  /-- The locks whose `dsm_lock` has returned and whose `dsm_unlock` has not been called since. -/
  inside : LockId → Bool
  locks : LockTable
  toMaster : List ToMaster
  toWorker : List LockId

structure LockState where
  master : MasterNode
  worker : NodeId → WorkerNode

inductive MasterAction where
  | lock (l : LockId)
  | test
  | wake
  | spurious
  | unlock (l : LockId)
  | release
  | grant
  | signal
  /-- The TCP thread takes the next message of worker `w` and runs its handler. -/
  | receive (w : NodeId)
  | tcpGrant
deriving DecidableEq, Repr

inductive WorkerAction where
  | lock (l : LockId)
  | request
  | test
  | wake
  | spurious
  | unlock (l : LockId)
  | release
  | clear
  /-- The TCP thread takes the next `LOCK_GRANT` and handles it. -/
  | receive
deriving DecidableEq, Repr

inductive LockAction where
  | master (a : MasterAction)
  | worker (w : NodeId) (a : WorkerAction)
deriving DecidableEq, Repr

/-- `pthread_cond_signal` on the condition of lock `l`. -/
def WorkerPc.signal (l : LockId) : WorkerPc → WorkerPc
  | .sleep l' signalled => .sleep l' (signalled || l == l')
  | pc => pc

/-- The steps of worker `w`: the worker branches of `dsm_lock` and `dsm_unlock`, and `LOCK_GRANT`. -/
def WorkerNode.step (w : NodeId) (n : WorkerNode) : WorkerAction → Option WorkerNode
  | .lock l =>
      if n.pc = .idle ∧ l < maxLocks ∧ n.inside l = false then
        some { n with pc := .request l }
      else none
  | .request =>
      match n.pc with
      | .request l => some { n with pc := .wait l, toMaster := n.toMaster ++ [.request w l] }
      | _ => none
  | .test =>
      match n.pc with
      | .wait l =>
          if !(n.locks l).heldBy w then some { n with pc := .sleep l false }
          else some { n with pc := .idle, inside := Function.update n.inside l true }
      | _ => none
  | .wake =>
      match n.pc with
      | .sleep l true => some { n with pc := .wait l }
      | _ => none
  | .spurious =>
      match n.pc with
      | .sleep l _ => some { n with pc := .wait l }
      | _ => none
  | .unlock l =>
      if n.pc = .idle ∧ l < maxLocks ∧ n.inside l = true then
        some { n with pc := .release l, inside := Function.update n.inside l false }
      else none
  | .release =>
      match n.pc with
      | .release l => some { n with pc := .clear l, toMaster := n.toMaster ++ [.release w l] }
      | _ => none
  | .clear =>
      match n.pc with
      | .clear l =>
          some { n with
            pc := .idle
            locks := Function.update n.locks l { n.locks l with locked := false, holderId := 0 } }
      | _ => none
  | .receive =>
      match n.toWorker with
      | l :: rest =>
          some { n with
            pc := n.pc.signal l
            locks := Function.update n.locks l { n.locks l with locked := true, holderId := w }
            toWorker := rest }
      | [] => none

/-- The `LOCK_REQUEST` and `LOCK_RELEASE` branches of `dsm_handle_message` on the master. -/
def MasterNode.handle (m : MasterNode) : ToMaster → MasterNode
  | .request srcNode l =>
      let out := syncHandleLockRequest m.locks srcNode l
      { m with locks := out.locks, tcpGrant := out.grant.map fun w => (w, l) }
  | .release srcNode l =>
      let out := syncHandleLockRelease m.locks srcNode l
      { m with locks := out.locks, tcpGrant := out.grant.map fun w => (w, l) }

namespace LockState

def setMaster (s : LockState) (m : MasterNode) : LockState := { s with master := m }

def setWorker (s : LockState) (w : NodeId) (n : WorkerNode) : LockState :=
  { s with worker := Function.update s.worker w n }

/-- `dsm_tcp_send` of `LOCK_GRANT`; a node that is not connected gets nothing. -/
def sendGrant (cl : Cluster) (s : LockState) (w : NodeId) (l : LockId) : LockState :=
  if w ∈ cl.workers then
    s.setWorker w { s.worker w with toWorker := (s.worker w).toWorker ++ [l] }
  else s

/-- The steps of the master: the master branches of `dsm_lock` and `dsm_unlock`, and the two
threads' sends and receives. -/
def masterStep (cl : Cluster) (s : LockState) : MasterAction → Option LockState
  | .lock l =>
      if s.master.pc = .idle ∧ l < maxLocks ∧ s.master.inside l = false then
        some (s.setMaster { s.master with pc := .acquire l })
      else none
  | .test =>
      match s.master.pc with
      | .acquire l =>
          let lock := s.master.locks l
          if lock.locked && lock.holderId != masterId then
            some (s.setMaster { s.master with pc := .sleep l false })
          else
            some (s.setMaster { s.master with
              pc := .idle
              inside := Function.update s.master.inside l true
              locks := Function.update s.master.locks l
                { lock with locked := true, holderId := masterId } })
      | _ => none
  | .wake =>
      match s.master.pc with
      | .sleep l true => some (s.setMaster { s.master with pc := .acquire l })
      | _ => none
  | .spurious =>
      match s.master.pc with
      | .sleep l _ => some (s.setMaster { s.master with pc := .acquire l })
      | _ => none
  | .unlock l =>
      if s.master.pc = .idle ∧ l < maxLocks ∧ s.master.inside l = true then
        some (s.setMaster { s.master with
          pc := .release l
          inside := Function.update s.master.inside l false })
      else none
  | .release =>
      match s.master.pc with
      | .release l =>
          let out := syncHandleLockRelease s.master.locks masterId l
          some (s.setMaster { s.master with
            locks := out.locks
            pc := match out.grant with
              | some next => .grant l next
              | none => .signal l })
      | _ => none
  | .grant =>
      match s.master.pc with
      | .grant l next => some ((s.setMaster { s.master with pc := .signal l }).sendGrant cl next l)
      | _ => none
  | .signal =>
      match s.master.pc with
      | .signal _ => some (s.setMaster { s.master with pc := .idle })
      | _ => none
  | .receive w =>
      match s.master.tcpGrant, (s.worker w).toMaster with
      | none, msg :: rest =>
          if w ∈ cl.workers then
            some ((s.setMaster (s.master.handle msg)).setWorker w { s.worker w with toMaster := rest })
          else none
      | _, _ => none
  | .tcpGrant =>
      match s.master.tcpGrant with
      | some (w, l) => some ((s.setMaster { s.master with tcpGrant := none }).sendGrant cl w l)
      | none => none

def step (cl : Cluster) (s : LockState) : LockAction → Option LockState
  | .master a => s.masterStep cl a
  | .worker w a => if w ∈ cl.workers then ((s.worker w).step w a).map (s.setWorker w) else none

end LockState

/-- A node as `dsm_sync_init` leaves it. -/
def MasterNode.initial : MasterNode :=
  { pc := .idle, inside := fun _ => false, locks := fun _ => .free, tcpGrant := none }

@[inherit_doc MasterNode.initial]
def WorkerNode.initial : WorkerNode :=
  { pc := .idle, inside := fun _ => false, locks := fun _ => .free, toMaster := [], toWorker := [] }

def LockState.initial : LockState :=
  { master := .initial, worker := fun _ => .initial }

def lockMachine (cl : Cluster) : Machine LockState LockAction where
  start s := s = .initial
  step := LockState.step cl

/-- Node `i` is between the return of `dsm_lock(l)` and its following call of `dsm_unlock(l)`. -/
def LockState.Inside (cl : Cluster) (s : LockState) (i : NodeId) (l : LockId) : Prop :=
  (i = masterId ∧ s.master.inside l = true) ∨ (i ∈ cl.workers ∧ (s.worker i).inside l = true)

/-! ### What a step can do -/

/-- The effects of the steps of worker `w`. -/
inductive WorkerNode.Effect (w : NodeId) (n : WorkerNode) : WorkerAction → WorkerNode → Prop where
  | lock {l : LockId} (hpc : n.pc = .idle) (hl : l < maxLocks) (hinside : n.inside l = false) :
      Effect w n (.lock l) { n with pc := .request l }
  | request {l : LockId} (hpc : n.pc = .request l) :
      Effect w n .request { n with pc := .wait l, toMaster := n.toMaster ++ [.request w l] }
  | testSleep {l : LockId} (hpc : n.pc = .wait l) (hheld : (n.locks l).heldBy w = false) :
      Effect w n .test { n with pc := .sleep l false }
  | testEnter {l : LockId} (hpc : n.pc = .wait l) (hheld : (n.locks l).heldBy w = true) :
      Effect w n .test { n with pc := .idle, inside := Function.update n.inside l true }
  | wake {l : LockId} (hpc : n.pc = .sleep l true) : Effect w n .wake { n with pc := .wait l }
  | spurious {l : LockId} {signalled : Bool} (hpc : n.pc = .sleep l signalled) :
      Effect w n .spurious { n with pc := .wait l }
  | unlock {l : LockId} (hpc : n.pc = .idle) (hl : l < maxLocks) (hinside : n.inside l = true) :
      Effect w n (.unlock l)
        { n with pc := .release l, inside := Function.update n.inside l false }
  | release {l : LockId} (hpc : n.pc = .release l) :
      Effect w n .release { n with pc := .clear l, toMaster := n.toMaster ++ [.release w l] }
  | clear {l : LockId} (hpc : n.pc = .clear l) :
      Effect w n .clear
        { n with
          pc := .idle
          locks := Function.update n.locks l { n.locks l with locked := false, holderId := 0 } }
  | receive {l : LockId} {rest : List LockId} (hgrants : n.toWorker = l :: rest) :
      Effect w n .receive
        { n with
          pc := n.pc.signal l
          locks := Function.update n.locks l { n.locks l with locked := true, holderId := w }
          toWorker := rest }

theorem WorkerNode.step_effect {w : NodeId} {n n' : WorkerNode} {a : WorkerAction}
    (h : n.step w a = some n') : n.Effect w a n' := by
  cases a with
  | lock l =>
      rw [WorkerNode.step, Option.ite_none_right_eq_some] at h
      obtain ⟨⟨hpc, hl, hinside⟩, heq⟩ := h
      cases heq
      exact .lock hpc hl hinside
  | unlock l =>
      rw [WorkerNode.step, Option.ite_none_right_eq_some] at h
      obtain ⟨⟨hpc, hl, hinside⟩, heq⟩ := h
      cases heq
      exact .unlock hpc hl hinside
  | test =>
      simp only [WorkerNode.step] at h
      split at h
      · rename_i l hpc
        cases hheld : (n.locks l).heldBy w <;> rw [hheld] at h <;> cases h
        · exact .testSleep hpc hheld
        · exact .testEnter hpc hheld
      · cases h
  | request | wake | spurious | release | clear | receive =>
      simp only [WorkerNode.step] at h
      split at h
      · cases h
        constructor
        assumption
      · cases h

/-- The effects of the steps of the master. -/
inductive LockState.MasterEffect (cl : Cluster) (s : LockState) :
    MasterAction → LockState → Prop where
  | lock {l : LockId} (hpc : s.master.pc = .idle) (hl : l < maxLocks)
      (hinside : s.master.inside l = false) :
      MasterEffect cl s (.lock l) (s.setMaster { s.master with pc := .acquire l })
  | testSleep {l : LockId} (hpc : s.master.pc = .acquire l)
      (htaken : ((s.master.locks l).locked && (s.master.locks l).holderId != masterId) = true) :
      MasterEffect cl s .test (s.setMaster { s.master with pc := .sleep l false })
  | testEnter {l : LockId} (hpc : s.master.pc = .acquire l)
      (hfree : ¬ ((s.master.locks l).locked && (s.master.locks l).holderId != masterId) = true) :
      MasterEffect cl s .test (s.setMaster { s.master with
        pc := .idle
        inside := Function.update s.master.inside l true
        locks := Function.update s.master.locks l
          { s.master.locks l with locked := true, holderId := masterId } })
  | wake {l : LockId} (hpc : s.master.pc = .sleep l true) :
      MasterEffect cl s .wake (s.setMaster { s.master with pc := .acquire l })
  | spurious {l : LockId} {signalled : Bool} (hpc : s.master.pc = .sleep l signalled) :
      MasterEffect cl s .spurious (s.setMaster { s.master with pc := .acquire l })
  | unlock {l : LockId} (hpc : s.master.pc = .idle) (hl : l < maxLocks)
      (hinside : s.master.inside l = true) :
      MasterEffect cl s (.unlock l) (s.setMaster { s.master with
        pc := .release l
        inside := Function.update s.master.inside l false })
  | release {l : LockId} (hpc : s.master.pc = .release l) :
      MasterEffect cl s .release (s.setMaster { s.master with
        locks := (syncHandleLockRelease s.master.locks masterId l).locks
        pc := match (syncHandleLockRelease s.master.locks masterId l).grant with
          | some next => .grant l next
          | none => .signal l })
  | grant {l : LockId} {next : NodeId} (hpc : s.master.pc = .grant l next) :
      MasterEffect cl s .grant ((s.setMaster { s.master with pc := .signal l }).sendGrant cl next l)
  | signal {l : LockId} (hpc : s.master.pc = .signal l) :
      MasterEffect cl s .signal (s.setMaster { s.master with pc := .idle })
  | receive {w : NodeId} {msg : ToMaster} {rest : List ToMaster} (hw : w ∈ cl.workers)
      (htcp : s.master.tcpGrant = none) (hhead : (s.worker w).toMaster = msg :: rest) :
      MasterEffect cl s (.receive w)
        ((s.setMaster (s.master.handle msg)).setWorker w { s.worker w with toMaster := rest })
  | tcpGrant {w : NodeId} {l : LockId} (htcp : s.master.tcpGrant = some (w, l)) :
      MasterEffect cl s .tcpGrant
        ((s.setMaster { s.master with tcpGrant := none }).sendGrant cl w l)

theorem LockState.masterStep_effect {cl : Cluster} {s t : LockState} {a : MasterAction}
    (h : s.masterStep cl a = some t) : s.MasterEffect cl a t := by
  cases a with
  | lock l =>
      rw [LockState.masterStep, Option.ite_none_right_eq_some] at h
      obtain ⟨⟨hpc, hl, hinside⟩, heq⟩ := h
      cases heq
      exact .lock hpc hl hinside
  | unlock l =>
      rw [LockState.masterStep, Option.ite_none_right_eq_some] at h
      obtain ⟨⟨hpc, hl, hinside⟩, heq⟩ := h
      cases heq
      exact .unlock hpc hl hinside
  | test =>
      simp only [LockState.masterStep] at h
      split at h
      · rename_i l hpc
        split at h
        · rename_i htaken
          cases h
          exact .testSleep hpc htaken
        · rename_i hfree
          cases h
          exact .testEnter hpc hfree
      · cases h
  | receive w =>
      simp only [LockState.masterStep] at h
      split at h
      · rename_i msg rest htcp hhead
        rw [Option.ite_none_right_eq_some] at h
        obtain ⟨hw, heq⟩ := h
        cases heq
        exact .receive hw htcp hhead
      · cases h
  | wake | spurious | release | grant | signal | tcpGrant =>
      simp only [LockState.masterStep] at h
      split at h
      · cases h
        constructor
        assumption
      · cases h

end Dsm
