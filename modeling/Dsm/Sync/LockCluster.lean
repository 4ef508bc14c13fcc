import Dsm.Sync.MasterThreads

/-!
# Locks in a cluster with any number of threads

`MasterThreads` with the workers around it, each of them with any number of application threads that
run the worker branches of `dsm_lock` and `dsm_unlock`. A channel carries whole messages in order. A
thread calls `dsm_unlock(l)` only while it has had more calls of `dsm_lock(l)` return than it has made
calls of `dsm_unlock(l)`; it may call `dsm_lock(l)` again before that.
-/

namespace Dsm

/-- Where an application thread of a worker is in `dsm_lock` or `dsm_unlock`. -/
inductive WorkerLockPc where
  | idle
  | request (l : LockId)
  /-- About to take the mutex and test the local record. -/
  | wait (l : LockId)
  /-- In `pthread_cond_wait`. -/
  | sleep (l : LockId)
  /-- About to send `LOCK_RELEASE`. -/
  | release (l : LockId)
  /-- About to clear the local record. -/
  | clear (l : LockId)
deriving DecidableEq, Repr

/-- A worker with the two channels of its connection; `toWorker` holds the lock ids of the
`LOCK_GRANT` messages on their way to it. -/
structure WorkerThreads where
  pc : ThreadId → WorkerLockPc
  locks : LockTable
  /-- The threads that are blocked on the condition of a lock. -/
  blocked : LockId → List ThreadId
  toMaster : List ToMaster
  toWorker : List LockId

inductive WorkerThreadsAction where
  /-- Thread `t` calls `dsm_lock(l)`. -/
  | lock (t : ThreadId) (l : LockId)
  | request (t : ThreadId)
  | test (t : ThreadId)
  | wake (t : ThreadId)
  | spurious (t : ThreadId)
  /-- Thread `t` calls `dsm_unlock(l)`. -/
  | unlock (t : ThreadId) (l : LockId)
  | release (t : ThreadId)
  | clear (t : ThreadId)
  /-- The TCP thread handles the next `LOCK_GRANT`, and its signal wakes `woken`. -/
  | receive (woken : Option ThreadId)
deriving DecidableEq, Repr

/-- How many calls of `dsm_lock(l)` of thread `t` have returned and not been undone by a call of
`dsm_unlock(l)`. -/
abbrev Acquired := ThreadId → LockId → Nat

/-- What a step means for the count of its thread. -/
inductive LockCall where
  | returned (t : ThreadId) (l : LockId)
  | unlocks (t : ThreadId) (l : LockId)
deriving DecidableEq, Repr

def Acquired.set (acquired : Acquired) (t : ThreadId) (l : LockId) (n : Nat) : Acquired :=
  Function.update acquired t (Function.update (acquired t) l n)

/-- A call of `dsm_unlock` without a `dsm_lock` of the same thread before it is not made. -/
def Acquired.count (acquired : Acquired) : Option LockCall → Option Acquired
  | some (.returned t l) => some (acquired.set t l (acquired t l + 1))
  | some (.unlocks t l) =>
      if 0 < acquired t l then some (acquired.set t l (acquired t l - 1)) else none
  | none => some acquired

namespace WorkerThreads

def setPc (n : WorkerThreads) (t : ThreadId) (pc : WorkerLockPc) : WorkerThreads :=
  { n with pc := Function.update n.pc t pc }

@[simp] theorem setPc_self (n : WorkerThreads) (t : ThreadId) (pc : WorkerLockPc) :
    (n.setPc t pc).pc t = pc := Function.update_self ..

@[simp] theorem setPc_of_ne {n : WorkerThreads} {t u : ThreadId} {pc : WorkerLockPc} (h : u ≠ t) :
    (n.setPc t pc).pc u = n.pc u := Function.update_of_ne h ..

@[simp] theorem setPc_locks (n : WorkerThreads) (t : ThreadId) (pc : WorkerLockPc) :
    (n.setPc t pc).locks = n.locks := rfl

@[simp] theorem setPc_toMaster (n : WorkerThreads) (t : ThreadId) (pc : WorkerLockPc) :
    (n.setPc t pc).toMaster = n.toMaster := rfl

@[simp] theorem setPc_toWorker (n : WorkerThreads) (t : ThreadId) (pc : WorkerLockPc) :
    (n.setPc t pc).toWorker = n.toWorker := rfl

def released (n : WorkerThreads) (w : NodeId) (l : LockId) : Nat := n.toMaster.count (.release w l)

/-- The steps of worker `w`: the worker branches of `dsm_lock` and `dsm_unlock`, and `LOCK_GRANT`. -/
def step (w : NodeId) (n : WorkerThreads) : WorkerThreadsAction → Option WorkerThreads
  | .lock t l => if n.pc t = .idle ∧ l < maxLocks then some (n.setPc t (.request l)) else none
  | .request t =>
      match n.pc t with
      | .request l => some { n.setPc t (.wait l) with toMaster := n.toMaster ++ [.request w l] }
      | _ => none
  | .test t =>
      match n.pc t with
      | .wait l =>
          if !(n.locks l).heldBy w then
            some { n.setPc t (.sleep l) with
              blocked := Function.update n.blocked l (n.blocked l ++ [t]) }
          else some (n.setPc t .idle)
      | _ => none
  | .wake t =>
      match n.pc t with
      | .sleep l => if t ∈ n.blocked l then none else some (n.setPc t (.wait l))
      | _ => none
  | .spurious t =>
      match n.pc t with
      | .sleep l =>
          some { n.setPc t (.wait l) with
            blocked := Function.update n.blocked l ((n.blocked l).erase t) }
      | _ => none
  | .unlock t l => if n.pc t = .idle ∧ l < maxLocks then some (n.setPc t (.release l)) else none
  | .release t =>
      match n.pc t with
      | .release l => some { n.setPc t (.clear l) with toMaster := n.toMaster ++ [.release w l] }
      | _ => none
  | .clear t =>
      match n.pc t with
      | .clear l =>
          some { n.setPc t .idle with
            locks := Function.update n.locks l { n.locks l with locked := false, holderId := 0 } }
      | _ => none
  | .receive woken =>
      match n.toWorker with
      | l :: rest => (CondVar.signal (n.blocked l) woken).map fun left =>
          { n with
            locks := Function.update n.locks l { n.locks l with locked := true, holderId := w }
            blocked := Function.update n.blocked l left
            toWorker := rest }
      | [] => none

def call (w : NodeId) (n : WorkerThreads) : WorkerThreadsAction → Option LockCall
  | .test t =>
      match n.pc t with
      | .wait l => if (n.locks l).heldBy w then some (.returned t l) else none
      | _ => none
  | .unlock t l => some (.unlocks t l)
  | _ => none

end WorkerThreads

def MasterThreads.call (m : MasterThreads) : MasterThreadsAction → Option LockCall
  | .test t =>
      match m.pc t with
      | .acquire l =>
          if (m.locks l).locked && (m.locks l).holderId != masterId then none
          else some (.returned t l)
      | _ => none
  | .unlock t l => some (.unlocks t l)
  | _ => none

structure LockCluster where
  master : MasterThreads
  worker : NodeId → WorkerThreads
  acquired : NodeId → Acquired

inductive LockClusterAction where
  /-- A step of the master other than the handling of a message. -/
  | master (a : MasterThreadsAction)
  /-- The TCP thread of the master takes the next message of worker `w` and runs its handler. -/
  | receive (w : NodeId)
  | worker (w : NodeId) (a : WorkerThreadsAction)
deriving DecidableEq, Repr

namespace LockCluster

/-- `dsm_tcp_send` of `LOCK_GRANT`; a node that is not connected gets nothing. -/
def deliver (cl : Cluster) (worker : NodeId → WorkerThreads) :
    Option (NodeId × LockId) → NodeId → WorkerThreads
  | some (w, l) =>
      if w ∈ cl.workers then
        Function.update worker w { worker w with toWorker := (worker w).toWorker ++ [l] }
      else worker
  | none => worker

def step (cl : Cluster) (s : LockCluster) : LockClusterAction → Option LockCluster
  | .master (.handle _) => none
  | .master a =>
      (s.master.step a).bind fun m => ((s.acquired masterId).count (s.master.call a)).map fun n =>
        { master := m
          worker := deliver cl s.worker (s.master.sends a)
          acquired := Function.update s.acquired masterId n }
  | .receive w =>
      match (s.worker w).toMaster with
      | msg :: rest =>
          if w ∈ cl.workers then (s.master.step (.handle msg)).map fun m =>
            { s with
              master := m
              worker := Function.update s.worker w { s.worker w with toMaster := rest } }
          else none
      | [] => none
  | .worker w a =>
      if w ∈ cl.workers then
        ((s.worker w).step w a).bind fun n =>
          ((s.acquired w).count ((s.worker w).call w a)).map fun k =>
            { s with
              worker := Function.update s.worker w n
              acquired := Function.update s.acquired w k }
      else none

end LockCluster

/-- The nodes as `dsm_sync_init` leaves them. -/
def LockCluster.initial : LockCluster :=
  { master := .initial
    worker := fun _ =>
      { pc := fun _ => .idle, locks := fun _ => .free, blocked := fun _ => [], toMaster := []
        toWorker := [] }
    acquired := fun _ _ _ => 0 }

def lockCluster (cl : Cluster) : Machine LockCluster LockClusterAction where
  start s := s = .initial
  step := LockCluster.step cl

/-! ### What a step can do -/

/-- The effects of the steps of worker `w`. -/
inductive WorkerThreads.Effect (w : NodeId) (n : WorkerThreads) :
    WorkerThreadsAction → WorkerThreads → Prop where
  | lock {t : ThreadId} {l : LockId} (hpc : n.pc t = .idle) (hl : l < maxLocks) :
      Effect w n (.lock t l) (n.setPc t (.request l))
  | request {t : ThreadId} {l : LockId} (hpc : n.pc t = .request l) :
      Effect w n (.request t)
        { n.setPc t (.wait l) with toMaster := n.toMaster ++ [.request w l] }
  | testSleep {t : ThreadId} {l : LockId} (hpc : n.pc t = .wait l)
      (hheld : (n.locks l).heldBy w = false) :
      Effect w n (.test t) { n.setPc t (.sleep l) with
        blocked := Function.update n.blocked l (n.blocked l ++ [t]) }
  | testEnter {t : ThreadId} {l : LockId} (hpc : n.pc t = .wait l)
      (hheld : (n.locks l).heldBy w = true) : Effect w n (.test t) (n.setPc t .idle)
  | wake {t : ThreadId} {l : LockId} (hpc : n.pc t = .sleep l) :
      Effect w n (.wake t) (n.setPc t (.wait l))
  | spurious {t : ThreadId} {l : LockId} (hpc : n.pc t = .sleep l) :
      Effect w n (.spurious t) { n.setPc t (.wait l) with
        blocked := Function.update n.blocked l ((n.blocked l).erase t) }
  | unlock {t : ThreadId} {l : LockId} (hpc : n.pc t = .idle) (hl : l < maxLocks) :
      Effect w n (.unlock t l) (n.setPc t (.release l))
  | release {t : ThreadId} {l : LockId} (hpc : n.pc t = .release l) :
      Effect w n (.release t)
        { n.setPc t (.clear l) with toMaster := n.toMaster ++ [.release w l] }
  | clear {t : ThreadId} {l : LockId} (hpc : n.pc t = .clear l) :
      Effect w n (.clear t) { n.setPc t .idle with
        locks := Function.update n.locks l { n.locks l with locked := false, holderId := 0 } }
  | receive {l : LockId} {rest : List LockId} {woken : Option ThreadId} {left : List ThreadId}
      (hgrants : n.toWorker = l :: rest) (hleft : CondVar.signal (n.blocked l) woken = some left) :
      Effect w n (.receive woken)
        { n with
          locks := Function.update n.locks l { n.locks l with locked := true, holderId := w }
          blocked := Function.update n.blocked l left
          toWorker := rest }

theorem WorkerThreads.step_effect {w : NodeId} {n n' : WorkerThreads} {a : WorkerThreadsAction}
    (h : n.step w a = some n') : n.Effect w a n' := by
  cases a with
  | lock t l =>
      rw [step, Option.ite_none_right_eq_some] at h
      obtain ⟨⟨hpc, hl⟩, heq⟩ := h
      cases heq
      exact .lock hpc hl
  | unlock t l =>
      rw [step, Option.ite_none_right_eq_some] at h
      obtain ⟨⟨hpc, hl⟩, heq⟩ := h
      cases heq
      exact .unlock hpc hl
  | test t =>
      simp only [step] at h
      split at h
      · rename_i l hpc
        cases hheld : (n.locks l).heldBy w <;> rw [hheld] at h <;> cases h
        · exact .testSleep hpc hheld
        · exact .testEnter hpc hheld
      · cases h
  | wake t =>
      simp only [step] at h
      split at h
      · rename_i l hpc
        rw [Option.ite_none_left_eq_some] at h
        obtain ⟨-, heq⟩ := h
        cases heq
        exact .wake hpc
      · cases h
  | receive woken =>
      simp only [step] at h
      split at h
      · rename_i l rest hgrants
        rw [Option.map_eq_some_iff] at h
        obtain ⟨left, hleft, heq⟩ := h
        cases heq
        exact .receive hgrants hleft
      · cases h
  | request t | spurious t | release t | clear t =>
      simp only [step] at h
      split at h
      · cases h
        constructor
        assumption
      · cases h

def WorkerThreadsAction.thread : WorkerThreadsAction → Option ThreadId
  | .lock t _ | .request t | .test t | .wake t | .spurious t | .unlock t _ | .release t
  | .clear t => some t
  | .receive _ => none

theorem WorkerThreads.pc_of_step {w : NodeId} {n n' : WorkerThreads} {a : WorkerThreadsAction}
    {t : ThreadId} (hstep : n.step w a = some n') (hthread : a.thread ≠ some t) :
    n'.pc t = n.pc t := by
  cases WorkerThreads.step_effect hstep with
  | receive => rfl
  | lock | request | testSleep | testEnter | wake | spurious | unlock | release | clear =>
      exact WorkerThreads.setPc_of_ne fun heq => hthread (congrArg some heq.symm)

def MasterThreadsAction.thread : MasterThreadsAction → Option ThreadId
  | .lock t _ | .test t | .wake t | .spurious t | .unlock t _ | .release t | .grant t
  | .signal t _ => some t
  | .handle _ | .tcpGrant => none

theorem MasterThreads.pc_of_step {m m' : MasterThreads} {a : MasterThreadsAction} {t : ThreadId}
    (hstep : m.step a = some m') (hthread : a.thread ≠ some t) : m'.pc t = m.pc t := by
  cases MasterThreads.step_effect hstep with
  | @handle msg => cases msg <;> rfl
  | tcpGrant => rfl
  | lock | testSleep | testEnter | wake | spurious | unlock | release | grant | signal =>
      exact MasterThreads.setPc_of_ne fun heq => hthread (congrArg some heq.symm)

/-- Thread `t` of node `i` takes the step. -/
def LockClusterAction.Moves (i : NodeId) (t : ThreadId) : LockClusterAction → Prop
  | .master a => masterId = i ∧ a.thread = some t
  | .worker w a => w = i ∧ a.thread = some t
  | .receive _ => False

namespace LockCluster

/-- The effects of the steps of the cluster. -/
inductive Effect (cl : Cluster) (s : LockCluster) : LockClusterAction → LockCluster → Prop where
  | master {a : MasterThreadsAction} {m : MasterThreads} {n : Acquired}
      (hown : ∀ msg, a ≠ .handle msg) (hstep : s.master.step a = some m)
      (hcount : (s.acquired masterId).count (s.master.call a) = some n) :
      Effect cl s (.master a)
        { master := m
          worker := deliver cl s.worker (s.master.sends a)
          acquired := Function.update s.acquired masterId n }
  | receive {w : NodeId} {msg : ToMaster} {rest : List ToMaster} (hw : w ∈ cl.workers)
      (hhead : (s.worker w).toMaster = msg :: rest) (htcp : s.master.tcpGrant = none) :
      Effect cl s (.receive w)
        { s with
          master := s.master.handle msg
          worker := Function.update s.worker w { s.worker w with toMaster := rest } }
  | worker {w : NodeId} {a : WorkerThreadsAction} {n : WorkerThreads} {k : Acquired}
      (hw : w ∈ cl.workers) (hstep : (s.worker w).step w a = some n)
      (hcount : (s.acquired w).count ((s.worker w).call w a) = some k) :
      Effect cl s (.worker w a)
        { s with
          worker := Function.update s.worker w n
          acquired := Function.update s.acquired w k }

theorem step_effect {cl : Cluster} {s t : LockCluster} {a : LockClusterAction}
    (h : s.step cl a = some t) : s.Effect cl a t := by
  cases a with
  | master a =>
      have hown : ∀ msg, a ≠ .handle msg := by
        rintro msg rfl
        cases h
      have hbind : ((s.master.step a).bind fun m =>
          ((s.acquired masterId).count (s.master.call a)).map fun n =>
            { master := m
              worker := deliver cl s.worker (s.master.sends a)
              acquired := Function.update s.acquired masterId n }) = some t := by
        cases a with
        | handle msg => exact absurd rfl (hown msg)
        | _ => exact h
      obtain ⟨m, hm, hmap⟩ := Option.bind_eq_some_iff.mp hbind
      obtain ⟨n, hn, rfl⟩ := Option.map_eq_some_iff.mp hmap
      exact .master hown hm hn
  | receive w =>
      simp only [step] at h
      split at h
      · rename_i msg rest hhead
        rw [Option.ite_none_right_eq_some, Option.map_eq_some_iff] at h
        obtain ⟨hw, m, hm, rfl⟩ := h
        rw [MasterThreads.step, Option.ite_none_right_eq_some] at hm
        obtain ⟨htcp, heq⟩ := hm
        cases heq
        exact .receive hw hhead htcp
      · cases h
  | worker w a =>
      rw [step, Option.ite_none_right_eq_some] at h
      obtain ⟨hw, hbind⟩ := h
      obtain ⟨n, hn, hmap⟩ := Option.bind_eq_some_iff.mp hbind
      obtain ⟨k, hk, rfl⟩ := Option.map_eq_some_iff.mp hmap
      exact .worker hw hn hk

/-- The master of the cluster is the master of the machine without workers, so what holds of the one
in every reachable state holds of the other. -/
theorem master_reachable {cl : Cluster} {s : LockCluster} (hreach : (lockCluster cl).Reachable s) :
    masterThreadsMachine.Reachable s.master := by
  refine hreach.map LockCluster.master (fun s hs => by rw [hs]; rfl) (fun s a t hstep => ?_)
  cases step_effect hstep with
  | master _ hm => exact .inr ⟨_, hm⟩
  | @receive w msg rest _ _ htcp =>
      exact .inr ⟨.handle msg, by simp [masterThreadsMachine, MasterThreads.step, htcp]⟩
  | worker => exact .inl rfl

/-- A step of the master leaves the workers alone but for the grant that it sends. -/
theorem deliver_frame (cl : Cluster) (worker : NodeId → WorkerThreads)
    (sent : Option (NodeId × LockId)) (w : NodeId) :
    (deliver cl worker sent w).pc = (worker w).pc ∧
      (deliver cl worker sent w).locks = (worker w).locks ∧
      (deliver cl worker sent w).toMaster = (worker w).toMaster := by
  unfold deliver
  split
  · rename_i node l
    split
    · by_cases heq : w = node
      · subst heq
        simp
      · simp [heq]
    · exact ⟨rfl, rfl, rfl⟩
  · exact ⟨rfl, rfl, rfl⟩

theorem pc_of_step {cl : Cluster} {s s' : LockCluster} {a : LockClusterAction} {w : NodeId}
    {t : ThreadId} (hstep : s.step cl a = some s') (hmoves : ¬ a.Moves w t) :
    (s'.worker w).pc t = (s.worker w).pc t := by
  cases step_effect hstep with
  | master => rw [(deliver_frame cl s.worker _ w).1]
  | @receive v msg rest =>
      by_cases heq : w = v
      · subst heq
        simp
      · simp [heq]
  | @worker v b n k hv hn =>
      by_cases heq : w = v
      · subst heq
        simpa using WorkerThreads.pc_of_step hn fun hthread => hmoves ⟨rfl, hthread⟩
      · simp [heq]

theorem master_pc_of_step {cl : Cluster} {s s' : LockCluster} {a : LockClusterAction}
    {t : ThreadId} (hstep : s.step cl a = some s') (hmoves : ¬ a.Moves masterId t) :
    s'.master.pc t = s.master.pc t := by
  cases step_effect hstep with
  | master _ hm => exact MasterThreads.pc_of_step hm fun hthread => hmoves ⟨rfl, hthread⟩
  | @receive v msg rest => cases msg <;> rfl
  | worker => rfl

/-- A thread that has taken no step of a run is outside `dsm_lock` and `dsm_unlock`. -/
theorem idle_of_exec {cl : Cluster} {s : LockCluster} {as : List LockClusterAction} {w : NodeId}
    {t : ThreadId} (hexec : (lockCluster cl).exec .initial as = some s)
    (hmoves : ∀ a ∈ as, ¬ a.Moves w t) : (s.worker w).pc t = .idle := by
  refine (lockCluster cl).exec_invariant (fun u => (u.worker w).pc t = .idle) hexec ?_ rfl
  intro a ha u v hidle hstep
  rw [pc_of_step hstep (hmoves a ha), hidle]

theorem master_idle_of_exec {cl : Cluster} {s : LockCluster} {as : List LockClusterAction}
    {t : ThreadId} (hexec : (lockCluster cl).exec .initial as = some s)
    (hmoves : ∀ a ∈ as, ¬ a.Moves masterId t) : s.master.pc t = .idle := by
  refine (lockCluster cl).exec_invariant (fun u => u.master.pc t = .idle) hexec ?_ rfl
  intro a ha u v hidle hstep
  rw [master_pc_of_step hstep (hmoves a ha), hidle]

/-- The messages of a worker carry its id. -/
def Sources (cl : Cluster) (s : LockCluster) : Prop :=
  ∀ w ∈ cl.workers, ∀ msg ∈ (s.worker w).toMaster, msg.srcNode = w

theorem Sources.step {cl : Cluster} {s t : LockCluster} {a : LockClusterAction}
    (h : s.Sources cl) (hstep : s.step cl a = some t) : t.Sources cl := by
  intro i hi msg hmsg
  cases step_effect hstep with
  | master =>
      rw [(deliver_frame cl s.worker _ i).2.2] at hmsg
      exact h i hi msg hmsg
  | @receive w first rest hw hhead =>
      by_cases heq : i = w
      · subst heq
        simp only [Function.update_self] at hmsg
        refine h i hi msg ?_
        rw [hhead]
        exact List.mem_cons_of_mem _ hmsg
      · simp only [Function.update_of_ne heq] at hmsg
        exact h i hi msg hmsg
  | @worker w b n k hw hn =>
      by_cases heq : i = w
      · subst heq
        simp only [Function.update_self] at hmsg
        cases WorkerThreads.step_effect hn with
        | request | release =>
            rcases List.mem_append.mp hmsg with hold | hnew
            · exact h i hi msg hold
            · rw [List.mem_singleton.mp hnew]
              rfl
        | lock | testSleep | testEnter | wake | spurious | unlock | clear | receive =>
            exact h i hi msg hmsg
      · simp only [Function.update_of_ne heq] at hmsg
        exact h i hi msg hmsg

variable {cl : Cluster} {s : LockCluster}

theorem records_of_reachable (hreach : (lockCluster cl).Reachable s) : s.master.Records :=
  .of_reachable (master_reachable hreach)

theorem sources_of_reachable (hreach : (lockCluster cl).Reachable s) : s.Sources cl := by
  refine hreach.invariant (fun s hs => ?_) (fun _ _ _ hsources hstep => hsources.step hstep)
  rw [hs]
  intro w _ msg hmsg
  cases hmsg

end LockCluster

end Dsm
