import Dsm.Sync.MasterThreads

/-!
# The history of a lock

What the master has taken in and granted, beside its locks: for each lock the requests that were not
refused, in the order in which they were handled, and the nodes that were made the holder, and for each
thread of the master how many requests had been taken in when it began to wait. A grant is issued in
the critical section that makes the node the holder, and its message leaves after it
(`granted_count`).

The two lists are the two ends of one queue. A thread of the master waits outside that queue, so it is
overtaken by later requests unless each hand-over and each immediate grant happens to respect its turn.
-/

namespace Dsm

structure LockHistory where
  master : MasterThreads
  requested : LockId → List NodeId
  granted : LockId → List NodeId
  /-- `(requested l).length` when the thread first blocked in its present `dsm_lock(l)`. -/
  since : ThreadId → Option Nat

instance (lock : Lock) : Decidable lock.Takes := inferInstanceAs (Decidable (_ → _))

namespace LockHistory

def requesting (h : LockHistory) (l : LockId) (srcNode : NodeId) : LockId → List NodeId :=
  if l < maxLocks ∧ (h.master.locks l).Takes then
    Function.update h.requested l (h.requested l ++ [srcNode])
  else h.requested

def granting (h : LockHistory) (l : LockId) (out : LockOutcome) : LockId → List NodeId :=
  match out.grant with
  | some node => Function.update h.granted l (h.granted l ++ [node])
  | none => h.granted

/-- What a step that leaves `m` adds to the history. -/
def record (h : LockHistory) (m : MasterThreads) : MasterThreadsAction → LockHistory
  | .handle (.request srcNode l) =>
      { h with
        master := m
        requested := h.requesting l srcNode
        granted := h.granting l (syncHandleLockRequest h.master.locks srcNode l) }
  | .handle (.release srcNode l) =>
      { h with
        master := m
        granted := h.granting l (syncHandleLockRelease h.master.locks srcNode l) }
  | .release t =>
      match h.master.pc t with
      | .release l =>
          { h with
            master := m
            granted := h.granting l (syncHandleLockRelease h.master.locks masterId l) }
      | _ => { h with master := m }
  | .test t =>
      match m.pc t with
      | .sleep l =>
          { h with
            master := m
            since := Function.update h.since t
              (some ((h.since t).getD (h.requested l).length)) }
      | _ => { h with master := m, since := Function.update h.since t none }
  | _ => { h with master := m }

def step (h : LockHistory) (a : MasterThreadsAction) : Option LockHistory :=
  (h.master.step a).map fun m => h.record m a

/-- Thread `t` has blocked in `dsm_lock(l)` when `n` requests had been taken in, and not returned. -/
def Waits (h : LockHistory) (t : ThreadId) (l : LockId) (n : Nat) : Prop :=
  (h.master.pc t = .sleep l ∨ h.master.pc t = .acquire l) ∧ h.since t = some n

/-- A node whose request came after thread `t` began to wait has been granted the lock. -/
def Overtaken (h : LockHistory) (t : ThreadId) (l : LockId) : Prop :=
  ∃ n, h.Waits t l n ∧ ¬ h.granted l <+: (h.requested l).take n

end LockHistory

def LockHistory.initial : LockHistory :=
  { master := .initial, requested := fun _ => [], granted := fun _ => [], since := fun _ => none }

def lockHistoryMachine : Machine LockHistory MasterThreadsAction where
  start h := h = .initial
  step := LockHistory.step

/-! ### The two ends of the queue -/

structure LockHistory.Fifo (h : LockHistory) : Prop where
  queue : ∀ l, h.granted l ++ (h.master.locks l).waiters = h.requested l
  records : h.master.Records

namespace LockHistory

variable {h h' : LockHistory}

theorem record_master (h : LockHistory) (m : MasterThreads) (a : MasterThreadsAction) :
    (h.record m a).master = m := by
  unfold record
  split <;> first | rfl | (split <;> rfl)

theorem Fifo.initial : Fifo .initial :=
  ⟨fun _ => rfl, .initial⟩

theorem granting_of_ne (out : LockOutcome) {l l' : LockId} (hne : l' ≠ l) :
    h.granting l out l' = h.granted l' := by
  unfold granting
  cases out.grant <;> simp [hne]

theorem requesting_of_ne (srcNode : NodeId) {l l' : LockId} (hne : l' ≠ l) :
    h.requesting l srcNode l' = h.requested l' := by
  unfold requesting
  split <;> simp [hne]

/-- A request goes to the end of the queue; one that finds the lock free goes through it at once. -/
theorem queue_request (hqueue : ∀ l, h.granted l ++ (h.master.locks l).waiters = h.requested l)
    (hfree : h.master.locks.NoneWaitsForFree) (srcNode : NodeId) (l l' : LockId) :
    h.granting l (syncHandleLockRequest h.master.locks srcNode l) l' ++
      ((syncHandleLockRequest h.master.locks srcNode l).locks l').waiters =
        h.requesting l srcNode l' := by
  by_cases heq : l' = l
  · subst heq
    have hq := hqueue l'
    by_cases hl : l' < maxLocks
    · have hrange : ¬ maxLocks ≤ l' := Nat.not_le.mpr hl
      cases hlocked : (h.master.locks l').locked with
      | false =>
          rw [hfree l' hlocked, List.append_nil] at hq
          simp [granting, requesting, syncHandleLockRequest, hl, hrange, hlocked, hq, Lock.Takes,
            hfree l' hlocked]
      | true =>
          by_cases hroom : (h.master.locks l').waiters.length < maxNodes
          · simp [granting, requesting, syncHandleLockRequest, hl, hrange, hlocked, hroom, ← hq,
              Lock.Takes]
          · simp [granting, requesting, syncHandleLockRequest, hrange, hlocked, hroom, hq,
              Lock.Takes]
    · simp [granting, requesting, syncHandleLockRequest, hl, Nat.not_lt.mp hl, hq]
  · rw [granting_of_ne _ heq, requesting_of_ne _ heq, syncHandleLockRequest_frame _ _ heq]
    exact hqueue l'

theorem queue_release (hqueue : ∀ l, h.granted l ++ (h.master.locks l).waiters = h.requested l)
    (node : NodeId) (l l' : LockId) :
    h.granting l (syncHandleLockRelease h.master.locks node l) l' ++
      ((syncHandleLockRelease h.master.locks node l).locks l').waiters = h.requested l' := by
  have hq := hqueue l'
  by_cases heq : l' = l
  · subst heq
    rcases syncHandleLockRelease_effect h.master.locks node l' with
      ⟨next, rest, -, -, hwaiters, hcall⟩ | ⟨-, -, hwaiters, hcall⟩ | ⟨-, hcall⟩
    · rw [hwaiters] at hq
      simp [granting, hcall, ← hq]
    · rw [hwaiters] at hq
      simp [granting, hcall, ← hq, hwaiters]
    · simp [granting, hcall, hq]
  · rw [granting_of_ne _ heq, syncHandleLockRelease_frame _ _ heq]
    exact hq

theorem Fifo.keep (hf : h.Fifo) (hrecords : h'.master.Records)
    (hwaiters : ∀ l, (h'.master.locks l).waiters = (h.master.locks l).waiters)
    (hrequested : h'.requested = h.requested) (hgranted : h'.granted = h.granted) : h'.Fifo := by
  refine ⟨fun l => ?_, hrecords⟩
  rw [hwaiters, hrequested, hgranted]
  exact hf.queue l

theorem Fifo.step {a : MasterThreadsAction} (hf : h.Fifo) (hstep : h.step a = some h') :
    h'.Fifo := by
  obtain ⟨m, hm, rfl⟩ := Option.map_eq_some_iff.mp hstep
  have hrecords : (h.record m a).master.Records := by
    rw [record_master]
    exact hf.records.step hm
  cases MasterThreads.step_effect hm with
  | lock | wake | spurious | unlock | grant | signal | tcpGrant =>
      exact hf.keep hrecords (fun _ => rfl) rfl rfl
  | testSleep =>
      exact hf.keep hrecords (by simp [record]) (by simp [record]) (by simp [record])
  | @testEnter t l =>
      refine hf.keep hrecords (fun l' => ?_) (by simp [record]) (by simp [record])
      by_cases heq : l' = l
      · subst heq
        simp [record]
      · simp [record, heq]
  | @release t l pc hpc =>
      refine ⟨fun l' => ?_, hrecords⟩
      simpa [record, hpc] using queue_release hf.queue masterId l l'
  | @handle msg =>
      cases msg with
      | request srcNode l =>
          exact ⟨queue_request hf.queue hf.records.noneWaits srcNode l, hrecords⟩
      | release srcNode l => exact ⟨queue_release hf.queue srcNode l, hrecords⟩

theorem Fifo.of_reachable (hreach : lockHistoryMachine.Reachable h) : h.Fifo := by
  refine hreach.invariant (fun s hs => ?_) (fun _ _ _ hinv => hinv.step)
  rw [hs]
  exact .initial

theorem Fifo.waiters_of_free (hf : h.Fifo) {l : LockId}
    (hwaiters : (h.master.locks l).waiters ≠ []) : (h.master.locks l).locked = true := by
  by_contra hfree
  exact hwaiters (hf.records.noneWaits l (Bool.not_eq_true _ ▸ hfree))

/-- A handled release by a node that is not the holder leaves the master and the history alone. -/
theorem step_release_of_not_heldBy {node : NodeId} {l : LockId}
    (hheld : (h.master.locks l).heldBy node = false)
    (hstep : h.step (.handle (.release node l)) = some h') : h' = h := by
  obtain ⟨m, hm, rfl⟩ := Option.map_eq_some_iff.mp hstep
  rw [MasterThreads.step, Option.ite_none_right_eq_some] at hm
  obtain ⟨htcp, heq⟩ := hm
  cases heq
  have hcall := syncHandleLockRelease_of_not_heldBy h.master.locks hheld
  have hmaster : h.master.handle (.release node l) = h.master := by
    cases hold : h.master
    rw [hold] at htcp hcall
    simp only [MasterThreads.handle, hcall] at htcp ⊢
    rw [htcp]
    rfl
  have hgranted : h.granting l (syncHandleLockRelease h.master.locks node l) = h.granted := by
    simp only [granting, hcall]
  simp only [record, hmaster, hgranted]

end LockHistory

/-- In every reachable state the grants of a lock followed by its waiters are the requests that were
not refused, in the order in which they came; a lock with a waiter is locked, a free one has no
holder, and a release by another node than the holder changes nothing. -/
theorem lock_queue_fifo {h : LockHistory} (hreach : lockHistoryMachine.Reachable h) (l : LockId) :
    h.granted l ++ (h.master.locks l).waiters = h.requested l ∧
      (0 < (h.master.locks l).waiters.length → (h.master.locks l).locked = true) ∧
      ((h.master.locks l).locked = false → (h.master.locks l).holderId = 0) ∧
      ∀ node h', (h.master.locks l).heldBy node = false →
        h.step (.handle (.release node l)) = some h' → h' = h := by
  have hf := LockHistory.Fifo.of_reachable hreach
  refine ⟨hf.queue l, fun hwaiters => ?_, fun hfree => ?_, fun node h' hheld hstep => ?_⟩
  · exact hf.waiters_of_free (List.length_pos_iff.mp hwaiters)
  · rw [hf.records.free l hfree]
    rfl
  · exact LockHistory.step_release_of_not_heldBy hheld hstep

/-- Worker 2 has lock 0, thread 0 of the master blocks on it, and worker 3 asks for it after that. -/
def overtakenRun : List MasterThreadsAction :=
  [.handle (.request 2 0), .tcpGrant, .lock 0 0, .test 0, .handle (.request 3 0)]

theorem lock_queue_fifo_two_requests : ∃ h, lockHistoryMachine.exec .initial overtakenRun = some h ∧
    (h.master.locks 0).waiters = [3] ∧ h.granted 0 ++ (h.master.locks 0).waiters = h.requested 0 := by
  have hreach : ∃ h, lockHistoryMachine.exec .initial overtakenRun = some h ∧
      (h.master.locks 0).waiters = [3] := ⟨_, rfl, rfl⟩
  obtain ⟨h, hexec, hwaiters⟩ := hreach
  exact ⟨h, hexec, hwaiters, (lock_queue_fifo ((Machine.Reachable.start rfl).exec hexec) 0).1⟩

end Dsm
