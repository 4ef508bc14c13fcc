import Dsm.Library.Machine
import Dsm.Sync.Lock

/-!
# Requests during initialization

The rest of `dsm_init_with_params` on the master after its role is set, beside the TCP thread, which
already handles lock and barrier messages. Every statement of `dsm_sync_init` and of the handlers is a
step of its own, as `dsm_sync_init` takes none of the mutexes; the loop that shifts a queue is one step,
and so is a send, which is left out.

`granted`, `queued` and `entered` are histories of what the handlers have decided, and the records are
to agree with them (`Reflected`). They do as long as every field that `dsm_sync_init` resets has the
value already (`accepted_of_resets_clear`). The records are all zero after `dsm_context_init`, so this
fails only where a handler has come first.
-/

namespace Dsm

/-- A `dsm_lock_t` of the master. -/
structure SyncLock where
  locked : Bool
  holderId : NodeId
  waiters : ℕ → NodeId
  waiterCount : ℕ
  /-- The nodes that were granted the lock and have not released it since. -/
  granted : List NodeId
  /-- The nodes that were put into the queue and not taken from it since. -/
  queued : List NodeId

/-- `dsm_barrier_t`. -/
structure SyncBarrier where
  barrierId : ℕ
  arrived : ℕ → NodeId
  arrivedCount : ℕ
  /-- The arrivals since the last release. -/
  entered : List NodeId

/-- `waiters[0..waiter_count)`. -/
def SyncLock.queue (lock : SyncLock) : List NodeId := (List.range lock.waiterCount).map lock.waiters

/-- `arrived[0..arrived_count)`. -/
def SyncBarrier.arrivals (b : SyncBarrier) : List NodeId := (List.range b.arrivedCount).map b.arrived

/-- `n - 1` in `uint32_t`. -/
def pred32 : ℕ → ℕ
  | 0 => 2 ^ 32 - 1
  | n + 1 => n

/-- Where the TCP thread is in one of the two handlers of a lock record. -/
inductive LockPc where
  /-- At the test of `locked` in `dsm_sync_handle_lock_request`. -/
  | request (fromNode : NodeId)
  /-- Before `locked = true`. -/
  | grant (fromNode : NodeId)
  /-- Before `holder_id = from_node`. -/
  | setHolder (fromNode : NodeId)
  | enqueue (fromNode : NodeId)
  /-- At the first test in `dsm_sync_handle_lock_release`. -/
  | release (fromNode : NodeId)
  /-- At the test of `waiter_count`. -/
  | waiters
  /-- Before `next_holder = waiters[0]`. -/
  | next
  /-- Before the loop that shifts the queue. -/
  | shift (nextHolder : NodeId)
  /-- Before `waiter_count--`. -/
  | decrement (nextHolder : NodeId)
  /-- Before `holder_id = next_holder`. -/
  | transfer (nextHolder : NodeId)
  /-- Before `locked = false`. -/
  | unlock
  /-- Before `holder_id = 0`. -/
  | clearHolder
deriving DecidableEq

/-- Where it is in `dsm_sync_handle_barrier_enter`. -/
inductive BarrierPc where
  /-- Before `arrived[arrived_count++] = from_node`. -/
  | enter (fromNode : NodeId)
  /-- At the test of `arrived_count`. -/
  | count
  /-- Before `arrived_count = 0`. -/
  | reset
  /-- Before `barrier_id++`. -/
  | advance
deriving DecidableEq

/-- The next statement of the handler on the record, and where it goes; `none` where it returns. -/
def LockPc.step : LockPc → SyncLock → Option LockPc × SyncLock
  | .request fromNode, lock =>
      (some (if lock.locked then .enqueue fromNode else .grant fromNode), lock)
  | .grant fromNode, lock => (some (.setHolder fromNode), { lock with locked := true })
  | .setHolder fromNode, lock =>
      (none, { lock with holderId := fromNode, granted := fromNode :: lock.granted })
  | .enqueue fromNode, lock =>
      if lock.waiterCount < maxNodes then
        (none, { lock with
          waiters := Function.update lock.waiters lock.waiterCount fromNode
          waiterCount := lock.waiterCount + 1
          queued := lock.queued ++ [fromNode] })
      else (none, lock)
  | .release fromNode, lock =>
      if lock.locked = true ∧ lock.holderId = fromNode then
        (some .waiters, { lock with granted := lock.granted.filter (· ≠ fromNode) })
      else (none, lock)
  | .waiters, lock => (some (if 0 < lock.waiterCount then .next else .unlock), lock)
  | .next, lock => (some (.shift (lock.waiters 0)), lock)
  | .shift nextHolder, lock =>
      (some (.decrement nextHolder), { lock with
        waiters := fun i => if i < pred32 lock.waiterCount then lock.waiters (i + 1) else lock.waiters i
        queued := lock.queued.tail })
  | .decrement nextHolder, lock =>
      (some (.transfer nextHolder), { lock with waiterCount := pred32 lock.waiterCount })
  | .transfer nextHolder, lock =>
      (none, { lock with holderId := nextHolder, granted := nextHolder :: lock.granted })
  | .unlock, lock => (some .clearHolder, { lock with locked := false })
  | .clearHolder, lock => (none, { lock with holderId := 0 })

/-- `totalNodes` is what `dsm_node_table_count` returns. -/
def BarrierPc.step (totalNodes : ℕ) : BarrierPc → SyncBarrier → Option BarrierPc × SyncBarrier
  | .enter fromNode, b =>
      (some .count, { b with
        arrived := Function.update b.arrived b.arrivedCount fromNode
        arrivedCount := b.arrivedCount + 1
        entered := b.entered ++ [fromNode] })
  | .count, b => (if totalNodes ≤ b.arrivedCount then some .reset else none, b)
  | .reset, b => (some .advance, { b with arrivedCount := 0, entered := [] })
  | .advance, b => (none, { b with barrierId := (b.barrierId + 1) % 2 ^ 32 })

/-- A message to the master that its TCP thread handles. -/
inductive SyncRequest where
  | lockRequest (srcNode : NodeId) (lockId : LockId)
  | lockRelease (srcNode : NodeId) (lockId : LockId)
  | barrierEnter (srcNode : NodeId)
deriving DecidableEq

inductive SyncPc where
  | idle
  | lock (lockId : LockId) (pc : LockPc)
  | barrier (pc : BarrierPc)
deriving DecidableEq

/-- The handler that a message calls, past its check of the lock id. -/
def SyncRequest.start : SyncRequest → SyncPc
  | .lockRequest srcNode lockId => if maxLocks ≤ lockId then .idle else .lock lockId (.request srcNode)
  | .lockRelease srcNode lockId => if maxLocks ≤ lockId then .idle else .lock lockId (.release srcNode)
  | .barrierEnter srcNode => .barrier (.enter srcNode)

/-- A statement of the initialization. -/
inductive InitStmt where
  /-- A call that may fail and touches none of the records. -/
  | call
  | holderId (l : LockId)
  | locked (l : LockId)
  | waiterCount (l : LockId)
  | barrierId
  | arrivedCount
deriving DecidableEq

/-- The body of the loop over the locks; the calls are the two of `pthread_*_init`. -/
def lockInitStmts (l : LockId) : List InitStmt :=
  [.holderId l, .locked l, .waiterCount l, .call, .call]

def syncInitStmts : List InitStmt :=
  (List.range maxLocks).flatMap lockInitStmts ++ [.barrierId, .arrivedCount, .call, .call]

/-- `dsm_mem_init`, `dsm_pagefault_init`, `dsm_pagefault_start_handler` and `dsm_sync_init`. -/
def initStmts : List InitStmt := [.call, .call, .call] ++ syncInitStmts

structure SyncInitState where
  locks : LockId → SyncLock
  barrier : SyncBarrier
  /-- What the main thread has still to run. -/
  rest : List InitStmt
  failed : Bool
  tcp : SyncPc

inductive InitAction where
  /-- The next statement of the main thread; `ok` says whether a call succeeds. -/
  | init (ok : Bool)
  /-- The TCP thread takes a message. -/
  | receive (msg : SyncRequest)
  /-- The next statement of its handler. -/
  | tcp (totalNodes : ℕ)
deriving DecidableEq

namespace SyncInitState

def setLock (s : SyncInitState) (l : LockId) (lock : SyncLock) : SyncInitState :=
  { s with locks := Function.update s.locks l lock }

def exec (s : SyncInitState) : InitStmt → SyncInitState
  | .call => s
  | .holderId l => s.setLock l { s.locks l with holderId := 0 }
  | .locked l => s.setLock l { s.locks l with locked := false }
  | .waiterCount l => s.setLock l { s.locks l with waiterCount := 0 }
  | .barrierId => { s with barrier := { s.barrier with barrierId := 0 } }
  | .arrivedCount => { s with barrier := { s.barrier with arrivedCount := 0 } }

def step (s : SyncInitState) : InitAction → Option SyncInitState
  | .init ok =>
      match s.rest with
      | [] => none
      | stmt :: rest =>
          if stmt = .call ∧ ok = false then some { s with rest := [], failed := true }
          else some { s.exec stmt with rest := rest }
  | .receive msg => if s.tcp = .idle then some { s with tcp := msg.start } else none
  | .tcp totalNodes =>
      match s.tcp with
      | .idle => none
      | .lock l pc =>
          let (next, lock) := pc.step (s.locks l)
          some { s.setLock l lock with tcp := next.elim .idle (.lock l) }
      | .barrier pc =>
          let (next, barrier) := pc.step totalNodes s.barrier
          some { s with barrier := barrier, tcp := next.elim .idle .barrier }

/-- The role has just been set, and the records are as `dsm_context_init` has left them. -/
def initial : SyncInitState :=
  { locks := fun _ =>
      { locked := false, holderId := 0, waiters := fun _ => 0, waiterCount := 0
        granted := [], queued := [] }
    barrier := { barrierId := 0, arrived := fun _ => 0, arrivedCount := 0, entered := [] }
    rest := initStmts, failed := false, tcp := .idle }

/-- What the records have to show of the messages that were handled. -/
structure Reflected (s : SyncInitState) : Prop where
  granted : ∀ l, ∀ w ∈ (s.locks l).granted, (s.locks l).locked = true ∧ (s.locks l).holderId = w
  queued : ∀ l, (s.locks l).queued <+: (s.locks l).queue
  entered : s.barrier.entered <+: s.barrier.arrivals

/-- `dsm_init_with_params` has returned, and not failed. -/
def Returned (s : SyncInitState) : Prop := s.rest = [] ∧ s.failed = false

/-- The field that a statement resets has the value already. `barrier_id` only tells two rounds apart. -/
def Clear (s : SyncInitState) : InitStmt → Prop
  | .call | .barrierId => True
  | .holderId l => (s.locks l).holderId = 0
  | .locked l => (s.locks l).locked = false
  | .waiterCount l => (s.locks l).waiterCount = 0
  | .arrivedCount => s.barrier.arrivedCount = 0

instance (s : SyncInitState) : DecidablePred s.Clear
  | .call | .barrierId => .isTrue trivial
  | .holderId _ | .locked _ | .waiterCount _ | .arrivedCount => inferInstanceAs (Decidable (_ = _))

end SyncInitState

def syncInitMachine : Machine SyncInitState InitAction where
  start s := s = .initial
  step := SyncInitState.step

def InitAction.Ok (s : SyncInitState) : InitAction → Prop
  | .init _ => ∀ stmt ∈ s.rest.head?, s.Clear stmt
  | _ => True

instance (s : SyncInitState) : DecidablePred (InitAction.Ok s)
  | .init _ => inferInstanceAs (Decidable (∀ stmt ∈ s.rest.head?, s.Clear stmt))
  | .receive _ | .tcp _ => .isTrue trivial

/-! ### The queue of a record -/

theorem map_range_succ_update {α : Type*} (f : ℕ → α) (n : ℕ) (a : α) :
    (List.range (n + 1)).map (Function.update f n a) = (List.range n).map f ++ [a] := by
  have hkept : (List.range n).map (Function.update f n a) = (List.range n).map f :=
    List.map_congr_left fun i hi => Function.update_of_ne (List.mem_range.mp hi).ne a f
  rw [List.range_succ, List.map_append, hkept, List.map_singleton, Function.update_self]

namespace SyncLock

theorem dropLast_queue_shift (lock : SyncLock) (queued : List NodeId) (hpos : 0 < lock.waiterCount) :
    (queue { lock with
      waiters := fun i => if i < pred32 lock.waiterCount then lock.waiters (i + 1) else lock.waiters i
      queued := queued }).dropLast = lock.queue.tail := by
  obtain ⟨n, hn⟩ := Nat.exists_eq_add_of_lt hpos
  rw [Nat.zero_add] at hn
  rw [queue, queue, hn, pred32]
  rw [List.range_succ, List.map_append, List.map_singleton, List.dropLast_concat]
  rw [← List.range_succ, List.range_succ_eq_map, List.map_cons, List.tail_cons, List.map_map]
  refine List.map_congr_left fun i hi => ?_
  exact if_pos (List.mem_range.mp hi)

theorem queue_decrement (lock : SyncLock) (hpos : 0 < lock.waiterCount) :
    queue { lock with waiterCount := pred32 lock.waiterCount } = lock.queue.dropLast := by
  obtain ⟨n, hn⟩ := Nat.exists_eq_add_of_lt hpos
  rw [Nat.zero_add] at hn
  rw [queue, queue, hn, pred32, List.range_succ, List.map_append, List.map_singleton,
    List.dropLast_concat]

end SyncLock

/-! ### The handlers keep the records -/

/-- What holds of the record and its histories at each place of a handler. -/
def LockPc.At : LockPc → SyncLock → Prop
  | .request _, lock | .enqueue _, lock | .release _, lock => lock.queue = lock.queued
  | .grant _, lock | .unlock, lock | .clearHolder, lock => lock.granted = [] ∧ lock.queue = lock.queued
  | .setHolder _, lock | .waiters, lock | .transfer _, lock =>
      lock.granted = [] ∧ lock.locked = true ∧ lock.queue = lock.queued
  | .next, lock | .shift _, lock =>
      lock.granted = [] ∧ lock.locked = true ∧ 0 < lock.waiterCount ∧ lock.queue = lock.queued
  | .decrement _, lock =>
      lock.granted = [] ∧ lock.locked = true ∧ 0 < lock.waiterCount ∧ lock.queue.dropLast = lock.queued

/-- `pc` is `none` while no handler is at the record. -/
structure SyncLock.Inv (pc : Option LockPc) (lock : SyncLock) : Prop where
  granted : ∀ w ∈ lock.granted, lock.locked = true ∧ lock.holderId = w
  at_pc : pc.elim (lock.queue = lock.queued) (·.At lock)

theorem LockPc.step_inv {pc : LockPc} {lock : SyncLock} (h : lock.Inv (some pc)) :
    (pc.step lock).2.Inv (pc.step lock).1 := by
  obtain ⟨hgranted, hat⟩ := h
  simp only [Option.elim_some] at hat
  cases pc with
  | request fromNode =>
      refine ⟨hgranted, ?_⟩
      simp only [step, Option.elim_some]
      cases hlocked : lock.locked with
      | true => exact hat
      | false =>
          refine ⟨List.eq_nil_iff_forall_not_mem.mpr fun w hw => ?_, hat⟩
          cases hlocked.symm.trans (hgranted w hw).1
  | grant fromNode =>
      obtain ⟨hnone, hqueue⟩ := hat
      refine ⟨fun w hw => ?_, hnone, rfl, hqueue⟩
      rw [step, hnone] at hw
      cases hw
  | setHolder fromNode =>
      obtain ⟨hnone, hlocked, hqueue⟩ := hat
      refine ⟨fun w hw => ?_, hqueue⟩
      rw [step, hnone] at hw
      exact ⟨hlocked, (List.mem_singleton.mp hw).symm⟩
  | enqueue fromNode =>
      rw [step]
      split
      · refine ⟨hgranted, ?_⟩
        exact (map_range_succ_update ..).trans (congrArg (· ++ [fromNode]) hat)
      · exact ⟨hgranted, hat⟩
  | release fromNode =>
      rw [step]
      split
      · rename_i hheld
        have hnone : lock.granted.filter (· ≠ fromNode) = [] := by
          refine List.filter_eq_nil_iff.mpr fun w hw => ?_
          simp [← (hgranted w hw).2, hheld.2]
        refine ⟨fun w hw => ?_, hnone, hheld.1, hat⟩
        rw [hnone] at hw
        cases hw
      · exact ⟨hgranted, hat⟩
  | waiters =>
      obtain ⟨hnone, hlocked, hqueue⟩ := hat
      refine ⟨hgranted, ?_⟩
      simp only [step, Option.elim_some]
      split
      · exact ⟨hnone, hlocked, ‹_›, hqueue⟩
      · exact ⟨hnone, hqueue⟩
  | next => exact ⟨hgranted, hat⟩
  | shift nextHolder =>
      obtain ⟨hnone, hlocked, hpos, hqueue⟩ := hat
      rw [step]
      refine ⟨hgranted, hnone, hlocked, hpos, ?_⟩
      exact (lock.dropLast_queue_shift lock.queued.tail hpos).trans (congrArg List.tail hqueue)
  | decrement nextHolder =>
      obtain ⟨hnone, hlocked, hpos, hqueue⟩ := hat
      rw [step]
      exact ⟨hgranted, hnone, hlocked, (lock.queue_decrement hpos).trans hqueue⟩
  | transfer nextHolder =>
      obtain ⟨hnone, hlocked, hqueue⟩ := hat
      refine ⟨fun w hw => ?_, hqueue⟩
      rw [step, hnone] at hw
      exact ⟨hlocked, (List.mem_singleton.mp hw).symm⟩
  | unlock =>
      obtain ⟨hnone, hqueue⟩ := hat
      refine ⟨fun w hw => ?_, hnone, hqueue⟩
      rw [step, hnone] at hw
      cases hw
  | clearHolder =>
      obtain ⟨hnone, hqueue⟩ := hat
      refine ⟨fun w hw => ?_, hqueue⟩
      rw [step, hnone] at hw
      cases hw

theorem BarrierPc.step_arrivals (totalNodes : ℕ) (pc : BarrierPc) {b : SyncBarrier}
    (h : b.arrivals = b.entered) :
    (pc.step totalNodes b).2.arrivals = (pc.step totalNodes b).2.entered := by
  cases pc with
  | enter fromNode =>
      exact (map_range_succ_update ..).trans (congrArg (· ++ [fromNode]) h)
  | reset => rfl
  | count | advance => exact h

/-! ### A handler that is left alone -/

def SyncLock.view (lock : SyncLock) : Lock :=
  { locked := lock.locked, holderId := lock.holderId, waiters := lock.queue }

/-- What a handler makes of a record if nothing comes between its statements. -/
inductive LockPc.Finishes : LockPc → SyncLock → SyncLock → Prop where
  | last {pc : LockPc} {lock lock' : SyncLock} (h : pc.step lock = (none, lock')) :
      Finishes pc lock lock'
  | step {pc pc' : LockPc} {lock lock' last : SyncLock} (h : pc.step lock = (some pc', lock'))
      (hrest : Finishes pc' lock' last) : Finishes pc lock last

theorem LockPc.request_finishes (locks : LockId → SyncLock) (fromNode : NodeId) {l : LockId}
    (hl : l < maxLocks) : ∃ lock, (request fromNode).Finishes (locks l) lock ∧
      lock.view = (syncHandleLockRequest (fun l => (locks l).view) fromNode l).locks l := by
  have hrange : ¬ maxLocks ≤ l := Nat.not_le.mpr hl
  have hlength : (locks l).view.waiters.length = (locks l).waiterCount := by
    simp [SyncLock.view, SyncLock.queue]
  have hfirst : (request fromNode).step (locks l) =
    (some (if (locks l).locked then enqueue fromNode else grant fromNode), locks l) := rfl
  cases hlocked : (locks l).locked with
  | false =>
      have hview : (locks l).view.locked = false := hlocked
      rw [hlocked] at hfirst
      refine ⟨_, .step hfirst (.step rfl (.last rfl)), ?_⟩
      simp only [syncHandleLockRequest, if_neg hrange, hview, Bool.not_false, if_true,
        Function.update_self]
      rfl
  | true =>
      have hview : (locks l).view.locked = true := hlocked
      rw [hlocked] at hfirst
      by_cases hroom : (locks l).waiterCount < maxNodes
      · refine ⟨_, .step hfirst (.last (if_pos hroom)), ?_⟩
        simp only [syncHandleLockRequest, if_neg hrange, hview, hlength, if_pos hroom]
        simp [SyncLock.view, SyncLock.queue, map_range_succ_update, hlocked]
      · refine ⟨_, .step hfirst (.last (if_neg hroom)), ?_⟩
        simp only [syncHandleLockRequest, if_neg hrange, hview, hlength, if_neg hroom]
        rfl

theorem LockPc.waiters_finishes_of_empty {lock : SyncLock} (hempty : lock.waiterCount = 0) :
    waiters.Finishes lock { lock with locked := false, holderId := 0 } := by
  have hfirst : waiters.step lock = (some unlock, lock) := by simp [step, hempty]
  exact .step hfirst (.step rfl (.last rfl))

theorem LockPc.waiters_finishes_of_pos {lock : SyncLock} (hpos : 0 < lock.waiterCount) :
    ∃ last, waiters.Finishes lock last ∧ last.locked = lock.locked ∧
      last.holderId = lock.waiters 0 ∧ last.queue = lock.queue.tail := by
  have hfirst : waiters.step lock = (some next, lock) := by simp [step, hpos]
  obtain ⟨shifted, hshift, hqueue, hcount, hlocked⟩ : ∃ shifted,
      (shift (lock.waiters 0)).step lock = (some (decrement (lock.waiters 0)), shifted) ∧
        shifted.queue.dropLast = lock.queue.tail ∧ shifted.waiterCount = lock.waiterCount ∧
        shifted.locked = lock.locked :=
    ⟨_, rfl, lock.dropLast_queue_shift _ hpos, rfl, rfl⟩
  refine ⟨_, .step hfirst (.step rfl (.step hshift (.step rfl (.last rfl)))), hlocked, rfl, ?_⟩
  exact (shifted.queue_decrement (hcount ▸ hpos)).trans hqueue

theorem SyncLock.queue_eq_cons {lock : SyncLock} (hpos : 0 < lock.waiterCount) :
    lock.queue = lock.waiters 0 :: lock.queue.tail := by
  obtain ⟨n, hn⟩ := Nat.exists_eq_add_of_lt hpos
  rw [Nat.zero_add] at hn
  rw [queue, hn, List.range_succ_eq_map, List.map_cons, List.tail_cons]

theorem LockPc.release_finishes (locks : LockId → SyncLock) (fromNode : NodeId) {l : LockId}
    (hl : l < maxLocks) : ∃ lock, (release fromNode).Finishes (locks l) lock ∧
      lock.view = (syncHandleLockRelease (fun l => (locks l).view) fromNode l).locks l := by
  by_cases hheld : (locks l).locked = true ∧ (locks l).holderId = fromNode
  · have hview : (locks l).view.heldBy fromNode = true := Lock.heldBy_eq_true.mpr hheld
    have hcases := syncHandleLockRelease_cases (fun l => (locks l).view) hl hview
    rcases Nat.eq_zero_or_pos (locks l).waiterCount with hempty | hpos
    · refine ⟨_, .step (if_pos hheld) (waiters_finishes_of_empty hempty), ?_⟩
      have hqueue : (locks l).view.waiters = [] := by simp [SyncLock.view, SyncLock.queue, hempty]
      rcases hcases with ⟨_, _, hcons, -⟩ | ⟨-, hcall⟩
      · cases hqueue.symm.trans hcons
      · simp only [hcall, Function.update_self]
        rfl
    · have hqueue := SyncLock.queue_eq_cons hpos
      obtain ⟨released, hfirst, hsame, hcount, hzero⟩ : ∃ released,
          (release fromNode).step (locks l) = (some waiters, released) ∧
            released.view = (locks l).view ∧ released.waiterCount = (locks l).waiterCount ∧
            released.waiters 0 = (locks l).waiters 0 := ⟨_, if_pos hheld, rfl, rfl, rfl⟩
      obtain ⟨hlocked, -, hwaiters⟩ := Lock.mk.inj hsame
      obtain ⟨last, hlast, hlastLocked, hlastHolder, hlastQueue⟩ :=
        waiters_finishes_of_pos (hcount ▸ hpos : 0 < released.waiterCount)
      refine ⟨last, .step hfirst hlast, ?_⟩
      rcases hcases with ⟨_, _, hcons, hcall⟩ | ⟨hnil, -⟩
      · obtain ⟨rfl, rfl⟩ := List.cons.inj (hqueue.symm.trans hcons)
        rw [SyncLock.view, hlastLocked, hlastHolder, hlastQueue, hlocked, hwaiters, hzero]
        simp only [hcall, Function.update_self]
        rfl
      · cases hqueue.symm.trans hnil
  · refine ⟨_, .last (if_neg hheld), ?_⟩
    have hview : (locks l).view.heldBy fromNode = false :=
      Bool.eq_false_iff.mpr fun h => hheld (Lock.heldBy_eq_true.mp h)
    rw [syncHandleLockRelease_of_not_heldBy _ hview]

/-! ### Runs -/

/-- Where the TCP thread is in a handler of record `l`. -/
def SyncPc.lockAt (tcp : SyncPc) (l : LockId) : Option LockPc :=
  match tcp with
  | .lock l' pc => if l' = l then some pc else none
  | _ => none

theorem SyncPc.lockAt_lock (next : Option LockPc) (l l' : LockId) :
    SyncPc.lockAt (next.elim .idle (.lock l)) l' = if l = l' then next else none := by
  cases next with
  | none => exact (ite_self none).symm
  | some pc => rfl

theorem SyncPc.lockAt_barrier (next : Option BarrierPc) (l : LockId) :
    SyncPc.lockAt (next.elim .idle .barrier) l = none := by
  cases next <;> rfl

namespace SyncInitState

structure Inv (s : SyncInitState) : Prop where
  lock : ∀ l, (s.locks l).Inv (s.tcp.lockAt l)
  barrier : s.barrier.arrivals = s.barrier.entered

variable {s s' : SyncInitState}

theorem Inv.initial : Inv initial := ⟨fun _ => ⟨nofun, rfl⟩, rfl⟩

theorem Inv.reflected (h : s.Inv) : s.Reflected := by
  refine ⟨fun l => (h.lock l).granted, fun l => ?_, h.barrier ▸ List.prefix_refl _⟩
  have hat := (h.lock l).at_pc
  cases hpc : s.tcp.lockAt l with
  | none =>
      rw [hpc] at hat
      exact hat ▸ List.prefix_refl _
  | some pc =>
      simp only [hpc, Option.elim_some] at hat
      cases pc with
      | decrement nextHolder => exact hat.2.2.2 ▸ List.dropLast_prefix _
      | request fromNode | enqueue fromNode | release fromNode => exact hat ▸ List.prefix_refl _
      | grant fromNode | unlock | clearHolder => exact hat.2 ▸ List.prefix_refl _
      | setHolder fromNode | waiters | transfer nextHolder => exact hat.2.2 ▸ List.prefix_refl _
      | next | shift nextHolder => exact hat.2.2.2 ▸ List.prefix_refl _

theorem exec_of_clear {stmt : InitStmt} (h : s.Clear stmt) :
    (s.exec stmt).locks = s.locks ∧ (s.exec stmt).tcp = s.tcp ∧
      (s.exec stmt).barrier.arrivals = s.barrier.arrivals ∧
      (s.exec stmt).barrier.entered = s.barrier.entered := by
  have hsame : ∀ {l : LockId} {lock : SyncLock}, s.locks l = lock →
      Function.update s.locks l lock = s.locks := fun heq => heq ▸ Function.update_eq_self ..
  cases stmt with
  | call | barrierId => exact ⟨rfl, rfl, rfl, rfl⟩
  | holderId l => exact ⟨hsame (by rw [← show (s.locks l).holderId = 0 from h]), rfl, rfl, rfl⟩
  | locked l => exact ⟨hsame (by rw [← show (s.locks l).locked = false from h]), rfl, rfl, rfl⟩
  | waiterCount l => exact ⟨hsame (by rw [← show (s.locks l).waiterCount = 0 from h]), rfl, rfl, rfl⟩
  | arrivedCount =>
      refine ⟨rfl, rfl, ?_, rfl⟩
      rw [exec, SyncBarrier.arrivals, SyncBarrier.arrivals, show s.barrier.arrivedCount = 0 from h]

theorem Inv.tcp (h : s.Inv) {totalNodes : ℕ} (hs : s.step (.tcp totalNodes) = some s') : s'.Inv := by
  simp only [step] at hs
  cases htcp : s.tcp with
  | idle => simp [htcp] at hs
  | lock l pc =>
      simp only [htcp] at hs
      cases hs
      refine ⟨fun l' => ?_, h.barrier⟩
      have hlock := h.lock l'
      rw [htcp, SyncPc.lockAt] at hlock
      rw [SyncPc.lockAt_lock]
      change SyncLock.Inv _ (Function.update s.locks l (pc.step (s.locks l)).2 l')
      by_cases hl : l = l'
      · subst hl
        rw [if_pos rfl] at hlock ⊢
        rw [Function.update_self]
        exact LockPc.step_inv hlock
      · rw [if_neg hl] at hlock ⊢
        rw [Function.update_of_ne (Ne.symm hl)]
        exact hlock
  | barrier pc =>
      simp only [htcp] at hs
      cases hs
      refine ⟨fun l => ?_, pc.step_arrivals totalNodes h.barrier⟩
      rw [SyncPc.lockAt_barrier]
      have hlock := h.lock l
      rwa [htcp] at hlock

theorem Inv.receive (h : s.Inv) {msg : SyncRequest} (hs : s.step (.receive msg) = some s') :
    s'.Inv := by
  simp only [step] at hs
  split at hs
  · rename_i hidle
    cases hs
    have hlocks : ∀ l, (s.locks l).Inv none := fun l => by simpa [hidle, SyncPc.lockAt] using h.lock l
    have hstart : ∀ (l l' : LockId) (pc : LockPc), pc.At (s.locks l) →
        (s.locks l').Inv (SyncPc.lockAt (if maxLocks ≤ l then .idle else .lock l pc) l') := by
      intro l l' pc hat
      split
      · exact hlocks l'
      · rw [SyncPc.lockAt]
        split
        · rename_i hl
          exact ⟨(hlocks l').granted, hl ▸ hat⟩
        · exact hlocks l'
    refine ⟨fun l' => ?_, h.barrier⟩
    cases msg with
    | lockRequest srcNode l => exact hstart l l' _ (hlocks l).at_pc
    | lockRelease srcNode l => exact hstart l l' _ (hlocks l).at_pc
    | barrierEnter srcNode => exact hlocks l'
  · cases hs

theorem Inv.init (h : s.Inv) {ok : Bool} (hok : (InitAction.init ok).Ok s)
    (hs : s.step (.init ok) = some s') : s'.Inv := by
  simp only [step] at hs
  cases hrest : s.rest with
  | nil => simp [hrest] at hs
  | cons stmt rest =>
      simp only [hrest] at hs
      split at hs
      · cases hs
        exact ⟨h.lock, h.barrier⟩
      · cases hs
        have hclear : s.Clear stmt := hok stmt (hrest ▸ rfl)
        obtain ⟨hlocks, htcp, harrivals, hentered⟩ := exec_of_clear hclear
        refine ⟨fun l => ?_, harrivals.trans (h.barrier.trans hentered.symm)⟩
        rw [hlocks, htcp]
        exact h.lock l

theorem Inv.step (h : s.Inv) {a : InitAction} (hok : a.Ok s) (hs : s.step a = some s') : s'.Inv := by
  cases a with
  | init ok => exact h.init hok hs
  | receive msg => exact h.receive hs
  | tcp totalNodes => exact h.tcp hs

end SyncInitState

theorem accepted_of_resets_clear {s t : SyncInitState} {as : List InitAction}
    (hs : syncInitMachine.start s) (hrun : syncInitMachine.exec s as = some t)
    (hok : syncInitMachine.EachStep InitAction.Ok s as) :
    syncInitMachine.Always SyncInitState.Reflected s as :=
  Machine.always_of_eachStep (fun _ => SyncInitState.Inv.reflected)
    (fun _ _ _ h hok hs => h.step hok hs) (hs ▸ .initial) hrun hok

/-- Worker 2 gets lock 0 after its record was reset, and comes to the barrier while the other records are
reset. -/
def lateRequests : List InitAction :=
  List.flatten
    [List.replicate 8 (.init true),
      [.receive (.lockRequest 2 0), .tcp 2, .init true, .tcp 2, .tcp 2,
        .receive (.barrierEnter 2), .tcp 2],
      List.replicate 8 (.init true)]

theorem accepted_of_resets_clear_late : ∃ t, syncInitMachine.exec .initial lateRequests = some t ∧
    (t.locks 0).granted = [2] ∧ t.barrier.entered = [2] ∧
      syncInitMachine.Always SyncInitState.Reflected .initial lateRequests := by
  have hrun : ((syncInitMachine.exec .initial lateRequests).map fun s =>
      ((s.locks 0).granted, s.barrier.entered)) = some ([2], [2]) := by decide +kernel
  obtain ⟨t, ht, hout⟩ := Option.map_eq_some_iff.mp hrun
  simp only [Prod.mk.injEq] at hout
  have hclear : syncInitMachine.checks InitAction.Ok .initial lateRequests = true := by decide +kernel
  exact ⟨t, ht, hout.1, hout.2, accepted_of_resets_clear rfl ht (Machine.eachStep_of_checks hclear)⟩

/-- Worker 2 is granted lock 0 before `dsm_sync_init` comes to its record. -/
def earlyRequest : List InitAction :=
  [.receive (.lockRequest 2 0), .tcp 2, .tcp 2, .tcp 2] ++ List.replicate initStmts.length (.init true)

theorem not_accepted : ∃ t, syncInitMachine.exec .initial earlyRequest = some t ∧ t.Returned ∧
    (t.locks 0).granted = [2] ∧ (t.locks 0).locked = false ∧ ¬ t.Reflected := by
  have hrun : ((syncInitMachine.exec .initial earlyRequest).map fun s =>
      (s.rest, s.failed, (s.locks 0).granted, (s.locks 0).locked)) = some ([], false, [2], false) := by
    decide +kernel
  obtain ⟨t, ht, hout⟩ := Option.map_eq_some_iff.mp hrun
  simp only [Prod.mk.injEq] at hout
  obtain ⟨hrest, hfailed, hgranted, hfree⟩ := hout
  refine ⟨t, ht, ⟨hrest, hfailed⟩, hgranted, hfree, fun h => ?_⟩
  have hlocked := (h.granted 0 2 (hgranted ▸ List.mem_singleton_self 2)).1
  cases hfree.symm.trans hlocked

end Dsm
