import Dsm.Types
import Mathlib.Data.List.Count
import Mathlib.Logic.Function.Basic

/-!
# The master's lock record

The two handlers of `dsm_sync.c` that the master runs on a lock record, each as its critical section
under the record's mutex. The `LOCK_GRANT` that a handler sends leaves after the mutex is released,
so a handler returns the node the grant goes to and does not send it.
-/

namespace Dsm

/-- `dsm_lock_t`; `waiters` is `waiters[0..waiter_count)`. -/
structure Lock where
  locked : Bool
  holderId : NodeId
  waiters : List NodeId
deriving DecidableEq, Repr

def Lock.free : Lock := { locked := false, holderId := 0, waiters := [] }

/-- The negation of the guard `!lock->locked || lock->holder_id != node`. -/
def Lock.heldBy (lock : Lock) (node : NodeId) : Bool := lock.locked && lock.holderId == node

/-- A request finds the lock free, or room in its queue. -/
def Lock.Takes (lock : Lock) : Prop := lock.locked = true → lock.waiters.length < maxNodes

abbrev LockTable := LockId → Lock

/-- What a handler returns, the records it leaves, and the node that a `LOCK_GRANT` is sent to. -/
structure LockOutcome where
  ret : Int
  locks : LockTable
  grant : Option NodeId

def syncHandleLockRequest (locks : LockTable) (fromNode : NodeId) (lockId : LockId) : LockOutcome :=
  if maxLocks ≤ lockId then { ret := -1, locks := locks, grant := none }
  else
    let lock := locks lockId
    if !lock.locked then
      { ret := 0
        locks := Function.update locks lockId { lock with locked := true, holderId := fromNode }
        grant := some fromNode }
    else if lock.waiters.length < maxNodes then
      { ret := 0
        locks := Function.update locks lockId { lock with waiters := lock.waiters ++ [fromNode] }
        grant := none }
    else { ret := 0, locks := locks, grant := none }

def syncHandleLockRelease (locks : LockTable) (fromNode : NodeId) (lockId : LockId) : LockOutcome :=
  if maxLocks ≤ lockId then { ret := -1, locks := locks, grant := none }
  else
    let lock := locks lockId
    if !lock.heldBy fromNode then { ret := -1, locks := locks, grant := none }
    else
      match lock.waiters with
      | next :: rest =>
          { ret := 0
            locks := Function.update locks lockId { lock with waiters := rest, holderId := next }
            grant := some next }
      | [] =>
          { ret := 0
            locks := Function.update locks lockId { lock with locked := false, holderId := 0 }
            grant := none }

@[simp] theorem Lock.heldBy_eq_true {lock : Lock} {node : NodeId} :
    lock.heldBy node = true ↔ lock.locked = true ∧ lock.holderId = node := by
  simp [Lock.heldBy]

theorem Lock.heldBy_unique {lock : Lock} {i j : NodeId} (hi : lock.heldBy i = true)
    (hj : lock.heldBy j = true) : i = j := by
  rw [Lock.heldBy_eq_true] at hi hj
  exact hi.2.symm.trans hj.2

/-- Everything a handled request can do: grant a free lock, queue the node, or drop the request. -/
theorem syncHandleLockRequest_cases (locks : LockTable) (node : NodeId) (l : LockId) :
    (l < maxLocks ∧ (locks l).locked = false ∧ syncHandleLockRequest locks node l =
        { ret := 0
          locks := Function.update locks l { locks l with locked := true, holderId := node }
          grant := some node }) ∨
      ((locks l).locked = true ∧ syncHandleLockRequest locks node l =
        { ret := 0
          locks := Function.update locks l { locks l with waiters := (locks l).waiters ++ [node] }
          grant := none }) ∨
      ∃ ret, syncHandleLockRequest locks node l = { ret := ret, locks := locks, grant := none } := by
  by_cases hl : maxLocks ≤ l
  · exact .inr (.inr ⟨-1, by simp [syncHandleLockRequest, hl]⟩)
  · cases hlocked : (locks l).locked with
    | false => exact .inl ⟨Nat.lt_of_not_le hl, rfl, by simp [syncHandleLockRequest, hl, hlocked]⟩
    | true =>
        by_cases hroom : (locks l).waiters.length < maxNodes
        · exact .inr (.inl ⟨rfl, by simp [syncHandleLockRequest, hl, hlocked, hroom]⟩)
        · exact .inr (.inr ⟨0, by simp [syncHandleLockRequest, hl, hlocked, hroom]⟩)

/-- Everything a handled release by the holder can do: pass the lock to the first waiter or free it. -/
theorem syncHandleLockRelease_cases (locks : LockTable) {node : NodeId} {l : LockId}
    (hl : l < maxLocks) (hheld : (locks l).heldBy node = true) :
    (∃ next rest, (locks l).waiters = next :: rest ∧ syncHandleLockRelease locks node l =
        { ret := 0
          locks := Function.update locks l { locks l with waiters := rest, holderId := next }
          grant := some next }) ∨
      ((locks l).waiters = [] ∧ syncHandleLockRelease locks node l =
        { ret := 0
          locks := Function.update locks l { locks l with locked := false, holderId := 0 }
          grant := none }) := by
  have hnot : ¬ maxLocks ≤ l := Nat.not_le.mpr hl
  cases hwaiters : (locks l).waiters with
  | cons next rest =>
      exact .inl ⟨next, rest, rfl, by simp [syncHandleLockRelease, hnot, hheld, hwaiters]⟩
  | nil => exact .inr ⟨rfl, by simp [syncHandleLockRelease, hnot, hheld, hwaiters]⟩

theorem syncHandleLockRelease_of_not_heldBy (locks : LockTable) {node : NodeId} {l : LockId}
    (hheld : (locks l).heldBy node = false) :
    syncHandleLockRelease locks node l = { ret := -1, locks := locks, grant := none } := by
  by_cases hl : maxLocks ≤ l <;> simp [syncHandleLockRelease, hl, hheld]

/-- Everything a handled release can do: pass the lock on, free it, or change nothing. -/
theorem syncHandleLockRelease_effect (locks : LockTable) (node : NodeId) (l : LockId) :
    (∃ next rest, l < maxLocks ∧ (locks l).heldBy node = true ∧ (locks l).waiters = next :: rest ∧
      syncHandleLockRelease locks node l =
        { ret := 0
          locks := Function.update locks l { locks l with waiters := rest, holderId := next }
          grant := some next }) ∨
      (l < maxLocks ∧ (locks l).heldBy node = true ∧ (locks l).waiters = [] ∧
        syncHandleLockRelease locks node l =
          { ret := 0
            locks := Function.update locks l { locks l with locked := false, holderId := 0 }
            grant := none }) ∨
      (¬ (l < maxLocks ∧ (locks l).heldBy node = true) ∧
        syncHandleLockRelease locks node l = { ret := -1, locks := locks, grant := none }) := by
  by_cases hl : l < maxLocks
  · cases hheld : (locks l).heldBy node with
    | true =>
        rcases syncHandleLockRelease_cases locks hl hheld with
          ⟨next, rest, hwaiters, hcall⟩ | ⟨hwaiters, hcall⟩
        · exact .inl ⟨next, rest, hl, rfl, hwaiters, hcall⟩
        · exact .inr (.inl ⟨hl, rfl, hwaiters, hcall⟩)
    | false =>
        exact .inr (.inr ⟨by simp, syncHandleLockRelease_of_not_heldBy locks hheld⟩)
  · exact .inr (.inr ⟨fun hand => hl hand.1, by simp [syncHandleLockRelease, Nat.not_lt.mp hl]⟩)

/-! ### What a handler does to one node's share of a record -/

/-- `1` if `node` holds the record, else `0`. -/
def Lock.held (lock : Lock) (node : NodeId) : Nat := if lock.heldBy node = true then 1 else 0

def Lock.queued (lock : Lock) (node : NodeId) : Nat := lock.waiters.count node

/-- `1` if a handler called on lock `l` decided a grant of `l'` to `node`, else `0`. -/
def LockOutcome.grants (out : LockOutcome) (l : LockId) (node : NodeId) (l' : LockId) : Nat :=
  if out.grant = some node ∧ l' = l then 1 else 0

theorem syncHandleLockRequest_frame (locks : LockTable) (node : NodeId) {l l' : LockId}
    (hne : l' ≠ l) : (syncHandleLockRequest locks node l).locks l' = locks l' := by
  rcases syncHandleLockRequest_cases locks node l with ⟨-, -, hcall⟩ | ⟨-, hcall⟩ | ⟨_, hcall⟩ <;>
    simp [hcall, hne]

theorem syncHandleLockRelease_frame (locks : LockTable) (node : NodeId) {l l' : LockId}
    (hne : l' ≠ l) : (syncHandleLockRelease locks node l).locks l' = locks l' := by
  rcases syncHandleLockRelease_effect locks node l with
    ⟨_, _, -, -, -, hcall⟩ | ⟨-, -, -, hcall⟩ | ⟨-, hcall⟩ <;> simp [hcall, hne]

theorem syncHandleLockRequest_heldBy (locks : LockTable) (node : NodeId) {l l' : LockId} {i : NodeId}
    (hheld : (locks l').heldBy i = true) :
    ((syncHandleLockRequest locks node l).locks l').heldBy i = true := by
  by_cases heq : l' = l
  · subst heq
    have hlocked := (Lock.heldBy_eq_true.mp hheld).1
    rcases syncHandleLockRequest_cases locks node l' with ⟨-, hfree, -⟩ | ⟨-, hcall⟩ | ⟨_, hcall⟩
    · rw [hlocked] at hfree
      cases hfree
    · simpa [hcall] using hheld
    · simpa [hcall] using hheld
  · rw [syncHandleLockRequest_frame locks node heq]
    exact hheld

/-- A lock that a request leaves locked has a valid id, or was locked before. -/
theorem syncHandleLockRequest_locked (locks : LockTable) (node : NodeId) {l l' : LockId}
    (hlocked : ((syncHandleLockRequest locks node l).locks l').locked = true) :
    l' < maxLocks ∨ (locks l').locked = true := by
  by_cases heq : l' = l
  · subst heq
    rcases syncHandleLockRequest_cases locks node l' with ⟨hl, -⟩ | ⟨hold, -⟩ | ⟨_, hcall⟩
    · exact .inl hl
    · exact .inr hold
    · rw [hcall] at hlocked
      exact .inr hlocked
  · rw [syncHandleLockRequest_frame locks node heq] at hlocked
    exact .inr hlocked

theorem syncHandleLockRequest_keeps_locked (locks : LockTable) (node : NodeId) (l : LockId)
    {l' : LockId} (hlocked : (locks l').locked = true) :
    ((syncHandleLockRequest locks node l).locks l').locked = true :=
  (Lock.heldBy_eq_true.mp (syncHandleLockRequest_heldBy locks node
    (Lock.heldBy_eq_true.mpr ⟨hlocked, rfl⟩))).1

/-- A release frees only the lock it names, for its holder, and only if nobody waits in the queue. -/
theorem syncHandleLockRelease_frees (locks : LockTable) (node : NodeId) (l : LockId) {l' : LockId}
    (hlocked : (locks l').locked = true)
    (hfree : ((syncHandleLockRelease locks node l).locks l').locked = false) :
    l' = l ∧ l < maxLocks ∧ (locks l).heldBy node = true ∧ (locks l).waiters = [] := by
  by_cases heq : l' = l
  · subst heq
    rcases syncHandleLockRelease_effect locks node l' with
      ⟨_, _, -, -, -, hcall⟩ | ⟨hl, hheld, hwaiters, -⟩ | ⟨-, hcall⟩
    · simp [hcall, hlocked] at hfree
    · exact ⟨rfl, hl, hheld, hwaiters⟩
    · simp [hcall, hlocked] at hfree
  · rw [syncHandleLockRelease_frame locks node heq, hlocked] at hfree
    cases hfree

theorem syncHandleLockRelease_locked (locks : LockTable) (node : NodeId) (l : LockId) {l' : LockId}
    (hlocked : ((syncHandleLockRelease locks node l).locks l').locked = true) :
    (locks l').locked = true := by
  by_cases heq : l' = l
  · subst heq
    rcases syncHandleLockRelease_effect locks node l' with
      ⟨_, _, -, hheld, -, -⟩ | ⟨-, hheld, -, -⟩ | ⟨-, hcall⟩
    · exact (Lock.heldBy_eq_true.mp hheld).1
    · exact (Lock.heldBy_eq_true.mp hheld).1
    · simpa [hcall] using hlocked
  · rwa [syncHandleLockRelease_frame locks node heq] at hlocked

theorem syncHandleLockRequest_held (locks : LockTable) (node : NodeId) (l : LockId) (i : NodeId)
    (l' : LockId) : ((syncHandleLockRequest locks node l).locks l').held i =
      (locks l').held i + (syncHandleLockRequest locks node l).grants l i l' := by
  by_cases heq : l' = l
  · subst heq
    rcases syncHandleLockRequest_cases locks node l' with
      ⟨-, hfree, hcall⟩ | ⟨hlocked, hcall⟩ | ⟨_, hcall⟩
    · simp [hcall, Lock.held, LockOutcome.grants, hfree]
    · simp [hcall, Lock.held, LockOutcome.grants, hlocked]
    · simp [hcall, LockOutcome.grants]
  · simp [syncHandleLockRequest_frame locks node heq, LockOutcome.grants, heq]

/-- A handled request is granted or queued at most once, and for its sender only. -/
theorem syncHandleLockRequest_queued (locks : LockTable) (node : NodeId) (l : LockId) (i : NodeId)
    (l' : LockId) : ((syncHandleLockRequest locks node l).locks l').queued i +
        (syncHandleLockRequest locks node l).grants l i l' ≤
      (locks l').queued i + if i = node ∧ l' = l then 1 else 0 := by
  by_cases heq : l' = l
  · subst heq
    rcases syncHandleLockRequest_cases locks node l' with
      ⟨-, -, hcall⟩ | ⟨-, hcall⟩ | ⟨_, hcall⟩
    · simp [hcall, Lock.queued, LockOutcome.grants, eq_comm]
    · have hlast : [node].count i = if i = node then 1 else 0 := by
        simp only [List.count_singleton, beq_iff_eq, @eq_comm _ node]
      simp [hcall, Lock.queued, LockOutcome.grants, List.count_append, hlast]
    · simp [hcall, LockOutcome.grants]
  · simp [syncHandleLockRequest_frame locks node heq, LockOutcome.grants, heq]

/-- A handled release takes the lock from its holder and makes at most the granted node holder. -/
theorem syncHandleLockRelease_held (locks : LockTable) {node : NodeId} {l : LockId}
    (hl : l < maxLocks) (hheld : (locks l).heldBy node = true) (i : NodeId) (l' : LockId) :
    ((syncHandleLockRelease locks node l).locks l').held i + (if i = node ∧ l' = l then 1 else 0) =
      (locks l').held i + (syncHandleLockRelease locks node l).grants l i l' := by
  by_cases heq : l' = l
  · subst heq
    obtain ⟨hlocked, hholder⟩ := Lock.heldBy_eq_true.mp hheld
    have hold : (locks l').held i = if i = node then 1 else 0 := by
      simp [Lock.held, hlocked, hholder, @eq_comm _ i]
    rcases syncHandleLockRelease_cases locks hl hheld with ⟨next, _, -, hcall⟩ | ⟨-, hcall⟩
    · rw [hold]
      simp [hcall, Lock.held, LockOutcome.grants, hlocked, Nat.add_comm]
    · rw [hold]
      simp [hcall, Lock.held, LockOutcome.grants]
  · simp [syncHandleLockRelease_frame locks node heq, LockOutcome.grants, heq]

/-- A release by another node makes `i` the holder only by granting it the lock. -/
theorem syncHandleLockRelease_held_of_ne (locks : LockTable) {node i : NodeId} (hne : i ≠ node)
    (l l' : LockId) : ((syncHandleLockRelease locks node l).locks l').held i =
      (locks l').held i + (syncHandleLockRelease locks node l).grants l i l' := by
  by_cases hand : l < maxLocks ∧ (locks l).heldBy node = true
  · have hmoved := syncHandleLockRelease_held locks hand.1 hand.2 i l'
    rwa [if_neg fun hsame => hne hsame.1, Nat.add_zero] at hmoved
  · rcases syncHandleLockRelease_effect locks node l with
      ⟨_, _, hl, hheld, -, -⟩ | ⟨hl, hheld, -, -⟩ | ⟨-, hcall⟩
    · exact absurd ⟨hl, hheld⟩ hand
    · exact absurd ⟨hl, hheld⟩ hand
    · simp [hcall, LockOutcome.grants]

theorem syncHandleLockRelease_queued (locks : LockTable) (node : NodeId) (l : LockId) (i : NodeId)
    (l' : LockId) : ((syncHandleLockRelease locks node l).locks l').queued i +
      (syncHandleLockRelease locks node l).grants l i l' = (locks l').queued i := by
  by_cases heq : l' = l
  · subst heq
    rcases syncHandleLockRelease_effect locks node l' with
      ⟨next, rest, -, -, hwaiters, hcall⟩ | ⟨-, -, hwaiters, hcall⟩ | ⟨-, hcall⟩
    · simp [hcall, Lock.queued, LockOutcome.grants, hwaiters, List.count_cons]
    · simp [hcall, Lock.queued, LockOutcome.grants, hwaiters]
    · simp [hcall, LockOutcome.grants]
  · simp [syncHandleLockRelease_frame locks node heq, LockOutcome.grants, heq]

theorem syncHandleLockRelease_heldBy_of_ne (locks : LockTable) {node i : NodeId} (hne : i ≠ node)
    (l : LockId) {l' : LockId} (hheld : (locks l').heldBy i = true) :
    ((syncHandleLockRelease locks node l).locks l').heldBy i = true := by
  by_cases heq : l' = l
  · subst heq
    have hnot : (locks l').heldBy node = false :=
      Bool.eq_false_iff.mpr fun hother => hne (Lock.heldBy_unique hheld hother)
    rwa [syncHandleLockRelease_of_not_heldBy locks hnot]
  · rwa [syncHandleLockRelease_frame locks node heq]

/-! ### Free records -/

theorem syncHandleLockRequest_free (locks : LockTable) (node : NodeId) (l : LockId) {l' : LockId}
    (hfree : ((syncHandleLockRequest locks node l).locks l').locked = false) :
    (syncHandleLockRequest locks node l).locks l' = locks l' := by
  by_cases heq : l' = l
  · subst heq
    rcases syncHandleLockRequest_cases locks node l' with
      ⟨-, -, hcall⟩ | ⟨hlocked, hcall⟩ | ⟨_, hcall⟩
    · simp [hcall] at hfree
    · simp [hcall, hlocked] at hfree
    · rw [hcall]
  · exact syncHandleLockRequest_frame locks node heq

/-- A record that a release leaves free is the record that it was, or as it was at the start. -/
theorem syncHandleLockRelease_free (locks : LockTable) (node : NodeId) (l : LockId) {l' : LockId}
    (hfree : ((syncHandleLockRelease locks node l).locks l').locked = false) :
    (syncHandleLockRelease locks node l).locks l' = locks l' ∨
      (syncHandleLockRelease locks node l).locks l' = .free := by
  by_cases heq : l' = l
  · subst heq
    rcases syncHandleLockRelease_effect locks node l' with
      ⟨next, rest, -, hheld, -, hcall⟩ | ⟨-, -, hwaiters, hcall⟩ | ⟨-, hcall⟩
    · simp [hcall, (Lock.heldBy_eq_true.mp hheld).1] at hfree
    · exact .inr (by simp [hcall, Lock.free, hwaiters])
    · rw [hcall]
      exact .inl rfl
  · exact .inl (syncHandleLockRelease_frame locks node heq)

/-- A free lock has nobody in its queue. -/
def LockTable.NoneWaitsForFree (locks : LockTable) : Prop :=
  ∀ l, (locks l).locked = false → (locks l).waiters = []

theorem LockTable.NoneWaitsForFree.request {locks : LockTable} (h : locks.NoneWaitsForFree)
    (srcNode : NodeId) (l : LockId) :
    LockTable.NoneWaitsForFree (syncHandleLockRequest locks srcNode l).locks := by
  intro l' hfree
  have hsame := syncHandleLockRequest_free locks srcNode l hfree
  rw [hsame] at hfree ⊢
  exact h l' hfree

theorem LockTable.NoneWaitsForFree.release {locks : LockTable} (h : locks.NoneWaitsForFree)
    (srcNode : NodeId) (l : LockId) :
    LockTable.NoneWaitsForFree (syncHandleLockRelease locks srcNode l).locks := by
  intro l' hfree
  rcases syncHandleLockRelease_free locks srcNode l hfree with hsame | hreset
  · rw [hsame] at hfree ⊢
    exact h l' hfree
  · rw [hreset]
    rfl

/-! ### The line of a lock -/

/-- The holder, if there is one, and the waiters behind it. -/
def Lock.line (lock : Lock) : List NodeId :=
  (if lock.locked then [lock.holderId] else []) ++ lock.waiters

theorem Lock.count_line (lock : Lock) (i : NodeId) :
    lock.line.count i = lock.held i + lock.queued i := by
  cases hlocked : lock.locked <;>
    simp [Lock.line, Lock.held, Lock.queued, hlocked, List.count_cons, Nat.add_comm]

end Dsm
