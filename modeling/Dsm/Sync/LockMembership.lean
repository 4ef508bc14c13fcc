import Dsm.Sync.Lock
import Dsm.Network.NodeTable
import Dsm.Library.Machine

/-!
# The lock records beside the node table

On the master the lock handlers take any source id, send their grant without looking at the result,
and a departure takes the node's entry out of the table and leaves the lock records alone. So a lock
can be held by, or queued for, a node that is not there. That every locked lock is held by and queued
for live nodes holds in a run exactly as long as the requests that reach a record come from live
nodes, and no node leaves while a record names it (`locksLive_iff`).
-/

namespace Dsm

/-- The master itself, or a connected node of the table. -/
def NodeTable.Live (table : NodeTable) (i : NodeId) : Prop :=
  i = masterId ∨ ∃ node ∈ table, node.nodeId = i ∧ 0 ≤ node.tcpFd

structure LockNodeState where
  table : NodeTable
  locks : LockTable
  /-- The grants that have been sent, to whom and of which lock. -/
  granted : List (NodeId × LockId)

inductive LockNodeAction where
  /-- `LOCK_REQUEST` with this source. -/
  | request (srcNode : NodeId) (l : LockId) (sockOk : Bool)
  /-- `LOCK_RELEASE` with this source, or `dsm_unlock` on the master. -/
  | release (srcNode : NodeId) (l : LockId) (sockOk : Bool)
  /-- `dsm_lock` on the master leaves its loop. -/
  | lock (l : LockId)
  | add (ip : List UInt8) (port chunks : Nat) (sockfd : Int) (now : Nat) (mutexOk : Bool)
  /-- `SHUTDOWN` or `NODE_LEFT`. -/
  | remove (nodeId : NodeId)
deriving DecidableEq, Repr

namespace LockNodeState

/-- What a lock handler leaves; the result of the send is not looked at. -/
def handled (s : LockNodeState) (out : LockOutcome) (l : LockId) (sockOk : Bool) : LockNodeState :=
  { s with
    locks := out.locks
    granted := match out.grant with
      | some i => if s.table.sends i sockOk then s.granted ++ [(i, l)] else s.granted
      | none => s.granted }

@[simp] theorem handled_locks (s : LockNodeState) (out : LockOutcome) (l : LockId) (sockOk : Bool) :
    (s.handled out l sockOk).locks = out.locks := rfl

def step (s : LockNodeState) : LockNodeAction → Option LockNodeState
  | .request srcNode l sockOk => some (s.handled (syncHandleLockRequest s.locks srcNode l) l sockOk)
  | .release srcNode l sockOk => some (s.handled (syncHandleLockRelease s.locks srcNode l) l sockOk)
  | .lock l =>
      if l < maxLocks ∧ ((s.locks l).locked = true → (s.locks l).holderId = masterId) then
        some { s with
          locks := Function.update s.locks l { s.locks l with locked := true, holderId := masterId } }
      else none
  | .add ip port chunks sockfd now mutexOk =>
      -- the listener adds a node only after it has connected to it
      if 0 ≤ sockfd then
        some { s with table := (nodeTableAdd s.table ip port chunks .worker sockfd now mutexOk).2 }
      else none
  | .remove nodeId => some { s with table := (nodeTableRemove s.table nodeId).2 }

end LockNodeState

/-- The master adds itself, and `dsm_sync_init` frees the locks. -/
def lockNodeMachine : Machine LockNodeState LockNodeAction where
  start s := ∃ ip port chunks now, s =
    { table := (nodeTableAdd [] ip port chunks .master (-1) now true).2
      locks := fun _ => .free
      granted := [] }
  step := LockNodeState.step

/-- Node `i` holds the locked record or waits in its queue. -/
def Lock.Names (lock : Lock) (i : NodeId) : Prop :=
  lock.locked = true ∧ (i = lock.holderId ∨ i ∈ lock.waiters)

def LockNodeState.LocksLive (s : LockNodeState) : Prop :=
  ∀ l i, (s.locks l).Names i → s.table.Live i

/-- A request that finds a valid lock free, or room in its queue, comes from a live node; a node that
leaves is named by no record, unless it is the master or has a further connected entry. -/
def LockNodeAction.Ok (s : LockNodeState) : LockNodeAction → Prop
  | .request srcNode l _ => l < maxLocks → (s.locks l).Takes → s.table.Live srcNode
  | .remove nodeId =>
      (∃ l, (s.locks l).Names nodeId) →
        NodeTable.Live (s.table.eraseP (·.nodeId == nodeId)) nodeId
  | _ => True

/-! ### Joins and departures -/

theorem NodeTable.Live.add {table : NodeTable} {i : NodeId} (h : table.Live i) (ip : List UInt8)
    (port chunks : Nat) (role : Role) {sockfd : Int} (hsock : 0 ≤ sockfd) (now : Nat)
    (mutexOk : Bool) :
    NodeTable.Live (nodeTableAdd table ip port chunks role sockfd now mutexOk).2 i := by
  refine h.imp_right fun ⟨node, hnode, hid, hfd⟩ => ?_
  rcases nodeTableAdd_table table ip port chunks role sockfd now mutexOk with
    ⟨pre, old, post, rfl, -, heq⟩ | ⟨-, -, heq⟩ | ⟨-, -, -, new, heq, -⟩
  · rw [heq]
    rcases List.mem_append.mp hnode with hpre | hpost
    · exact ⟨node, List.mem_append_left _ hpre, hid, hfd⟩
    · rcases List.mem_cons.mp hpost with rfl | hpost
      · exact ⟨_, List.mem_append_right _ List.mem_cons_self, hid, hsock⟩
      · exact ⟨node, List.mem_append_right _ (List.mem_cons_of_mem _ hpost), hid, hfd⟩
  · rw [heq]
    exact ⟨node, hnode, hid, hfd⟩
  · rw [heq]
    exact ⟨node, List.mem_append_left _ hnode, hid, hfd⟩

theorem NodeTable.Live.remove {table : NodeTable} {i nodeId : NodeId} (h : table.Live i)
    (hne : i ≠ nodeId) : NodeTable.Live (table.eraseP (·.nodeId == nodeId)) i := by
  refine h.imp_right fun ⟨node, hnode, hid, hfd⟩ => ⟨node, ?_, hid, hfd⟩
  exact (List.mem_eraseP_of_neg (by simpa [hid] using hne)).mpr hnode

/-! ### Requests and releases -/

theorem syncHandleLockRequest_names {locks : LockTable} {srcNode i : NodeId} {l l' : LockId}
    (hfree : (locks l).locked = false → (locks l).waiters = [])
    (h : ((syncHandleLockRequest locks srcNode l).locks l').Names i) :
    (locks l').Names i ∨ l < maxLocks ∧ (locks l).Takes ∧ i = srcNode := by
  by_cases hl : maxLocks ≤ l
  · simp only [syncHandleLockRequest, hl, if_true] at h
    exact .inl h
  · by_cases heq : l' = l
    · subst heq
      cases hlocked : (locks l').locked with
      | false =>
          simp only [syncHandleLockRequest, hl, if_false, hlocked, Bool.not_false, if_true,
            Function.update_self] at h
          have hi : i = srcNode := by
            rcases h.2 with hi | hi
            · exact hi
            · rw [hfree hlocked] at hi
              cases hi
          exact .inr ⟨Nat.lt_of_not_le hl, fun ht => by simp [hlocked] at ht, hi⟩
      | true =>
          by_cases hroom : (locks l').waiters.length < maxNodes
          · simp only [syncHandleLockRequest, hl, if_false, hlocked, Bool.not_true, Bool.false_eq_true,
              hroom, if_true, Function.update_self] at h
            rcases h.2 with hi | hi
            · exact .inl ⟨hlocked, .inl hi⟩
            · rcases List.mem_append.mp hi with hi | hi
              · exact .inl ⟨hlocked, .inr hi⟩
              · exact .inr ⟨Nat.lt_of_not_le hl, fun _ => hroom, List.mem_singleton.mp hi⟩
          · simp only [syncHandleLockRequest, hl, if_false, hlocked, Bool.not_true, Bool.false_eq_true,
              hroom] at h
            exact .inl h
    · rw [syncHandleLockRequest_frame locks srcNode heq] at h
      exact .inl h

theorem syncHandleLockRequest_names_source {locks : LockTable} {srcNode : NodeId} {l : LockId}
    (hl : l < maxLocks) (htakes : (locks l).Takes) :
    ((syncHandleLockRequest locks srcNode l).locks l).Names srcNode := by
  have hl' : ¬ maxLocks ≤ l := Nat.not_le.mpr hl
  cases hlocked : (locks l).locked with
  | false => simp [syncHandleLockRequest, hl', hlocked, Lock.Names]
  | true => simp [syncHandleLockRequest, hl', hlocked, htakes hlocked, Lock.Names]

theorem syncHandleLockRelease_names {locks : LockTable} {srcNode i : NodeId} {l l' : LockId}
    (h : ((syncHandleLockRelease locks srcNode l).locks l').Names i) : (locks l').Names i := by
  by_cases hl : maxLocks ≤ l
  · simp only [syncHandleLockRelease, hl, if_true] at h
    exact h
  · cases hheld : (locks l).heldBy srcNode with
    | false =>
        rw [syncHandleLockRelease_of_not_heldBy locks hheld] at h
        exact h
    | true =>
        by_cases heq : l' = l
        · subst heq
          have hlocked := (Lock.heldBy_eq_true.mp hheld).1
          rcases syncHandleLockRelease_cases locks (Nat.lt_of_not_le hl) hheld with
            ⟨next, rest, hwaiters, hcall⟩ | ⟨-, hcall⟩
          · simp only [hcall, Function.update_self] at h
            refine ⟨hlocked, .inr ?_⟩
            rw [hwaiters]
            exact List.mem_cons.mpr h.2
          · simp [hcall, Lock.Names] at h
        · rw [syncHandleLockRelease_frame locks srcNode heq] at h
          exact h

/-! ### Steps and runs -/

structure LockNodeInv (s : LockNodeState) : Prop where
  live : s.LocksLive
  free : s.locks.NoneWaitsForFree

section Steps

variable {s t : LockNodeState}

theorem LockNodeInv.start (h : lockNodeMachine.start s) : LockNodeInv s := by
  obtain ⟨ip, port, chunks, now, rfl⟩ := h
  refine ⟨fun l i hnames => ?_, fun _ _ => rfl⟩
  cases hnames.1

theorem LockNodeInv.step {a : LockNodeAction} (h : LockNodeInv s) (hok : a.Ok s)
    (ha : s.step a = some t) : LockNodeInv t := by
  cases a with
  | request srcNode l sockOk =>
      obtain rfl := Option.some.inj ha
      refine ⟨fun l' i hnames => ?_, h.free.request srcNode l⟩
      rcases syncHandleLockRequest_names (h.free l) hnames with hold | ⟨hl, htakes, rfl⟩
      · exact h.live l' i hold
      · exact hok hl htakes
  | release srcNode l sockOk =>
      obtain rfl := Option.some.inj ha
      exact ⟨fun l' i hnames => h.live l' i (syncHandleLockRelease_names hnames),
        h.free.release srcNode l⟩
  | lock l =>
      simp only [LockNodeState.step, Option.ite_none_right_eq_some, Option.some.injEq] at ha
      obtain ⟨-, rfl⟩ := ha
      refine ⟨fun l' i hnames => ?_, fun l' hfree => ?_⟩
      · by_cases heq : l' = l
        · subst heq
          simp only [Lock.Names, Function.update_self] at hnames
          rcases hnames.2 with rfl | hi
          · exact .inl rfl
          · cases hlocked : (s.locks l').locked with
            | false =>
                rw [h.free l' hlocked] at hi
                cases hi
            | true => exact h.live l' i ⟨hlocked, .inr hi⟩
        · simp only [Function.update_of_ne heq] at hnames
          exact h.live l' i hnames
      · by_cases heq : l' = l
        · subst heq
          simp at hfree
        · simp only [Function.update_of_ne heq] at hfree ⊢
          exact h.free l' hfree
  | add ip port chunks sockfd now mutexOk =>
      simp only [LockNodeState.step, Option.ite_none_right_eq_some, Option.some.injEq] at ha
      obtain ⟨hsock, rfl⟩ := ha
      exact ⟨fun l i hnames => (h.live l i hnames).add ip port chunks .worker hsock now mutexOk, h.free⟩
  | remove nodeId =>
      obtain rfl := Option.some.inj ha
      refine ⟨fun l i hnames => ?_, h.free⟩
      dsimp only
      rw [nodeTableRemove_table]
      by_cases heq : i = nodeId
      · subst heq
        exact hok ⟨l, hnames⟩
      · exact (h.live l i hnames).remove heq

/-- A step that does not meet the condition leaves a record that names a node that is not live. -/
theorem LockNodeState.not_locksLive {a : LockNodeAction} (hnot : ¬ a.Ok s) (ha : s.step a = some t) :
    ¬ t.LocksLive := by
  intro hlive
  cases a with
  | request srcNode l sockOk =>
      obtain rfl := Option.some.inj ha
      exact hnot fun hl htakes => hlive l srcNode (syncHandleLockRequest_names_source hl htakes)
  | remove nodeId =>
      obtain rfl := Option.some.inj ha
      refine hnot fun ⟨l, hnames⟩ => ?_
      rw [← nodeTableRemove_table]
      exact hlive l nodeId hnames
  | release srcNode l sockOk => exact hnot trivial
  | lock l => exact hnot trivial
  | add ip port chunks sockfd now mutexOk => exact hnot trivial

end Steps

/-- Every locked lock is held by and queued for live nodes in every state of a run exactly when each
request that reaches a record comes from a live node, and no node leaves that a record names. -/
theorem locksLive_iff {s t : LockNodeState} {as : List LockNodeAction}
    (hstart : lockNodeMachine.start s) (hexec : lockNodeMachine.exec s as = some t) :
    lockNodeMachine.Always LockNodeState.LocksLive s as ↔
      lockNodeMachine.EachStep (fun s a => a.Ok s) s as :=
  Machine.always_iff_eachStep (fun _ (h : LockNodeInv _) => h.live) (fun _ _ _ h hok ha => h.step hok ha)
    (fun _ _ _ _ hnot ha => LockNodeState.not_locksLive hnot ha) (.start hstart) hexec

private def lockNodeStart : LockNodeState :=
  { table := (nodeTableAdd [] [49, 48] 5000 1 .master (-1) 0 true).2
    locks := fun _ => .free
    granted := [] }

private theorem lockNodeStart_start : lockNodeMachine.start lockNodeStart :=
  ⟨[49, 48], 5000, 1, 0, rfl⟩

/-- Worker 2 takes a lock, gives it back and leaves. -/
theorem locksLive_iff_release_and_leave : ∃ t,
    lockNodeMachine.exec lockNodeStart [.add [49, 49] 5000 1 7 0 true, .request 2 0 true,
      .release 2 0 true, .remove 2] = some t ∧ t.LocksLive := by
  have hok : lockNodeMachine.EachStep (fun s a => a.Ok s) lockNodeStart
      [.add [49, 49] 5000 1 7 0 true, .request 2 0 true, .release 2 0 true, .remove 2] := by
    refine (Machine.eachStep_cons rfl).mpr ⟨trivial, (Machine.eachStep_cons rfl).mpr ⟨?_, ?_⟩⟩
    · exact fun _ _ => .inr ⟨_, List.mem_append_right _ (List.mem_singleton_self _), rfl, by decide⟩
    · refine (Machine.eachStep_cons rfl).mpr ⟨trivial, (Machine.eachStep_cons rfl).mpr ⟨?_, ?_⟩⟩
      · rintro ⟨l, hnames⟩
        by_cases hl : l = 0
        · subst hl
          cases hnames.1
        · simp only [LockNodeState.handled_locks] at hnames
          have hlocked := (syncHandleLockRelease_names hnames).1
          rw [syncHandleLockRequest_frame _ _ hl] at hlocked
          cases hlocked
      · exact Machine.eachStep_nil
  exact ⟨_, rfl, ((locksLive_iff lockNodeStart_start rfl).mpr hok).last rfl⟩

/-- Worker 2 takes a lock and leaves: the lock stays held by a node that is gone. -/
theorem not_locksLive_of_leave : lockNodeMachine.start lockNodeStart ∧ ∃ t,
    lockNodeMachine.exec lockNodeStart [.add [49, 49] 5000 1 7 0 true, .request 2 0 true, .remove 2] =
      some t ∧ ¬ t.LocksLive := by
  refine ⟨lockNodeStart_start, _, rfl, fun hlive => ?_⟩
  rcases hlive 0 2 ⟨rfl, .inl rfl⟩ with heq | ⟨node, hnode, hid, -⟩
  · cases heq
  · obtain rfl := List.mem_singleton.mp hnode
    cases hid

end Dsm
