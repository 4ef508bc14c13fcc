import Dsm.Tcp.DispatchSafety

/-!
# A node that handles messages

The context of one node from the end of its initialisation on: messages of any kind and from anywhere,
and between them the calls of its own program, its fault thread and its UDP listener. Every counter of
a fixed array stays in range (`NodeCtx.Bounded.step`), so what the dispatcher does with a message is
decided by the message alone and by a look at the state (`handleMessage_safe_iff`).
-/

namespace Dsm

inductive NodeAction where
  | message (r : Received)
  /-- `dsm_malloc`, `dsm_malloc_at`, `dsm_map_remote` or `dsm_free`. -/
  | memory (a : MappingAction)
  /-- The program writes to its address space. -/
  | store (addr : Nat) (byte : UInt8)
  /-- The first critical section of `dsm_page_fault_handle`, and its request. -/
  | fault (addr : Nat) (protectOk : Bool)
  /-- `dsm_page_fault_handle` gives the page up. -/
  | giveUp (addr : Nat)
  /-- `sigsegv_handler` or the fault thread sets `fault_handled`. -/
  | setFaultHandled (value : Bool)
  | lock (l : LockId)
  | unlock (l : LockId)
  /-- `dsm_barrier` enters. -/
  | barrier
  /-- The UDP listener adds a node. -/
  | join (ip : List UInt8) (port chunks : Nat) (role : Role) (sockfd : Int) (now : Nat)
      (mutexOk : Bool)
  /-- `dsm_tcp_disconnect`. -/
  | disconnect (nodeId : NodeId)
  | setLogLevel (level : Nat)

namespace NodeCtx

/-- `ctx->master_id`, which is never assigned. -/
def masterIdField : NodeId := 0

/-- `dsm_lock` up to its return on the master, or up to its wait on a worker; `none` where the master
waits. -/
def lock (c : NodeCtx) (l : LockId) : Option NodeCtx :=
  if maxLocks ≤ l then some c
  else if c.isMaster then
    if (c.locks l).locked && (c.locks l).holderId != c.localNodeId then none
    else
      let lock := { c.locks l with locked := true, holderId := c.localNodeId }
      some { c with locks := Function.update c.locks l lock }
  else some (c.createHeader .lockRequest masterIdField 4).2

/-- `dsm_unlock`. -/
def unlock (c : NodeCtx) (l : LockId) : NodeCtx :=
  if maxLocks ≤ l then c
  else if c.isMaster then (c.sendGrant (syncHandleLockRelease c.locks c.localNodeId l) l []).ctx
  else
    let lock := { c.locks l with locked := false, holderId := 0 }
    { (c.createHeader .lockRelease masterIdField 4).2 with locks := Function.update c.locks l lock }

/-- `dsm_barrier` up to its wait. -/
def barrierCall (c : NodeCtx) : NodeCtx :=
  if c.isMaster then (c.barrierEnter c.localNodeId).ctx
  else (c.createHeader .barrierEnter masterIdField 0).2

/-- The fault thread takes up a fault. -/
def fault (c : NodeCtx) (addr : Nat) (protectOk : Bool) : NodeCtx :=
  match c.mem.faultCheck addr protectOk with
  | (.ret _, mem) => { c with mem := mem }
  | (.fetch page, mem) =>
      (({ c with mem := mem }).createHeader .pageRequest (mem.faultOwner page) 12).2

/-- `dsm_tcp_disconnect`. -/
def disconnect (c : NodeCtx) (nodeId : NodeId) : NodeCtx :=
  match nodeTableGet c.table nodeId with
  | some node =>
      if 0 ≤ node.tcpFd then
        { c with table := (c.table.updateFirst (·.nodeId == nodeId)
          ({ · with tcpFd := -1, state := .disconnected })).getD c.table }
      else c
  | none => c

/-- A message that is not handled safely has no defined effect. -/
def step (c : NodeCtx) : NodeAction → Option NodeCtx
  | .message r => if r.Ok c then some (c.handleMessage r).ctx else none
  | .memory a =>
      if ∀ r ∈ a.creates c.mem.ctx, r.Mapped c.mem.ctx then some { c with mem := c.mem.call a }
      else none
  | .store addr byte =>
      if c.mem.prot addr = .readWrite then
        some { c with mem := c.mem.store addr (fun _ => byte) 1 }
      else none
  | .fault addr protectOk => some (c.fault addr protectOk)
  | .giveUp addr =>
      some { c with mem := c.mem.updatePageLocal addr ({ · with state := .invalid }) }
  | .setFaultHandled value => some { c with faultHandled := value }
  | .lock l => c.lock l
  | .unlock l => some (c.unlock l)
  | .barrier => some c.barrierCall
  | .join ip port chunks role sockfd now mutexOk =>
      some { c with table := (nodeTableAdd c.table ip port chunks role sockfd now mutexOk).2 }
  | .disconnect nodeId => some (c.disconnect nodeId)
  | .setLogLevel level => some { c with logLevel := level }

end NodeCtx

/-- A node at the end of `dsm_init_with_params`: other nodes may have joined before `dsm_sync_init`. -/
structure NodeStart (c : NodeCtx) : Prop where
  mem : MappingStart c.mem.ctx
  nodes : c.table.length ≤ maxNodes
  locks : c.locks = fun _ => Lock.free
  arrived : c.barrier.arrived = []

def nodeMachine : Machine NodeCtx NodeAction where
  start := NodeStart
  step := NodeCtx.step

/-! ### The counts stay in range -/

/-- The queues of all locks are within the array. -/
def LockTable.WaitersBounded (locks : LockTable) : Prop :=
  ∀ l, (locks l).waiters.length ≤ maxNodes

theorem LockTable.WaitersBounded.update {locks : LockTable} (h : locks.WaitersBounded) {l : LockId}
    {lock : Lock} (hlock : lock.waiters.length ≤ maxNodes) :
    LockTable.WaitersBounded (Function.update locks l lock) := by
  intro l'
  by_cases heq : l' = l
  · subst heq
    rwa [Function.update_self]
  · rw [Function.update_of_ne heq]
    exact h l'

theorem LockTable.WaitersBounded.request {locks : LockTable} (h : locks.WaitersBounded)
    (node : NodeId) (l : LockId) :
    (syncHandleLockRequest locks node l).locks.WaitersBounded := by
  simp only [syncHandleLockRequest]
  split_ifs with _ _ hroom
  · exact h
  · exact h.update (h l)
  · refine h.update ?_
    rw [List.length_append]
    exact hroom
  · exact h

theorem LockTable.WaitersBounded.release {locks : LockTable} (h : locks.WaitersBounded)
    (node : NodeId) (l : LockId) :
    (syncHandleLockRelease locks node l).locks.WaitersBounded := by
  have hl := h l
  simp only [syncHandleLockRelease]
  split_ifs
  · exact h
  · exact h
  · split
    · rename_i next rest hwaiters
      rw [hwaiters, List.length_cons] at hl
      exact h.update (Nat.le_of_succ_le hl)
    · exact h.update hl

theorem length_syncHandleBarrierEnter (barrier : Barrier) {total : Nat} (htotal : total ≤ maxNodes)
    (node : NodeId) : (syncHandleBarrierEnter barrier total node).1.arrived.length < maxNodes := by
  simp only [syncHandleBarrierEnter]
  split_ifs with hfull
  · show 0 < maxNodes
    decide
  · rw [List.length_append] at hfull ⊢
    have hone : [node].length = 1 := rfl
    omega

theorem MemCtx.memFree_pageTable (ctx : MemCtx) (addr : Nat) :
    (ctx.memFree addr).pageTable = ctx.pageTable := by
  rw [MemCtx.memFree]
  split
  · rfl
  · rfl

theorem PageTable.nonNull_newPages {pairs : List (Nat × Nat)} (h : ∀ x ∈ pairs, x.2 ≠ 0)
    {r : Region} (hr : 0 < r.baseAddr) (node : NodeId) :
    ∀ x ∈ pairs ++ (r.newPages node).map Page.addrs, x.2 ≠ 0 := by
  intro x hx
  rcases List.mem_append.mp hx with hx | hx
  · exact h x hx
  · simp only [Region.newPages, List.map_map, List.mem_map] at hx
    obtain ⟨i, -, rfl⟩ := hx
    show r.baseAddr + i * pageSize ≠ 0
    omega

theorem PageTable.NonNull.call {m : NodeMem} (h : m.ctx.pageTable.NonNull) {a : MappingAction}
    (hmapped : ∀ r ∈ a.creates m.ctx, r.Mapped m.ctx) : (m.call a).ctx.pageTable.NonNull := by
  show PageTable.NonNull (a.apply m.ctx).pageTable
  by_cases hfree : ∃ addr, a = .free addr
  · obtain ⟨addr, rfl⟩ := hfree
    rw [MappingAction.apply, MemCtx.memFree_pageTable]
    exact h
  · intro pairs hpairs
    have hadds := (@MappingAction.adds m.ctx a (not_exists.mp hfree)).table
    rw [PageTable.addrs, hadds] at hpairs
    obtain ⟨pages, hpages, rfl⟩ := Option.mem_map.mp hpairs
    have hold : ∀ x ∈ pages.map Page.addrs, x.2 ≠ 0 := h _ (Option.mem_map_of_mem _ hpages)
    cases hcreates : a.creates m.ctx with
    | none => simpa using hold
    | some r =>
        have hbase := (hmapped r hcreates).2.2.1
        simpa using PageTable.nonNull_newPages hold hbase m.ctx.localNodeId

/-! ### A step keeps them in range -/

namespace NodeCtx.Bounded

variable {c : NodeCtx} (h : c.Bounded)
include h

theorem sendGrant {out : LockOutcome} (hout : out.locks.WaitersBounded) (l : LockId)
    (accesses : List Access) : (c.sendGrant out l accesses).ctx.Bounded := by
  rw [NodeCtx.sendGrant]
  split
  · exact ⟨h.nodes, hout, h.arrived, h.pages⟩
  · exact ⟨h.nodes, hout, h.arrived, h.pages⟩

theorem barrierEnter (node : NodeId) : (c.barrierEnter node).ctx.Bounded := by
  have harrived := length_syncHandleBarrierEnter c.barrier h.nodes node
  rw [NodeCtx.barrierEnter]
  split
  · rename_i heq
    rw [heq] at harrived
    exact ⟨h.nodes, h.waiters, harrived, h.pages⟩
  · rename_i heq
    rw [heq] at harrived
    exact ⟨h.nodes, h.waiters, harrived, h.pages⟩

theorem setTable {table : NodeTable} (htable : table.length ≤ maxNodes) :
    NodeCtx.Bounded { c with table := table } :=
  ⟨htable, h.waiters, h.arrived, h.pages⟩

theorem setMem {mem : NodeMem} (hmem : mem.ctx.pageTable.addrs = c.mem.ctx.pageTable.addrs) :
    NodeCtx.Bounded { c with mem := mem } := by
  refine ⟨h.nodes, h.waiters, h.arrived, fun pairs hpairs => h.pages pairs ?_⟩
  rwa [← hmem]

theorem createHeader (type : MsgType) (dst : NodeId) (len : Nat) :
    (c.createHeader type dst len).2.Bounded :=
  ⟨h.nodes, h.waiters, h.arrived, h.pages⟩

theorem handleMessage (r : Received) : (c.handleMessage r).ctx.Bounded := by
  rw [NodeCtx.handleMessage]
  split
  · rw [NodeCtx.handleJoinResponse]
    split_ifs
    · exact h.setMem rfl
    · exact h
  · exact h.setTable (length_nodeTableDeserialize h.nodes _ _)
  · rw [NodeCtx.handleNewNode]
    split_ifs
    · exact h
    · exact h
  · rw [NodeCtx.handleNodeLeft]
    split_ifs
    · exact h.setTable (length_nodeTableRemove h.nodes _)
    · exact h
  · rw [NodeCtx.handlePageRequest]
    split
    · split
      · exact h
      · split
        · exact h
        · exact ⟨h.nodes, h.waiters, h.arrived, h.pages⟩
    · exact h
  · rw [NodeCtx.handlePageData]
    split_ifs
    · have hmem := h.setMem (c.mem.same_pageInstall (r.field 0 8) (fun i => r.byte (20 + i))
        (r.field 8 4) (r.field 12 8) r.writeOk r.readOk).addrs
      exact ⟨hmem.nodes, hmem.waiters, hmem.arrived, hmem.pages⟩
    · exact h
  · rw [NodeCtx.handleAllocRequest]
    split_ifs
    · exact ⟨h.nodes, h.waiters, h.arrived, h.pages⟩
    · exact h
  · rw [NodeCtx.handleAllocResponse]
    split_ifs
    · exact h
    · exact h
  · rw [NodeCtx.handleLockRequest]
    split_ifs
    · exact h.sendGrant (LockTable.WaitersBounded.request h.waiters _ _) _ _
    · exact h
  · rw [NodeCtx.handleLockGrant]
    split_ifs
    · exact ⟨h.nodes, LockTable.WaitersBounded.update h.waiters (h.waiters _), h.arrived, h.pages⟩
    · exact h
  · rw [NodeCtx.handleLockRelease]
    split_ifs
    · exact h.sendGrant (LockTable.WaitersBounded.release h.waiters _ _) _ _
    · exact h
  · rw [NodeCtx.handleBarrierEnter]
    split_ifs
    · exact h.barrierEnter _
    · exact h
  · exact h
  · exact (h.setTable ((nodeTableHeartbeat_length ..).trans_le h.nodes)).createHeader .heartbeatAck r.src 0
  · exact h.setTable ((nodeTableHeartbeat_length ..).trans_le h.nodes)
  · exact h.setTable (length_nodeTableRemove h.nodes _)
  · exact h

theorem lock {l : LockId} {c' : NodeCtx} (hstep : c.lock l = some c') : c'.Bounded := by
  rw [NodeCtx.lock] at hstep
  split_ifs at hstep
  · cases hstep
    exact h
  · cases hstep
    exact ⟨h.nodes, LockTable.WaitersBounded.update h.waiters (h.waiters l), h.arrived, h.pages⟩
  · cases hstep
    exact h.createHeader _ _ _

theorem unlock (l : LockId) : (c.unlock l).Bounded := by
  rw [NodeCtx.unlock]
  split_ifs
  · exact h
  · exact h.sendGrant (LockTable.WaitersBounded.release h.waiters _ _) _ _
  · exact ⟨h.nodes, LockTable.WaitersBounded.update h.waiters (h.waiters l), h.arrived, h.pages⟩

theorem fault (addr : Nat) (protectOk : Bool) : (c.fault addr protectOk).Bounded := by
  have hmem := h.setMem (c.mem.same_faultCheck addr protectOk).addrs
  rw [NodeCtx.fault]
  split
  · rename_i heq
    rwa [heq] at hmem
  · rename_i heq
    rw [heq] at hmem
    exact hmem.createHeader _ _ _

theorem disconnect (nodeId : NodeId) : (c.disconnect nodeId).Bounded := by
  rw [NodeCtx.disconnect]
  split
  · split_ifs
    · refine h.setTable ?_
      cases hupdate : c.table.updateFirst (·.nodeId == nodeId)
          ({ · with tcpFd := -1, state := .disconnected }) with
      | none => exact h.nodes
      | some table' =>
          obtain ⟨pre, node, post, htable, -, -, rfl⟩ := List.updateFirst_eq_some hupdate
          have hnodes := h.nodes
          rw [htable] at hnodes
          simpa using hnodes
    · exact h
  · exact h

theorem step {a : NodeAction} {c' : NodeCtx} (hstep : c.step a = some c') : c'.Bounded := by
  cases a with
  | message r =>
      rw [NodeCtx.step, Option.ite_none_right_eq_some] at hstep
      cases hstep.2
      exact h.handleMessage r
  | memory a =>
      rw [NodeCtx.step, Option.ite_none_right_eq_some] at hstep
      obtain ⟨hmapped, hstep⟩ := hstep
      cases hstep
      exact ⟨h.nodes, h.waiters, h.arrived, PageTable.NonNull.call h.pages hmapped⟩
  | store addr byte =>
      rw [NodeCtx.step, Option.ite_none_right_eq_some] at hstep
      cases hstep.2
      exact h.setMem rfl
  | fault addr protectOk =>
      cases hstep
      exact h.fault addr protectOk
  | giveUp addr =>
      cases hstep
      exact h.setMem (pageUpdateLocal_map _ _ fun _ => rfl)
  | setFaultHandled value =>
      cases hstep
      exact ⟨h.nodes, h.waiters, h.arrived, h.pages⟩
  | lock l => exact h.lock hstep
  | unlock l =>
      cases hstep
      exact h.unlock l
  | barrier =>
      cases hstep
      rw [NodeCtx.barrierCall]
      split_ifs
      · exact h.barrierEnter _
      · exact h.createHeader _ _ _
  | join ip port chunks role sockfd now mutexOk =>
      cases hstep
      exact h.setTable (length_nodeTableAdd h.nodes ip port chunks role sockfd now mutexOk)
  | disconnect nodeId =>
      cases hstep
      exact h.disconnect nodeId
  | setLogLevel level =>
      cases hstep
      exact ⟨h.nodes, h.waiters, h.arrived, h.pages⟩

end NodeCtx.Bounded

theorem MappingStart.nonNull {ctx : MemCtx} (h : MappingStart ctx) : ctx.pageTable.NonNull := by
  have hinv := h.inv
  obtain ⟨node, role, chunks, addr, -, -, -, hmapped, -⟩ := h
  intro pairs hpairs x hx
  rw [PageTable.addrs, hinv.table] at hpairs
  cases hpairs
  obtain ⟨r, hr, hpair⟩ := List.mem_flatMap.mp hx
  obtain ⟨i, -, rfl⟩ := mem_pagePairs.mp hpair
  have hbase := (hmapped r hr).2.2.1
  show r.baseAddr + i * pageSize ≠ 0
  omega

theorem nodeMachine_bounded {c : NodeCtx} (h : nodeMachine.Reachable c) : c.Bounded := by
  refine h.invariant (fun s hstart => ⟨hstart.nodes, ?_, ?_, hstart.mem.nonNull⟩)
    fun s a t hinv hstep => hinv.step hstep
  · intro l
    rw [hstart.locks]
    exact Nat.zero_le _
  · rw [hstart.arrived]
    decide

/-- In every state that a node reaches, the dispatcher handles a message of any type, length and
content safely exactly if `Received.Ok` holds of it. -/
theorem handleMessage_safe_iff {c : NodeCtx} (h : nodeMachine.Reachable c) (r : Received) :
    c.SafeOn r ↔ r.Ok c :=
  (nodeMachine_bounded h).safeOn_iff r

/-- The master with a table of its own entry. -/
def masterCtx : NodeCtx :=
  { mem := { ctx := freshMaster, prot := fun _ => .none, bytes := fun _ => 0 }
    table := [{ nodeId := 1, role := .master, state := .discovering, ip := [], port := 5000,
                chunks := 1, tcpFd := -1, lastHeartbeat := 0 }]
    locks := fun _ => Lock.free, barrier := { barrierId := 0, arrived := [] }, faultHandled := false
    seqNum := 0, logLevel := logLevelInfo }

theorem nodeStart_masterCtx : NodeStart masterCtx :=
  ⟨mappingStart_freshMaster, by decide, rfl, rfl⟩

/-- A message from node 2 with a payload. -/
def receivedFrom2 (t : MsgType) (payload : List UInt8) (h : payload.length < 2 ^ 32) : Received :=
  { header := { magic := magic, type := t.code, srcNode := 2, dstNode := 1, seqNum := 0
                payloadLen := UInt32.ofNat payload.length }
    payload := payload
    length := by rw [UInt32.toNat_ofNat', Nat.mod_eq_of_lt h]
    beyond := fun _ => 0, now := 0, bufOk := true, writeOk := true, readOk := true }

theorem handleMessage_safe_iff_lockRequest :
    masterCtx.SafeOn (receivedFrom2 .lockRequest [7, 0, 0, 0] (by decide)) :=
  (handleMessage_safe_iff (.start nodeStart_masterCtx) _).mpr (by decide +kernel)

/-- The grant of a lock that does not exist is stored behind the array. -/
theorem lockGrant_not_safe : nodeMachine.Reachable masterCtx ∧
    (receivedFrom2 .lockGrant [0, 1, 0, 0] (by decide)).BadLockId ∧
    Access.lock 256 ∈
      (masterCtx.handleMessage (receivedFrom2 .lockGrant [0, 1, 0, 0] (by decide))).accesses ∧
    ¬ (Access.lock 256).InBounds 4 ∧
    ¬ masterCtx.SafeOn (receivedFrom2 .lockGrant [0, 1, 0, 0] (by decide)) := by
  have haccess : Access.lock 256 ∈
      (masterCtx.handleMessage (receivedFrom2 .lockGrant [0, 1, 0, 0] (by decide))).accesses := by
    decide +kernel
  have hout : ¬ (Access.lock 256).InBounds 4 := by
    show ¬ 256 < maxLocks
    decide
  refine ⟨.start nodeStart_masterCtx, ⟨.lockGrant, rfl, by decide, by decide +kernel⟩, haccess, hout,
    fun hsafe => ?_⟩
  exact hout (hsafe.inBounds _ haccess)

end Dsm
