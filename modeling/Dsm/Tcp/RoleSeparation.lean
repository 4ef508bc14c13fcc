import Dsm.Tcp.NodeMachine

/-!
# What messages can do to the master

The dispatcher serves both roles. The cases of the worker's side write the node's id and the lock
records without a look at `local_role`: `JOIN_RESPONSE` assigns the id, and `LOCK_GRANT` makes the node
the holder of a lock. So the master keeps its id, and its records change as the request and release
handlers say, exactly for the messages that ask neither of these two for something new
(`master_roles_iff`).
-/

namespace Dsm

/-- The id of a node after a message. -/
def Received.assignedId (r : Received) (c : NodeCtx) : NodeId :=
  if r.type = some .joinResponse ∧ 4 ≤ r.len then r.field 0 4 else c.localNodeId

/-- The records after a message, if only `LOCK_REQUEST` and `LOCK_RELEASE` are about locks. -/
def NodeCtx.prescribedLocks (c : NodeCtx) (r : Received) : LockTable :=
  match r.type with
  | some .lockRequest =>
      if 4 ≤ r.len then (syncHandleLockRequest c.locks r.src (r.field 0 4)).locks else c.locks
  | some .lockRelease =>
      if 4 ≤ r.len then (syncHandleLockRelease c.locks r.src (r.field 0 4)).locks else c.locks
  | _ => c.locks

/-- A message leaves the master its id, and does to the locks what the two handlers prescribe. -/
structure NodeCtx.RolesSeparate (c : NodeCtx) (r : Received) : Prop where
  localNodeId : (c.handleMessage r).ctx.localNodeId = masterId
  locks : (c.handleMessage r).ctx.locks = c.prescribedLocks r

/-- A `JOIN_RESPONSE` assigns the id that the master has, and a `LOCK_GRANT` is for a lock that the
master holds already. -/
def Received.AsksNothingNew (r : Received) (c : NodeCtx) : Prop :=
  (r.type = some .joinResponse → 4 ≤ r.len → r.field 0 4 = masterId) ∧
    (r.type = some .lockGrant → 4 ≤ r.len → (c.locks (r.field 0 4)).heldBy masterId = true)

instance (r : Received) (c : NodeCtx) : Decidable (r.AsksNothingNew c) :=
  inferInstanceAs (Decidable (_ ∧ _))

/-! ### The cases that serve both roles -/

/-- The node has the same id, the same role and the same lock records. -/
structure NodeCtx.KeepsRole (c c' : NodeCtx) : Prop where
  localNodeId : c'.localNodeId = c.localNodeId
  localRole : c'.mem.ctx.localRole = c.mem.ctx.localRole
  locks : c'.locks = c.locks

namespace NodeCtx

theorem KeepsRole.refl (c : NodeCtx) : c.KeepsRole c := ⟨rfl, rfl, rfl⟩

/-- A step that changes the memory, but not the node's bookkeeping of itself. -/
theorem KeepsRole.setMem (c : NodeCtx) {mem : NodeMem} (h : c.mem.Same mem) (faultHandled : Bool) :
    c.KeepsRole { c with mem := mem, faultHandled := faultHandled } :=
  ⟨h.localNodeId, h.localRole, rfl⟩

variable (c : NodeCtx) (r : Received)

theorem keepsRole_handleNodeLeft : c.KeepsRole (c.handleNodeLeft r).ctx := by
  rw [handleNodeLeft]
  split_ifs
  · exact ⟨rfl, rfl, rfl⟩
  · exact .refl c

theorem keepsRole_handleNewNode : c.KeepsRole (c.handleNewNode r).ctx := by
  rw [handleNewNode]
  split_ifs
  · exact .refl c
  · exact .refl c

theorem keepsRole_handlePageRequest : c.KeepsRole (c.handlePageRequest r).ctx := by
  rw [handlePageRequest]
  split
  · split
    · exact .refl c
    · split
      · exact .refl c
      · exact ⟨rfl, rfl, rfl⟩
  · exact .refl c

theorem keepsRole_handlePageData : c.KeepsRole (c.handlePageData r).ctx := by
  rw [handlePageData]
  split_ifs
  · apply KeepsRole.setMem
    apply NodeMem.same_pageInstall
  · exact .refl c

theorem keepsRole_handleAllocRequest : c.KeepsRole (c.handleAllocRequest r).ctx := by
  rw [handleAllocRequest]
  split_ifs
  · exact ⟨rfl, rfl, rfl⟩
  · exact .refl c

theorem keepsRole_handleAllocResponse : c.KeepsRole (c.handleAllocResponse r).ctx := by
  rw [handleAllocResponse]
  split_ifs
  · exact .refl c
  · exact .refl c

theorem keepsRole_barrierEnter (node : NodeId) : c.KeepsRole (c.barrierEnter node).ctx := by
  rw [barrierEnter]
  split
  · exact ⟨rfl, rfl, rfl⟩
  · exact ⟨rfl, rfl, rfl⟩

theorem keepsRole_handleBarrierEnter : c.KeepsRole (c.handleBarrierEnter r).ctx := by
  rw [handleBarrierEnter]
  split_ifs
  · exact c.keepsRole_barrierEnter r.src
  · exact .refl c

theorem keepsRole_handleMessage (hjoin : r.type ≠ some .joinResponse)
    (hrequest : r.type ≠ some .lockRequest) (hgrant : r.type ≠ some .lockGrant)
    (hrelease : r.type ≠ some .lockRelease) : c.KeepsRole (c.handleMessage r).ctx := by
  rw [handleMessage]
  cases htype : r.type with
  | none => exact .refl c
  | some t =>
      cases t with
      | joinResponse => exact (hjoin htype).elim
      | lockRequest => exact (hrequest htype).elim
      | lockGrant => exact (hgrant htype).elim
      | lockRelease => exact (hrelease htype).elim
      | nodeTable | heartbeat | heartbeatAck | shutdown => exact ⟨rfl, rfl, rfl⟩
      | barrierRelease => exact .refl c
      | newNode => exact c.keepsRole_handleNewNode r
      | nodeLeft => exact c.keepsRole_handleNodeLeft r
      | pageRequest => exact c.keepsRole_handlePageRequest r
      | pageData => exact c.keepsRole_handlePageData r
      | allocRequest => exact c.keepsRole_handleAllocRequest r
      | allocResponse => exact c.keepsRole_handleAllocResponse r
      | barrierEnter => exact c.keepsRole_handleBarrierEnter r

/-! ### The cases of locks and ids -/

theorem sendGrant_role (out : LockOutcome) (l : LockId) (accesses : List Access) :
    (c.sendGrant out l accesses).ctx.localNodeId = c.localNodeId ∧
      (c.sendGrant out l accesses).ctx.mem.ctx.localRole = c.mem.ctx.localRole ∧
      (c.sendGrant out l accesses).ctx.locks = out.locks := by
  rw [sendGrant]
  split
  · exact ⟨rfl, rfl, rfl⟩
  · exact ⟨rfl, rfl, rfl⟩

theorem handleLock_role (htype : r.type = some .lockRequest ∨ r.type = some .lockRelease) :
    (c.handleMessage r).ctx.localNodeId = c.localNodeId ∧
      (c.handleMessage r).ctx.mem.ctx.localRole = c.mem.ctx.localRole ∧
      (c.handleMessage r).ctx.locks = if c.isMaster then c.prescribedLocks r else c.locks := by
  by_cases hcase : c.isMaster = true ∧ 4 ≤ r.len
  · rcases htype with htype | htype
    · simpa [handleMessage, handleLockRequest, prescribedLocks, htype, hcase] using
        sendGrant_role c _ _ _
    · simpa [handleMessage, handleLockRelease, prescribedLocks, htype, hcase] using
        sendGrant_role c _ _ _
  · have hprescribed : (if c.isMaster then c.prescribedLocks r else c.locks) = c.locks := by
      by_cases hmaster : c.isMaster = true
      · have hshort : ¬ 4 ≤ r.len := fun hlen => hcase ⟨hmaster, hlen⟩
        rcases htype with htype | htype <;> simp [prescribedLocks, htype, hshort]
      · rw [if_neg hmaster]
    rw [hprescribed]
    rcases htype with htype | htype
    · simp [handleMessage, handleLockRequest, htype, hcase, keep]
    · simp [handleMessage, handleLockRelease, htype, hcase, keep]

theorem handleJoinResponse_role (htype : r.type = some .joinResponse) :
    (c.handleMessage r).ctx.localNodeId = (if 4 ≤ r.len then r.field 0 4 else c.localNodeId) ∧
      (c.handleMessage r).ctx.mem.ctx.localRole = c.mem.ctx.localRole ∧
      (c.handleMessage r).ctx.locks = c.locks := by
  by_cases hlen : 4 ≤ r.len
  · simp [handleMessage, handleJoinResponse, htype, hlen, localNodeId]
  · simp [handleMessage, handleJoinResponse, htype, hlen, keep]

/-- The record of a lock whose grant has arrived. -/
def grantedLocks (c : NodeCtx) (l : LockId) : LockTable :=
  Function.update c.locks l { c.locks l with locked := true, holderId := c.localNodeId }

theorem handleLockGrant_role (htype : r.type = some .lockGrant) :
    (c.handleMessage r).ctx.localNodeId = c.localNodeId ∧
      (c.handleMessage r).ctx.mem.ctx.localRole = c.mem.ctx.localRole ∧
      (c.handleMessage r).ctx.locks = if 4 ≤ r.len then c.grantedLocks (r.field 0 4) else c.locks := by
  by_cases hlen : 4 ≤ r.len
  · simp [handleMessage, handleLockGrant, htype, hlen, localNodeId, grantedLocks]
  · simp [handleMessage, handleLockGrant, htype, hlen, keep]

/-- A grant leaves the records as they are exactly if the node holds the lock already. -/
theorem grantedLocks_eq_iff (l : LockId) :
    c.grantedLocks l = c.locks ↔ (c.locks l).heldBy c.localNodeId = true := by
  rw [grantedLocks, Function.update_eq_self_iff, Lock.heldBy_eq_true]
  constructor
  · intro heq
    exact ⟨by rw [← heq], by rw [← heq]⟩
  · intro hheld
    obtain ⟨hlocked, hholder⟩ := hheld
    rw [← hlocked, ← hholder]

/-! ### What a message does to id, role and locks -/

theorem prescribedLocks_of_ne (hrequest : r.type ≠ some .lockRequest)
    (hrelease : r.type ≠ some .lockRelease) : c.prescribedLocks r = c.locks := by
  unfold prescribedLocks
  split
  · exact absurd (by assumption) hrequest
  · exact absurd (by assumption) hrelease
  · rfl

theorem handleMessage_localNodeId : (c.handleMessage r).ctx.localNodeId = r.assignedId c := by
  rw [Received.assignedId]
  by_cases hjoin : r.type = some .joinResponse
  · simpa [hjoin] using (handleJoinResponse_role c r hjoin).1
  · rw [if_neg fun hand => hjoin hand.1]
    by_cases hlock : r.type = some .lockRequest ∨ r.type = some .lockRelease
    · exact (handleLock_role c r hlock).1
    · by_cases hgrant : r.type = some .lockGrant
      · exact (handleLockGrant_role c r hgrant).1
      · exact (keepsRole_handleMessage c r hjoin (not_or.mp hlock).1 hgrant
          (not_or.mp hlock).2).localNodeId

theorem handleMessage_localRole :
    (c.handleMessage r).ctx.mem.ctx.localRole = c.mem.ctx.localRole := by
  by_cases hjoin : r.type = some .joinResponse
  · exact (handleJoinResponse_role c r hjoin).2.1
  · by_cases hlock : r.type = some .lockRequest ∨ r.type = some .lockRelease
    · exact (handleLock_role c r hlock).2.1
    · by_cases hgrant : r.type = some .lockGrant
      · exact (handleLockGrant_role c r hgrant).2.1
      · exact (keepsRole_handleMessage c r hjoin (not_or.mp hlock).1 hgrant
          (not_or.mp hlock).2).localRole

variable {c} in
theorem handleMessage_locks (hmaster : c.isMaster = true) : (c.handleMessage r).ctx.locks =
    if r.type = some .lockGrant ∧ 4 ≤ r.len then c.grantedLocks (r.field 0 4)
    else c.prescribedLocks r := by
  by_cases hgrant : r.type = some .lockGrant
  · rw [(handleLockGrant_role c r hgrant).2.2, prescribedLocks_of_ne c r (by simp [hgrant])
      (by simp [hgrant])]
    simp [hgrant]
  · rw [if_neg fun hand => hgrant hand.1]
    by_cases hlock : r.type = some .lockRequest ∨ r.type = some .lockRelease
    · rw [(handleLock_role c r hlock).2.2, if_pos hmaster]
    · have hother := prescribedLocks_of_ne c r (not_or.mp hlock).1 (not_or.mp hlock).2
      by_cases hjoin : r.type = some .joinResponse
      · rw [(handleJoinResponse_role c r hjoin).2.2, hother]
      · rw [(keepsRole_handleMessage c r hjoin (not_or.mp hlock).1 hgrant (not_or.mp hlock).2).locks,
          hother]

end NodeCtx

/-- On the master, whatever the state of the node and whatever the message: it keeps its id, and every
lock record changes only as the request and release handlers prescribe, exactly if the message is
neither a `JOIN_RESPONSE` with another id nor a `LOCK_GRANT` for a lock that the master does not
hold. -/
theorem master_roles_iff {c : NodeCtx} (hmaster : c.isMaster = true) (hid : c.localNodeId = masterId)
    (r : Received) : c.RolesSeparate r ↔ r.AsksNothingNew c := by
  have hnode : (c.handleMessage r).ctx.localNodeId = masterId ↔
      (r.type = some .joinResponse → 4 ≤ r.len → r.field 0 4 = masterId) := by
    rw [NodeCtx.handleMessage_localNodeId, Received.assignedId, hid]
    split_ifs with hjoin
    · simp [hjoin]
    · exact iff_of_true rfl fun htype hlen => (hjoin ⟨htype, hlen⟩).elim
  have hlocks : (c.handleMessage r).ctx.locks = c.prescribedLocks r ↔
      (r.type = some .lockGrant → 4 ≤ r.len → (c.locks (r.field 0 4)).heldBy masterId = true) := by
    rw [NodeCtx.handleMessage_locks r hmaster]
    split_ifs with hgrant
    · rw [NodeCtx.prescribedLocks_of_ne c r (by simp [hgrant.1]) (by simp [hgrant.1]),
        NodeCtx.grantedLocks_eq_iff, hid]
      simp [hgrant]
    · exact iff_of_true rfl fun htype hlen => (hgrant ⟨htype, hlen⟩).elim
  constructor
  · intro hseparate
    exact ⟨hnode.mp hseparate.localNodeId, hlocks.mp hseparate.locks⟩
  · intro hok
    exact ⟨hnode.mpr hok.1, hlocks.mpr hok.2⟩

/-- Node 2 asks the master for a free lock. -/
theorem master_roles_iff_lockRequest :
    masterCtx.RolesSeparate (receivedFrom2 .lockRequest [7, 0, 0, 0] (by decide)) :=
  (@master_roles_iff masterCtx (by decide) rfl _).mpr (by decide +kernel)

/-- The master after node 2 has got lock 0. -/
def grantedTo2 : NodeCtx :=
  (masterCtx.handleMessage (receivedFrom2 .lockRequest [0, 0, 0, 0] (by decide))).ctx

/-- A worker that sends `JOIN_RESPONSE` gives the master its own id, and one that sends `LOCK_GRANT`
gives it the lock that node 2 holds. -/
theorem roles_not_separate :
    nodeMachine.Reachable masterCtx ∧ nodeMachine.Reachable grantedTo2 ∧
    grantedTo2.isMaster = true ∧ grantedTo2.localNodeId = masterId ∧
    (grantedTo2.locks 0).heldBy 2 = true ∧
    ¬ masterCtx.RolesSeparate (receivedFrom2 .joinResponse [2, 0, 0, 0] (by decide)) ∧
    ¬ grantedTo2.RolesSeparate (receivedFrom2 .lockGrant [0, 0, 0, 0] (by decide)) := by
  have hstart : nodeMachine.Reachable masterCtx := .start nodeStart_masterCtx
  refine ⟨hstart, ?_, by decide +kernel, by decide +kernel, by decide +kernel, ?_, ?_⟩
  · have hok : (receivedFrom2 .lockRequest [0, 0, 0, 0] (by decide)).Ok masterCtx := by decide +kernel
    exact hstart.step (.message _) (if_pos hok)
  · intro hseparate
    have hnode := hseparate.localNodeId
    revert hnode
    decide +kernel
  · intro hseparate
    have hlock := congrFun hseparate.locks 0
    revert hlock
    decide +kernel

/-! ### The master over a whole run -/

/-- The id of a node after one of its steps, which only a message can change. -/
def NodeAction.assignedId (c : NodeCtx) : NodeAction → NodeId
  | .message r => r.assignedId c
  | _ => c.localNodeId

theorem NodeCtx.step_role {c c' : NodeCtx} {a : NodeAction} (hstep : c.step a = some c') :
    c'.mem.ctx.localRole = c.mem.ctx.localRole ∧ c'.localNodeId = a.assignedId c := by
  cases a with
  | message r =>
      rw [step, Option.ite_none_right_eq_some] at hstep
      cases hstep.2
      exact ⟨c.handleMessage_localRole r, c.handleMessage_localNodeId r⟩
  | memory a =>
      rw [step, Option.ite_none_right_eq_some] at hstep
      cases hstep.2
      have hids := a.apply_ids c.mem.ctx
      exact ⟨hids.2, hids.1⟩
  | store addr byte =>
      rw [step, Option.ite_none_right_eq_some] at hstep
      cases hstep.2
      exact ⟨rfl, rfl⟩
  | fault addr protectOk =>
      cases hstep
      have hsame := c.mem.same_faultCheck addr protectOk
      rw [fault]
      split
      · rename_i heq
        rw [heq] at hsame
        exact ⟨hsame.localRole, hsame.localNodeId⟩
      · rename_i heq
        rw [heq] at hsame
        exact ⟨hsame.localRole, hsame.localNodeId⟩
  | giveUp | setFaultHandled | join | setLogLevel =>
      cases hstep
      exact ⟨rfl, rfl⟩
  | lock l =>
      rw [step, lock] at hstep
      split_ifs at hstep <;> cases hstep <;> exact ⟨rfl, rfl⟩
  | unlock l =>
      cases hstep
      rw [unlock]
      split_ifs
      · exact ⟨rfl, rfl⟩
      · have hgrant := c.sendGrant_role (syncHandleLockRelease c.locks c.localNodeId l) l []
        exact ⟨hgrant.2.1, hgrant.1⟩
      · exact ⟨rfl, rfl⟩
  | barrier =>
      cases hstep
      rw [barrierCall]
      split_ifs
      · have hkeep := c.keepsRole_barrierEnter c.localNodeId
        exact ⟨hkeep.localRole, hkeep.localNodeId⟩
      · exact ⟨rfl, rfl⟩
  | disconnect nodeId =>
      cases hstep
      rw [disconnect]
      split
      · split_ifs
        · exact ⟨rfl, rfl⟩
        · exact ⟨rfl, rfl⟩
      · exact ⟨rfl, rfl⟩

/-- A node that starts as the master is the master with id 1 throughout a run exactly if every
`JOIN_RESPONSE` of the run assigns the id 1. -/
theorem nodeMachine_master_iff {c t : NodeCtx} {as : List NodeAction} (hmaster : c.isMaster = true)
    (hid : c.localNodeId = masterId) (has : nodeMachine.exec c as = some t) :
    nodeMachine.Always (fun c => c.isMaster = true ∧ c.localNodeId = masterId) c as ↔
      nodeMachine.EachStep (fun _ a => ∀ r, a = .message r → r.type = some .joinResponse →
        4 ≤ r.len → r.field 0 4 = masterId) c as := by
  refine Machine.always_iff_eachStep (fun _ h => h) (fun c a c' hinv hok hstep => ?_)
    (fun c a c' hinv hnot hstep => ?_) ⟨hmaster, hid⟩ has
  · obtain ⟨hrole, hnode⟩ := NodeCtx.step_role hstep
    refine ⟨by simpa [NodeCtx.isMaster, hrole] using hinv.1, hnode.trans ?_⟩
    cases a with
    | message r =>
        show r.assignedId c = masterId
        rw [Received.assignedId, hinv.2]
        split_ifs with hjoin
        · exact hok r rfl hjoin.1 hjoin.2
        · rfl
    | _ => exact hinv.2
  · rintro ⟨-, hnode'⟩
    apply hnot
    rintro r rfl hjoin hlen
    obtain ⟨-, hassigned⟩ := NodeCtx.step_role (show c.step (.message r) = some c' from hstep)
    rw [NodeAction.assignedId, Received.assignedId, if_pos ⟨hjoin, hlen⟩] at hassigned
    rw [← hassigned, hnode']

end Dsm
