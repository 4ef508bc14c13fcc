import Dsm.Tcp.GenuineMessages
import Dsm.Tcp.RoleSeparation
import Dsm.Tcp.AllocRequests

/-!
# The master and the workers

What a node sends depends on two facts about it that no step changes. The entries of a worker's table
have no sockets, since they come from `NODE_TABLE` and only the UDP listener of the master adds others.
The master owns every page that it has registered, since `dsm_map_remote` names node 1. So a worker sends
nothing but requests over `master_fd`, and the master never asks for a page.
-/

namespace Dsm

/-! ### The two sides -/

/-- All records of the table are of pages of node `i`. -/
def PageTable.OwnedBy (table : PageTable) (i : NodeId) : Prop :=
  ∀ pages ∈ table, ∀ page ∈ pages, page.ownerId = i

/-- No entry has a socket, so that nothing can be sent through the table. -/
def NodeTable.NoSocket (table : NodeTable) : Prop := ∀ node ∈ table, node.tcpFd = -1

namespace NodeTable.NoSocket

variable {table : NodeTable} (h : table.NoSocket)
include h

theorem sends (dst : NodeId) (sockOk : Bool) : table.sends dst sockOk = false := by
  rw [NodeTable.sends]
  split
  · rename_i node hget
    rw [h node (List.mem_of_find?_eq_some hget)]
    rfl
  · rfl

theorem updateFirst {p : Node → Bool} {f : Node → Node}
    (hf : ∀ node, node.tcpFd = -1 → (f node).tcpFd = -1) :
    NodeTable.NoSocket ((table.updateFirst p f).getD table) := by
  cases hupdate : table.updateFirst p f with
  | none => exact h
  | some table' =>
      intro node hnode
      rcases List.mem_of_mem_updateFirst hupdate hnode with hold | ⟨old, hold, rfl⟩
      · exact h node hold
      · exact hf old (h old hold)

theorem heartbeat (nodeId : NodeId) (now : Nat) :
    NodeTable.NoSocket (nodeTableHeartbeat table nodeId now) :=
  h.updateFirst fun _ hfd => hfd

theorem remove (nodeId : NodeId) : NodeTable.NoSocket (nodeTableRemove table nodeId).2 := by
  rw [nodeTableRemove_table]
  exact fun node hnode => h node (List.mem_of_mem_eraseP hnode)

theorem merge (now : Nat) (info : NodeInfo) : NodeTable.NoSocket (nodeTableMerge now table info) := by
  simp only [nodeTableMerge]
  split
  · rename_i table' hupdate
    have hkeep := h.updateFirst (p := (·.nodeId == info.nodeId.toNat)) (f := ({ · with
      ip := cString (strncpy info.ip (maxIpLen - 1)), port := info.port.toNat
      chunks := info.chunks.toNat, role := .ofCode info.role, state := .ofCode info.state }))
      fun _ hfd => hfd
    rwa [hupdate] at hkeep
  · split
    · intro node hnode
      rcases List.mem_append.mp hnode with hnode | hnode
      · exact h node hnode
      · rw [List.mem_singleton.mp hnode]
    · exact h

theorem deserialize (buf : List UInt8) (now : Nat) :
    NodeTable.NoSocket (nodeTableDeserialize table buf now).2 := by
  have hfold : ∀ infos : List NodeInfo,
      NodeTable.NoSocket (infos.foldl (nodeTableMerge now) table) := by
    intro infos
    induction infos generalizing table with
    | nil => exact h
    | cons info infos ih => exact ih (h.merge now info)
  simp only [nodeTableDeserialize]
  split_ifs
  · exact h
  · exact h
  · exact hfold _

end NodeTable.NoSocket

theorem PageTable.OwnedBy.of_keys {table table' : PageTable} {i : NodeId} (h : table.OwnedBy i)
    (hkeys : table'.keys = table.keys) : table'.OwnedBy i := by
  intro pages' hpages' page hpage
  rw [PageTable.keys, Option.mem_def.mp hpages', Option.map_some, eq_comm, PageTable.keys,
    Option.map_eq_some_iff] at hkeys
  obtain ⟨pages, hpages, hmap⟩ := hkeys
  obtain ⟨old, hold, hkey⟩ := List.mem_map.mp (hmap ▸ List.mem_map_of_mem hpage)
  exact (congrArg Prod.snd hkey).symm.trans (h pages hpages old hold)

theorem PageTable.OwnedBy.apply {ctx : MemCtx} (h : ctx.pageTable.OwnedBy masterId)
    (hid : ctx.localNodeId = masterId) (a : MappingAction) :
    (a.apply ctx).pageTable.OwnedBy masterId := by
  obtain ⟨marks, htable, -⟩ := a.apply_pageTable ctx
  rw [htable]
  refine ownerId_markPages fun pages hpages page hpage => ?_
  obtain ⟨old, hold, rfl⟩ := Option.map_eq_some_iff.mp hpages
  rcases List.mem_append.mp hpage with hpage | hpage
  · exact h old hold page hpage
  · obtain ⟨r, hr, hpage⟩ := List.mem_flatMap.mp hpage
    obtain ⟨i, -, rfl⟩ := List.mem_map.mp hpage
    have hcreated := Option.mem_toList.mp hr
    show r.ownerId = masterId
    cases a with
    | free => cases hcreated
    | malloc size mapped | mallocAt g size mapped ok =>
        simp only [MappingAction.creates, Option.ite_none_left_eq_some, Option.map_eq_some_iff]
          at hcreated
        obtain ⟨-, addr, -, rfl⟩ := hcreated
        exact hid
    | mapRemote g size mapped =>
        simp only [MappingAction.creates, Option.ite_none_left_eq_some, Option.map_eq_some_iff]
          at hcreated
        obtain ⟨-, addr, -, rfl⟩ := hcreated
        rfl

structure NodeCtx.MasterSide (c : NodeCtx) : Prop where
  role : c.mem.ctx.localRole = .master
  localNodeId : c.localNodeId = masterId
  pages : c.mem.ctx.pageTable.OwnedBy masterId

structure NodeCtx.WorkerSide (c : NodeCtx) : Prop where
  role : c.mem.ctx.localRole = .worker
  noSocket : c.table.NoSocket

theorem NodeCtx.MasterSide.isMaster {c : NodeCtx} (h : c.MasterSide) : c.isMaster = true :=
  decide_eq_true h.role

theorem NodeCtx.WorkerSide.not_isMaster {c : NodeCtx} (h : c.WorkerSide) : c.isMaster = false := by
  rw [isMaster, h.role]
  rfl

/-! ### What the two sides send -/

/-- Messages that a node with this memory has built, of the types that the master or that a worker
sends. -/
def GenuineFrom (mem : NodeMem) (master : Bool) (messages : List Message) : Prop :=
  ∀ m ∈ messages, ∃ t : MsgType, m.Genuine mem t ∧ t.fromMaster = master

theorem GenuineFrom.nil (mem : NodeMem) (master : Bool) : GenuineFrom mem master [] := nofun

theorem GenuineFrom.singleton {mem : NodeMem} {m : Message} {t : MsgType} (h : m.Genuine mem t) :
    GenuineFrom mem t.fromMaster [m] := by
  intro m' hm'
  rw [List.mem_singleton.mp hm']
  exact ⟨t, h, rfl⟩

namespace NodeCtx

theorem genuineFrom_tcpSend (c : NodeCtx) (dst : NodeId) {mem : NodeMem} {m : Message} {t : MsgType}
    (h : m.Genuine mem t) : GenuineFrom mem t.fromMaster ((c.tcpSend dst m).map (·.2)) := by
  rw [tcpSend]
  split
  · exact .singleton h
  · exact .nil _ _

theorem genuineFrom_tcpBroadcast (c : NodeCtx) {mem : NodeMem} {m : Message} {t : MsgType}
    (h : m.Genuine mem t) : GenuineFrom mem t.fromMaster (c.tcpBroadcast m) := by
  intro m' hm'
  obtain ⟨node, -, rfl⟩ := List.mem_map.mp hm'
  exact ⟨t, ⟨h.magic, h.type, h.payloadLen, h.builds⟩, rfl⟩

theorem genuineFrom_sendGrant (c : NodeCtx) {out : LockOutcome} {l : LockId} (accesses : List Access)
    (hout : out.grant ≠ none → l < maxLocks) :
    GenuineFrom c.mem true ((c.sendGrant out l accesses).sent.map (·.2)) := by
  rw [sendGrant]
  split
  · exact .nil _ _
  · rename_i node hgrant
    have hl : l < maxLocks := hout (by simp [hgrant])
    exact c.genuineFrom_tcpSend node (c.genuine_message node (.lock (t := .lockGrant) (by simp) hl))

theorem lt_of_requestGrant {locks : LockTable} {node : NodeId} {l : LockId}
    (h : (syncHandleLockRequest locks node l).grant ≠ none) : l < maxLocks := by
  by_contra hl
  rw [syncHandleLockRequest, if_pos (Nat.not_lt.mp hl)] at h
  exact h rfl

theorem lt_of_releaseGrant {locks : LockTable} {node : NodeId} {l : LockId}
    (h : (syncHandleLockRelease locks node l).grant ≠ none) : l < maxLocks := by
  by_contra hl
  rw [syncHandleLockRelease, if_pos (Nat.not_lt.mp hl)] at h
  exact h rfl

theorem genuineFrom_barrierEnter (c : NodeCtx) (node : NodeId) :
    GenuineFrom c.mem true ((c.barrierEnter node).sent.map (·.2)) := by
  rw [barrierEnter]
  split
  · exact .nil _ _
  · rename_i arrived _
    intro m hm
    obtain ⟨x, hx, rfl⟩ := List.mem_map.mp hm
    obtain ⟨i, -, hi⟩ := List.mem_flatMap.mp hx
    refine c.genuineFrom_tcpSend i (t := .barrierRelease) ?_ _ (List.mem_map_of_mem hi)
    exact ⟨rfl, rfl, rfl, .empty (by simp)⟩

/-- What the dispatcher sends in answer to a message, the two answers to unsent messages apart. -/
theorem genuineFrom_handleMessage (c : NodeCtx) {r : Received} (halloc : r.type ≠ some .allocRequest)
    (hbeat : r.type ≠ some .heartbeat) :
    GenuineFrom c.mem true ((c.handleMessage r).sent.map (·.2)) := by
  rw [handleMessage]
  cases htype : r.type with
  | none => exact .nil _ _
  | some t =>
      cases t with
      | allocRequest => exact absurd htype halloc
      | heartbeat => exact absurd htype hbeat
      | joinResponse | newNode | nodeLeft | pageData | allocResponse | lockGrant =>
          simp only [handleJoinResponse, handleNewNode, handleNodeLeft, handlePageData,
            handleAllocResponse, handleLockGrant]
          split
          · exact .nil _ _
          · exact .nil _ _
      | pageRequest =>
          simp only [handlePageRequest]
          split
          · split
            · exact .nil _ _
            · rename_i payload hdata
              split
              · exact .nil _ _
              · exact c.genuineFrom_tcpSend r.src (c.genuine_message r.src (.pageData (r.field_lt 0 8) hdata))
          · exact .nil _ _
      | lockRequest =>
          simp only [handleLockRequest]
          split
          · exact c.genuineFrom_sendGrant _ lt_of_requestGrant
          · exact .nil _ _
      | lockRelease =>
          simp only [handleLockRelease]
          split
          · exact c.genuineFrom_sendGrant _ lt_of_releaseGrant
          · exact .nil _ _
      | barrierEnter =>
          simp only [handleBarrierEnter]
          split
          · exact c.genuineFrom_barrierEnter _
          · exact .nil _ _
      | nodeTable | barrierRelease | heartbeatAck | shutdown => exact .nil _ _

theorem WorkerSide.tcpSend {c : NodeCtx} (h : c.WorkerSide) (dst : NodeId) (m : Message) :
    c.tcpSend dst m = [] := by
  rw [NodeCtx.tcpSend, h.noSocket.sends, if_neg Bool.false_ne_true]

theorem WorkerSide.tcpBroadcast {c : NodeCtx} (h : c.WorkerSide) (m : Message) :
    c.tcpBroadcast m = [] := by
  rw [NodeCtx.tcpBroadcast, List.filter_eq_nil_iff.mpr, List.map_nil]
  intro node hnode
  rw [h.noSocket node hnode]
  simp

theorem WorkerSide.sent_handleMessage {c : NodeCtx} (h : c.WorkerSide) (r : Received) :
    (c.handleMessage r).sent = [] := by
  have hrole := h.not_isMaster
  rw [handleMessage]
  cases htype : r.type with
  | none => rfl
  | some t =>
      cases t with
      | pageRequest =>
          simp only [handlePageRequest]
          split
          · split
            · rfl
            · split
              · rfl
              · exact h.tcpSend r.src _
          · rfl
      | heartbeat =>
          exact WorkerSide.tcpSend (c := { c with table := nodeTableHeartbeat c.table r.src r.now })
            ⟨h.role, h.noSocket.heartbeat r.src r.now⟩ r.src _
      | joinResponse | newNode | nodeLeft | pageData | allocResponse | lockGrant =>
          simp only [handleJoinResponse, handleNewNode, handleNodeLeft, handlePageData,
            handleAllocResponse, handleLockGrant]
          split
          · rfl
          · rfl
      | allocRequest | lockRequest | lockRelease | barrierEnter =>
          simp [handleAllocRequest, handleLockRequest, handleLockRelease, handleBarrierEnter, hrole,
            keep]
      | nodeTable | barrierRelease | heartbeatAck | shutdown => rfl

/-- All that the master sends. It never asks for a page, since it owns all that it has registered. -/
theorem MasterSide.genuineFrom_sends {c : NodeCtx} (h : c.MasterSide) {a : NodeAction}
    (ha : ∀ r, a = .message r → r.type ≠ some .allocRequest ∧ r.type ≠ some .heartbeat) :
    GenuineFrom c.mem true (c.sends a) := by
  have hmaster := h.isMaster
  cases a with
  | message r => exact c.genuineFrom_handleMessage (ha r rfl).1 (ha r rfl).2
  | fault addr protectOk =>
      rw [sends]
      rcases c.mem.faultCheck_cases addr protectOk with
        ⟨_, heq, -⟩ | ⟨page, -, -, heq⟩ | ⟨page, hpage, hother, -⟩
      · rw [heq]
        exact .nil _ _
      · rw [heq]
        exact .nil _ _
      · obtain ⟨pages, hpages, hfind⟩ := Option.bind_eq_some_iff.mp hpage
        have hown := h.pages pages hpages page (List.mem_of_find?_eq_some hfind)
        exact absurd (hown.trans h.localNodeId.symm) hother
  | lock l =>
      rw [sends, if_pos (.inr hmaster)]
      exact .nil _ _
  | unlock l =>
      rw [sends, if_pos hmaster]
      split
      · exact .nil _ _
      · exact c.genuineFrom_sendGrant _ lt_of_releaseGrant
  | barrier =>
      rw [sends, if_pos hmaster]
      exact c.genuineFrom_barrierEnter _
  | memory | store | giveUp | setFaultHandled | join | disconnect | setLogLevel => exact .nil _ _

theorem WorkerSide.genuineFrom_sends {c : NodeCtx} (h : c.WorkerSide) (a : NodeAction) :
    GenuineFrom c.mem false (c.sends a) := by
  have hworker := h.not_isMaster
  cases a with
  | message r =>
      rw [sends, h.sent_handleMessage r]
      exact .nil _ _
  | fault addr protectOk =>
      rw [sends]
      split
      · exact .nil _ _
      · rename_i page mem heq
        rw [requestPage]
        have hbuilds : MsgType.Builds c.mem .pageRequest _ := .pageRequest page.globalAddr
        have hrequest := NodeCtx.genuine_message { c with mem := mem } (mem.faultOwner page) hbuilds
        split
        · exact .singleton hrequest
        · exact genuineFrom_tcpSend _ _ hrequest
  | lock l =>
      rw [sends, hworker]
      split
      · exact .nil _ _
      · rename_i hl
        rw [or_iff_left Bool.false_ne_true] at hl
        exact .singleton (c.genuine_message _ (.lock (t := .lockRequest) (by simp) (Nat.not_le.mp hl)))
  | unlock l =>
      rw [sends, hworker, if_neg Bool.false_ne_true]
      split
      · exact .nil _ _
      · rename_i hl
        exact .singleton (c.genuine_message _ (.lock (t := .lockRelease) (by simp) (Nat.not_le.mp hl)))
  | barrier =>
      rw [sends, hworker, if_neg Bool.false_ne_true]
      exact .singleton (c.genuine_message _ (.empty (t := .barrierEnter) (by simp)))
  | memory | store | giveUp | setFaultHandled | join | disconnect | setLogLevel => exact .nil _ _

theorem Bounded.genuineFrom_welcome {c : NodeCtx} (h : c.Bounded) (ip : List UInt8)
    (port chunks : Nat) (sockfd : Int) (now : Nat) (mutexOk : Bool) :
    GenuineFrom c.mem true (c.welcome ip port chunks sockfd now mutexOk).2 := by
  have hnodes := length_nodeTableAdd h.nodes ip port chunks .worker sockfd now mutexOk
  simp only [welcome]
  split
  · exact .nil _ _
  · have hbuilds : MsgType.Builds c.mem .joinResponse _ :=
      .joinResponse (nodeTableAdd c.table ip port chunks .worker sockfd now mutexOk).1.toNat
    have hjoin := NodeCtx.genuine_message
      { c with table := (nodeTableAdd c.table ip port chunks .worker sockfd now mutexOk).2 }
      (nodeTableAdd c.table ip port chunks .worker sockfd now mutexOk).1.toNat hbuilds
    split
    · exact .singleton hjoin
    · rename_i buf hbuf
      refine List.forall_mem_cons.mpr ⟨⟨.joinResponse, hjoin, rfl⟩, ?_⟩
      exact genuineFrom_tcpBroadcast _ (genuine_message _ _ (.nodeTable hnodes hbuf))

theorem genuineFrom_goodbye (c : NodeCtx) : GenuineFrom c.mem true c.goodbye :=
  c.genuineFrom_tcpBroadcast (c.genuine_message _ (.empty (t := .shutdown) (by simp)))

/-! ### The sides last -/

theorem WorkerSide.handleMessage {c : NodeCtx} (h : c.WorkerSide) (r : Received) :
    (c.handleMessage r).ctx.table.NoSocket := by
  rw [NodeCtx.handleMessage]
  cases htype : r.type with
  | none => exact h.noSocket
  | some t =>
      cases t with
      | nodeTable => exact h.noSocket.deserialize _ _
      | heartbeat | heartbeatAck => exact h.noSocket.heartbeat _ _
      | shutdown => exact h.noSocket.remove _
      | nodeLeft =>
          simp only [handleNodeLeft]
          split
          · exact h.noSocket.remove _
          · exact h.noSocket
      | pageRequest =>
          simp only [handlePageRequest]
          split
          · split
            · exact h.noSocket
            · split
              · exact h.noSocket
              · exact h.noSocket
          · exact h.noSocket
      | joinResponse | newNode | pageData | allocResponse | lockGrant =>
          simp only [handleJoinResponse, handleNewNode, handlePageData, handleAllocResponse,
            handleLockGrant]
          split
          · exact h.noSocket
          · exact h.noSocket
      | allocRequest | lockRequest | lockRelease | barrierEnter =>
          simp only [handleAllocRequest, handleLockRequest, handleLockRelease, handleBarrierEnter,
            h.not_isMaster, keep, Bool.false_eq_true, false_and, if_false]
          exact h.noSocket
      | barrierRelease => exact h.noSocket

/-- The step lemma of a worker: nobody adds a node to its table with a socket. -/
theorem WorkerSide.step {c c' : NodeCtx} (h : c.WorkerSide) {a : NodeAction}
    (hjoin : a.isJoin = false) (hstep : c.step a = some c') : c'.WorkerSide := by
  refine ⟨(step_role hstep).1.trans h.role, ?_⟩
  cases a with
  | join => cases hjoin
  | message r =>
      rw [NodeCtx.step, Option.ite_none_right_eq_some] at hstep
      cases hstep.2
      exact WorkerSide.handleMessage h r
  | memory a | store addr byte =>
      rw [NodeCtx.step, Option.ite_none_right_eq_some] at hstep
      cases hstep.2
      exact h.noSocket
  | fault addr protectOk =>
      cases hstep
      rw [NodeCtx.fault]
      split
      · exact h.noSocket
      · exact h.noSocket
  | lock l =>
      rw [NodeCtx.step, NodeCtx.lock] at hstep
      split_ifs at hstep <;> cases hstep <;> exact h.noSocket
  | unlock l =>
      cases hstep
      rw [NodeCtx.unlock, h.not_isMaster, if_neg Bool.false_ne_true]
      split
      · exact h.noSocket
      · exact h.noSocket
  | barrier =>
      cases hstep
      rw [barrierCall, h.not_isMaster, if_neg Bool.false_ne_true]
      exact h.noSocket
  | disconnect nodeId =>
      cases hstep
      rw [NodeCtx.disconnect]
      split
      · split
        · exact h.noSocket.updateFirst fun _ _ => rfl
        · exact h.noSocket
      · exact h.noSocket
  | giveUp | setFaultHandled | setLogLevel =>
      cases hstep
      exact h.noSocket

theorem handleMessage_keys (c : NodeCtx) (r : Received) :
    (c.handleMessage r).ctx.mem.ctx.pageTable.keys = c.mem.ctx.pageTable.keys := by
  rw [NodeCtx.handleMessage]
  cases htype : r.type with
  | none => rfl
  | some t =>
      cases t with
      | pageData =>
          simp only [handlePageData]
          split
          · exact (c.mem.same_pageInstall _ _ _ _ _ _).keys
          · rfl
      | pageRequest =>
          simp only [handlePageRequest]
          split
          · split
            · rfl
            · split
              · rfl
              · rfl
          · rfl
      | lockRequest | lockRelease =>
          simp only [handleLockRequest, handleLockRelease, sendGrant]
          split
          · split
            · rfl
            · rfl
          · rfl
      | barrierEnter =>
          simp only [handleBarrierEnter, barrierEnter]
          split
          · split
            · rfl
            · rfl
          · rfl
      | joinResponse | newNode | nodeLeft | allocRequest | allocResponse | lockGrant =>
          simp only [handleJoinResponse, handleNewNode, handleNodeLeft, handleAllocRequest,
            handleAllocResponse, handleLockGrant]
          split
          · rfl
          · rfl
      | nodeTable | barrierRelease | heartbeat | heartbeatAck | shutdown => rfl

/-- The step lemma of the master: no worker assigns it another id, and it registers only its own
pages. -/
theorem MasterSide.step {c c' : NodeCtx} (h : c.MasterSide) {a : NodeAction}
    (ha : ∀ r, a = .message r → r.type ≠ some .joinResponse) (hstep : c.step a = some c') :
    c'.MasterSide := by
  obtain ⟨hrole, hid⟩ := step_role hstep
  have hassigned : a.assignedId c = masterId := by
    cases a with
    | message r =>
        show r.assignedId c = masterId
        rw [Received.assignedId, if_neg fun hjoin => ha r rfl hjoin.1]
        exact h.localNodeId
    | _ => exact h.localNodeId
  refine ⟨hrole.trans h.role, hid.trans hassigned, ?_⟩
  cases a with
  | message r =>
      rw [NodeCtx.step, Option.ite_none_right_eq_some] at hstep
      cases hstep.2
      exact h.pages.of_keys (c.handleMessage_keys r)
  | memory a =>
      rw [NodeCtx.step, Option.ite_none_right_eq_some] at hstep
      cases hstep.2
      exact h.pages.apply h.localNodeId a
  | store addr byte =>
      rw [NodeCtx.step, Option.ite_none_right_eq_some] at hstep
      cases hstep.2
      exact h.pages
  | fault addr protectOk =>
      cases hstep
      have hkeys := h.pages.of_keys (c.mem.same_faultCheck addr protectOk).keys
      rw [NodeCtx.fault]
      split
      · rename_i heq
        rwa [heq] at hkeys
      · rename_i heq
        rwa [heq] at hkeys
  | giveUp addr =>
      cases hstep
      exact h.pages.of_keys
        (c.mem.same_updatePageLocal addr (f := ({ · with state := .invalid })) fun _ => rfl).keys
  | lock l =>
      rw [NodeCtx.step, NodeCtx.lock] at hstep
      split_ifs at hstep <;> cases hstep <;> exact h.pages
  | unlock l =>
      cases hstep
      rw [NodeCtx.unlock, sendGrant]
      split_ifs
      · exact h.pages
      · split
        · exact h.pages
        · exact h.pages
      · exact h.pages
  | barrier =>
      cases hstep
      rw [barrierCall, barrierEnter]
      split
      · split
        · exact h.pages
        · exact h.pages
      · exact h.pages
  | disconnect nodeId =>
      cases hstep
      rw [NodeCtx.disconnect]
      split
      · split
        · exact h.pages
        · exact h.pages
      · exact h.pages
  | setFaultHandled | join | setLogLevel =>
      cases hstep
      exact h.pages

/-! ### The initialisation -/

theorem bounded_fresh (role : Role) (nodeId : NodeId) {table : NodeTable}
    (hnodes : table.length ≤ maxNodes) (seqNum logLevel : Nat) :
    (fresh role nodeId table seqNum logLevel).Bounded :=
  ⟨hnodes, fun _ => Nat.zero_le _, show 0 < maxNodes by decide, nofun⟩

theorem Bounded.memInit {c : NodeCtx} (h : c.Bounded) {chunks addr : Nat}
    (hmapped : (c.initRegion chunks addr).Mapped c.mem.ctx) : (c.memInit chunks addr).Bounded := by
  refine ⟨h.nodes, h.waiters, h.arrived, fun pairs hpairs => ?_⟩
  have htable := (c.mem.ctx.memInit_spec chunks (some addr)).2.2.2.2
  rw [NodeCtx.memInit, PageTable.addrs, htable] at hpairs
  cases hpairs
  exact PageTable.nonNull_newPages (List.forall_mem_nil _) hmapped.2.2.1 _

theorem Bounded.syncInit {c : NodeCtx} (h : c.Bounded) : c.syncInit.Bounded :=
  ⟨h.nodes, fun _ => Nat.zero_le _, show 0 < maxNodes by decide, h.pages⟩

theorem Bounded.welcome {c : NodeCtx} (h : c.Bounded) (ip : List UInt8) (port chunks : Nat)
    (sockfd : Int) (now : Nat) (mutexOk : Bool) :
    (c.welcome ip port chunks sockfd now mutexOk).1.Bounded := by
  have htable := h.setTable (length_nodeTableAdd h.nodes ip port chunks .worker sockfd now mutexOk)
  simp only [NodeCtx.welcome]
  split
  · exact htable
  · split
    · exact ⟨htable.nodes, htable.waiters, htable.arrived, htable.pages⟩
    · exact ⟨htable.nodes, htable.waiters, htable.arrived, htable.pages⟩

theorem MasterSide.memInit {c : NodeCtx} (h : c.MasterSide) (chunks addr : Nat) :
    (c.memInit chunks addr).MasterSide := by
  obtain ⟨hid, hrole, -, -, htable⟩ := c.mem.ctx.memInit_spec chunks (some addr)
  refine ⟨hrole.trans h.role, hid.trans h.localNodeId, fun pages hpages page hpage => ?_⟩
  rw [NodeCtx.memInit, htable] at hpages
  cases hpages
  obtain ⟨i, -, rfl⟩ := List.mem_map.mp hpage
  exact h.localNodeId

theorem MasterSide.welcome {c : NodeCtx} (h : c.MasterSide) (ip : List UInt8) (port chunks : Nat)
    (sockfd : Int) (now : Nat) (mutexOk : Bool) :
    (c.welcome ip port chunks sockfd now mutexOk).1.MasterSide := by
  simp only [NodeCtx.welcome]
  split
  · exact ⟨h.role, h.localNodeId, h.pages⟩
  · split
    · exact ⟨h.role, h.localNodeId, h.pages⟩
    · exact ⟨h.role, h.localNodeId, h.pages⟩

theorem WorkerSide.memInit {c : NodeCtx} (h : c.WorkerSide) (chunks addr : Nat) :
    (c.memInit chunks addr).WorkerSide :=
  ⟨(c.mem.ctx.memInit_spec chunks (some addr)).2.1.trans h.role, h.noSocket⟩

end NodeCtx

end Dsm
