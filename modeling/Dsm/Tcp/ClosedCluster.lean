import Dsm.Tcp.ClusterSides

/-!
# A cluster that only this program runs in

The dispatcher trusts its messages. In a cluster without other programs it may: every message is one
that the code has built. The traffic has the shape of a star. All that a worker ever sends is a request
over `master_fd`; and the master sends what only a worker expects, so nothing that reaches the master
touches its id, and its locks change by requests and releases alone.
-/

namespace Dsm

/-! ### The cluster -/

variable {ι : Type*} [DecidableEq ι]

/-- The traffic is what the nodes have built, and every node is on its side. -/
structure ClusterInv (master : ι) (s : ClusterState ι) : Prop where
  genuine : ∀ x ∈ s.sent, ∃ mem, ∃ t : MsgType, x.2.Genuine mem t ∧ t.fromMaster = decide (x.1 = master)
  bounded : ∀ i, ∀ c ∈ s.node i, c.Bounded
  masterSide : ∀ c ∈ s.node master, c.MasterSide
  workerSide : ∀ i, i ≠ master → ∀ c ∈ s.node i, c.WorkerSide

/-- What a step can do: one node, which stays on its side, hands over messages that it has built. -/
structure ClusterState.Moves (master : ι) (s : ClusterState ι) (i : ι) (c : Option NodeCtx)
    (messages : List Message) : Prop where
  bounded : ∀ c' ∈ c, c'.Bounded
  masterSide : i = master → ∀ c' ∈ c, c'.MasterSide
  workerSide : i ≠ master → ∀ c' ∈ c, c'.WorkerSide
  messages : messages = [] ∨ ∃ old ∈ s.node i, GenuineFrom old.mem (decide (i = master)) messages

namespace ClusterInv

variable {master : ι} {s : ClusterState ι} (h : ClusterInv master s)
include h

/-- A node does something that is none of the master's and none of the workers' business. -/
theorem moves_silent {i : ι} {c c' : NodeCtx} (hc : s.node i = some c) (hbounded : c'.Bounded)
    (hmaster : c.MasterSide → c'.MasterSide) (hworker : c.WorkerSide → c'.WorkerSide) :
    s.Moves master i (some c') [] := by
  refine ⟨fun _ hc' => ?_, fun hi _ hc' => ?_, fun hi _ hc' => ?_, .inl rfl⟩
  · cases hc'
    exact hbounded
  · cases hc'
    exact hmaster (h.masterSide c (hi ▸ hc))
  · cases hc'
    exact hworker (h.workerSide i hi c hc)

theorem moves_act {i : ι} {c c' : NodeCtx} {a : NodeAction} (hc : s.node i = some c)
    (hstep : c.step a = some c') (hjoin : i ≠ master → a.isJoin = false)
    (hmessage : ∀ r, a = .message r →
      ∃ t : MsgType, r.type = some t ∧ t ∉ [.allocRequest, .heartbeat] ∧
        (i = master → t ≠ .joinResponse)) :
    s.Moves master i (some c') (c.sends a) := by
  refine ⟨fun _ hc' => ?_, fun hi _ hc' => ?_, fun hi _ hc' => ?_, .inr ⟨c, hc, ?_⟩⟩
  · cases hc'
    exact (h.bounded i c hc).step hstep
  · cases hc'
    refine (h.masterSide c (hi ▸ hc)).step (fun r hr => ?_) hstep
    obtain ⟨t, ht, -, hother⟩ := hmessage r hr
    rw [ht]
    exact fun heq => hother hi (Option.some.inj heq)
  · cases hc'
    exact (h.workerSide i hi c hc).step (hjoin hi) hstep
  · by_cases hi : i = master
    · rw [decide_eq_true hi]
      refine (h.masterSide c (hi ▸ hc)).genuineFrom_sends fun r hr => ?_
      obtain ⟨t, ht, hsent, -⟩ := hmessage r hr
      rw [ht]
      simp only [List.mem_cons, List.not_mem_nil, or_false, not_or] at hsent
      exact ⟨fun heq => hsent.1 (Option.some.inj heq), fun heq => hsent.2 (Option.some.inj heq)⟩
    · rw [decide_eq_false hi]
      exact (h.workerSide i hi c hc).genuineFrom_sends a

theorem moves {a : ClusterAction ι} {t : ClusterState ι} (hstep : s.step master a = some t) :
    ∃ i c messages, t = s.put i c messages ∧ s.Moves master i c messages := by
  cases a with
  | start i nodeId table seqNum logLevel =>
      rw [ClusterState.step, Option.ite_none_right_eq_some] at hstep
      obtain ⟨⟨-, hnodes, hfds, hid⟩, hstep⟩ := hstep
      cases hstep
      refine ⟨i, _, _, rfl, fun _ hc' => ?_, fun hi _ hc' => ?_, fun hi _ hc' => ?_, .inl rfl⟩
      · cases hc'
        exact NodeCtx.bounded_fresh _ nodeId hnodes seqNum logLevel
      · cases hc'
        rw [if_pos hi]
        exact ⟨rfl, hid hi, nofun⟩
      · cases hc'
        rw [if_neg hi]
        exact ⟨rfl, hfds⟩
  | memInit i chunks addr =>
      obtain ⟨c, hc, hstep⟩ := Option.bind_eq_some_iff.mp hstep
      rw [Option.ite_none_right_eq_some] at hstep
      obtain ⟨hmapped, hstep⟩ := hstep
      cases hstep
      exact ⟨i, _, _, rfl, h.moves_silent hc ((h.bounded i c hc).memInit hmapped)
        (·.memInit chunks addr) (·.memInit chunks addr)⟩
  | syncInit i =>
      obtain ⟨c, hc, rfl⟩ := Option.map_eq_some_iff.mp hstep
      exact ⟨i, _, _, rfl, h.moves_silent hc (h.bounded i c hc).syncInit
        (fun hm => ⟨hm.role, hm.localNodeId, hm.pages⟩) fun hw => ⟨hw.role, hw.noSocket⟩⟩
  | call i a =>
      obtain ⟨c, hc, hstep⟩ := Option.bind_eq_some_iff.mp hstep
      rw [Option.ite_none_left_eq_some, not_or, not_and] at hstep
      obtain ⟨⟨hmessage, hjoin⟩, hstep⟩ := hstep
      obtain ⟨c', hc', rfl⟩ := Option.map_eq_some_iff.mp hstep
      refine ⟨i, _, _, rfl, h.moves_act hc hc' (fun hi => ?_) fun r hr => ?_⟩
      · exact Bool.eq_false_iff.mpr fun hadd => hjoin hadd hi
      · rw [hr] at hmessage
        exact absurd rfl hmessage
  | welcome i ip port chunks sockfd now mutexOk =>
      obtain ⟨c, hc, hstep⟩ := Option.bind_eq_some_iff.mp hstep
      rw [Option.ite_none_right_eq_some] at hstep
      obtain ⟨⟨hrole, -⟩, hstep⟩ := hstep
      cases hstep
      have hi : i = master := by
        by_contra hi
        rw [(h.workerSide i hi c hc).not_isMaster] at hrole
        cases hrole
      refine ⟨i, _, _, rfl, fun _ hc' => ?_, fun hi _ hc' => ?_, fun hne _ _ => absurd hi hne,
        .inr ⟨c, hc, ?_⟩⟩
      · cases hc'
        exact (h.bounded i c hc).welcome ip port chunks sockfd now mutexOk
      · cases hc'
        exact (h.masterSide c (hi ▸ hc)).welcome ip port chunks sockfd now mutexOk
      · rw [decide_eq_true hi]
        exact (h.bounded i c hc).genuineFrom_welcome ip port chunks sockfd now mutexOk
  | deliver i j r =>
      obtain ⟨c, hc, hstep⟩ := Option.bind_eq_some_iff.mp hstep
      rw [Option.ite_none_right_eq_some] at hstep
      obtain ⟨⟨hne, hsent⟩, hstep⟩ := hstep
      obtain ⟨c', hc', rfl⟩ := Option.map_eq_some_iff.mp hstep
      refine ⟨i, _, _, rfl, h.moves_act hc hc' (fun _ => rfl) ?_⟩
      rintro _ ⟨⟩
      obtain ⟨mem, t, hgenuine, hfrom⟩ := h.genuine _ hsent
      refine ⟨t, hgenuine.received rfl, fun hbad => ?_, ?_⟩
      · refine hgenuine.builds.notMem_unsent ?_
        simp only [List.mem_cons, List.not_mem_nil, or_false] at hbad
        rcases hbad with rfl | rfl <;> simp
      · rintro rfl rfl
        exact hne (decide_eq_true_iff.mp hfrom.symm).symm
  | finalize i =>
      obtain ⟨c, hc, rfl⟩ := Option.map_eq_some_iff.mp hstep
      refine ⟨i, _, _, rfl, nofun, fun _ => nofun, fun _ => nofun, .inr ⟨c, hc, ?_⟩⟩
      by_cases hi : i = master
      · rw [decide_eq_true hi]
        exact c.genuineFrom_goodbye
      · rw [NodeCtx.goodbye, (h.workerSide i hi c hc).tcpBroadcast]
        exact .nil _ _

theorem put {i : ι} {c : Option NodeCtx} {messages : List Message}
    (hmoves : s.Moves master i c messages) : ClusterInv master (s.put i c messages) where
  genuine x hx := by
    rcases List.mem_append.mp hx with hx | hx
    · exact h.genuine x hx
    · obtain ⟨m, hm, rfl⟩ := List.mem_map.mp hx
      rcases hmoves.messages with rfl | ⟨old, -, hgenuine⟩
      · cases hm
      · exact ⟨old.mem, hgenuine m hm⟩
  bounded j c' hc' := by
    by_cases hj : j = i
    · subst hj
      exact hmoves.bounded c' (by simpa [ClusterState.put] using hc')
    · exact h.bounded j c' (by simpa [ClusterState.put, Function.update_of_ne hj] using hc')
  masterSide c' hc' := by
    by_cases hj : master = i
    · subst hj
      exact hmoves.masterSide rfl c' (by simpa [ClusterState.put] using hc')
    · exact h.masterSide c' (by simpa [ClusterState.put, Function.update_of_ne hj] using hc')
  workerSide j hj c' hc' := by
    by_cases heq : j = i
    · subst heq
      exact hmoves.workerSide hj c' (by simpa [ClusterState.put] using hc')
    · exact h.workerSide j hj c' (by simpa [ClusterState.put, Function.update_of_ne heq] using hc')

theorem sent_grows {a : ClusterAction ι} {t : ClusterState ι} (hstep : s.step master a = some t) :
    s.sent <+: t.sent := by
  obtain ⟨i, c, messages, rfl, -⟩ := h.moves hstep
  exact List.prefix_append _ _

variable {x : ι × Message} (hx : x ∈ s.sent)
include hx

theorem wellFormed : x.2.WellFormed := by
  obtain ⟨mem, t, hgenuine, -⟩ := h.genuine x hx
  exact hgenuine.wellFormed

theorem safe {i : ι} {c : NodeCtx} (hc : s.node i = some c) {r : Received} (hheader : r.header = x.2.header)
    (hpayload : r.payload = x.2.payload) :
    c.SafeOn r ∧ ¬ r.TooShort ∧ ¬ r.BadLockId ∧ (r.type = some .pageData → c.InstallsOnly r) := by
  obtain ⟨mem, t, hgenuine, -⟩ := h.genuine x hx
  refine ⟨((h.bounded i c hc).safeOn_iff r).mpr (hgenuine.ok hheader hpayload c),
    hgenuine.not_tooShort hheader hpayload, hgenuine.not_badLockId hheader hpayload, fun hdata => ?_⟩
  refine hgenuine.installsOnly hheader hpayload c ?_
  exact Option.some.inj ((hgenuine.received hheader).symm.trans hdata)

end ClusterInv

theorem clusterInv_of_reachable {master : ι} {s : ClusterState ι}
    (h : (closedCluster master).Reachable s) : ClusterInv master s := by
  refine h.invariant (fun s hs => ?_) fun s a t hinv hstep => ?_
  · cases hs
    exact ⟨nofun, nofun, nofun, fun _ _ => nofun⟩
  · obtain ⟨i, c, messages, rfl, hmoves⟩ := hinv.moves hstep
    exact hinv.put hmoves

/-- A message as its receiver reads it. -/
def Message.received (m : Message) (h : m.payload.length = m.header.payloadLen.toNat) : Received :=
  { header := m.header, payload := m.payload, length := h
    beyond := fun _ => 0, now := 0, bufOk := true, writeOk := true, readOk := true }

/-- The first message of node 2, a request for lock 0. -/
def requestOf2 : Message :=
  NodeCtx.message (.fresh .worker 2 [] 0 1) .lockRequest NodeCtx.masterIdField (Bytes.le 0 4)

/-- The third message of the master, the grant of lock 0. -/
def grantTo2 : Message :=
  { header := { magic := magic, type := MsgType.lockGrant.code, srcNode := 1, dstNode := 2, seqNum := 2
                payloadLen := 4 }
    payload := Bytes.le 0 4 }

/-- A master takes in a worker, and the worker asks for lock 0. -/
def joinAndLock : List (ClusterAction Bool) :=
  [.start true masterId [] 0 1, .call true (.join [49] 5000 1 .master (-1) 0 true),
    .start false 2 [] 0 1, .welcome true [50] 5001 1 7 0 true, .call false (.lock 0),
    .deliver true false (requestOf2.received (by decide))]

theorem reachable_joinAndLock : ∃ s, (closedCluster true).Reachable s ∧ (true, grantTo2) ∈ s.sent ∧
    (false, requestOf2) ∈ s.sent ∧ (s.node true).isSome = true ∧ (s.node false).isSome = true := by
  have hrun : ((closedCluster true).exec { node := fun _ => none, sent := [] } joinAndLock).any
      (fun s => decide ((true, grantTo2) ∈ s.sent) && decide ((false, requestOf2) ∈ s.sent) &&
        (s.node true).isSome && (s.node false).isSome) = true := by decide +kernel
  obtain ⟨s, hexec, hs⟩ := (Option.any_eq_true ..).mp hrun
  simp only [Bool.and_eq_true, decide_eq_true_eq] at hs
  exact ⟨s, (Machine.Reachable.start rfl).exec hexec, hs.1.1.1, hs.1.1.2, hs.1.2, hs.2⟩

/-- In a closed cluster, in every run, the traffic is a star: workers send four kinds of requests, and
the master six kinds of messages; no worker reaches any node through its table, so that it answers
nobody, asks no other worker for a page and says goodbye to no one. -/
theorem closed_cluster_star {master : ι} {s : ClusterState ι} (h : (closedCluster master).Reachable s) :
    (∀ x ∈ s.sent, ∃ t : MsgType, MsgType.ofCode x.2.header.type = some t ∧
      t ∈ if x.1 = master then
          [.joinResponse, .nodeTable, .pageData, .lockGrant, .barrierRelease, .shutdown]
        else [.pageRequest, .lockRequest, .lockRelease, .barrierEnter]) ∧
      ∀ i, i ≠ master → ∀ c ∈ s.node i, ∀ dst, c.table.sends dst true = false := by
  have hinv := clusterInv_of_reachable h
  refine ⟨fun x hx => ?_, fun i hi c hc dst => (hinv.workerSide i hi c hc).noSocket.sends dst true⟩
  obtain ⟨mem, t, hgenuine, hfrom⟩ := hinv.genuine x hx
  refine ⟨t, by rw [hgenuine.type, MsgType.ofCode_code], ?_⟩
  have hunsent := hgenuine.builds.notMem_unsent
  split_ifs with hmaster
  · rw [decide_eq_true hmaster] at hfrom
    cases t <;> simp [MsgType.fromMaster] at hfrom hunsent ⊢
  · rw [decide_eq_false hmaster] at hfrom
    cases t <;> simp [MsgType.fromMaster] at hfrom hunsent ⊢

theorem closed_cluster_star_grant : ∃ s, (closedCluster true).Reachable s ∧
    ∃ c ∈ s.node false, c.table.sends masterId true = false := by
  obtain ⟨s, hreach, -, -, -, hworker⟩ := reachable_joinAndLock
  obtain ⟨c, hc⟩ := Option.isSome_iff_exists.mp hworker
  exact ⟨s, hreach, c, hc, (closed_cluster_star hreach).2 false (by decide) c hc masterId⟩

/-- In a closed cluster, in every run, the master is the master: it has id 1, and a message of another
node changes neither its id nor a lock, other than as the handlers of requests and releases say. -/
theorem closed_cluster_roles {master : ι} {s : ClusterState ι}
    (h : (closedCluster master).Reachable s) {c : NodeCtx} (hc : s.node master = some c) :
    c.isMaster = true ∧ c.localNodeId = masterId ∧
      ∀ x ∈ s.sent, x.1 ≠ master → ∀ r : Received, r.header = x.2.header →
        c.RolesSeparate r := by
  have hinv := clusterInv_of_reachable h
  have hside := hinv.masterSide c hc
  refine ⟨hside.isMaster, hside.localNodeId, fun x hx hother r hheader => ?_⟩
  obtain ⟨mem, t, hgenuine, hfrom⟩ := hinv.genuine x hx
  have htype := hgenuine.received hheader
  rw [decide_eq_false hother] at hfrom
  have hjoin : r.type ≠ some .joinResponse := by
    rw [htype]
    rintro ⟨⟩
    cases hfrom
  have hgrant : r.type ≠ some .lockGrant := by
    rw [htype]
    rintro ⟨⟩
    cases hfrom
  constructor
  · rw [NodeCtx.handleMessage_localNodeId, Received.assignedId, if_neg fun hand => hjoin hand.1]
    exact hside.localNodeId
  · rw [NodeCtx.handleMessage_locks r hside.isMaster, if_neg fun hand => hgrant hand.1]

theorem closed_cluster_roles_request : ∃ s, (closedCluster true).Reachable s ∧ ∃ c ∈ s.node true,
    c.RolesSeparate (requestOf2.received (by decide)) := by
  obtain ⟨s, hreach, -, hrequest, hmaster, -⟩ := reachable_joinAndLock
  obtain ⟨c, hc⟩ := Option.isSome_iff_exists.mp hmaster
  exact ⟨s, hreach, c, hc, (closed_cluster_roles hreach hc).2.2 _ hrequest (by decide) _ rfl⟩

end Dsm
