import Dsm.Network.TableSync

/-!
# Workers that leave

`dsm_finalize` on a worker tells the others with `dsm_tcp_broadcast`, which sends over the sockets in
the node table. A worker's table comes from `NODE_TABLE` messages alone, whose entries carry no
socket, and the connection to the master is in `master_fd` and not in the table. So no `SHUTDOWN` is
ever sent, and the master keeps the entry of every worker that has left (`departure_unseen`).
-/

namespace Dsm

/-- The nodes all run this program, which sends no `NODE_LEFT`: an entry leaves the master's table only
for a `SHUTDOWN` that a worker has sent. -/
def departureMachine : Machine SyncState SyncAction where
  start := syncMachine.start
  step s
    | .leave _ => none
    | a => s.step a

/-! ### What the calls leave of the entries -/

/-- An entry with this id for the node at this address. -/
def NodeTable.Lists (table : NodeTable) (nodeId : NodeId) (address : Address) : Prop :=
  ∃ node ∈ table, node.nodeId = nodeId ∧ node.address = address

theorem NodeTable.Lists.add {table : NodeTable} {nodeId : NodeId} {address : Address}
    (h : table.Lists nodeId address) (ip : List UInt8) (port chunks : Nat) (role : Role)
    (sockfd : Int) (now : Nat) (mutexOk : Bool) :
    NodeTable.Lists (nodeTableAdd table ip port chunks role sockfd now mutexOk).2 nodeId address := by
  obtain ⟨node, hnode, hid, haddress⟩ := h
  rcases nodeTableAdd_table table ip port chunks role sockfd now mutexOk with
    ⟨pre, old, post, rfl, -, heq⟩ | ⟨-, -, heq⟩ | ⟨-, -, -, new, heq, -⟩
  · rw [heq]
    rcases List.mem_append.mp hnode with hpre | hnode
    · exact ⟨node, List.mem_append_left _ hpre, hid, haddress⟩
    · rcases List.mem_cons.mp hnode with rfl | hpost
      · exact ⟨_, List.mem_append_right _ List.mem_cons_self, hid, haddress⟩
      · exact ⟨node, List.mem_append_right _ (List.mem_cons_of_mem _ hpost), hid, haddress⟩
  · rw [heq]
    exact ⟨node, hnode, hid, haddress⟩
  · rw [heq]
    exact ⟨node, List.mem_append_left _ hnode, hid, haddress⟩

theorem NodeTable.lists_of_add {table : NodeTable} {ip : List UInt8} (hip : ip.length < maxIpLen)
    (port chunks : Nat) (role : Role) (sockfd : Int) (now : Nat) (mutexOk : Bool)
    (hret : 0 < (nodeTableAdd table ip port chunks role sockfd now mutexOk).1) :
    NodeTable.Lists (nodeTableAdd table ip port chunks role sockfd now mutexOk).2
      (nodeTableAdd table ip port chunks role sockfd now mutexOk).1.toNat (ip, port) := by
  cases hfind : table.find? (·.isAt ip port) with
  | some found =>
      obtain ⟨pre, post, -, hupdate⟩ := List.updateFirst_of_find?
        (fun node : Node => { node with tcpFd := sockfd, state := .connected, lastHeartbeat := now })
        hfind
      have haddress : found.address = (ip, port) := by
        simpa [Node.isAt, Node.address] using List.find?_some hfind
      simp only [nodeTableAdd, hfind, hupdate, Option.getD_some]
      exact ⟨_, List.mem_append_right _ List.mem_cons_self, rfl, haddress⟩
  | none =>
      by_cases hfull : maxNodes ≤ table.length
      · simp [nodeTableAdd, hfind, hfull] at hret
      · cases mutexOk with
        | false => simp [nodeTableAdd, hfind, hfull] at hret
        | true =>
            simp only [nodeTableAdd, hfind, if_neg hfull, Bool.not_true, Bool.false_eq_true, if_false]
            refine ⟨_, List.mem_append_right _ (List.mem_singleton_self _), rfl, ?_⟩
            rw [Node.address, List.take_of_length_le (by rw [maxIpLen] at hip ⊢; omega)]

/-- No entry has a socket. -/
def NodeTable.Unconnected (table : NodeTable) : Prop := ∀ node ∈ table, node.tcpFd < 0

theorem NodeTable.Unconnected.merge {table : NodeTable} (h : table.Unconnected) (now : Nat)
    (info : NodeInfo) : (nodeTableMerge now table info).Unconnected := by
  simp only [nodeTableMerge]
  split
  · rename_i table' hupdate
    intro node hnode
    rcases List.mem_of_mem_updateFirst hupdate hnode with hold | ⟨old, hold, rfl⟩
    · exact h node hold
    · exact h old hold
  · split_ifs
    · intro node hnode
      rcases List.mem_append.mp hnode with hold | hnew
      · exact h node hold
      · rw [List.mem_singleton.mp hnew]
        exact (by decide : (-1 : Int) < 0)
    · exact h

theorem NodeTable.Unconnected.deserialize {table : NodeTable} (h : table.Unconnected)
    (buf : List UInt8) (now : Nat) : (nodeTableDeserialize table buf now).2.Unconnected := by
  have hfold : ∀ (infos : List NodeInfo) (table : NodeTable), table.Unconnected →
      NodeTable.Unconnected (infos.foldl (nodeTableMerge now) table) := by
    intro infos
    induction infos with
    | nil => exact fun _ htable => htable
    | cons info infos ih => exact fun table htable => ih _ (htable.merge now info)
  simp only [nodeTableDeserialize]
  split_ifs
  · exact h
  · exact h
  · exact hfold _ table h

theorem NodeTable.Unconnected.tcpBroadcastFds {table : NodeTable} (h : table.Unconnected)
    (localNodeId : NodeId) : tcpBroadcastFds table localNodeId = [] := by
  simp only [Dsm.tcpBroadcastFds, List.map_eq_nil_iff, List.filter_eq_nil_iff]
  intro node hnode
  simp [h node hnode]

/-! ### The invariant -/

/-- The worker's entry is in the master's table under the id that it was told, and it has sent
nothing to the master. -/
structure SyncWorker.Listed (table : NodeTable) (w : SyncWorker) : Prop where
  unconnected : w.table.Unconnected
  quiet : w.toMaster = []
  told : w.localNodeId ≠ 0 → table.Lists w.localNodeId w.address
  telling : ∀ i, SyncMessage.joinResponse i ∈ w.toWorker → table.Lists i w.address

def DepartureInv (s : SyncState) : Prop := ∀ fd, (s.worker fd).Listed s.table

section Steps

variable {s t : SyncState}

theorem DepartureInv.setWorker (h : DepartureInv s) (fd : Int) {w : SyncWorker}
    (hw : w.Listed s.table) : DepartureInv (s.setWorker fd w) := by
  intro fd'
  by_cases heq : fd' = fd
  · subst heq
    simpa [SyncState.setWorker] using hw
  · simpa [SyncState.setWorker, heq] using h fd'

theorem DepartureInv.send (h : DepartureInv s) {msg : SyncMessage} {fd : Int}
    (hmsg : ∀ i, msg = .joinResponse i → s.table.Lists i (s.worker fd).address) :
    DepartureInv (s.send msg fd) := by
  refine h.setWorker fd ⟨(h fd).unconnected, (h fd).quiet, (h fd).told, fun i hi => ?_⟩
  rcases List.mem_append.mp hi with hi | hi
  · exact (h fd).telling i hi
  · exact hmsg i (List.mem_singleton.mp hi).symm

theorem DepartureInv.broadcast (h : DepartureInv s) : DepartureInv s.broadcast :=
  SyncState.broadcast_induction h fun _ _ _ _ hu => hu.send fun _ hmsg => by cases hmsg

theorem SyncWorker.Listed.handle {table : NodeTable} {w : SyncWorker} {msg : SyncMessage}
    {rest : List SyncMessage} (h : w.Listed table) (hqueue : w.toWorker = msg :: rest) (now : Nat) :
    (({ w with toWorker := rest } : SyncWorker).handle now msg).Listed table := by
  have hrest : ∀ i, SyncMessage.joinResponse i ∈ rest → table.Lists i w.address := fun i hi =>
    h.telling i (hqueue ▸ List.mem_cons_of_mem _ hi)
  cases msg with
  | joinResponse assignedId =>
      exact ⟨h.unconnected, h.quiet, fun _ => h.telling assignedId (hqueue ▸ List.mem_cons_self), hrest⟩
  | nodeTable payload ids =>
      exact ⟨h.unconnected.deserialize payload now, h.quiet, h.told, hrest⟩

theorem SyncWorker.Listed.finalize {table : NodeTable} {w : SyncWorker} (h : w.Listed table) :
    w.finalize.Listed table := by
  refine ⟨h.unconnected, ?_, h.told, h.telling⟩
  simp only [SyncWorker.finalize, h.unconnected.tcpBroadcastFds, h.quiet]
  rfl

theorem DepartureInv.join (h : DepartureInv s) {address : Address}
    (hip : address.1.length < maxIpLen) (chunks : Nat) (sockfd masterFd : Int) (now : Nat)
    (mutexOk : Bool) :
    DepartureInv (s.join address chunks sockfd masterFd now mutexOk) := by
  have hgrown : ∀ fd, (s.worker fd).Listed
      (nodeTableAdd s.table address.1 address.2 chunks .worker sockfd now mutexOk).2 := fun fd =>
    ⟨(h fd).unconnected, (h fd).quiet,
      fun hne => ((h fd).told hne).add address.1 address.2 chunks .worker sockfd now mutexOk,
      fun i hi => ((h fd).telling i hi).add address.1 address.2 chunks .worker sockfd now mutexOk⟩
  have hnew : DepartureInv
      { table := (nodeTableAdd s.table address.1 address.2 chunks .worker sockfd now mutexOk).2
        joined := sockfd :: s.joined
        worker := Function.update s.worker sockfd (.connected address masterFd) } := by
    intro fd
    by_cases heq : fd = sockfd
    · subst heq
      simp only [Function.update_self]
      exact ⟨nofun, rfl, fun hne => (hne rfl).elim, nofun⟩
    · simp only [Function.update_of_ne heq]
      exact hgrown fd
  simp only [SyncState.join]
  split_ifs with hret
  · refine (hnew.send fun i hi => ?_).broadcast
    obtain rfl := SyncMessage.joinResponse.inj hi
    simp only [Function.update_self]
    exact NodeTable.lists_of_add hip address.2 chunks .worker sockfd now mutexOk hret
  · exact hnew

theorem DepartureInv.start (h : departureMachine.start s) : DepartureInv s := by
  obtain ⟨address, chunks, now, rfl⟩ := h
  exact fun _ => ⟨nofun, rfl, fun hne => (hne rfl).elim, nofun⟩

theorem DepartureInv.step {a : SyncAction} (h : DepartureInv s)
    (ha : departureMachine.step s a = some t) : DepartureInv t := by
  cases a with
  | join address chunks sockfd masterFd now mutexOk =>
      simp only [departureMachine, SyncState.step, Option.ite_none_right_eq_some,
        Option.some.injEq] at ha
      obtain ⟨⟨hip, -⟩, rfl⟩ := ha
      exact h.join hip chunks sockfd masterFd now mutexOk
  | leave nodeId => cases ha
  | deliver sockfd now =>
      simp only [departureMachine, SyncState.step, Option.ite_none_right_eq_some] at ha
      obtain ⟨-, ha⟩ := ha
      split at ha
      · rename_i msg rest hqueue
        obtain rfl := Option.some.inj ha
        exact h.setWorker sockfd ((h sockfd).handle hqueue now)
      · cases ha
  | finalize sockfd =>
      simp only [departureMachine, SyncState.step, Option.ite_none_right_eq_some,
        Option.some.injEq] at ha
      obtain ⟨-, rfl⟩ := ha
      exact h.setWorker sockfd (h sockfd).finalize
  | handle sockfd =>
      simp only [departureMachine, SyncState.step, (h sockfd).quiet] at ha
      cases ha

end Steps

/-- The worker knew its id, has run `dsm_finalize`, and the master has handled all that it sent. -/
def SyncState.Departed (s : SyncState) (fd : Int) : Prop :=
  (s.worker fd).localNodeId ≠ 0 ∧ (s.worker fd).running = false ∧ (s.worker fd).toMaster = []

/-- Whatever has happened before, the master's table has the entry of every worker that has left. -/
theorem departure_unseen {s : SyncState} (h : departureMachine.Reachable s) {fd : Int}
    (hleft : s.Departed fd) : s.table.Lists (s.worker fd).localNodeId (s.worker fd).address := by
  have hinv : DepartureInv s := h.invariant (fun _ hs => .start hs) fun _ _ _ hinv ha => hinv.step ha
  exact (hinv fd).told hleft.1

private def departureStart : SyncState :=
  { table := (nodeTableAdd [] [49, 48] 5000 1 .master (-1) 0 true).2
    joined := []
    worker := fun _ => { SyncWorker.connected ([], 0) (-1) with running := false } }

private theorem departureStart_start : departureMachine.start departureStart :=
  ⟨([49, 48], 5000), 1, 0, rfl⟩

/-- A worker joins, processes both messages, and leaves. -/
private def joinsAndLeaves : List SyncAction :=
  [.join ([49, 48], 5001) 1 7 4 0 true, .deliver 7 0, .deliver 7 0, .finalize 7]

theorem departure_unseen_one_worker : ∃ t,
    departureMachine.exec departureStart joinsAndLeaves = some t ∧ t.Departed 7 ∧
      t.table.Lists 2 ([49, 48], 5001) := by
  have hrun : ∃ t, departureMachine.exec departureStart joinsAndLeaves = some t ∧ t.Departed 7 ∧
      (t.worker 7).localNodeId = 2 ∧ (t.worker 7).address = ([49, 48], 5001) :=
    ⟨_, rfl, ⟨by decide, rfl, rfl⟩, rfl, rfl⟩
  obtain ⟨t, hexec, hleft, hid, haddress⟩ := hrun
  have hlists := departure_unseen ((Machine.Reachable.start departureStart_start).exec hexec) hleft
  exact ⟨t, hexec, hleft, hid ▸ haddress ▸ hlists⟩

/-- After the worker has left the table still has two entries. -/
theorem not_departure_seen : departureMachine.start departureStart ∧ ∃ t,
    departureMachine.exec departureStart joinsAndLeaves = some t ∧ t.Departed 7 ∧
      (t.worker 7).localNodeId = 2 ∧ t.table.ids = [1, 2] :=
  ⟨departureStart_start, _, rfl, ⟨by decide, rfl, rfl⟩, rfl, rfl⟩

end Dsm
