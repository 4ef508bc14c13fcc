import Dsm.Network.TableMessage
import Dsm.Library.Machine

/-!
# Node tables on the workers

A master whose nodes join and leave, and the workers that merge the `NODE_TABLE` messages it sends
after every join. A worker's table holds the ids of all the messages that it has processed, so it has
the ids of the latest one exactly when no earlier message had another id, and as many entries as that
message exactly when the ids of the message are distinct as well (`tables_agree_iff`).

A worker is known by the master's socket to it, and no socket number is used twice. The channels of a
connection are reliable and in order.
-/

namespace Dsm

/-- A message from the master on its way to a worker. -/
inductive SyncMessage where
  | joinResponse (assignedId : NodeId)
  /-- `NODE_TABLE`, with the ids that the master's table had when it was written. -/
  | nodeTable (payload : List UInt8) (ids : List NodeId)
deriving DecidableEq, Repr

structure SyncWorker where
  /-- The address in its `DISCOVER_DSM`. -/
  address : Address
  masterFd : Int
  localNodeId : NodeId
  table : NodeTable
  running : Bool
  toWorker : List SyncMessage
  /-- The `src_node` of every `SHUTDOWN` on its way to the master. -/
  toMaster : List NodeId
  /-- The ids of the `NODE_TABLE` messages that it has processed. -/
  processed : List (List NodeId)

structure SyncState where
  table : NodeTable
  joined : List Int
  worker : Int → SyncWorker

inductive SyncAction where
  /-- The listener has connected to a new node, adds it, answers it and broadcasts the table. -/
  | join (address : Address) (chunks : Nat) (sockfd masterFd : Int) (now : Nat) (mutexOk : Bool)
  /-- `dsm_node_table_remove` on the master, from a message of any node. -/
  | leave (nodeId : NodeId)
  /-- The worker takes the next message of the master. -/
  | deliver (sockfd : Int) (now : Nat)
  /-- `dsm_finalize` on the worker. -/
  | finalize (sockfd : Int)
  /-- The master takes the next message of the worker. -/
  | handle (sockfd : Int)
deriving DecidableEq, Repr

/-- The sockets that `dsm_tcp_broadcast` sends to. -/
def tcpBroadcastFds (table : NodeTable) (localNodeId : NodeId) : List Int :=
  (table.filter fun node => !(node.nodeId == localNodeId || decide (node.tcpFd < 0))).map (·.tcpFd)

def SyncWorker.connected (address : Address) (masterFd : Int) : SyncWorker :=
  { address := address, masterFd := masterFd, localNodeId := 0, table := [], running := true
    toWorker := [], toMaster := [], processed := [] }

/-- `dsm_handle_message` on a worker. -/
def SyncWorker.handle (w : SyncWorker) (now : Nat) : SyncMessage → SyncWorker
  | .joinResponse assignedId => { w with localNodeId := assignedId }
  | .nodeTable payload ids =>
      { w with
        table := (nodeTableDeserialize w.table payload now).2
        processed := w.processed ++ [ids] }

/-- `dsm_finalize`: the threads stop, and `dsm_tcp_shutdown` broadcasts `SHUTDOWN`. -/
def SyncWorker.finalize (w : SyncWorker) : SyncWorker :=
  { w with
    running := false
    toMaster := w.toMaster ++
      ((tcpBroadcastFds w.table w.localNodeId).filter (· == w.masterFd)).map fun _ => w.localNodeId }

namespace SyncState

def setWorker (s : SyncState) (fd : Int) (w : SyncWorker) : SyncState :=
  { s with worker := Function.update s.worker fd w }

def send (s : SyncState) (msg : SyncMessage) (fd : Int) : SyncState :=
  s.setWorker fd { s.worker fd with toWorker := (s.worker fd).toWorker ++ [msg] }

/-- `dsm_node_table_broadcast` -/
def broadcast (s : SyncState) : SyncState :=
  match nodeTableSerialize s.table maxMessageSize with
  | some payload =>
      (tcpBroadcastFds s.table masterId).foldl (·.send (.nodeTable payload s.table.ids)) s
  | none => s

/-- The listener's branch for a node that it has connected to. -/
def join (s : SyncState) (address : Address) (chunks : Nat) (sockfd masterFd : Int) (now : Nat)
    (mutexOk : Bool) : SyncState :=
  let out := nodeTableAdd s.table address.1 address.2 chunks .worker sockfd now mutexOk
  let t : SyncState :=
    { table := out.2
      joined := sockfd :: s.joined
      worker := Function.update s.worker sockfd (.connected address masterFd) }
  if 0 < out.1 then (t.send (.joinResponse out.1.toNat) sockfd).broadcast else t

def step (s : SyncState) : SyncAction → Option SyncState
  | .join address chunks sockfd masterFd now mutexOk =>
      -- the listener reads at most this much of an address
      if address.1.length < maxIpLen ∧ 0 ≤ sockfd ∧ sockfd ∉ s.joined then
        some (s.join address chunks sockfd masterFd now mutexOk)
      else none
  | .leave nodeId => some { s with table := (nodeTableRemove s.table nodeId).2 }
  | .deliver sockfd now =>
      let w := s.worker sockfd
      if w.running then
        match w.toWorker with
        | msg :: rest => some (s.setWorker sockfd ({ w with toWorker := rest }.handle now msg))
        | [] => none
      else none
  | .finalize sockfd =>
      let w := s.worker sockfd
      -- after it has processed its JOIN_RESPONSE
      if w.running ∧ w.localNodeId ≠ 0 then some (s.setWorker sockfd w.finalize) else none
  | .handle sockfd =>
      let w := s.worker sockfd
      match w.toMaster with
      | srcNode :: rest =>
          some { s.setWorker sockfd { w with toMaster := rest } with
            table := (nodeTableRemove s.table srcNode).2 }
      | [] => none

end SyncState

/-- The master adds itself. -/
def syncMachine : Machine SyncState SyncAction where
  start s := ∃ (address : Address) (chunks now : Nat), s =
    { table := (nodeTableAdd [] address.1 address.2 chunks .master (-1) now true).2
      joined := []
      worker := fun _ => { SyncWorker.connected ([], 0) (-1) with running := false } }
  step := SyncState.step

/-! ### The invariant -/

/-- What the master writes: its table at some moment, with its ids. -/
def SyncMessage.Written : SyncMessage → Prop
  | .joinResponse _ => True
  | .nodeTable payload ids => ∃ table : NodeTable, table.length ≤ maxNodes ∧
      (∀ i ∈ table.ids, Assignable i) ∧ ids = table.ids ∧
      nodeTableSerialize table maxMessageSize = some payload

/-- A worker's table has the ids of the messages that it has processed, each of them once. -/
structure SyncWorker.Synced (w : SyncWorker) : Prop where
  written : ∀ msg ∈ w.toWorker, msg.Written
  merged : w.table.Merged
  mem : ∀ i, i ∈ w.table.ids ↔ ∃ ids ∈ w.processed, i ∈ ids

structure SyncInv (s : SyncState) : Prop where
  size : s.table.length ≤ maxNodes
  assignable : ∀ i ∈ s.table.ids, Assignable i
  worker : ∀ fd, (s.worker fd).Synced

theorem SyncWorker.Synced.connected (address : Address) (masterFd : Int) :
    (SyncWorker.connected address masterFd).Synced where
  written := nofun
  merged := ⟨.nil, nofun⟩
  mem i := by simp [SyncWorker.connected, NodeTable.ids]

theorem SyncWorker.Synced.handle {w : SyncWorker} (h : w.Synced) (now : Nat) {msg : SyncMessage}
    (hmsg : msg.Written) : (w.handle now msg).Synced := by
  cases msg with
  | joinResponse assignedId => exact ⟨h.written, h.merged, h.mem⟩
  | nodeTable payload ids =>
      obtain ⟨table, hsize, hassign, rfl, hpayload⟩ := hmsg
      have hids : (table.map Node.info).map (·.nodeId.toNat) = table.ids := by
        rw [List.map_map, NodeTable.ids]
        refine List.map_congr_left fun node hnode => ?_
        have hle := (hassign node.nodeId (List.mem_map_of_mem hnode)).2
        rw [maxNodes] at hle
        exact UInt32.toNat_ofNat_of_lt' (Nat.lt_of_le_of_lt hle (by decide))
      have hinfos : ∀ info ∈ table.map Node.info, Assignable info.nodeId.toNat := fun info hinfo =>
        hassign _ (hids ▸ List.mem_map_of_mem hinfo)
      obtain ⟨hmerged, hiff⟩ := h.merged.merge now _ hinfos
      simp only [SyncWorker.handle, nodeTableDeserialize_serialize w.table hsize hpayload now]
      refine ⟨h.written, hmerged, fun i => ?_⟩
      rw [hiff, hids, h.mem]
      simp [or_and_right, exists_or]

section Steps

variable {s t : SyncState}

theorem SyncState.broadcast_induction {P : SyncState → Prop} (hs : P s)
    (hsend : ∀ payload, nodeTableSerialize s.table maxMessageSize = some payload → ∀ fd u, P u →
      P (u.send (.nodeTable payload s.table.ids) fd)) : P s.broadcast := by
  rw [SyncState.broadcast]
  split
  · rename_i payload hpayload
    suffices hfold : ∀ (fds : List Int) (u : SyncState), P u →
        P (fds.foldl (·.send (.nodeTable payload s.table.ids)) u) from hfold _ s hs
    intro fds
    induction fds with
    | nil => exact fun _ hu => hu
    | cons fd fds ih => exact fun u hu => ih _ (hsend payload hpayload fd u hu)
  · exact hs

theorem SyncInv.setWorker (h : SyncInv s) (fd : Int) {w : SyncWorker} (hw : w.Synced) :
    SyncInv (s.setWorker fd w) := by
  refine ⟨h.size, h.assignable, fun fd' => ?_⟩
  by_cases heq : fd' = fd
  · subst heq
    simpa [SyncState.setWorker] using hw
  · simpa [SyncState.setWorker, heq] using h.worker fd'

theorem SyncInv.send (h : SyncInv s) {msg : SyncMessage} (hmsg : msg.Written) (fd : Int) :
    SyncInv (s.send msg fd) := by
  have hw := h.worker fd
  refine h.setWorker fd ⟨fun msg' hmem => ?_, hw.merged, hw.mem⟩
  rcases List.mem_append.mp hmem with hmem | hmem
  · exact hw.written msg' hmem
  · rw [List.mem_singleton.mp hmem]
    exact hmsg

theorem SyncInv.broadcast (h : SyncInv s) : SyncInv s.broadcast := by
  refine SyncState.broadcast_induction h fun payload hpayload fd u hu => hu.send ?_ fd
  exact ⟨s.table, h.size, h.assignable, rfl, hpayload⟩

/-- A joined node gets the count plus one, or keeps the id that its address has. -/
theorem assignable_nodeTableAdd {table : NodeTable} (hsize : table.length ≤ maxNodes)
    (hids : ∀ i ∈ table.ids, Assignable i) (ip : List UInt8) (port chunks : Nat) (role : Role)
    (sockfd : Int) (now : Nat) (mutexOk : Bool) :
    let table' := (nodeTableAdd table ip port chunks role sockfd now mutexOk).2
    table'.length ≤ maxNodes ∧ ∀ i ∈ NodeTable.ids table', Assignable i := by
  rcases nodeTableAdd_table table ip port chunks role sockfd now mutexOk with
    ⟨pre, node, post, rfl, -, heq⟩ | ⟨-, -, heq⟩ | ⟨-, hroom, -, node, heq, hid, -⟩
  · simp only [heq]
    refine ⟨by simpa using hsize, fun i hi => hids i ?_⟩
    simpa [NodeTable.ids] using hi
  · simp only [heq]
    exact ⟨hsize, hids⟩
  · simp only [heq]
    refine ⟨by simpa using Nat.succ_le_of_lt hroom, fun i hi => ?_⟩
    rw [NodeTable.ids, List.map_append] at hi
    rcases List.mem_append.mp hi with hi | hi
    · exact hids i hi
    · obtain rfl : i = node.nodeId := List.mem_singleton.mp hi
      rw [hid]
      split_ifs
      · exact ⟨le_refl 1, by decide⟩
      · exact ⟨Nat.le_add_left 1 _, hroom⟩

theorem SyncInv.join (h : SyncInv s) (address : Address) (chunks : Nat) (sockfd masterFd : Int)
    (now : Nat) (mutexOk : Bool) : SyncInv (s.join address chunks sockfd masterFd now mutexOk) := by
  obtain ⟨hsize, hassign⟩ := assignable_nodeTableAdd h.size h.assignable address.1 address.2 chunks
    .worker sockfd now mutexOk
  have hnew : SyncInv
      { table := (nodeTableAdd s.table address.1 address.2 chunks .worker sockfd now mutexOk).2
        joined := sockfd :: s.joined
        worker := Function.update s.worker sockfd (.connected address masterFd) } := by
    have hset := h.setWorker sockfd (SyncWorker.Synced.connected address masterFd)
    exact ⟨hsize, hassign, hset.worker⟩
  simp only [SyncState.join]
  split_ifs
  · have hresponse : (SyncMessage.joinResponse
        (nodeTableAdd s.table address.1 address.2 chunks .worker sockfd now mutexOk).1.toNat).Written :=
      trivial
    exact (hnew.send hresponse sockfd).broadcast
  · exact hnew

theorem SyncInv.remove (h : SyncInv s) (nodeId : NodeId) :
    SyncInv { s with table := (nodeTableRemove s.table nodeId).2 } := by
  have hsublist : (nodeTableRemove s.table nodeId).2.Sublist s.table := by
    rw [nodeTableRemove_table]
    exact List.eraseP_sublist
  exact ⟨hsublist.length_le.trans h.size,
    fun i hi => h.assignable i ((hsublist.map _).subset hi), h.worker⟩

theorem SyncInv.start (h : syncMachine.start s) : SyncInv s := by
  obtain ⟨address, chunks, now, rfl⟩ := h
  refine ⟨by simp [nodeTableAdd, maxNodes], fun i hi => ?_, fun fd => ?_⟩
  · have hone : i = 1 := by simpa [nodeTableAdd, maxNodes, NodeTable.ids] using hi
    exact hone ▸ ⟨le_refl 1, by decide⟩
  · have hw := SyncWorker.Synced.connected ([], 0) (-1)
    exact ⟨hw.written, hw.merged, hw.mem⟩

theorem SyncInv.step {a : SyncAction} (h : SyncInv s) (ha : s.step a = some t) : SyncInv t := by
  cases a with
  | join address chunks sockfd masterFd now mutexOk =>
      simp only [SyncState.step, Option.ite_none_right_eq_some, Option.some.injEq] at ha
      obtain ⟨-, rfl⟩ := ha
      exact h.join address chunks sockfd masterFd now mutexOk
  | leave nodeId =>
      obtain rfl := Option.some.inj ha
      exact h.remove nodeId
  | deliver sockfd now =>
      simp only [SyncState.step, Option.ite_none_right_eq_some] at ha
      obtain ⟨-, ha⟩ := ha
      split at ha
      · rename_i msg rest hqueue
        obtain rfl := Option.some.inj ha
        have hw := h.worker sockfd
        have hrest : ({ s.worker sockfd with toWorker := rest } : SyncWorker).Synced :=
          ⟨fun msg' hmem => hw.written msg' (hqueue ▸ List.mem_cons_of_mem _ hmem), hw.merged, hw.mem⟩
        exact h.setWorker sockfd (hrest.handle now (hw.written msg (hqueue ▸ List.mem_cons_self)))
      · cases ha
  | finalize sockfd =>
      simp only [SyncState.step, Option.ite_none_right_eq_some, Option.some.injEq] at ha
      obtain ⟨-, rfl⟩ := ha
      have hw := h.worker sockfd
      exact h.setWorker sockfd ⟨hw.written, hw.merged, hw.mem⟩
  | handle sockfd =>
      simp only [SyncState.step] at ha
      split at ha
      · rename_i srcNode rest hqueue
        obtain rfl := Option.some.inj ha
        have hw := h.worker sockfd
        have hw' : ({ s.worker sockfd with toMaster := rest } : SyncWorker).Synced :=
          ⟨hw.written, hw.merged, hw.mem⟩
        exact (h.setWorker sockfd hw').remove srcNode
      · cases ha

end Steps

theorem syncInv_of_reachable {s : SyncState} (h : syncMachine.Reachable s) : SyncInv s :=
  h.invariant (fun _ hs => .start hs) fun s a t (hinv : SyncInv s) (ha : s.step a = some t) =>
    hinv.step ha

/-- After a worker has processed a message, its table has the ids of that message and as many entries
exactly when every id of the earlier messages is in it and no id is in it twice. -/
theorem tables_agree_iff {s : SyncState} (h : syncMachine.Reachable s) (fd : Int)
    {earlier : List (List NodeId)} {latest : List NodeId}
    (hlatest : (s.worker fd).processed = earlier ++ [latest]) :
    (∀ i, i ∈ (s.worker fd).table.ids ↔ i ∈ latest) ∧ (s.worker fd).table.length = latest.length ↔
      (∀ ids ∈ earlier, ∀ i ∈ ids, i ∈ latest) ∧ latest.Nodup := by
  have hw := (syncInv_of_reachable h).worker fd
  have hmem : ∀ i, i ∈ (s.worker fd).table.ids ↔ (∃ ids ∈ earlier, i ∈ ids) ∨ i ∈ latest := fun i => by
    rw [hw.mem, hlatest]
    simp [or_and_right, exists_or]
  have hlength : (s.worker fd).table.ids.length = (s.worker fd).table.length := List.length_map _
  constructor
  · rintro ⟨hids, hcount⟩
    refine ⟨fun ids hold i hi => (hids i).mp ((hmem i).mpr (.inl ⟨ids, hold, hi⟩)), ?_⟩
    have hsub := List.subperm_of_subset hw.merged.nodup fun i hi => (hids i).mp hi
    have hperm := hsub.perm_of_length_le (by omega)
    exact hperm.nodup_iff.mp hw.merged.nodup
  · rintro ⟨hearlier, hnodup⟩
    have hids : ∀ i, i ∈ (s.worker fd).table.ids ↔ i ∈ latest := by
      intro i
      rw [hmem]
      constructor
      · rintro (⟨ids, hold, hi⟩ | hi)
        · exact hearlier ids hold i hi
        · exact hi
      · exact .inr
    have hperm := (List.perm_ext_iff_of_nodup hw.merged.nodup hnodup).mpr hids
    exact ⟨hids, hlength.symm.trans hperm.length_eq⟩

private def syncStart : SyncState :=
  { table := (nodeTableAdd [] [49, 48] 5000 1 .master (-1) 0 true).2
    joined := []
    worker := fun _ => { SyncWorker.connected ([], 0) (-1) with running := false } }

private theorem syncStart_start : syncMachine.start syncStart := ⟨([49, 48], 5000), 1, 0, rfl⟩

private def joinsSync (port : Nat) (sockfd : Int) : SyncAction :=
  .join ([49, 48], port) 1 sockfd 4 0 true

/-- Two workers join, and the first one processes both messages. -/
theorem tables_agree_iff_two_joins : ∃ t,
    syncMachine.exec syncStart [joinsSync 5001 7, joinsSync 5002 8, .deliver 7 0, .deliver 7 0,
      .deliver 7 0] = some t ∧
    (t.worker 7).processed = [[1, 2], [1, 2, 3]] ∧
    (∀ i, i ∈ (t.worker 7).table.ids ↔ i ∈ [1, 2, 3]) ∧ (t.worker 7).table.length = 3 := by
  have hrun : ∃ t, syncMachine.exec syncStart [joinsSync 5001 7, joinsSync 5002 8, .deliver 7 0,
      .deliver 7 0, .deliver 7 0] = some t ∧ (t.worker 7).processed = [[1, 2]] ++ [[1, 2, 3]] :=
    ⟨_, rfl, rfl⟩
  obtain ⟨t, hexec, hprocessed⟩ := hrun
  have hreachable := (Machine.Reachable.start syncStart_start).exec hexec
  refine ⟨t, hexec, hprocessed, (tables_agree_iff hreachable 7 hprocessed).mpr ⟨?_, by decide⟩⟩
  intro ids hids i hi
  rw [List.mem_singleton.mp hids] at hi
  exact List.mem_append_left [3] hi

/-- Two workers join, the first one leaves, and a third joins and gets the id of the second one: the
second one keeps the entry of the first, and has one entry where the message has two. -/
theorem tables_disagree_after_leave : syncMachine.start syncStart ∧ ∃ t,
    syncMachine.exec syncStart [joinsSync 5001 7, joinsSync 5002 8, .leave 2, joinsSync 5003 9,
      .deliver 8 0, .deliver 8 0, .deliver 8 0] = some t ∧
    (t.worker 8).processed = [[1, 2, 3], [1, 3, 3]] ∧ (t.worker 8).toWorker = [] ∧
    (t.worker 8).table.ids = [1, 2, 3] ∧
    ¬ ((∀ i, i ∈ (t.worker 8).table.ids ↔ i ∈ [1, 3, 3]) ∧ (t.worker 8).table.length = 3) := by
  refine ⟨syncStart_start, _, rfl, rfl, rfl, rfl, fun hagree => ?_⟩
  have htwo := (hagree.1 2).mp (by decide : 2 ∈ [1, 2, 3])
  exact absurd htwo (by decide)

end Dsm
