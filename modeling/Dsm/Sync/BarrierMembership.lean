import Dsm.Sync.BarrierMachine
import Dsm.Network.NodeTable
import Mathlib.Data.List.Perm.Subperm

/-!
# Barriers while nodes join and leave

The handler of `BARRIER_ENTER` compares the number of arrivals with the number of entries that the
node table has at that moment, and a departure touches neither the arrivals nor the comparison. The
decisions match the membership as long as only nodes of the table enter, and as long as no node leaves
while a generation is open that has entered already or was the last one missing
(`decisionsMatch_of_ok`).

A node is known by its id and its address, since ids are assigned again.
-/

namespace Dsm

abbrev NodeKey := NodeId × Address

structure BarrierNodeState where
  table : NodeTable
  barrier : Barrier
  /-- The thread in the release loop of the handler, and the nodes it has still to visit. -/
  releasing : Option (BarrierThread × List NodeId)
  /-- The nodes to which a `BARRIER_RELEASE` has been sent. -/
  sent : List NodeId
  /-- The nodes that have entered since the last release. -/
  entered : List NodeKey
  /-- For every release, the nodes of the table and the nodes that had entered. -/
  releases : List (List NodeKey × List NodeKey)

inductive BarrierNodeAction where
  /-- `dsm_sync_handle_barrier_enter`, from a message of this node or from the master's own call. -/
  | enter (thread : BarrierThread) (key : NodeKey)
  /-- The thread in the release loop visits the next node. -/
  | visit (sockOk : Bool)
  | reset
  | add (ip : List UInt8) (port chunks : Nat) (sockfd : Int) (now : Nat) (mutexOk : Bool)
  /-- `SHUTDOWN` or `NODE_LEFT`. -/
  | remove (nodeId : NodeId)
deriving DecidableEq, Repr

def NodeTable.keys (table : NodeTable) : List NodeKey := table.map Node.key

namespace BarrierNodeState

/-- `dsm_sync_handle_barrier_enter` up to its release loop. -/
def arrive (s : BarrierNodeState) (thread : BarrierThread) (key : NodeKey) : BarrierNodeState :=
  let arrived := s.barrier.arrived ++ [key.1]
  let entered := s.entered ++ [key]
  { s with
    barrier := { s.barrier with arrived := arrived }
    entered := entered
    releasing := if s.table.length ≤ arrived.length then some (thread, arrived) else none
    releases :=
      if s.table.length ≤ arrived.length then s.releases ++ [(s.table.keys, entered)]
      else s.releases }

def step (s : BarrierNodeState) : BarrierNodeAction → Option BarrierNodeState
  | .enter thread key =>
      -- the mutex is free, and a node enters once in a generation
      if s.releasing = none ∧ key ∉ s.entered then some (s.arrive thread key) else none
  | .visit sockOk =>
      match s.releasing with
      | some (thread, i :: rest) =>
          some { s with
            releasing := some (thread, rest)
            sent := if i ≠ masterId ∧ s.table.sends i sockOk then s.sent ++ [i] else s.sent }
      | _ => none
  | .reset =>
      match s.releasing with
      | some (_, []) =>
          some { s with
            barrier := { barrierId := (s.barrier.barrierId + 1) % 2 ^ 32, arrived := [] }
            releasing := none
            entered := [] }
      | _ => none
  | .add ip port chunks sockfd now mutexOk =>
      -- the listener reads at most this much of an address
      if ip.length < maxIpLen then
        some { s with table := (nodeTableAdd s.table ip port chunks .worker sockfd now mutexOk).2 }
      else none
  | .remove nodeId =>
      -- the thread that takes the message is not the one in the release loop
      if s.releasing.map Prod.fst ≠ some .tcp then
        some { s with table := (nodeTableRemove s.table nodeId).2 }
      else none

end BarrierNodeState

/-- The master adds itself, and `dsm_sync_init` clears the barrier. -/
def barrierNodeMachine : Machine BarrierNodeState BarrierNodeAction where
  start s := ∃ ip port chunks now, s =
    { table := (nodeTableAdd [] ip port chunks .master (-1) now true).2
      barrier := { barrierId := 0, arrived := [] }
      releasing := none, sent := [], entered := [], releases := [] }
  step := BarrierNodeState.step

def BarrierNodeState.AllEntered (s : BarrierNodeState) : Prop := ∀ key ∈ s.table.keys, key ∈ s.entered

/-- Every release came when all nodes of the table had entered, and one has been decided where they
all have. -/
structure BarrierNodeState.DecisionsMatch (s : BarrierNodeState) : Prop where
  complete : ∀ table entered, (table, entered) ∈ s.releases → ∀ key ∈ table, key ∈ entered
  decided : s.table ≠ [] → s.AllEntered → s.releasing.isSome = true

/-- Only a node of the table enters; a node that leaves during a generation has not entered, and some
other node has not either, unless it was the only one. -/
def BarrierNodeAction.Ok (s : BarrierNodeState) : BarrierNodeAction → Prop
  | .enter _ key => key ∈ s.table.keys
  | .remove nodeId =>
      s.releasing = none → ∀ node, nodeTableGet s.table nodeId = some node →
        node.key ∉ s.entered ∧
          (s.table = [node] ∨ ∃ other ∈ s.table, other ≠ node ∧ other.key ∉ s.entered)
  | _ => True

/-! ### Joins and departures -/

theorem NodeTable.keys_add {table : NodeTable} (hnodup : table.keys.Nodup) {ip : List UInt8}
    (hip : ip.length < maxIpLen) (port chunks : Nat) (role : Role) (sockfd : Int) (now : Nat)
    (mutexOk : Bool) :
    let table' := (nodeTableAdd table ip port chunks role sockfd now mutexOk).2
    table'.keys = table.keys ∨ ∃ key, table'.keys = table.keys ++ [key] ∧ table'.keys.Nodup := by
  rcases nodeTableAdd_table table ip port chunks role sockfd now mutexOk with
    ⟨pre, node, post, rfl, -, heq⟩ | ⟨-, -, heq⟩ | ⟨hfind, -, -, node, heq, -, -, hnodeIp, hport⟩
  · refine .inl ?_
    simp only [heq, NodeTable.keys, List.map_append, List.map_cons]
    rfl
  · exact .inl (by rw [heq])
  · have hkeys : NodeTable.keys (table ++ [node]) = table.keys ++ [node.key] := by
      rw [NodeTable.keys, List.map_append]
      rfl
    refine .inr ⟨node.key, by rw [heq, hkeys], ?_⟩
    rw [heq, hkeys]
    refine List.nodup_append.mpr ⟨hnodup, List.nodup_singleton _, fun key hkey new hnew => ?_⟩
    obtain ⟨old, hold, rfl⟩ := List.mem_map.mp hkey
    rw [List.mem_singleton.mp hnew]
    intro hsame
    refine NodeTable.address_fresh hip hfind (List.mem_map.mpr ⟨old, hold, ?_⟩)
    rw [(Prod.mk.inj hsame).2, Node.address, hnodeIp, hport]

theorem NodeTable.keys_remove_sublist (table : NodeTable) (nodeId : NodeId) :
    ((nodeTableRemove table nodeId).2.keys).Sublist table.keys := by
  rw [nodeTableRemove_table]
  exact List.eraseP_sublist.map _

/-! ### The invariant -/

/-- While no release is under way, the nodes that have entered are some but not all nodes of the
table, each of them once. -/
structure BarrierNodeState.Open (s : BarrierNodeState) : Prop where
  nodup : s.entered.Nodup
  subset : ∀ key ∈ s.entered, key ∈ s.table.keys
  missing : s.table ≠ [] → ∃ key ∈ s.table.keys, key ∉ s.entered
  length : s.barrier.arrived.length = s.entered.length

structure BarrierNodeInv (s : BarrierNodeState) : Prop where
  nodup : s.table.keys.Nodup
  complete : ∀ table entered, (table, entered) ∈ s.releases → ∀ key ∈ table, key ∈ entered
  isOpen : s.releasing = none → s.Open

section Steps

variable {s t : BarrierNodeState}

theorem BarrierNodeInv.decisionsMatch (h : BarrierNodeInv s) : s.DecisionsMatch := by
  refine ⟨h.complete, fun hne hall => ?_⟩
  cases hreleasing : s.releasing with
  | some r => rfl
  | none =>
      obtain ⟨key, hkey, hnot⟩ := (h.isOpen hreleasing).missing hne
      exact (hnot (hall key hkey)).elim

theorem BarrierNodeInv.start (h : barrierNodeMachine.start s) : BarrierNodeInv s := by
  obtain ⟨ip, port, chunks, now, rfl⟩ := h
  have htable : (nodeTableAdd [] ip port chunks .master (-1) now true).2.keys.length = 1 := rfl
  refine ⟨?_, nofun, fun _ => ⟨.nil, nofun, fun _ => ?_, rfl⟩⟩
  · obtain ⟨key, hkey⟩ := List.length_eq_one_iff.mp htable
    rw [hkey]
    exact List.nodup_singleton key
  · obtain ⟨key, hkey⟩ := List.length_eq_one_iff.mp htable
    exact ⟨key, by simp [hkey], nofun⟩

/-- Different nodes that have entered are all there are as soon as there are as many. -/
theorem BarrierNodeInv.arrive (h : BarrierNodeInv s) {thread : BarrierThread} {key : NodeKey}
    (hreleasing : s.releasing = none) (hnew : key ∉ s.entered) (hkey : key ∈ s.table.keys) :
    BarrierNodeInv (s.arrive thread key) := by
  have hopen := h.isOpen hreleasing
  have hnodup : (s.entered ++ [key]).Nodup :=
    List.nodup_append.mpr ⟨hopen.nodup, List.nodup_singleton _, fun old hold new hmem heq => by
      rw [List.mem_singleton.mp hmem] at heq
      exact hnew (heq ▸ hold)⟩
  have hsubset : ∀ k ∈ s.entered ++ [key], k ∈ s.table.keys := by
    intro k hk
    rcases List.mem_append.mp hk with hk | hk
    · exact hopen.subset k hk
    · rw [List.mem_singleton.mp hk]
      exact hkey
  have hlength : (s.barrier.arrived ++ [key.1]).length = (s.entered ++ [key]).length := by
    simp [hopen.length]
  have hkeys : s.table.keys.length = s.table.length := List.length_map _
  refine ⟨h.nodup, fun table entered hmem => ?_, fun hnone => ?_⟩
  · simp only [BarrierNodeState.arrive] at hmem
    split_ifs at hmem with hall
    · rcases List.mem_append.mp hmem with hmem | hmem
      · exact h.complete table entered hmem
      · obtain ⟨rfl, rfl⟩ := Prod.mk.inj (List.mem_singleton.mp hmem)
        have hperm := (List.subperm_of_subset hnodup hsubset).perm_of_length_le (by omega)
        exact fun k hk => hperm.mem_iff.mpr hk
    · exact h.complete table entered hmem
  · simp only [BarrierNodeState.arrive] at hnone
    split_ifs at hnone with hall
    refine ⟨hnodup, hsubset, fun _ => ?_, hlength⟩
    by_contra hmissing
    push Not at hmissing
    have hle := (List.subperm_of_subset h.nodup hmissing).length_le
    simp only [BarrierNodeState.arrive] at hle
    omega

theorem BarrierNodeInv.add (h : BarrierNodeInv s) {ip : List UInt8} (hip : ip.length < maxIpLen)
    (port chunks : Nat) (sockfd : Int) (now : Nat) (mutexOk : Bool) :
    BarrierNodeInv { s with
      table := (nodeTableAdd s.table ip port chunks .worker sockfd now mutexOk).2 } := by
  rcases NodeTable.keys_add h.nodup hip port chunks .worker sockfd now mutexOk with
    heq | ⟨key, heq, hnodup⟩
  · refine ⟨heq ▸ h.nodup, h.complete, fun hnone => ?_⟩
    have hopen := h.isOpen hnone
    refine ⟨hopen.nodup, ?_, fun hne => ?_, hopen.length⟩
    · simpa only [heq] using hopen.subset
    · have hne' : s.table ≠ [] := fun hempty => hne (List.map_eq_nil_iff.mp (by
        rw [← NodeTable.keys, heq, hempty]; rfl))
      simpa only [heq] using hopen.missing hne'
  · refine ⟨hnodup, h.complete, fun hnone => ?_⟩
    have hopen := h.isOpen hnone
    refine ⟨hopen.nodup, fun k hk => ?_, fun _ => ⟨key, ?_, fun hentered => ?_⟩, hopen.length⟩
    · simp only [heq]
      exact List.mem_append_left _ (hopen.subset k hk)
    · simp [heq]
    · rw [heq] at hnodup
      exact (List.nodup_append.mp hnodup).2.2 key (hopen.subset key hentered) key
        (List.mem_singleton_self key) rfl

theorem BarrierNodeInv.remove (h : BarrierNodeInv s) {nodeId : NodeId}
    (hok : BarrierNodeAction.Ok s (.remove nodeId)) :
    BarrierNodeInv { s with table := (nodeTableRemove s.table nodeId).2 } := by
  refine ⟨h.nodup.sublist (s.table.keys_remove_sublist nodeId), h.complete, fun hnone => ?_⟩
  have hopen := h.isOpen hnone
  cases hget : nodeTableGet s.table nodeId with
  | none =>
      rw [nodeTableRemove_of_get_none hget]
      exact ⟨hopen.nodup, hopen.subset, hopen.missing, hopen.length⟩
  | some node =>
      obtain ⟨hnot, hother⟩ := hok hnone node hget
      refine ⟨hopen.nodup, fun key hkey => ?_, fun hne => ?_, hopen.length⟩
      · obtain ⟨old, hold, rfl⟩ := List.mem_map.mp (hopen.subset key hkey)
        refine List.mem_map_of_mem (mem_nodeTableRemove hget hold fun heq => hnot ?_)
        exact heq ▸ hkey
      · rcases hother with honly | ⟨other, hmem, hne', hmissing⟩
        · refine (hne ?_).elim
          obtain ⟨pre, post, htable, hremove⟩ := nodeTableRemove_of_get hget
          dsimp only
          rw [hremove]
          have hlength := congrArg List.length (htable.symm.trans honly)
          simp only [List.length_append, List.length_cons, List.length_nil] at hlength
          exact List.length_eq_zero_iff.mp (by rw [List.length_append]; omega)
        · exact ⟨other.key, List.mem_map_of_mem (mem_nodeTableRemove hget hmem hne'), hmissing⟩

theorem BarrierNodeInv.step {a : BarrierNodeAction} (h : BarrierNodeInv s) (hok : a.Ok s)
    (ha : s.step a = some t) : BarrierNodeInv t := by
  cases a with
  | enter thread key =>
      simp only [BarrierNodeState.step, Option.ite_none_right_eq_some, Option.some.injEq] at ha
      obtain ⟨⟨hreleasing, hnew⟩, rfl⟩ := ha
      exact h.arrive hreleasing hnew hok
  | visit sockOk =>
      simp only [BarrierNodeState.step] at ha
      split at ha
      · obtain rfl := Option.some.inj ha
        exact ⟨h.nodup, h.complete, nofun⟩
      · cases ha
  | reset =>
      simp only [BarrierNodeState.step] at ha
      split at ha
      · obtain rfl := Option.some.inj ha
        refine ⟨h.nodup, h.complete, fun _ => ⟨.nil, nofun, fun hne => ?_, rfl⟩⟩
        obtain ⟨node, hnode⟩ := List.exists_mem_of_ne_nil _ hne
        exact ⟨node.key, List.mem_map_of_mem hnode, nofun⟩
      · cases ha
  | add ip port chunks sockfd now mutexOk =>
      simp only [BarrierNodeState.step, Option.ite_none_right_eq_some, Option.some.injEq] at ha
      obtain ⟨hip, rfl⟩ := ha
      exact h.add hip port chunks sockfd now mutexOk
  | remove nodeId =>
      simp only [BarrierNodeState.step, Option.ite_none_right_eq_some, Option.some.injEq] at ha
      obtain ⟨-, rfl⟩ := ha
      exact h.remove hok

end Steps

/-- Every release comes when all nodes of the table have entered, and no generation is left open in
which they have, in every state of a run in which only nodes of the table enter, and no node leaves
that has entered or is the last one missing. -/
theorem decisionsMatch_of_ok {s t : BarrierNodeState} {as : List BarrierNodeAction}
    (hstart : barrierNodeMachine.start s) (hexec : barrierNodeMachine.exec s as = some t)
    (hok : barrierNodeMachine.EachStep (fun s a => a.Ok s) s as) :
    barrierNodeMachine.Always BarrierNodeState.DecisionsMatch s as :=
  Machine.always_of_eachStep (fun _ (h : BarrierNodeInv _) => h.decisionsMatch)
    (fun _ _ _ h hstep ha => h.step hstep ha) (.start hstart) hexec hok

/-- A master at port 5000 of a host. -/
private def barrierNodeStart : BarrierNodeState :=
  { table := (nodeTableAdd [] [49, 48] 5000 1 .master (-1) 0 true).2
    barrier := { barrierId := 0, arrived := [] }
    releasing := none, sent := [], entered := [], releases := [] }

private theorem barrierNodeStart_start : barrierNodeMachine.start barrierNodeStart :=
  ⟨[49, 48], 5000, 1, 0, rfl⟩

private def nodeKey (i : NodeId) : NodeKey := (i, [49, 48], 4999 + i)

private def joinsTable (i : NodeId) : BarrierNodeAction := .add [49, 48] (4999 + i) 1 (5 + i) 0 true

/-- A worker joins, and both nodes enter. -/
theorem decisionsMatch_of_ok_two_nodes : ∃ t,
    barrierNodeMachine.exec barrierNodeStart [joinsTable 2, .enter .tcp (nodeKey 2),
      .enter .app (nodeKey 1)] = some t ∧ t.releasing.isSome = true ∧ t.DecisionsMatch := by
  have hok : barrierNodeMachine.EachStep (fun s a => a.Ok s) barrierNodeStart
      [joinsTable 2, .enter .tcp (nodeKey 2), .enter .app (nodeKey 1)] := by
    refine (Machine.eachStep_cons rfl).mpr ⟨trivial, (Machine.eachStep_cons rfl).mpr ⟨?_, ?_⟩⟩
    · exact (by decide : nodeKey 2 ∈ [nodeKey 1, nodeKey 2])
    · refine (Machine.eachStep_cons rfl).mpr ⟨?_, Machine.eachStep_nil⟩
      exact (by decide : nodeKey 1 ∈ [nodeKey 1, nodeKey 2])
  exact ⟨_, rfl, rfl, (decisionsMatch_of_ok barrierNodeStart_start rfl hok).last rfl⟩

/-- With three nodes, worker 2 enters and leaves, and the master enters: the barrier is released
without worker 3. With two nodes, the master enters and worker 2 leaves: no release is decided. -/
theorem not_decisionsMatch_of_leave : barrierNodeMachine.start barrierNodeStart ∧
    (∃ t, barrierNodeMachine.exec barrierNodeStart [joinsTable 2, joinsTable 3,
      .enter .tcp (nodeKey 2), .remove 2, .enter .app (nodeKey 1)] = some t ∧ ¬ t.DecisionsMatch) ∧
    ∃ t, barrierNodeMachine.exec barrierNodeStart [joinsTable 2, .enter .app (nodeKey 1),
      .remove 2] = some t ∧ ¬ t.DecisionsMatch := by
  refine ⟨barrierNodeStart_start, ⟨_, rfl, fun hmatch => ?_⟩, _, rfl, fun hmatch => ?_⟩
  · have hmissing : nodeKey 3 ∈ [nodeKey 2, nodeKey 1] :=
      hmatch.complete [nodeKey 1, nodeKey 3] [nodeKey 2, nodeKey 1] (List.mem_singleton_self _)
        (nodeKey 3) (by decide)
    exact absurd hmissing (by decide)
  · have hall : ∀ key ∈ [nodeKey 1], key ∈ [nodeKey 1] := fun _ hkey => hkey
    cases hmatch.decided nofun hall

end Dsm
