import Dsm.Types
import Dsm.Library.FirstMatch
import Dsm.Library.Machine
import Mathlib.Logic.Function.Basic

/-!
# The node table

The master's table of nodes, and the ids that it assigns. A joining worker gets the count of the
table plus one, and a node that leaves lowers the count, so an id is assigned again while its holder
is still there. The ids stay distinct exactly as long as every assigned id is free at that moment
(`nodeIds_unique_iff`).
-/

namespace Dsm

inductive NodeState where
  | discovering
  | connecting
  | connected
  | ready
  | disconnected
deriving DecidableEq, Repr

/-- `dsm_node_t`; `ip` is the string in the buffer, without its terminator. -/
structure Node where
  nodeId : NodeId
  role : Role
  state : NodeState
  ip : List UInt8
  port : Nat
  chunks : Nat
  tcpFd : Int
  lastHeartbeat : Nat
deriving DecidableEq, Repr

/-- `dsm_node_table_t`: the entries `nodes[0..count)`. -/
abbrev NodeTable := List Node

def maxIpLen : Nat := 16

/-- The test by which a node is recognised; `strcmp` on strings without terminators. -/
def Node.isAt (ip : List UInt8) (port : Nat) (node : Node) : Bool :=
  node.ip == ip && node.port == port

/-- `dsm_node_table_add` at time `now`; `mutexOk` is whether `pthread_mutex_init` succeeds. -/
def nodeTableAdd (table : NodeTable) (ip : List UInt8) (port chunks : Nat) (role : Role)
    (sockfd : Int) (now : Nat) (mutexOk : Bool) : Int × NodeTable :=
  match table.find? (·.isAt ip port) with
  | some node =>
      (node.nodeId, (table.updateFirst (·.isAt ip port)
        ({ · with tcpFd := sockfd, state := .connected, lastHeartbeat := now })).getD table)
  | none =>
      if maxNodes ≤ table.length then (-1, table)
      else
        let node : Node :=
          { nodeId := if role = .master then 1 else table.length + 1
            role := role
            state := if 0 ≤ sockfd then .connected else .discovering
            ip := ip.take (maxIpLen - 1)
            port := port
            chunks := chunks
            tcpFd := sockfd
            lastHeartbeat := now }
        if !mutexOk then (-1, table) else (node.nodeId, table ++ [node])

def nodeTableRemove (table : NodeTable) (nodeId : NodeId) : Int × NodeTable :=
  if table.any (·.nodeId == nodeId) then (0, table.eraseP (·.nodeId == nodeId)) else (-1, table)

def nodeTableGet (table : NodeTable) (nodeId : NodeId) : Option Node :=
  table.find? (·.nodeId == nodeId)

/-- Whether `dsm_tcp_send` to node `i` sends; `sockOk` is whether the socket takes the bytes. -/
def NodeTable.sends (table : NodeTable) (i : NodeId) (sockOk : Bool) : Bool :=
  match nodeTableGet table i with
  | some node => decide (0 ≤ node.tcpFd) && sockOk
  | none => false

/-! ### Joins and leaves -/

/-- The table, and for every id the address of the node to which it was last assigned, until that id
is removed. -/
structure NodeTableRun where
  table : NodeTable
  assigned : NodeId → Option (List UInt8 × Nat)

inductive NodeTableAction where
  /-- `dsm_node_table_add` of a worker. -/
  | add (ip : List UInt8) (port chunks : Nat) (sockfd : Int) (now : Nat) (mutexOk : Bool)
  /-- `dsm_node_table_remove`, from a `SHUTDOWN` or a `NODE_LEFT` message. -/
  | remove (nodeId : NodeId)
deriving DecidableEq, Repr

def Node.address (node : Node) : Address := (node.ip, node.port)

namespace NodeTableRun

def add (s : NodeTableRun) (ip : List UInt8) (port chunks : Nat) (role : Role) (sockfd : Int)
    (now : Nat) (mutexOk : Bool) : NodeTableRun :=
  let table := (nodeTableAdd s.table ip port chunks role sockfd now mutexOk).2
  { table := table
    assigned := match table.drop s.table.length with
      | node :: _ => Function.update s.assigned node.nodeId (some node.address)
      | [] => s.assigned }

def remove (s : NodeTableRun) (nodeId : NodeId) : NodeTableRun :=
  let out := nodeTableRemove s.table nodeId
  { table := out.2
    assigned := if out.1 = 0 then Function.update s.assigned nodeId none else s.assigned }

def step (s : NodeTableRun) : NodeTableAction → NodeTableRun
  | .add ip port chunks sockfd now mutexOk => s.add ip port chunks .worker sockfd now mutexOk
  | .remove nodeId => s.remove nodeId

def initial : NodeTableRun := { table := [], assigned := fun _ => none }

/-- The ids are distinct, and every id leads to the node to which it was last assigned. -/
structure Unique (s : NodeTableRun) : Prop where
  nodup : (s.table.map (·.nodeId)).Nodup
  get : ∀ nodeId, (nodeTableGet s.table nodeId).map (·.address) = s.assigned nodeId

end NodeTableRun

/-- The master adds itself; then workers join and nodes leave. -/
def nodeTableMachine : Machine NodeTableRun NodeTableAction where
  start s := ∃ ip port chunks sockfd now,
    s = NodeTableRun.initial.add ip port chunks .master sockfd now true
  step s a := some (s.step a)

/-- An added worker gets an id that no node of the table has. -/
def NodeTableAction.Ok (s : NodeTableRun) : NodeTableAction → Prop
  | .add ip port _ _ _ mutexOk =>
      s.table.find? (·.isAt ip port) = none → s.table.length < maxNodes → mutexOk = true →
        nodeTableGet s.table (s.table.length + 1) = none
  | .remove _ => True

/-! ### What the calls do to the ids -/

def Node.key (node : Node) : NodeId × List UInt8 × Nat := (node.nodeId, node.address)

/-- Everything an added address can do to the table: update the first entry at that address, nothing,
or one further entry at the end. -/
theorem nodeTableAdd_table (table : NodeTable) (ip : List UInt8) (port chunks : Nat) (role : Role)
    (sockfd : Int) (now : Nat) (mutexOk : Bool) :
    (∃ pre node post, table = pre ++ node :: post ∧ node.isAt ip port = true ∧
        (nodeTableAdd table ip port chunks role sockfd now mutexOk).2 =
          pre ++ { node with tcpFd := sockfd, state := .connected, lastHeartbeat := now } :: post) ∨
      (table.find? (·.isAt ip port) = none ∧ (table.length < maxNodes → mutexOk = true → False) ∧
        (nodeTableAdd table ip port chunks role sockfd now mutexOk).2 = table) ∨
      (table.find? (·.isAt ip port) = none ∧ table.length < maxNodes ∧ mutexOk = true ∧
        ∃ node, (nodeTableAdd table ip port chunks role sockfd now mutexOk).2 = table ++ [node] ∧
          node.nodeId = (if role = .master then 1 else table.length + 1) ∧ node.tcpFd = sockfd ∧
          node.ip = ip.take (maxIpLen - 1) ∧ node.port = port) := by
  cases hfind : table.find? (·.isAt ip port) with
  | some found =>
      refine .inl ?_
      simp only [nodeTableAdd, hfind]
      cases hupdate : table.updateFirst (·.isAt ip port)
          ({ · with tcpFd := sockfd, state := .connected, lastHeartbeat := now }) with
      | none =>
          rw [List.updateFirst_eq_none, hfind] at hupdate
          cases hupdate
      | some table' =>
          obtain ⟨pre, node, post, rfl, -, hnode, rfl⟩ := List.updateFirst_eq_some hupdate
          exact ⟨pre, node, post, rfl, hnode, rfl⟩
  | none =>
      by_cases hfull : maxNodes ≤ table.length
      · refine .inr (.inl ⟨rfl, fun hroom => by omega, ?_⟩)
        simp [nodeTableAdd, hfind, hfull]
      · cases mutexOk with
        | false => exact .inr (.inl ⟨rfl, by simp, by simp [nodeTableAdd, hfind, hfull]⟩)
        | true => exact .inr (.inr ⟨rfl, by omega, rfl, by simp [nodeTableAdd, hfind, hfull]⟩)

theorem NodeTable.address_fresh {table : NodeTable} {ip : List UInt8} {port : Nat}
    (hip : ip.length < maxIpLen) (hfind : table.find? (·.isAt ip port) = none) :
    (ip.take (maxIpLen - 1), port) ∉ table.map Node.address := by
  rw [List.take_of_length_le (by rw [maxIpLen] at hip ⊢; omega)]
  rintro hmem
  obtain ⟨old, hold, heq⟩ := List.mem_map.mp hmem
  obtain ⟨rfl, rfl⟩ := Prod.mk.inj heq
  simpa [Node.isAt] using List.find?_eq_none.mp hfind old hold

/-- What an added address does to the ids: nothing, or one further node at the end. -/
theorem nodeTableAdd_cases (table : NodeTable) (ip : List UInt8) (port chunks : Nat) (role : Role)
    (sockfd : Int) (now : Nat) (mutexOk : Bool) :
    ((nodeTableAdd table ip port chunks role sockfd now mutexOk).2.map Node.key = table.map Node.key ∧
        (table.find? (·.isAt ip port) = none → table.length < maxNodes → mutexOk = true → False)) ∨
      (table.find? (·.isAt ip port) = none ∧ table.length < maxNodes ∧ mutexOk = true ∧
        ∃ node, (nodeTableAdd table ip port chunks role sockfd now mutexOk).2 = table ++ [node] ∧
          node.nodeId = if role = .master then 1 else table.length + 1) := by
  rcases nodeTableAdd_table table ip port chunks role sockfd now mutexOk with
    ⟨pre, node, post, rfl, hnode, heq⟩ | ⟨-, hno, heq⟩ | ⟨hfind, hroom, hmutex, node, heq, hid, -⟩
  · refine .inl ⟨?_, fun hfind => ?_⟩
    · simp only [heq, List.map_append, List.map_cons]
      rfl
    · exact absurd hnode (by simpa using List.find?_eq_none.mp hfind node (by simp))
  · exact .inl ⟨by rw [heq], fun _ => hno⟩
  · exact .inr ⟨hfind, hroom, hmutex, node, heq, hid⟩

theorem nodeTableRemove_table (table : NodeTable) (nodeId : NodeId) :
    (nodeTableRemove table nodeId).2 = table.eraseP (·.nodeId == nodeId) := by
  by_cases hany : table.any (·.nodeId == nodeId) = true
  · simp only [nodeTableRemove, hany, if_true]
  · simp only [nodeTableRemove, if_neg hany]
    refine (List.eraseP_of_forall_not fun node hnode hid => hany ?_).symm
    exact List.any_eq_true.mpr ⟨node, hnode, hid⟩

theorem nodeTableRemove_of_get_none {table : NodeTable} {nodeId : NodeId}
    (hget : nodeTableGet table nodeId = none) : (nodeTableRemove table nodeId).2 = table := by
  rw [nodeTableRemove_table]
  exact List.eraseP_of_forall_not fun node hnode => List.find?_eq_none.mp hget node hnode

theorem nodeTableRemove_of_get {table : NodeTable} {nodeId : NodeId} {node : Node}
    (hget : nodeTableGet table nodeId = some node) :
    ∃ pre post, table = pre ++ node :: post ∧ (nodeTableRemove table nodeId).2 = pre ++ post := by
  obtain ⟨hid, pre, post, rfl, hpre⟩ := List.find?_eq_some_iff_append.mp hget
  refine ⟨pre, post, rfl, ?_⟩
  rw [nodeTableRemove_table, List.eraseP_append_right _ (by simpa using hpre)]
  have hcons : List.eraseP (·.nodeId == nodeId) (node :: post) = post :=
    List.eraseP_cons_of_pos hid
  rw [hcons]

theorem mem_nodeTableRemove {table : NodeTable} {nodeId : NodeId} {node other : Node}
    (hget : nodeTableGet table nodeId = some node) (hother : other ∈ table) (hne : other ≠ node) :
    other ∈ (nodeTableRemove table nodeId).2 := by
  obtain ⟨pre, post, rfl, hremove⟩ := nodeTableRemove_of_get hget
  rw [hremove]
  rcases List.mem_append.mp hother with hmem | hmem
  · exact List.mem_append_left _ hmem
  · exact List.mem_append_right _ ((List.mem_cons.mp hmem).resolve_left hne)

theorem nodeTableGet_address (table : NodeTable) (nodeId : NodeId) :
    (nodeTableGet table nodeId).map (·.address) =
      ((table.map Node.key).find? (·.1 == nodeId)).map (·.2) := by
  rw [List.find?_map, Option.map_map]
  rfl

namespace NodeTableRun.Unique

variable {s : NodeTableRun}

theorem congr {table : NodeTable} (h : s.Unique) (hkeys : table.map Node.key = s.table.map Node.key) :
    Unique { s with table := table } := by
  refine ⟨?_, fun nodeId => ?_⟩
  · have hids : table.map (·.nodeId) = s.table.map (·.nodeId) := by
      have hfst := congrArg (List.map Prod.fst) hkeys
      rwa [List.map_map, List.map_map] at hfst
    rw [hids]
    exact h.nodup
  · rw [nodeTableGet_address, hkeys, ← nodeTableGet_address]
    exact h.get nodeId

theorem append {node : Node} (h : s.Unique) (hfree : nodeTableGet s.table node.nodeId = none) :
    Unique { table := s.table ++ [node]
             assigned := Function.update s.assigned node.nodeId (some node.address) } := by
  have hnew : node.nodeId ∉ s.table.map (·.nodeId) := by
    rintro hmem
    obtain ⟨old, hold, heq⟩ := List.mem_map.mp hmem
    exact absurd (by simpa using heq) (List.find?_eq_none.mp hfree old hold)
  refine ⟨?_, fun nodeId => ?_⟩
  · rw [List.map_append]
    refine List.nodup_append.mpr ⟨h.nodup, List.nodup_singleton _, fun a ha b hb => ?_⟩
    rw [List.mem_singleton.mp hb]
    rintro rfl
    exact hnew ha
  · dsimp only
    by_cases heq : nodeId = node.nodeId
    · subst heq
      rw [Function.update_self, nodeTableGet, List.find?_append]
      rw [nodeTableGet] at hfree
      simp [hfree]
    · rw [Function.update_of_ne heq, ← h.get nodeId, nodeTableGet, nodeTableGet, List.find?_append]
      simp [Ne.symm heq]

theorem remove (h : s.Unique) (nodeId : NodeId) : (s.remove nodeId).Unique := by
  by_cases hany : s.table.any (·.nodeId == nodeId) = true
  · simp only [NodeTableRun.remove, nodeTableRemove, hany, if_true]
    refine ⟨h.nodup.sublist (List.eraseP_sublist.map _), fun other => ?_⟩
    dsimp only
    by_cases heq : other = nodeId
    · subst heq
      rw [Function.update_self, nodeTableGet, List.find?_eraseP_key h.nodup]
      rfl
    · rw [Function.update_of_ne heq, ← h.get other, nodeTableGet, nodeTableGet,
        List.find?_eraseP_of_disjoint]
      intro node _ hnode
      rw [beq_iff_eq] at hnode
      simp [hnode, Ne.symm heq]
  · have hsame : s.remove nodeId = s := by
      simp only [NodeTableRun.remove, nodeTableRemove, if_neg hany]
      simp
    rw [hsame]
    exact h

end NodeTableRun.Unique

theorem NodeTableRun.add_of_keys {s : NodeTableRun} {ip : List UInt8} {port chunks : Nat}
    {role : Role} {sockfd : Int} {now : Nat} {mutexOk : Bool}
    (hkeys : (nodeTableAdd s.table ip port chunks role sockfd now mutexOk).2.map Node.key =
      s.table.map Node.key) : s.add ip port chunks role sockfd now mutexOk =
        { s with table := (nodeTableAdd s.table ip port chunks role sockfd now mutexOk).2 } := by
  have hlength := congrArg List.length hkeys
  rw [List.length_map, List.length_map] at hlength
  simp only [NodeTableRun.add, List.drop_of_length_le hlength.le]

theorem NodeTableRun.add_of_append {s : NodeTableRun} {ip : List UInt8} {port chunks : Nat}
    {role : Role} {sockfd : Int} {now : Nat} {mutexOk : Bool} {node : Node}
    (htable : (nodeTableAdd s.table ip port chunks role sockfd now mutexOk).2 = s.table ++ [node]) :
    s.add ip port chunks role sockfd now mutexOk =
      { table := s.table ++ [node]
        assigned := Function.update s.assigned node.nodeId (some node.address) } := by
  simp only [NodeTableRun.add, htable, List.drop_left]

theorem NodeTableRun.Unique.step {s : NodeTableRun} {a : NodeTableAction} (h : s.Unique)
    (hok : a.Ok s) : (s.step a).Unique := by
  cases a with
  | add ip port chunks sockfd now mutexOk =>
      rcases nodeTableAdd_cases s.table ip port chunks .worker sockfd now mutexOk with
        ⟨hkeys, -⟩ | ⟨hnew, hroom, hmutex, node, htable, hid⟩
      · rw [NodeTableRun.step, NodeTableRun.add_of_keys hkeys]
        exact h.congr hkeys
      · rw [NodeTableRun.step, NodeTableRun.add_of_append htable]
        refine h.append ?_
        rw [hid]
        exact hok hnew hroom hmutex
  | remove nodeId => exact h.remove nodeId

theorem NodeTableRun.Unique.not_unique {s : NodeTableRun} {a : NodeTableAction}
    (hnot : ¬ a.Ok s) : ¬ (s.step a).Unique := by
  cases a with
  | remove nodeId => exact absurd trivial hnot
  | add ip port chunks sockfd now mutexOk =>
      intro hunique
      rcases nodeTableAdd_cases s.table ip port chunks .worker sockfd now mutexOk with
        ⟨-, hsame⟩ | ⟨-, -, -, node, htable, hid⟩
      · exact hnot fun hnew hroom hmutex => (hsame hnew hroom hmutex).elim
      · rw [NodeTableRun.step, NodeTableRun.add_of_append htable] at hunique
        have hnodup := hunique.nodup
        rw [List.map_append] at hnodup
        refine hnot fun _ _ _ => List.find?_eq_none.mpr fun old hold hbeq => ?_
        have heq : old.nodeId = node.nodeId := by
          rw [hid]
          simpa using hbeq
        exact (List.nodup_append.mp hnodup).2.2 old.nodeId (List.mem_map_of_mem hold) node.nodeId
          (List.mem_singleton_self _) heq

theorem nodeTableMachine_start_unique {s : NodeTableRun} (h : nodeTableMachine.start s) :
    s.Unique := by
  obtain ⟨ip, port, chunks, sockfd, now, rfl⟩ := h
  have hempty : NodeTableRun.initial.Unique := ⟨.nil, fun _ => rfl⟩
  rcases nodeTableAdd_cases [] ip port chunks .master sockfd now true with
    ⟨-, hsame⟩ | ⟨-, -, -, node, htable, -⟩
  · exact (hsame rfl (by decide) rfl).elim
  · rw [NodeTableRun.add_of_append htable]
    exact hempty.append rfl

/-- The ids are distinct in every state of a run, and lead to the nodes to which they were last
assigned, exactly when every node that joins finds the id it gets free. -/
theorem nodeIds_unique_iff {s t : NodeTableRun} {as : List NodeTableAction}
    (hstart : nodeTableMachine.start s) (hexec : nodeTableMachine.exec s as = some t) :
    nodeTableMachine.Always NodeTableRun.Unique s as ↔
      nodeTableMachine.EachStep (fun s a => a.Ok s) s as := by
  refine Machine.always_iff_eachStep (fun _ h => h) (fun s a t hunique hok hstep => ?_)
    (fun s a t _ hnot hstep => ?_) (nodeTableMachine_start_unique hstart) hexec
  · obtain rfl : s.step a = t := Option.some.inj hstep
    exact hunique.step hok
  · obtain rfl : s.step a = t := Option.some.inj hstep
    exact NodeTableRun.Unique.not_unique hnot

/-- A table with its master, at port 5000 of a host. -/
def masterTable : NodeTableRun := NodeTableRun.initial.add [49, 48] 5000 1 .master (-1) 0 true

def joins (port : Nat) : NodeTableAction := .add [49, 48] port 1 7 0 true

theorem nodeIds_unique_iff_two_joins : ∃ t,
    nodeTableMachine.exec masterTable [joins 5001, joins 5002] = some t ∧ t.Unique := by
  have hstart : nodeTableMachine.start masterTable := ⟨[49, 48], 5000, 1, -1, 0, rfl⟩
  have hok : nodeTableMachine.EachStep (fun s a => a.Ok s) masterTable [joins 5001, joins 5002] := by
    refine (Machine.eachStep_cons rfl).mpr ⟨fun _ _ _ => by decide, ?_⟩
    exact (Machine.eachStep_cons rfl).mpr ⟨fun _ _ _ => by decide, Machine.eachStep_nil⟩
  exact ⟨_, rfl, ((nodeIds_unique_iff hstart rfl).mpr hok).last rfl⟩

/-- Two workers join, the first leaves, and a third joins: it gets the id of the second. -/
theorem nodeIds_not_unique : nodeTableMachine.start masterTable ∧ ∃ t,
    nodeTableMachine.exec masterTable [joins 5001, joins 5002, .remove 2, joins 5003] = some t ∧
      t.table.map (·.nodeId) = [1, 3, 3] ∧
      (nodeTableGet t.table 3).map (·.port) = some 5002 ∧ ¬ t.Unique := by
  have hids : ∀ t, nodeTableMachine.exec masterTable
      [joins 5001, joins 5002, .remove 2, joins 5003] = some t →
        t.table.map (·.nodeId) = [1, 3, 3] ∧ (nodeTableGet t.table 3).map (·.port) = some 5002 := by
    rintro t ⟨⟩
    decide
  refine ⟨⟨[49, 48], 5000, 1, -1, 0, rfl⟩, _, rfl, (hids _ rfl).1, (hids _ rfl).2, fun hunique => ?_⟩
  have hnodup := hunique.nodup
  rw [(hids _ rfl).1] at hnodup
  exact absurd hnodup (by decide)

end Dsm
