import Dsm.Library.Machine
import Dsm.Network.TableBytes

/-!
# The tables that the code builds

A table starts cleared, and every function that fills an entry leaves a zero in the last byte of its
`ip`. So each `ip` of a table is a string in every run of the calls (`terminated_of_reachable`), and
the table of strings, on which the other modules work, takes the same course as the bytes
(`view_nodeTableAdd`, `view_nodeTableDeserialize`).
-/

namespace Dsm.Raw

/-- The test by which a node is recognised; `ip` is the string without its terminator. -/
def Node.isAt (ip : List UInt8) (port : UInt16) (node : Node) : Bool :=
  node.ip.string == ip && node.port == port

/-- A node that is new in a table of `count` entries. -/
def Node.joined (count : Nat) (ip : List UInt8) (port : UInt16) (chunks : UInt32) (role : Role)
    (sockfd : Int) (now : Nat) : Node :=
  { nodeId := if role = .master then 1 else .ofNat (count + 1), role := role.code
    state := (if 0 ≤ sockfd then NodeState.connected else NodeState.discovering).code
    ip := (IpBuffer.zero.strncpy ip).terminate, port := port, chunks := chunks
    tcpFd := sockfd, lastHeartbeat := now }

/-- The table after `dsm_node_table_add`. -/
def nodeTableAdd (table : NodeTable) (ip : List UInt8) (port : UInt16) (chunks : UInt32)
    (role : Role) (sockfd : Int) (now : Nat) (mutexOk : Bool) : NodeTable :=
  match table.updateFirst (·.isAt ip port)
      ({ · with tcpFd := sockfd, state := NodeState.connected.code, lastHeartbeat := now }) with
  | some table' => table'
  | none =>
      if maxNodes ≤ table.length then table
      else if !mutexOk then table
      else table ++ [.joined table.length ip port chunks role sockfd now]

/-- The table after `dsm_node_table_remove`. -/
def nodeTableRemove (table : NodeTable) (nodeId : UInt32) : NodeTable :=
  table.eraseP (·.nodeId == nodeId)

/-- The calls that change entries. -/
inductive TableCall where
  | add (ip : List UInt8) (port : UInt16) (chunks : UInt32) (role : Role) (sockfd : Int) (now : Nat)
      (mutexOk : Bool)
  | remove (nodeId : UInt32)
  | deserialize (buf : List UInt8) (now : Nat)

/-- The calls on a table that `dsm_node_table_init` has cleared. -/
def tableCalls : Machine NodeTable TableCall where
  start table := table = []
  step table
    | .add ip port chunks role sockfd now mutexOk =>
        some (nodeTableAdd table ip port chunks role sockfd now mutexOk)
    | .remove nodeId => some (nodeTableRemove table nodeId)
    | .deserialize buf now => (nodeTableDeserialize table buf now).map (·.2)

/-- Every array ends with a zero byte. -/
def NodeTable.ZeroLast (table : NodeTable) : Prop := ∀ node ∈ table, node.ip.last = 0

section

variable {table : NodeTable} (h : table.ZeroLast)
include h

theorem NodeTable.ZeroLast.add (ip : List UInt8) (port : UInt16) (chunks : UInt32) (role : Role)
    (sockfd : Int) (now : Nat) (mutexOk : Bool) :
    (nodeTableAdd table ip port chunks role sockfd now mutexOk).ZeroLast := by
  rw [nodeTableAdd]
  split
  · rename_i table' hupdate
    intro node hnode
    rcases List.mem_of_mem_updateFirst hupdate hnode with hold | ⟨old, hold, rfl⟩
    · exact h node hold
    · exact h old hold
  · split_ifs
    · exact h
    · exact h
    · intro node hnode
      rcases List.mem_append.mp hnode with hold | hnew
      · exact h node hold
      · obtain rfl := List.mem_singleton.mp hnew
        exact IpBuffer.last_terminate_strncpy ..

theorem NodeTable.ZeroLast.merge (now : Nat) (info : NodeInfo) : (table.merge now info).ZeroLast := by
  have hput : table.merge now info = (merging now).put table info := rfl
  intro node hnode
  rw [hput] at hnode
  rcases Upsert.mem_put hnode with hold | ⟨old, hold, rfl⟩ | rfl
  · exact h node hold
  · exact (IpBuffer.last_strncpy ..).trans (h old hold)
  · exact IpBuffer.last_terminate_strncpy ..

end

theorem NodeTable.ZeroLast.putAll {table : NodeTable} (h : table.ZeroLast) (now : Nat)
    (infos : List NodeInfo) : NodeTable.ZeroLast ((merging now).putAll table infos) := by
  induction infos generalizing table with
  | nil => exact h
  | cons info infos ih => exact ih (h.merge now info)

theorem last_of_reachable {table : NodeTable} (h : tableCalls.Reachable table) : table.ZeroLast := by
  refine h.invariant (fun s hs => ?_) fun s a t hs ht => ?_
  · obtain rfl : s = [] := hs
    exact nofun
  · cases a with
    | add ip port chunks role sockfd now mutexOk =>
        obtain rfl := Option.some.inj ht
        exact hs.add ip port chunks role sockfd now mutexOk
    | remove nodeId =>
        obtain rfl := Option.some.inj ht
        exact fun node hnode => hs node (List.mem_of_mem_eraseP hnode)
    | deserialize buf now =>
        change (nodeTableDeserialize s buf now).map (·.2) = some t at ht
        rw [nodeTableDeserialize_eq] at ht
        split_ifs at ht
        · obtain rfl := Option.some.inj ht
          exact hs.putAll now _
        · obtain rfl := Option.some.inj ht
          exact hs

theorem terminated_of_reachable {table : NodeTable} (h : tableCalls.Reachable table) :
    ∀ node ∈ table, node.ip.Terminated :=
  fun node hnode => IpBuffer.terminated_of_last (last_of_reachable h node hnode)

/-! ### The table of strings -/

/-- An entry with its string. -/
def Node.view (node : Node) : Dsm.Node :=
  { nodeId := node.nodeId.toNat, role := .ofCode node.role, state := .ofCode node.state
    ip := node.ip.string, port := node.port.toNat, chunks := node.chunks.toNat
    tcpFd := node.tcpFd, lastHeartbeat := node.lastHeartbeat }

theorem cString_append_zero (src : List UInt8) : cString (src ++ [0]) = cString src := by
  induction src with
  | nil => rfl
  | cons b bs ih =>
      rw [cString, cString] at ih
      rw [cString, cString, List.cons_append, List.takeWhile_cons, List.takeWhile_cons, ih]

theorem Node.view_update {node : Node} (hlast : node.ip.last = 0) (info : NodeInfo) :
    (node.update info).view =
      { node.view with
        ip := cString (Dsm.strncpy info.ip (maxIpLen - 1)), port := info.port.toNat
        chunks := info.chunks.toNat, role := .ofCode info.role, state := .ofCode info.state } := by
  have hstring : (node.ip.strncpy info.ip).string = cString (Dsm.strncpy info.ip (maxIpLen - 1)) := by
    rw [IpBuffer.string, IpBuffer.bytes_strncpy, hlast, cString_append_zero]
  simp only [Node.view, Node.update, hstring]

theorem Node.view_ofInfo (now : ℕ) (info : NodeInfo) :
    (Node.ofInfo now info).view =
      { nodeId := info.nodeId.toNat, role := .ofCode info.role, state := .ofCode info.state
        ip := cString (Dsm.strncpy info.ip (maxIpLen - 1)), port := info.port.toNat
        chunks := info.chunks.toNat, tcpFd := -1, lastHeartbeat := now } := by
  have hstring : (IpBuffer.zero.strncpy info.ip).terminate.string =
      cString (Dsm.strncpy info.ip (maxIpLen - 1)) := by
    rw [IpBuffer.string, IpBuffer.bytes_terminate_strncpy, cString_append_zero]
  simp only [Node.view, Node.ofInfo, hstring]

theorem view_merge {table : NodeTable} (h : table.ZeroLast) (now : ℕ) (info : NodeInfo) :
    (table.merge now info).map Node.view = nodeTableMerge now (table.map Node.view) info := by
  rw [nodeTableMerge, List.updateFirst_map (p := (·.nodeId == info.nodeId)) (f := (·.update info))
    (fun node _ => ?_) fun node hnode => (Node.view_update (h node hnode) info).symm]
  · rw [List.updateFirst_eq_modify, NodeTable.merge, List.length_map]
    cases table.findIdx? (·.nodeId == info.nodeId) with
    | some i => rfl
    | none =>
        simp only [Option.map_none]
        split_ifs with hroom
        · rw [List.map_append, List.map_singleton, Node.view_ofInfo]
        · rfl
  · rw [Bool.eq_iff_iff, beq_iff_eq, beq_iff_eq]
    exact UInt32.toNat_inj

theorem view_putAll {table : NodeTable} (h : table.ZeroLast) (now : ℕ) (infos : List NodeInfo) :
    ((merging now).putAll table infos).map Node.view =
      infos.foldl (nodeTableMerge now) (table.map Node.view) := by
  induction infos generalizing table with
  | nil => rfl
  | cons info infos ih =>
      rw [List.foldl_cons, ← view_merge h]
      exact ih (h.merge now info)

/-- Where every array ends with a zero, the bytes and the strings take the same course. -/
theorem view_nodeTableDeserialize {table : NodeTable} (h : table.ZeroLast) (buf : List UInt8)
    (now : ℕ) :
    (nodeTableDeserialize table buf now).map (fun out => (out.1, out.2.map Node.view)) =
      some (Dsm.nodeTableDeserialize (table.map Node.view) buf now) := by
  rw [nodeTableDeserialize_eq, Dsm.nodeTableDeserialize]
  by_cases hheader : nodeTableHeaderSize ≤ buf.length
  · rw [if_neg (Nat.not_lt.mpr hheader)]
    by_cases hsize : nodeTableHeaderSize + Bytes.field buf 0 4 * nodeInfoSize ≤ buf.length
    · rw [if_pos ⟨hheader, hsize⟩, Option.map_some, view_putAll h]
      simp only [if_neg (Nat.not_lt.mpr hsize)]
      rfl
    · rw [if_neg fun hboth => hsize hboth.2]
      simp only [if_pos (Nat.lt_of_not_le hsize)]
      rfl
  · rw [if_neg fun hboth => hheader hboth.1, if_pos (Nat.lt_of_not_le hheader)]
    rfl

theorem view_nodeTableRemove (table : NodeTable) (nodeId : UInt32) :
    (nodeTableRemove table nodeId).map Node.view =
      (Dsm.nodeTableRemove (table.map Node.view) nodeId.toNat).2 := by
  rw [Dsm.nodeTableRemove_table, nodeTableRemove, List.eraseP_map]
  congr 2
  funext node
  rw [Function.comp_apply, Bool.eq_iff_iff, beq_iff_eq, beq_iff_eq]
  exact UInt32.toNat_inj.symm

@[simp] theorem ofCode_code_role (role : Role) : Role.ofCode role.code = role := by
  cases role <;> rfl

@[simp] theorem ofCode_code_state (state : NodeState) : NodeState.ofCode state.code = state := by
  cases state <;> rfl

theorem isAt_view (node : Node) (ip : List UInt8) (port : UInt16) :
    node.view.isAt ip port.toNat = node.isAt ip port := by
  rw [Bool.eq_iff_iff, Dsm.Node.isAt, Node.isAt, Bool.and_eq_true, Bool.and_eq_true, beq_iff_eq,
    beq_iff_eq, beq_iff_eq, beq_iff_eq]
  exact and_congr_right fun _ => UInt16.toNat_inj

section

variable {table : NodeTable} (hsize : table.length ≤ maxNodes) {ip : List UInt8} (hip : 0 ∉ ip)
  (port : UInt16) (chunks : UInt32) (role : Role) (sockfd : Int) (now : Nat) (mutexOk : Bool)
include hsize hip

theorem Node.view_joined :
    (Node.joined table.length ip port chunks role sockfd now).view =
      { nodeId := if role = .master then 1 else table.length + 1, role := role
        state := if 0 ≤ sockfd then .connected else .discovering
        ip := ip.take (maxIpLen - 1), port := port.toNat, chunks := chunks.toNat
        tcpFd := sockfd, lastHeartbeat := now } := by
  have hstring : (IpBuffer.zero.strncpy ip).terminate.string = ip.take (maxIpLen - 1) := by
    have hwhole : cString ip = ip := by
      rw [← List.append_nil ip, cString_append_of_not_mem hip]
      rfl
    rw [IpBuffer.string, IpBuffer.bytes_terminate_strncpy, cString_append_zero,
      ← List.append_nil (Dsm.strncpy _ _), cString_strncpy_append, hwhole]
    split_ifs with hshort
    · rw [List.take_of_length_le hshort.le]
    · exact List.append_nil _
  have hid : (UInt32.ofNat (table.length + 1)).toNat = table.length + 1 := by
    exact UInt32.toNat_ofNat_of_lt' ((Nat.succ_le_succ hsize).trans_lt (by decide))
  simp only [Node.view, Node.joined, hstring, ofCode_code_role, ofCode_code_state, apply_ite UInt32.toNat,
    hid]
  rfl

theorem view_nodeTableAdd :
    (nodeTableAdd table ip port chunks role sockfd now mutexOk).map Node.view =
      (Dsm.nodeTableAdd (table.map Node.view) ip port.toNat chunks.toNat role sockfd now mutexOk).2 := by
  have hview := List.updateFirst_map (l := table) (v := Node.view) (p := (·.isAt ip port))
    (f := ({ · with tcpFd := sockfd, state := NodeState.connected.code, lastHeartbeat := now }))
    (q := (Dsm.Node.isAt ip port.toNat))
    (g := ({ · with tcpFd := sockfd, state := NodeState.connected, lastHeartbeat := now }))
    (fun node _ => isAt_view node ip port) fun node _ => rfl
  have hfound := List.updateFirst_isSome (p := Dsm.Node.isAt ip port.toNat) (l := table.map Node.view)
    (f := ({ · with tcpFd := sockfd, state := NodeState.connected, lastHeartbeat := now }))
  rw [hview, Option.isSome_map] at hfound
  rw [nodeTableAdd, Dsm.nodeTableAdd]
  split
  · rename_i table' hupdate
    rw [hupdate] at hfound hview
    obtain ⟨node, hnode⟩ := Option.isSome_iff_exists.mp hfound.symm
    simp only [hnode, hview]
    rfl
  · rename_i hupdate
    rw [hupdate] at hfound
    have hnone := Option.isSome_eq_false_iff.mp hfound.symm
    rw [Option.isNone_iff_eq_none] at hnone
    simp only [hnone, List.length_map]
    by_cases hfull : maxNodes ≤ table.length
    · rw [if_pos hfull, if_pos hfull]
    · rw [if_neg hfull, if_neg hfull]
      cases mutexOk with
      | false => rfl
      | true =>
          simp only [Bool.not_true, Bool.false_eq_true, if_false]
          rw [List.map_append, List.map_singleton, Node.view_joined hsize hip]

end

end Dsm.Raw
