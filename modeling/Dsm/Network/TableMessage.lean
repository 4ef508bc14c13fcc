import Dsm.Network.NodeTable
import Dsm.Library.Bytes
import Mathlib.Data.List.Perm.Subperm

/-!
# The node table in a message

`NODE_TABLE` carries a count and that many packed entries. The master writes its whole table, and a
worker merges the entries one by one into the table that it has: an id that it knows is updated, any
other id becomes a further entry, and no entry is taken out. So the ids of the worker's table are its
own and those of the message, as long as there is room for them (`NodeTable.Merged.merge`).
-/

namespace Dsm

def NodeTable.ids (table : NodeTable) : List NodeId := table.map (·.nodeId)

/-- The value of the enumeration in a message. -/
def Role.code : Role → UInt32
  | .unknown => 0
  | .master => 1
  | .worker => 2

/-- The role that a value stands for; one that names no role is taken as unknown. -/
def Role.ofCode (code : UInt32) : Role :=
  if code = 1 then .master else if code = 2 then .worker else .unknown

def NodeState.code : NodeState → UInt32
  | .discovering => 0
  | .connecting => 1
  | .connected => 2
  | .ready => 3
  | .disconnected => 4

def NodeState.ofCode (code : UInt32) : NodeState :=
  if code = 1 then .connecting else if code = 2 then .connected else if code = 3 then .ready
  else if code = 4 then .disconnected else .discovering

/-- `dsm_msg_node_info_t`; `ip` is the whole buffer. -/
structure NodeInfo where
  nodeId : UInt32
  ip : List UInt8
  port : UInt16
  chunks : UInt32
  role : UInt32
  state : UInt32
deriving DecidableEq, Repr

/-- `sizeof(dsm_msg_node_info_t)`. -/
def nodeInfoSize : Nat := 34

/-- `sizeof(dsm_msg_node_table_t)`. -/
def nodeTableHeaderSize : Nat := 4

def maxMessageSize : Nat := 65536

def NodeInfo.encode (info : NodeInfo) : List UInt8 :=
  Bytes.le info.nodeId.toNat 4 ++ (info.ip ++ (Bytes.le info.port.toNat 2 ++
    (Bytes.le info.chunks.toNat 4 ++ (Bytes.le info.role.toNat 4 ++ Bytes.le info.state.toNat 4))))

def NodeInfo.decode (bytes : List UInt8) : NodeInfo :=
  { nodeId := UInt32.ofNat (Bytes.field bytes 0 4)
    ip := (bytes.drop 4).take maxIpLen
    port := UInt16.ofNat (Bytes.field bytes 20 2)
    chunks := UInt32.ofNat (Bytes.field bytes 22 4)
    role := UInt32.ofNat (Bytes.field bytes 26 4)
    state := UInt32.ofNat (Bytes.field bytes 30 4) }

/-- The `n` bytes that `strncpy` writes for this source. -/
def strncpy (src : List UInt8) (n : Nat) : List UInt8 :=
  let copied := (src.take n).takeWhile (· != 0)
  copied ++ List.replicate (n - copied.length) 0

/-- The string in a buffer. -/
def cString (buf : List UInt8) : List UInt8 := buf.takeWhile (· != 0)

def Node.info (node : Node) : NodeInfo :=
  { nodeId := UInt32.ofNat node.nodeId
    ip := strncpy node.ip (maxIpLen - 1) ++ [0]
    port := UInt16.ofNat node.port
    chunks := UInt32.ofNat node.chunks
    role := node.role.code
    state := node.state.code }

/-- `dsm_node_table_serialize` into a buffer of `bufLen` bytes; `none` where it returns `-1`. -/
def nodeTableSerialize (table : NodeTable) (bufLen : Nat) : Option (List UInt8) :=
  if bufLen < nodeTableHeaderSize + table.length * nodeInfoSize then none
  else some (Bytes.le table.length 4 ++ table.flatMap fun node => node.info.encode)

/-- The first `count` entries that are stored here. -/
def nodeInfos : List UInt8 → Nat → List NodeInfo
  | _, 0 => []
  | bytes, count + 1 => NodeInfo.decode bytes :: nodeInfos (bytes.drop nodeInfoSize) count

/-- One turn of the loop in `dsm_node_table_deserialize`, at time `now`. -/
def nodeTableMerge (now : Nat) (table : NodeTable) (info : NodeInfo) : NodeTable :=
  let ip := cString (strncpy info.ip (maxIpLen - 1))
  match table.updateFirst (·.nodeId == info.nodeId.toNat)
      ({ · with
        ip := ip, port := info.port.toNat, chunks := info.chunks.toNat
        role := .ofCode info.role, state := .ofCode info.state }) with
  | some table' => table'
  | none =>
      if table.length < maxNodes then
        table ++ [{
          nodeId := info.nodeId.toNat, role := .ofCode info.role, state := .ofCode info.state
          ip := ip, port := info.port.toNat, chunks := info.chunks.toNat
          tcpFd := -1, lastHeartbeat := now }]
      else table

/-- `dsm_node_table_deserialize` of a buffer that is read as far as it goes. -/
def nodeTableDeserialize (table : NodeTable) (buf : List UInt8) (now : Nat) : Int × NodeTable :=
  if buf.length < nodeTableHeaderSize then (-1, table)
  else
    let count := Bytes.field buf 0 4
    if buf.length < nodeTableHeaderSize + count * nodeInfoSize then (-1, table)
    else
      (0, (nodeInfos (buf.drop nodeTableHeaderSize) count).foldl (nodeTableMerge now) table)

/-! ### The count stays in range -/

section

variable {table : NodeTable} (h : table.length ≤ maxNodes)
include h

theorem length_nodeTableMerge (now : Nat) (info : NodeInfo) :
    (nodeTableMerge now table info).length ≤ maxNodes := by
  simp only [nodeTableMerge]
  split
  · rename_i table' hupdate
    obtain ⟨pre, node, post, rfl, -, -, rfl⟩ := List.updateFirst_eq_some hupdate
    simpa using h
  · split_ifs with hroom
    · rw [List.length_append]
      exact hroom
    · exact h

theorem length_nodeTableDeserialize (buf : List UInt8) (now : Nat) :
    (nodeTableDeserialize table buf now).2.length ≤ maxNodes := by
  have hfold : ∀ infos : List NodeInfo,
      (infos.foldl (nodeTableMerge now) table).length ≤ maxNodes := by
    intro infos
    induction infos generalizing table with
    | nil => exact h
    | cons info infos ih => exact ih (length_nodeTableMerge h now info)
  simp only [nodeTableDeserialize]
  split_ifs
  · exact h
  · exact h
  · exact hfold _

theorem length_nodeTableRemove (nodeId : NodeId) :
    (nodeTableRemove table nodeId).2.length ≤ maxNodes := by
  rw [nodeTableRemove_table]
  exact (List.length_eraseP_le ..).trans h

theorem length_nodeTableAdd (ip : List UInt8) (port chunks : Nat) (role : Role) (sockfd : Int)
    (now : Nat) (mutexOk : Bool) :
    (nodeTableAdd table ip port chunks role sockfd now mutexOk).2.length ≤ maxNodes := by
  rcases nodeTableAdd_table table ip port chunks role sockfd now mutexOk with
    ⟨pre, node, post, rfl, -, hadd⟩ | ⟨-, -, hadd⟩ | ⟨-, hroom, -, node, hadd, -⟩
  · rw [hadd]
    simpa using h
  · rw [hadd]
    exact h
  · rw [hadd, List.length_append]
    exact hroom

end

/-! ### What the receiver reads of what was written -/

@[simp] theorem length_strncpy (src : List UInt8) (n : Nat) : (strncpy src n).length = n := by
  have hle : ((src.take n).takeWhile (· != 0)).length ≤ n :=
    (List.takeWhile_sublist _).length_le.trans (by simp)
  simp only [strncpy, List.length_append, List.length_replicate]
  omega

@[simp] theorem Node.length_info_ip (node : Node) : node.info.ip.length = maxIpLen := by
  simp [Node.info, maxIpLen]

theorem NodeInfo.length_encode {info : NodeInfo} (hip : info.ip.length = maxIpLen) :
    info.encode.length = nodeInfoSize := by
  simp [NodeInfo.encode, hip, maxIpLen, nodeInfoSize]

/-- The reader finds each field after the fields before it, whatever comes behind the entry. -/
theorem NodeInfo.decode_encode_append {info : NodeInfo} (hip : info.ip.length = maxIpLen)
    (more : List UInt8) : NodeInfo.decode (info.encode ++ more) = info := by
  have hip' : info.ip.length = 16 := hip
  simp only [NodeInfo.decode, NodeInfo.encode, Bytes.field, List.append_assoc, List.drop_append,
    List.take_append, Bytes.length_le, hip', maxIpLen]
  simp [List.drop_of_length_le, List.take_of_length_le, Bytes.ofLe_le, hip']

/-- The bytes of a message with these entries. -/
def nodeTableBytes (infos : List NodeInfo) : List UInt8 :=
  Bytes.le infos.length 4 ++ infos.flatMap NodeInfo.encode

section

variable {infos : List NodeInfo} (hip : ∀ info ∈ infos, info.ip.length = maxIpLen)
include hip

theorem length_flatMap_encode : (infos.flatMap NodeInfo.encode).length = infos.length * nodeInfoSize := by
  induction infos with
  | nil => rfl
  | cons info infos ih =>
      rw [List.flatMap_cons, List.length_append, NodeInfo.length_encode (hip info List.mem_cons_self),
        ih fun other hother => hip other (List.mem_cons_of_mem _ hother), List.length_cons,
        Nat.succ_mul, Nat.add_comm]

theorem length_nodeTableBytes :
    (nodeTableBytes infos).length = nodeTableHeaderSize + infos.length * nodeInfoSize := by
  rw [nodeTableBytes, List.length_append, Bytes.length_le, length_flatMap_encode hip,
    nodeTableHeaderSize]

theorem nodeInfos_flatMap_encode :
    nodeInfos (infos.flatMap NodeInfo.encode) infos.length = infos := by
  induction infos with
  | nil => rfl
  | cons info infos ih =>
      have hfirst := hip info List.mem_cons_self
      have hlength := NodeInfo.length_encode hfirst
      rw [List.flatMap_cons, List.length_cons, nodeInfos, NodeInfo.decode_encode_append hfirst,
        ← hlength, List.drop_left, ih fun other hother => hip other (List.mem_cons_of_mem _ hother)]

theorem nodeInfos_nodeTableBytes :
    nodeInfos ((nodeTableBytes infos).drop nodeTableHeaderSize) infos.length = infos := by
  have hdrop : (nodeTableBytes infos).drop nodeTableHeaderSize = infos.flatMap NodeInfo.encode :=
    List.drop_left' (Bytes.length_le ..)
  rw [hdrop, nodeInfos_flatMap_encode hip]

end

theorem field_nodeTableBytes {infos : List NodeInfo} (hsize : infos.length < 2 ^ 32) :
    Bytes.field (nodeTableBytes infos) 0 4 = infos.length := by
  simp only [Bytes.field, List.drop_zero, nodeTableBytes]
  rw [List.take_left' (Bytes.length_le ..), Bytes.ofLe_le]
  exact Nat.mod_eq_of_lt hsize

/-- A table of at most 64 entries fits the buffer, and the receiver merges its entries in turn. -/
theorem nodeTableDeserialize_serialize (table : NodeTable) {sent : NodeTable} {buf : List UInt8}
    (hsize : sent.length ≤ maxNodes) (hbuf : nodeTableSerialize sent maxMessageSize = some buf)
    (now : Nat) : nodeTableDeserialize table buf now =
      (0, (sent.map Node.info).foldl (nodeTableMerge now) table) := by
  simp only [nodeTableSerialize, Option.ite_none_left_eq_some, Option.some.injEq] at hbuf
  obtain ⟨-, rfl⟩ := hbuf
  have hip : ∀ info ∈ sent.map Node.info, info.ip.length = maxIpLen := by
    intro info hinfo
    obtain ⟨node, -, rfl⟩ := List.mem_map.mp hinfo
    exact node.length_info_ip
  have hmap : (sent.map Node.info).length = sent.length := List.length_map _
  have hbytes : Bytes.le sent.length 4 ++ (sent.flatMap fun node => node.info.encode) =
      nodeTableBytes (sent.map Node.info) := by
    rw [nodeTableBytes, hmap, List.flatMap_map]
  have hcount : Bytes.field (nodeTableBytes (sent.map Node.info)) 0 4 = (sent.map Node.info).length :=
    field_nodeTableBytes (by rw [hmap]; exact hsize.trans_lt (by decide))
  rw [hbytes]
  simp only [nodeTableDeserialize, hcount, length_nodeTableBytes hip, nodeInfos_nodeTableBytes hip]
  rw [if_neg (by omega), if_neg (by omega)]

/-! ### The ids of the merged table -/

/-- An entry leaves the ids as they are, or adds its own at the end; it is lost only where it is new
and the table is full. -/
theorem ids_nodeTableMerge (now : Nat) (table : NodeTable) (info : NodeInfo) :
    (nodeTableMerge now table info).ids = table.ids ∧
        (table.length < maxNodes → info.nodeId.toNat ∈ table.ids) ∨
      info.nodeId.toNat ∉ table.ids ∧
        (nodeTableMerge now table info).ids = table.ids ++ [info.nodeId.toNat] := by
  simp only [nodeTableMerge]
  split
  · rename_i table' hupdate
    obtain ⟨pre, node, post, rfl, -, hid, rfl⟩ := List.updateFirst_eq_some hupdate
    refine .inl ⟨?_, fun _ => ?_⟩
    · simp [NodeTable.ids]
    · rw [beq_iff_eq] at hid
      simp [NodeTable.ids, hid]
  · rename_i hupdate
    have hnew : info.nodeId.toNat ∉ table.ids := by
      rw [List.updateFirst_eq_none] at hupdate
      rintro hmem
      obtain ⟨node, hnode, hid⟩ := List.mem_map.mp hmem
      simpa [hid] using List.find?_eq_none.mp hupdate node hnode
    split_ifs with hroom
    · exact .inr ⟨hnew, by simp [NodeTable.ids]⟩
    · exact .inl ⟨rfl, fun hlt => (hroom hlt).elim⟩

/-- The ids that the master assigns. -/
def Assignable (i : NodeId) : Prop := 1 ≤ i ∧ i ≤ maxNodes

theorem length_lt_of_assignable {ids : List NodeId} {i : NodeId} (hnodup : ids.Nodup)
    (hids : ∀ j ∈ ids, Assignable j) (hi : Assignable i) (hnew : i ∉ ids) :
    ids.length < maxNodes := by
  have hcons : (i :: ids).Nodup := List.nodup_cons.mpr ⟨hnew, hnodup⟩
  have hsubset : i :: ids ⊆ List.range' 1 maxNodes := by
    intro j hj
    have hj' : Assignable j := by
      rcases List.mem_cons.mp hj with rfl | hj
      · exact hi
      · exact hids j hj
    rw [List.mem_range'_1]
    exact ⟨hj'.1, Nat.lt_one_add_iff.mpr hj'.2⟩
  have hle := (List.subperm_of_subset hcons hsubset).length_le
  rw [List.length_cons, List.length_range'] at hle
  omega

/-- The ids of a table that was merged from messages of one master. -/
structure NodeTable.Merged (table : NodeTable) : Prop where
  nodup : table.ids.Nodup
  assignable : ∀ i ∈ table.ids, Assignable i

theorem NodeTable.Merged.merge {table : NodeTable} (h : table.Merged) (now : Nat)
    (infos : List NodeInfo) (hinfos : ∀ info ∈ infos, Assignable info.nodeId.toNat) :
    NodeTable.Merged (infos.foldl (nodeTableMerge now) table) ∧
      ∀ i, i ∈ NodeTable.ids (infos.foldl (nodeTableMerge now) table) ↔
        i ∈ table.ids ∨ i ∈ infos.map (·.nodeId.toNat) := by
  induction infos generalizing table with
  | nil => exact ⟨h, fun i => by simp⟩
  | cons info infos ih =>
      have hi := hinfos info List.mem_cons_self
      have hrest : ∀ info' ∈ infos, Assignable info'.nodeId.toNat := fun info' hinfo =>
        hinfos info' (List.mem_cons_of_mem _ hinfo)
      have hids : table.ids.length = table.length := List.length_map _
      have hstep : NodeTable.Merged (nodeTableMerge now table info) ∧
          ∀ i, i ∈ (nodeTableMerge now table info).ids ↔ i ∈ table.ids ∨ i = info.nodeId.toNat := by
        rcases ids_nodeTableMerge now table info with ⟨hsame, hold⟩ | ⟨hnew, hadd⟩
        · have hmem : info.nodeId.toNat ∈ table.ids := by
            by_contra hnot
            exact hnot (hold (hids ▸ length_lt_of_assignable h.nodup h.assignable hi hnot))
          refine ⟨⟨hsame ▸ h.nodup, hsame ▸ h.assignable⟩, fun i => ?_⟩
          rw [hsame]
          constructor
          · exact .inl
          · rintro (hi | rfl)
            · exact hi
            · exact hmem
        · refine ⟨⟨?_, fun i hmem => ?_⟩, fun i => ?_⟩
          · rw [hadd]
            refine List.nodup_append.mpr ⟨h.nodup, List.nodup_singleton _, fun a ha b hb heq => ?_⟩
            rw [List.mem_singleton.mp hb] at heq
            exact hnew (heq ▸ ha)
          · rw [hadd] at hmem
            rcases List.mem_append.mp hmem with hmem | hmem
            · exact h.assignable i hmem
            · rw [List.mem_singleton.mp hmem]
              exact hi
          · rw [hadd, List.mem_append, List.mem_singleton]
      obtain ⟨hmerged, hiff⟩ := ih hstep.1 hrest
      refine ⟨hmerged, fun i => ?_⟩
      rw [List.foldl_cons, hiff, hstep.2, List.map_cons, List.mem_cons, or_assoc]

end Dsm
