import Dsm.Library.Upsert
import Dsm.Network.TableMessage

/-!
# The node table in its buffers

A node table as it lies in memory: the `ip` of an entry is an array of 16 bytes of which the string is
the part before the first terminator, and the enumerations are the numbers that were stored. A message
is read entry by entry, and a read that would pass the end of the buffer has no result.

The loop of `dsm_node_table_deserialize` stores a terminator in an entry that it appends, and none in
one that it updates: `strncpy` of 15 bytes leaves the last byte as it was. So a merge keeps the strings
of a table terminated as long as that byte is zero, or the new string is shorter
(`nodeTableDeserialize_safe`, `nodeTable_transfer`).
-/

namespace Dsm.Raw

/-- `char ip[DSM_MAX_IP_LEN]`. -/
@[ext]
structure IpBuffer where
  bytes : List UInt8
  length_bytes : bytes.length = maxIpLen
deriving DecidableEq

namespace IpBuffer

/-- `strncpy(ip, src, sizeof(ip) - 1)`. -/
def strncpy (dst : IpBuffer) (src : List UInt8) : IpBuffer where
  bytes := Dsm.strncpy src (maxIpLen - 1) ++ dst.bytes.drop (maxIpLen - 1)
  length_bytes := by
    rw [List.length_append, length_strncpy, List.length_drop, dst.length_bytes]
    rfl

/-- `ip[sizeof(ip) - 1] = '\0'`. -/
def terminate (dst : IpBuffer) : IpBuffer where
  bytes := dst.bytes.take (maxIpLen - 1) ++ [0]
  length_bytes := by
    rw [List.length_append, List.length_take, dst.length_bytes]
    rfl

/-- The bytes of an array that `calloc` has cleared. -/
def zero : IpBuffer := { bytes := List.replicate maxIpLen 0, length_bytes := List.length_replicate }

def last (buf : IpBuffer) : UInt8 := buf.bytes.getD (maxIpLen - 1) 0

def string (buf : IpBuffer) : List UInt8 := cString buf.bytes

/-- The array holds a string. -/
def Terminated (buf : IpBuffer) : Prop := 0 ∈ buf.bytes

instance (buf : IpBuffer) : Decidable buf.Terminated := inferInstanceAs (Decidable (_ ∈ _))

end IpBuffer

/-- `dsm_node_t`. -/
structure Node where
  nodeId : UInt32
  role : UInt32
  state : UInt32
  ip : IpBuffer
  port : UInt16
  chunks : UInt32
  tcpFd : Int
  lastHeartbeat : Nat
deriving DecidableEq

/-- `dsm_node_table_t`: the entries `nodes[0..count)`. -/
abbrev NodeTable := List Node

def NodeTable.ids (table : NodeTable) : List UInt32 := table.map (·.nodeId)

/-- The entry that `dsm_node_table_serialize` writes for a node. -/
def Node.info (node : Node) : NodeInfo :=
  { nodeId := node.nodeId
    ip := Dsm.strncpy node.ip.bytes (maxIpLen - 1) ++ [0]
    port := node.port
    chunks := node.chunks
    role := node.role
    state := node.state }

/-- `dsm_node_table_serialize` into a buffer of `bufLen` bytes; `none` where it returns `-1`. -/
def nodeTableSerialize (table : NodeTable) (bufLen : Nat) : Option (List UInt8) :=
  if bufLen < nodeTableHeaderSize + table.length * nodeInfoSize then none
  else some (Bytes.le table.length 4 ++ table.flatMap fun node => node.info.encode)

/-- The branch of the merge for an entry that is there. -/
def Node.update (node : Node) (info : NodeInfo) : Node :=
  { node with
    ip := node.ip.strncpy info.ip, port := info.port, chunks := info.chunks
    role := info.role, state := info.state }

/-- The branch for a new entry; the two writes to its array leave no byte of what was there. -/
def Node.ofInfo (now : Nat) (info : NodeInfo) : Node :=
  { nodeId := info.nodeId, role := info.role, state := info.state
    ip := (IpBuffer.zero.strncpy info.ip).terminate, port := info.port, chunks := info.chunks
    tcpFd := -1, lastHeartbeat := now }

/-- One turn of the loop in `dsm_node_table_deserialize`, at time `now`. -/
def NodeTable.merge (now : Nat) (table : NodeTable) (info : NodeInfo) : NodeTable :=
  match table.findIdx? (·.nodeId == info.nodeId) with
  | some found => table.modify found (·.update info)
  | none => if table.length < maxNodes then table ++ [.ofInfo now info] else table

/-- The entry `msg->nodes[i]`, if it lies in the buffer. -/
def nodeInfoAt? (buf : List UInt8) (i : Nat) : Option NodeInfo :=
  if nodeTableHeaderSize + (i + 1) * nodeInfoSize ≤ buf.length then
    some (.decode (buf.drop (nodeTableHeaderSize + i * nodeInfoSize)))
  else none

/-- The loop over the entries from `i` on; `none` where it reads outside the buffer. -/
def mergeLoop (now : Nat) (buf : List UInt8) (table : NodeTable) (i : Nat) : Nat → Option NodeTable
  | 0 => some table
  | n + 1 => (nodeInfoAt? buf i).bind fun info => mergeLoop now buf (table.merge now info) (i + 1) n

/-- `dsm_node_table_deserialize`; `none` where it reads outside the buffer. The size that it compares
is a 64-bit `size_t`. -/
def nodeTableDeserialize (table : NodeTable) (buf : List UInt8) (now : Nat) :
    Option (Int × NodeTable) :=
  if buf.length < nodeTableHeaderSize then some (-1, table)
  else
    let count := Bytes.field buf 0 4
    let needed := (nodeTableHeaderSize + count * nodeInfoSize) % 2 ^ 64
    if buf.length < needed then some (-1, table)
    else (mergeLoop now buf table 0 count).map fun table' => (0, table')

/-! ### Strings in a buffer -/

theorem strncpy_eq (src : List UInt8) (n : ℕ) :
    Dsm.strncpy src n = (cString src).take n ++ List.replicate (n - (cString src).length) 0 := by
  have hcopied : (src.take n).takeWhile (· != 0) = (cString src).take n :=
    (List.take_takeWhile ..).symm
  simp only [Dsm.strncpy, hcopied, List.length_take]
  congr 2
  omega

theorem cString_append_of_not_mem {src : List UInt8} (hsrc : 0 ∉ src) (tail : List UInt8) :
    cString (src ++ tail) = src ++ cString tail := by
  rw [cString, List.takeWhile_append_of_pos, cString]
  intro b hb
  rw [bne_iff_ne]
  rintro rfl
  exact hsrc hb

theorem not_mem_cString (src : List UInt8) : 0 ∉ cString src := by
  intro hmem
  have hne := List.all_eq_true.mp (List.all_takeWhile (p := (· != 0))) 0 hmem
  cases hne

theorem mem_take_iff_length_cString {src : List UInt8} {n : ℕ} (hsrc : n ≤ src.length) :
    0 ∈ src.take n ↔ (cString src).length < n := by
  constructor
  · intro hmem
    by_contra hlong
    obtain ⟨rest, hrest⟩ : cString src <+: src := List.takeWhile_prefix _
    rw [← hrest, List.take_append_of_le_length (Nat.le_of_not_lt hlong)] at hmem
    exact not_mem_cString src (List.mem_of_mem_take hmem)
  · intro hshort
    by_contra hmem
    have hsplit := cString_append_of_not_mem hmem (src.drop n)
    rw [List.take_append_drop] at hsplit
    rw [hsplit, List.length_append, List.length_take] at hshort
    omega

/-- A string of `n` bytes or more fills the copy, and what lies behind it belongs to the copied
string. -/
theorem cString_strncpy_append (src : List UInt8) (n : ℕ) (tail : List UInt8) :
    cString (Dsm.strncpy src n ++ tail) =
      if (cString src).length < n then cString src else (cString src).take n ++ cString tail := by
  have hcopied : 0 ∉ (cString src).take n := fun hmem => not_mem_cString src (List.mem_of_mem_take hmem)
  rw [strncpy_eq, List.append_assoc, cString_append_of_not_mem hcopied]
  split_ifs with hshort
  · obtain ⟨k, hk⟩ : ∃ k, n - (cString src).length = k + 1 := ⟨_, (Nat.succ_pred (by omega)).symm⟩
    rw [hk, List.take_of_length_le hshort.le, List.replicate_succ]
    exact List.append_nil _
  · rw [Nat.sub_eq_zero_of_le (Nat.le_of_not_lt hshort)]
    rfl

theorem strncpy_strncpy_append (src : List UInt8) (n : ℕ) (tail : List UInt8) :
    Dsm.strncpy (Dsm.strncpy src n ++ tail) n = Dsm.strncpy src n := by
  rw [strncpy_eq (Dsm.strncpy src n ++ tail), cString_strncpy_append, strncpy_eq src]
  split_ifs with hshort
  · rfl
  · have hfull : ((cString src).take n).length = n := by
      rw [List.length_take]
      omega
    rw [List.take_left' hfull, Nat.sub_eq_zero_of_le (Nat.le_of_not_lt hshort), List.length_append,
      hfull, Nat.sub_eq_zero_of_le (Nat.le_add_right ..)]

namespace IpBuffer

theorem drop_bytes (buf : IpBuffer) : buf.bytes.drop (maxIpLen - 1) = [buf.last] := by
  have hlt : maxIpLen - 1 < buf.bytes.length := by rw [buf.length_bytes]; decide
  have hend : buf.bytes.drop (maxIpLen - 1 + 1) = [] :=
    List.drop_of_length_le (by rw [buf.length_bytes]; decide)
  rw [List.drop_eq_getElem_cons hlt, hend, last, List.getD_eq_getElem?_getD,
    List.getElem?_eq_getElem hlt, Option.getD_some]

theorem bytes_strncpy (dst : IpBuffer) (src : List UInt8) :
    (dst.strncpy src).bytes = Dsm.strncpy src (maxIpLen - 1) ++ [dst.last] := by
  rw [← drop_bytes]
  rfl

theorem bytes_terminate_strncpy (dst : IpBuffer) (src : List UInt8) :
    (dst.strncpy src).terminate.bytes = Dsm.strncpy src (maxIpLen - 1) ++ [0] := by
  have htake : (dst.strncpy src).bytes.take (maxIpLen - 1) = Dsm.strncpy src (maxIpLen - 1) := by
    rw [bytes_strncpy, List.take_left' (length_strncpy ..)]
  rw [← htake]
  rfl

theorem last_of_bytes {buf : IpBuffer} {front : List UInt8} {b : UInt8}
    (hbytes : buf.bytes = front ++ [b]) (hfront : front.length = maxIpLen - 1) : buf.last = b := by
  rw [last, hbytes, ← hfront, List.getD_eq_getElem?_getD, List.getElem?_concat_length,
    Option.getD_some]

@[simp] theorem last_strncpy (dst : IpBuffer) (src : List UInt8) : (dst.strncpy src).last = dst.last :=
  last_of_bytes (bytes_strncpy dst src) (length_strncpy ..)

@[simp] theorem last_terminate_strncpy (dst : IpBuffer) (src : List UInt8) :
    (dst.strncpy src).terminate.last = 0 :=
  last_of_bytes (bytes_terminate_strncpy dst src) (length_strncpy ..)

theorem terminated_of_last {buf : IpBuffer} (hlast : buf.last = 0) : buf.Terminated := by
  have hmem : 0 ∈ buf.bytes.drop (maxIpLen - 1) := by
    rw [drop_bytes, hlast]
    exact List.mem_singleton_self 0
  exact List.mem_of_mem_drop hmem

theorem strncpy_strncpy (dst : IpBuffer) (src src' : List UInt8) :
    (dst.strncpy src).strncpy src' = dst.strncpy src' := by
  ext1
  rw [bytes_strncpy, bytes_strncpy, last_strncpy]

theorem strncpy_terminate_strncpy (dst : IpBuffer) (src src' : List UInt8) :
    (dst.strncpy src).terminate.strncpy src' = (dst.strncpy src').terminate := by
  ext1
  rw [bytes_strncpy, last_terminate_strncpy, bytes_terminate_strncpy]

/-- The copy ends within the array where its source ends within its first bytes, or where the array
has its zero at the end. -/
theorem terminated_strncpy (dst : IpBuffer) {src : List UInt8} (hsrc : maxIpLen - 1 ≤ src.length) :
    (dst.strncpy src).Terminated ↔ 0 ∈ src.take (maxIpLen - 1) ∨ dst.last = 0 := by
  have hcopy : 0 ∈ Dsm.strncpy src (maxIpLen - 1) ↔ 0 ∈ src.take (maxIpLen - 1) := by
    rw [mem_take_iff_length_cString hsrc, strncpy_eq, List.mem_append, List.mem_replicate]
    constructor
    · rintro (hmem | ⟨hne, -⟩)
      · exact (not_mem_cString src (List.mem_of_mem_take hmem)).elim
      · omega
    · intro hshort
      exact .inr ⟨by omega, rfl⟩
  rw [Terminated, bytes_strncpy, List.mem_append, hcopy, List.mem_singleton, eq_comm (a := (0 : UInt8))]

end IpBuffer

/-! ### The merge -/

/-- The loop as a table that is filled by node id. -/
def merging (now : ℕ) : Upsert Node NodeInfo UInt32 where
  key := (·.nodeId)
  keyOf := (·.nodeId)
  update := Node.update
  create := Node.ofInfo now
  capacity := maxNodes
  key_update _ _ := rfl
  key_create _ := rfl

theorem merging_overwrites (now : ℕ) : (merging now).Overwrites where
  update_update node info info' _ := by
    change (node.update info).update info' = node.update info'
    simp only [Node.update, IpBuffer.strncpy_strncpy]
  update_create info info' hid := by
    change info.nodeId = info'.nodeId at hid
    change (Node.ofInfo now info).update info' = Node.ofInfo now info'
    simp only [Node.ofInfo, Node.update, IpBuffer.strncpy_terminate_strncpy, hid]

/-- The entries of a message. -/
def messageInfos (buf : List UInt8) : List NodeInfo :=
  nodeInfos (buf.drop nodeTableHeaderSize) (Bytes.field buf 0 4)

/-- The loop reads the entries that the message counts, all of them in the buffer. -/
theorem mergeLoop_eq (now : ℕ) {buf : List UInt8} (table : NodeTable) {i n : ℕ}
    (hbuf : nodeTableHeaderSize + (i + n) * nodeInfoSize ≤ buf.length) :
    mergeLoop now buf table i n = some ((merging now).putAll table
      (nodeInfos (buf.drop (nodeTableHeaderSize + i * nodeInfoSize)) n)) := by
  induction n generalizing table i with
  | zero => rfl
  | succ n ih =>
      have hentry : nodeTableHeaderSize + (i + 1) * nodeInfoSize ≤ buf.length := by
        refine (Nat.add_le_add_left (Nat.mul_le_mul_right _ ?_) _).trans hbuf
        omega
      have hnext : (buf.drop (nodeTableHeaderSize + i * nodeInfoSize)).drop nodeInfoSize =
          buf.drop (nodeTableHeaderSize + (i + 1) * nodeInfoSize) := by
        rw [List.drop_drop, Nat.succ_mul, Nat.add_assoc]
      rw [mergeLoop, nodeInfoAt?, if_pos hentry, Option.bind_some,
        ih _ (by rwa [Nat.add_right_comm, Nat.add_assoc]), nodeInfos, hnext]
      rfl

theorem field_lt (buf : List UInt8) : Bytes.field buf 0 4 < 2 ^ 32 := by
  refine (Bytes.ofLe_lt _).trans_le ((Nat.pow_le_pow_right (by decide) (List.length_take_le ..)).trans ?_)
  decide

theorem nodeTableDeserialize_eq (table : NodeTable) (buf : List UInt8) (now : ℕ) :
    nodeTableDeserialize table buf now =
      if nodeTableHeaderSize ≤ buf.length ∧
          nodeTableHeaderSize + Bytes.field buf 0 4 * nodeInfoSize ≤ buf.length then
        some (0, (merging now).putAll table (messageInfos buf))
      else some (-1, table) := by
  have hcount := field_lt buf
  have hneeded : (nodeTableHeaderSize + Bytes.field buf 0 4 * nodeInfoSize) % 2 ^ 64 =
      nodeTableHeaderSize + Bytes.field buf 0 4 * nodeInfoSize := by
    refine Nat.mod_eq_of_lt ?_
    rw [nodeTableHeaderSize, nodeInfoSize]
    omega
  simp only [nodeTableDeserialize, hneeded]
  by_cases hheader : nodeTableHeaderSize ≤ buf.length
  · rw [if_neg (Nat.not_lt.mpr hheader)]
    by_cases hsize : nodeTableHeaderSize + Bytes.field buf 0 4 * nodeInfoSize ≤ buf.length
    · rw [if_neg (Nat.not_lt.mpr hsize), if_pos ⟨hheader, hsize⟩,
        mergeLoop_eq now table (by rwa [Nat.zero_add]), Nat.zero_mul]
      rfl
    · rw [if_pos (Nat.lt_of_not_le hsize), if_neg fun hboth => hsize hboth.2]
  · rw [if_pos (Nat.lt_of_not_le hheader), if_neg fun hboth => hheader hboth.1]

theorem length_ip_of_mem_nodeInfos {bytes : List UInt8} {n : ℕ} (hbytes : n * nodeInfoSize ≤ bytes.length)
    {info : NodeInfo} (hinfo : info ∈ nodeInfos bytes n) : info.ip.length = maxIpLen := by
  induction n generalizing bytes with
  | zero => cases hinfo
  | succ n ih =>
      rw [Nat.succ_mul] at hbytes
      rcases List.mem_cons.mp hinfo with rfl | hrest
      · rw [NodeInfo.decode, List.length_take, List.length_drop]
        rw [nodeInfoSize] at hbytes
        refine Nat.min_eq_left ?_
        rw [maxIpLen]
        omega
      · refine ih ?_ hrest
        rw [List.length_drop]
        omega

/-! ### Any bytes -/

/-- The last entry of a message for a node. -/
def latestInfo (buf : List UInt8) (nodeId : UInt32) : Option NodeInfo :=
  (messageInfos buf).reverse.find? (·.nodeId == nodeId)

/-- No message makes the receiver read outside it, and a refused message changes nothing. Otherwise the
count stays in range and the ids stay distinct; and every `ip` is a string, but for one whose array
did not end with a zero when the message filled the rest of it. -/
theorem nodeTableDeserialize_safe {table : NodeTable} (hsize : table.length ≤ maxNodes)
    (hids : table.ids.Nodup) (hip : ∀ node ∈ table, node.ip.Terminated) (buf : List UInt8) (now : ℕ) :
    ∃ result table', nodeTableDeserialize table buf now = some (result, table') ∧
      (result = -1 → table' = table) ∧
      (result ≠ -1 → table'.length ≤ maxNodes ∧ table'.ids.Nodup ∧
        ∀ (i : ℕ) (node : Node), table'[i]? = some node →
          (¬ node.ip.Terminated ↔ ∃ (old : Node) (info : NodeInfo), table[i]? = some old ∧
            old.ip.last ≠ 0 ∧ latestInfo buf old.nodeId = some info ∧
            0 ∉ info.ip.take (maxIpLen - 1))) := by
  have hkeys : ((merging now).keys table).Nodup := hids
  rw [nodeTableDeserialize_eq]
  split_ifs with hread
  · refine ⟨0, _, rfl, fun h => absurd h (by decide), fun _ =>
      ⟨Upsert.length_putAll_le hsize _, Upsert.nodup_keys_putAll hkeys _, fun i node hi => ?_⟩⟩
    rcases Upsert.getElem?_putAll_cases (merging_overwrites now) hkeys hi with
      ⟨hold, hnone⟩ | ⟨old, info, hold, hlatest, rfl⟩ | ⟨hnew, info, -, rfl⟩
    · refine ⟨fun hnot => absurd (hip node (List.mem_of_getElem? hold)) hnot, ?_⟩
      rintro ⟨old, info, hsame, -, hlatest, -⟩
      obtain rfl := Option.some.inj (hsame.symm.trans hold)
      cases hnone.symm.trans hlatest
    · have hlength : info.ip.length = maxIpLen := by
        refine length_ip_of_mem_nodeInfos ?_ (Upsert.keyOf_latest hlatest).1
        rw [List.length_drop]
        exact Nat.le_sub_of_add_le' hread.2
      have hwhole : maxIpLen - 1 ≤ info.ip.length := by
        rw [hlength]
        exact Nat.sub_le ..
      change ¬ (old.ip.strncpy info.ip).Terminated ↔ _
      rw [old.ip.terminated_strncpy hwhole, not_or]
      constructor
      · rintro ⟨hlong, hlast⟩
        exact ⟨old, info, hold, hlast, hlatest, hlong⟩
      · rintro ⟨old', info', hsame, hlast, hlatest', hlong⟩
        obtain rfl := Option.some.inj (hsame.symm.trans hold)
        obtain rfl : info' = info := Option.some.inj (hlatest'.symm.trans hlatest)
        exact ⟨hlong, hlast⟩
    · have hlast : (Node.ofInfo now info).ip.last = 0 := IpBuffer.last_terminate_strncpy ..
      refine ⟨fun hnot => absurd (IpBuffer.terminated_of_last hlast) hnot, ?_⟩
      rintro ⟨old, info', hsame, -⟩
      cases hnew.symm.trans hsame
  · exact ⟨-1, _, rfl, fun _ => rfl, fun h => absurd rfl h⟩

/-- A table with one entry, whose string is `a`, and a byte behind it. -/
def lateByteTable : NodeTable :=
  [{ nodeId := 7, role := 2, state := 2, ip := ⟨97 :: 0 :: List.replicate 13 0 ++ [98], by decide⟩
     port := 5000, chunks := 1, tcpFd := 4, lastHeartbeat := 0 }]

/-- A message with one entry, whose `ip` is sixteen digits. -/
def unterminatedMessage (nodeId : UInt32) : List UInt8 :=
  nodeTableBytes [{ nodeId := nodeId, ip := List.replicate maxIpLen 49, port := 5001, chunks := 1
                    role := 2, state := 2 }]

theorem nodeTableDeserialize_safe_new_id : ∃ table',
    nodeTableDeserialize lateByteTable (unterminatedMessage 8) 0 = some (0, table') ∧
      table'.length ≤ maxNodes ∧ table'.ids.Nodup := by
  obtain ⟨result, table', hresult, -, hrest⟩ := nodeTableDeserialize_safe
    (show lateByteTable.length ≤ maxNodes by decide) (by decide) (by decide) (unterminatedMessage 8) 0
  have haccepted : (nodeTableDeserialize lateByteTable (unterminatedMessage 8) 0).map (·.1) = some 0 := by
    decide +kernel
  rw [hresult] at haccepted
  obtain rfl : result = 0 := Option.some.inj haccepted
  exact ⟨table', hresult, (hrest (by decide)).1, (hrest (by decide)).2.1⟩

/-- The update writes over the terminator and stores no other. -/
theorem not_nodeTableDeserialize_terminated : lateByteTable.length ≤ maxNodes ∧
    lateByteTable.ids.Nodup ∧ (∀ node ∈ lateByteTable, node.ip.Terminated) ∧
    ∃ table', nodeTableDeserialize lateByteTable (unterminatedMessage 7) 0 = some (0, table') ∧
      ¬ ∀ node ∈ table', node.ip.Terminated := by
  refine ⟨by decide, by decide, by decide, _, rfl, ?_⟩
  decide +kernel

/-! ### The bytes of another table -/

namespace IpBuffer

theorem length_string {buf : IpBuffer} (hbuf : buf.Terminated) : buf.string.length ≤ maxIpLen - 1 := by
  have htake : 0 ∈ buf.bytes.take maxIpLen := by
    rw [List.take_of_length_le buf.length_bytes.le]
    exact hbuf
  exact Nat.le_sub_one_of_lt ((mem_take_iff_length_cString buf.length_bytes.ge).mp htake)

theorem cString_transferred {buf : IpBuffer} (hbuf : buf.Terminated) {last : UInt8}
    (hlast : buf.string.length = maxIpLen - 1 → last = 0) :
    cString (Dsm.strncpy buf.bytes (maxIpLen - 1) ++ [last]) = buf.string := by
  rw [cString_strncpy_append]
  have hlength : (cString buf.bytes).length ≤ maxIpLen - 1 := length_string hbuf
  split_ifs with hshort
  · rfl
  · rw [hlast (Nat.le_antisymm hlength (Nat.le_of_not_lt hshort)), List.take_of_length_le hlength]
    exact List.append_nil _

end IpBuffer

theorem length_info_ip (node : Node) : node.info.ip.length = maxIpLen := by
  rw [Node.info, List.length_append, length_strncpy]
  rfl

theorem nodeTableSerialize_eq {table : NodeTable} (hsize : table.length ≤ maxNodes) :
    nodeTableSerialize table maxMessageSize = some (nodeTableBytes (table.map Node.info)) := by
  rw [maxNodes] at hsize
  rw [nodeTableSerialize, if_neg (by rw [maxMessageSize, nodeTableHeaderSize, nodeInfoSize]; omega),
    nodeTableBytes, List.length_map, List.flatMap_map]

theorem nodeTableDeserialize_nodeTableBytes {sent : NodeTable} (hsize : sent.length ≤ maxNodes)
    (table : NodeTable) (now : ℕ) :
    nodeTableDeserialize table (nodeTableBytes (sent.map Node.info)) now =
      some (0, (merging now).putAll table (sent.map Node.info)) := by
  have hip : ∀ info ∈ sent.map Node.info, info.ip.length = maxIpLen := by
    intro info hinfo
    obtain ⟨node, -, rfl⟩ := List.mem_map.mp hinfo
    exact length_info_ip node
  have hcount : Bytes.field (nodeTableBytes (sent.map Node.info)) 0 4 = (sent.map Node.info).length :=
    field_nodeTableBytes (by rw [List.length_map]; exact hsize.trans_lt (by decide))
  have hlength := length_nodeTableBytes hip
  rw [nodeTableDeserialize_eq, if_pos, messageInfos, hcount, nodeInfos_nodeTableBytes hip]
  rw [hcount, hlength]
  exact ⟨Nat.le_add_right .., Nat.le_refl _⟩

/-- The fields that a message carries. -/
structure Node.SameInfo (node sent : Node) : Prop where
  nodeId : node.nodeId = sent.nodeId
  ip : node.ip.string = sent.ip.string
  port : node.port = sent.port
  chunks : node.chunks = sent.chunks
  role : node.role = sent.role
  state : node.state = sent.state

theorem Node.sameInfo_update {node sent : Node} (hsent : sent.ip.Terminated)
    (hid : node.nodeId = sent.nodeId)
    (hlast : sent.ip.string.length = maxIpLen - 1 → node.ip.last = 0) :
    (node.update sent.info).SameInfo sent where
  nodeId := hid
  ip := by
    change cString (node.ip.strncpy sent.info.ip).bytes = sent.ip.string
    rw [IpBuffer.bytes_strncpy, Node.info, strncpy_strncpy_append,
      IpBuffer.cString_transferred hsent hlast]
  port := rfl
  chunks := rfl
  role := rfl
  state := rfl

theorem Node.sameInfo_ofInfo (now : ℕ) {sent : Node} (hsent : sent.ip.Terminated) :
    (Node.ofInfo now sent.info).SameInfo sent where
  nodeId := rfl
  ip := by
    change cString (IpBuffer.zero.strncpy sent.info.ip).terminate.bytes = sent.ip.string
    rw [IpBuffer.bytes_terminate_strncpy, Node.info, strncpy_strncpy_append,
      IpBuffer.cString_transferred hsent fun _ => rfl]
  port := rfl
  chunks := rfl
  role := rfl
  state := rfl

/-- A table that is sent reaches the other table as a whole, as long as there is room for all ids
together: nothing else changes there, and nothing moves. -/
theorem nodeTable_transfer {sent table : NodeTable} (hsent : sent.ids.Nodup) (htable : table.ids.Nodup)
    (hip : ∀ m ∈ sent, m.ip.Terminated)
    (hroom : (table.ids ++ sent.ids).toFinset.card ≤ maxNodes)
    (hlast : ∀ m ∈ sent, ∀ w ∈ table, w.nodeId = m.nodeId → m.ip.string.length = maxIpLen - 1 →
      w.ip.last = 0) (now : ℕ) :
    ∃ buf merged, nodeTableSerialize sent maxMessageSize = some buf ∧
      nodeTableDeserialize table buf now = some (0, merged) ∧ merged.ids.Nodup ∧
      (∀ m ∈ sent, ∃ node ∈ merged, node.SameInfo m) ∧
      ∀ (i : ℕ) (w : Node), table[i]? = some w → ∃ node, merged[i]? = some node ∧
        node.nodeId = w.nodeId ∧ node.tcpFd = w.tcpFd ∧ (w.nodeId ∉ sent.ids → node = w) := by
  have hkeys : ((merging now).keys table).Nodup := htable
  have hinfos : (sent.map Node.info).map (merging now).keyOf = sent.ids := List.map_map ..
  have hsize : sent.length ≤ maxNodes := by
    have hsub : sent.ids.toFinset ⊆ (table.ids ++ sent.ids).toFinset := by
      intro k hk
      rw [List.mem_toFinset] at hk ⊢
      exact List.mem_append_right _ hk
    have hcard := (Finset.card_le_card hsub).trans hroom
    rw [List.toFinset_card_of_nodup hsent, NodeTable.ids, List.length_map] at hcard
    exact hcard
  refine ⟨_, _, nodeTableSerialize_eq hsize, nodeTableDeserialize_nodeTableBytes hsize table now,
    Upsert.nodup_keys_putAll hkeys _, fun m hm => ?_, fun i w hi => ?_⟩
  · have hlatest : (merging now).latest (sent.map Node.info) m.nodeId = some m.info :=
      Upsert.latest_of_nodup (U := merging now) (by rw [hinfos]; exact hsent) (List.mem_map_of_mem hm)
    have hmem : m.nodeId ∈ (merging now).keys ((merging now).putAll table (sent.map Node.info)) := by
      refine (Upsert.mem_keys_putAll hkeys ?_).mpr (.inr ?_)
      · rw [hinfos]
        exact hroom
      · rw [hinfos]
        exact List.mem_map_of_mem hm
    obtain ⟨node, hnode, hid⟩ := List.mem_map.mp hmem
    obtain ⟨i, hi⟩ := List.mem_iff_getElem?.mp hnode
    refine ⟨node, hnode, ?_⟩
    rcases Upsert.getElem?_putAll_cases (merging_overwrites now) hkeys hi with
      ⟨-, hnone⟩ | ⟨w, info, hw, hinfo, rfl⟩ | ⟨-, info, hinfo, rfl⟩
    · rw [hid, hlatest] at hnone
      cases hnone
    · change w.nodeId = m.nodeId at hid
      change (merging now).latest (sent.map Node.info) w.nodeId = some info at hinfo
      rw [hid, hlatest] at hinfo
      obtain rfl := Option.some.inj hinfo
      exact Node.sameInfo_update (hip m hm) hid (hlast m hm w (List.mem_of_getElem? hw) hid)
    · rw [hid, hlatest] at hinfo
      obtain rfl := Option.some.inj hinfo
      exact Node.sameInfo_ofInfo now (hip m hm)
  · refine ⟨_, Upsert.getElem?_putAll_of_getElem? (merging_overwrites now) hkeys hi _, ?_⟩
    cases hlatest : (merging now).latest (sent.map Node.info) ((merging now).key w) with
    | none => exact ⟨rfl, rfl, fun _ => rfl⟩
    | some info =>
        obtain ⟨hmem, hkey⟩ := Upsert.keyOf_latest hlatest
        refine ⟨rfl, rfl, fun hnot => absurd ?_ hnot⟩
        change info.nodeId = w.nodeId at hkey
        obtain ⟨m, hm, rfl⟩ := List.mem_map.mp hmem
        exact hkey ▸ List.mem_map_of_mem hm

/-- A table with one entry, whose `ip` has fifteen digits. -/
def fullIpTable (nodeId : UInt32) : NodeTable :=
  [{ nodeId := nodeId, role := 2, state := 2, ip := ⟨List.replicate 15 49 ++ [0], by decide⟩
     port := 5001, chunks := 1, tcpFd := 5, lastHeartbeat := 0 }]

/-- Two entries with strings of one character; node 7 comes second. -/
def shortIpTable : NodeTable :=
  [{ nodeId := 9, role := 2, state := 2, ip := ⟨98 :: List.replicate 15 0, by decide⟩
     port := 5002, chunks := 1, tcpFd := 4, lastHeartbeat := 0 },
   { nodeId := 7, role := 2, state := 2, ip := ⟨97 :: List.replicate 15 0, by decide⟩
     port := 5000, chunks := 1, tcpFd := 6, lastHeartbeat := 0 }]

theorem nodeTable_transfer_shared_id : ∃ buf merged,
    nodeTableSerialize (fullIpTable 7) maxMessageSize = some buf ∧
      nodeTableDeserialize shortIpTable buf 0 = some (0, merged) ∧ merged.ids.Nodup ∧
      ∃ node ∈ merged, node.nodeId = 7 ∧ node.ip.string = List.replicate 15 49 := by
  obtain ⟨buf, merged, hbuf, hmerged, hids, hsame, -⟩ := nodeTable_transfer
    (show (fullIpTable 7).ids.Nodup by decide) (show shortIpTable.ids.Nodup by decide) (by decide)
    (by decide +kernel) (by decide) 0
  obtain ⟨node, hnode, hinfo⟩ := hsame _ (List.mem_singleton_self _)
  exact ⟨buf, merged, hbuf, hmerged, hids, node, hnode, hinfo.nodeId, hinfo.ip⟩

/-- Behind fifteen new characters the old last byte is no terminator. -/
theorem not_nodeTable_transfer : (fullIpTable 7).ids.Nodup ∧ lateByteTable.ids.Nodup ∧
    (∀ m ∈ fullIpTable 7, m.ip.Terminated ∧ m.ip.string.length ≤ 15) ∧
    (∀ w ∈ lateByteTable, w.ip.Terminated ∧ w.ip.string.length ≤ 15) ∧
    (lateByteTable.ids ++ (fullIpTable 7).ids).toFinset.card ≤ maxNodes ∧
    ∃ buf merged, nodeTableSerialize (fullIpTable 7) maxMessageSize = some buf ∧
      nodeTableDeserialize lateByteTable buf 0 = some (0, merged) ∧
      ∃ m ∈ fullIpTable 7, ∀ node ∈ merged, ¬ node.SameInfo m := by
  refine ⟨by decide, by decide, by decide, by decide, by decide +kernel, _, _, rfl, rfl, _,
    List.mem_singleton_self _, ?_⟩
  suffices hstring : ∀ node : Node, node ∈ _ → node.ip.string ≠ List.replicate 15 49 from
    fun node hnode hsame => hstring node hnode hsame.ip
  decide +kernel

end Dsm.Raw
