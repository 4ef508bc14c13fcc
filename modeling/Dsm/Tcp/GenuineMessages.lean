import Dsm.Tcp.ClusterTraffic
import Dsm.Tcp.InstallFrame

/-!
# What the code sends

Every message of the program is built by one of its sends, and that fixes its length, the ids in it and
the size of the page data in it. For six of the types that the dispatcher handles there is no send at
all. A message that was built so is never one of those that the dispatcher cannot be trusted with.
-/

namespace Dsm

/-! ### What the code builds -/

/-- The payloads that the sends of a node with this memory build for a type of message; for the other
types there is no send. -/
inductive MsgType.Builds (mem : NodeMem) : MsgType → List UInt8 → Prop where
  | joinResponse (nodeId : NodeId) : Builds mem .joinResponse (Bytes.le nodeId 4)
  | nodeTable {table : NodeTable} {buf : List UInt8} (hnodes : table.length ≤ maxNodes)
      (hbuf : nodeTableSerialize table maxMessageSize = some buf) : Builds mem .nodeTable buf
  | pageRequest (globalAddr : Nat) :
      Builds mem .pageRequest (Bytes.le globalAddr 8 ++ Bytes.le 0 4)
  | pageData {globalAddr : Nat} {payload : List UInt8} (haddr : globalAddr < 2 ^ 64)
      (hdata : mem.pageData globalAddr = some payload) : Builds mem .pageData payload
  | lock {t : MsgType} (ht : t ∈ [.lockRequest, .lockGrant, .lockRelease]) {l : LockId}
      (hl : l < maxLocks) : Builds mem t (Bytes.le l 4)
  | empty {t : MsgType} (ht : t ∈ [.barrierEnter, .barrierRelease, .shutdown]) : Builds mem t []

/-- A message that one of the sends of a node with this memory has built. -/
structure Message.Genuine (m : Message) (mem : NodeMem) (t : MsgType) : Prop where
  magic : m.header.magic = Dsm.magic
  type : m.header.type = t.code
  payloadLen : m.header.payloadLen = UInt32.ofNat m.payload.length
  builds : t.Builds mem m.payload

/-- The types that the master sends; the other ones are sent by workers. -/
def MsgType.fromMaster : MsgType → Bool
  | .joinResponse | .nodeTable | .pageData | .lockGrant | .barrierRelease | .shutdown => true
  | _ => false

theorem NodeMem.length_pageData {m : NodeMem} {g : Nat} {payload : List UInt8}
    (h : m.pageData g = some payload) : payload.length = 20 + pageSize := by
  rw [NodeMem.pageData] at h
  split at h
  · cases h
  · rw [Option.ite_none_left_eq_some] at h
    cases h.2
    simp [pageSize]

theorem NodeMem.field_pageData {m : NodeMem} {g : Nat} {payload : List UInt8}
    (h : m.pageData g = some payload) : Bytes.field payload 8 4 = pageSize := by
  rw [NodeMem.pageData] at h
  split at h
  · cases h
  · rw [Option.ite_none_left_eq_some] at h
    cases h.2
    rw [List.append_assoc, List.append_assoc]
    have hfield := Bytes.field_append_le (Bytes.le g 8)
    rw [Bytes.length_le] at hfield
    exact hfield _ pageSize 4

theorem length_nodeTableSerialize {table : NodeTable} {bufLen : Nat} {buf : List UInt8}
    (h : nodeTableSerialize table bufLen = some buf) :
    buf.length = nodeTableHeaderSize + table.length * nodeInfoSize := by
  rw [nodeTableSerialize, Option.ite_none_left_eq_some] at h
  cases h.2
  have hip : ∀ info ∈ table.map Node.info, info.ip.length = maxIpLen := by
    intro info hinfo
    obtain ⟨node, -, rfl⟩ := List.mem_map.mp hinfo
    exact node.length_info_ip
  have hentries := length_flatMap_encode hip
  rw [List.flatMap_map, List.length_map] at hentries
  rw [List.length_append, Bytes.length_le, hentries, nodeTableHeaderSize]

theorem field_nodeTableSerialize {table : NodeTable} {bufLen : Nat} {buf : List UInt8}
    (hnodes : table.length ≤ maxNodes) (h : nodeTableSerialize table bufLen = some buf) :
    Bytes.field buf 0 4 = table.length := by
  rw [nodeTableSerialize, Option.ite_none_left_eq_some] at h
  cases h.2
  have hfield := Bytes.field_append_le [] (table.flatMap fun node => node.info.encode) table.length 4
  rw [List.nil_append, List.length_nil] at hfield
  rw [hfield, Nat.mod_eq_of_lt (hnodes.trans_lt (by decide))]

namespace MsgType.Builds

variable {mem : NodeMem} {t : MsgType} {payload : List UInt8} (h : t.Builds mem payload)
include h

theorem length_le : payload.length ≤ tcpBufferSize := by
  cases h with
  | joinResponse | lock => simp [tcpBufferSize]
  | pageRequest => simp [tcpBufferSize]
  | empty => exact Nat.zero_le _
  | pageData _ hdata =>
      rw [NodeMem.length_pageData hdata]
      decide
  | @nodeTable table buf hnodes hbuf =>
      rw [length_nodeTableSerialize hbuf]
      rw [maxNodes] at hnodes
      simp only [nodeTableHeaderSize, nodeInfoSize, tcpBufferSize]
      omega

theorem needed {r : Received} (hr : r.payload = payload) :
    r.needed t ≤ r.len ∧
      (t ∈ [.lockRequest, .lockGrant, .lockRelease] → 4 ≤ r.len ∧ r.field 0 4 < maxLocks) := by
  have hlen : payload.length = r.len := hr ▸ r.length
  cases h with
  | joinResponse => exact ⟨by rw [← hlen, Bytes.length_le]; rfl, by simp⟩
  | pageRequest =>
      rw [List.length_append, Bytes.length_le, Bytes.length_le] at hlen
      exact ⟨by rw [← hlen]; rfl, by simp⟩
  | @nodeTable table buf hnodes hbuf =>
      rw [length_nodeTableSerialize hbuf] at hlen
      have hcount : r.field 0 4 = table.length := by
        rw [r.field_eq (by rw [← hlen, nodeTableHeaderSize]; omega), hr,
          field_nodeTableSerialize hnodes hbuf]
      exact ⟨by rw [Received.needed, hcount, hlen], by simp⟩
  | pageData _ hdata =>
      rw [NodeMem.length_pageData hdata] at hlen
      have hsize : r.field 8 4 = pageSize := by
        rw [r.field_eq (by omega), hr, NodeMem.field_pageData hdata]
      exact ⟨by rw [Received.needed, hsize, hlen], by simp⟩
  | @lock t ht l hl =>
      rw [Bytes.length_le] at hlen
      have hid : r.field 0 4 = l := by
        rw [r.field_eq (by omega), hr]
        have hfield := Bytes.field_append_le [] [] l 4
        rw [List.append_nil, List.nil_append, List.length_nil] at hfield
        rw [hfield, Nat.mod_eq_of_lt (hl.trans (by decide))]
      refine ⟨?_, fun _ => ⟨hlen.le, hid ▸ hl⟩⟩
      simp only [List.mem_cons, List.not_mem_nil, or_false] at ht
      rcases ht with rfl | rfl | rfl <;> exact hlen.le
  | @empty t ht =>
      simp only [List.mem_cons, List.not_mem_nil, or_false] at ht
      rcases ht with rfl | rfl | rfl <;> exact ⟨Nat.zero_le _, by simp⟩

omit h in
theorem of_pageData (h : MsgType.Builds mem .pageData payload) :
    payload.length = 20 + pageSize ∧ Bytes.field payload 8 4 = pageSize := by
  cases h with
  | pageData _ hdata => exact ⟨NodeMem.length_pageData hdata, NodeMem.field_pageData hdata⟩
  | lock ht => simp at ht
  | empty ht => simp at ht

/-- `NEW_NODE`, `NODE_LEFT`, the two types of remote allocation and those of the heartbeat are handled,
but never sent. -/
theorem notMem_unsent : t ∉ [.newNode, .nodeLeft, .allocRequest, .allocResponse, .heartbeat,
    .heartbeatAck] := by
  cases h with
  | lock ht | empty ht =>
      simp only [List.mem_cons, List.not_mem_nil, or_false] at ht
      rcases ht with rfl | rfl | rfl <;> decide
  | _ => decide

end MsgType.Builds

theorem Message.Genuine.wellFormed {m : Message} {mem : NodeMem} {t : MsgType}
    (h : m.Genuine mem t) : m.WellFormed := by
  have hle := h.builds.length_le
  have hlen : m.header.payloadLen.toNat = m.payload.length := by
    rw [h.payloadLen, UInt32.toNat_ofNat']
    exact Nat.mod_eq_of_lt (hle.trans_lt (by decide))
  exact ⟨h.magic, hlen ▸ hle, hlen.symm⟩

theorem NodeCtx.genuine_message (c : NodeCtx) {mem : NodeMem} {t : MsgType} (dst : NodeId)
    {payload : List UInt8} (h : t.Builds mem payload) : (c.message t dst payload).Genuine mem t :=
  ⟨rfl, rfl, rfl, h⟩

theorem Message.Genuine.received {m : Message} {mem : NodeMem} {t : MsgType}
    (h : m.Genuine mem t) {r : Received} (hheader : r.header = m.header) : r.type = some t := by
  rw [Received.type, hheader, h.type, MsgType.ofCode_code]

/-! ### A genuine message is handled safely -/

namespace Message.Genuine

variable {m : Message} {mem : NodeMem} {t : MsgType} (h : m.Genuine mem t) {r : Received}
  (hheader : r.header = m.header)
  (hpayload : r.payload = m.payload)
include h hheader hpayload

theorem not_tooShort : ¬ r.TooShort := by
  rintro ⟨t', ht', hshort⟩
  rw [h.received hheader] at ht'
  cases ht'
  exact Nat.not_lt.mpr (h.builds.needed hpayload).1 hshort

theorem not_badLockId : ¬ r.BadLockId := by
  rintro ⟨t', ht', hlock, hbad⟩
  rw [h.received hheader] at ht'
  cases ht'
  exact Nat.not_lt.mpr hbad ((h.builds.needed hpayload).2 hlock).2

/-- Of the four unchecked cases two are never sent, and in the other two the sender keeps to what is
not checked. -/
theorem ok (c : NodeCtx) : r.Ok c := by
  have hneeded := h.builds.needed hpayload
  have htype := h.received hheader
  refine ⟨fun hnew => ?_, fun hdata _ _ _ => ?_, fun halloc => ?_, fun hgrant _ => ?_⟩
  · cases htype.symm.trans hnew
    exact absurd (by simp) h.builds.notMem_unsent
  · cases htype.symm.trans hdata
    exact hneeded.1
  · cases htype.symm.trans halloc
    exact absurd (by simp) h.builds.notMem_unsent
  · cases htype.symm.trans hgrant
    exact (hneeded.2 (by simp)).2

theorem installsOnly (c : NodeCtx) (htype : t = .pageData) : c.InstallsOnly r := by
  subst htype
  have hdata := h.received hheader
  obtain ⟨hlong, hfield⟩ := h.builds.of_pageData
  have hsize : r.field 8 4 = pageSize := by
    have hlen : m.payload.length = r.len := hpayload ▸ r.length
    rw [r.field_eq (by omega), hpayload, hfield]
  have hbytes := c.handlePageData_bytes hdata
  refine ⟨fun page _ i hi => ?_, fun a ha => ?_, c.handlePageData_records hdata⟩
  · rw [hsize] at hi
    exact if_pos ⟨Nat.le_add_right _ _, Nat.add_lt_add_left hi _⟩
  · rw [hbytes]
    cases htarget : c.copyTarget r with
    | none => rfl
    | some page =>
        have hout := ha page (c.pageLookup_of_copyTarget htarget)
        rw [Option.elim_some, hsize]
        exact if_neg hout

end Message.Genuine

end Dsm
