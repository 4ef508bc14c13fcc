import Dsm.Tcp.Dispatch
import Mathlib.Data.List.TakeWhile

/-!
# Which messages the dispatcher handles safely

A handler indexes the fixed arrays of the context by counts that the node keeps below their sizes
(`NodeCtx.Bounded`), and by a lock id; it reads the payload at offsets below a length that it has
compared with `payload_len`. Four cases leave such a check out, and a message is handled safely
exactly when it does not run into one of them (`NodeCtx.safeOn_iff`).
-/

namespace Dsm

namespace Received

/-- The bytes that the payload of a message needs: its structure and what the structure announces. -/
def needed (r : Received) : MsgType → Nat
  | .joinResponse | .nodeLeft | .lockRequest | .lockGrant | .lockRelease => 4
  | .nodeTable => nodeTableHeaderSize + r.field 0 4 * nodeInfoSize
  | .newNode => nodeInfoSize
  | .pageRequest | .allocRequest => 12
  | .pageData => 20 + r.field 8 4
  | .allocResponse => 24
  | .barrierEnter | .barrierRelease | .heartbeat | .heartbeatAck | .shutdown => 0

/-- The message is too short for its type. -/
def TooShort (r : Received) : Prop := ∃ t ∈ r.type, r.len < r.needed t

/-- The message is about a lock that does not exist. -/
def BadLockId (r : Received) : Prop :=
  ∃ t ∈ r.type, t ∈ [.lockRequest, .lockGrant, .lockRelease] ∧ maxLocks ≤ r.field 0 4

/-- What the four cases leave to the sender: `NEW_NODE` carries the end of the string that is logged,
`PAGE_DATA` as many bytes as it announces, `ALLOC_REQUEST` its structure, and `LOCK_GRANT` the id of a
lock. -/
def Ok (r : Received) (c : NodeCtx) : Prop :=
  (r.type = some .newNode → nodeInfoSize ≤ r.len → c.logLevel ≤ logLevelInfo →
      0 ∈ r.payload.drop 4) ∧
    (r.type = some .pageData → 20 ≤ r.len →
      (pageLookup c.mem.ctx.pageTable (r.field 0 8)).isSome = true → r.writeOk = true →
        20 + r.field 8 4 ≤ r.len) ∧
    (r.type = some .allocRequest → c.isMaster = true → 12 ≤ r.len) ∧
    (r.type = some .lockGrant → 4 ≤ r.len → r.field 0 4 < maxLocks)

instance (r : Received) (c : NodeCtx) : Decidable (r.Ok c) :=
  inferInstanceAs (Decidable (_ ∧ _ ∧ _ ∧ _))

end Received

/-- The dispatcher stays inside the payload and the arrays, and a bad message changes nothing. -/
structure NodeCtx.SafeOn (c : NodeCtx) (r : Received) : Prop where
  inBounds : ∀ a ∈ (c.handleMessage r).accesses, a.InBounds r.len
  unchanged : r.TooShort ∨ r.BadLockId → (c.handleMessage r).ctx = c

/-- No record of the table stands for the address `NULL`. -/
def PageTable.NonNull (table : PageTable) : Prop :=
  ∀ pairs ∈ table.addrs, ∀ x ∈ pairs, x.2 ≠ 0

/-- The counts of the fixed arrays are in range. -/
structure NodeCtx.Bounded (c : NodeCtx) : Prop where
  nodes : c.table.length ≤ maxNodes
  waiters : ∀ l, (c.locks l).waiters.length ≤ maxNodes
  arrived : c.barrier.arrived.length < maxNodes
  pages : c.mem.ctx.pageTable.NonNull

/-! ### Accesses to the node table -/

section

variable {table : NodeTable} {len : Nat} (h : table.length ≤ maxNodes)
include h

theorem NodeTable.inBounds_scan (p : Node → Bool) : ∀ a ∈ table.scan p, a.InBounds len := by
  intro a ha
  obtain ⟨i, hi, rfl⟩ := List.mem_map.mp ha
  have hlt : i < min (table.findIdx p + 1) table.length := List.mem_range.mp hi
  show i < maxNodes
  omega

theorem NodeTable.inBounds_getAccesses (nodeId : NodeId) :
    ∀ a ∈ table.getAccesses nodeId, a.InBounds len :=
  NodeTable.inBounds_scan h _

theorem NodeTable.inBounds_removeAccesses (nodeId : NodeId) :
    ∀ a ∈ table.removeAccesses nodeId, a.InBounds len := by
  intro a ha
  rcases List.mem_append.mp ha with ha | ha
  · exact NodeTable.inBounds_getAccesses h nodeId a ha
  · split at ha
    · obtain ⟨i, hi, rfl⟩ := List.mem_map.mp ha
      have hlt : i < table.length - table.findIdx (·.nodeId == nodeId) := List.mem_range.mp hi
      show table.findIdx (·.nodeId == nodeId) + i < maxNodes
      omega
    · cases ha

end

theorem NodeTable.inBounds_mergeAccesses (now : Nat) {table : NodeTable}
    (h : table.length ≤ maxNodes) {len : Nat} (infos : List NodeInfo) (i : Nat)
    (hlen : nodeTableHeaderSize + (i + infos.length) * nodeInfoSize ≤ len) :
    ∀ a ∈ table.mergeAccesses now i infos, a.InBounds len := by
  induction infos generalizing table i with
  | nil =>
      intro a ha
      cases ha
  | cons info infos ih =>
      intro a ha
      rw [List.length_cons] at hlen
      rw [NodeTable.mergeAccesses, List.mem_append, List.mem_append, List.mem_cons] at ha
      rcases ha with ((rfl | ha) | ha) | ha
      · refine .inr ?_
        have hmul : (i + 1) * nodeInfoSize ≤ (i + (infos.length + 1)) * nodeInfoSize :=
          Nat.mul_le_mul_right _ (by omega)
        rw [Nat.succ_mul] at hmul
        omega
      · exact NodeTable.inBounds_getAccesses h _ a ha
      · split at ha
        · rename_i hroom
          rw [List.mem_singleton.mp ha]
          rw [Bool.and_eq_true, decide_eq_true_eq] at hroom
          exact hroom.2
        · cases ha
      · exact ih (length_nodeTableMerge h now info) (i + 1)
          (by rwa [show i + 1 + infos.length = i + (infos.length + 1) by omega]) a ha

theorem length_nodeInfos (bytes : List UInt8) (count : Nat) :
    (nodeInfos bytes count).length = count := by
  induction count generalizing bytes with
  | zero => rfl
  | succ count ih => rw [nodeInfos, List.length_cons, ih]

theorem inBounds_nodeTableDeserializeAccesses {table : NodeTable} (h : table.length ≤ maxNodes)
    (buf : List UInt8) (now : Nat) :
    ∀ a ∈ nodeTableDeserializeAccesses table buf now, a.InBounds buf.length := by
  intro a ha
  rw [nodeTableDeserializeAccesses] at ha
  split_ifs at ha with hheader
  · cases ha
  · rcases List.mem_cons.mp ha with rfl | ha
    · rw [nodeTableHeaderSize] at hheader
      exact .inr (by omega)
    · split_ifs at ha with hentries
      · cases ha
      · refine NodeTable.inBounds_mergeAccesses now h _ 0 ?_ a ha
        rw [length_nodeInfos, Nat.zero_add]
        omega

/-! ### Accesses to the locks and the barrier -/

theorem inBounds_syncHandleLockRequestAccesses (locks : LockTable) (l : LockId) (len : Nat) :
    ∀ a ∈ syncHandleLockRequestAccesses locks l, a.InBounds len := by
  intro a ha
  rw [syncHandleLockRequestAccesses] at ha
  split_ifs at ha with hbad hroom
  · cases ha
  · rw [Bool.and_eq_true, decide_eq_true_eq] at hroom
    rcases List.mem_cons.mp ha with rfl | ha
    · exact Nat.lt_of_not_le hbad
    · rw [List.mem_singleton.mp ha]
      exact hroom.2
  · rw [List.mem_singleton.mp ha]
    exact Nat.lt_of_not_le hbad

theorem inBounds_syncHandleLockReleaseAccesses {locks : LockTable}
    (h : ∀ l, (locks l).waiters.length ≤ maxNodes) (node : NodeId) (l : LockId) (len : Nat) :
    ∀ a ∈ syncHandleLockReleaseAccesses locks node l, a.InBounds len := by
  intro a ha
  rw [syncHandleLockReleaseAccesses] at ha
  split_ifs at ha with hbad hheld
  · cases ha
  · rcases List.mem_cons.mp ha with rfl | ha
    · exact Nat.lt_of_not_le hbad
    · obtain ⟨i, hi, rfl⟩ := List.mem_map.mp ha
      exact Nat.lt_of_lt_of_le (List.mem_range.mp hi) (h l)
  · rw [List.mem_singleton.mp ha]
    exact Nat.lt_of_not_le hbad

theorem inBounds_syncHandleBarrierEnterAccesses {barrier : Barrier}
    (h : barrier.arrived.length < maxNodes) (total len : Nat) :
    ∀ a ∈ syncHandleBarrierEnterAccesses barrier total, a.InBounds len := by
  intro a ha
  rcases List.mem_cons.mp ha with rfl | ha
  · exact h
  · split_ifs at ha with hfull
    · obtain ⟨i, hi, rfl⟩ := List.mem_map.mp ha
      exact Nat.lt_of_lt_of_le (List.mem_range.mp hi) h
    · cases ha

/-! ### A handler stays in bounds -/

theorem NodeCtx.inBounds_handleJoinResponse (c : NodeCtx) (r : Received) :
    ∀ a ∈ (c.handleJoinResponse r).accesses, a.InBounds r.len := by
  intro a ha
  rw [NodeCtx.handleJoinResponse] at ha
  split_ifs at ha with hlen
  · rw [List.mem_singleton.mp ha]
    exact .inr hlen
  · cases ha

theorem NodeCtx.inBounds_handleAllocResponse (c : NodeCtx) (r : Received) :
    ∀ a ∈ (c.handleAllocResponse r).accesses, a.InBounds r.len := by
  intro a ha
  rw [NodeCtx.handleAllocResponse] at ha
  split_ifs at ha with hlen
  · simp only [NodeCtx.keep, List.mem_cons, List.not_mem_nil, or_false] at ha
    rcases ha with rfl | rfl
    · exact .inr (by omega)
    · exact .inr (by omega)
  · cases ha

namespace NodeCtx.Bounded

variable {c : NodeCtx} (h : c.Bounded) (r : Received)
include h

theorem inBounds_handleNodeTable : ∀ a ∈ (c.handleNodeTable r).accesses, a.InBounds r.len := by
  have haccess := inBounds_nodeTableDeserializeAccesses h.nodes r.payload r.now
  rwa [r.length] at haccess

theorem inBounds_handleNodeLeft : ∀ a ∈ (c.handleNodeLeft r).accesses, a.InBounds r.len := by
  intro a ha
  rw [NodeCtx.handleNodeLeft] at ha
  split_ifs at ha with hlen
  · rcases List.mem_cons.mp ha with rfl | ha
    · exact .inr hlen
    · exact NodeTable.inBounds_removeAccesses h.nodes _ a ha
  · cases ha

theorem inBounds_handlePageRequest : ∀ a ∈ (c.handlePageRequest r).accesses, a.InBounds r.len := by
  have hfield : 12 ≤ r.len → (Access.payload 0 8).InBounds r.len := fun hlen => .inr (by omega)
  intro a ha
  rw [NodeCtx.handlePageRequest] at ha
  split at ha
  · rename_i hlen
    split at ha
    · rw [List.mem_singleton.mp ha]
      exact hfield hlen
    · split at ha
      · rw [List.mem_singleton.mp ha]
        exact hfield hlen
      · rcases List.mem_cons.mp ha with rfl | ha
        · exact hfield hlen
        · exact NodeTable.inBounds_getAccesses h.nodes _ a ha
  · cases ha

theorem inBounds_sendGrant (out : LockOutcome) (l : LockId) {accesses : List Access}
    (haccesses : ∀ a ∈ accesses, a.InBounds r.len) :
    ∀ a ∈ (c.sendGrant out l accesses).accesses, a.InBounds r.len := by
  intro a ha
  rw [NodeCtx.sendGrant] at ha
  split at ha
  · exact haccesses a ha
  · rcases List.mem_append.mp ha with ha | ha
    · exact haccesses a ha
    · exact NodeTable.inBounds_getAccesses h.nodes _ a ha

theorem inBounds_handleLockRequest : ∀ a ∈ (c.handleLockRequest r).accesses, a.InBounds r.len := by
  rw [NodeCtx.handleLockRequest]
  split_ifs with hlen
  · refine h.inBounds_sendGrant r _ _ (List.forall_mem_cons.mpr ⟨.inr hlen.2, ?_⟩)
    exact inBounds_syncHandleLockRequestAccesses c.locks _ _
  · intro a ha
    cases ha

theorem inBounds_handleLockRelease : ∀ a ∈ (c.handleLockRelease r).accesses, a.InBounds r.len := by
  rw [NodeCtx.handleLockRelease]
  split_ifs with hlen
  · refine h.inBounds_sendGrant r _ _ (List.forall_mem_cons.mpr ⟨.inr hlen.2, ?_⟩)
    exact inBounds_syncHandleLockReleaseAccesses h.waiters _ _ _
  · intro a ha
    cases ha

theorem inBounds_barrierEnter (node : NodeId) : ∀ a ∈ (c.barrierEnter node).accesses, a.InBounds r.len := by
  have haccess := inBounds_syncHandleBarrierEnterAccesses h.arrived c.table.length r.len
  rw [NodeCtx.barrierEnter]
  split
  · exact haccess
  · refine List.forall_mem_append.mpr ⟨haccess, fun a ha => ?_⟩
    obtain ⟨i, -, hi⟩ := List.mem_flatMap.mp ha
    exact NodeTable.inBounds_getAccesses h.nodes i a hi

theorem inBounds_handleBarrierEnter : ∀ a ∈ (c.handleBarrierEnter r).accesses, a.InBounds r.len := by
  rw [NodeCtx.handleBarrierEnter]
  split_ifs
  · exact h.inBounds_barrierEnter r _
  · intro a ha
    cases ha

end NodeCtx.Bounded

/-! ### The four cases without a check -/

/-- A string is read to its end inside the payload if the payload has its end. -/
theorem NodeCtx.inBounds_stringAccess_iff (r : Received) {offset : Nat} (h : offset ≤ r.len) :
    (NodeCtx.stringAccess r offset).InBounds r.len ↔ 0 ∈ r.payload.drop offset := by
  have hlength : (r.payload.drop offset).length = r.len - offset := by
    rw [List.length_drop, r.length]
    rfl
  have hprefix : cString (r.payload.drop offset) <+: r.payload.drop offset := List.takeWhile_prefix _
  have hle := hprefix.length_le
  constructor
  · intro hbounds
    by_contra hnot
    have hall : cString (r.payload.drop offset) = r.payload.drop offset := by
      refine List.takeWhile_eq_self_iff.mpr fun b hb => ?_
      simp only [bne_iff_ne, ne_eq]
      exact fun hzero => hnot (hzero ▸ hb)
    rcases hbounds with hbounds | hbounds
    · omega
    · rw [hall] at hbounds
      omega
  · intro hmem
    have hne : (cString (r.payload.drop offset)).length ≠ (r.payload.drop offset).length := by
      intro heq
      have hself := hprefix.eq_of_length heq
      simpa using List.takeWhile_eq_self_iff.mp hself 0 hmem
    exact .inr (by omega)

theorem NodeCtx.inBounds_handleNewNode_iff (c : NodeCtx) (r : Received) :
    (∀ a ∈ (c.handleNewNode r).accesses, a.InBounds r.len) ↔
      (nodeInfoSize ≤ r.len → c.logLevel ≤ logLevelInfo → 0 ∈ r.payload.drop 4) := by
  rw [NodeCtx.handleNewNode]
  split_ifs with hcase
  · have hlen : 34 ≤ r.len := hcase.1
    have hid : (Access.payload 0 4).InBounds r.len := .inr (by omega)
    have hport : (Access.payload 20 2).InBounds r.len := .inr (by omega)
    simp only [NodeCtx.keep, List.forall_mem_cons, hid, hport, true_and,
      NodeCtx.inBounds_stringAccess_iff r (show 4 ≤ r.len by omega)]
    constructor
    · exact fun hbounds _ _ => hbounds.1
    · exact fun hzero => ⟨hzero hcase.1 hcase.2, fun a ha => by cases ha⟩
  · constructor
    · exact fun _ hlen hlevel => (hcase ⟨hlen, hlevel⟩).elim
    · intro _ a ha
      cases ha

theorem NodeCtx.Bounded.localAddr_ne_zero {c : NodeCtx} (h : c.Bounded) {g : Nat} {page : Page}
    (hpage : pageLookup c.mem.ctx.pageTable g = some page) : page.localAddr ≠ 0 := by
  obtain ⟨pages, hpages, hfind⟩ := Option.bind_eq_some_iff.mp hpage
  have hmem : page.addrs ∈ pages.map Page.addrs :=
    List.mem_map_of_mem (List.mem_of_find?_eq_some hfind)
  exact h.pages (pages.map Page.addrs) (Option.mem_map_of_mem _ hpages) _ hmem

theorem NodeCtx.Bounded.inBounds_handlePageData_iff {c : NodeCtx} (h : c.Bounded) (r : Received) :
    (∀ a ∈ (c.handlePageData r).accesses, a.InBounds r.len) ↔
      (20 ≤ r.len → (pageLookup c.mem.ctx.pageTable (r.field 0 8)).isSome = true → r.writeOk = true →
        20 + r.field 8 4 ≤ r.len) := by
  by_cases hlen : 20 ≤ r.len
  · have hfields : ∀ a ∈ [Access.payload 0 8, .payload 8 4, .payload 12 8], a.InBounds r.len := by
      simp only [List.forall_mem_cons]
      exact ⟨.inr (by omega), .inr (by omega), .inr (by omega), fun a ha => by cases ha⟩
    have hsplit : (∀ a ∈ (c.handlePageData r).accesses, a.InBounds r.len) ↔
        ∀ a ∈ c.installAccesses r, a.InBounds r.len := by
      rw [NodeCtx.handlePageData, if_pos hlen]
      exact List.forall_mem_append.trans (and_iff_right hfields)
    rw [hsplit, NodeCtx.installAccesses]
    cases hpage : pageLookup c.mem.ctx.pageTable (r.field 0 8) with
    | none => simp
    | some page =>
        cases hwrite : r.writeOk with
        | false => simp
        | true =>
            simp only [ne_eq, h.localAddr_ne_zero hpage, not_false_eq_true, and_self, if_true,
              List.forall_mem_singleton, Access.InBounds, Option.isSome_some, hlen, forall_const]
            omega
  · constructor
    · exact fun _ hle => (hlen hle).elim
    · intro _ a ha
      rw [NodeCtx.handlePageData, if_neg hlen] at ha
      cases ha

theorem NodeCtx.Bounded.inBounds_handleAllocRequest_iff {c : NodeCtx} (h : c.Bounded)
    (r : Received) : (∀ a ∈ (c.handleAllocRequest r).accesses, a.InBounds r.len) ↔
      (c.isMaster = true → 12 ≤ r.len) := by
  rw [NodeCtx.handleAllocRequest]
  split_ifs with hmaster
  · have hget : ∀ a ∈ c.table.getAccesses r.src, a.InBounds r.len :=
      NodeTable.inBounds_getAccesses h.nodes _
    show (∀ a ∈ Access.payload 0 8 :: .payload 8 4 :: c.table.getAccesses r.src, a.InBounds r.len) ↔ _
    simp only [List.forall_mem_cons, Access.InBounds]
    constructor
    · intro hbounds _
      omega
    · exact fun hlen => ⟨.inr (by have := hlen hmaster; omega), .inr (hlen hmaster), hget⟩
  · constructor
    · exact fun _ hrole => (hmaster hrole).elim
    · intro _ a ha
      cases ha

theorem NodeCtx.inBounds_handleLockGrant_iff (c : NodeCtx) (r : Received) :
    (∀ a ∈ (c.handleLockGrant r).accesses, a.InBounds r.len) ↔
      (4 ≤ r.len → r.field 0 4 < maxLocks) := by
  rw [NodeCtx.handleLockGrant]
  split_ifs with hlen
  · simp [hlen, Access.InBounds]
  · constructor
    · exact fun _ hle => (hlen hle).elim
    · intro _ a ha
      cases ha

/-! ### A bad message changes nothing -/

theorem Received.field_eq (r : Received) {offset k : Nat} (h : offset + k ≤ r.len) :
    r.field offset k = Bytes.field r.payload offset k := by
  rw [Received.field, Bytes.field]
  congr 1
  have hlength : r.payload.length = r.len := r.length
  refine List.ext_getElem (by simp; omega) fun i hi _ => ?_
  simp only [List.length_map, List.length_range] at hi
  have hin : offset + i < r.payload.length := by omega
  simp [Received.byte, List.getElem?_eq_getElem hin]

theorem NodeCtx.handleNodeTable_of_short (c : NodeCtx) {r : Received}
    (h : r.len < nodeTableHeaderSize + r.field 0 4 * nodeInfoSize) :
    (c.handleNodeTable r).ctx = c := by
  have hlength : r.payload.length = r.len := r.length
  have hsame : nodeTableDeserialize c.table r.payload r.now = (-1, c.table) := by
    by_cases hheader : r.len < nodeTableHeaderSize
    · rw [nodeTableDeserialize, hlength, if_pos hheader]
    · rw [r.field_eq (by rw [nodeTableHeaderSize] at hheader; omega)] at h
      simp only [nodeTableDeserialize, hlength, if_neg hheader, if_pos h]
  simp only [NodeCtx.handleNodeTable, hsame]

theorem NodeCtx.sendGrant_of_refused (c : NodeCtx) (l : LockId) (accesses : List Access) :
    (c.sendGrant { ret := -1, locks := c.locks, grant := none } l accesses).ctx = c := rfl

theorem NodeCtx.handleLockRequest_of_bad (c : NodeCtx) {r : Received}
    (h : r.len < 4 ∨ maxLocks ≤ r.field 0 4) : (c.handleLockRequest r).ctx = c := by
  rw [NodeCtx.handleLockRequest]
  split_ifs with hcase
  · rw [syncHandleLockRequest, if_pos (h.resolve_left (Nat.not_lt.mpr hcase.2)),
      NodeCtx.sendGrant_of_refused]
  · rfl

theorem NodeCtx.handleLockRelease_of_bad (c : NodeCtx) {r : Received}
    (h : r.len < 4 ∨ maxLocks ≤ r.field 0 4) : (c.handleLockRelease r).ctx = c := by
  rw [NodeCtx.handleLockRelease]
  split_ifs with hcase
  · rw [syncHandleLockRelease, if_pos (h.resolve_left (Nat.not_lt.mpr hcase.2)),
      NodeCtx.sendGrant_of_refused]
  · rfl

/-- Without its data a page is not installed: it is unknown here, or it could not be opened. -/
theorem NodeCtx.Bounded.handlePageData_of_short {c : NodeCtx} (h : c.Bounded) {r : Received}
    (hok : 20 ≤ r.len → (pageLookup c.mem.ctx.pageTable (r.field 0 8)).isSome = true →
      r.writeOk = true → 20 + r.field 8 4 ≤ r.len)
    (hshort : r.len < 20 + r.field 8 4) : (c.handlePageData r).ctx = c := by
  rw [NodeCtx.handlePageData]
  split_ifs with hlen
  · have hkeep : c.mem.pageInstall (r.field 0 8) (fun i => r.byte (20 + i)) (r.field 8 4)
        (r.field 12 8) r.writeOk r.readOk = (-1, c.mem) := by
      rw [NodeMem.pageInstall]
      cases hpage : pageLookup c.mem.ctx.pageTable (r.field 0 8) with
      | none => rfl
      | some page =>
          cases hwrite : r.writeOk with
          | false => simp [h.localAddr_ne_zero hpage]
          | true =>
              have hfits := hok hlen (by rw [hpage]; rfl) hwrite
              omega
    simp [hkeep]
  · rfl

theorem NodeCtx.Bounded.unchanged {c : NodeCtx} (h : c.Bounded) {r : Received} (hok : r.Ok c)
    (hbad : r.TooShort ∨ r.BadLockId) : (c.handleMessage r).ctx = c := by
  obtain ⟨t, ht, hcase⟩ : ∃ t, r.type = some t ∧ (r.len < r.needed t ∨
      t ∈ [.lockRequest, .lockGrant, .lockRelease] ∧ maxLocks ≤ r.field 0 4) := by
    rcases hbad with ⟨t, ht, hshort⟩ | ⟨t, ht, hbad⟩
    · exact ⟨t, ht, .inl hshort⟩
    · exact ⟨t, ht, .inr hbad⟩
  obtain ⟨hnew, hdata, halloc, hgrant⟩ := hok
  rw [NodeCtx.handleMessage, ht]
  cases t with
  | joinResponse =>
      have hshort : ¬ 4 ≤ r.len := by simpa [Received.needed] using hcase
      show (c.handleJoinResponse r).ctx = c
      rw [NodeCtx.handleJoinResponse, if_neg hshort]
      rfl
  | nodeTable =>
      exact c.handleNodeTable_of_short (by simpa [Received.needed] using hcase)
  | newNode =>
      show (c.handleNewNode r).ctx = c
      rw [NodeCtx.handleNewNode]
      split_ifs <;> rfl
  | nodeLeft =>
      have hshort : ¬ 4 ≤ r.len := by simpa [Received.needed] using hcase
      show (c.handleNodeLeft r).ctx = c
      rw [NodeCtx.handleNodeLeft, if_neg hshort]
      rfl
  | pageRequest =>
      have hshort : ¬ 12 ≤ r.len := by simpa [Received.needed] using hcase
      show (c.handlePageRequest r).ctx = c
      rw [NodeCtx.handlePageRequest, if_neg hshort]
      rfl
  | pageData =>
      exact h.handlePageData_of_short (hdata ht) (by simpa [Received.needed] using hcase)
  | allocRequest =>
      have hshort : r.len < 12 := by simpa [Received.needed] using hcase
      have hworker : ¬ c.isMaster = true := fun hmaster =>
        Nat.not_lt.mpr (halloc ht hmaster) hshort
      show (c.handleAllocRequest r).ctx = c
      rw [NodeCtx.handleAllocRequest, if_neg hworker]
      rfl
  | allocResponse =>
      show (c.handleAllocResponse r).ctx = c
      rw [NodeCtx.handleAllocResponse]
      split_ifs <;> rfl
  | lockRequest =>
      exact c.handleLockRequest_of_bad (by simpa [Received.needed] using hcase)
  | lockGrant =>
      have hbad' : r.len < 4 ∨ maxLocks ≤ r.field 0 4 := by simpa [Received.needed] using hcase
      have hshort : ¬ 4 ≤ r.len := fun hlen => by
        have hvalid := hgrant ht hlen
        omega
      show (c.handleLockGrant r).ctx = c
      rw [NodeCtx.handleLockGrant, if_neg hshort]
      rfl
  | lockRelease =>
      exact c.handleLockRelease_of_bad (by simpa [Received.needed] using hcase)
  | barrierEnter => simp [Received.needed] at hcase
  | barrierRelease => simp [Received.needed] at hcase
  | heartbeat => simp [Received.needed] at hcase
  | heartbeatAck => simp [Received.needed] at hcase
  | shutdown => simp [Received.needed] at hcase

theorem nodeTableHeartbeat_length (table : NodeTable) (nodeId : NodeId) (now : Nat) :
    (nodeTableHeartbeat table nodeId now).length = table.length := by
  rw [nodeTableHeartbeat]
  cases hupdate : table.updateFirst (·.nodeId == nodeId) ({ · with lastHeartbeat := now }) with
  | none => rfl
  | some table' =>
      obtain ⟨pre, node, post, rfl, -, -, rfl⟩ := List.updateFirst_eq_some hupdate
      simp

theorem NodeCtx.Bounded.inBounds_iff {c : NodeCtx} (h : c.Bounded) (r : Received) :
    (∀ a ∈ (c.handleMessage r).accesses, a.InBounds r.len) ↔ r.Ok c := by
  rw [NodeCtx.handleMessage]
  cases ht : r.type with
  | none => simp [Received.Ok, ht, NodeCtx.keep]
  | some t =>
      cases t with
      | newNode => simpa [Received.Ok, ht] using c.inBounds_handleNewNode_iff r
      | pageData => simpa [Received.Ok, ht] using h.inBounds_handlePageData_iff r
      | allocRequest => simpa [Received.Ok, ht] using h.inBounds_handleAllocRequest_iff r
      | lockGrant => simpa [Received.Ok, ht] using c.inBounds_handleLockGrant_iff r
      | joinResponse => simpa [Received.Ok, ht] using c.inBounds_handleJoinResponse r
      | nodeTable => simpa [Received.Ok, ht] using h.inBounds_handleNodeTable r
      | nodeLeft => simpa [Received.Ok, ht] using h.inBounds_handleNodeLeft r
      | pageRequest => simpa [Received.Ok, ht] using h.inBounds_handlePageRequest r
      | allocResponse => simpa [Received.Ok, ht] using c.inBounds_handleAllocResponse r
      | lockRequest => simpa [Received.Ok, ht] using h.inBounds_handleLockRequest r
      | lockRelease => simpa [Received.Ok, ht] using h.inBounds_handleLockRelease r
      | barrierEnter => simpa [Received.Ok, ht] using h.inBounds_handleBarrierEnter r
      | barrierRelease => simp [Received.Ok, ht, NodeCtx.keep]
      | heartbeat =>
          have hbeat : (nodeTableHeartbeat c.table r.src r.now).length ≤ maxNodes := by
            rw [nodeTableHeartbeat_length]
            exact h.nodes
          have hbounds : ∀ a ∈ (c.handleHeartbeat r).accesses, a.InBounds r.len :=
            List.forall_mem_append.mpr ⟨NodeTable.inBounds_getAccesses h.nodes _,
              NodeTable.inBounds_getAccesses hbeat _⟩
          simpa [Received.Ok, ht] using hbounds
      | heartbeatAck =>
          have hbounds : ∀ a ∈ (c.handleHeartbeatAck r).accesses, a.InBounds r.len :=
            NodeTable.inBounds_getAccesses h.nodes _
          simpa [Received.Ok, ht] using hbounds
      | shutdown =>
          have hbounds : ∀ a ∈ (c.handleShutdown r).accesses, a.InBounds r.len :=
            NodeTable.inBounds_removeAccesses h.nodes _
          simpa [Received.Ok, ht] using hbounds

/-- In a state with its counts in range, a message is handled safely exactly if it is in order. -/
theorem NodeCtx.Bounded.safeOn_iff {c : NodeCtx} (h : c.Bounded) (r : Received) :
    c.SafeOn r ↔ r.Ok c := by
  constructor
  · exact fun hsafe => (h.inBounds_iff r).mp hsafe.inBounds
  · exact fun hok => ⟨(h.inBounds_iff r).mpr hok, h.unchanged hok⟩

end Dsm
