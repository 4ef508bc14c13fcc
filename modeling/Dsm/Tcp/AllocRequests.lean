import Dsm.Tcp.NodeMachine

/-!
# The addresses that the master hands out

The `dsm_malloc` calls of the master's program and the `ALLOC_REQUEST` messages of the other nodes
take their addresses from one counter. Sizes are rounded up and the counter is moved on modulo
`2 ^ 64`, and neither path looks at the size, so the ranges are those that were asked for as long as
all that has been asked for, whether or not it was handed out, stays below `2 ^ 64`
(`alloc_exact_iff`).
-/

namespace Dsm

/-- A range that is handed out as a success, and the size that was asked for. -/
structure Grant where
  base : Nat
  length : Nat
  requested : Nat
deriving DecidableEq, Repr

structure Grant.Exact (g : Grant) : Prop where
  long : g.requested ≤ g.length
  base : pageSize ∣ g.base
  last : pageSize ∣ g.base + g.length
  noWrap : g.base + g.length ≤ 2 ^ 64

def Grant.Apart (g g' : Grant) : Prop :=
  g.base + g.length ≤ g'.base ∨ g'.base + g'.length ≤ g.base

instance (g g' : Grant) : Decidable (g.Apart g') := inferInstanceAs (Decidable (_ ∨ _))

/-- The range of an `ALLOC_RESPONSE`, unless its address is zero. -/
def Message.grant (m : Message) (requested : Nat) : Option Grant :=
  if m.header.type = MsgType.allocResponse.code ∧ Bytes.field m.payload 0 8 ≠ 0 then
    some ⟨Bytes.field m.payload 0 8, Bytes.field m.payload 8 8, requested⟩
  else none

/-- The master, with the ranges that it has handed out so far, and with where its counter would be if
it did not wrap around. -/
structure AllocState where
  node : NodeCtx
  handed : List Grant
  reserved : Nat

inductive AllocAction where
  /-- `dsm_malloc`, with the address that `mmap` returns. -/
  | malloc (size : Nat) (mapped : Option Nat)
  /-- `dsm_handle_message` of an `ALLOC_REQUEST`. -/
  | request (r : Received)

namespace AllocAction

/-- The size that is asked for. -/
def size : AllocAction → Nat
  | .malloc size _ => size
  | .request r => r.field 0 8

def apply (c : NodeCtx) : AllocAction → NodeCtx
  | .malloc size mapped => { c with mem := c.mem.call (.malloc size mapped) }
  | .request r => (c.handleMessage r).ctx

/-- The ranges that the action hands out. -/
def grants (c : NodeCtx) : AllocAction → List Grant
  | .malloc size mapped =>
      ((MappingAction.malloc size mapped).creates c.mem.ctx).toList.map fun r =>
        ⟨r.globalBase, r.totalSize, size⟩
  | .request r => (c.handleMessage r).sent.filterMap fun m => m.2.grant (r.field 0 8)

/-- A positive size of 64 bits; `mmap` keeps its promise, and a request carries its whole payload. -/
def Allowed (c : NodeCtx) (a : AllocAction) : Prop :=
  0 < a.size ∧ match a with
    | .malloc size mapped => size < 2 ^ 64 ∧
        ∀ r ∈ (MappingAction.malloc size mapped).creates c.mem.ctx, r.Mapped c.mem.ctx
    | .request r => r.type = some .allocRequest ∧ 12 ≤ r.len

instance (c : NodeCtx) (a : AllocAction) : Decidable (a.Allowed c) := by
  cases a <;> exact inferInstanceAs (Decidable (_ ∧ _ ∧ _))

/-- There is memory for the call, or a socket to answer the request on and an address that is not
zero. -/
def Answered (c : NodeCtx) : AllocAction → Prop
  | .malloc _ mapped => mapped.isSome
  | .request r => c.table.sends r.src true ∧ c.mem.ctx.nextGlobalAddr ≠ 0

instance (c : NodeCtx) : (a : AllocAction) → Decidable (a.Answered c)
  | .malloc _ _ => inferInstanceAs (Decidable (_ = _))
  | .request _ => inferInstanceAs (Decidable (_ ∧ _))

/-- An answered request can be rounded up, and all that has been asked for ends within the address
space. -/
def Fits (s : AllocState) (a : AllocAction) : Prop :=
  a.Answered s.node →
    a.size + (pageSize - 1) < 2 ^ 64 ∧ s.reserved + roundUpPage a.size ≤ 2 ^ 64

instance (s : AllocState) (a : AllocAction) : Decidable (a.Fits s) :=
  inferInstanceAs (Decidable (_ → _))

end AllocAction

def allocMachine : Machine AllocState AllocAction where
  start s := NodeStart s.node ∧ s.node.isMaster = true ∧ s.handed = [] ∧
    s.reserved = s.node.mem.ctx.nextGlobalAddr
  step s a :=
    if a.Allowed s.node then
      some { node := a.apply s.node, handed := s.handed ++ a.grants s.node
             reserved := s.reserved + roundUpPage a.size }
    else none

/-- Every range handed out is exact, and no two of them meet. -/
structure AllocState.Exact (s : AllocState) : Prop where
  each : ∀ g ∈ s.handed, g.Exact
  apart : s.handed.Pairwise Grant.Apart

/-! ### What an action does -/

theorem allocResponse_fields {addr size : Nat} (haddr : addr < 2 ^ 64) (hsize : size < 2 ^ 64)
    (rest : List UInt8) :
    Bytes.field (Bytes.le addr 8 ++ (Bytes.le size 8 ++ rest)) 0 8 = addr ∧
      Bytes.field (Bytes.le addr 8 ++ (Bytes.le size 8 ++ rest)) 8 8 = size := by
  constructor
  · rw [Bytes.field, List.drop_zero, List.take_left' (Bytes.length_le ..), Bytes.ofLe_le]
    exact Nat.mod_eq_of_lt haddr
  · rw [Bytes.field, List.drop_left' (Bytes.length_le ..), List.take_left' (Bytes.length_le ..),
      Bytes.ofLe_le]
    exact Nat.mod_eq_of_lt hsize

theorem Received.field_lt (r : Received) (offset k : Nat) : r.field offset k < 256 ^ k := by
  have hlt := Bytes.ofLe_lt ((List.range k).map fun i => r.byte (offset + i))
  rwa [List.length_map, List.length_range] at hlt

namespace AllocAction

variable {c : NodeCtx} {a : AllocAction}

theorem size_lt (h : a.Allowed c) : a.size < 2 ^ 64 := by
  cases a with
  | malloc size mapped => exact h.2.1
  | request r => exact r.field_lt 0 8

theorem apply_spec (hmaster : c.isMaster = true) (h : a.Allowed c) :
    (a.apply c).isMaster = true ∧ (a.apply c).mem.ctx.nextGlobalAddr =
      (c.mem.ctx.nextGlobalAddr + roundUpPage a.size) % 2 ^ 64 := by
  cases a with
  | malloc size mapped =>
      have hsize : size ≠ 0 := Nat.ne_of_gt h.1
      obtain ⟨-, hrole, hnext, -⟩ := c.mem.ctx.memAlloc_spec size mapped hsize
      refine ⟨?_, hnext⟩
      rw [← hmaster]
      exact congrArg (fun role => decide (role = Role.master)) hrole
  | request r =>
      have htype : r.type = some .allocRequest := h.2.1
      simp only [apply, NodeCtx.handleMessage, htype, NodeCtx.handleAllocRequest, hmaster, if_true]
      exact ⟨hmaster, rfl⟩

theorem grants_eq (hmaster : c.isMaster = true) (hnext : c.mem.ctx.nextGlobalAddr < 2 ^ 64)
    (h : a.Allowed c) :
    (a.Answered c → a.grants c = [⟨c.mem.ctx.nextGlobalAddr, roundUpPage a.size, a.size⟩]) ∧
      (¬ a.Answered c → a.grants c = []) := by
  cases a with
  | malloc size mapped =>
      have hsize : size ≠ 0 := Nat.ne_of_gt h.1
      cases mapped with
      | none => simp [Answered, grants, MappingAction.creates]
      | some addr =>
          simp [Answered, grants, MappingAction.creates, hsize, Region.created,
            roundUpPage_roundUpPage, AllocAction.size]
  | request r =>
      have htype : r.type = some .allocRequest := h.2.1
      have hsize := roundUpPage_lt (r.field 0 8)
      obtain ⟨hbase, hlength⟩ := allocResponse_fields hnext hsize
        (Bytes.le r.src 4 ++ Bytes.le (r.field 8 4) 4)
      simp only [Answered, grants, NodeCtx.handleMessage, htype, NodeCtx.handleAllocRequest, hmaster,
        if_true, NodeCtx.tcpSend, NodeCtx.createHeader, List.append_assoc]
      constructor
      · intro hanswered
        obtain ⟨hsends, hzero⟩ := hanswered
        simp [hsends, Message.grant, hbase, hlength, hzero, AllocAction.size]
      · intro hnot
        by_cases hsends : c.table.sends r.src true
        · have hzero : c.mem.ctx.nextGlobalAddr = 0 := by
            by_contra hne
            exact hnot ⟨hsends, hne⟩
          rw [hzero] at hbase
          simp [hsends, Message.grant, hbase, hzero]
        · simp [hsends]

end AllocAction

/-! ### The ranges lie below the counter -/

/-- The counter stands behind all that it has handed out. -/
structure AllocInv (s : AllocState) : Prop where
  master : s.node.isMaster = true
  next : s.node.mem.ctx.nextGlobalAddr = s.reserved % 2 ^ 64
  aligned : pageSize ∣ s.reserved
  exact : s.Exact
  below : ∀ g ∈ s.handed, g.base + g.length ≤ s.reserved

theorem allocMachine_step {s t : AllocState} {a : AllocAction} (h : AllocInv s)
    (ht : allocMachine.step s a = some t) :
    a.Allowed s.node ∧ t.node.isMaster = true ∧
      t.node.mem.ctx.nextGlobalAddr = t.reserved % 2 ^ 64 ∧
      t.reserved = s.reserved + roundUpPage a.size ∧
      (a.Answered s.node →
        t.handed = s.handed ++ [⟨s.reserved % 2 ^ 64, roundUpPage a.size, a.size⟩]) ∧
      (¬ a.Answered s.node → t.handed = s.handed) := by
  simp only [allocMachine, Option.ite_none_right_eq_some, Option.some.injEq] at ht
  obtain ⟨hallowed, rfl⟩ := ht
  obtain ⟨hmaster, hnext⟩ := AllocAction.apply_spec h.master hallowed
  have hlt : s.node.mem.ctx.nextGlobalAddr < 2 ^ 64 := by
    rw [h.next]
    exact Nat.mod_lt _ (by decide)
  obtain ⟨hsome, hnone⟩ := AllocAction.grants_eq h.master hlt hallowed
  refine ⟨hallowed, hmaster, ?_, rfl, fun hanswered => ?_, fun hnot => ?_⟩
  · rw [hnext, h.next, Nat.mod_add_mod]
  · rw [← h.next]
    exact congrArg (s.handed ++ ·) (hsome hanswered)
  · show s.handed ++ a.grants s.node = s.handed
    rw [hnone hnot, List.append_nil]

theorem AllocInv.step {s t : AllocState} {a : AllocAction} (h : AllocInv s) (hfits : a.Fits s)
    (ht : allocMachine.step s a = some t) : AllocInv t := by
  obtain ⟨hallowed, hmaster, hnext, hreserved, hsome, hnone⟩ := allocMachine_step h ht
  have haligned : pageSize ∣ t.reserved := by
    rw [hreserved]
    exact Nat.dvd_add h.aligned (dvd_roundUpPage a.size)
  have hbelow : ∀ g ∈ s.handed, g.base + g.length ≤ t.reserved := fun g hg => by
    rw [hreserved]
    exact Nat.le_add_right_of_le (h.below g hg)
  by_cases hanswered : a.Answered s.node
  · obtain ⟨hround, hroom⟩ := hfits hanswered
    have hlong : a.size ≤ roundUpPage a.size := le_roundUpPage hround
    have hpos : 0 < a.size := hallowed.1
    have hbase : s.reserved % 2 ^ 64 = s.reserved := Nat.mod_eq_of_lt (by omega)
    have hhanded := hsome hanswered
    rw [hbase] at hhanded
    refine ⟨hmaster, hnext, haligned, ⟨?_, ?_⟩, ?_⟩
    · intro g hg
      rw [hhanded] at hg
      rcases List.mem_append.mp hg with hg | hg
      · exact h.exact.each g hg
      · rw [List.mem_singleton.mp hg]
        exact ⟨hlong, h.aligned, Nat.dvd_add h.aligned (dvd_roundUpPage a.size), hroom⟩
    · rw [hhanded]
      refine List.pairwise_concat.mpr ⟨h.exact.apart, ?_⟩
      intro g hg
      exact .inl (h.below g hg)
    · intro g hg
      rw [hhanded] at hg
      rcases List.mem_append.mp hg with hg | hg
      · exact hbelow g hg
      · rw [List.mem_singleton.mp hg, hreserved]
  · have hhanded := hnone hanswered
    exact ⟨hmaster, hnext, haligned, ⟨hhanded ▸ h.exact.each, hhanded ▸ h.exact.apart⟩,
      hhanded ▸ hbelow⟩

/-- An answered request that does not fit gets a range that is too short, or one that passes the end
of the address space. -/
theorem AllocInv.not_exact {s t : AllocState} {a : AllocAction} (h : AllocInv s)
    (hlt : s.reserved < 2 ^ 64) (hnot : ¬ a.Fits s) (ht : allocMachine.step s a = some t) :
    ¬ t.Exact := by
  obtain ⟨hallowed, -, -, -, hsome, -⟩ := allocMachine_step h ht
  intro hexact
  apply hnot
  intro hanswered
  have hgrant : (⟨s.reserved % 2 ^ 64, roundUpPage a.size, a.size⟩ : Grant).Exact := by
    apply hexact.each
    rw [hsome hanswered]
    exact List.mem_append_right _ (List.mem_singleton_self _)
  have hbase : s.reserved % 2 ^ 64 = s.reserved := Nat.mod_eq_of_lt hlt
  have hroom := hgrant.noWrap
  rw [hbase] at hroom
  refine ⟨?_, hroom⟩
  by_contra hwrap
  have hsize := AllocAction.size_lt hallowed
  have hlong : a.size ≤ roundUpPage a.size := hgrant.long
  have hpos : 0 < a.size := hallowed.1
  unfold roundUpPage pageSize at hlong
  unfold pageSize at hwrap
  omega

theorem MappingStart.nextGlobalAddr {ctx : MemCtx} (h : MappingStart ctx) :
    pageSize ∣ ctx.nextGlobalAddr ∧ ctx.nextGlobalAddr < 2 ^ 64 := by
  refine ⟨(MappingStart.inv h).next, ?_⟩
  obtain ⟨node, role, chunks, addr, -, -, -, -, rfl⟩ := h
  obtain ⟨-, -, hnext, -⟩ := (MemCtx.initial node role).memInit_spec chunks (some addr)
  rw [hnext]
  split_ifs
  · exact Nat.mod_lt _ (by decide)
  · show globalStart < 2 ^ 64
    decide

theorem AllocInv.start {s : AllocState} (h : allocMachine.start s) : AllocInv s := by
  obtain ⟨hnode, hmaster, hhanded, hreserved⟩ := h
  obtain ⟨haligned, hlt⟩ := hnode.mem.nextGlobalAddr
  refine ⟨hmaster, ?_, ?_, ⟨?_, ?_⟩, ?_⟩
  · rw [hreserved, Nat.mod_eq_of_lt hlt]
  · rw [hreserved]
    exact haligned
  · simp [hhanded]
  · simp [hhanded]
  · simp [hhanded]

/-- All ranges that the master hands out are exact as long as every answered request fits, and as long
as the counter has not wrapped around only then. -/
theorem alloc_exact_iff {s t : AllocState} {as : List AllocAction} (hstart : allocMachine.start s)
    (hexec : allocMachine.exec s as = some t) :
    (allocMachine.EachStep (fun u a => a.Fits u) s as →
        allocMachine.Always AllocState.Exact s as) ∧
      (allocMachine.EachStep (fun u _ => u.reserved < 2 ^ 64) s as →
        allocMachine.Always AllocState.Exact s as →
          allocMachine.EachStep (fun u a => a.Fits u) s as) := by
  have hkeep : ∀ u a v, AllocInv u → AllocAction.Fits u a → allocMachine.step u a = some v →
      AllocInv v := fun u a v h hfits hstep => h.step hfits hstep
  constructor
  · intro hfits
    exact Machine.always_of_eachStep (fun u h => h.exact) hkeep (.start hstart) hexec hfits
  · intro hbelow halways
    exact Machine.eachStep_of_always hkeep (fun u a v h hlt hnot hstep => h.not_exact hlt hnot hstep)
      (.start hstart) hexec hbelow halways

/-- The master with a connection to node 2. -/
private def masterOf2 : AllocState :=
  { node := { masterCtx with
      table := masterCtx.table ++ [{ nodeId := 2, role := .worker, state := .connected, ip := []
                                     port := 5000, chunks := 1, tcpFd := 7, lastHeartbeat := 0 }] }
    handed := [], reserved := 0x1001000 }

private theorem start_masterOf2 : allocMachine.start masterOf2 :=
  ⟨⟨mappingStart_freshMaster, by decide, rfl, rfl⟩, rfl, rfl, by decide +kernel⟩

/-- Node 2 asks for 5000 bytes. -/
private def asks5000 : AllocAction :=
  .request (receivedFrom2 .allocRequest [0x88, 0x13, 0, 0, 0, 0, 0, 0, 0, 0, 0, 0] (by decide))

theorem alloc_exact_iff_two_grants : ∃ t,
    allocMachine.exec masterOf2 [asks5000, .malloc 4096 (some 0x20000)] = some t ∧
      t.handed = [⟨0x1001000, 8192, 5000⟩, ⟨0x1003000, 4096, 4096⟩] ∧ t.Exact := by
  have hrun : (allocMachine.exec masterOf2 [asks5000, .malloc 4096 (some 0x20000)]).map (·.handed) =
      some [⟨0x1001000, 8192, 5000⟩, ⟨0x1003000, 4096, 4096⟩] := by decide +kernel
  obtain ⟨t, hexec, hhanded⟩ := Option.map_eq_some_iff.mp hrun
  have hfits : allocMachine.EachStep (fun u a => a.Fits u) masterOf2
      [asks5000, .malloc 4096 (some 0x20000)] := Machine.eachStep_of_checks (by decide +kernel)
  exact ⟨t, hexec, hhanded, ((alloc_exact_iff start_masterOf2 hexec).1 hfits).last hexec⟩

/-- Node 2 asks for all bytes but one. -/
private def asksAll : AllocAction :=
  .request (receivedFrom2 .allocRequest
    [0xff, 0xff, 0xff, 0xff, 0xff, 0xff, 0xff, 0xff, 0, 0, 0, 0] (by decide))

/-- The size is rounded up to nothing, and the response is that of a success. -/
theorem alloc_not_exact : allocMachine.start masterOf2 ∧ ∃ t,
    allocMachine.exec masterOf2 [asksAll] = some t ∧
      t.handed = [⟨0x1001000, 0, 2 ^ 64 - 1⟩] ∧ ¬ t.Exact := by
  have hrun : (allocMachine.exec masterOf2 [asksAll]).map (·.handed) =
      some [⟨0x1001000, 0, 2 ^ 64 - 1⟩] := by decide +kernel
  obtain ⟨t, hexec, hhanded⟩ := Option.map_eq_some_iff.mp hrun
  refine ⟨start_masterOf2, t, hexec, hhanded, ?_⟩
  intro hexact
  have hlong := (hexact.each ⟨0x1001000, 0, 2 ^ 64 - 1⟩ (by rw [hhanded]; simp)).long
  exact absurd hlong (by decide)

end Dsm
