import Dsm.Memory.PageTable
import Dsm.Memory.Ownership
import Mathlib.Data.List.Pairwise

/-!
# Regions and allocation

The region list of a node, the address translations over it, and the calls that create and destroy
regions. What the operating system decides is a parameter: `mapped` is the address that `mmap`
returns, and is `none` where `mmap`, the `mprotect` after it or the `calloc` of the region fails,
since on these paths the function unmaps what it has mapped and returns `NULL`.
-/

namespace Dsm

/-- `dsm_region_t`, without its link. -/
structure Region where
  baseAddr : Nat
  totalSize : Nat
  pageCount : Nat
  ownerId : NodeId
  globalBase : Nat
deriving DecidableEq, Repr

/-- The parts of `dsm_context_t` that memory management uses, with the list `ctx->regions` and the
master's ownership table. -/
structure MemCtx where
  localNodeId : NodeId
  localRole : Role
  nextGlobalAddr : Nat
  pageTable : PageTable
  regions : List Region
  ownership : OwnershipTable

/-- `next_global_addr` as `dsm_context_init` sets it. -/
def globalStart : Nat := 0x1000000

/-- A node's context before `dsm_mem_init`. -/
def MemCtx.initial (node : NodeId) (role : Role) : MemCtx :=
  { localNodeId := node, localRole := role, nextGlobalAddr := globalStart, pageTable := none
    regions := [], ownership := fun _ => [] }

/-- The range test of `dsm_region_find`. -/
def Region.containsGlobal (r : Region) (globalAddr : Nat) : Bool :=
  decide (r.globalBase ≤ globalAddr) && decide (globalAddr < (r.globalBase + r.totalSize) % 2 ^ 64)

/-- The range test of `dsm_local_to_global`. -/
def Region.containsLocal (r : Region) (localAddr : Nat) : Bool :=
  decide (r.baseAddr ≤ localAddr) && decide (localAddr < (r.baseAddr + r.totalSize) % 2 ^ 64)

/-- The global ranges of two regions do not meet. -/
def Region.Apart (r r' : Region) : Prop :=
  r.globalBase + r.totalSize ≤ r'.globalBase ∨ r'.globalBase + r'.totalSize ≤ r.globalBase

instance (r r' : Region) : Decidable (r.Apart r') := inferInstanceAs (Decidable (_ ∨ _))

theorem Region.Apart.symm {r r' : Region} (h : r.Apart r') : r'.Apart r := Or.symm h

instance : Std.Symm Region.Apart := ⟨fun _ _ => Region.Apart.symm⟩

theorem Region.not_apart {r r' : Region} {x : Nat}
    (hr : r.globalBase ≤ x ∧ x < r.globalBase + r.totalSize)
    (hr' : r'.globalBase ≤ x ∧ x < r'.globalBase + r'.totalSize) : ¬ r.Apart r' := by
  rintro (hle | hle) <;> omega

/-- The mappings of two regions do not meet. -/
def Region.LocalApart (r r' : Region) : Prop :=
  r.baseAddr + r.totalSize ≤ r'.baseAddr ∨ r'.baseAddr + r'.totalSize ≤ r.baseAddr

instance (r r' : Region) : Decidable (r.LocalApart r') := inferInstanceAs (Decidable (_ ∨ _))

instance : Std.Symm Region.LocalApart := ⟨fun _ _ => Or.symm⟩

theorem Region.not_localApart {r r' : Region} {x : Nat}
    (hr : r.baseAddr ≤ x ∧ x < r.baseAddr + r.totalSize)
    (hr' : r'.baseAddr ≤ x ∧ x < r'.baseAddr + r'.totalSize) : ¬ r.LocalApart r' := by
  rintro (hle | hle) <;> omega

namespace MemCtx

/-- The loop of `dsm_region_create` that registers the pages of a region. -/
def registerPages (ctx : MemCtx) (r : Region) : MemCtx :=
  (List.range r.pageCount).foldl
    (fun ctx i => { ctx with
      pageTable := (pageRegister ctx.localNodeId ctx.pageTable
        ((r.globalBase + i * pageSize) % 2 ^ 64) (r.baseAddr + i * pageSize) r.ownerId).2 })
    ctx

def regionCreate (ctx : MemCtx) (size : Nat) (ownerId : NodeId) (globalBase : Nat)
    (mapped : Option Nat) : Option Region × MemCtx :=
  match mapped with
  | none => (none, ctx)
  | some addr =>
      let alignedSize := roundUpPage size
      let region : Region :=
        { baseAddr := addr, totalSize := alignedSize, pageCount := alignedSize / pageSize
          ownerId := ownerId, globalBase := globalBase }
      (some region, registerPages { ctx with regions := ctx.regions ++ [region] } region)

/-- `dsm_region_destroy`; mapped regions differ in their base address, so a record stands for the
pointer to it. -/
def regionDestroy (ctx : MemCtx) (r : Region) : MemCtx := { ctx with regions := ctx.regions.erase r }

def regionFind (ctx : MemCtx) (globalAddr : Nat) : Option Region :=
  ctx.regions.find? (·.containsGlobal globalAddr)

def globalToLocal (ctx : MemCtx) (globalAddr : Nat) : Option Nat :=
  (ctx.regionFind globalAddr).map fun r => r.baseAddr + (globalAddr - r.globalBase)

/-- `dsm_local_to_global`; `0` where no region contains the address. -/
def localToGlobal (ctx : MemCtx) (localAddr : Nat) : Nat :=
  match ctx.regions.find? (·.containsLocal localAddr) with
  | some r => (r.globalBase + (localAddr - r.baseAddr)) % 2 ^ 64
  | none => 0

/-- `dsm_ownership_register` on the context's table. -/
def registerOwnership (ctx : MemCtx) (globalAddr size ownerId : Nat) : MemCtx :=
  { ctx with ownership := (ownershipRegister ctx.ownership globalAddr size ownerId).2 }

/-- The bump allocation under `alloc_mutex`. -/
def bump (ctx : MemCtx) (size : Nat) : MemCtx :=
  { ctx with nextGlobalAddr := (ctx.nextGlobalAddr + size) % 2 ^ 64 }

/-- `dsm_mem_init`; the product of `chunks` and the page size is a `uint32_t`. -/
def memInit (ctx : MemCtx) (chunks : Nat) (mapped : Option Nat) : Int × MemCtx :=
  let ctx := { ctx with pageTable := some [], ownership := fun _ => [] }
  let regionSize := chunks * pageSize % 2 ^ 32
  let (globalBase, ctx) :=
    if ctx.localRole = .master then (ctx.nextGlobalAddr, ctx.bump regionSize)
    else ((ctx.nextGlobalAddr + ctx.localNodeId * regionSize) % 2 ^ 64, ctx)
  match ctx.regionCreate regionSize ctx.localNodeId globalBase mapped with
  | (none, ctx) => (-1, { ctx with pageTable := none })
  | (some _, ctx) =>
      if ctx.localRole = .master then
        (0, ctx.registerOwnership globalBase regionSize ctx.localNodeId)
      else (0, ctx)

/-- `dsm_mem_alloc`, which `dsm_malloc` calls; the result is the local address. -/
def memAlloc (ctx : MemCtx) (size : Nat) (mapped : Option Nat) : Option Nat × MemCtx :=
  if size = 0 then (none, ctx)
  else
    let alignedSize := roundUpPage size
    let globalAddr := ctx.nextGlobalAddr
    let ctx := ctx.bump alignedSize
    let ctx :=
      if ctx.localRole = .master then ctx.registerOwnership globalAddr alignedSize ctx.localNodeId
      else ctx
    let (region, ctx) := ctx.regionCreate alignedSize ctx.localNodeId globalAddr mapped
    (region.map (·.baseAddr), ctx)

/-- The region that `dsm_mem_free` destroys. -/
def freeTarget (ctx : MemCtx) (addr : Nat) : Option Region :=
  if addr = 0 then none
  else
    let globalAddr := ctx.localToGlobal addr
    if globalAddr = 0 then none else ctx.regionFind globalAddr

/-- `dsm_mem_free`, which `dsm_free` calls. -/
def memFree (ctx : MemCtx) (addr : Nat) : MemCtx :=
  match ctx.freeTarget addr with
  | some r => ctx.regionDestroy r
  | none => ctx

/-- The loop of `dsm_malloc_at` that marks its pages. -/
def markShared (ctx : MemCtx) (globalAddr numPages : Nat) : MemCtx :=
  (List.range numPages).foldl
    (fun ctx i => { ctx with
      pageTable := pageUpdate ctx.pageTable ((globalAddr + i * pageSize) % 2 ^ 64)
        ({ · with state := .shared }) })
    ctx

/-- `dsm_malloc_at`; `protectOk` is whether its own `mprotect` succeeds. -/
def mallocAt (ctx : MemCtx) (globalAddr size : Nat) (mapped : Option Nat) (protectOk : Bool) :
    Option Nat × MemCtx :=
  if size = 0 then (none, ctx)
  else
    let alignedSize := roundUpPage size
    let ctx := ctx.registerOwnership globalAddr alignedSize ctx.localNodeId
    match ctx.regionCreate alignedSize ctx.localNodeId globalAddr mapped with
    | (none, ctx) => (none, ctx)
    | (some region, ctx) =>
        if !protectOk then (none, ctx)
        else (some region.baseAddr, ctx.markShared globalAddr (alignedSize / pageSize))

/-- `dsm_map_remote`; the owner is always the master. -/
def mapRemote (ctx : MemCtx) (globalAddr size : Nat) (mapped : Option Nat) : Option Nat × MemCtx :=
  if size = 0 then (none, ctx)
  else
    let alignedSize := roundUpPage size
    let ctx := ctx.registerOwnership globalAddr alignedSize masterId
    let (region, ctx) := ctx.regionCreate alignedSize masterId globalAddr mapped
    (region.map (·.baseAddr), ctx)

end MemCtx

/-! ### What a creation adds -/

/-- The records that `dsm_region_create` registers for a region. -/
def Region.newPages (r : Region) (node : NodeId) : List Page :=
  (List.range r.pageCount).map fun i =>
    .new node ((r.globalBase + i * pageSize) % 2 ^ 64) (r.baseAddr + i * pageSize) r.ownerId

theorem MemCtx.registerPages_eq (ctx : MemCtx) (r : Region) :
    ctx.registerPages r =
      { ctx with pageTable := ctx.pageTable.map (· ++ r.newPages ctx.localNodeId) } := by
  suffices h : ∀ n, (List.range n).foldl
      (fun ctx i => { ctx with
        pageTable := (pageRegister ctx.localNodeId ctx.pageTable
          ((r.globalBase + i * pageSize) % 2 ^ 64) (r.baseAddr + i * pageSize) r.ownerId).2 }) ctx =
      { ctx with pageTable := ctx.pageTable.map (· ++ (List.range n).map fun i =>
        .new ctx.localNodeId ((r.globalBase + i * pageSize) % 2 ^ 64) (r.baseAddr + i * pageSize)
          r.ownerId) } from h r.pageCount
  intro n
  induction n with
  | zero =>
      cases ctx with
      | mk node role next table regions ownership => cases table <;> simp
  | succ n ih =>
      rw [List.range_succ, List.foldl_append, ih]
      cases ctx.pageTable <;> simp [pageRegister]

/-- The region that a successful creation adds. -/
def Region.created (size : Nat) (ownerId : NodeId) (globalBase addr : Nat) : Region :=
  { baseAddr := addr, totalSize := roundUpPage size, pageCount := roundUpPage size / pageSize
    ownerId := ownerId, globalBase := globalBase }

theorem Region.created_roundUpPage (size : Nat) (ownerId : NodeId) (globalBase addr : Nat) :
    Region.created (roundUpPage size) ownerId globalBase addr =
      .created size ownerId globalBase addr := by
  rw [Region.created, Region.created, roundUpPage_roundUpPage]

/-- The context with a further region and its pages. -/
def MemCtx.addRegion (ctx : MemCtx) (r : Region) : MemCtx :=
  { ctx with
    regions := ctx.regions ++ [r]
    pageTable := ctx.pageTable.map (· ++ r.newPages ctx.localNodeId) }

theorem MemCtx.regionCreate_none (ctx : MemCtx) (size : Nat) (ownerId : NodeId) (globalBase : Nat) :
    ctx.regionCreate size ownerId globalBase none = (none, ctx) := rfl

theorem MemCtx.regionCreate_some (ctx : MemCtx) (size : Nat) (ownerId : NodeId)
    (globalBase addr : Nat) : ctx.regionCreate size ownerId globalBase (some addr) =
      (some (.created size ownerId globalBase addr),
        ctx.addRegion (.created size ownerId globalBase addr)) := by
  rw [MemCtx.regionCreate, MemCtx.registerPages_eq]
  rfl

section

variable (ctx : MemCtx) (size : Nat) (ownerId : NodeId) (globalBase : Nat) (mapped : Option Nat)

@[simp] theorem MemCtx.regionCreate_fst : (ctx.regionCreate size ownerId globalBase mapped).1 =
    mapped.map (Region.created size ownerId globalBase) := by
  cases mapped with
  | none => rfl
  | some addr => rw [MemCtx.regionCreate_some]; rfl

@[simp] theorem MemCtx.regionCreate_regions :
    (ctx.regionCreate size ownerId globalBase mapped).2.regions =
      ctx.regions ++ (mapped.map (Region.created size ownerId globalBase)).toList := by
  cases mapped with
  | none => simp [MemCtx.regionCreate_none]
  | some addr => rw [MemCtx.regionCreate_some]; rfl

@[simp] theorem MemCtx.regionCreate_pageTable :
    (ctx.regionCreate size ownerId globalBase mapped).2.pageTable =
      ctx.pageTable.map (· ++ (mapped.map (Region.created size ownerId globalBase)).toList.flatMap
        (·.newPages ctx.localNodeId)) := by
  cases mapped with
  | none => cases htable : ctx.pageTable <;> simp [MemCtx.regionCreate_none, htable]
  | some addr => rw [MemCtx.regionCreate_some]; simp [MemCtx.addRegion]

@[simp] theorem MemCtx.regionCreate_localNodeId :
    (ctx.regionCreate size ownerId globalBase mapped).2.localNodeId = ctx.localNodeId := by
  cases mapped with
  | none => rfl
  | some addr => rw [MemCtx.regionCreate_some]; rfl

@[simp] theorem MemCtx.regionCreate_localRole :
    (ctx.regionCreate size ownerId globalBase mapped).2.localRole = ctx.localRole := by
  cases mapped with
  | none => rfl
  | some addr => rw [MemCtx.regionCreate_some]; rfl

@[simp] theorem MemCtx.regionCreate_nextGlobalAddr :
    (ctx.regionCreate size ownerId globalBase mapped).2.nextGlobalAddr = ctx.nextGlobalAddr := by
  cases mapped with
  | none => rfl
  | some addr => rw [MemCtx.regionCreate_some]; rfl

/-- What `dsm_malloc` of a positive size does: it takes the next addresses, whether or not it gets
memory for them. -/
theorem MemCtx.memAlloc_spec (hsize : size ≠ 0) :
    (ctx.memAlloc size mapped).2.localNodeId = ctx.localNodeId ∧
      (ctx.memAlloc size mapped).2.localRole = ctx.localRole ∧
      (ctx.memAlloc size mapped).2.nextGlobalAddr =
        (ctx.nextGlobalAddr + roundUpPage size) % 2 ^ 64 ∧
      (ctx.memAlloc size mapped).2.regions = ctx.regions ++
        (mapped.map (Region.created (roundUpPage size) ctx.localNodeId ctx.nextGlobalAddr)).toList ∧
      (ctx.memAlloc size mapped).2.pageTable = ctx.pageTable.map (· ++
        (mapped.map (Region.created (roundUpPage size) ctx.localNodeId ctx.nextGlobalAddr)).toList.flatMap
          (·.newPages ctx.localNodeId)) := by
  by_cases hrole : ctx.localRole = .master <;>
    simp [MemCtx.memAlloc, hsize, MemCtx.bump, MemCtx.registerOwnership, hrole]

end

/-- The `region_size` of `dsm_mem_init`. -/
def initSize (chunks : Nat) : Nat := chunks * pageSize % 2 ^ 32

/-- The `global_base` that `dsm_mem_init` chooses. -/
def MemCtx.initBase (ctx : MemCtx) (chunks : Nat) : Nat :=
  if ctx.localRole = .master then ctx.nextGlobalAddr
  else (ctx.nextGlobalAddr + ctx.localNodeId * initSize chunks) % 2 ^ 64

theorem MemCtx.memInit_spec (ctx : MemCtx) (chunks : Nat) (mapped : Option Nat) :
    (ctx.memInit chunks mapped).2.localNodeId = ctx.localNodeId ∧
      (ctx.memInit chunks mapped).2.localRole = ctx.localRole ∧
      (ctx.memInit chunks mapped).2.nextGlobalAddr = (if ctx.localRole = .master then
        (ctx.nextGlobalAddr + initSize chunks) % 2 ^ 64 else ctx.nextGlobalAddr) ∧
      (ctx.memInit chunks mapped).2.regions = ctx.regions ++
        (mapped.map (Region.created (initSize chunks) ctx.localNodeId (ctx.initBase chunks))).toList ∧
      (ctx.memInit chunks mapped).2.pageTable = mapped.map fun addr =>
        (Region.created (initSize chunks) ctx.localNodeId (ctx.initBase chunks) addr).newPages
          ctx.localNodeId := by
  by_cases hrole : ctx.localRole = .master <;> cases mapped <;>
    simp [MemCtx.memInit, MemCtx.regionCreate_none, MemCtx.regionCreate_some, MemCtx.addRegion,
      MemCtx.bump, MemCtx.registerOwnership, MemCtx.initBase, initSize, hrole]

end Dsm
