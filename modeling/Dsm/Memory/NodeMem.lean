import Dsm.Memory.Mapping
import Dsm.Library.Bytes

/-!
# The memory of a node

The bookkeeping of a node together with the protection and the content of its address space, and the
functions of `dsm_memory.c` and `dsm_pagefault.c` that touch both. The page table only grows and no
record changes its addresses, so the record that a lookup finds once is found again: a pointer to a
record is the address with which it was looked up.
-/

namespace Dsm

structure NodeMem where
  ctx : MemCtx
  prot : Nat → Prot
  bytes : Nat → UInt8

/-- Assign to the record that `dsm_page_lookup_local` returns, if it returns one. -/
def pageUpdateLocal (table : PageTable) (localAddr : Nat) (f : Page → Page) : PageTable :=
  table.map fun pages => (pages.updateFirst (·.localAddr == pageBase localAddr) f).getD pages

/-- How the first critical section of `dsm_page_fault_handle` ends: with the return of the function,
or with a page to fetch. -/
inductive FaultCheck where
  | ret (value : Int)
  | fetch (page : Page)
deriving DecidableEq, Repr

namespace NodeMem

/-- A successful `mprotect`. -/
def protect (m : NodeMem) (addr size : Nat) (prot : Prot) : NodeMem :=
  { m with prot := fun a => if addr ≤ a ∧ a < addr + size then prot else m.prot a }

/-- `memcpy` or `memset` to an address. -/
def store (m : NodeMem) (addr : Nat) (data : Nat → UInt8) (size : Nat) : NodeMem :=
  { m with bytes := fun a => if addr ≤ a ∧ a < addr + size then data (a - addr) else m.bytes a }

def setPageTable (m : NodeMem) (table : PageTable) : NodeMem :=
  { m with ctx := { m.ctx with pageTable := table } }

def updatePage (m : NodeMem) (globalAddr : Nat) (f : Page → Page) : NodeMem :=
  m.setPageTable (pageUpdate m.ctx.pageTable globalAddr f)

def updatePageLocal (m : NodeMem) (localAddr : Nat) (f : Page → Page) : NodeMem :=
  m.setPageTable (pageUpdateLocal m.ctx.pageTable localAddr f)

/-- The pages of a new mapping are zero, and `dsm_region_create` opens them if the node owns them. -/
def mapRegion (m : NodeMem) (r : Region) : NodeMem :=
  (m.protect r.baseAddr r.totalSize
    (if r.ownerId = m.ctx.localNodeId then .readWrite else .none)).store
      r.baseAddr (fun _ => 0) r.totalSize

/-- `munmap`. -/
def unmapRegion (m : NodeMem) (r : Region) : NodeMem := m.protect r.baseAddr r.totalSize .none

/-- A call of the memory interface, with the mapping that it makes or takes away. -/
def call (m : NodeMem) (a : MappingAction) : NodeMem :=
  let m' := match a with
    | .free addr => (m.ctx.freeTarget addr).elim m m.unmapRegion
    | _ => (a.creates m.ctx).elim m m.mapRegion
  { m' with ctx := a.apply m.ctx }

/-- `dsm_page_fault_handle` up to the end of its first critical section. -/
def faultCheck (m : NodeMem) (faultAddr : Nat) (protectOk : Bool) : FaultCheck × NodeMem :=
  match pageLookupLocal m.ctx.pageTable faultAddr with
  | none => (.ret (-1), m)
  | some page =>
      let opened := (m.protect page.localAddr pageSize .readWrite).updatePageLocal faultAddr
        ({ · with state := .modified })
      if page.state = .modified ∨ page.state = .shared then
        if page.ownerId = m.ctx.localNodeId then
          if protectOk then (.ret 0, opened) else (.ret (-1), m)
        else (.ret 0, m)
      else if page.ownerId = m.ctx.localNodeId then
        if protectOk then (.ret 0, opened) else (.ret (-1), m)
      else (.fetch page, m.updatePageLocal faultAddr ({ · with state := .pending }))

/-- The owner that `dsm_page_fault_handle` asks: the one that the record names, unless the master
finds another one in its ownership table. -/
def faultOwner (m : NodeMem) (page : Page) : NodeId :=
  if m.ctx.localRole = .master then
    let actualOwner := ownershipGet m.ctx.ownership page.globalAddr
    if 0 < actualOwner then actualOwner.toNat else page.ownerId
  else page.ownerId

/-- The assignments with which `dsm_page_install` ends. -/
def markInstalled (m : NodeMem) (globalAddr version : Nat) : NodeMem :=
  m.updatePage globalAddr ({ · with state := .shared, version := version })

/-- `dsm_page_install`; `writeOk` and `readOk` are whether its two `mprotect` succeed. -/
def pageInstall (m : NodeMem) (globalAddr : Nat) (data : Nat → UInt8) (size version : Nat)
    (writeOk readOk : Bool) : Int × NodeMem :=
  match pageLookup m.ctx.pageTable globalAddr with
  | none => (-1, m)
  | some page =>
      if page.localAddr = 0 then (0, m.markInstalled globalAddr version)
      else if !writeOk then (-1, m)
      else
        let m := (m.protect page.localAddr pageSize .readWrite).store page.localAddr data size
        if !readOk then (-1, m)
        else (0, (m.protect page.localAddr pageSize .read).markInstalled globalAddr version)

/-- The payload that `dsm_page_send` builds. -/
def pageData (m : NodeMem) (globalAddr : Nat) : Option (List UInt8) :=
  match pageLookup m.ctx.pageTable globalAddr with
  | none => none
  | some page =>
      if page.localAddr = 0 then none
      else
        some (Bytes.le globalAddr 8 ++ Bytes.le pageSize 4 ++ Bytes.le page.version 8 ++
          (List.range pageSize).map fun i => m.bytes (page.localAddr + i))

end NodeMem

/-! ### The records keep their addresses -/

/-- The addresses of the records, which only `dsm_page_register` adds to. -/
def PageTable.addrs (table : PageTable) : Option (List (Nat × Nat)) := table.map (·.map Page.addrs)

theorem pageUpdateLocal_map {β : Type*} {v : Page → β} (table : PageTable) (localAddr : Nat)
    {f : Page → Page} (hf : ∀ page, v (f page) = v page) :
    (pageUpdateLocal table localAddr f).map (·.map v) = table.map (·.map v) := by
  cases table with
  | none => rfl
  | some pages =>
      simp only [pageUpdateLocal, Option.map_some, Option.some.injEq]
      cases hupdate : pages.updateFirst (·.localAddr == pageBase localAddr) f with
      | none => rfl
      | some pages' => exact List.map_updateFirst hf hupdate

/-! ### What a call does to the records -/

/-- The marks that `dsm_malloc_at` sets on the pages at these addresses. -/
def markPages (table : PageTable) (addrs : List Nat) : PageTable :=
  addrs.foldl (fun table g => pageUpdate table g ({ · with state := .shared })) table

theorem markPages_cons (table : PageTable) (g : Nat) (addrs : List Nat) :
    markPages table (g :: addrs) =
      markPages (pageUpdate table g ({ · with state := .shared })) addrs := rfl

theorem MemCtx.markShared_pageTable (ctx : MemCtx) (globalAddr numPages : Nat) :
    (ctx.markShared globalAddr numPages).pageTable = markPages ctx.pageTable
      ((List.range numPages).map fun i => (globalAddr + i * pageSize) % 2 ^ 64) := by
  unfold MemCtx.markShared
  induction List.range numPages generalizing ctx with
  | nil => rfl
  | cons i is ih =>
      rw [List.foldl_cons, ih]
      rfl

theorem pageLookup_markPages (table : PageTable) (addrs : List Nat) {g : Nat}
    (h : ∀ g' ∈ addrs, pageBase g ≠ pageBase g') :
    pageLookup (markPages table addrs) g = pageLookup table g := by
  induction addrs generalizing table with
  | nil => rfl
  | cons g' addrs ih =>
      rw [markPages_cons, ih _ fun g'' hg => h g'' (List.mem_cons_of_mem _ hg)]
      refine pageLookup_pageUpdate_of_ne ?_ table (h g' List.mem_cons_self)
      exact fun _ => rfl

theorem markPages_addrs (table : PageTable) (addrs : List Nat) :
    (markPages table addrs).addrs = table.addrs := by
  induction addrs generalizing table with
  | nil => rfl
  | cons g addrs ih =>
      rw [markPages_cons, ih]
      exact pageUpdate_map table g fun _ => rfl

theorem ownerId_markPages {table : PageTable} {addrs : List Nat} {owner : NodeId}
    (h : ∀ pages ∈ table, ∀ page ∈ pages, page.ownerId = owner) :
    ∀ pages ∈ markPages table addrs, ∀ page ∈ pages, page.ownerId = owner := by
  induction addrs generalizing table with
  | nil => exact h
  | cons g addrs ih =>
      rw [markPages_cons]
      refine ih fun pages hpages page hpage => ?_
      obtain ⟨old, hold, hmem | ⟨page', hpage', rfl⟩⟩ := mem_pageUpdate ⟨pages, hpages, hpage⟩
      · exact h old hold page hmem
      · exact h old hold page' hpage'

/-- The records of the region that a call creates. -/
def MappingAction.newPages (ctx : MemCtx) (a : MappingAction) : List Page :=
  (a.creates ctx).toList.flatMap (·.newPages ctx.localNodeId)

/-- A call adds the records of the region that it creates, and may mark some of these. -/
theorem MappingAction.apply_pageTable (ctx : MemCtx) (a : MappingAction) :
    ∃ marks, (a.apply ctx).pageTable = markPages (ctx.pageTable.map (· ++ a.newPages ctx)) marks ∧
      ∀ g ∈ marks, ∃ r ∈ a.creates ctx, ∃ i < r.pageCount,
        g = (r.globalBase + i * pageSize) % 2 ^ 64 := by
  have hsame : ∀ table : PageTable, table = markPages (table.map (· ++ [])) [] := by
    intro table
    cases table <;> simp [markPages]
  cases a with
  | malloc size mapped =>
      by_cases hsize : size = 0
      · refine ⟨[], ?_, fun g hg => by cases hg⟩
        simpa [MappingAction.apply, MappingAction.newPages, MappingAction.creates, MemCtx.memAlloc,
          hsize] using hsame ctx.pageTable
      · obtain ⟨-, -, -, -, htable⟩ := ctx.memAlloc_spec size mapped hsize
        refine ⟨[], ?_, fun g hg => by cases hg⟩
        simpa [MappingAction.apply, MappingAction.newPages, MappingAction.creates, hsize, markPages]
          using htable
  | mapRemote globalAddr size mapped =>
      by_cases hsize : size = 0
      · refine ⟨[], ?_, fun g hg => by cases hg⟩
        simpa [MappingAction.apply, MappingAction.newPages, MappingAction.creates, MemCtx.mapRemote,
          hsize] using hsame ctx.pageTable
      · refine ⟨[], ?_, fun g hg => by cases hg⟩
        simp [MappingAction.apply, MappingAction.newPages, MappingAction.creates, MemCtx.mapRemote,
          hsize, markPages, MemCtx.registerOwnership]
  | mallocAt globalAddr size mapped protectOk =>
      by_cases hsize : size = 0
      · refine ⟨[], ?_, fun g hg => by cases hg⟩
        simpa [MappingAction.apply, MappingAction.newPages, MappingAction.creates, MemCtx.mallocAt,
          hsize] using hsame ctx.pageTable
      · cases mapped with
        | none =>
            refine ⟨[], ?_, fun g hg => by cases hg⟩
            simpa [MappingAction.apply, MappingAction.newPages, MappingAction.creates,
              MemCtx.mallocAt, hsize, MemCtx.regionCreate_none, MemCtx.registerOwnership]
              using hsame ctx.pageTable
        | some addr =>
            cases protectOk with
            | false =>
                refine ⟨[], ?_, fun g hg => by cases hg⟩
                simp [MappingAction.apply, MappingAction.newPages, MappingAction.creates,
                  MemCtx.mallocAt, hsize, MemCtx.regionCreate_some, MemCtx.addRegion, markPages,
                  MemCtx.registerOwnership]
            | true =>
                refine ⟨(List.range (roundUpPage size / pageSize)).map fun i =>
                  (globalAddr + i * pageSize) % 2 ^ 64, ?_, fun g hg => ?_⟩
                · simp [MappingAction.apply, MappingAction.newPages, MappingAction.creates,
                    MemCtx.mallocAt, hsize, MemCtx.regionCreate_some, MemCtx.addRegion,
                    MemCtx.markShared_pageTable, MemCtx.registerOwnership]
                · obtain ⟨i, hi, rfl⟩ := List.mem_map.mp hg
                  refine ⟨.created (roundUpPage size) ctx.localNodeId globalAddr addr,
                    by simp [MappingAction.creates, hsize], i, ?_, rfl⟩
                  simpa [Region.created, roundUpPage_roundUpPage] using hi
  | free addr =>
      refine ⟨[], ?_, fun g hg => by cases hg⟩
      rw [MappingAction.apply, MemCtx.memFree]
      split
      · exact hsame ctx.pageTable
      · exact hsame ctx.pageTable

theorem MappingAction.apply_ids (ctx : MemCtx) (a : MappingAction) :
    (a.apply ctx).localNodeId = ctx.localNodeId ∧ (a.apply ctx).localRole = ctx.localRole := by
  have hmark : ∀ (ctx : MemCtx) (g k : Nat), (ctx.markShared g k).localNodeId = ctx.localNodeId ∧
      (ctx.markShared g k).localRole = ctx.localRole := by
    intro ctx g k
    unfold MemCtx.markShared
    induction List.range k generalizing ctx with
    | nil => exact ⟨rfl, rfl⟩
    | cons i is ih =>
        rw [List.foldl_cons]
        exact ih _
  cases a with
  | malloc size mapped =>
      by_cases hsize : size = 0
      · simp [MappingAction.apply, MemCtx.memAlloc, hsize]
      · obtain ⟨hid, hrole, -⟩ := ctx.memAlloc_spec size mapped hsize
        exact ⟨hid, hrole⟩
  | mallocAt globalAddr size mapped protectOk =>
      by_cases hsize : size = 0
      · simp [MappingAction.apply, MemCtx.mallocAt, hsize]
      · cases mapped with
        | none =>
            simp [MappingAction.apply, MemCtx.mallocAt, hsize, MemCtx.regionCreate_none,
              MemCtx.registerOwnership]
        | some addr =>
            cases protectOk <;>
              simp [MappingAction.apply, MemCtx.mallocAt, hsize, MemCtx.regionCreate_some,
                MemCtx.addRegion, MemCtx.registerOwnership, hmark]
  | mapRemote globalAddr size mapped =>
      by_cases hsize : size = 0 <;>
        simp [MappingAction.apply, MemCtx.mapRemote, hsize, MemCtx.registerOwnership]
  | free addr =>
      rw [MappingAction.apply, MemCtx.memFree]
      split
      · exact ⟨rfl, rfl⟩
      · exact ⟨rfl, rfl⟩

/-! ### Steps that leave the records what they are -/

/-- What no assignment to a record changes. -/
def Page.key (page : Page) : (Nat × Nat) × NodeId := (page.addrs, page.ownerId)

def PageTable.keys (table : PageTable) : Option (List ((Nat × Nat) × NodeId)) :=
  table.map (·.map Page.key)

/-- The bookkeeping is the same, up to the states and versions of records. -/
structure NodeMem.Same (m m' : NodeMem) : Prop where
  localNodeId : m'.ctx.localNodeId = m.ctx.localNodeId
  localRole : m'.ctx.localRole = m.ctx.localRole
  regions : m'.ctx.regions = m.ctx.regions
  keys : m'.ctx.pageTable.keys = m.ctx.pageTable.keys

theorem NodeMem.Same.refl (m : NodeMem) : m.Same m := ⟨rfl, rfl, rfl, rfl⟩

theorem NodeMem.Same.addrs {m m' : NodeMem} (h : m.Same m') :
    m'.ctx.pageTable.addrs = m.ctx.pageTable.addrs := by
  have hkeys := congrArg (Option.map (List.map Prod.fst)) h.keys
  simpa [PageTable.keys, PageTable.addrs, Page.key, Function.comp_def] using hkeys

theorem NodeMem.same_updatePageLocal (m : NodeMem) (addr : Nat) {f : Page → Page}
    (hf : ∀ page, (f page).key = page.key) : m.Same (m.updatePageLocal addr f) :=
  ⟨rfl, rfl, rfl, pageUpdateLocal_map _ _ hf⟩

theorem NodeMem.same_markInstalled (m : NodeMem) (g version : Nat) :
    m.Same (m.markInstalled g version) :=
  ⟨rfl, rfl, rfl, pageUpdate_map _ _ fun _ => rfl⟩

theorem NodeMem.same_pageInstall (m : NodeMem) (g : Nat) (data : Nat → UInt8) (size version : Nat)
    (writeOk readOk : Bool) : m.Same (m.pageInstall g data size version writeOk readOk).2 := by
  rw [NodeMem.pageInstall]
  split
  · exact .refl m
  · split_ifs
    · exact m.same_markInstalled g version
    · exact .refl m
    · exact ⟨rfl, rfl, rfl, rfl⟩
    · exact ⟨rfl, rfl, rfl, pageUpdate_map _ _ fun _ => rfl⟩

/-- Everything that the first critical section of `dsm_page_fault_handle` can do: return at once,
open a page of the node's own, or mark a page of another node pending. -/
theorem NodeMem.faultCheck_cases (m : NodeMem) (faultAddr : Nat) (protectOk : Bool) :
    (∃ value, m.faultCheck faultAddr protectOk = (.ret value, m) ∧ (value = 0 → ∃ page,
        pageLookupLocal m.ctx.pageTable faultAddr = some page ∧
          (page.state = .modified ∨ page.state = .shared))) ∨
      (∃ page, pageLookupLocal m.ctx.pageTable faultAddr = some page ∧
        page.ownerId = m.ctx.localNodeId ∧ m.faultCheck faultAddr protectOk = (.ret 0,
          (m.protect page.localAddr pageSize .readWrite).updatePageLocal faultAddr
            ({ · with state := .modified }))) ∨
      ∃ page, pageLookupLocal m.ctx.pageTable faultAddr = some page ∧
        page.ownerId ≠ m.ctx.localNodeId ∧ m.faultCheck faultAddr protectOk = (.fetch page,
          m.updatePageLocal faultAddr ({ · with state := .pending })) := by
  cases hpage : pageLookupLocal m.ctx.pageTable faultAddr with
  | none => exact .inl ⟨-1, by simp [NodeMem.faultCheck, hpage], fun hzero => by cases hzero⟩
  | some page =>
      by_cases hown : page.ownerId = m.ctx.localNodeId
      · cases protectOk with
        | false =>
            refine .inl ⟨-1, ?_, fun hzero => by cases hzero⟩
            simp [NodeMem.faultCheck, hpage, hown]
        | true =>
            refine .inr (.inl ⟨page, rfl, hown, ?_⟩)
            simp [NodeMem.faultCheck, hpage, hown]
      · by_cases hvalid : page.state = .modified ∨ page.state = .shared
        · refine .inl ⟨0, ?_, fun _ => ⟨page, rfl, hvalid⟩⟩
          simp [NodeMem.faultCheck, hpage, hown, hvalid]
        · refine .inr (.inr ⟨page, rfl, hown, ?_⟩)
          simp [NodeMem.faultCheck, hpage, hown, hvalid]

theorem NodeMem.same_faultCheck (m : NodeMem) (faultAddr : Nat) (protectOk : Bool) :
    m.Same (m.faultCheck faultAddr protectOk).2 := by
  rcases m.faultCheck_cases faultAddr protectOk with ⟨_, heq, -⟩ | ⟨page, -, -, heq⟩ | ⟨page, -, -, heq⟩
  · rw [heq]
    exact .refl m
  · rw [heq]
    exact ⟨rfl, rfl, rfl, pageUpdateLocal_map _ _ fun _ => rfl⟩
  · rw [heq]
    exact m.same_updatePageLocal _ fun _ => rfl

end Dsm
