import Dsm.Memory.Region
import Dsm.Library.Machine

/-!
# One mapping, two indexes

A node answers queries about its mappings from two places: the page table and the region list. They
describe the same mapping as long as every region starts at a page boundary, ends below `2 ^ 64`, and
stays: `dsm_free` takes a region from the list and leaves its records in the page table. The lookups
of a node in such a state are both scans of one list of address pairs (`MappingInv.table`).
-/

namespace Dsm

inductive MappingAction where
  | malloc (size : Nat) (mapped : Option Nat)
  | mallocAt (globalAddr size : Nat) (mapped : Option Nat) (protectOk : Bool)
  | mapRemote (globalAddr size : Nat) (mapped : Option Nat)
  | free (addr : Nat)
deriving DecidableEq, Repr

namespace MappingAction

def apply (ctx : MemCtx) : MappingAction → MemCtx
  | .malloc size mapped => (ctx.memAlloc size mapped).2
  | .mallocAt globalAddr size mapped protectOk => (ctx.mallocAt globalAddr size mapped protectOk).2
  | .mapRemote globalAddr size mapped => (ctx.mapRemote globalAddr size mapped).2
  | .free addr => ctx.memFree addr

/-- The region that the call creates. -/
def creates (ctx : MemCtx) : MappingAction → Option Region
  | .malloc size mapped =>
      if size = 0 then none
      else mapped.map (.created (roundUpPage size) ctx.localNodeId ctx.nextGlobalAddr)
  | .mallocAt globalAddr size mapped _ =>
      if size = 0 then none
      else mapped.map (.created (roundUpPage size) ctx.localNodeId globalAddr)
  | .mapRemote globalAddr size mapped =>
      if size = 0 then none
      else mapped.map (.created (roundUpPage size) masterId globalAddr)
  | .free _ => none

/-- The arguments are those of the source's types, and `dsm_malloc_at` gets a non-zero address. -/
def Typed : MappingAction → Prop
  | .malloc size _ => size < 2 ^ 64
  | .mallocAt globalAddr size _ _ => size < 2 ^ 64 ∧ 0 < globalAddr ∧ globalAddr < 2 ^ 64
  | .mapRemote globalAddr size _ => size < 2 ^ 64 ∧ globalAddr < 2 ^ 64
  | .free addr => addr < 2 ^ 64

instance (a : MappingAction) : Decidable a.Typed := by
  cases a <;> (unfold Typed; infer_instance)

end MappingAction

/-- What `mmap` promises about a mapping that it returns. -/
def Region.Mapped (ctx : MemCtx) (r : Region) : Prop :=
  0 < r.totalSize ∧ pageSize ∣ r.baseAddr ∧ 0 < r.baseAddr ∧ r.baseAddr + r.totalSize < 2 ^ 64 ∧
    ∀ r' ∈ ctx.regions, r'.LocalApart r

instance (ctx : MemCtx) (r : Region) : Decidable (r.Mapped ctx) :=
  inferInstanceAs (Decidable (_ ∧ _ ∧ _ ∧ _ ∧ _))

/-- The calls of a run: `mmap` keeps its promise, and the live global ranges stay disjoint. -/
def MappingAction.Allowed (ctx : MemCtx) (a : MappingAction) : Prop :=
  a.Typed ∧ (∀ r ∈ a.creates ctx, r.Mapped ctx) ∧ (a.apply ctx).regions.Pairwise Region.Apart

instance (ctx : MemCtx) (a : MappingAction) : Decidable (a.Allowed ctx) :=
  inferInstanceAs (Decidable (_ ∧ _ ∧ _))

/-- A node after `dsm_mem_init`. -/
def MappingStart (ctx : MemCtx) : Prop :=
  ∃ node role chunks addr, node < 2 ^ 32 ∧ 1 ≤ chunks ∧ chunks ≤ 1024 ∧
    (∀ r ∈ ctx.regions, r.Mapped (.initial node role)) ∧
    ctx = ((MemCtx.initial node role).memInit chunks (some addr)).2

def mappingMachine : Machine MemCtx MappingAction where
  start := MappingStart
  step ctx a := if a.Allowed ctx then some (a.apply ctx) else none

/-- The two indexes agree on every global and every local address. -/
structure MemCtx.Agrees (ctx : MemCtx) : Prop where
  found : ∀ g < 2 ^ 64, (pageLookup ctx.pageTable g).isSome ↔ (ctx.regionFind g).isSome
  localPage : ∀ g < 2 ^ 64, ∀ page ∈ pageLookup ctx.pageTable g, ∀ p ∈ ctx.globalToLocal g,
    page.localAddr = pageBase p
  foundLocal : ∀ p < 2 ^ 64, (pageLookupLocal ctx.pageTable p).isSome ↔
    ∃ r ∈ ctx.regions, r.baseAddr ≤ p ∧ p < r.baseAddr + r.totalSize
  globalPage : ∀ p < 2 ^ 64, ∀ page ∈ pageLookupLocal ctx.pageTable p,
    page.globalAddr = ctx.localToGlobal (pageBase p)

/-! ### The lookups of a whole mapping -/

/-- The global and the local address of every page of a region. -/
def Region.pagePairs (r : Region) : List (Nat × Nat) :=
  (List.range r.pageCount).map fun i => (r.globalBase + i * pageSize, r.baseAddr + i * pageSize)

def Page.addrs (page : Page) : Nat × Nat := (page.globalAddr, page.localAddr)

/-- Whole pages, at page boundaries, below the end of both address spaces. -/
structure Region.Whole (r : Region) : Prop where
  globalBase : pageSize ∣ r.globalBase
  baseAddr : pageSize ∣ r.baseAddr
  size : r.totalSize = r.pageCount * pageSize
  pos : 0 < r.pageCount
  globalEnd : r.globalBase + r.totalSize < 2 ^ 64
  localEnd : r.baseAddr + r.totalSize < 2 ^ 64

structure MappingInv (ctx : MemCtx) : Prop where
  table : ctx.pageTable.map (·.map Page.addrs) = some (ctx.regions.flatMap Region.pagePairs)
  whole : ∀ r ∈ ctx.regions, r.Whole
  apart : ctx.regions.Pairwise Region.Apart
  localApart : ctx.regions.Pairwise Region.LocalApart
  next : pageSize ∣ ctx.nextGlobalAddr

theorem Region.Whole.containsGlobal_iff {r : Region} (h : r.Whole) (g : Nat) :
    r.containsGlobal g = true ↔ r.globalBase ≤ g ∧ g < r.globalBase + r.totalSize := by
  rw [Region.containsGlobal, Nat.mod_eq_of_lt h.globalEnd, Bool.and_eq_true, decide_eq_true_eq,
    decide_eq_true_eq]

theorem Region.Whole.containsLocal_iff {r : Region} (h : r.Whole) (p : Nat) :
    r.containsLocal p = true ↔ r.baseAddr ≤ p ∧ p < r.baseAddr + r.totalSize := by
  rw [Region.containsLocal, Nat.mod_eq_of_lt h.localEnd, Bool.and_eq_true, decide_eq_true_eq,
    decide_eq_true_eq]

theorem exists_page_iff {base n addr : Nat} (hbase : pageSize ∣ base) :
    (∃ i < n, base + i * pageSize = pageBase addr) ↔ base ≤ addr ∧ addr < base + n * pageSize := by
  constructor
  · rintro ⟨i, hi, heq⟩
    obtain ⟨hlow, hhigh⟩ := (pageBase_add_eq_iff hbase).mp heq
    have hmul : (i + 1) * pageSize ≤ n * pageSize := Nat.mul_le_mul_right _ hi
    omega
  · rintro ⟨hlow, hhigh⟩
    refine ⟨(addr - base) / pageSize, ?_, (pageBase_add_eq_iff hbase).mpr ?_⟩
    · rw [Nat.div_lt_iff_lt_mul (by decide)]
      omega
    · unfold pageSize
      omega

theorem mem_pagePairs {r : Region} {x : Nat × Nat} : x ∈ r.pagePairs ↔
    ∃ i < r.pageCount, (r.globalBase + i * pageSize, r.baseAddr + i * pageSize) = x := by
  simp [Region.pagePairs]

/-- Without a wrap-around the registered addresses are the addresses of the pages. -/
theorem Region.Whole.map_newPages {r : Region} (h : r.Whole) (node : NodeId) :
    (r.newPages node).map Page.addrs = r.pagePairs := by
  rw [Region.newPages, Region.pagePairs, List.map_map]
  refine List.map_congr_left fun i hi => ?_
  have hlt : i < r.pageCount := List.mem_range.mp hi
  have hmul : i * pageSize < r.pageCount * pageSize := Nat.mul_lt_mul_of_pos_right hlt (by decide)
  have hend := h.globalEnd
  rw [h.size] at hend
  simp only [Function.comp_apply, Page.addrs, Page.new, Nat.mod_eq_of_lt
    (show r.globalBase + i * pageSize < 2 ^ 64 by omega)]

theorem pageLookup_addrs {table : PageTable} {pairs : List (Nat × Nat)}
    (htable : table.map (·.map Page.addrs) = some pairs) (g : Nat) :
    (pageLookup table g).map Page.addrs = pairs.find? (·.1 == pageBase g) := by
  obtain ⟨pages, rfl, rfl⟩ := Option.map_eq_some_iff.mp htable
  rw [List.find?_map]
  rfl

theorem pageLookupLocal_addrs {table : PageTable} {pairs : List (Nat × Nat)}
    (htable : table.map (·.map Page.addrs) = some pairs) (p : Nat) :
    (pageLookupLocal table p).map Page.addrs = pairs.find? (·.2 == pageBase p) := by
  obtain ⟨pages, rfl, rfl⟩ := Option.map_eq_some_iff.mp htable
  rw [List.find?_map]
  rfl

namespace MappingInv

variable {ctx : MemCtx} (h : MappingInv ctx)
include h

theorem eq_of_global {r r' : Region} {g : Nat} (hr : r ∈ ctx.regions) (hr' : r' ∈ ctx.regions)
    (hin : r.globalBase ≤ g ∧ g < r.globalBase + r.totalSize)
    (hin' : r'.globalBase ≤ g ∧ g < r'.globalBase + r'.totalSize) : r = r' := by
  by_contra hne
  exact Region.not_apart hin hin' (h.apart.forall hr hr' hne)

theorem regionFind_eq_some_iff {r : Region} {g : Nat} : ctx.regionFind g = some r ↔
    r ∈ ctx.regions ∧ r.globalBase ≤ g ∧ g < r.globalBase + r.totalSize := by
  have hunique : ctx.regions.Pairwise fun r r' =>
      r.containsGlobal g = true → r'.containsGlobal g = false := by
    refine h.apart.imp_of_mem fun {r r'} hr hr' hapart hin => ?_
    rw [(h.whole r hr).containsGlobal_iff] at hin
    rw [Bool.eq_false_iff, ne_eq, (h.whole r' hr').containsGlobal_iff]
    exact fun hin' => Region.not_apart hin hin' hapart
  rw [MemCtx.regionFind, List.find?_eq_some_iff_of_pairwise hunique]
  exact and_congr_right fun hr => (h.whole r hr).containsGlobal_iff g

theorem find_containsLocal_eq_some_iff {r : Region} {p : Nat} :
    ctx.regions.find? (·.containsLocal p) = some r ↔
      r ∈ ctx.regions ∧ r.baseAddr ≤ p ∧ p < r.baseAddr + r.totalSize := by
  have hunique : ctx.regions.Pairwise fun r r' =>
      r.containsLocal p = true → r'.containsLocal p = false := by
    refine h.localApart.imp_of_mem fun {r r'} hr hr' hapart hin => ?_
    rw [(h.whole r hr).containsLocal_iff] at hin
    rw [Bool.eq_false_iff, ne_eq, (h.whole r' hr').containsLocal_iff]
    exact fun hin' => Region.not_localApart hin hin' hapart
  rw [List.find?_eq_some_iff_of_pairwise hunique]
  exact and_congr_right fun hr => (h.whole r hr).containsLocal_iff p

/-- The record that a global address finds is that of its page in the region that contains it. -/
theorem exists_of_pageLookup {page : Page} {g : Nat} (hpage : pageLookup ctx.pageTable g = some page) :
    ∃ r ∈ ctx.regions, ∃ i, (r.globalBase ≤ g ∧ g < r.globalBase + r.totalSize) ∧
      r.globalBase + i * pageSize = pageBase g ∧ page.localAddr = r.baseAddr + i * pageSize := by
  have haddrs := pageLookup_addrs h.table g
  rw [hpage, Option.map_some] at haddrs
  have hmem := List.mem_of_find?_eq_some haddrs.symm
  have hbase := List.find?_some haddrs.symm
  rw [beq_iff_eq] at hbase
  obtain ⟨r, hr, hpair⟩ := List.mem_flatMap.mp hmem
  obtain ⟨i, hi, heq⟩ := mem_pagePairs.mp hpair
  have hglobal : r.globalBase + i * pageSize = page.globalAddr := congrArg Prod.fst heq
  have hlocal : r.baseAddr + i * pageSize = page.localAddr := congrArg Prod.snd heq
  refine ⟨r, hr, i, ?_, hglobal.trans hbase, hlocal.symm⟩
  rw [(h.whole r hr).size]
  exact (exists_page_iff (h.whole r hr).globalBase).mp ⟨i, hi, hglobal.trans hbase⟩

theorem exists_of_pageLookupLocal {page : Page} {p : Nat}
    (hpage : pageLookupLocal ctx.pageTable p = some page) :
    ∃ r ∈ ctx.regions, ∃ i < r.pageCount, (r.baseAddr ≤ p ∧ p < r.baseAddr + r.totalSize) ∧
      r.baseAddr + i * pageSize = pageBase p ∧ page.globalAddr = r.globalBase + i * pageSize := by
  have haddrs := pageLookupLocal_addrs h.table p
  rw [hpage, Option.map_some] at haddrs
  have hmem := List.mem_of_find?_eq_some haddrs.symm
  have hbase := List.find?_some haddrs.symm
  rw [beq_iff_eq] at hbase
  obtain ⟨r, hr, hpair⟩ := List.mem_flatMap.mp hmem
  obtain ⟨i, hi, heq⟩ := mem_pagePairs.mp hpair
  have hglobal : r.globalBase + i * pageSize = page.globalAddr := congrArg Prod.fst heq
  have hlocal : r.baseAddr + i * pageSize = page.localAddr := congrArg Prod.snd heq
  refine ⟨r, hr, i, hi, ?_, hlocal.trans hbase, hglobal.symm⟩
  rw [(h.whole r hr).size]
  exact (exists_page_iff (h.whole r hr).baseAddr).mp ⟨i, hi, hlocal.trans hbase⟩

theorem pageLookup_isSome {r : Region} {g : Nat} (hr : r ∈ ctx.regions)
    (hin : r.globalBase ≤ g ∧ g < r.globalBase + r.totalSize) :
    (pageLookup ctx.pageTable g).isSome := by
  rw [(h.whole r hr).size] at hin
  obtain ⟨i, hi, heq⟩ := (exists_page_iff (h.whole r hr).globalBase).mpr hin
  have hsome : ((pageLookup ctx.pageTable g).map Page.addrs).isSome := by
    rw [pageLookup_addrs h.table, List.find?_isSome]
    exact ⟨_, List.mem_flatMap.mpr ⟨r, hr, mem_pagePairs.mpr ⟨i, hi, rfl⟩⟩, by simpa using heq⟩
  rwa [Option.isSome_map] at hsome

theorem pageLookupLocal_isSome {r : Region} {p : Nat} (hr : r ∈ ctx.regions)
    (hin : r.baseAddr ≤ p ∧ p < r.baseAddr + r.totalSize) :
    (pageLookupLocal ctx.pageTable p).isSome := by
  rw [(h.whole r hr).size] at hin
  obtain ⟨i, hi, heq⟩ := (exists_page_iff (h.whole r hr).baseAddr).mpr hin
  have hsome : ((pageLookupLocal ctx.pageTable p).map Page.addrs).isSome := by
    rw [pageLookupLocal_addrs h.table, List.find?_isSome]
    exact ⟨_, List.mem_flatMap.mpr ⟨r, hr, mem_pagePairs.mpr ⟨i, hi, rfl⟩⟩, by simpa using heq⟩
  rwa [Option.isSome_map] at hsome

theorem agrees : ctx.Agrees := by
  refine ⟨fun g _ => ?_, fun g _ page hpage p hp => ?_, fun p _ => ?_, fun p _ page hpage => ?_⟩
  · constructor
    · intro hsome
      obtain ⟨page, hpage⟩ := Option.isSome_iff_exists.mp hsome
      obtain ⟨r, hr, i, hin, -, -⟩ := h.exists_of_pageLookup hpage
      rw [h.regionFind_eq_some_iff.mpr ⟨hr, hin⟩]
      rfl
    · intro hsome
      obtain ⟨r, hfind⟩ := Option.isSome_iff_exists.mp hsome
      obtain ⟨hr, hin⟩ := h.regionFind_eq_some_iff.mp hfind
      exact h.pageLookup_isSome hr hin
  · obtain ⟨r, hr, i, hin, hbase, hlocal⟩ := h.exists_of_pageLookup hpage
    have hfind := h.regionFind_eq_some_iff.mpr ⟨hr, hin⟩
    have hp' : r.baseAddr + (g - r.globalBase) = p := by
      simpa [MemCtx.globalToLocal, hfind] using hp
    have hpageIn := (pageBase_add_eq_iff (h.whole r hr).globalBase).mp hbase
    rw [hlocal, pageBase_add_eq_iff (h.whole r hr).baseAddr]
    omega
  · constructor
    · intro hsome
      obtain ⟨page, hpage⟩ := Option.isSome_iff_exists.mp hsome
      obtain ⟨r, hr, i, -, hin, -, -⟩ := h.exists_of_pageLookupLocal hpage
      exact ⟨r, hr, hin⟩
    · rintro ⟨r, hr, hin⟩
      exact h.pageLookupLocal_isSome hr hin
  · obtain ⟨r, hr, i, hi, hin, hbase, hglobal⟩ := h.exists_of_pageLookupLocal hpage
    have hwhole := h.whole r hr
    have hmul : i * pageSize < r.pageCount * pageSize := Nat.mul_lt_mul_of_pos_right hi (by decide)
    have hend := hwhole.globalEnd
    have hsize := hwhole.size
    have hfind : ctx.regions.find? (·.containsLocal (pageBase p)) = some r :=
      h.find_containsLocal_eq_some_iff.mpr ⟨hr, by omega⟩
    rw [MemCtx.localToGlobal, hfind, hglobal]
    dsimp only
    rw [Nat.mod_eq_of_lt (by omega)]
    omega

end MappingInv

/-! ### What a call does to the two indexes -/

theorem MemCtx.markShared_spec (ctx : MemCtx) (globalAddr numPages : Nat) :
    (ctx.markShared globalAddr numPages).regions = ctx.regions ∧
      (ctx.markShared globalAddr numPages).nextGlobalAddr = ctx.nextGlobalAddr ∧
      (ctx.markShared globalAddr numPages).pageTable.map (·.map Page.addrs) =
        ctx.pageTable.map (·.map Page.addrs) := by
  unfold MemCtx.markShared
  induction List.range numPages generalizing ctx with
  | nil => exact ⟨rfl, rfl, rfl⟩
  | cons i is ih =>
      rw [List.foldl_cons]
      obtain ⟨hregions, hnext, htable⟩ := ih { ctx with
        pageTable := pageUpdate ctx.pageTable ((globalAddr + i * pageSize) % 2 ^ 64)
          ({ · with state := .shared }) }
      exact ⟨hregions, hnext, htable.trans (pageUpdate_map _ _ fun _ => rfl)⟩

/-- What every call but `dsm_free` does: it adds the region that it creates, if any, to both
indexes. -/
structure MappingAction.Adds (ctx ctx' : MemCtx) (created : Option Region) : Prop where
  regions : ctx'.regions = ctx.regions ++ created.toList
  table : ctx'.pageTable.map (·.map Page.addrs) = ctx.pageTable.map fun pages =>
    pages.map Page.addrs ++
      created.toList.flatMap fun r => (r.newPages ctx.localNodeId).map Page.addrs
  next : pageSize ∣ ctx.nextGlobalAddr → pageSize ∣ ctx'.nextGlobalAddr

theorem MappingAction.Adds.none (ctx : MemCtx) : MappingAction.Adds ctx ctx none := by
  refine ⟨by simp, ?_, id⟩
  simp only [Option.toList_none, List.flatMap_nil, List.append_nil]

theorem MappingAction.adds_regionCreate (ctx : MemCtx) (size : Nat) (ownerId : NodeId)
    (globalBase : Nat) (mapped : Option Nat) :
    MappingAction.Adds ctx (ctx.regionCreate size ownerId globalBase mapped).2
      (mapped.map (.created size ownerId globalBase)) := by
  refine ⟨by simp, ?_, by simp⟩
  rw [MemCtx.regionCreate_pageTable]
  cases ctx.pageTable <;> cases mapped <;> simp

theorem MappingAction.Adds.malloc (ctx : MemCtx) (size : Nat) (mapped : Option Nat) :
    MappingAction.Adds ctx ((MappingAction.malloc size mapped).apply ctx)
      ((MappingAction.malloc size mapped).creates ctx) := by
  by_cases hsize : size = 0
  · simp only [MappingAction.apply, MappingAction.creates, MemCtx.memAlloc, hsize, if_true]
    exact .none ctx
  · obtain ⟨-, -, hnext, hregions, htable⟩ := ctx.memAlloc_spec size mapped hsize
    simp only [MappingAction.apply, MappingAction.creates, if_neg hsize]
    refine ⟨hregions, ?_, fun hdvd => ?_⟩
    · rw [htable]
      cases ctx.pageTable <;> cases mapped <;> simp
    · rw [hnext]
      exact (Nat.dvd_mod_iff (by decide)).mpr (Nat.dvd_add hdvd (dvd_roundUpPage size))

theorem MappingAction.Adds.mapRemote (ctx : MemCtx) (globalAddr size : Nat) (mapped : Option Nat) :
    MappingAction.Adds ctx ((MappingAction.mapRemote globalAddr size mapped).apply ctx)
      ((MappingAction.mapRemote globalAddr size mapped).creates ctx) := by
  by_cases hsize : size = 0
  · simp only [MappingAction.apply, MappingAction.creates, MemCtx.mapRemote, hsize, if_true]
    exact .none ctx
  · simp only [MappingAction.apply, MappingAction.creates, MemCtx.mapRemote, if_neg hsize]
    have hadds := MappingAction.adds_regionCreate
      (ctx.registerOwnership globalAddr (roundUpPage size) masterId) (roundUpPage size) masterId
      globalAddr mapped
    exact ⟨hadds.regions, hadds.table, hadds.next⟩

theorem MappingAction.Adds.mallocAt (ctx : MemCtx) (globalAddr size : Nat) (mapped : Option Nat)
    (protectOk : Bool) :
    MappingAction.Adds ctx ((MappingAction.mallocAt globalAddr size mapped protectOk).apply ctx)
      ((MappingAction.mallocAt globalAddr size mapped protectOk).creates ctx) := by
  by_cases hsize : size = 0
  · simp only [MappingAction.apply, MappingAction.creates, MemCtx.mallocAt, hsize, if_true]
    exact .none ctx
  · have hadds := MappingAction.adds_regionCreate
      (ctx.registerOwnership globalAddr (roundUpPage size) ctx.localNodeId) (roundUpPage size)
      ctx.localNodeId globalAddr mapped
    simp only [MappingAction.apply, MappingAction.creates, MemCtx.mallocAt, if_neg hsize]
    cases mapped with
    | none => exact ⟨hadds.regions, hadds.table, hadds.next⟩
    | some addr =>
        rw [MemCtx.regionCreate_some] at hadds ⊢
        cases protectOk with
        | false => exact ⟨hadds.regions, hadds.table, hadds.next⟩
        | true =>
            obtain ⟨hregions, hnext, htable⟩ := MemCtx.markShared_spec
              ((ctx.registerOwnership globalAddr (roundUpPage size) ctx.localNodeId).addRegion
                (.created (roundUpPage size) ctx.localNodeId globalAddr addr)) globalAddr
              (roundUpPage size / pageSize)
            exact ⟨hregions.trans hadds.regions, htable.trans hadds.table,
              fun hdvd => hnext ▸ hadds.next hdvd⟩

theorem MappingAction.adds {ctx : MemCtx} {a : MappingAction} (hfree : ∀ addr, a ≠ .free addr) :
    MappingAction.Adds ctx (a.apply ctx) (a.creates ctx) := by
  cases a with
  | malloc size mapped => exact .malloc ctx size mapped
  | mallocAt globalAddr size mapped protectOk => exact .mallocAt ctx globalAddr size mapped protectOk
  | mapRemote globalAddr size mapped => exact .mapRemote ctx globalAddr size mapped
  | free addr => exact absurd rfl (hfree addr)

/-! ### Which calls keep the two indexes together -/

/-- A created range starts at a page boundary and ends below `2 ^ 64`, and no region is freed. -/
structure MappingAction.Ok (ctx : MemCtx) (a : MappingAction) : Prop where
  aligned : ∀ r ∈ a.creates ctx, pageSize ∣ r.globalBase
  noWrap : ∀ r ∈ a.creates ctx, r.globalBase + r.totalSize < 2 ^ 64
  keeps : ∀ addr, a = .free addr → ctx.freeTarget addr = none

/-- A created range ends below `2 ^ 64`. -/
def MappingAction.NoWrap (ctx : MemCtx) (a : MappingAction) : Prop :=
  ∀ r ∈ a.creates ctx, r.globalBase + r.totalSize < 2 ^ 64

theorem MappingAction.pageCount_of_creates {ctx : MemCtx} {a : MappingAction} {r : Region}
    (hr : a.creates ctx = some r) : r.totalSize = r.pageCount * pageSize := by
  have hcreated : ∀ size ownerId globalBase addr, (Region.created size ownerId globalBase addr).totalSize =
      (Region.created size ownerId globalBase addr).pageCount * pageSize := by
    intro size ownerId globalBase addr
    exact (Nat.div_mul_cancel (dvd_roundUpPage size)).symm
  cases a with
  | malloc size mapped =>
      simp only [MappingAction.creates, Option.ite_none_left_eq_some, Option.map_eq_some_iff] at hr
      obtain ⟨-, addr, -, rfl⟩ := hr
      exact hcreated _ _ _ _
  | mallocAt globalAddr size mapped protectOk =>
      simp only [MappingAction.creates, Option.ite_none_left_eq_some, Option.map_eq_some_iff] at hr
      obtain ⟨-, addr, -, rfl⟩ := hr
      exact hcreated _ _ _ _
  | mapRemote globalAddr size mapped =>
      simp only [MappingAction.creates, Option.ite_none_left_eq_some, Option.map_eq_some_iff] at hr
      obtain ⟨-, addr, -, rfl⟩ := hr
      exact hcreated _ _ _ _
  | free addr => cases hr

theorem Region.Mapped.whole {ctx : MemCtx} {r : Region} (h : r.Mapped ctx)
    (hsize : r.totalSize = r.pageCount * pageSize) (haligned : pageSize ∣ r.globalBase)
    (hend : r.globalBase + r.totalSize < 2 ^ 64) : r.Whole := by
  obtain ⟨hpos, hbase, -, hlocalEnd, -⟩ := h
  refine ⟨haligned, hbase, hsize, ?_, hend, hlocalEnd⟩
  rw [hsize] at hpos
  exact Nat.pos_of_mul_pos_right hpos

theorem MappingInv.adds {ctx ctx' : MemCtx} {created : Option Region} (h : MappingInv ctx)
    (hadds : MappingAction.Adds ctx ctx' created) (hwhole : ∀ r ∈ created, r.Whole)
    (hlocal : ∀ r ∈ created, ∀ r' ∈ ctx.regions, r'.LocalApart r)
    (hapart : ctx'.regions.Pairwise Region.Apart) : MappingInv ctx' := by
  obtain ⟨pages, hpages, hpairs⟩ := Option.map_eq_some_iff.mp h.table
  cases created with
  | none =>
      have hregions : ctx'.regions = ctx.regions := by simpa using hadds.regions
      refine ⟨?_, ?_, hapart, ?_, hadds.next h.next⟩
      · rw [hadds.table, hregions, hpages]
        simpa using hpairs
      · rw [hregions]
        exact h.whole
      · rw [hregions]
        exact h.localApart
  | some r =>
      have hregions : ctx'.regions = ctx.regions ++ [r] := hadds.regions
      refine ⟨?_, fun r' hr' => ?_, hapart, ?_, hadds.next h.next⟩
      · rw [hadds.table, hregions, hpages, List.flatMap_append]
        simp [hpairs, (hwhole r rfl).map_newPages]
      · rw [hregions] at hr'
        rcases List.mem_append.mp hr' with hr' | hr'
        · exact h.whole r' hr'
        · rw [List.mem_singleton.mp hr']
          exact hwhole r rfl
      · rw [hregions]
        exact List.pairwise_concat.mpr ⟨h.localApart, hlocal r rfl⟩

theorem MappingInv.step {ctx : MemCtx} {a : MappingAction} (h : MappingInv ctx)
    (hallowed : a.Allowed ctx) (hok : a.Ok ctx) : MappingInv (a.apply ctx) := by
  obtain ⟨-, hmapped, hapart⟩ := hallowed
  by_cases hfree : ∃ addr, a = .free addr
  · obtain ⟨addr, rfl⟩ := hfree
    have hsame : (MappingAction.free addr).apply ctx = ctx := by
      rw [MappingAction.apply, MemCtx.memFree, hok.keeps addr rfl]
    rw [hsame]
    exact h
  · have hadds : MappingAction.Adds ctx (a.apply ctx) (a.creates ctx) :=
      MappingAction.adds (not_exists.mp hfree)
    refine h.adds hadds (fun r hr => ?_) (fun r hr => (hmapped r hr).2.2.2.2) hapart
    exact (hmapped r hr).whole (MappingAction.pageCount_of_creates hr) (hok.aligned r hr)
      (hok.noWrap r hr)

theorem MemCtx.initBase_initial {node chunks : Nat} {role : Role} (hnode : node < 2 ^ 32)
    (hle : chunks ≤ 1024) : pageSize ∣ (MemCtx.initial node role).initBase chunks ∧
      (MemCtx.initial node role).initBase chunks + chunks * pageSize < 2 ^ 64 := by
  have hsize : initSize chunks = chunks * pageSize := by
    rw [initSize, Nat.mod_eq_of_lt]
    unfold pageSize
    omega
  have hlarge : chunks * pageSize ≤ 2 ^ 22 := by
    unfold pageSize
    omega
  have hoffset : node * (chunks * pageSize) ≤ 2 ^ 32 * 2 ^ 22 := Nat.mul_le_mul hnode.le hlarge
  have hstart : pageSize ∣ globalStart := by decide
  have hstartLt : globalStart < 2 ^ 25 := by decide
  by_cases hrole : role = .master
  · rw [MemCtx.initBase, if_pos (show (MemCtx.initial node role).localRole = .master from hrole)]
    refine ⟨hstart, ?_⟩
    simp only [MemCtx.initial]
    omega
  · rw [MemCtx.initBase, hsize,
      if_neg (show (MemCtx.initial node role).localRole ≠ .master from hrole)]
    simp only [MemCtx.initial]
    rw [Nat.mod_eq_of_lt (by omega)]
    refine ⟨Nat.dvd_add hstart (Nat.dvd_mul_left_of_dvd ⟨chunks, Nat.mul_comm _ _⟩ _), by omega⟩

theorem MappingStart.inv {ctx : MemCtx} (h : MappingStart ctx) : MappingInv ctx := by
  obtain ⟨node, role, chunks, addr, hnode, hpos, hle, hmapped, rfl⟩ := h
  obtain ⟨-, -, hnext, hregions, htable⟩ :=
    (MemCtx.initial node role).memInit_spec chunks (some addr)
  obtain ⟨haligned, hend⟩ := @MemCtx.initBase_initial node chunks role hnode hle
  have hsize : initSize chunks = chunks * pageSize := by
    rw [initSize, Nat.mod_eq_of_lt]
    unfold pageSize
    omega
  have hround : roundUpPage (chunks * pageSize) = chunks * pageSize :=
    roundUpPage_of_dvd ⟨_, Nat.mul_comm _ _⟩ (by unfold pageSize; omega)
  have hempty : (MemCtx.initial node role).regions = [] := rfl
  rw [hsize] at hregions htable
  rw [hempty, List.nil_append, Option.map_some] at hregions
  have hwhole := (hmapped _ (by rw [hregions]; exact List.mem_singleton_self _)).whole
    (Nat.div_mul_cancel (dvd_roundUpPage _)).symm haligned (by
      simp only [Region.created, hround]
      exact hend)
  refine ⟨?_, fun r hr => ?_, ?_, ?_, ?_⟩
  · rw [htable, hregions, Option.map_some, Option.map_some, hwhole.map_newPages]
    simp
  · rw [hregions] at hr
    rw [List.mem_singleton.mp hr]
    exact hwhole
  · rw [hregions]
    exact List.pairwise_singleton _ _
  · rw [hregions]
    exact List.pairwise_singleton _ _
  · rw [hnext]
    split
    · exact (Nat.dvd_mod_iff (by decide)).mpr
        (Nat.dvd_add (by decide : pageSize ∣ globalStart) ⟨chunks, by rw [hsize, Nat.mul_comm]⟩)
    · exact (by decide : pageSize ∣ globalStart)

theorem MappingInv.regions_nodup {ctx : MemCtx} (h : MappingInv ctx) : ctx.regions.Nodup := by
  refine List.Pairwise.imp_of_mem (fun {r r'} hr _ hapart => ?_) h.apart
  rintro rfl
  have hwhole := h.whole r hr
  have hpos : 0 < r.totalSize := by
    rw [hwhole.size]
    exact Nat.mul_pos hwhole.pos (by decide)
  exact Region.not_apart ⟨le_rfl, Nat.lt_add_of_pos_right hpos⟩
    ⟨le_rfl, Nat.lt_add_of_pos_right hpos⟩ hapart

theorem MemCtx.mem_of_freeTarget {ctx : MemCtx} {addr : Nat} {r : Region}
    (htarget : ctx.freeTarget addr = some r) : r ∈ ctx.regions := by
  unfold MemCtx.freeTarget at htarget
  split at htarget
  · cases htarget
  · simp only [Option.ite_none_left_eq_some] at htarget
    exact List.mem_of_find?_eq_some htarget.2

theorem MappingInv.not_agrees_of_free {ctx : MemCtx} {addr : Nat} {r : Region} (h : MappingInv ctx)
    (htarget : ctx.freeTarget addr = some r) : ¬ (ctx.memFree addr).Agrees := by
  intro hagrees
  have hr : r ∈ ctx.regions := MemCtx.mem_of_freeTarget htarget
  have hwhole := h.whole r hr
  have hpos : 0 < r.totalSize := by
    rw [hwhole.size]
    exact Nat.mul_pos hwhole.pos (by decide)
  have hin : r.globalBase ≤ r.globalBase ∧ r.globalBase < r.globalBase + r.totalSize :=
    ⟨le_rfl, Nat.lt_add_of_pos_right hpos⟩
  rw [MemCtx.memFree, htarget] at hagrees
  have hfind := (hagrees.found r.globalBase (by have hend := hwhole.globalEnd; omega)).mp
    (h.pageLookup_isSome hr hin)
  obtain ⟨r', hmem, hcontains⟩ := List.find?_isSome.mp hfind
  have hmem' : r' ∈ ctx.regions := List.mem_of_mem_erase hmem
  obtain rfl := h.eq_of_global hr hmem' hin (((h.whole r' hmem').containsGlobal_iff _).mp hcontains)
  exact (h.regions_nodup.mem_erase_iff.mp hmem).1 rfl

/-- The pages of a region that does not start at a page boundary cannot be found. -/
theorem MappingInv.not_agrees_of_misaligned {ctx ctx' : MemCtx} {r : Region} (h : MappingInv ctx)
    (hadds : MappingAction.Adds ctx ctx' (some r)) (hsize : r.totalSize = r.pageCount * pageSize)
    (hpos : 0 < r.totalSize) (hapart : ctx'.regions.Pairwise Region.Apart)
    (haligned : ¬ pageSize ∣ r.globalBase) (hend : r.globalBase + r.totalSize < 2 ^ 64) :
    ¬ ctx'.Agrees := by
  intro hagrees
  have hregions : ctx'.regions = ctx.regions ++ [r] := hadds.regions
  have hin : r.globalBase ≤ r.globalBase ∧ r.globalBase < r.globalBase + r.totalSize :=
    ⟨le_rfl, Nat.lt_add_of_pos_right hpos⟩
  have hfound : (ctx'.regionFind r.globalBase).isSome := by
    rw [MemCtx.regionFind, hregions, List.find?_isSome]
    refine ⟨r, List.mem_append_right _ (List.mem_singleton_self _), ?_⟩
    rw [Region.containsGlobal, Nat.mod_eq_of_lt hend]
    simpa using hpos
  obtain ⟨page, hpage⟩ := Option.isSome_iff_exists.mp
    ((hagrees.found r.globalBase (by omega)).mpr hfound)
  obtain ⟨pages, hpages, hpairs⟩ := Option.map_eq_some_iff.mp h.table
  have htable := hadds.table
  rw [hpages, Option.map_some, hpairs] at htable
  have haddrs := pageLookup_addrs htable r.globalBase
  rw [hpage, Option.map_some] at haddrs
  have hbase := List.find?_some haddrs.symm
  rw [beq_iff_eq] at hbase
  rcases List.mem_append.mp (List.mem_of_find?_eq_some haddrs.symm) with hmem | hmem
  · -- an older region with this page would meet the new one
    obtain ⟨r', hr', hpair⟩ := List.mem_flatMap.mp hmem
    obtain ⟨i, hi, heq⟩ := mem_pagePairs.mp hpair
    have hwhole := h.whole r' hr'
    have hin' := (exists_page_iff hwhole.globalBase).mp
      ⟨i, hi, (congrArg Prod.fst heq).trans hbase⟩
    rw [← hwhole.size] at hin'
    rw [hregions] at hapart
    exact Region.not_apart hin' hin ((List.pairwise_concat.mp hapart).2 r' hr')
  · -- the new records keep the offset of the base inside its page
    simp only [Option.toList_some, List.flatMap_cons, List.flatMap_nil, List.append_nil,
      Region.newPages, List.map_map, List.mem_map, List.mem_range] at hmem
    obtain ⟨i, hi, heq⟩ := hmem
    have hglobal : (r.globalBase + i * pageSize) % 2 ^ 64 = page.globalAddr := congrArg Prod.fst heq
    have hmul : i * pageSize < r.pageCount * pageSize := Nat.mul_lt_mul_of_pos_right hi (by decide)
    have hle := pageBase_le r.globalBase
    have hbase' : page.globalAddr = pageBase r.globalBase := hbase
    rw [Nat.mod_eq_of_lt (by omega), hbase'] at hglobal
    refine haligned (Nat.dvd_of_mod_eq_zero ?_)
    rw [← Nat.le_antisymm hle (by omega)]
    exact pageBase_mod _

theorem MappingInv.not_agrees {ctx : MemCtx} {a : MappingAction} (h : MappingInv ctx)
    (hallowed : a.Allowed ctx) (hnowrap : a.NoWrap ctx) (hnot : ¬ a.Ok ctx) :
    ¬ (a.apply ctx).Agrees := by
  obtain ⟨-, hmapped, hapart⟩ := hallowed
  by_cases hfree : ∃ addr, a = .free addr
  · obtain ⟨addr, rfl⟩ := hfree
    cases htarget : ctx.freeTarget addr with
    | some r => exact h.not_agrees_of_free htarget
    | none =>
        refine (hnot ⟨fun r hr => ?_, hnowrap, fun addr' heq => ?_⟩).elim
        · cases hr
        · cases heq
          exact htarget
  · have hadds : MappingAction.Adds ctx (a.apply ctx) (a.creates ctx) :=
      MappingAction.adds (not_exists.mp hfree)
    have hmis : ∃ r ∈ a.creates ctx, ¬ pageSize ∣ r.globalBase := by
      by_contra hall
      refine hnot ⟨fun r hr => ?_, hnowrap, fun addr heq => absurd ⟨addr, heq⟩ hfree⟩
      by_contra hdvd
      exact hall ⟨r, hr, hdvd⟩
    obtain ⟨r, hr, hdvd⟩ := hmis
    rw [show a.creates ctx = some r from hr] at hadds
    exact h.not_agrees_of_misaligned hadds (MappingAction.pageCount_of_creates hr) (hmapped r hr).1
      hapart hdvd (hnowrap r hr)

/-- In every run whose calls create ranges at page boundaries that end below `2 ^ 64`, and free
nothing, the two indexes agree in every state; and where no created range passes the end of the
address space, these are the only runs in which they do. -/
theorem mapping_agrees {s t : MemCtx} {as : List MappingAction} (hstart : mappingMachine.start s)
    (hexec : mappingMachine.exec s as = some t) :
    (mappingMachine.EachStep (fun ctx a => a.Ok ctx) s as →
        mappingMachine.Always MemCtx.Agrees s as) ∧
      (mappingMachine.EachStep (fun ctx a => a.NoWrap ctx) s as →
        mappingMachine.Always MemCtx.Agrees s as →
          mappingMachine.EachStep (fun ctx a => a.Ok ctx) s as) := by
  have hkeep : ∀ ctx a ctx', MappingInv ctx → MappingAction.Ok ctx a →
      mappingMachine.step ctx a = some ctx' → MappingInv ctx' := by
    intro ctx a ctx' hinv hok hstep
    simp only [mappingMachine, Option.ite_none_right_eq_some, Option.some.injEq] at hstep
    obtain ⟨hallowed, rfl⟩ := hstep
    exact hinv.step hallowed hok
  refine ⟨fun hok => ?_, fun hside halways => ?_⟩
  · exact Machine.always_of_eachStep (fun ctx hinv => hinv.agrees) hkeep (MappingStart.inv hstart)
      hexec hok
  · refine Machine.eachStep_of_always hkeep (fun ctx a ctx' hinv hnowrap hnot hstep => ?_)
      (MappingStart.inv hstart) hexec hside halways
    simp only [mappingMachine, Option.ite_none_right_eq_some, Option.some.injEq] at hstep
    obtain ⟨hallowed, rfl⟩ := hstep
    exact hinv.not_agrees hallowed hnowrap hnot

/-- The master after `dsm_mem_init` with one chunk. -/
def freshMaster : MemCtx := ((MemCtx.initial 1 .master).memInit 1 (some 0x10000)).2

theorem mappingStart_freshMaster : MappingStart freshMaster :=
  ⟨1, .master, 1, 0x10000, by decide, by decide, by decide, by decide +kernel, rfl⟩

/-- One page at a fixed address. -/
theorem mapping_agrees_mallocAt : ∃ t,
    mappingMachine.exec freshMaster [.mallocAt 0x2000000 4096 (some 0x20000) true] = some t ∧
      t.Agrees := by
  have hrun : (mappingMachine.exec freshMaster
      [.mallocAt 0x2000000 4096 (some 0x20000) true]).isSome = true := by decide +kernel
  obtain ⟨t, hexec⟩ := Option.isSome_iff_exists.mp hrun
  obtain ⟨u, hstep, hu⟩ := Option.bind_eq_some_iff.mp hexec
  have hok : MappingAction.Ok freshMaster (.mallocAt 0x2000000 4096 (some 0x20000) true) :=
    ⟨by decide +kernel, by decide +kernel, fun addr heq => by cases heq⟩
  refine ⟨t, hexec, ((mapping_agrees mappingStart_freshMaster hexec).1 ?_).last hexec⟩
  exact (Machine.eachStep_cons hstep).mpr ⟨hok, Machine.eachStep_nil⟩

/-- After `dsm_malloc` and `dsm_free` the page table still has the page, and no region does. -/
theorem free_not_agrees : ∃ t,
    mappingMachine.exec freshMaster [.malloc 4096 (some 0x20000), .free 0x20000] = some t ∧
      (pageLookup t.pageTable 0x1001000).isSome = true ∧ t.regionFind 0x1001000 = none ∧
      ¬ t.Agrees := by
  have hrun : (mappingMachine.exec freshMaster [.malloc 4096 (some 0x20000), .free 0x20000]).map
      (fun t => ((pageLookup t.pageTable 0x1001000).isSome, t.regionFind 0x1001000)) =
        some (true, none) := by decide +kernel
  obtain ⟨t, hexec, hlookups⟩ := Option.map_eq_some_iff.mp hrun
  have hpage : (pageLookup t.pageTable 0x1001000).isSome = true := congrArg Prod.fst hlookups
  have hregion : t.regionFind 0x1001000 = none := congrArg Prod.snd hlookups
  refine ⟨t, hexec, hpage, hregion, fun hagrees => ?_⟩
  have hfound := (hagrees.found 0x1001000 (by decide)).mp hpage
  rw [hregion] at hfound
  cases hfound

end Dsm
