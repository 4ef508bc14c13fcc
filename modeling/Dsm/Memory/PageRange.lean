import Dsm.Memory.NodeMem

/-!
# A range of pages in the memory of a node

A node that has allocated or mapped a range of whole pages keeps it, whatever else it allocates, maps
and frees, as long as no other region meets the range: the records of the range stay the only ones
with these global addresses, and no other mapping comes to lie over its bytes.
-/

namespace Dsm

def InRange (base len addr : Nat) : Prop := base ≤ addr ∧ addr < base + len

instance (base len addr : Nat) : Decidable (InRange base len addr) :=
  inferInstanceAs (Decidable (_ ∧ _))

/-- No byte of the region has a global address in the range. -/
def Region.Clear (base len : Nat) (r : Region) : Prop :=
  ∀ j < r.totalSize, ¬ InRange base len ((r.globalBase + j) % 2 ^ 64)

theorem Region.clear_of_le {base len : Nat} {r : Region} (h : r.globalBase + r.totalSize ≤ base)
    (hbase : base ≤ 2 ^ 64) : r.Clear base len := by
  intro j hj hin
  obtain ⟨hle, -⟩ := hin
  rw [Nat.mod_eq_of_lt (by omega)] at hle
  omega

/-- The call creates and frees no region that meets the range. -/
def MappingAction.Clear (base len : Nat) (ctx : MemCtx) (a : MappingAction) : Prop :=
  (∀ r ∈ a.creates ctx, r.Clear base len) ∧
    ∀ addr, a = .free addr → ∀ r ∈ ctx.freeTarget addr, r.Clear base len

/-! ### Pages of a range -/

theorem pageBase_add {base : Nat} (h : pageSize ∣ base) (j : Nat) :
    pageBase (base + j) = base + pageBase j := by
  obtain ⟨b, rfl⟩ := h
  unfold pageBase pageSize
  omega

theorem pageBase_add_mod (j : Nat) : pageBase j + j % pageSize = j := by
  unfold pageBase pageSize
  omega

theorem eq_pageBase {page addr : Nat} (h : pageSize ∣ page) (hin : InRange page pageSize addr) :
    page = pageBase addr := by
  obtain ⟨b, rfl⟩ := h
  unfold InRange pageBase pageSize at *
  omega

section

variable {base len : Nat} (hbase : pageSize ∣ base) (hlen : pageSize ∣ len)
include hbase hlen

theorem inRange_of_pageBase_eq {addr j : Nat} (hj : j < len)
    (h : pageBase addr = pageBase (base + j)) : InRange base len addr := by
  obtain ⟨b, rfl⟩ := hbase
  obtain ⟨l, rfl⟩ := hlen
  unfold InRange pageBase pageSize at *
  omega

theorem inRange_pageBase_add {j : Nat} (hj : j < len) : InRange base len (base + pageBase j) := by
  refine inRange_of_pageBase_eq hbase hlen hj ?_
  rw [← pageBase_add hbase, pageBase_pageBase]

end

/-! ### The records of a range -/

/-- The addresses of all records of a node. -/
def NodeMem.pairs (m : NodeMem) : List (Nat × Nat) := (m.ctx.pageTable.addrs).getD []

/-- Every page of the range has a record, with these addresses, and no other record is in the range. -/
structure PagesAt (pairs : List (Nat × Nat)) (base localBase len : Nat) : Prop where
  mem : ∀ j < len, (base + pageBase j, localBase + pageBase j) ∈ pairs
  only : ∀ p ∈ pairs, InRange base len p.1 → p.2 = localBase + (p.1 - base)

theorem PagesAt.append {pairs new : List (Nat × Nat)} {base localBase len : Nat}
    (h : PagesAt pairs base localBase len) (hnew : ∀ p ∈ new, ¬ InRange base len p.1) :
    PagesAt (pairs ++ new) base localBase len := by
  refine ⟨fun j hj => List.mem_append_left _ (h.mem j hj), fun p hp hin => ?_⟩
  rcases List.mem_append.mp hp with hp | hp
  · exact h.only p hp hin
  · exact (hnew p hp hin).elim

theorem NodeMem.mem_pairs {m : NodeMem} {p : Nat × Nat} :
    p ∈ m.pairs ↔ ∃ pages ∈ m.ctx.pageTable, ∃ page ∈ pages, page.addrs = p := by
  rw [NodeMem.pairs, PageTable.addrs]
  cases m.ctx.pageTable with
  | none => simp
  | some pages => simp

theorem NodeMem.mem_pairs_of_lookup {m : NodeMem} {g : Nat} {page : Page}
    (h : pageLookup m.ctx.pageTable g = some page) :
    page.addrs ∈ m.pairs ∧ page.globalAddr = pageBase g := by
  obtain ⟨pages, hpages, hfind⟩ := Option.bind_eq_some_iff.mp h
  refine ⟨NodeMem.mem_pairs.mpr ⟨pages, hpages, page, List.mem_of_find?_eq_some hfind, rfl⟩, ?_⟩
  simpa using List.find?_some hfind

theorem NodeMem.mem_pairs_of_lookupLocal {m : NodeMem} {addr : Nat} {page : Page}
    (h : pageLookupLocal m.ctx.pageTable addr = some page) :
    page.addrs ∈ m.pairs ∧ page.localAddr = pageBase addr := by
  obtain ⟨pages, hpages, hfind⟩ := Option.bind_eq_some_iff.mp h
  refine ⟨NodeMem.mem_pairs.mpr ⟨pages, hpages, page, List.mem_of_find?_eq_some hfind, rfl⟩, ?_⟩
  simpa using List.find?_some hfind

theorem PagesAt.lookup {m : NodeMem} {base localBase len : Nat}
    (h : PagesAt m.pairs base localBase len) (hbase : pageSize ∣ base) (hlen : pageSize ∣ len)
    {j : Nat} (hj : j < len) : ∃ page, pageLookup m.ctx.pageTable (base + j) = some page ∧
      page.globalAddr = base + pageBase j ∧ page.localAddr = localBase + pageBase j := by
  obtain ⟨pages, hpages, old, hold, haddrs⟩ := NodeMem.mem_pairs.mp (h.mem j hj)
  cases hlookup : pageLookup m.ctx.pageTable (base + j) with
  | none =>
      rw [pageLookup, show m.ctx.pageTable = some pages from hpages, Option.bind_some,
        List.find?_eq_none] at hlookup
      have hglobal : old.globalAddr = base + pageBase j := congrArg Prod.fst haddrs
      refine absurd ?_ (hlookup old hold)
      rw [hglobal, pageBase_add hbase]
      exact beq_self_eq_true _
  | some page =>
      obtain ⟨hmem, hglobal⟩ := NodeMem.mem_pairs_of_lookup hlookup
      rw [pageBase_add hbase] at hglobal
      refine ⟨page, rfl, hglobal, ?_⟩
      have hlocal : page.localAddr = localBase + (page.globalAddr - base) :=
        h.only page.addrs hmem (by
          show InRange base len page.globalAddr
          rw [hglobal]
          exact inRange_pageBase_add hbase hlen hj)
      rw [hlocal, hglobal, Nat.add_sub_cancel_left]

/-! ### What a call leaves alone -/

theorem NodeMem.pairs_call_of_isSome {m : NodeMem} (a : MappingAction)
    (htable : m.ctx.pageTable.isSome = true) :
    (m.call a).pairs = m.pairs ++ (a.newPages m.ctx).map Page.addrs := by
  obtain ⟨pages, hpages⟩ := Option.isSome_iff_exists.mp htable
  obtain ⟨marks, hmarked, -⟩ := a.apply_pageTable m.ctx
  show ((a.apply m.ctx).pageTable.addrs).getD [] = _
  rw [hmarked, markPages_addrs, hpages, NodeMem.pairs, hpages]
  simp [PageTable.addrs]

theorem NodeMem.pairs_call (m : NodeMem) (a : MappingAction) : ∃ new,
    (m.call a).pairs = m.pairs ++ new ∧ ∀ p ∈ new, ∃ r ∈ a.creates m.ctx, ∃ i < r.pageCount,
      p = ((r.globalBase + i * pageSize) % 2 ^ 64, r.baseAddr + i * pageSize) := by
  cases hold : m.ctx.pageTable with
  | none =>
      obtain ⟨marks, htable, -⟩ := a.apply_pageTable m.ctx
      refine ⟨[], ?_, fun p hp => by cases hp⟩
      show ((a.apply m.ctx).pageTable.addrs).getD [] = _
      rw [htable, markPages_addrs, NodeMem.pairs, hold]
      rfl
  | some pages =>
      refine ⟨_, m.pairs_call_of_isSome a (by rw [hold]; rfl), fun p hp => ?_⟩
      obtain ⟨page, hpage, rfl⟩ := List.mem_map.mp hp
      obtain ⟨r, hr, hpage⟩ := List.mem_flatMap.mp hpage
      obtain ⟨i, hi, rfl⟩ := List.mem_map.mp hpage
      exact ⟨r, Option.mem_toList.mp hr, i, List.mem_range.mp hi, rfl⟩

theorem PagesAt.new {pairs : List (Nat × Nat)} {r : Region} (node : NodeId)
    (hsize : r.totalSize = r.pageCount * pageSize) (hend : r.globalBase + r.totalSize ≤ 2 ^ 64)
    (hold : ∀ p ∈ pairs, ¬ InRange r.globalBase r.totalSize p.1) :
    PagesAt (pairs ++ (r.newPages node).map Page.addrs) r.globalBase r.baseAddr r.totalSize := by
  have hpage : ∀ i < r.pageCount, (r.globalBase + i * pageSize) % 2 ^ 64 =
      r.globalBase + i * pageSize := by
    intro i hi
    have hmul : i * pageSize < r.pageCount * pageSize := Nat.mul_lt_mul_of_pos_right hi (by decide)
    exact Nat.mod_eq_of_lt (by omega)
  refine ⟨fun j hj => List.mem_append_right _ ?_, fun p hp hin => ?_⟩
  · have hj' : j / pageSize < r.pageCount := by
      rw [Nat.div_lt_iff_lt_mul (by decide), ← hsize]
      exact hj
    have hbase : j / pageSize * pageSize = pageBase j := by
      unfold pageBase pageSize
      omega
    rw [List.mem_map]
    refine ⟨_, List.mem_map.mpr ⟨j / pageSize, List.mem_range.mpr hj', rfl⟩, ?_⟩
    rw [Page.addrs, Page.new, hpage _ hj', hbase]
  · rcases List.mem_append.mp hp with hp | hp
    · exact (hold p hp hin).elim
    · obtain ⟨page, hmem, rfl⟩ := List.mem_map.mp hp
      obtain ⟨i, hi, rfl⟩ := List.mem_map.mp hmem
      show r.baseAddr + i * pageSize =
        r.baseAddr + ((r.globalBase + i * pageSize) % 2 ^ 64 - r.globalBase)
      rw [hpage i (List.mem_range.mp hi), Nat.add_sub_cancel_left]

theorem Region.Clear.page {base len : Nat} {r : Region} (h : r.Clear base len)
    (hsize : r.totalSize = r.pageCount * pageSize) {i : Nat} (hi : i < r.pageCount) :
    ¬ InRange base len ((r.globalBase + i * pageSize) % 2 ^ 64) := by
  refine h _ ?_
  rw [hsize]
  exact Nat.mul_lt_mul_of_pos_right hi (by decide)

theorem MappingAction.Clear.new {base len : Nat} {ctx : MemCtx} {a : MappingAction}
    (h : a.Clear base len ctx) {r : Region} (hr : r ∈ a.creates ctx) {i : Nat}
    (hi : i < r.pageCount) : ¬ InRange base len ((r.globalBase + i * pageSize) % 2 ^ 64) :=
  (h.1 r hr).page (MappingAction.pageCount_of_creates hr) hi

theorem pageLookup_call {m : NodeMem} {a : MappingAction} {base len : Nat}
    (hclear : a.Clear base len m.ctx) (hbase : pageSize ∣ base) (hlen : pageSize ∣ len) {j : Nat}
    (hj : j < len) {page : Page} (hpage : pageLookup m.ctx.pageTable (base + j) = some page) :
    pageLookup (m.call a).ctx.pageTable (base + j) = some page := by
  obtain ⟨marks, htable, hmarks⟩ := a.apply_pageTable m.ctx
  show pageLookup (a.apply m.ctx).pageTable (base + j) = some page
  rw [htable, pageLookup_markPages]
  · obtain ⟨pages, hpages, hfind⟩ := Option.bind_eq_some_iff.mp hpage
    rw [pageLookup, hpages, Option.map_some, Option.bind_some, List.find?_append, hfind]
    rfl
  · intro g hg heq
    obtain ⟨r, hr, i, hi, rfl⟩ := hmarks g hg
    exact hclear.new hr hi (inRange_of_pageBase_eq hbase hlen hj heq.symm)

/-- The node has the range in its region list, in the name of an owner. -/
def MemCtx.HasRegion (ctx : MemCtx) (base localBase len : Nat) (ownerId : NodeId) : Prop :=
  ∃ r ∈ ctx.regions, r.globalBase = base ∧ r.baseAddr = localBase ∧ r.totalSize = len ∧
    r.ownerId = ownerId

/-- No record of the node has a global address in the range. -/
def NodeMem.Avoids (base len : Nat) (m : NodeMem) : Prop := ∀ p ∈ m.pairs, ¬ InRange base len p.1

theorem NodeMem.call_creates {m : NodeMem} {a : MappingAction} {r : Region}
    (hr : r ∈ a.creates m.ctx) (htable : m.ctx.pageTable.isSome = true)
    (havoids : m.Avoids r.globalBase r.totalSize) (hend : r.globalBase + r.totalSize ≤ 2 ^ 64) :
    (m.call a).pairs = m.pairs ++ (r.newPages m.ctx.localNodeId).map Page.addrs ∧
      PagesAt (m.call a).pairs r.globalBase r.baseAddr r.totalSize := by
  have hpairs : (m.call a).pairs = m.pairs ++ (r.newPages m.ctx.localNodeId).map Page.addrs := by
    rw [m.pairs_call_of_isSome a htable, MappingAction.newPages, show a.creates m.ctx = some r from hr]
    simp
  refine ⟨hpairs, ?_⟩
  rw [hpairs]
  exact .new _ (MappingAction.pageCount_of_creates hr) hend havoids

theorem MappingAction.hasRegion_apply {ctx : MemCtx} {a : MappingAction} {r : Region}
    (hr : r ∈ a.creates ctx) :
    (a.apply ctx).HasRegion r.globalBase r.baseAddr r.totalSize r.ownerId := by
  refine ⟨r, ?_, rfl, rfl, rfl, rfl⟩
  have hfree : ∀ addr, a ≠ .free addr := by
    rintro addr rfl
    cases hr
  rw [(MappingAction.adds hfree).regions]
  exact List.mem_append_right _ (Option.mem_toList.mpr hr)

theorem Region.not_clear {base len : Nat} {r : Region} (hglobal : r.globalBase = base)
    (hsize : r.totalSize = len) (hpos : 0 < len) (hend : base + len ≤ 2 ^ 64) :
    ¬ r.Clear base len := by
  intro hclear
  refine hclear 0 (hsize ▸ hpos) ?_
  rw [hglobal, Nat.add_zero, Nat.mod_eq_of_lt (by omega)]
  exact ⟨Nat.le_refl _, by omega⟩

theorem MemCtx.HasRegion.call {ctx : MemCtx} {a : MappingAction} {base localBase len : Nat}
    {ownerId : NodeId} (h : ctx.HasRegion base localBase len ownerId)
    (hclear : a.Clear base len ctx) (hpos : 0 < len) (hend : base + len ≤ 2 ^ 64) :
    (a.apply ctx).HasRegion base localBase len ownerId := by
  obtain ⟨r, hr, hglobal, hlocal, hsize, howner⟩ := h
  refine ⟨r, ?_, hglobal, hlocal, hsize, howner⟩
  by_cases hfree : ∃ addr, a = .free addr
  · obtain ⟨addr, rfl⟩ := hfree
    rw [MappingAction.apply, MemCtx.memFree]
    split
    · rename_i freed hfreed
      refine (List.mem_erase_of_ne ?_).mpr hr
      rintro rfl
      exact Region.not_clear hglobal hsize hpos hend (hclear.2 addr rfl r hfreed)
    · exact hr
  · rw [(MappingAction.adds (not_exists.mp hfree)).regions]
    exact List.mem_append_left _ hr

theorem MappingAction.localApart_apply {ctx : MemCtx} {a : MappingAction}
    (h : ctx.regions.Pairwise Region.LocalApart) (hmapped : ∀ r ∈ a.creates ctx, r.Mapped ctx) :
    (a.apply ctx).regions.Pairwise Region.LocalApart := by
  by_cases hfree : ∃ addr, a = .free addr
  · obtain ⟨addr, rfl⟩ := hfree
    rw [MappingAction.apply, MemCtx.memFree]
    split
    · exact h.sublist List.erase_sublist
    · exact h
  · rw [(MappingAction.adds (not_exists.mp hfree)).regions]
    refine List.pairwise_append.mpr ⟨h, ?_, fun r hr r' hr' => ?_⟩
    · cases a.creates ctx <;> simp
    · exact (hmapped r' (Option.mem_toList.mp hr')).2.2.2.2 r hr

theorem NodeMem.call_frame {m : NodeMem} {a : MappingAction} {base localBase len : Nat}
    {ownerId : NodeId} (hregion : m.ctx.HasRegion base localBase len ownerId)
    (hapart : m.ctx.regions.Pairwise Region.LocalApart)
    (hclear : a.Clear base len m.ctx) (hmapped : ∀ r ∈ a.creates m.ctx, r.Mapped m.ctx)
    (hend : base + len ≤ 2 ^ 64) {j : Nat} (hj : j < len) :
    (m.call a).bytes (localBase + j) = m.bytes (localBase + j) ∧
      (m.call a).prot (localBase + j) = m.prot (localBase + j) := by
  obtain ⟨r, hr, hglobal, hlocal, hsize, -⟩ := hregion
  have hout : ∀ r' : Region, r.LocalApart r' →
      ¬ (r'.baseAddr ≤ localBase + j ∧ localBase + j < r'.baseAddr + r'.totalSize) := by
    rintro r' (hle | hle) <;> omega
  have hmap : ∀ r' ∈ a.creates m.ctx, (m.mapRegion r').bytes (localBase + j) = m.bytes (localBase + j) ∧
      (m.mapRegion r').prot (localBase + j) = m.prot (localBase + j) := by
    intro r' hr'
    have hnot := hout r' ((hmapped r' hr').2.2.2.2 r hr)
    exact ⟨if_neg hnot, if_neg hnot⟩
  have hcreates : ((a.creates m.ctx).elim m m.mapRegion).bytes (localBase + j) =
        m.bytes (localBase + j) ∧
      ((a.creates m.ctx).elim m m.mapRegion).prot (localBase + j) = m.prot (localBase + j) := by
    cases hcase : a.creates m.ctx with
    | none => exact ⟨rfl, rfl⟩
    | some r' => exact hmap r' hcase
  cases a with
  | malloc size mapped => exact hcreates
  | mallocAt globalAddr size mapped protectOk => exact hcreates
  | mapRemote globalAddr size mapped => exact hcreates
  | free addr =>
      cases htarget : m.ctx.freeTarget addr with
      | none =>
          simp only [NodeMem.call, htarget]
          exact ⟨rfl, rfl⟩
      | some freed =>
          have hne : r ≠ freed := by
            rintro rfl
            exact Region.not_clear hglobal hsize (by omega) hend (hclear.2 addr rfl r htarget)
          have hnot := hout freed (hapart.forall hr (MemCtx.mem_of_freeTarget htarget) hne)
          simp only [NodeMem.call, htarget]
          exact ⟨rfl, if_neg hnot⟩

end Dsm
