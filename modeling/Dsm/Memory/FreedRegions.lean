import Dsm.Memory.Mapping

/-!
# What a free takes away

`dsm_free` translates its pointer to a global address, and the global address to a region. Each of
the two is a scan for the first region that contains the address, one over the mappings of the node
and one over their global ranges. Only the mappings are known to be disjoint: a region whose global
range starts inside the range of an older one is not found by its own address. This is how it goes
for every pointer of `dsm_malloc` exactly as long as no call starts a range there
(`free_own_iff`).
-/

namespace Dsm

/-- The address lies in the mapping of the region. -/
def Region.spans (r : Region) (addr : Nat) : Bool :=
  decide (r.baseAddr ≤ addr ∧ addr < r.baseAddr + r.totalSize)

/-- A node, with the pointers that `dsm_malloc` has returned and that have not been freed, and with
the addresses that are mapped. -/
structure FreeState where
  ctx : MemCtx
  live : List Nat
  mapped : Nat → Bool

inductive FreeAction where
  /-- `dsm_mem_init`, with the address that `mmap` returns. -/
  | memInit (chunks : Nat) (mapped : Option Nat)
  /-- `dsm_malloc`, with the address that `mmap` returns. -/
  | malloc (size : Nat) (mapped : Option Nat)
  | free (addr : Nat)
deriving DecidableEq, Repr

namespace FreeState

/-- The addresses that are mapped after a creation. -/
def mappedWith (s : FreeState) (created : Option Region) : Nat → Bool :=
  match created with
  | none => s.mapped
  | some r => fun addr => r.spans addr || s.mapped addr

/-- `dsm_free`, which unmaps the region that it removes. -/
def free (s : FreeState) (addr : Nat) : FreeState :=
  { ctx := s.ctx.memFree addr
    live := s.live.erase addr
    mapped := match s.ctx.freeTarget addr with
      | none => s.mapped
      | some r => fun a => s.mapped a && !r.spans a }

/-- `dsm_free` of the pointer takes the region that starts there, and takes nothing else: all other
regions stay in the list and mapped. -/
def FreesOwn (s : FreeState) (addr : Nat) : Prop :=
  ∃ r ∈ s.ctx.regions, r.baseAddr = addr ∧
    (∀ r', r' ∈ (s.free addr).ctx.regions ↔ r' ∈ s.ctx.regions ∧ r' ≠ r) ∧
    (∀ a, (s.free addr).mapped a = (s.mapped a && !r.spans a)) ∧
    ∀ r' ∈ (s.free addr).ctx.regions, ∀ a, r'.spans a = true → (s.free addr).mapped a = true

/-- This is so for every pointer that the program can free. -/
def AllFreeOwn (s : FreeState) : Prop := ∀ addr ∈ s.live, s.FreesOwn addr

end FreeState

namespace FreeAction

/-- The region that the call creates. -/
def creates (ctx : MemCtx) : FreeAction → Option Region
  | .memInit chunks mapped =>
      mapped.map (.created (initSize chunks) ctx.localNodeId (ctx.initBase chunks))
  | .malloc size mapped => (MappingAction.malloc size mapped).creates ctx
  | .free _ => none

def apply (s : FreeState) (a : FreeAction) : FreeState :=
  match a with
  | .memInit chunks mapped =>
      { ctx := (s.ctx.memInit chunks mapped).2, live := s.live
        mapped := s.mappedWith (a.creates s.ctx) }
  | .malloc size mapped =>
      { ctx := (s.ctx.memAlloc size mapped).2
        live := s.live ++ (s.ctx.memAlloc size mapped).1.toList
        mapped := s.mappedWith (a.creates s.ctx) }
  | .free addr => s.free addr

/-- `dsm_free` gets a pointer that `dsm_malloc` has returned, or one that is in no region. -/
def FreesKnown (s : FreeState) : FreeAction → Prop
  | .free addr => addr ∈ s.live ∨ ∀ r ∈ s.ctx.regions, r.spans addr = false
  | _ => True

/-- A `dsm_malloc` that gets memory starts at an address that is not zero and in no region of the
list, and ends below `2 ^ 64`. -/
def StartsApart (s : FreeState) : FreeAction → Prop
  | .malloc size mapped =>
      mapped.isSome → size ≠ 0 → s.ctx.nextGlobalAddr ≠ 0 ∧
        (∀ r ∈ s.ctx.regions, r.containsGlobal s.ctx.nextGlobalAddr = false) ∧
        s.ctx.nextGlobalAddr + roundUpPage size < 2 ^ 64
  | _ => True

instance (s : FreeState) : (a : FreeAction) → Decidable (a.FreesKnown s)
  | .free _ => inferInstanceAs (Decidable (_ ∨ _))
  | .memInit .. => inferInstanceAs (Decidable True)
  | .malloc .. => inferInstanceAs (Decidable True)

instance (s : FreeState) : (a : FreeAction) → Decidable (a.StartsApart s)
  | .malloc _ _ => inferInstanceAs (Decidable (_ → _ → _ ∧ _ ∧ _))
  | .memInit .. => inferInstanceAs (Decidable True)
  | .free _ => inferInstanceAs (Decidable True)

end FreeAction

/-- `mmap` keeps its promise. -/
def freeMachine : Machine FreeState FreeAction where
  start s := ∃ node role, s = { ctx := .initial node role, live := [], mapped := fun _ => false }
  step s a := if ∀ r ∈ a.creates s.ctx, r.Mapped s.ctx then some (a.apply s) else none

theorem MemCtx.memAlloc_fst (ctx : MemCtx) {size : Nat} (mapped : Option Nat) (hsize : size ≠ 0) :
    (ctx.memAlloc size mapped).1 = mapped := by
  by_cases hrole : ctx.localRole = .master <;> cases mapped <;>
    simp [MemCtx.memAlloc, hsize, MemCtx.bump, MemCtx.registerOwnership, hrole, Region.created]

/-! ### Two scans -/

/-- Regions as `mmap` returns them. -/
structure RegionsMapped (regions : List Region) : Prop where
  each : ∀ r ∈ regions, 0 < r.totalSize ∧ 0 < r.baseAddr ∧ r.baseAddr + r.totalSize < 2 ^ 64
  apart : regions.Pairwise Region.LocalApart

namespace RegionsMapped

variable {regions : List Region}

theorem append {ctx : MemCtx} {r : Region} (h : RegionsMapped ctx.regions) (hr : r.Mapped ctx) :
    RegionsMapped (ctx.regions ++ [r]) := by
  obtain ⟨hpos, -, hbase, hend, hapart⟩ := hr
  constructor
  · intro r' hr'
    rcases List.mem_append.mp hr' with hr' | hr'
    · exact h.each r' hr'
    · rw [List.mem_singleton.mp hr']
      exact ⟨hpos, hbase, hend⟩
  · exact List.pairwise_concat.mpr ⟨h.apart, hapart⟩

theorem erase (h : RegionsMapped regions) (r : Region) : RegionsMapped (regions.erase r) :=
  ⟨fun r' hr' => h.each r' (List.mem_of_mem_erase hr'), h.apart.sublist List.erase_sublist⟩

theorem eq_of_spans (h : RegionsMapped regions) {r r' : Region} {addr : Nat} (hr : r ∈ regions)
    (hr' : r' ∈ regions) (hspans : r.spans addr = true) (hspans' : r'.spans addr = true) :
    r = r' := by
  by_contra hne
  have hin := of_decide_eq_true hspans
  have hin' := of_decide_eq_true hspans'
  exact Region.not_localApart hin hin' (h.apart.forall hr hr' hne)

theorem spans_base (h : RegionsMapped regions) {r : Region} (hr : r ∈ regions) :
    r.spans r.baseAddr = true := by
  have hpos := (h.each r hr).1
  exact decide_eq_true ⟨Nat.le_refl _, Nat.lt_add_of_pos_right hpos⟩

theorem containsLocal_eq (h : RegionsMapped regions) {r : Region} (hr : r ∈ regions) (addr : Nat) :
    r.containsLocal addr = r.spans addr := by
  obtain ⟨-, -, hend⟩ := h.each r hr
  rw [Region.containsLocal, Nat.mod_eq_of_lt hend, Region.spans, Bool.decide_and]

theorem nodup (h : RegionsMapped regions) : regions.Nodup := by
  refine List.Pairwise.imp_of_mem ?_ h.apart
  intro r r' hr _ hapart heq
  subst heq
  have hin := of_decide_eq_true (h.spans_base hr)
  exact Region.not_localApart hin hin hapart

theorem find_base (h : RegionsMapped regions) {r : Region} (hr : r ∈ regions) :
    regions.find? (·.containsLocal r.baseAddr) = some r := by
  have hspans := h.spans_base hr
  cases hfind : regions.find? (·.containsLocal r.baseAddr) with
  | none =>
      have hnot := List.find?_eq_none.mp hfind r hr
      exact absurd ((h.containsLocal_eq hr _).trans hspans) hnot
  | some r' =>
      have hr' := List.mem_of_find?_eq_some hfind
      have hcontains := List.find?_some hfind
      rw [h.containsLocal_eq hr'] at hcontains
      rw [h.eq_of_spans hr' hr hcontains hspans]

end RegionsMapped

theorem MemCtx.freeTarget_base {ctx : MemCtx} (h : RegionsMapped ctx.regions) {r : Region}
    (hr : r ∈ ctx.regions) (hlt : r.globalBase < 2 ^ 64) :
    ctx.freeTarget r.baseAddr =
      if r.globalBase = 0 then none else ctx.regionFind r.globalBase := by
  have hbase : r.baseAddr ≠ 0 := Nat.ne_of_gt (h.each r hr).2.1
  have hglobal : ctx.localToGlobal r.baseAddr = r.globalBase := by
    rw [MemCtx.localToGlobal, h.find_base hr]
    dsimp only
    rw [Nat.sub_self, Nat.add_zero, Nat.mod_eq_of_lt hlt]
  rw [MemCtx.freeTarget, if_neg hbase, hglobal]

theorem MemCtx.freeTarget_of_not_spans {ctx : MemCtx} (h : RegionsMapped ctx.regions) {addr : Nat}
    (hnot : ∀ r ∈ ctx.regions, r.spans addr = false) : ctx.freeTarget addr = none := by
  have hfind : ctx.regions.find? (·.containsLocal addr) = none := by
    rw [List.find?_eq_none]
    intro r hr
    rw [h.containsLocal_eq hr, hnot r hr]
    exact Bool.false_ne_true
  simp [MemCtx.freeTarget, MemCtx.localToGlobal, hfind]

/-! ### What the live pointers stand for -/

/-- The scan over the global ranges finds every region with a live pointer by its own address. -/
structure FreeInv (s : FreeState) : Prop where
  regions : RegionsMapped s.ctx.regions
  next : s.ctx.nextGlobalAddr < 2 ^ 64
  nodup : s.live.Nodup
  live : ∀ addr ∈ s.live, ∃ r ∈ s.ctx.regions, r.baseAddr = addr ∧ r.globalBase ≠ 0 ∧
    r.globalBase < 2 ^ 64 ∧ s.ctx.regionFind r.globalBase = some r
  mapped : ∀ r ∈ s.ctx.regions, ∀ a, r.spans a = true → s.mapped a = true

namespace FreeState

variable {s : FreeState} {addr : Nat} {r : Region}

theorem free_of_target (htarget : s.ctx.freeTarget addr = some r) :
    (s.free addr).ctx.regions = s.ctx.regions.erase r ∧
      ∀ a, (s.free addr).mapped a = (s.mapped a && !r.spans a) := by
  simp [FreeState.free, MemCtx.memFree, htarget, MemCtx.regionDestroy]

theorem free_of_no_target (htarget : s.ctx.freeTarget addr = none) :
    s.free addr = { s with live := s.live.erase addr } := by
  simp [FreeState.free, MemCtx.memFree, htarget]

end FreeState

theorem FreeState.FreesOwn.freeTarget {s : FreeState} {r : Region}
    (hmapped : RegionsMapped s.ctx.regions) (hr : r ∈ s.ctx.regions)
    (hown : s.FreesOwn r.baseAddr) : s.ctx.freeTarget r.baseAddr = some r := by
  obtain ⟨r', hr', hbase, hregions, -⟩ := hown
  have hspans := hmapped.spans_base hr'
  rw [hbase] at hspans
  obtain rfl := hmapped.eq_of_spans hr' hr hspans (hmapped.spans_base hr)
  have hgone : r' ∉ (s.free r'.baseAddr).ctx.regions := fun hmem => ((hregions r').mp hmem).2 rfl
  cases htarget : s.ctx.freeTarget r'.baseAddr with
  | none =>
      rw [FreeState.free_of_no_target htarget] at hgone
      exact absurd hr hgone
  | some r =>
      rw [(FreeState.free_of_target htarget).1] at hgone
      by_contra hne
      have hother : r' ≠ r := fun heq => hne (by rw [heq])
      exact hgone ((List.mem_erase_of_ne hother).mpr hr)

namespace FreeInv

variable {s t : FreeState} {a : FreeAction}

theorem freeTarget_of_live {addr : Nat} (h : FreeInv s) (haddr : addr ∈ s.live) :
    ∃ r ∈ s.ctx.regions, r.baseAddr = addr ∧ s.ctx.freeTarget addr = some r := by
  obtain ⟨r, hr, rfl, hzero, hlt, hfind⟩ := h.live addr haddr
  refine ⟨r, hr, rfl, ?_⟩
  rw [MemCtx.freeTarget_base h.regions hr hlt, if_neg hzero, hfind]

theorem mapped_of_erase {r r' : Region} {addr : Nat} (h : FreeInv s) (hr : r ∈ s.ctx.regions)
    (hr' : r' ∈ s.ctx.regions.erase r) (hspans : r'.spans addr = true) :
    (s.mapped addr && !r.spans addr) = true := by
  obtain ⟨hne, hmem⟩ := h.regions.nodup.mem_erase_iff.mp hr'
  have hnot : r.spans addr = false := by
    cases hin : r.spans addr with
    | false => rfl
    | true => exact absurd (h.regions.eq_of_spans hmem hr hspans hin) hne
  rw [h.mapped r' hmem addr hspans, hnot]
  rfl

theorem allFreeOwn (h : FreeInv s) : s.AllFreeOwn := by
  intro addr haddr
  obtain ⟨r, hr, hbase, htarget⟩ := h.freeTarget_of_live haddr
  obtain ⟨hregions, hmapped⟩ := FreeState.free_of_target htarget
  refine ⟨r, hr, hbase, ?_, hmapped, ?_⟩
  · intro r'
    rw [hregions, h.regions.nodup.mem_erase_iff]
    exact And.comm
  · intro r' hr' a hspans
    rw [hregions] at hr'
    rw [hmapped]
    exact h.mapped_of_erase hr hr' hspans

theorem mapped_mappedWith {created : Option Region} (h : FreeInv s) :
    ∀ r ∈ s.ctx.regions ++ created.toList, ∀ a, r.spans a = true →
      s.mappedWith created a = true := by
  intro r hr a hspans
  cases created with
  | none =>
      rw [Option.toList_none, List.append_nil] at hr
      exact h.mapped r hr a hspans
  | some r' =>
      rw [FreeState.mappedWith, Bool.or_eq_true]
      rcases List.mem_append.mp hr with hr | hr
      · exact .inr (h.mapped r hr a hspans)
      · rw [List.mem_singleton.mp hr] at hspans
        exact .inl hspans

theorem regions_append {created : Option Region} (h : FreeInv s)
    (hmapped : ∀ r ∈ created, r.Mapped s.ctx) :
    RegionsMapped (s.ctx.regions ++ created.toList) := by
  cases created with
  | none =>
      rw [Option.toList_none, List.append_nil]
      exact h.regions
  | some r => exact h.regions.append (hmapped r rfl)

theorem live_append {ctx : MemCtx} {new : List Region} (h : FreeInv s)
    (hregions : ctx.regions = s.ctx.regions ++ new) :
    ∀ addr ∈ s.live, ∃ r ∈ ctx.regions, r.baseAddr = addr ∧ r.globalBase ≠ 0 ∧
      r.globalBase < 2 ^ 64 ∧ ctx.regionFind r.globalBase = some r := by
  intro addr haddr
  obtain ⟨r, hr, hbase, hzero, hlt, hfind⟩ := h.live addr haddr
  refine ⟨r, ?_, hbase, hzero, hlt, ?_⟩
  · rw [hregions]
    exact List.mem_append_left _ hr
  · rw [MemCtx.regionFind] at hfind ⊢
    rw [hregions, List.find?_append, hfind]
    rfl

theorem memInit {chunks : Nat} {mapped : Option Nat} (h : FreeInv s)
    (ht : freeMachine.step s (.memInit chunks mapped) = some t) : FreeInv t := by
  simp only [freeMachine, Option.ite_none_right_eq_some, Option.some.injEq] at ht
  obtain ⟨hmapped, rfl⟩ := ht
  obtain ⟨-, -, hnext, hregions, -⟩ := s.ctx.memInit_spec chunks mapped
  refine ⟨?_, ?_, h.nodup, h.live_append hregions, ?_⟩
  · show RegionsMapped (s.ctx.memInit chunks mapped).2.regions
    rw [hregions]
    exact h.regions_append hmapped
  · show (s.ctx.memInit chunks mapped).2.nextGlobalAddr < 2 ^ 64
    rw [hnext]
    split_ifs
    · exact Nat.mod_lt _ (by decide)
    · exact h.next
  · show ∀ r ∈ (s.ctx.memInit chunks mapped).2.regions, _
    rw [hregions]
    exact h.mapped_mappedWith

theorem not_mem_live {r : Region} (h : FreeInv s) (hr : r.Mapped s.ctx) : r.baseAddr ∉ s.live := by
  intro hlive
  obtain ⟨r', hr', hbase, -⟩ := h.live _ hlive
  have hspans := of_decide_eq_true (h.regions.spans_base hr')
  have hin : r.baseAddr ≤ r'.baseAddr ∧ r'.baseAddr < r.baseAddr + r.totalSize := by
    rw [hbase]
    exact ⟨Nat.le_refl _, Nat.lt_add_of_pos_right hr.1⟩
  exact Region.not_localApart hspans hin (hr.2.2.2.2 r' hr')

theorem not_mem_regions {r : Region} (hr : r.Mapped s.ctx) : r ∉ s.ctx.regions := by
  intro hmem
  have hin : r.baseAddr ≤ r.baseAddr ∧ r.baseAddr < r.baseAddr + r.totalSize :=
    ⟨Nat.le_refl _, Nat.lt_add_of_pos_right hr.1⟩
  exact Region.not_localApart hin hin (hr.2.2.2.2 r hmem)

theorem regionFind_append {ctx : MemCtx} {regions : List Region} {r : Region}
    (hregions : ctx.regions = regions ++ [r]) (hpos : 0 < r.totalSize)
    (hend : r.globalBase + r.totalSize < 2 ^ 64)
    (hnot : ∀ r' ∈ regions, r'.containsGlobal r.globalBase = false) :
    ctx.regionFind r.globalBase = some r := by
  have hnone : regions.find? (·.containsGlobal r.globalBase) = none := by
    rw [List.find?_eq_none]
    intro r' hr'
    rw [hnot r' hr']
    exact Bool.false_ne_true
  have hself : r.containsGlobal r.globalBase = true := by
    rw [Region.containsGlobal, Nat.mod_eq_of_lt hend]
    simpa using hpos
  rw [MemCtx.regionFind, hregions, List.find?_append, hnone]
  simp [hself]

theorem starts_of_find {regions : List Region} {r : Region} (hnew : r ∉ regions)
    (hlt : r.globalBase < 2 ^ 64) (hsize : r.totalSize < 2 ^ 64)
    (hfind : (regions ++ [r]).find? (·.containsGlobal r.globalBase) = some r) :
    (∀ r' ∈ regions, r'.containsGlobal r.globalBase = false) ∧
      r.globalBase + r.totalSize < 2 ^ 64 := by
  have hself := List.find?_some hfind
  constructor
  · intro r' hr'
    by_contra hcontains
    rw [Bool.not_eq_false] at hcontains
    have hsome : (regions.find? (·.containsGlobal r.globalBase)).isSome :=
      List.find?_isSome.mpr ⟨r', hr', hcontains⟩
    obtain ⟨r₀, hfirst⟩ := Option.isSome_iff_exists.mp hsome
    rw [List.find?_append, hfirst, Option.some_or, Option.some.injEq] at hfind
    exact hnew (hfind ▸ List.mem_of_find?_eq_some hfirst)
  · simp only [Region.containsGlobal, Bool.and_eq_true, decide_eq_true_eq] at hself
    omega

theorem malloc {size : Nat} {mapped : Option Nat} (h : FreeInv s)
    (hstarts : (FreeAction.malloc size mapped).StartsApart s)
    (ht : freeMachine.step s (.malloc size mapped) = some t) : FreeInv t := by
  simp only [freeMachine, Option.ite_none_right_eq_some, Option.some.injEq] at ht
  obtain ⟨hmapped, rfl⟩ := ht
  by_cases hsize : size = 0
  · have hsame : (FreeAction.malloc size mapped).apply s = s := by
      simp [FreeAction.apply, MemCtx.memAlloc, FreeState.mappedWith, FreeAction.creates,
        MappingAction.creates, hsize]
    rw [hsame]
    exact h
  · obtain ⟨-, -, hnext, hregions, -⟩ := s.ctx.memAlloc_spec size mapped hsize
    have hcreates : (FreeAction.malloc size mapped).creates s.ctx = mapped.map
        (.created (roundUpPage size) s.ctx.localNodeId s.ctx.nextGlobalAddr) := if_neg hsize
    have hreturned := s.ctx.memAlloc_fst mapped hsize
    rw [← hcreates] at hregions
    refine ⟨?_, ?_, ?_, ?_, ?_⟩
    · show RegionsMapped (s.ctx.memAlloc size mapped).2.regions
      rw [hregions]
      exact h.regions_append hmapped
    · show (s.ctx.memAlloc size mapped).2.nextGlobalAddr < 2 ^ 64
      rw [hnext]
      exact Nat.mod_lt _ (by decide)
    · show (s.live ++ (s.ctx.memAlloc size mapped).1.toList).Nodup
      rw [hreturned]
      cases mapped with
      | none => simpa using h.nodup
      | some addr =>
          have hnew : addr ∉ s.live := h.not_mem_live (hmapped _ hcreates)
          exact h.nodup.append (List.nodup_singleton addr) (by simpa using hnew)
    · show ∀ p ∈ s.live ++ (s.ctx.memAlloc size mapped).1.toList, _
      rw [hreturned]
      intro p hp
      rcases List.mem_append.mp hp with hp | hp
      · exact h.live_append hregions p hp
      · obtain rfl : mapped = some p := Option.mem_toList.mp hp
        obtain ⟨hzero, hnot, hend⟩ := hstarts rfl hsize
        have hr := hmapped _ hcreates
        rw [hcreates] at hregions
        refine ⟨.created (roundUpPage size) s.ctx.localNodeId s.ctx.nextGlobalAddr p, ?_, rfl, hzero,
          h.next, ?_⟩
        · show _ ∈ (s.ctx.memAlloc size (some p)).2.regions
          rw [hregions]
          exact List.mem_append_right _ (List.mem_singleton_self _)
        · apply regionFind_append hregions hr.1 ?_ hnot
          rw [Region.created_roundUpPage]
          exact hend
    · show ∀ r ∈ (s.ctx.memAlloc size mapped).2.regions, _
      rw [hregions]
      exact h.mapped_mappedWith

theorem free {addr : Nat} (h : FreeInv s) (hknown : (FreeAction.free addr).FreesKnown s)
    (ht : freeMachine.step s (.free addr) = some t) : FreeInv t := by
  simp only [freeMachine, Option.ite_none_right_eq_some, Option.some.injEq] at ht
  obtain ⟨-, rfl⟩ := ht
  show FreeInv (s.free addr)
  rcases hknown with haddr | hnot
  · obtain ⟨r, hr, hbase, htarget⟩ := h.freeTarget_of_live haddr
    obtain ⟨hregions, hunmapped⟩ := FreeState.free_of_target htarget
    refine ⟨?_, ?_, h.nodup.erase addr, ?_, ?_⟩
    · rw [hregions]
      exact h.regions.erase r
    · rw [FreeState.free, MemCtx.memFree, htarget]
      exact h.next
    · intro addr' haddr'
      obtain ⟨hne, hlive⟩ := h.nodup.mem_erase_iff.mp haddr'
      obtain ⟨r', hr', hbase', hzero, hlt, hfind⟩ := h.live addr' hlive
      have hother : r' ≠ r := by
        intro heq
        exact hne (by rw [← hbase', heq, hbase])
      refine ⟨r', ?_, hbase', hzero, hlt, ?_⟩
      · rw [hregions]
        exact (List.mem_erase_of_ne hother).mpr hr'
      · rw [MemCtx.regionFind, hregions]
        exact List.find?_erase_of_ne hfind hother
    · intro r' hr' a hspans
      rw [hregions] at hr'
      rw [hunmapped]
      exact h.mapped_of_erase hr hr' hspans
  · have htarget := MemCtx.freeTarget_of_not_spans h.regions hnot
    rw [FreeState.free_of_no_target htarget]
    exact ⟨h.regions, h.next, h.nodup.erase addr,
      fun addr' haddr' => h.live addr' (List.mem_of_mem_erase haddr'), h.mapped⟩

theorem step (h : FreeInv s) (hknown : a.FreesKnown s) (hstarts : a.StartsApart s)
    (ht : freeMachine.step s a = some t) : FreeInv t := by
  cases a with
  | memInit chunks mapped => exact h.memInit ht
  | malloc size mapped => exact h.malloc hstarts ht
  | free addr => exact h.free hknown ht

/-- A region that starts at zero, inside another one or before a wrap-around is not found by its own
address. -/
theorem not_allFreeOwn (h : FreeInv s) (hnot : ¬ a.StartsApart s)
    (ht : freeMachine.step s a = some t) : ¬ t.AllFreeOwn := by
  simp only [freeMachine, Option.ite_none_right_eq_some, Option.some.injEq] at ht
  obtain ⟨hmapped, rfl⟩ := ht
  intro hown
  cases a with
  | memInit chunks mapped => exact hnot trivial
  | free addr => exact hnot trivial
  | malloc size mapped =>
      apply hnot
      intro hsome hsize
      obtain ⟨addr, rfl⟩ := Option.isSome_iff_exists.mp hsome
      obtain ⟨-, -, -, hregions, -⟩ := s.ctx.memAlloc_spec size (some addr) hsize
      have hcreates : (FreeAction.malloc size (some addr)).creates s.ctx =
          some (.created (roundUpPage size) s.ctx.localNodeId s.ctx.nextGlobalAddr addr) :=
        if_neg hsize
      have hr := hmapped _ hcreates
      have hstate : ((FreeAction.malloc size (some addr)).apply s).ctx.regions = s.ctx.regions ++
          [.created (roundUpPage size) s.ctx.localNodeId s.ctx.nextGlobalAddr addr] := hregions
      have hlive : addr ∈ ((FreeAction.malloc size (some addr)).apply s).live := by
        show addr ∈ s.live ++ (s.ctx.memAlloc size (some addr)).1.toList
        rw [s.ctx.memAlloc_fst _ hsize]
        exact List.mem_append_right _ (List.mem_singleton_self _)
      have hall : RegionsMapped ((FreeAction.malloc size (some addr)).apply s).ctx.regions := by
        rw [hstate]
        exact h.regions.append hr
      have hmem : Region.created (roundUpPage size) s.ctx.localNodeId s.ctx.nextGlobalAddr addr ∈
          ((FreeAction.malloc size (some addr)).apply s).ctx.regions := by
        rw [hstate]
        exact List.mem_append_right _ (List.mem_singleton_self _)
      have htarget := FreeState.FreesOwn.freeTarget hall hmem (hown addr hlive)
      rw [MemCtx.freeTarget_base hall hmem h.next, Option.ite_none_left_eq_some,
        MemCtx.regionFind, hstate] at htarget
      obtain ⟨hzero, hfind⟩ := htarget
      obtain ⟨hnot, hend⟩ := starts_of_find (not_mem_regions hr) h.next (roundUpPage_lt _) hfind
      rw [Region.created_roundUpPage] at hend
      exact ⟨hzero, hnot, hend⟩

theorem start (hs : freeMachine.start s) : FreeInv s := by
  obtain ⟨node, role, rfl⟩ := hs
  refine ⟨⟨?_, ?_⟩, ?_, ?_, ?_, ?_⟩
  · intro r hr
    cases hr
  · exact List.Pairwise.nil
  · show globalStart < 2 ^ 64
    decide
  · exact List.nodup_nil
  · intro addr haddr
    cases haddr
  · intro r hr
    cases hr

end FreeInv

/-- Every `dsm_free` of a live pointer takes its own region and no other as long as every `dsm_malloc`
starts its range outside the older regions, and as long as only live pointers are freed only then. -/
theorem free_own_iff {s t : FreeState} {as : List FreeAction} (hstart : freeMachine.start s)
    (hexec : freeMachine.exec s as = some t) :
    (freeMachine.EachStep (fun u a => a.FreesKnown u ∧ a.StartsApart u) s as →
        freeMachine.Always FreeState.AllFreeOwn s as) ∧
      (freeMachine.EachStep (fun u a => a.FreesKnown u) s as →
        freeMachine.Always FreeState.AllFreeOwn s as →
          freeMachine.EachStep (fun u a => a.FreesKnown u ∧ a.StartsApart u) s as) := by
  have hkeep : ∀ u a v, FreeInv u → FreeAction.FreesKnown u a ∧ FreeAction.StartsApart u a →
      freeMachine.step u a = some v → FreeInv v := by
    intro u a v h hok hstep
    exact h.step hok.1 hok.2 hstep
  constructor
  · intro hok
    exact Machine.always_of_eachStep (fun u h => h.allFreeOwn) hkeep (.start hstart) hexec hok
  · intro hknown halways
    apply Machine.eachStep_of_always hkeep ?_ (.start hstart) hexec hknown halways
    intro u a v h hfrees hnot hstep
    exact h.not_allFreeOwn (fun hstarts => hnot ⟨hfrees, hstarts⟩) hstep

/-- A worker with id 5 before `dsm_mem_init`. -/
private def worker5 : FreeState :=
  { ctx := .initial 5 .worker, live := [], mapped := fun _ => false }

/-- It donates a page, allocates two and frees the first of them. -/
private def freesFirst : List FreeAction :=
  [.memInit 1 (some 0x10000), .malloc 4096 (some 0x20000), .malloc 4096 (some 0x30000),
    .free 0x20000]

theorem free_own_iff_two_pages : ∃ t, freeMachine.exec worker5 freesFirst = some t ∧
    t.live = [0x30000] ∧ t.AllFreeOwn := by
  have hrun : (freeMachine.exec worker5 freesFirst).map (·.live) = some [0x30000] := by
    decide +kernel
  obtain ⟨t, hexec, hlive⟩ := Option.map_eq_some_iff.mp hrun
  have hok : freeMachine.EachStep (fun u a => a.FreesKnown u ∧ a.StartsApart u) worker5
      freesFirst := Machine.eachStep_of_checks (by decide +kernel)
  exact ⟨t, hexec, hlive, ((free_own_iff ⟨5, .worker, rfl⟩ hexec).1 hok).last hexec⟩

/-- A worker with id 2 before `dsm_mem_init`. -/
private def worker2 : FreeState :=
  { ctx := .initial 2 .worker, live := [], mapped := fun _ => false }

/-- It donates a page and allocates three; the third starts where the donated one does. -/
private def reachesDonated : List FreeAction :=
  [.memInit 1 (some 0x10000), .malloc 8192 (some 0x20000), .malloc 4096 (some 0x30000)]

/-- Freeing the third page takes the donated region. -/
theorem free_not_own : freeMachine.start worker2 ∧ ∃ t,
    freeMachine.exec worker2 reachesDonated = some t ∧ 0x30000 ∈ t.live ∧
      (t.ctx.freeTarget 0x30000).map (·.baseAddr) = some 0x10000 ∧ ¬ t.FreesOwn 0x30000 := by
  have hrun : (freeMachine.exec worker2 reachesDonated).map (fun t =>
      (decide (0x30000 ∈ t.live), (t.ctx.freeTarget 0x30000).map (·.baseAddr),
        decide (∀ r ∈ t.ctx.regions, r.baseAddr = 0x30000 → r ∈ (t.free 0x30000).ctx.regions))) =
        some (true, some 0x10000, true) := by decide +kernel
  obtain ⟨t, hexec, hparts⟩ := Option.map_eq_some_iff.mp hrun
  simp only [Prod.mk.injEq, decide_eq_true_eq] at hparts
  obtain ⟨hlive, htarget, hstays⟩ := hparts
  refine ⟨⟨2, .worker, rfl⟩, t, hexec, hlive, htarget, ?_⟩
  intro hown
  obtain ⟨r, hr, hbase, hregions, -⟩ := hown
  exact ((hregions r).mp (hstays r hr hbase)).2 rfl

end Dsm
