import Dsm.Memory.Region
import Mathlib.Order.CompletePartialOrder
import Mathlib.Order.Interval.Set.Disjoint

/-!
# Address translation

`dsm_global_to_local`, `dsm_local_to_global` and `dsm_is_dsm_address` search one list of regions with
two range tests. Each search stops at the first region that contains its address, so the translations
are inverse to each other where no address lies in two regions: then the first match is the only one
(`MemCtx.regionFind_eq_some_iff`, `MemCtx.find_containsLocal_eq_some_iff`), and a region that is found
by an address is found again by its translation.
-/

namespace Dsm

/-- `dsm_is_dsm_address`. -/
def MemCtx.isDsmAddress (ctx : MemCtx) (addr : Nat) : Int :=
  if ctx.regions.any (·.containsLocal addr) then 1 else 0

namespace Region

def globalRange (r : Region) : Set Nat := Set.Ico r.globalBase (r.globalBase + r.totalSize)

def localRange (r : Region) : Set Nat := Set.Ico r.baseAddr (r.baseAddr + r.totalSize)

/-- Neither of the two ends that the searches compute wraps. -/
def NoWrap (r : Region) : Prop :=
  r.globalBase + r.totalSize < 2 ^ 64 ∧ r.baseAddr + r.totalSize < 2 ^ 64

variable {r : Region}

theorem NoWrap.containsGlobal_iff (h : r.NoWrap) (g : Nat) :
    r.containsGlobal g = true ↔ g ∈ r.globalRange := by
  rw [containsGlobal, Nat.mod_eq_of_lt h.1, Bool.and_eq_true, decide_eq_true_eq, decide_eq_true_eq]
  rfl

theorem NoWrap.containsLocal_iff (h : r.NoWrap) (p : Nat) :
    r.containsLocal p = true ↔ p ∈ r.localRange := by
  rw [containsLocal, Nat.mod_eq_of_lt h.2, Bool.and_eq_true, decide_eq_true_eq, decide_eq_true_eq]
  rfl

end Region

/-- A list of regions that do not wrap and have no address in common, global or local. -/
structure RegionsApart (regions : List Region) : Prop where
  noWrap : ∀ r ∈ regions, r.NoWrap
  globals : regions.Pairwise fun r r' => Disjoint r.globalRange r'.globalRange
  locals : regions.Pairwise fun r r' => Disjoint r.localRange r'.localRange

/-- The two translations are inverse to each other on the addresses inside regions and keep the
offset, and `dsm_is_dsm_address` tells the local addresses that a global address leads to. -/
structure MemCtx.Translates (ctx : MemCtx) : Prop where
  globalLocal : ∀ r ∈ ctx.regions, ∀ g ∈ r.globalRange, ∃ p ∈ r.localRange,
    ctx.globalToLocal g = some p ∧ ctx.localToGlobal p = g ∧ p - r.baseAddr = g - r.globalBase
  localGlobal : ∀ r ∈ ctx.regions, ∀ p ∈ r.localRange, ctx.localToGlobal p ∈ r.globalRange ∧
    ctx.globalToLocal (ctx.localToGlobal p) = some p ∧
    ctx.localToGlobal p - r.globalBase = p - r.baseAddr
  isDsmAddress : ∀ p, ctx.isDsmAddress p = 1 ↔ ∃ g, ctx.globalToLocal g = some p

namespace RegionsApart

variable {ctx : MemCtx} (h : RegionsApart ctx.regions)
include h

theorem regionFind_eq_some_iff {r : Region} {g : Nat} :
    ctx.regionFind g = some r ↔ r ∈ ctx.regions ∧ g ∈ r.globalRange := by
  have hunique : ctx.regions.Pairwise fun r r' =>
      r.containsGlobal g = true → r'.containsGlobal g = false := by
    refine h.globals.imp_of_mem fun {r r'} hr hr' hdisjoint hin => ?_
    rw [(h.noWrap r hr).containsGlobal_iff] at hin
    rw [Bool.eq_false_iff, ne_eq, (h.noWrap r' hr').containsGlobal_iff]
    exact Set.disjoint_left.mp hdisjoint hin
  rw [MemCtx.regionFind, List.find?_eq_some_iff_of_pairwise hunique]
  exact and_congr_right fun hr => (h.noWrap r hr).containsGlobal_iff g

theorem find_containsLocal_eq_some_iff {r : Region} {p : Nat} :
    ctx.regions.find? (·.containsLocal p) = some r ↔ r ∈ ctx.regions ∧ p ∈ r.localRange := by
  have hunique : ctx.regions.Pairwise fun r r' =>
      r.containsLocal p = true → r'.containsLocal p = false := by
    refine h.locals.imp_of_mem fun {r r'} hr hr' hdisjoint hin => ?_
    rw [(h.noWrap r hr).containsLocal_iff] at hin
    rw [Bool.eq_false_iff, ne_eq, (h.noWrap r' hr').containsLocal_iff]
    exact Set.disjoint_left.mp hdisjoint hin
  rw [List.find?_eq_some_iff_of_pairwise hunique]
  exact and_congr_right fun hr => (h.noWrap r hr).containsLocal_iff p

/-- A global address leads to the same offset of the region that contains it, and nowhere else. -/
theorem globalToLocal_eq_some_iff {g p : Nat} : ctx.globalToLocal g = some p ↔
    ∃ r ∈ ctx.regions, g ∈ r.globalRange ∧ p = r.baseAddr + (g - r.globalBase) := by
  rw [MemCtx.globalToLocal, Option.map_eq_some_iff]
  constructor
  · rintro ⟨r, hfind, rfl⟩
    obtain ⟨hr, hin⟩ := h.regionFind_eq_some_iff.mp hfind
    exact ⟨r, hr, hin, rfl⟩
  · rintro ⟨r, hr, hin, rfl⟩
    exact ⟨r, h.regionFind_eq_some_iff.mpr ⟨hr, hin⟩, rfl⟩

theorem localToGlobal_eq {r : Region} {p : Nat} (hr : r ∈ ctx.regions) (hin : p ∈ r.localRange) :
    ctx.localToGlobal p = r.globalBase + (p - r.baseAddr) := by
  have hend := (h.noWrap r hr).1
  obtain ⟨hlow, hhigh⟩ := hin
  rw [MemCtx.localToGlobal, h.find_containsLocal_eq_some_iff.mpr ⟨hr, hlow, hhigh⟩]
  exact Nat.mod_eq_of_lt (by omega)

theorem isDsmAddress_eq_one_iff {p : Nat} :
    ctx.isDsmAddress p = 1 ↔ ∃ r ∈ ctx.regions, p ∈ r.localRange := by
  have hany : ctx.isDsmAddress p = 1 ↔ ctx.regions.any (·.containsLocal p) = true := by
    unfold MemCtx.isDsmAddress
    split <;> simp_all
  rw [hany, List.any_eq_true]
  exact exists_congr fun r => and_congr_right fun hr => (h.noWrap r hr).containsLocal_iff p

end RegionsApart

/-- Over regions without common addresses the translations are inverse bijections between the global
and the local addresses inside regions. -/
theorem translation_bijective {ctx : MemCtx} (h : RegionsApart ctx.regions) : ctx.Translates := by
  refine ⟨fun r hr g hg => ?_, fun r hr p hp => ?_, fun p => ?_⟩
  · have hoffset : r.baseAddr + (g - r.globalBase) ∈ r.localRange := by
      obtain ⟨hlow, hhigh⟩ := hg
      exact ⟨by omega, by omega⟩
    refine ⟨_, hoffset, h.globalToLocal_eq_some_iff.mpr ⟨r, hr, hg, rfl⟩, ?_, by omega⟩
    rw [h.localToGlobal_eq hr hoffset, Nat.add_sub_cancel_left]
    exact Nat.add_sub_cancel' hg.1
  · have hoffset : r.globalBase + (p - r.baseAddr) ∈ r.globalRange := by
      obtain ⟨hlow, hhigh⟩ := hp
      exact ⟨by omega, by omega⟩
    rw [h.localToGlobal_eq hr hp]
    refine ⟨hoffset, h.globalToLocal_eq_some_iff.mpr ⟨r, hr, hoffset, ?_⟩, by omega⟩
    rw [Nat.add_sub_cancel_left]
    exact (Nat.add_sub_cancel' hp.1).symm
  · rw [h.isDsmAddress_eq_one_iff]
    constructor
    · rintro ⟨r, hr, hlow, hhigh⟩
      refine ⟨r.globalBase + (p - r.baseAddr), h.globalToLocal_eq_some_iff.mpr ⟨r, hr, ?_, by omega⟩⟩
      exact ⟨by omega, by omega⟩
    · rintro ⟨g, hg⟩
      obtain ⟨r, hr, ⟨hlow, hhigh⟩, rfl⟩ := h.globalToLocal_eq_some_iff.mp hg
      exact ⟨r, hr, by omega, by omega⟩

/-- Two pages with adjacent global ranges, whose mappings are adjacent the other way round. -/
def adjacentRegions : MemCtx :=
  { MemCtx.initial masterId .master with
    regions := [.created 4096 masterId 0x1000000 0x21000, .created 4096 masterId 0x1001000 0x20000] }

/-- The first byte of the second region is not taken for the end of the first. -/
theorem translation_bijective_adjacent : RegionsApart adjacentRegions.regions ∧
    adjacentRegions.Translates ∧ adjacentRegions.globalToLocal 0x1001000 = some 0x20000 ∧
      adjacentRegions.localToGlobal 0x21000 = 0x1000000 := by
  have hapart : RegionsApart adjacentRegions.regions := by
    refine ⟨?_, ?_, ?_⟩
    · simp [adjacentRegions, Region.NoWrap, Region.created, roundUpPage, pageSize]
    · simp [adjacentRegions, Region.globalRange, Region.created, roundUpPage, pageSize,
        Set.Ico_disjoint_Ico]
    · simp [adjacentRegions, Region.localRange, Region.created, roundUpPage, pageSize,
        Set.Ico_disjoint_Ico]
  exact ⟨hapart, translation_bijective hapart, by decide, by decide⟩

end Dsm
