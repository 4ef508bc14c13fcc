import Dsm.Memory.Mapping

/-!
# Regions at fixed addresses

`dsm_mem_init` and `dsm_malloc` on the master move the bump pointer behind what they take, and
`dsm_malloc_at` does not look at it. So the pointer comes to stand inside a fixed region, and the
live ranges stay disjoint exactly as long as no `dsm_malloc` takes a range that meets a fixed region
(`fixed_regions_apart_iff`).
-/

namespace Dsm

/-- The range of `size` bytes from `base` on does not meet the region. -/
def Region.Avoids (r : Region) (base size : Nat) : Prop :=
  r.globalBase + r.totalSize ≤ base ∨ base + size ≤ r.globalBase

instance (r : Region) (base size : Nat) : Decidable (r.Avoids base size) :=
  inferInstanceAs (Decidable (_ ∨ _))

/-- A `dsm_malloc`, or a `dsm_malloc_at` of whole pages that are not live; the sizes are positive, and
no sum wraps around. -/
def MappingAction.Disciplined (ctx : MemCtx) : MappingAction → Prop
  | .malloc size _ =>
      0 < size ∧ size + (pageSize - 1) < 2 ^ 64 ∧ ctx.nextGlobalAddr + roundUpPage size < 2 ^ 64
  | .mallocAt globalAddr size _ _ =>
      0 < size ∧ size + (pageSize - 1) < 2 ^ 64 ∧ globalAddr + roundUpPage size < 2 ^ 64 ∧
        pageSize ∣ globalAddr ∧ ∀ r ∈ ctx.regions, r.Avoids globalAddr (roundUpPage size)
  | .mapRemote .. => False
  | .free _ => False

instance (ctx : MemCtx) : (a : MappingAction) → Decidable (a.Disciplined ctx)
  | .malloc _ _ => inferInstanceAs (Decidable (_ ∧ _ ∧ _))
  | .mallocAt _ _ _ _ => inferInstanceAs (Decidable (_ ∧ _ ∧ _ ∧ _ ∧ _))
  | .mapRemote .. => inferInstanceAs (Decidable False)
  | .free _ => inferInstanceAs (Decidable False)

/-- The region that a `dsm_malloc_at` creates. -/
def MappingAction.fixes (ctx : MemCtx) : MappingAction → List Region
  | .mallocAt globalAddr size mapped protectOk =>
      ((MappingAction.mallocAt globalAddr size mapped protectOk).creates ctx).toList
  | _ => []

/-- The master, with the regions that `dsm_malloc_at` has created. -/
structure FixedState where
  ctx : MemCtx
  fixed : List Region

def fixedMachine : Machine FixedState MappingAction where
  start s := MappingStart s.ctx ∧ s.ctx.localRole = .master ∧ s.fixed = []
  step s a :=
    if a.Disciplined s.ctx ∧ ∀ r ∈ a.creates s.ctx, r.Mapped s.ctx then
      some { ctx := a.apply s.ctx, fixed := s.fixed ++ a.fixes s.ctx }
    else none

/-- The live regions have disjoint global ranges. -/
def FixedState.Apart (s : FixedState) : Prop := s.ctx.regions.Pairwise Region.Apart

/-- A `dsm_malloc` that gets memory takes a range that no fixed region meets. -/
def MappingAction.Clears (s : FixedState) : MappingAction → Prop
  | .malloc size mapped =>
      mapped.isSome → ∀ r ∈ s.fixed, r.Avoids s.ctx.nextGlobalAddr (roundUpPage size)
  | _ => True

instance (s : FixedState) : (a : MappingAction) → Decidable (a.Clears s)
  | .malloc _ _ => inferInstanceAs (Decidable (_ → _))
  | .mallocAt .. => inferInstanceAs (Decidable True)
  | .mapRemote .. => inferInstanceAs (Decidable True)
  | .free _ => inferInstanceAs (Decidable True)

/-- The live regions are the fixed ones and those below the bump pointer. -/
structure FixedInv (s : FixedState) : Prop where
  apart : s.Apart
  kinds : ∀ r ∈ s.ctx.regions, r ∈ s.fixed ∨ r.globalBase + r.totalSize ≤ s.ctx.nextGlobalAddr
  live : ∀ r ∈ s.fixed, r ∈ s.ctx.regions

/-! ### What a step does -/

theorem MemCtx.mallocAt_nextGlobalAddr (ctx : MemCtx) (globalAddr size : Nat) (mapped : Option Nat)
    (protectOk : Bool) :
    (ctx.mallocAt globalAddr size mapped protectOk).2.nextGlobalAddr = ctx.nextGlobalAddr := by
  by_cases hsize : size = 0
  · rw [MemCtx.mallocAt, if_pos hsize]
  · cases mapped with
    | none => simp [MemCtx.mallocAt, hsize, MemCtx.regionCreate_none, MemCtx.registerOwnership]
    | some addr =>
        cases protectOk with
        | false =>
            simp [MemCtx.mallocAt, hsize, MemCtx.regionCreate_some, MemCtx.addRegion,
              MemCtx.registerOwnership]
        | true =>
            simp only [MemCtx.mallocAt, if_neg hsize, MemCtx.regionCreate_some]
            exact (MemCtx.markShared_spec _ _ _).2.1

namespace FixedInv

variable {s t : FixedState} {a : MappingAction}

theorem malloc {size : Nat} {mapped : Option Nat} (h : FixedInv s)
    (hclear : (MappingAction.malloc size mapped).Clears s)
    (ht : fixedMachine.step s (.malloc size mapped) = some t) : FixedInv t := by
  simp only [fixedMachine, Option.ite_none_right_eq_some, Option.some.injEq] at ht
  obtain ⟨⟨hdisc, -⟩, rfl⟩ := ht
  obtain ⟨hpos, hround, hwrap⟩ := hdisc
  obtain ⟨-, -, hnext, hregions, -⟩ := s.ctx.memAlloc_spec size mapped (Nat.ne_of_gt hpos)
  rw [Nat.mod_eq_of_lt hwrap] at hnext
  have hold : ∀ r ∈ s.ctx.regions, r ∈ s.fixed ++ [] ∨
      r.globalBase + r.totalSize ≤ s.ctx.nextGlobalAddr + roundUpPage size := by
    intro r hr
    rcases h.kinds r hr with hfixed | hbelow
    · exact .inl (List.mem_append_left _ hfixed)
    · exact .inr (Nat.le_add_right_of_le hbelow)
  cases mapped with
  | none =>
      have hsame : ((MappingAction.malloc size none).apply s.ctx).regions = s.ctx.regions := by
        rw [MappingAction.apply, hregions]
        simp
      refine ⟨?_, ?_, ?_⟩
      · show List.Pairwise _ _
        rw [hsame]
        exact h.apart
      · show ∀ r ∈ ((MappingAction.malloc size none).apply s.ctx).regions, _
        rw [hsame]
        simp only [MappingAction.apply, hnext]
        exact hold
      · simpa [MappingAction.fixes, hsame] using h.live
  | some addr =>
      have hadds : ((MappingAction.malloc size (some addr)).apply s.ctx).regions = s.ctx.regions ++
          [.created (roundUpPage size) s.ctx.localNodeId s.ctx.nextGlobalAddr addr] := hregions
      refine ⟨?_, ?_, ?_⟩
      · show List.Pairwise _ _
        rw [hadds]
        refine List.pairwise_concat.mpr ⟨h.apart, ?_⟩
        intro r hr
        rw [Region.created_roundUpPage]
        rcases h.kinds r hr with hfixed | hbelow
        · exact hclear rfl r hfixed
        · exact .inl hbelow
      · show ∀ r ∈ ((MappingAction.malloc size (some addr)).apply s.ctx).regions, _
        rw [hadds]
        simp only [MappingAction.apply, hnext]
        intro r hr
        rcases List.mem_append.mp hr with hr | hr
        · exact hold r hr
        · rw [List.mem_singleton.mp hr, Region.created_roundUpPage]
          exact .inr (Nat.le_refl _)
      · intro r hr
        have hfixed : r ∈ s.fixed := by simpa [MappingAction.fixes] using hr
        rw [hadds]
        exact List.mem_append_left _ (h.live r hfixed)

theorem mallocAt {globalAddr size : Nat} {mapped : Option Nat} {protectOk : Bool} (h : FixedInv s)
    (ht : fixedMachine.step s (.mallocAt globalAddr size mapped protectOk) = some t) :
    FixedInv t := by
  simp only [fixedMachine, Option.ite_none_right_eq_some, Option.some.injEq] at ht
  obtain ⟨⟨hdisc, -⟩, rfl⟩ := ht
  obtain ⟨hpos, -, -, -, havoids⟩ := hdisc
  have hregions := (MappingAction.Adds.mallocAt s.ctx globalAddr size mapped protectOk).regions
  have hnext := s.ctx.mallocAt_nextGlobalAddr globalAddr size mapped protectOk
  refine ⟨?_, ?_, ?_⟩
  · show List.Pairwise _ _
    rw [hregions]
    cases mapped with
    | none =>
        simp only [MappingAction.creates, Option.map_none, ite_self, Option.toList_none,
          List.append_nil]
        exact h.apart
    | some addr =>
        rw [MappingAction.creates, if_neg (Nat.ne_of_gt hpos)]
        refine List.pairwise_concat.mpr ⟨h.apart, ?_⟩
        intro r hr
        rw [Region.created_roundUpPage]
        exact havoids r hr
  · show ∀ r ∈ ((MappingAction.mallocAt globalAddr size mapped protectOk).apply s.ctx).regions, _
    rw [hregions]
    intro r hr
    rcases List.mem_append.mp hr with hr | hr
    · rcases h.kinds r hr with hfixed | hbelow
      · exact .inl (List.mem_append_left _ hfixed)
      · exact .inr (hbelow.trans hnext.ge)
    · exact .inl (List.mem_append_right _ hr)
  · intro r hr
    show r ∈ ((MappingAction.mallocAt globalAddr size mapped protectOk).apply s.ctx).regions
    rw [hregions]
    rcases List.mem_append.mp hr with hr | hr
    · exact List.mem_append_left _ (h.live r hr)
    · exact List.mem_append_right _ hr

theorem step (h : FixedInv s) (hclear : a.Clears s) (ht : fixedMachine.step s a = some t) :
    FixedInv t := by
  cases a with
  | malloc size mapped => exact h.malloc hclear ht
  | mallocAt globalAddr size mapped protectOk => exact h.mallocAt ht
  | mapRemote globalAddr size mapped => simp [fixedMachine, MappingAction.Disciplined] at ht
  | free addr => simp [fixedMachine, MappingAction.Disciplined] at ht

/-- The range of a `dsm_malloc` that meets a fixed region is live together with it. -/
theorem not_apart (h : FixedInv s) (hnot : ¬ a.Clears s) (ht : fixedMachine.step s a = some t) :
    ¬ t.Apart := by
  simp only [fixedMachine, Option.ite_none_right_eq_some, Option.some.injEq] at ht
  obtain ⟨⟨hdisc, -⟩, rfl⟩ := ht
  intro hapart
  cases a with
  | malloc size mapped =>
      apply hnot
      intro hsome r hr
      obtain ⟨addr, rfl⟩ := Option.isSome_iff_exists.mp hsome
      obtain ⟨-, -, -, hregions, -⟩ := s.ctx.memAlloc_spec size (some addr) (Nat.ne_of_gt hdisc.1)
      have hadds : ((MappingAction.malloc size (some addr)).apply s.ctx).regions = s.ctx.regions ++
          [.created (roundUpPage size) s.ctx.localNodeId s.ctx.nextGlobalAddr addr] := hregions
      rw [FixedState.Apart, hadds] at hapart
      have hnew := (List.pairwise_concat.mp hapart).2 r (h.live r hr)
      rwa [Region.created_roundUpPage] at hnew
  | mallocAt globalAddr size mapped protectOk => exact hnot trivial
  | mapRemote globalAddr size mapped => exact hnot trivial
  | free addr => exact hnot trivial

/-- After `dsm_mem_init` the master's own region ends where the bump pointer stands. -/
theorem start (hs : fixedMachine.start s) : FixedInv s := by
  obtain ⟨⟨node, role, chunks, addr, -, -, hle, -, hctx⟩, hrole, hfixed⟩ := hs
  obtain ⟨-, hrole', hnext, hregions, -⟩ := (MemCtx.initial node role).memInit_spec chunks (some addr)
  rw [← hctx] at hrole' hnext hregions
  have hmaster : (MemCtx.initial node role).localRole = .master := hrole'.symm.trans hrole
  have hsize : initSize chunks = chunks * pageSize := by
    rw [initSize, Nat.mod_eq_of_lt]
    unfold pageSize
    omega
  have hround : roundUpPage (initSize chunks) = initSize chunks := by
    apply roundUpPage_of_dvd
    · rw [hsize]
      exact Nat.dvd_mul_left pageSize chunks
    · rw [initSize]
      omega
  have hwrap : globalStart + initSize chunks < 2 ^ 64 := by
    unfold globalStart initSize
    omega
  rw [if_pos hmaster, MemCtx.initial, Nat.mod_eq_of_lt hwrap] at hnext
  have hone : s.ctx.regions = [.created (initSize chunks) node globalStart addr] := by
    simpa [MemCtx.initial, MemCtx.initBase, show role = .master from hmaster] using hregions
  refine ⟨?_, ?_, ?_⟩
  · rw [FixedState.Apart, hone]
    exact List.pairwise_singleton _ _
  · rw [hone, hnext]
    intro r hr
    rw [List.mem_singleton.mp hr, Region.created, hround]
    exact .inr (Nat.le_refl _)
  · simp [hfixed]

end FixedInv

/-- The live ranges of the master stay disjoint exactly in the runs in which no `dsm_malloc` takes a
range that meets a fixed region. -/
theorem fixed_regions_apart_iff {s t : FixedState} {as : List MappingAction}
    (hstart : fixedMachine.start s) (hexec : fixedMachine.exec s as = some t) :
    fixedMachine.Always FixedState.Apart s as ↔
      fixedMachine.EachStep (fun u a => a.Clears u) s as := by
  apply Machine.always_iff_eachStep (fun u (h : FixedInv u) => h.apart)
  · intro u a v h hclear hstep
    exact h.step hclear hstep
  · intro u a v h hnot hstep
    exact h.not_apart hnot hstep
  · exact .start hstart
  · exact hexec

/-- The master with one chunk; its bump pointer stands at `0x1001000`. -/
private def freshFixed : FixedState := { ctx := freshMaster, fixed := [] }

private theorem start_freshFixed : fixedMachine.start freshFixed :=
  ⟨mappingStart_freshMaster, by decide, rfl⟩

/-- A fixed page, and then a page behind the bump pointer. -/
private def fixedThenMalloc (globalAddr : Nat) : List MappingAction :=
  [.mallocAt globalAddr 4096 (some 0x20000) true, .malloc 4096 (some 0x30000)]

theorem fixed_regions_apart_iff_above : ∃ t,
    fixedMachine.exec freshFixed (fixedThenMalloc 0x2000000) = some t ∧ t.Apart := by
  have hrun : (fixedMachine.exec freshFixed (fixedThenMalloc 0x2000000)).isSome = true := by
    decide +kernel
  obtain ⟨t, hexec⟩ := Option.isSome_iff_exists.mp hrun
  have hclear : fixedMachine.EachStep (fun u a => a.Clears u) freshFixed
      (fixedThenMalloc 0x2000000) := Machine.eachStep_of_checks (by decide +kernel)
  exact ⟨t, hexec, ((fixed_regions_apart_iff start_freshFixed hexec).mpr hclear).last hexec⟩

/-- A fixed page right behind the master's own region is where the next `dsm_malloc` takes its
page. -/
theorem fixed_regions_meet : fixedMachine.start freshFixed ∧ ∃ t,
    fixedMachine.exec freshFixed (fixedThenMalloc 0x1001000) = some t ∧ ¬ t.Apart := by
  have hrun : (fixedMachine.exec freshFixed (fixedThenMalloc 0x1001000)).map
      (fun t => decide (t.ctx.regions.Pairwise Region.Apart)) = some false := by decide +kernel
  obtain ⟨t, hexec, hmeet⟩ := Option.map_eq_some_iff.mp hrun
  have hnot : ¬ t.ctx.regions.Pairwise Region.Apart := of_decide_eq_false hmeet
  exact ⟨start_freshFixed, t, hexec, hnot⟩

end Dsm
