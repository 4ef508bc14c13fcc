import Dsm.Memory.Mapping

/-!
# Allocations that fail part-way

`dsm_mem_alloc`, `dsm_malloc_at` and `dsm_map_remote` with every call inside them that can fail: the
`malloc` of the ownership entry, `mmap`, the `mprotect` of an own region, the `calloc` of the region,
for each page the `calloc` of its record and the `realloc` of the array, and the `mprotect` of
`dsm_malloc_at`. A failure takes back the mapping, but not what has been reserved before it, and the
registration of a page has no effect on the result (`AllocCall.all_or_nothing_iff`).

Where no entry and no record fails, these are the calls of `Dsm.Memory.Region` (`AllocCall.run_refines`).
-/

namespace Dsm

/-- What the system answers to the calls inside an allocation. -/
structure AllocEnv where
  /-- The `malloc` of the ownership entry. -/
  entryOk : Bool
  /-- The address that `mmap` returns for a positive length. -/
  mmap : Option Nat
  /-- The `mprotect` of `dsm_region_create`. -/
  protectOk : Bool
  /-- The `calloc` of the region. -/
  regionOk : Bool
  /-- The `calloc` of the record of page `i`. -/
  pageOk : Nat → Bool
  /-- The `realloc` of the array, if it is full when page `i` is registered. -/
  growOk : Nat → Bool
  /-- The `mprotect` of `dsm_malloc_at`. -/
  protectAtOk : Bool

/-- The bookkeeping of a node with the `capacity` of its page table. -/
structure AllocCtx where
  ctx : MemCtx
  capacity : Nat

/-- The region at the end of the list. -/
def AllocCtx.append (c : AllocCtx) (r : Region) : AllocCtx :=
  { c with ctx := { c.ctx with regions := c.ctx.regions ++ [r] } }

namespace AllocEnv

variable (env : AllocEnv)

/-- `mmap` fails for an empty mapping. -/
def mapping (length : Nat) : Option Nat := if length = 0 then none else env.mmap

/-- The address of a region of `ownerId` on node `node`, if `mmap`, the `mprotect` of an own region and
the `calloc` of the region all succeed. -/
def regionAddr (node ownerId : NodeId) (length : Nat) : Option Nat :=
  if ownerId = node ∧ !env.protectOk then none
  else if !env.regionOk then none
  else env.mapping length

def ownershipRegister (c : AllocCtx) (globalAddr size ownerId : Nat) : AllocCtx :=
  if env.entryOk then { c with ctx := c.ctx.registerOwnership globalAddr size ownerId } else c

/-- `dsm_page_register` for page `i` of the loop. -/
def pageRegister (c : AllocCtx) (i globalAddr localAddr ownerId : Nat) : Int × AllocCtx :=
  match c.ctx.pageTable with
  | none => (-1, c)
  | some pages =>
      if !env.pageOk i then (-1, c)
      else
        let pages' := pages ++ [.new c.ctx.localNodeId globalAddr localAddr ownerId]
        let ctx := { c.ctx with pageTable := some pages' }
        if pages.length < c.capacity then (0, { c with ctx := ctx })
        else if !env.growOk i then (-1, c)
        else (0, { ctx := ctx, capacity := c.capacity * 2 })

/-- The first `n` rounds of the loop of `dsm_region_create`. -/
def registerPages (c : AllocCtx) (r : Region) (n : Nat) : AllocCtx :=
  (List.range n).foldl
    (fun c i => (env.pageRegister c i ((r.globalBase + i * pageSize) % 2 ^ 64)
      (r.baseAddr + i * pageSize) r.ownerId).2) c

def regionCreate (c : AllocCtx) (size : Nat) (ownerId : NodeId) (globalBase : Nat) :
    Option Region × AllocCtx :=
  match env.mapping (roundUpPage size) with
  | none => (none, c)
  | some addr =>
      if ownerId = c.ctx.localNodeId ∧ !env.protectOk then (none, c)
      else if !env.regionOk then (none, c)
      else
        let region := .created size ownerId globalBase addr
        (some region, env.registerPages (c.append region) region region.pageCount)

def memAlloc (c : AllocCtx) (size : Nat) : Option Nat × AllocCtx :=
  if size = 0 then (none, c)
  else
    let alignedSize := roundUpPage size
    let globalAddr := c.ctx.nextGlobalAddr
    let c := { c with ctx := c.ctx.bump alignedSize }
    let c :=
      if c.ctx.localRole = .master then
        env.ownershipRegister c globalAddr alignedSize c.ctx.localNodeId
      else c
    let (region, c) := env.regionCreate c alignedSize c.ctx.localNodeId globalAddr
    (region.map (·.baseAddr), c)

def mallocAt (c : AllocCtx) (globalAddr size : Nat) : Option Nat × AllocCtx :=
  if size = 0 then (none, c)
  else
    let alignedSize := roundUpPage size
    let c := env.ownershipRegister c globalAddr alignedSize c.ctx.localNodeId
    match env.regionCreate c alignedSize c.ctx.localNodeId globalAddr with
    | (none, c) => (none, c)
    | (some region, c) =>
        if !env.protectAtOk then (none, c)
        else
          (some region.baseAddr,
            { c with ctx := c.ctx.markShared globalAddr (alignedSize / pageSize) })

def mapRemote (c : AllocCtx) (globalAddr size : Nat) : Option Nat × AllocCtx :=
  if size = 0 then (none, c)
  else
    let alignedSize := roundUpPage size
    let c := env.ownershipRegister c globalAddr alignedSize masterId
    let (region, c) := env.regionCreate c alignedSize masterId globalAddr
    (region.map (·.baseAddr), c)

/-- There is a page table, the `calloc` of record `i` succeeds, and so does the `realloc` if the array
is full. -/
def Registers (c : AllocCtx) (i : Nat) : Prop :=
  ∃ pages ∈ c.ctx.pageTable, env.pageOk i = true ∧ (pages.length < c.capacity ∨ env.growOk i = true)

/-- No `malloc` of an entry, `calloc` of a record or `realloc` of the array fails. -/
structure Records : Prop where
  entry : env.entryOk = true
  page : ∀ i, env.pageOk i = true
  grow : ∀ i, env.growOk i = true

end AllocEnv

/-- A call of one of the three allocating functions. -/
inductive AllocCall where
  | malloc (size : Nat)
  | mallocAt (globalAddr size : Nat)
  | mapRemote (globalAddr size : Nat)
deriving DecidableEq, Repr

/-- The table has a record with these two addresses. -/
def PageTable.Has (table : PageTable) (globalAddr localAddr : Nat) : Prop :=
  ∃ addrs ∈ table.map (·.map Page.addrs), (globalAddr, localAddr) ∈ addrs

namespace AllocCall

def run (env : AllocEnv) (c : AllocCtx) : AllocCall → Option Nat × AllocCtx
  | .malloc size => env.memAlloc c size
  | .mallocAt globalAddr size => env.mallocAt c globalAddr size
  | .mapRemote globalAddr size => env.mapRemote c globalAddr size

def size : AllocCall → Nat
  | .malloc size => size
  | .mallocAt _ size => size
  | .mapRemote _ size => size

/-- The global address of the range. -/
def base (c : AllocCtx) : AllocCall → Nat
  | .malloc _ => c.ctx.nextGlobalAddr
  | .mallocAt globalAddr _ => globalAddr
  | .mapRemote globalAddr _ => globalAddr

/-- The owner of the region. -/
def owner (c : AllocCtx) : AllocCall → NodeId
  | .malloc _ => c.ctx.localNodeId
  | .mallocAt _ _ => c.ctx.localNodeId
  | .mapRemote _ _ => masterId

/-- The region that the call creates at an address of `mmap`. -/
def region (c : AllocCtx) (a : AllocCall) (addr : Nat) : Region :=
  .created (roundUpPage a.size) (a.owner c) (a.base c) addr

/-- A call that returns `NULL` has changed nothing; a call that returns an address has its region in
the list, and every page of it in the page table. -/
structure AllOrNothing (env : AllocEnv) (c : AllocCtx) (a : AllocCall) : Prop where
  nothing : (a.run env c).1 = none → (a.run env c).2 = c
  all : ∀ addr, (a.run env c).1 = some addr →
    a.region c addr ∈ (a.run env c).2.ctx.regions ∧ ∀ i < (a.region c addr).pageCount,
      (a.run env c).2.ctx.pageTable.Has ((a.base c + i * pageSize) % 2 ^ 64) (addr + i * pageSize)

/-- What the call does before `dsm_region_create`. -/
def reserve (env : AllocEnv) (c : AllocCtx) (a : AllocCall) : AllocCtx :=
  match a with
  | .malloc size =>
      let c' := { c with ctx := c.ctx.bump (roundUpPage size) }
      if c.ctx.localRole = .master then
        env.ownershipRegister c' c.ctx.nextGlobalAddr (roundUpPage size) c.ctx.localNodeId
      else c'
  | .mallocAt globalAddr size =>
      env.ownershipRegister c globalAddr (roundUpPage size) c.ctx.localNodeId
  | .mapRemote globalAddr size => env.ownershipRegister c globalAddr (roundUpPage size) masterId

/-- The address of the region that the call creates, if it creates one. -/
def mapped (env : AllocEnv) (c : AllocCtx) (a : AllocCall) : Option Nat :=
  env.regionAddr c.ctx.localNodeId (a.owner c) (roundUpPage a.size)

/-- The loop that registers the pages begins here. -/
def listed (env : AllocEnv) (c : AllocCtx) (a : AllocCall) (addr : Nat) : AllocCtx :=
  (a.reserve env c).append (a.region c addr)

/-- The marks of `dsm_malloc_at`. -/
def finish (c : AllocCtx) : AllocCall → AllocCtx
  | .mallocAt globalAddr size =>
      { c with ctx := c.ctx.markShared globalAddr (roundUpPage size / pageSize) }
  | _ => c

/-- The last call that can fail. -/
def Opens (env : AllocEnv) : AllocCall → Prop
  | .mallocAt _ _ => env.protectAtOk = true
  | _ => True

instance (env : AllocEnv) : (a : AllocCall) → Decidable (a.Opens env)
  | .malloc _ => inferInstanceAs (Decidable True)
  | .mallocAt _ _ => inferInstanceAs (Decidable (_ = _))
  | .mapRemote _ _ => inferInstanceAs (Decidable True)

/-- What a call reserves does not show: a worker or a failed entry, and for `dsm_mem_alloc` a size
that is rounded up to nothing. -/
def ReservesNothing (env : AllocEnv) (c : AllocCtx) : AllocCall → Prop
  | .malloc size => roundUpPage size = 0 ∧ (c.ctx.localRole = .master → env.entryOk = false)
  | _ => env.entryOk = false

/-- The condition: nothing is asked for; or the region is not created, and nothing was reserved for
it; or it is created and opened, and for every page of it there is either a record already or the
registration does not fail. -/
def Completes (env : AllocEnv) (c : AllocCtx) (a : AllocCall) : Prop :=
  a.size = 0 ∨ match a.mapped env c with
    | none => a.ReservesNothing env c
    | some addr => a.Opens env ∧ ∀ i < (a.region c addr).pageCount,
        c.ctx.pageTable.Has ((a.base c + i * pageSize) % 2 ^ 64) (addr + i * pageSize) ∨
          env.Registers (env.registerPages (a.listed env c addr) (a.region c addr) i) i

end AllocCall

/-! ### The loop over the pages -/

theorem PageTable.has_append {pages : List Page} {page : Page} {g p : Nat} :
    PageTable.Has (some (pages ++ [page])) g p ↔
      PageTable.Has (some pages) g p ∨ page.addrs = (g, p) := by
  simp [PageTable.Has, eq_comm]

namespace AllocEnv

variable {env : AllocEnv}

theorem has_pageRegister (c : AllocCtx) (i globalAddr localAddr ownerId g p : Nat) :
    (env.pageRegister c i globalAddr localAddr ownerId).2.ctx.pageTable.Has g p ↔
      c.ctx.pageTable.Has g p ∨ env.Registers c i ∧ g = globalAddr ∧ p = localAddr := by
  cases htable : c.ctx.pageTable with
  | none =>
      simp [pageRegister, htable, Registers]
  | some pages =>
      have hnew : ∀ page : Page, page.addrs = (globalAddr, localAddr) →
          (PageTable.Has (some (pages ++ [page])) g p ↔
            PageTable.Has (some pages) g p ∨ g = globalAddr ∧ p = localAddr) := by
        intro page hpage
        rw [PageTable.has_append, hpage, Prod.mk.injEq, eq_comm, @eq_comm _ localAddr]
      cases hok : env.pageOk i with
      | false => simp [pageRegister, htable, hok, Registers]
      | true =>
          by_cases hroom : pages.length < c.capacity
          · simp only [pageRegister, htable, hok, Registers, hroom]
            simpa [hroom] using hnew (.new c.ctx.localNodeId globalAddr localAddr ownerId) rfl
          · cases hgrow : env.growOk i with
            | false => simp [pageRegister, htable, hok, hroom, hgrow, Registers]
            | true =>
                simp only [pageRegister, htable, hok, Registers, hroom, hgrow]
                simpa [hgrow] using hnew (.new c.ctx.localNodeId globalAddr localAddr ownerId) rfl

theorem pageRegister_regions (c : AllocCtx) (i globalAddr localAddr ownerId : Nat) :
    (env.pageRegister c i globalAddr localAddr ownerId).2.ctx.regions = c.ctx.regions := by
  rw [pageRegister]
  split
  · rfl
  · split_ifs <;> rfl

theorem registerPages_succ (c : AllocCtx) (r : Region) (n : Nat) :
    env.registerPages c r (n + 1) = (env.pageRegister (env.registerPages c r n) n
      ((r.globalBase + n * pageSize) % 2 ^ 64) (r.baseAddr + n * pageSize) r.ownerId).2 := by
  rw [registerPages, List.range_succ, List.foldl_append]
  rfl

theorem registerPages_regions (c : AllocCtx) (r : Region) (n : Nat) :
    (env.registerPages c r n).ctx.regions = c.ctx.regions := by
  induction n with
  | zero => rfl
  | succ n ih => rw [registerPages_succ, pageRegister_regions, ih]

/-- The records after the loop: the old ones, and those of the rounds that did not fail. -/
theorem has_registerPages (c : AllocCtx) (r : Region) (n g p : Nat) :
    (env.registerPages c r n).ctx.pageTable.Has g p ↔
      c.ctx.pageTable.Has g p ∨ ∃ i < n, env.Registers (env.registerPages c r i) i ∧
        g = (r.globalBase + i * pageSize) % 2 ^ 64 ∧ p = r.baseAddr + i * pageSize := by
  induction n with
  | zero => simp [registerPages]
  | succ n ih =>
      rw [registerPages_succ, has_pageRegister, ih, or_assoc]
      apply or_congr_right
      constructor
      · intro h
        rcases h with ⟨i, hi, hround⟩ | hround
        · exact ⟨i, Nat.lt_succ_of_lt hi, hround⟩
        · exact ⟨n, Nat.lt_succ_self n, hround⟩
      · intro h
        obtain ⟨i, hi, hround⟩ := h
        rcases Nat.lt_succ_iff_lt_or_eq.mp hi with hlt | rfl
        · exact .inl ⟨i, hlt, hround⟩
        · exact .inr hround

/-- The mappings of the pages differ, so a page has a record after the loop if it had one before or
its own round did not fail. -/
theorem has_page_registerPages (c : AllocCtx) (r : Region) {n i : Nat} (hi : i < n) :
    (env.registerPages c r n).ctx.pageTable.Has ((r.globalBase + i * pageSize) % 2 ^ 64)
        (r.baseAddr + i * pageSize) ↔
      c.ctx.pageTable.Has ((r.globalBase + i * pageSize) % 2 ^ 64) (r.baseAddr + i * pageSize) ∨
        env.Registers (env.registerPages c r i) i := by
  rw [has_registerPages]
  apply or_congr_right
  constructor
  · intro h
    obtain ⟨j, -, hround, -, hlocal⟩ := h
    obtain rfl : i = j := Nat.eq_of_mul_eq_mul_right (by decide) (Nat.add_left_cancel hlocal)
    exact hround
  · intro hround
    exact ⟨i, hi, hround, rfl, rfl⟩

@[simp] theorem ownershipRegister_localNodeId (c : AllocCtx) (globalAddr size ownerId : Nat) :
    (env.ownershipRegister c globalAddr size ownerId).ctx.localNodeId = c.ctx.localNodeId := by
  rw [ownershipRegister]
  split_ifs <;> rfl

theorem regionCreate_eq (c : AllocCtx) (size : Nat) (ownerId : NodeId) (globalBase : Nat) :
    env.regionCreate c (roundUpPage size) ownerId globalBase =
      match env.regionAddr c.ctx.localNodeId ownerId (roundUpPage size) with
      | none => (none, c)
      | some addr =>
          let r := Region.created (roundUpPage size) ownerId globalBase addr
          (some r, env.registerPages (c.append r) r r.pageCount) := by
  rw [regionCreate, roundUpPage_roundUpPage, regionAddr]
  by_cases hown : ownerId = c.ctx.localNodeId ∧ (!env.protectOk) = true
  · rw [if_pos hown]
    cases env.mapping (roundUpPage size) with
    | none => rfl
    | some addr => exact if_pos hown
  · rw [if_neg hown]
    cases hregion : env.regionOk with
    | false => cases env.mapping (roundUpPage size) <;> simp
    | true =>
        cases env.mapping (roundUpPage size) with
        | none => rfl
        | some addr => exact if_neg hown

end AllocEnv

namespace AllocCall

variable {env : AllocEnv} {c : AllocCtx} {a : AllocCall}

@[simp] theorem reserve_localNodeId : (a.reserve env c).ctx.localNodeId = c.ctx.localNodeId := by
  cases a with
  | malloc size =>
      rw [reserve]
      split_ifs <;> simp [MemCtx.bump]
  | mallocAt globalAddr size => simp [reserve]
  | mapRemote globalAddr size => simp [reserve]

/-- The three functions in one: the reservation, the region with its pages, and the end. -/
theorem run_eq (hsize : a.size ≠ 0) : a.run env c =
    match a.mapped env c with
    | none => (none, a.reserve env c)
    | some addr =>
        let c' := env.registerPages (a.listed env c addr) (a.region c addr)
          (a.region c addr).pageCount
        if a.Opens env then (some addr, a.finish c') else (none, c') := by
  cases a with
  | malloc n =>
      have hzero : n ≠ 0 := hsize
      have hnode : (c.ctx.bump (roundUpPage n)).localNodeId = c.ctx.localNodeId := rfl
      by_cases hrole : c.ctx.localRole = .master
      · have hbump : (c.ctx.bump (roundUpPage n)).localRole = .master := hrole
        simp only [run, AllocEnv.memAlloc, if_neg hzero, if_pos hbump, AllocEnv.regionCreate_eq, mapped,
          owner, size, AllocEnv.ownershipRegister_localNodeId, hnode]
        cases env.regionAddr c.ctx.localNodeId c.ctx.localNodeId (roundUpPage n) with
        | none => simp [reserve, hrole]
        | some addr => simp [Opens, listed, reserve, hrole, region, size, owner, base, finish, Region.created]
      · have hbump : (c.ctx.bump (roundUpPage n)).localRole ≠ .master := hrole
        simp only [run, AllocEnv.memAlloc, if_neg hzero, if_neg hbump, AllocEnv.regionCreate_eq, mapped,
          owner, size, hnode]
        cases env.regionAddr c.ctx.localNodeId c.ctx.localNodeId (roundUpPage n) with
        | none => simp [reserve, hrole]
        | some addr => simp [Opens, listed, reserve, hrole, region, size, owner, base, finish, Region.created]
  | mallocAt globalAddr n =>
      have hzero : n ≠ 0 := hsize
      simp only [run, AllocEnv.mallocAt, if_neg hzero, AllocEnv.regionCreate_eq, mapped, owner, size,
        AllocEnv.ownershipRegister_localNodeId]
      cases env.regionAddr c.ctx.localNodeId c.ctx.localNodeId (roundUpPage n) with
      | none => rfl
      | some addr =>
          cases hopen : env.protectAtOk with
          | false => simp [Opens, hopen, listed, reserve, region, size, owner, base]
          | true => simp [Opens, hopen, listed, reserve, region, size, owner, base, finish, Region.created]
  | mapRemote globalAddr n =>
      have hzero : n ≠ 0 := hsize
      simp only [run, AllocEnv.mapRemote, if_neg hzero, AllocEnv.regionCreate_eq, mapped, owner, size,
        AllocEnv.ownershipRegister_localNodeId]
      cases env.regionAddr c.ctx.localNodeId masterId (roundUpPage n) with
      | none => rfl
      | some addr => rfl

/-! ### When nothing was reserved -/

theorem ownership_registerOwnership_ne (ctx : MemCtx) (globalAddr size ownerId : Nat) :
    (ctx.registerOwnership globalAddr size ownerId).ownership ≠ ctx.ownership := by
  intro heq
  have hchain := congrArg (fun table => (table (ownershipHash globalAddr)).length) heq
  simp [MemCtx.registerOwnership, ownershipRegister] at hchain

theorem ownershipRegister_eq_iff (c : AllocCtx) (globalAddr size ownerId : Nat) :
    env.ownershipRegister c globalAddr size ownerId = c ↔ env.entryOk = false := by
  cases hentry : env.entryOk with
  | false => simp [AllocEnv.ownershipRegister, hentry]
  | true =>
      rw [AllocEnv.ownershipRegister, if_pos hentry]
      constructor
      · intro heq
        exact absurd (congrArg (·.ctx.ownership) heq) (ownership_registerOwnership_ne _ _ _ _)
      · intro hfalse
        cases hfalse

theorem bump_eq_iff {ctx : MemCtx} (hnext : ctx.nextGlobalAddr < 2 ^ 64) {size : Nat} :
    ctx.bump (roundUpPage size) = ctx ↔ roundUpPage size = 0 := by
  have hsize := roundUpPage_lt size
  constructor
  · intro heq
    have hsame : (ctx.nextGlobalAddr + roundUpPage size) % 2 ^ 64 = ctx.nextGlobalAddr :=
      congrArg MemCtx.nextGlobalAddr heq
    omega
  · intro hzero
    rw [MemCtx.bump, hzero, Nat.add_zero, Nat.mod_eq_of_lt hnext]

theorem reserve_eq_iff (hnext : c.ctx.nextGlobalAddr < 2 ^ 64) :
    a.reserve env c = c ↔ a.ReservesNothing env c := by
  cases a with
  | mallocAt globalAddr n => exact ownershipRegister_eq_iff c _ _ _
  | mapRemote globalAddr n => exact ownershipRegister_eq_iff c _ _ _
  | malloc n =>
      have hbump : ({ c with ctx := c.ctx.bump (roundUpPage n) } : AllocCtx) = c ↔
          roundUpPage n = 0 := by
        rw [← bump_eq_iff hnext]
        exact ⟨congrArg AllocCtx.ctx, fun heq => congrArg (AllocCtx.mk · c.capacity) heq⟩
      by_cases hrole : c.ctx.localRole = .master
      · cases hentry : env.entryOk with
        | false => simpa [reserve, hrole, AllocEnv.ownershipRegister, hentry, ReservesNothing]
            using hbump
        | true =>
            simp only [reserve, if_pos hrole, AllocEnv.ownershipRegister, hentry, if_true,
              ReservesNothing]
            constructor
            · intro heq
              exact absurd (congrArg (·.ctx.ownership) heq) (ownership_registerOwnership_ne _ _ _ _)
            · intro hnone
              cases hnone.2 hrole
      · simpa [reserve, hrole, ReservesNothing] using hbump

/-! ### The three functions are all or nothing -/

theorem run_zero (hsize : a.size = 0) : a.run env c = (none, c) := by
  cases a with
  | malloc n => exact if_pos hsize
  | mallocAt globalAddr n => exact if_pos hsize
  | mapRemote globalAddr n => exact if_pos hsize

theorem reserve_frame : (a.reserve env c).ctx.regions = c.ctx.regions ∧
    (a.reserve env c).ctx.pageTable = c.ctx.pageTable := by
  have hregister : ∀ (c : AllocCtx) (globalAddr size ownerId : Nat),
      (env.ownershipRegister c globalAddr size ownerId).ctx.regions = c.ctx.regions ∧
        (env.ownershipRegister c globalAddr size ownerId).ctx.pageTable = c.ctx.pageTable := by
    intro c globalAddr size ownerId
    rw [AllocEnv.ownershipRegister]
    split_ifs
    · exact ⟨rfl, rfl⟩
    · exact ⟨rfl, rfl⟩
  cases a with
  | malloc n =>
      rw [reserve]
      split_ifs
      · exact hregister _ _ _ _
      · exact ⟨rfl, rfl⟩
  | mallocAt globalAddr n => exact hregister c _ _ _
  | mapRemote globalAddr n => exact hregister c _ _ _

theorem finish_frame (c : AllocCtx) : (a.finish c).ctx.regions = c.ctx.regions ∧
    ∀ g p, (a.finish c).ctx.pageTable.Has g p ↔ c.ctx.pageTable.Has g p := by
  cases a with
  | malloc n => exact ⟨rfl, fun _ _ => Iff.rfl⟩
  | mapRemote globalAddr n => exact ⟨rfl, fun _ _ => Iff.rfl⟩
  | mallocAt globalAddr n =>
      obtain ⟨hregions, -, htable⟩ := c.ctx.markShared_spec globalAddr (roundUpPage n / pageSize)
      refine ⟨hregions, fun g p => ?_⟩
      simp only [PageTable.Has, finish, htable]

theorem listed_regions (addr : Nat) :
    (a.listed env c addr).ctx.regions = c.ctx.regions ++ [a.region c addr] := by
  rw [← (@reserve_frame env c a).1]
  rfl

theorem mem_regions_finish {addr n : Nat} : a.region c addr ∈
    (a.finish (env.registerPages (a.listed env c addr) (a.region c addr) n)).ctx.regions := by
  rw [(finish_frame _).1, AllocEnv.registerPages_regions, listed_regions]
  exact List.mem_append_right _ (List.mem_singleton_self _)

theorem has_page_finish {addr n i : Nat} (hi : i < n) :
    (a.finish (env.registerPages (a.listed env c addr) (a.region c addr) n)).ctx.pageTable.Has
        ((a.base c + i * pageSize) % 2 ^ 64) (addr + i * pageSize) ↔
      c.ctx.pageTable.Has ((a.base c + i * pageSize) % 2 ^ 64) (addr + i * pageSize) ∨
        env.Registers (env.registerPages (a.listed env c addr) (a.region c addr) i) i := by
  rw [(finish_frame _).2, ← (@reserve_frame env c a).2]
  exact AllocEnv.has_page_registerPages (a.listed env c addr) (a.region c addr) hi

/-- For any answers of the system: the call is all or nothing exactly if it completes, or fails before
anything that shows was reserved. -/
theorem all_or_nothing_iff (env : AllocEnv) {c : AllocCtx} (a : AllocCall)
    (hnext : c.ctx.nextGlobalAddr < 2 ^ 64) : a.AllOrNothing env c ↔ a.Completes env c := by
  by_cases hsize : a.size = 0
  · refine iff_of_true ⟨?_, ?_⟩ (.inl hsize)
    · rw [run_zero hsize]
      exact fun _ => rfl
    · rw [run_zero hsize]
      intro addr hnull
      cases hnull
  · have hrun := @run_eq env c a hsize
    rw [Completes, or_iff_right hsize]
    cases hmapped : a.mapped env c with
    | none =>
        rw [hmapped] at hrun
        dsimp only at hrun ⊢
        rw [← reserve_eq_iff hnext]
        constructor
        · intro h
          have hsame := h.nothing (by rw [hrun])
          rwa [hrun] at hsame
        · intro hsame
          refine ⟨fun _ => by rw [hrun, hsame], fun addr hnull => ?_⟩
          rw [hrun] at hnull
          cases hnull
    | some addr =>
        rw [hmapped] at hrun
        dsimp only at hrun ⊢
        by_cases hopens : a.Opens env
        · rw [if_pos hopens] at hrun
          rw [and_iff_right hopens]
          constructor
          · intro h i hi
            obtain ⟨-, hpages⟩ := h.all addr (by rw [hrun])
            rw [hrun] at hpages
            exact (has_page_finish hi).mp (hpages i hi)
          · intro hpages
            refine ⟨fun hnull => ?_, fun addr' haddr => ?_⟩
            · rw [hrun] at hnull
              cases hnull
            · rw [hrun] at haddr ⊢
              cases haddr
              exact ⟨mem_regions_finish, fun i hi => (has_page_finish hi).mpr (hpages i hi)⟩
        · rw [if_neg hopens] at hrun
          refine iff_of_false (fun h => ?_) (fun h => hopens h.1)
          have hsame := h.nothing (by rw [hrun])
          rw [hrun] at hsame
          have hlength := congrArg (·.ctx.regions.length) hsame
          simp [AllocEnv.registerPages_regions, listed_regions] at hlength

/-! ### Without a failed entry or record -/

theorem pageRegister_ctx (h : env.Records) (c : AllocCtx) (i globalAddr localAddr ownerId : Nat) :
    (env.pageRegister c i globalAddr localAddr ownerId).2.ctx = { c.ctx with
      pageTable := (pageRegister c.ctx.localNodeId c.ctx.pageTable globalAddr localAddr ownerId).2 } := by
  have hpage : (!env.pageOk i) = false := by rw [h.page]; rfl
  have hgrow : (!env.growOk i) = false := by rw [h.grow]; rfl
  cases htable : c.ctx.pageTable with
  | none =>
      simp only [AllocEnv.pageRegister, htable, pageRegister]
      rw [← htable]
  | some pages =>
      by_cases hroom : pages.length < c.capacity
      · simp [AllocEnv.pageRegister, htable, pageRegister, hpage, hroom]
      · simp [AllocEnv.pageRegister, htable, pageRegister, hpage, hroom, hgrow]

theorem registerPages_ctx (h : env.Records) (c : AllocCtx) (r : Region) :
    (env.registerPages c r r.pageCount).ctx = c.ctx.registerPages r := by
  rw [MemCtx.registerPages]
  induction r.pageCount with
  | zero => rfl
  | succ n ih =>
      rw [AllocEnv.registerPages_succ, pageRegister_ctx h, ih, List.range_succ, List.foldl_append]
      rfl

theorem regionCreate_ctx (h : env.Records) (c : AllocCtx) (size : Nat) (ownerId : NodeId)
    (globalBase : Nat) :
    ((env.regionCreate c (roundUpPage size) ownerId globalBase).1,
        (env.regionCreate c (roundUpPage size) ownerId globalBase).2.ctx) =
      c.ctx.regionCreate (roundUpPage size) ownerId globalBase
        (env.regionAddr c.ctx.localNodeId ownerId (roundUpPage size)) := by
  rw [AllocEnv.regionCreate_eq]
  cases env.regionAddr c.ctx.localNodeId ownerId (roundUpPage size) with
  | none => rfl
  | some addr =>
      simp only [registerPages_ctx h]
      rfl

theorem ownershipRegister_ctx (h : env.Records) (c : AllocCtx) (globalAddr size ownerId : Nat) :
    env.ownershipRegister c globalAddr size ownerId =
      { c with ctx := c.ctx.registerOwnership globalAddr size ownerId } := if_pos h.entry

theorem run_refines (h : env.Records) : ((a.run env c).1, (a.run env c).2.ctx) =
    match a with
    | .malloc n => c.ctx.memAlloc n (a.mapped env c)
    | .mallocAt globalAddr n => c.ctx.mallocAt globalAddr n (a.mapped env c) env.protectAtOk
    | .mapRemote globalAddr n => c.ctx.mapRemote globalAddr n (a.mapped env c) := by
  by_cases hsize : a.size = 0
  · rw [run_zero hsize]
    cases a with
    | malloc n => exact (if_pos hsize).symm
    | mallocAt globalAddr n => exact (if_pos hsize).symm
    | mapRemote globalAddr n => exact (if_pos hsize).symm
  · cases a with
    | malloc n =>
        have hzero : n ≠ 0 := hsize
        have hcreate := regionCreate_ctx h (reserve env c (.malloc n)) n c.ctx.localNodeId
          c.ctx.nextGlobalAddr
        rw [reserve_localNodeId] at hcreate
        simp only [run, AllocEnv.memAlloc, MemCtx.memAlloc, if_neg hzero, mapped, owner, size]
        have hrole : (c.ctx.bump (roundUpPage n)).localRole = c.ctx.localRole := rfl
        simp only [reserve, ownershipRegister_ctx h] at hcreate
        simp only [hrole, ownershipRegister_ctx h]
        by_cases hmaster : c.ctx.localRole = .master
        · simp only [if_pos hmaster] at hcreate ⊢
          exact congrArg (fun result => (result.1.map (·.baseAddr), result.2)) hcreate
        · simp only [if_neg hmaster] at hcreate ⊢
          exact congrArg (fun result => (result.1.map (·.baseAddr), result.2)) hcreate
    | mallocAt globalAddr n =>
        have hzero : n ≠ 0 := hsize
        have hcreate := regionCreate_ctx h
          (env.ownershipRegister c globalAddr (roundUpPage n) c.ctx.localNodeId) n c.ctx.localNodeId
          globalAddr
        rw [AllocEnv.ownershipRegister_localNodeId] at hcreate
        have hnode : (c.ctx.registerOwnership globalAddr (roundUpPage n) c.ctx.localNodeId).localNodeId =
            c.ctx.localNodeId := rfl
        simp only [run, AllocEnv.mallocAt, MemCtx.mallocAt, if_neg hzero, mapped, owner, size,
          ownershipRegister_ctx h, hnode] at hcreate ⊢
        rw [← hcreate]
        generalize env.regionCreate _ _ _ _ = result
        obtain ⟨region, c'⟩ := result
        cases region with
        | none => rfl
        | some r => cases env.protectAtOk <;> rfl
    | mapRemote globalAddr n =>
        have hzero : n ≠ 0 := hsize
        have hcreate := regionCreate_ctx h (env.ownershipRegister c globalAddr (roundUpPage n) masterId)
          n masterId globalAddr
        rw [AllocEnv.ownershipRegister_localNodeId] at hcreate
        simp only [run, AllocEnv.mapRemote, MemCtx.mapRemote, if_neg hzero, mapped, owner, size]
        rw [ownershipRegister_ctx h] at hcreate ⊢
        dsimp only at hcreate ⊢
        rw [← hcreate]

/-- The master after `dsm_mem_init`. -/
private def freshAlloc : AllocCtx := { ctx := freshMaster, capacity := 1024 }

/-- Nothing fails, and `mmap` returns `0x20000`. -/
private def allOk : AllocEnv :=
  { entryOk := true, mmap := some 0x20000, protectOk := true, regionOk := true
    pageOk := fun _ => true, growOk := fun _ => true, protectAtOk := true }

theorem all_or_nothing_iff_malloc : (malloc 8192).AllOrNothing allOk freshAlloc := by
  apply (all_or_nothing_iff allOk (malloc 8192) (by decide +kernel)).mpr
  have hmapped : (malloc 8192).mapped allOk freshAlloc = some 0x20000 := by decide +kernel
  rw [Completes, hmapped]
  refine .inr ⟨trivial, fun i hi => .inr ?_⟩
  have hcount : ((malloc 8192).region freshAlloc 0x20000).pageCount = 2 := by decide +kernel
  rw [hcount] at hi
  let before := fun j => allOk.registerPages ((malloc 8192).listed allOk freshAlloc 0x20000)
    ((malloc 8192).region freshAlloc 0x20000) j
  have hroom : ∀ j < 2, ((before j).ctx.pageTable.map fun pages =>
      decide (pages.length < (before j).capacity)) = some true := by decide +kernel
  obtain ⟨pages, hpages, hlt⟩ := Option.map_eq_some_iff.mp (hroom i hi)
  exact ⟨pages, hpages, rfl, .inl (of_decide_eq_true hlt)⟩

/-- A `dsm_malloc` for which `mmap` fails keeps its addresses, and one for which the `calloc` of a
record fails returns a region with a page that is not registered. -/
theorem not_all_or_nothing : MappingStart freshAlloc.ctx ∧
    ¬ (malloc 4096).AllOrNothing { allOk with mmap := none } freshAlloc ∧
    ¬ (malloc 4096).AllOrNothing { allOk with pageOk := fun _ => false } freshAlloc := by
  refine ⟨mappingStart_freshMaster, ?_, ?_⟩
  · intro h
    have hnull : ((malloc 4096).run { allOk with mmap := none } freshAlloc).1 = none := by
      decide +kernel
    have hnext : ((malloc 4096).run { allOk with mmap := none } freshAlloc).2.ctx.nextGlobalAddr ≠
        freshAlloc.ctx.nextGlobalAddr := by decide +kernel
    exact hnext (congrArg (·.ctx.nextGlobalAddr) (h.nothing hnull))
  · intro h
    have haddr : ((malloc 4096).run { allOk with pageOk := fun _ => false } freshAlloc).1 =
        some 0x20000 := by decide +kernel
    have htable : ((malloc 4096).run { allOk with pageOk := fun _ => false }
        freshAlloc).2.ctx.pageTable.map (·.map Page.addrs) = some [(0x1000000, 0x10000)] := by
      decide +kernel
    obtain ⟨addrs, haddrs, hmem⟩ := (h.all 0x20000 haddr).2 0 (by decide +kernel)
    rw [htable] at haddrs
    cases haddrs
    exact absurd hmem (by decide +kernel)

end AllocCall

end Dsm
