import Dsm.Types
import Dsm.Library.FirstMatch

/-!
# The page table

The records of `dsm_page_table_t` and the scans of `dsm_memory.c` over them. The table is an array
that only grows, and every lookup is a scan for the first record with a page-aligned address.
-/

namespace Dsm

structure Page where
  globalAddr : Nat
  localAddr : Nat
  size : Nat
  state : PageState
  ownerId : NodeId
  version : Nat
  dirty : Bool
deriving DecidableEq, Repr

/-- `ctx->page_table`: `none` while it is `NULL`, else the records `pages[0..count)`. -/
abbrev PageTable := Option (List Page)

/-- `addr & ~(DSM_PAGE_SIZE - 1)`. -/
def pageBase (addr : Nat) : Nat := addr - addr % pageSize

/-- `((size + DSM_PAGE_SIZE - 1) / DSM_PAGE_SIZE) * DSM_PAGE_SIZE` on a `size_t`. -/
def roundUpPage (size : Nat) : Nat := (size + (pageSize - 1)) % 2 ^ 64 / pageSize * pageSize

/-- The record that `dsm_page_register` makes on node `node`. -/
def Page.new (node globalAddr localAddr ownerId : Nat) : Page :=
  { globalAddr := globalAddr
    localAddr := localAddr
    size := pageSize
    state := if ownerId = node then .modified else .invalid
    ownerId := ownerId
    version := 1
    dirty := false }

/-- `dsm_page_register` on node `node`. -/
def pageRegister (node : NodeId) (table : PageTable) (globalAddr localAddr ownerId : Nat) :
    Int × PageTable :=
  match table with
  | none => (-1, none)
  | some pages => (0, some (pages ++ [.new node globalAddr localAddr ownerId]))

def pageLookup (table : PageTable) (globalAddr : Nat) : Option Page :=
  table.bind fun pages => pages.find? (·.globalAddr == pageBase globalAddr)

def pageLookupLocal (table : PageTable) (localAddr : Nat) : Option Page :=
  table.bind fun pages => pages.find? (·.localAddr == pageBase localAddr)

/-- Assign to the record that `dsm_page_lookup` returns, if it returns one. -/
def pageUpdate (table : PageTable) (globalAddr : Nat) (f : Page → Page) : PageTable :=
  table.map fun pages => (pages.updateFirst (·.globalAddr == pageBase globalAddr) f).getD pages

@[simp] theorem pageBase_mod (addr : Nat) : pageBase addr % pageSize = 0 := by
  unfold pageBase pageSize
  omega

@[simp] theorem pageBase_pageBase (addr : Nat) : pageBase (pageBase addr) = pageBase addr := by
  rw [pageBase, pageBase_mod, Nat.sub_zero]

theorem pageBase_le (addr : Nat) : pageBase addr ≤ addr := Nat.sub_le _ _

theorem pageBase_add_eq_iff {base addr k : Nat} (hbase : pageSize ∣ base) :
    base + k * pageSize = pageBase addr ↔
      base + k * pageSize ≤ addr ∧ addr < base + (k + 1) * pageSize := by
  obtain ⟨b, rfl⟩ := hbase
  unfold pageBase pageSize
  omega

theorem dvd_roundUpPage (size : Nat) : pageSize ∣ roundUpPage size := ⟨_, Nat.mul_comm _ _⟩

theorem le_roundUpPage {size : Nat} (h : size + (pageSize - 1) < 2 ^ 64) : size ≤ roundUpPage size := by
  rw [roundUpPage, Nat.mod_eq_of_lt h]
  unfold pageSize
  omega

theorem roundUpPage_lt (size : Nat) : roundUpPage size < 2 ^ 64 := by
  unfold roundUpPage pageSize
  omega

theorem roundUpPage_of_dvd {size : Nat} (h : pageSize ∣ size) (hlt : size < 2 ^ 64) :
    roundUpPage size = size := by
  obtain ⟨k, rfl⟩ := h
  unfold roundUpPage pageSize at *
  omega

theorem roundUpPage_roundUpPage (size : Nat) : roundUpPage (roundUpPage size) = roundUpPage size :=
  roundUpPage_of_dvd (dvd_roundUpPage size) (roundUpPage_lt size)

/-! ### Lookups after an assignment -/

theorem pageUpdate_map {β : Type*} {v : Page → β} (table : PageTable) (g : Nat) {f : Page → Page}
    (hf : ∀ page, v (f page) = v page) :
    (pageUpdate table g f).map (·.map v) = table.map (·.map v) := by
  cases table with
  | none => rfl
  | some pages =>
      simp only [pageUpdate, Option.map_some, Option.some.injEq]
      cases hupdate : pages.updateFirst (·.globalAddr == pageBase g) f with
      | none => rfl
      | some pages' => exact List.map_updateFirst hf hupdate

theorem mem_pageUpdate {table : PageTable} {g : Nat} {f : Page → Page} {page : Page}
    (hpage : ∃ pages ∈ pageUpdate table g f, page ∈ pages) :
    ∃ pages ∈ table, page ∈ pages ∨ ∃ old ∈ pages, page = f old := by
  obtain ⟨pages', hpages', hmem⟩ := hpage
  obtain ⟨pages, rfl, rfl⟩ := Option.map_eq_some_iff.mp hpages'
  cases hupdate : pages.updateFirst (·.globalAddr == pageBase g) f with
  | none =>
      rw [hupdate] at hmem
      exact ⟨pages, rfl, .inl hmem⟩
  | some pages' =>
      rw [hupdate] at hmem
      exact ⟨pages, rfl, List.mem_of_mem_updateFirst hupdate hmem⟩

section

variable {f : Page → Page} (hf : ∀ page, (f page).globalAddr = page.globalAddr)
include hf

theorem pageLookup_pageUpdate_self (table : PageTable) {g g' : Nat} (h : pageBase g' = pageBase g) :
    pageLookup (pageUpdate table g f) g' = (pageLookup table g').map f := by
  cases table with
  | none => rfl
  | some pages =>
      simp only [pageUpdate, pageLookup, Option.map_some, Option.bind_some, h]
      cases hupdate : pages.updateFirst (·.globalAddr == pageBase g) f with
      | none =>
          rw [List.updateFirst_eq_none.mp hupdate]
          exact List.updateFirst_eq_none.mp hupdate
      | some pages' =>
          exact List.find?_updateFirst_self (fun page _ => by rw [hf]) hupdate

theorem pageLookup_pageUpdate_of_ne (table : PageTable) {g g' : Nat} (h : pageBase g' ≠ pageBase g) :
    pageLookup (pageUpdate table g f) g' = pageLookup table g' := by
  cases table with
  | none => rfl
  | some pages =>
      simp only [pageUpdate, pageLookup, Option.map_some, Option.bind_some]
      cases hupdate : pages.updateFirst (·.globalAddr == pageBase g) f with
      | none => rfl
      | some pages' =>
          refine List.find?_updateFirst_of_disjoint (fun page _ hpage => ?_) hupdate
          rw [beq_iff_eq] at hpage
          rw [hf, hpage]
          simp [h.symm]

end

end Dsm
