import Dsm.PageFault.FetchMachine

/-!
# Pages that any node may own

The fetching of pages with every way in which a node gets at a page. Besides the steps of the fetch
machine, any node registers pages as its own: with `dsm_malloc`, with `dsm_malloc_at`, or as its
region in `dsm_mem_init`. `dsm_map_remote` names the master as the owner of what it maps, so on the
master it registers a page as its own too. A page is registered once on a node.

A node only ever asks the owner that its own record names, which is itself or the master; so requests
go from workers to the master, and the master's faults end in their first critical section.
-/

namespace Dsm

/-- A page as `dsm_region_create` registers it on its owner; `dsm_malloc_at` then marks it. -/
def LocalPage.allocated (i : NodeId) (marked : Bool) : LocalPage :=
  { state := if marked then .shared else .modified, ownerId := i, version := 1, prot := .readWrite
    bytes := fun _ => 0 }

theorem LocalPage.allocated_eq (i : NodeId) (globalAddr localAddr : Nat) :
    LocalPage.allocated i false =
      .ofPage (.new i globalAddr localAddr i) .readWrite fun _ => 0 := by
  rw [LocalPage.ofPage, Page.new, if_pos rfl]
  rfl

inductive SharingAction where
  /-- A step of the fetch machine: the master's `dsm_malloc_at` and writes, `dsm_map_remote` and
  faults on the workers, requests, answers and installs. -/
  | fetch (a : FetchAction)
  /-- Node `i` registers a page of its own; `marked` where it does so by `dsm_malloc_at`. -/
  | alloc (i : NodeId) (addr : Nat) (marked : Bool)
  /-- `dsm_map_remote` on the master. -/
  | mapMaster (addr : Nat)
  /-- `dsm_page_fault_handle` on the master. -/
  | faultMaster (addr : Nat) (mprotectOk : Bool)
  /-- A worker gives a page of its own new content. -/
  | writeWorker (w : NodeId) (addr : Nat) (bytes : PageBytes)

namespace FetchState

/-- The record of a page on node `i`. -/
def pageOn (s : FetchState) (i : NodeId) (addr : Nat) : Option LocalPage :=
  if i = masterId then s.master addr else (s.worker i).pages addr

def setPageOn (s : FetchState) (i : NodeId) (addr : Nat) (p : LocalPage) : FetchState :=
  if i = masterId then { s with master := Function.update s.master addr (some p) }
  else s.setWorker i ((s.worker i).setPage addr p)

def sharingStep (cl : Cluster) (s : FetchState) : SharingAction → Option FetchState
  | .fetch a => s.step cl a
  | .alloc i addr marked =>
      if i ∈ cl.nodes ∧ pageSize ∣ addr ∧ (s.pageOn i addr).isNone then
        some (s.setPageOn i addr (.allocated i marked))
      else none
  | .mapMaster addr =>
      if pageSize ∣ addr ∧ (s.pageOn masterId addr).isNone then
        some (s.setPageOn masterId addr (.allocated masterId false))
      else none
  | .faultMaster addr mprotectOk =>
      match s.pageOn masterId (pageBase addr) with
      | none => none
      | some p => some (s.setPageOn masterId (pageBase addr) (p.onFault masterId mprotectOk).1)
  | .writeWorker w addr bytes =>
      match (s.worker w).pages addr with
      | none => none
      | some p =>
          if w ∈ cl.workers ∧ p.ownerId = w ∧ p.prot = .readWrite then
            some (s.setPageOn w addr { p with bytes := bytes })
          else none

@[simp] theorem pageOn_masterId (s : FetchState) (addr : Nat) :
    s.pageOn masterId addr = s.master addr := if_pos rfl

theorem pageOn_of_ne (s : FetchState) {i : NodeId} (h : i ≠ masterId) (addr : Nat) :
    s.pageOn i addr = (s.worker i).pages addr := if_neg h

@[simp] theorem setPageOn_pageOn_self (s : FetchState) (i : NodeId) (addr : Nat) (p : LocalPage) :
    (s.setPageOn i addr p).pageOn i addr = some p := by
  by_cases hi : i = masterId
  · simp [setPageOn, pageOn, hi]
  · simp [setPageOn, pageOn, hi]

theorem setPageOn_pageOn_of_ne (s : FetchState) {i j : NodeId} {addr a : Nat} (p : LocalPage)
    (h : j ≠ i ∨ a ≠ addr) : (s.setPageOn i addr p).pageOn j a = s.pageOn j a := by
  by_cases hi : i = masterId
  · subst hi
    by_cases hj : j = masterId
    · have ha : a ≠ addr := h.resolve_left (not_not_intro hj)
      simp [setPageOn, pageOn, hj, ha]
    · simp [setPageOn, pageOn, hj]
  · by_cases hj : j = masterId
    · simp [setPageOn, pageOn, hi, hj, setWorker]
    · by_cases hji : j = i
      · subst hji
        have ha : a ≠ addr := h.resolve_left (not_not_intro rfl)
        simp [setPageOn, pageOn, hi, ha]
      · simp [setPageOn, pageOn, hi, hj, hji]

end FetchState

def sharingMachine (cl : Cluster) : Machine FetchState SharingAction where
  start s := s = .initial
  step := FetchState.sharingStep cl

end Dsm
