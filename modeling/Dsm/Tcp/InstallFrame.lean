import Dsm.Tcp.NodeMachine
import Dsm.Memory.PageRange

/-!
# What the installation of a page touches

`dsm_page_install` opens one page of 4096 bytes and then copies as many bytes as the message says. It
looks the page up by the page of the address, so the copy starts at the beginning of a page, and it
leaves the page exactly if it is longer than one. Behind the page lies whatever the process has mapped
there; a copy that meets memory which is not writable does not get to its end (`install_frame_iff`).
-/

namespace Dsm

/-- The record whose page `dsm_page_install` copies to. -/
def NodeMem.installTarget (m : NodeMem) (globalAddr : Nat) (writeOk : Bool) : Option Page :=
  match pageLookup m.ctx.pageTable globalAddr with
  | none => none
  | some page => if page.localAddr = 0 ∨ writeOk = false then none else some page

/-- The record whose page the handling of a message copies to. -/
def NodeCtx.copyTarget (c : NodeCtx) (r : Received) : Option Page :=
  if 20 ≤ r.len then c.mem.installTarget (r.field 0 8) r.writeOk else none

/-- The tables have the same records, except for the one that a lookup of the address finds. -/
def PageTable.SameBut (table table' : PageTable) (globalAddr : Nat) : Prop :=
  (table = none → table' = none) ∧
    ∀ pages ∈ table, ∃ pages' ∈ table', pages'.length = pages.length ∧
      ∀ i, i ≠ pages.findIdx (·.globalAddr == pageBase globalAddr) → pages'[i]? = pages[i]?

/-- `PAGE_DATA` is handled to its end, and what changes is in the page that is registered for its
address, and in the record of that page. -/
structure NodeCtx.InstallsOnly (c : NodeCtx) (r : Received) : Prop where
  /-- The copy meets only memory that is writable once the page is opened. -/
  ends : ∀ page ∈ c.copyTarget r, ∀ i < r.field 8 4,
    (c.mem.protect page.localAddr pageSize .readWrite).prot (page.localAddr + i) = .readWrite
  bytes : ∀ a, (∀ page ∈ pageLookup c.mem.ctx.pageTable (r.field 0 8),
    ¬ InRange page.localAddr pageSize a) → (c.handleMessage r).ctx.mem.bytes a = c.mem.bytes a
  records : PageTable.SameBut c.mem.ctx.pageTable (c.handleMessage r).ctx.mem.ctx.pageTable
    (r.field 0 8)

/-- The message has at most a page of data, or nothing is copied, or every further byte goes to
writable memory that has its value already. -/
def Received.StaysInPage (r : Received) (c : NodeCtx) : Prop :=
  r.field 8 4 ≤ pageSize ∨ ∀ page ∈ c.copyTarget r, ∀ i, pageSize ≤ i → i < r.field 8 4 →
    c.mem.prot (page.localAddr + i) = .readWrite ∧
      r.byte (20 + i) = c.mem.bytes (page.localAddr + i)

/-! ### The records -/

theorem PageTable.SameBut.refl (table : PageTable) (globalAddr : Nat) :
    table.SameBut table globalAddr :=
  ⟨id, fun pages hpages => ⟨pages, hpages, rfl, fun _ _ => rfl⟩⟩

/-- An assignment to the record of an address leaves the records at all other indices alone. -/
theorem PageTable.sameBut_pageUpdate (table : PageTable) (globalAddr : Nat) (f : Page → Page) :
    table.SameBut (pageUpdate table globalAddr f) globalAddr := by
  cases table with
  | none => exact ⟨fun _ => rfl, nofun⟩
  | some pages =>
      have hkeep : ((pages.updateFirst (·.globalAddr == pageBase globalAddr) f).getD pages).length =
          pages.length ∧ ∀ i, i ≠ pages.findIdx (·.globalAddr == pageBase globalAddr) →
            ((pages.updateFirst (·.globalAddr == pageBase globalAddr) f).getD pages)[i]? =
              pages[i]? := by
        cases hupdate : pages.updateFirst (·.globalAddr == pageBase globalAddr) f with
        | none => exact ⟨rfl, fun _ _ => rfl⟩
        | some pages' =>
            exact ⟨List.length_updateFirst hupdate, fun i hi =>
              List.getElem?_updateFirst_of_ne hi hupdate⟩
      refine ⟨nofun, fun pages' hpages => ⟨_, rfl, ?_⟩⟩
      cases hpages
      exact hkeep

/-! ### The bytes -/

namespace NodeMem

variable (m : NodeMem) (globalAddr : Nat) (data : Nat → UInt8) (size version : Nat)
  (writeOk readOk : Bool)

omit globalAddr version writeOk readOk in
theorem store_bytes_add (addr : Nat) {i : Nat} (hi : i < size) :
    (m.store addr data size).bytes (addr + i) = data i := by
  refine (if_pos ⟨Nat.le_add_right _ _, Nat.add_lt_add_left hi _⟩).trans ?_
  rw [Nat.add_sub_cancel_left]

theorem sameBut_pageInstall : PageTable.SameBut m.ctx.pageTable
    (m.pageInstall globalAddr data size version writeOk readOk).2.ctx.pageTable globalAddr := by
  rw [pageInstall]
  split
  · exact .refl _ globalAddr
  · split_ifs
    · exact PageTable.sameBut_pageUpdate _ _ _
    · exact .refl _ globalAddr
    · exact .refl _ globalAddr
    · exact PageTable.sameBut_pageUpdate _ _ _

theorem installTarget_eq_some {page : Page} : m.installTarget globalAddr writeOk = some page ↔
    pageLookup m.ctx.pageTable globalAddr = some page ∧ page.localAddr ≠ 0 ∧ writeOk = true := by
  rw [installTarget]
  cases pageLookup m.ctx.pageTable globalAddr with
  | none => simp
  | some found =>
      simp only [Option.ite_none_left_eq_some, Option.some.injEq, not_or, Bool.not_eq_false]
      constructor
      · rintro ⟨hopened, rfl⟩
        exact ⟨rfl, hopened⟩
      · rintro ⟨rfl, hopened⟩
        exact ⟨hopened, rfl⟩

theorem pageInstall_bytes :
    (m.pageInstall globalAddr data size version writeOk readOk).2.bytes =
      (m.installTarget globalAddr writeOk).elim m.bytes
        fun page => (m.store page.localAddr data size).bytes := by
  rw [pageInstall, installTarget]
  cases pageLookup m.ctx.pageTable globalAddr with
  | none => rfl
  | some page =>
      by_cases hnull : page.localAddr = 0
      · simp [hnull, markInstalled, updatePage, setPageTable]
      · cases writeOk with
        | false => simp [hnull]
        | true => cases readOk <;> simp [hnull, markInstalled, updatePage, setPageTable, store, protect]

end NodeMem

namespace NodeCtx

variable (c : NodeCtx) {r : Received} (htype : r.type = some .pageData)
include htype

theorem handlePageData_bytes : (c.handleMessage r).ctx.mem.bytes =
    (c.copyTarget r).elim c.mem.bytes fun page =>
      (c.mem.store page.localAddr (fun i => r.byte (20 + i)) (r.field 8 4)).bytes := by
  rw [handleMessage, htype]
  by_cases hlen : 20 ≤ r.len
  · simpa [handlePageData, copyTarget, hlen] using c.mem.pageInstall_bytes (r.field 0 8)
      (fun i => r.byte (20 + i)) (r.field 8 4) (r.field 12 8) r.writeOk r.readOk
  · simp [handlePageData, copyTarget, hlen, keep]

theorem handlePageData_records : PageTable.SameBut c.mem.ctx.pageTable
    (c.handleMessage r).ctx.mem.ctx.pageTable (r.field 0 8) := by
  rw [handleMessage, htype]
  by_cases hlen : 20 ≤ r.len
  · simpa [handlePageData, hlen] using c.mem.sameBut_pageInstall (r.field 0 8)
      (fun i => r.byte (20 + i)) (r.field 8 4) (r.field 12 8) r.writeOk r.readOk
  · simpa [handlePageData, hlen, keep] using PageTable.SameBut.refl _ _

omit htype in
theorem pageLookup_of_copyTarget {page : Page} (h : c.copyTarget r = some page) :
    pageLookup c.mem.ctx.pageTable (r.field 0 8) = some page := by
  rw [copyTarget, Option.ite_none_right_eq_some] at h
  exact ((c.mem.installTarget_eq_some _ _).mp h.2).1

end NodeCtx

/-- In every state and for every `PAGE_DATA`, whatever its address, its size, its version and its
payload: the message is handled within the page that is registered for its address exactly if it has at
most a page of data, or the copy is not made, or the bytes behind the page are writable and have the
values that are copied to them. -/
theorem install_frame_iff (c : NodeCtx) {r : Received} (htype : r.type = some .pageData) :
    c.InstallsOnly r ↔ r.StaysInPage c := by
  have hbytes := c.handlePageData_bytes htype
  cases htarget : c.copyTarget r with
  | none =>
      rw [htarget] at hbytes
      refine iff_of_true ⟨?_, fun a _ => congrFun hbytes a, c.handlePageData_records htype⟩ (.inr ?_)
      · simp [htarget]
      · simp [htarget]
  | some page =>
      rw [htarget] at hbytes
      have hlookup := c.pageLookup_of_copyTarget htarget
      constructor
      · intro honly
        by_cases hsize : r.field 8 4 ≤ pageSize
        · exact .inl hsize
        · refine .inr fun page' hpage' i hle hlt => ?_
          obtain rfl := Option.some.inj (htarget.symm.trans hpage')
          have hout : ¬ InRange page.localAddr pageSize (page.localAddr + i) := by
            unfold InRange
            omega
          have hsame := honly.bytes (page.localAddr + i) fun page' hpage' => by
            obtain rfl := Option.some.inj (hlookup.symm.trans hpage')
            exact hout
          rw [hbytes] at hsame
          have hprot := honly.ends page htarget i hlt
          refine ⟨(if_neg hout).symm.trans hprot, ?_⟩
          have hstored := c.mem.store_bytes_add (fun i => r.byte (20 + i)) _ page.localAddr hlt
          exact hstored.symm.trans hsame
      · intro hstays
        refine ⟨fun page' hpage' i hi => ?_, fun a ha => ?_, c.handlePageData_records htype⟩
        · obtain rfl := Option.some.inj (htarget.symm.trans hpage')
          by_cases hin : i < pageSize
          · exact if_pos ⟨Nat.le_add_right _ _, Nat.add_lt_add_left hin _⟩
          · refine (if_neg ?_).trans (hstays.resolve_left ?_ page htarget i (Nat.not_lt.mp hin) hi).1
            · omega
            · omega
        · rw [hbytes]
          by_cases hcopied : InRange page.localAddr (r.field 8 4) a
          · obtain ⟨i, rfl⟩ := Nat.exists_eq_add_of_le hcopied.1
            have hi : i < r.field 8 4 := Nat.lt_of_add_lt_add_left hcopied.2
            have hout : ¬ i < pageSize := fun hlt =>
              ha page hlookup ⟨Nat.le_add_right _ _, Nat.add_lt_add_left hlt _⟩
            refine (c.mem.store_bytes_add _ _ page.localAddr hi).trans ?_
            exact (hstays.resolve_left (by omega) page htarget i (Nat.not_lt.mp hout) hi).2
          · exact if_neg hcopied

/-- `PAGE_DATA` from node 2 with `size` bytes, all of them 7. -/
def sevens (globalAddr size : Nat) (h : size < 2 ^ 31) : Received :=
  receivedFrom2 .pageData
    (Bytes.le globalAddr 8 ++ Bytes.le size 4 ++ Bytes.le 2 8 ++ List.replicate size 7)
    (by simp only [List.length_append, Bytes.length_le, List.length_replicate]; omega)

theorem install_frame_iff_small : masterCtx.InstallsOnly (sevens 0x1000000 4 (by decide)) :=
  (install_frame_iff masterCtx rfl).mpr (.inl (by decide +kernel))

/-- The master after it has allocated two pages. -/
def twoPages : NodeCtx :=
  { masterCtx with mem := masterCtx.mem.call (.malloc 8192 (some 0x20000)) }

theorem reachable_twoPages : nodeMachine.Reachable twoPages := by
  have hmapped : ∀ r ∈ MappingAction.creates masterCtx.mem.ctx (.malloc 8192 (some 0x20000)),
      r.Mapped masterCtx.mem.ctx := by decide +kernel
  exact (Machine.Reachable.start nodeStart_masterCtx).step (.memory (.malloc 8192 (some 0x20000)))
    (if_pos hmapped)

/-- One byte more than a page goes to the next page, which is another one of the same region. -/
theorem install_not_framed : nodeMachine.Reachable twoPages ∧
    (sevens 0x1001000 4097 (by decide)).len = 20 + 4097 ∧
    (pageLookup twoPages.mem.ctx.pageTable 0x1001000).map Page.addrs = some (0x1001000, 0x20000) ∧
    (pageLookup twoPages.mem.ctx.pageTable 0x1002000).map Page.addrs = some (0x1002000, 0x21000) ∧
    twoPages.mem.bytes 0x21000 = 0 ∧
    (twoPages.handleMessage (sevens 0x1001000 4097 (by decide))).ctx.mem.bytes 0x21000 = 7 ∧
    ¬ twoPages.InstallsOnly (sevens 0x1001000 4097 (by decide)) := by
  have hfirst : (pageLookup twoPages.mem.ctx.pageTable 0x1001000).map Page.addrs =
      some (0x1001000, 0x20000) := by decide +kernel
  have hold : twoPages.mem.bytes 0x21000 = 0 := by decide +kernel
  have hnew : (twoPages.handleMessage (sevens 0x1001000 4097 (by decide))).ctx.mem.bytes 0x21000 =
      7 := by decide +kernel
  refine ⟨reachable_twoPages, by decide +kernel, hfirst, by decide +kernel, hold, hnew, fun honly => ?_⟩
  have hfield : (sevens 0x1001000 4097 (by decide)).field 0 8 = 0x1001000 := by decide +kernel
  have hsame := honly.bytes 0x21000 fun page hpage hin => by
    rw [hfield] at hpage
    rw [show pageLookup twoPages.mem.ctx.pageTable 0x1001000 = some page from hpage] at hfirst
    have hlocal : page.localAddr = 0x20000 := congrArg Prod.snd (Option.some.inj hfirst)
    rw [hlocal] at hin
    revert hin
    decide
  rw [hnew, hold] at hsame
  revert hsame
  decide

end Dsm
