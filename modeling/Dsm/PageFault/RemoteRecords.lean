import Dsm.PageFault.RemoteInvariant

/-!
# What becomes of a record

The page table of a node only grows, and a record keeps its place, its addresses and its owner, so each
of the two lookups finds for ever the record that it has found once (`PageTable.Grows.lookup`,
`PageTable.Grows.lookupLocal`). The state of a record is the fault thread's as long as this thread is in
one of its critical sections. At any other time the state stays, or the record becomes shared: by a page
that has been installed, or by a mark of `dsm_malloc_at`, which looks records up by global addresses.
-/

namespace Dsm

/-- The records keep their places, each as `R` allows, and others may be added. -/
def PageTable.Grows (R : Page → Page → Prop) (table table' : PageTable) : Prop :=
  ∀ pages ∈ table, ∃ pages' ∈ table', pages.Grows R pages'

namespace PageTable

variable {R : Page → Page → Prop} {table table' table'' : PageTable}

theorem Grows.trans (hR : ∀ a b c, R a b → R b c → R a c) (h : table.Grows R table')
    (h' : table'.Grows R table'') : table.Grows R table'' := by
  intro pages hpages
  obtain ⟨pages', hpages', hgrows⟩ := h pages hpages
  obtain ⟨pages'', hpages'', hgrows'⟩ := h' pages' hpages'
  exact ⟨pages'', hpages'', hgrows.trans hR hgrows'⟩

section

variable (hrefl : ∀ page, R page page)
include hrefl

theorem grows_append (table : PageTable) (new : List Page) : table.Grows R (table.map (· ++ new)) :=
  fun _ hpages => ⟨_, Option.mem_map_of_mem _ hpages, List.grows_append hrefl _ new⟩

theorem Grows.refl (table : PageTable) : table.Grows R table := by
  intro pages hpages
  have h := List.grows_append hrefl pages []
  rw [List.append_nil] at h
  exact ⟨pages, hpages, h⟩

theorem grows_updateFirst (p : Page → Bool) {f : Page → Page} (hf : ∀ page, R page (f page)) :
    table.Grows R (table.map fun pages => (pages.updateFirst p f).getD pages) := by
  intro pages hpages
  refine ⟨_, Option.mem_map_of_mem _ hpages, ?_⟩
  cases hupdate : pages.updateFirst p f with
  | none =>
      have h := List.grows_append hrefl pages []
      rwa [List.append_nil] at h
  | some pages' => exact List.grows_updateFirst hrefl hf hupdate

theorem grows_markPages (hR : ∀ a b c, R a b → R b c → R a c)
    (hshared : ∀ page : Page, R page { page with state := .shared }) (table : PageTable)
    (marks : List Nat) : table.Grows R (markPages table marks) := by
  induction marks generalizing table with
  | nil => exact .refl hrefl table
  | cons g marks ih =>
      rw [markPages_cons]
      exact (grows_updateFirst hrefl _ hshared).trans hR (ih _)

end

theorem Grows.lookup (h : table.Grows R table') (hR : ∀ a b, R a b → b.globalAddr = a.globalAddr)
    {g : Nat} {page : Page} (hpage : pageLookup table g = some page) :
    ∃ page', pageLookup table' g = some page' ∧ R page page' := by
  obtain ⟨pages, hpages, hfind⟩ := Option.bind_eq_some_iff.mp hpage
  obtain ⟨pages', hpages', hgrows⟩ := h pages hpages
  obtain ⟨page', hfind', hbecomes⟩ := hgrows.find? (fun a b hab => by rw [hR a b hab]) hfind
  exact ⟨page', Option.bind_eq_some_iff.mpr ⟨pages', hpages', hfind'⟩, hbecomes⟩

theorem Grows.lookupLocal (h : table.Grows R table') (hR : ∀ a b, R a b → b.localAddr = a.localAddr)
    {addr : Nat} {page : Page} (hpage : pageLookupLocal table addr = some page) :
    ∃ page', pageLookupLocal table' addr = some page' ∧ R page page' := by
  obtain ⟨pages, hpages, hfind⟩ := Option.bind_eq_some_iff.mp hpage
  obtain ⟨pages', hpages', hgrows⟩ := h pages hpages
  obtain ⟨page', hfind', hbecomes⟩ := hgrows.find? (fun a b hab => by rw [hR a b hab]) hfind
  exact ⟨page', Option.bind_eq_some_iff.mpr ⟨pages', hpages', hfind'⟩, hbecomes⟩

end PageTable

/-- The record that is found by its global address is the one that is found by its local address, if
the two have the same addresses. -/
theorem eq_of_lookups {table : PageTable} {g addr : Nat} {page page' : Page}
    (hglobal : pageLookup table g = some page) (hlocal : pageLookupLocal table addr = some page')
    (haddrs : page.addrs = page'.addrs) : page = page' := by
  obtain ⟨pages, rfl, hfind⟩ := Option.bind_eq_some_iff.mp hglobal
  have hfind' : pages.find? (·.localAddr == pageBase addr) = some page' := hlocal
  obtain ⟨hg, i, hi, rfl, hbefore⟩ := List.find?_eq_some_iff_getElem.mp hfind
  obtain ⟨hl, j, hj, rfl, hbefore'⟩ := List.find?_eq_some_iff_getElem.mp hfind'
  have hglobals : pages[i].globalAddr = pages[j].globalAddr := congrArg Prod.fst haddrs
  have hlocals : pages[i].localAddr = pages[j].localAddr := congrArg Prod.snd haddrs
  rcases Nat.lt_trichotomy i j with hlt | heq | hlt
  · have hno := hbefore' i hlt
    rw [hlocals, hl] at hno
    cases hno
  · subst heq
    rfl
  · have hno := hbefore j hlt
    rw [← hglobals, hg] at hno
    cases hno

/-! ### A step of a node -/

/-- The fault thread is in a critical section of `dsm_page_fault_handle`. -/
def RemotePc.Decides (pc : RemotePc) : Prop :=
  (∃ addr, pc = .check addr) ∨ ∃ addr, pc = .giveUp addr

/-- What a step may make of a record; `deciding` is whether the fault thread may decide about it. -/
def Page.Becomes (deciding : Prop) (page page' : Page) : Prop :=
  page'.key = page.key ∧ (page'.state = page.state ∨ page'.state = .shared ∨ deciding)

namespace Page.Becomes

variable {deciding : Prop} {page page' page'' : Page}

theorem refl (page : Page) : page.Becomes deciding page := ⟨rfl, .inl rfl⟩

theorem trans (h : page.Becomes deciding page') (h' : page'.Becomes deciding page'') :
    page.Becomes deciding page'' := by
  refine ⟨h'.1.trans h.1, ?_⟩
  rcases h'.2 with hsame | hshared | hdeciding
  · rw [hsame]
    exact h.2
  · exact .inr (.inl hshared)
  · exact .inr (.inr hdeciding)

theorem shared (page : Page) : page.Becomes deciding { page with state := .shared } :=
  ⟨rfl, .inr (.inl rfl)⟩

theorem addrs (h : page.Becomes deciding page') : page'.addrs = page.addrs := congrArg Prod.fst h.1

theorem ownerId (h : page.Becomes deciding page') : page'.ownerId = page.ownerId :=
  congrArg Prod.snd h.1

theorem globalAddr (h : page.Becomes deciding page') : page'.globalAddr = page.globalAddr :=
  congrArg Prod.fst h.addrs

theorem localAddr (h : page.Becomes deciding page') : page'.localAddr = page.localAddr :=
  congrArg Prod.snd h.addrs

end Page.Becomes

namespace RemoteNode

variable {cl : Cluster} {i : NodeId} {n n' : RemoteNode} {incoming : Option PageMessage}
  {out : Option (NodeId × PageMessage)}

theorem step_check {protectOk : Bool} (h : n.step cl i incoming (.check protectOk) = some (n', out)) :
    ∃ addr, n.fault = .check addr ∧ out = none ∧
      ((∃ value mem, n.mem.faultCheck addr protectOk = (.ret value, mem) ∧ n' = n.ret mem addr value) ∨
        ∃ page mem, n.mem.faultCheck addr protectOk = (.fetch page, mem) ∧
          n' = { n with mem := mem, fault := .request addr }) := by
  simp only [RemoteNode.step] at h
  split at h
  · rename_i addr hpc
    rw [Option.ite_none_left_eq_some] at h
    obtain ⟨-, h⟩ := h
    refine ⟨addr, hpc, ?_⟩
    split at h
    · rename_i value mem hcheck
      cases h
      exact ⟨rfl, .inl ⟨value, mem, hcheck, rfl⟩⟩
    · rename_i page mem hcheck
      cases h
      exact ⟨rfl, .inr ⟨page, mem, hcheck, rfl⟩⟩
  · cases h

theorem step_grows {a : RemoteNodeAction} (h : n.step cl i incoming a = some (n', out)) :
    n.mem.ctx.pageTable.Grows (Page.Becomes n.fault.Decides) n'.mem.ctx.pageTable := by
  have hrefl : ∀ page, Page.Becomes n.fault.Decides page page := Page.Becomes.refl
  have htrans : ∀ a b c, Page.Becomes n.fault.Decides a b → Page.Becomes n.fault.Decides b c →
      Page.Becomes n.fault.Decides a c := fun _ _ _ => Page.Becomes.trans
  by_cases hcheck : ∃ protectOk, a = .check protectOk
  · obtain ⟨protectOk, rfl⟩ := hcheck
    obtain ⟨addr, hpc, -, hcases⟩ := step_check h
    have hset : ∀ state, ∀ page : Page, page.Becomes n.fault.Decides { page with state := state } :=
      fun state page => ⟨rfl, .inr (.inr (.inl ⟨addr, hpc⟩))⟩
    have hmem : n.mem.ctx.pageTable.Grows (Page.Becomes n.fault.Decides)
        (n.mem.faultCheck addr protectOk).2.ctx.pageTable := by
      rcases n.mem.faultCheck_cases addr protectOk with ⟨_, heq, -⟩ | ⟨page, -, -, heq⟩ |
        ⟨page, -, -, heq⟩
      · rw [heq]
        exact .refl hrefl _
      · rw [heq]
        exact PageTable.grows_updateFirst hrefl _ (hset .modified)
      · rw [heq]
        exact PageTable.grows_updateFirst hrefl _ (hset .pending)
    rcases hcases with ⟨value, mem, hcheck, rfl⟩ | ⟨page, mem, hcheck, rfl⟩
    · rwa [hcheck] at hmem
    · rwa [hcheck] at hmem
  · cases step_effect h with
    | checkRet | checkFetch => exact (hcheck ⟨_, rfl⟩).elim
    | @call call hmapped =>
        obtain ⟨marks, htable, -⟩ := call.apply_pageTable n.mem.ctx
        show n.mem.ctx.pageTable.Grows _ (call.apply n.mem.ctx).pageTable
        rw [htable]
        exact (PageTable.grows_append hrefl _ _).trans htrans
          (PageTable.grows_markPages hrefl htrans Page.Becomes.shared _ marks)
    | giveUp hpc =>
        exact PageTable.grows_updateFirst hrefl _ fun page => ⟨rfl, .inr (.inr (.inr ⟨_, hpc⟩))⟩
    | @openPage src ok copy hdata =>
        rw [RemoteNode.openPage]
        split
        · exact .refl hrefl _
        · split_ifs
          · exact PageTable.grows_updateFirst hrefl _ fun page => ⟨rfl, .inr (.inl rfl)⟩
          · exact .refl hrefl _
          · exact .refl hrefl _
    | @finish protectOk c page hinstall hpage hdone =>
        rw [RemoteNode.closePage]
        split_ifs
        · exact PageTable.grows_updateFirst hrefl _ fun page => ⟨rfl, .inr (.inl rfl)⟩
        · exact .refl hrefl _
    | _ => exact .refl hrefl _

end RemoteNode

end Dsm
