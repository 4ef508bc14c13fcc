import Dsm.PageFault.RemoteInvariant

/-!
# The copy of a remote range

A worker maps a range of whole pages of the master, and from then on the content of the range stands
still. What the worker holds of the range at any time follows from the records of its pages: a page
that is shared shows the content, a page that is being installed shows it as far as the copy has come,
and a fault that waits for a page finds it pending or shared (`RemoteRange.NodeHolds`).
-/

namespace Dsm

/-- A range of whole pages, with where the owner and a remote node map it. -/
structure RemoteRange where
  base : Nat
  len : Nat
  ownerBase : Nat
  nodeBase : Nat
  dvd_base : pageSize ∣ base
  dvd_len : pageSize ∣ len
  dvd_ownerBase : pageSize ∣ ownerBase
  dvd_nodeBase : pageSize ∣ nodeBase
  len_pos : 0 < len
  nodeBase_pos : 0 < nodeBase
  global_end : base + len ≤ 2 ^ 64

/-- A record in another state. -/
def Page.withState (state : PageState) (page : Page) : Page := { page with state := state }

namespace RemoteRange

variable (R : RemoteRange)

/-- The owner has allocated the range. -/
structure OwnerPages (m : NodeMem) : Prop where
  pages : PagesAt m.pairs R.base R.ownerBase R.len
  region : m.ctx.HasRegion R.base R.ownerBase R.len masterId

/-- The node has mapped the range, and no other record has an address in the mapping. -/
structure NodePages (m : NodeMem) : Prop where
  pages : PagesAt m.pairs R.base R.nodeBase R.len
  only : ∀ p ∈ m.pairs, InRange R.nodeBase R.len p.2 → InRange R.base R.len p.1
  region : m.ctx.HasRegion R.base R.nodeBase R.len masterId

/-- The program of the node can read byte `j` of the range, and reads the content. -/
def Shows (content : Nat → UInt8) (m : NodeMem) (j : Nat) : Prop :=
  m.prot (R.nodeBase + j) ≠ .none ∧ m.bytes (R.nodeBase + j) = content j

/-- The copy has the content of the range, where it is of one of its pages. -/
def Carries (content : Nat → UInt8) (copy : PageCopy) : Prop :=
  ∀ j < R.len, pageBase copy.globalAddr = R.base + pageBase j →
    copy.data (j % pageSize) = content j

/-- What the node holds of the range; it has handled `logged` faults when it mapped the range. -/
structure NodeHolds (content : Nat → UInt8) (logged : Nat) (n : RemoteNode) : Prop where
  pages : R.NodePages n.mem
  record : ∀ j < R.len, ∀ page ∈ pageLookup n.mem.ctx.pageTable (R.base + j),
    page.ownerId = masterId ∧ page.state ≠ .modified ∧
      (page.state = .shared → R.Shows content n.mem j)
  fault : ∀ addr, n.fault = .request addr ∨ n.fault = .wait addr → ∀ j < R.len,
    pageBase addr = R.nodeBase + pageBase j →
      ∀ page ∈ pageLookup n.mem.ctx.pageTable (R.base + j),
        page.state = .pending ∨ page.state = .shared
  carries : ∀ c ∈ n.install, R.Carries content c.copy
  install : ∀ c ∈ n.install, ∀ j < R.len, pageBase c.copy.globalAddr = R.base + pageBase j →
    n.mem.prot (R.nodeBase + j) ≠ .none ∧
      (j % pageSize < c.copied → n.mem.bytes (R.nodeBase + j) = content j)
  handled : ∀ j < R.len, (R.nodeBase + j, 0) ∈ n.handled.drop logged → R.Shows content n.mem j

/-! ### The two lookups of the range -/

variable {R} {m : NodeMem}

namespace NodePages

variable (h : R.NodePages m)
include h

/-- A record is of page `j` of the range by its global address iff it is by its local address. -/
theorem local_iff {p : Nat × Nat} (hp : p ∈ m.pairs) {j : Nat} (hj : j < R.len) :
    p.2 = R.nodeBase + pageBase j ↔ p.1 = R.base + pageBase j := by
  constructor
  · intro hlocal
    have hin := h.only p hp (by
      rw [hlocal]
      exact inRange_pageBase_add R.dvd_nodeBase R.dvd_len hj)
    have heq := h.pages.only p hp hin
    obtain ⟨hlow, -⟩ := hin
    omega
  · intro hglobal
    have heq := h.pages.only p hp (by
      rw [hglobal]
      exact inRange_pageBase_add R.dvd_base R.dvd_len hj)
    omega

theorem localAddr {g : Nat} {page : Page} (hpage : pageLookup m.ctx.pageTable g = some page) {j : Nat}
    (hj : j < R.len) (hg : pageBase g = R.base + pageBase j) :
    page.localAddr = R.nodeBase + pageBase j := by
  obtain ⟨hmem, hglobal⟩ := NodeMem.mem_pairs_of_lookup hpage
  exact (h.local_iff hmem hj).mpr (hglobal.trans hg)

theorem pageBase_of_inRange (haligned : ∀ p ∈ m.pairs, pageSize ∣ p.2) {g : Nat} {page : Page}
    (hpage : pageLookup m.ctx.pageTable g = some page) {j : Nat} (hj : j < R.len)
    (hin : InRange page.localAddr pageSize (R.nodeBase + j)) : pageBase g = R.base + pageBase j := by
  obtain ⟨hmem, hglobal⟩ := NodeMem.mem_pairs_of_lookup hpage
  have hlocal : page.localAddr = R.nodeBase + pageBase j := by
    rw [← pageBase_add R.dvd_nodeBase]
    exact eq_pageBase (haligned page.addrs hmem) hin
  exact hglobal.symm.trans ((h.local_iff hmem hj).mp hlocal)

/-- The record that is found by the local address is the one that is found by the global address. -/
theorem lookupLocal {addr j : Nat} (hj : j < R.len) (haddr : pageBase addr = R.nodeBase + pageBase j) :
    pageLookupLocal m.ctx.pageTable addr = pageLookup m.ctx.pageTable (R.base + j) := by
  cases htable : m.ctx.pageTable with
  | none => rfl
  | some pages =>
      rw [pageLookupLocal, pageLookup, Option.bind_some, Option.bind_some, haddr,
        pageBase_add R.dvd_base]
      refine List.find?_congr fun page hpage => ?_
      have hmem : page.addrs ∈ m.pairs := NodeMem.mem_pairs.mpr ⟨pages, htable, page, hpage, rfl⟩
      rw [Bool.eq_iff_iff, beq_iff_eq, beq_iff_eq]
      exact h.local_iff hmem hj

/-- An assignment to the record that is found by a local address of the range. -/
theorem lookup_updateLocal {f : Page → Page} (hf : ∀ page, (f page).globalAddr = page.globalAddr)
    {addr j : Nat} (hj : j < R.len) (haddr : pageBase addr = R.nodeBase + pageBase j) :
    pageLookup (pageUpdateLocal m.ctx.pageTable addr f) (R.base + j) =
      (pageLookup m.ctx.pageTable (R.base + j)).map f := by
  rw [← pageLookup_pageUpdate_self hf m.ctx.pageTable rfl]
  cases htable : m.ctx.pageTable with
  | none => rfl
  | some pages =>
      rw [pageUpdateLocal, pageUpdate, Option.map_some, Option.map_some, haddr,
        pageBase_add R.dvd_base]
      congr 3
      refine List.updateFirst_congr fun page hpage => ?_
      have hmem : page.addrs ∈ m.pairs := NodeMem.mem_pairs.mpr ⟨pages, htable, page, hpage, rfl⟩
      rw [Bool.eq_iff_iff, beq_iff_eq, beq_iff_eq]
      exact h.local_iff hmem hj

theorem lookup_updateLocal_of_ne {f : Page → Page}
    (hf : ∀ page, (f page).globalAddr = page.globalAddr) {addr j : Nat} (hj : j < R.len)
    (haddr : pageBase addr ≠ R.nodeBase + pageBase j) :
    pageLookup (pageUpdateLocal m.ctx.pageTable addr f) (R.base + j) =
      pageLookup m.ctx.pageTable (R.base + j) := by
  cases htable : m.ctx.pageTable with
  | none => rfl
  | some pages =>
      simp only [pageUpdateLocal, pageLookup, Option.map_some, Option.bind_some]
      cases hupdate : pages.updateFirst (·.localAddr == pageBase addr) f with
      | none => rfl
      | some pages' =>
          refine List.find?_updateFirst_of_disjoint (fun page hpage hlocal => ?_) hupdate
          have hmem : page.addrs ∈ m.pairs :=
            NodeMem.mem_pairs.mpr ⟨pages, htable, page, hpage, rfl⟩
          have hne : page.globalAddr ≠ R.base + pageBase j := by
            intro hglobal
            have heq := (h.local_iff hmem hj).mpr hglobal
            rw [beq_iff_eq] at hlocal
            exact haddr (hlocal.symm.trans heq)
          rw [hf, pageBase_add R.dvd_base]
          exact ⟨beq_false_of_ne hne, beq_false_of_ne hne⟩

theorem same {m' : NodeMem} (hsame : m.Same m') : R.NodePages m' := by
  refine ⟨?_, ?_, ?_⟩
  · rw [hsame.pairs]
    exact h.pages
  · rw [hsame.pairs]
    exact h.only
  · rw [MemCtx.HasRegion, hsame.regions]
    exact h.region

end NodePages

/-! ### Steps that leave the range alone -/

variable (R) in
/-- The records of the range are the same, and nothing that it shows is lost. -/
structure Frame (content : Nat → UInt8) (m m' : NodeMem) : Prop where
  pages : R.NodePages m → R.NodePages m'
  lookup : ∀ j < R.len,
    pageLookup m'.ctx.pageTable (R.base + j) = pageLookup m.ctx.pageTable (R.base + j)
  prot : ∀ j < R.len, m.prot (R.nodeBase + j) ≠ .none → m'.prot (R.nodeBase + j) ≠ .none
  bytes : ∀ j < R.len, m.bytes (R.nodeBase + j) = content j → m'.bytes (R.nodeBase + j) = content j

variable {content : Nat → UInt8} {logged : Nat} {m' : NodeMem}

theorem Frame.shows (h : R.Frame content m m') {j : Nat} (hj : j < R.len)
    (hshows : R.Shows content m j) : R.Shows content m' j :=
  ⟨h.prot j hj hshows.1, h.bytes j hj hshows.2⟩

theorem Frame.call {a : MappingAction} (hpages : R.NodePages m)
    (hapart : m.ctx.regions.Pairwise Region.LocalApart) (hclear : a.Clear R.base R.len m.ctx)
    (hmapped : ∀ r ∈ a.creates m.ctx, r.Mapped m.ctx) : R.Frame content m (m.call a) := by
  have hframe : ∀ j < R.len, (m.call a).bytes (R.nodeBase + j) = m.bytes (R.nodeBase + j) ∧
      (m.call a).prot (R.nodeBase + j) = m.prot (R.nodeBase + j) := fun j hj =>
    NodeMem.call_frame hpages.region hapart hclear hmapped R.global_end hj
  refine ⟨fun _ => ⟨?_, ?_, hpages.region.call hclear R.len_pos R.global_end⟩, fun j hj => ?_,
    fun j hj hprot => ?_, fun j hj hbytes => ?_⟩
  · obtain ⟨new, hpairs, hnew⟩ := m.pairs_call a
    rw [hpairs]
    refine hpages.pages.append fun p hp => ?_
    obtain ⟨r, hr, i, hi, rfl⟩ := hnew p hp
    exact hclear.new hr hi
  · obtain ⟨new, hpairs, hnew⟩ := m.pairs_call a
    intro p hp hin
    rw [hpairs] at hp
    rcases List.mem_append.mp hp with hp | hp
    · exact hpages.only p hp hin
    · -- a new mapping does not meet the mapping of the range
      obtain ⟨r, hr, i, hi, rfl⟩ := hnew p hp
      obtain ⟨r', hr', -, hlocal, hsize, -⟩ := hpages.region
      have hmul : i * pageSize < r.pageCount * pageSize :=
        Nat.mul_lt_mul_of_pos_right hi (by decide)
      have htotal := MappingAction.pageCount_of_creates hr
      have hlow : R.nodeBase ≤ r.baseAddr + i * pageSize := hin.1
      have hhigh : r.baseAddr + i * pageSize < R.nodeBase + R.len := hin.2
      rcases (hmapped r hr).2.2.2.2 r' hr' with hle | hle
      · omega
      · omega
  · obtain ⟨page, hpage, -, -⟩ := hpages.pages.lookup R.dvd_base R.dvd_len hj
    rw [hpage]
    exact pageLookup_call hclear R.dvd_base R.dvd_len hj hpage
  · rw [(hframe j hj).2]
    exact hprot
  · rw [(hframe j hj).1]
    exact hbytes

theorem Frame.store (m : NodeMem) {addr : Nat} (byte : UInt8) (hout : ¬ InRange R.nodeBase R.len addr) :
    R.Frame content m (m.store addr (fun _ => byte) 1) := by
  refine ⟨fun h => h.same ⟨rfl, rfl, rfl, rfl⟩, fun _ _ => rfl, fun _ _ hprot => hprot,
    fun j hj hbytes => ?_⟩
  have hne : ¬ (addr ≤ R.nodeBase + j ∧ R.nodeBase + j < addr + 1) := by
    rintro ⟨hle, hlt⟩
    exact hout ⟨by omega, by omega⟩
  exact (if_neg hne).trans hbytes

theorem Frame.protect (m : NodeMem) (addr size : Nat) {prot : Prot} (hprot : prot ≠ .none) :
    R.Frame content m (m.protect addr size prot) := by
  refine ⟨fun h => h.same ⟨rfl, rfl, rfl, rfl⟩, fun _ _ => rfl, fun j hj hold => ?_,
    fun _ _ hbytes => hbytes⟩
  show (if _ then prot else _) ≠ Prot.none
  split_ifs
  · exact hprot
  · exact hold

theorem Frame.copyBytes {n : RemoteNode} (hpages : R.NodePages n.mem)
    (haligned : ∀ p ∈ n.mem.pairs, pageSize ∣ p.2) {c : Copying} {page : Page} {k : Nat}
    (hcarries : R.Carries content c.copy)
    (hpage : pageLookup n.mem.ctx.pageTable c.copy.globalAddr = some page)
    (hk : c.copied + k ≤ pageSize) : R.Frame content n.mem (n.copyBytes c page k).mem := by
  refine ⟨fun h => h.same ⟨rfl, rfl, rfl, rfl⟩, fun _ _ => rfl, fun _ _ hprot => hprot,
    fun j hj hbytes => ?_⟩
  show (if _ then _ else _) = content j
  split_ifs with hin
  · obtain ⟨hle, hlt⟩ := hin
    have hg := hpages.pageBase_of_inRange haligned hpage hj ⟨by omega, by omega⟩
    have hlocal := hpages.localAddr hpage hj hg
    have hmod := pageBase_add_mod j
    rw [← hcarries j hj hg]
    congr 1
    omega
  · exact hbytes

theorem NodeHolds.frame {n : RemoteNode} (h : R.NodeHolds content logged n)
    (hframe : R.Frame content n.mem m') : R.NodeHolds content logged { n with mem := m' } := by
  refine ⟨hframe.pages h.pages, fun j hj page hpage => ?_, fun addr hpc j hj haddr page hpage => ?_,
    h.carries, fun c hc j hj hg => ?_, fun j hj hmem => ?_⟩
  · rw [hframe.lookup j hj] at hpage
    obtain ⟨howner, hstate, hshows⟩ := h.record j hj page hpage
    exact ⟨howner, hstate, fun hshared => hframe.shows hj (hshows hshared)⟩
  · rw [hframe.lookup j hj] at hpage
    exact h.fault addr hpc j hj haddr page hpage
  · obtain ⟨hprot, hbytes⟩ := h.install c hc j hj hg
    exact ⟨hframe.prot j hj hprot, fun hlt => hframe.bytes j hj (hbytes hlt)⟩
  · exact hframe.shows hj (h.handled j hj hmem)

/-! ### The fault thread -/

theorem NodeHolds.setFault {n : RemoteNode} (h : R.NodeHolds content logged n) (pc : RemotePc)
    (hpc : ∀ addr, pc = .request addr ∨ pc = .wait addr →
      n.fault = .request addr ∨ n.fault = .wait addr) :
    R.NodeHolds content logged { n with fault := pc } :=
  ⟨h.pages, h.record, fun addr hwait => h.fault addr (hpc addr hwait), h.carries, h.install,
    h.handled⟩

/-- The fault thread returns; where it returns `0` for a byte of the range, the byte is there. -/
theorem NodeHolds.ret {n : RemoteNode} (h : R.NodeHolds content logged n) {addr : Nat} {value : Int}
    (hshows : value = 0 → ∀ j < R.len, addr = R.nodeBase + j → R.Shows content n.mem j) :
    R.NodeHolds content logged (n.ret n.mem addr value) := by
  refine ⟨h.pages, h.record, fun addr' hpc => ?_, h.carries, h.install, fun j hj hmem => ?_⟩
  · rcases hpc with hpc | hpc
    · cases hpc
    · cases hpc
  · have hmem' : (R.nodeBase + j, 0) ∈ (n.handled ++ [(addr, value)]).drop logged := hmem
    rw [List.drop_append] at hmem'
    rcases List.mem_append.mp hmem' with hold | hnew
    · exact h.handled j hj hold
    · cases List.mem_singleton.mp (List.mem_of_mem_drop hnew)
      exact hshows rfl j hj rfl

theorem NodeHolds.setState {n : RemoteNode} (h : R.NodeHolds content logged n) {addr : Nat}
    {state : PageState} {pc : RemotePc} (hstate : state ≠ .modified ∧ state ≠ .shared)
    (hpc : ∀ addr', pc = .request addr' ∨ pc = .wait addr' → addr' = addr ∧ state = .pending) :
    R.NodeHolds content logged
      { n with mem := n.mem.updatePageLocal addr (Page.withState state), fault := pc } := by
  have hsame : ∀ page, (Page.withState state page).globalAddr = page.globalAddr := fun _ => rfl
  have hlookup : ∀ j < R.len, pageBase addr = R.nodeBase + pageBase j →
      pageLookup (n.mem.updatePageLocal addr (Page.withState state)).ctx.pageTable (R.base + j) =
        (pageLookup n.mem.ctx.pageTable (R.base + j)).map (Page.withState state) :=
    fun j hj haddr => h.pages.lookup_updateLocal hsame hj haddr
  refine ⟨h.pages.same (n.mem.same_updatePageLocal addr fun _ => rfl), fun j hj page hpage => ?_,
    fun addr' hwait j hj haddr' page hpage => ?_, h.carries, h.install, h.handled⟩
  · by_cases haddr : pageBase addr = R.nodeBase + pageBase j
    · obtain ⟨old, hold, rfl⟩ := Option.map_eq_some_iff.mp ((hlookup j hj haddr).symm.trans hpage)
      exact ⟨(h.record j hj old hold).1, hstate.1, fun hshared => (hstate.2 hshared).elim⟩
    · refine h.record j hj page ?_
      rw [← h.pages.lookup_updateLocal_of_ne hsame hj haddr]
      exact hpage
  · obtain ⟨rfl, rfl⟩ := hpc addr' hwait
    obtain ⟨old, -, rfl⟩ := Option.map_eq_some_iff.mp ((hlookup j hj haddr').symm.trans hpage)
    exact .inl rfl

/-- A record that the fault thread finds for a byte of the range, once it is neither pending nor
invalid. -/
theorem NodeHolds.shows {n : RemoteNode} (h : R.NodeHolds content logged n) {addr : Nat} {page : Page}
    (hpage : pageLookupLocal n.mem.ctx.pageTable addr = some page)
    (hstate : page.state = .modified ∨ page.state = .shared) {j : Nat} (hj : j < R.len)
    (haddr : addr = R.nodeBase + j) : R.Shows content n.mem j := by
  have hbase : pageBase addr = R.nodeBase + pageBase j := by
    rw [haddr, pageBase_add R.dvd_nodeBase]
  rw [h.pages.lookupLocal hj hbase] at hpage
  obtain ⟨-, hmodified, hshows⟩ := h.record j hj page hpage
  rcases hstate with hstate | hstate
  · exact (hmodified hstate).elim
  · exact hshows hstate

theorem NodeHolds.pageBase_ne {n : RemoteNode} (h : R.NodeHolds content logged n) {addr : Nat}
    {page : Page} (hpage : pageLookupLocal n.mem.ctx.pageTable addr = some page)
    (howner : page.ownerId ≠ masterId) {j : Nat} (hj : j < R.len) :
    pageBase addr ≠ R.nodeBase + pageBase j := by
  intro hbase
  rw [h.pages.lookupLocal hj hbase] at hpage
  exact howner (h.record j hj page hpage).1

theorem NodeHolds.checkRet {n : RemoteNode} (h : R.NodeHolds content logged n)
    (hid : n.mem.ctx.localNodeId ≠ masterId) {addr : Nat} {value : Int} {mem : NodeMem}
    {protectOk : Bool} (hcheck : n.mem.faultCheck addr protectOk = (.ret value, mem)) :
    R.NodeHolds content logged (n.ret mem addr value) := by
  rcases n.mem.faultCheck_cases addr protectOk with ⟨value', heq, hzero⟩ |
    ⟨page, hpage, howner, heq⟩ | ⟨page, -, -, heq⟩
  · -- the record tells what is there
    rw [heq] at hcheck
    cases hcheck
    refine h.ret fun hvalue j hj haddr => ?_
    obtain ⟨page, hpage, hstate⟩ := hzero hvalue
    exact h.shows hpage hstate hj haddr
  · -- a page of the node's own, which is none of the range
    rw [heq] at hcheck
    cases hcheck
    have hne : ∀ j < R.len, pageBase addr ≠ R.nodeBase + pageBase j := fun j hj =>
      h.pageBase_ne hpage (howner ▸ hid) hj
    have hopen : R.Frame content n.mem (n.mem.protect page.localAddr pageSize .readWrite) :=
      .protect _ _ _ (by decide)
    have hmark : R.Frame content (n.mem.protect page.localAddr pageSize .readWrite)
        ((n.mem.protect page.localAddr pageSize .readWrite).updatePageLocal addr
          (Page.withState .modified)) := by
      have hsame : ∀ page, (Page.withState .modified page).globalAddr = page.globalAddr :=
        fun _ => rfl
      refine ⟨fun hpages => hpages.same (NodeMem.same_updatePageLocal _ addr fun _ => rfl),
        fun j hj => ?_, fun _ _ hprot => hprot, fun _ _ hbytes => hbytes⟩
      exact (hopen.pages h.pages).lookup_updateLocal_of_ne hsame hj (hne j hj)
    refine ((h.frame hopen).frame hmark).ret fun _ j hj haddr => ?_
    refine (hne j hj ?_).elim
    rw [haddr, pageBase_add R.dvd_nodeBase]
  · rw [heq] at hcheck
    cases hcheck

/-- The fault thread leaves its wait when the record is pending no more: then it is shared. -/
theorem NodeHolds.shows_of_wait {n : RemoteNode} (h : R.NodeHolds content logged n) {addr : Nat}
    (hfound : (pageLookupLocal n.mem.ctx.pageTable addr).isSome = true) (hpc : n.fault = .wait addr)
    (hstate : (pageLookupLocal n.mem.ctx.pageTable addr).map (·.state) ≠ some .pending) {j : Nat}
    (hj : j < R.len) (haddr : addr = R.nodeBase + j) : R.Shows content n.mem j := by
  obtain ⟨page, hpage⟩ := Option.isSome_iff_exists.mp hfound
  refine h.shows hpage (.inr ?_) hj haddr
  have hbase : pageBase addr = R.nodeBase + pageBase j := by
    rw [haddr, pageBase_add R.dvd_nodeBase]
  have hlookup := hpage
  rw [h.pages.lookupLocal hj hbase] at hlookup
  rcases h.fault addr (.inr hpc) j hj hbase page hlookup with hpending | hshared
  · rw [hpage, Option.map_some, hpending] at hstate
    exact (hstate rfl).elim
  · exact hshared

/-! ### The TCP thread -/

theorem NodeHolds.markInstalled {n : RemoteNode} (h : R.NodeHolds content logged n) {g : Nat}
    (version : Nat) (hshows : ∀ j < R.len, pageBase g = R.base + pageBase j →
      R.Shows content n.mem j) :
    R.NodeHolds content logged { n with mem := n.mem.markInstalled g version } := by
  have hlookup : ∀ j < R.len, ∀ page,
      pageLookup (n.mem.markInstalled g version).ctx.pageTable (R.base + j) = some page →
        pageLookup n.mem.ctx.pageTable (R.base + j) = some page ∨
          (∃ old, pageLookup n.mem.ctx.pageTable (R.base + j) = some old ∧
            page.ownerId = old.ownerId) ∧ page.state = .shared ∧ R.Shows content n.mem j := by
    intro j hj page hpage
    have hsame : ∀ old : Page,
        ({ old with state := .shared, version := version } : Page).globalAddr = old.globalAddr :=
      fun _ => rfl
    by_cases hg : pageBase (R.base + j) = pageBase g
    · obtain ⟨old, hold, rfl⟩ := Option.map_eq_some_iff.mp
        ((pageLookup_pageUpdate_self hsame n.mem.ctx.pageTable hg).symm.trans hpage)
      rw [pageBase_add R.dvd_base] at hg
      exact .inr ⟨⟨old, hold, rfl⟩, rfl, hshows j hj hg.symm⟩
    · exact .inl ((pageLookup_pageUpdate_of_ne hsame n.mem.ctx.pageTable hg).symm.trans hpage)
  refine ⟨h.pages.same (n.mem.same_markInstalled g version), fun j hj page hpage => ?_,
    fun addr hpc j hj haddr page hpage => ?_, h.carries, h.install, h.handled⟩
  · rcases hlookup j hj page hpage with hold | ⟨⟨old, hold, howner⟩, hstate, hshow⟩
    · exact h.record j hj page hold
    · refine ⟨howner.trans (h.record j hj old hold).1, ?_, fun _ => hshow⟩
      rw [hstate]
      decide
  · rcases hlookup j hj page hpage with hold | ⟨-, hstate, -⟩
    · exact h.fault addr hpc j hj haddr page hold
    · exact .inr hstate

theorem NodeHolds.setInstall {n : RemoteNode} (h : R.NodeHolds content logged n)
    {install : Option Copying} (hcarries : ∀ c ∈ install, R.Carries content c.copy)
    (hinstall : ∀ c ∈ install, ∀ j < R.len, pageBase c.copy.globalAddr = R.base + pageBase j →
      n.mem.prot (R.nodeBase + j) ≠ .none ∧
        (j % pageSize < c.copied → n.mem.bytes (R.nodeBase + j) = content j)) :
    R.NodeHolds content logged { n with install := install } :=
  ⟨h.pages, h.record, h.fault, hcarries, hinstall, h.handled⟩

theorem NodePages.byte (h : R.NodePages m) {g : Nat} {page : Page}
    (hpage : pageLookup m.ctx.pageTable g = some page) {j : Nat} (hj : j < R.len)
    (hg : pageBase g = R.base + pageBase j) : R.nodeBase + j = page.localAddr + j % pageSize := by
  have hlocal := h.localAddr hpage hj hg
  have hmod := pageBase_add_mod j
  omega

theorem mod_pageSize_lt (j : Nat) : j % pageSize < pageSize := Nat.mod_lt _ (by decide)

theorem NodeHolds.openPage {n : RemoteNode} (h : R.NodeHolds content logged n) {copy : PageCopy}
    (hcarries : R.Carries content copy) (ok : Bool) :
    R.NodeHolds content logged (n.openPage copy ok) := by
  rw [RemoteNode.openPage]
  split
  · exact h
  · rename_i page hpage
    split_ifs with hnull hok
    · refine h.markInstalled copy.version fun j hj hg => ?_
      have hlocal := h.pages.localAddr hpage hj hg
      have hpos := R.nodeBase_pos
      omega
    · have hframe : R.Frame content n.mem (n.mem.protect page.localAddr pageSize .readWrite) :=
        .protect _ _ _ (by decide)
      refine (h.frame hframe).setInstall (fun c hc => ?_) (fun c hc j hj hg => ?_)
      · cases hc
        exact hcarries
      · cases hc
        have hbyte := h.pages.byte hpage hj hg
        have hlt := mod_pageSize_lt j
        refine ⟨?_, fun hzero => (Nat.not_lt_zero _ hzero).elim⟩
        show (if _ then Prot.readWrite else _) ≠ Prot.none
        rw [if_pos (by omega)]
        decide
    · exact h

theorem NodeHolds.copyBytes {n : RemoteNode} (h : R.NodeHolds content logged n)
    (haligned : ∀ p ∈ n.mem.pairs, pageSize ∣ p.2) {c : Copying} {page : Page} {k : Nat}
    (hinstall : n.install = some c)
    (hpage : pageLookup n.mem.ctx.pageTable c.copy.globalAddr = some page)
    (hk : c.copied + k ≤ pageSize) : R.NodeHolds content logged (n.copyBytes c page k) := by
  have hcarries := h.carries c hinstall
  have hframe := Frame.copyBytes h.pages haligned hcarries hpage hk
  refine (h.frame hframe).setInstall (fun c' hc' => ?_) (fun c' hc' j hj hg => ?_)
  · cases hc'
    exact hcarries
  · cases hc'
    obtain ⟨hprot, hbytes⟩ := h.install c hinstall j hj hg
    refine ⟨hframe.prot j hj hprot, fun hlt => ?_⟩
    by_cases hold : j % pageSize < c.copied
    · exact hframe.bytes j hj (hbytes hold)
    · have hlt' : j % pageSize < c.copied + k := hlt
      have hbyte := h.pages.byte hpage hj hg
      show (if _ then _ else _) = content j
      rw [if_pos (by omega), ← hcarries j hj hg]
      congr 1
      omega

theorem NodeHolds.closePage {n : RemoteNode} (h : R.NodeHolds content logged n) {c : Copying}
    {page : Page} (hinstall : n.install = some c) (hdone : c.copied = pageSize) (ok : Bool) :
    R.NodeHolds content logged (n.closePage c page ok) := by
  cases ok with
  | false => exact h.setInstall (fun _ hc => by cases hc) (fun _ hc => by cases hc)
  | true =>
      have hframe : R.Frame content n.mem (n.mem.protect page.localAddr pageSize .read) :=
        .protect _ _ _ (by decide)
      refine ((h.frame hframe).markInstalled c.copy.version fun j hj hg => ?_).setInstall
        (fun _ hc => by cases hc) (fun _ hc => by cases hc)
      obtain ⟨hprot, hbytes⟩ := h.install c hinstall j hj hg
      exact ⟨hframe.prot j hj hprot, hbytes (hdone ▸ mod_pageSize_lt j)⟩

/-! ### A step of the node -/

/-- A node keeps what it holds of the range, as long as no call meets the range, its program stores
nothing there, and the pages that it is sent carry the content. -/
theorem NodeHolds.effect {cl : Cluster} {i : NodeId} {n n' : RemoteNode}
    (h : R.NodeHolds content logged n) (hsound : n.Sound i) (hi : i ≠ masterId)
    {incoming : Option PageMessage} {a : RemoteNodeAction} {out : Option (NodeId × PageMessage)}
    (heffect : n.Effect cl i incoming a n' out)
    (hclear : ∀ call, a = .call call → call.Clear R.base R.len n.mem.ctx)
    (hquiet : ∀ addr byte, a = .store addr byte → ¬ InRange R.nodeBase R.len addr)
    (hin : ∀ copy, incoming = some (.data copy) → R.Carries content copy) :
    R.NodeHolds content logged n' := by
  have hidle : ∀ addr pc, pc = RemotePc.idle ∨ pc = .check addr ∨ pc = .giveUp addr →
      ∀ addr', pc = .request addr' ∨ pc = .wait addr' →
        n.fault = .request addr' ∨ n.fault = .wait addr' := by
    intro addr pc hpc addr' hpc'
    rcases hpc with rfl | rfl | rfl <;> rcases hpc' with hpc' | hpc' <;> cases hpc'
  cases heffect with
  | call hmapped =>
      exact h.frame (.call h.pages hsound.localApart (hclear _ rfl) hmapped)
  | @store addr byte => exact h.frame (.store n.mem byte (hquiet addr byte rfl))
  | fault => exact h.setFault _ (hidle _ _ (.inr (.inl rfl)))
  | checkRet hcheck => exact h.checkRet (hsound.localNodeId ▸ hi) hcheck
  | @checkFetch addr page mem protectOk hcheck =>
      rcases n.mem.faultCheck_cases addr protectOk with ⟨value', heq, -⟩ | ⟨page, -, -, heq⟩ |
        ⟨page, -, -, heq⟩
      · rw [heq] at hcheck
        cases hcheck
      · rw [heq] at hcheck
        cases hcheck
      · rw [heq] at hcheck
        cases hcheck
        refine h.setState ⟨by decide, by decide⟩ fun addr' hpc => ?_
        rcases hpc with hpc | hpc
        · cases hpc
          exact ⟨rfl, rfl⟩
        · cases hpc
  | request hpc hpage hroute =>
      refine h.setFault _ fun addr' hpc' => ?_
      rcases hpc' with hpc' | hpc'
      · cases hpc'
      · cases hpc'
        exact .inl hpc
  | unsent hpc => exact h.setFault _ (hidle _ _ (.inr (.inr rfl)))
  | @leave addr hpc hstate =>
      exact h.ret fun _ j hj haddr => h.shows_of_wait (hsound.found addr (.inr hpc)) hpc hstate hj haddr
  | timeout hpc => exact h.setFault _ (hidle _ _ (.inr (.inr rfl)))
  | @giveUp addr hpc =>
      have hmark : R.NodeHolds content logged
          { n with
            mem := n.mem.updatePageLocal addr (Page.withState .invalid)
            fault := .idle } := by
        refine h.setState ⟨by decide, by decide⟩ fun addr' hpc' => ?_
        rcases hpc' with hpc' | hpc'
        · cases hpc'
        · cases hpc'
      exact hmark.ret fun hvalue => by cases hvalue
  | answer hreq hcopy hreach => exact h
  | ignore => exact h
  | @openPage src ok copy hdata => exact h.openPage (hin copy hdata) ok
  | copy hinstall hpage hk => exact h.copyBytes hsound.aligned hinstall hpage hk
  | @finish protectOk c page hinstall hpage hdone => exact h.closePage hinstall hdone protectOk

/-! ### A step of the owner -/

variable (R) in
/-- The owner has allocated the range, and it has the content. -/
structure OwnerHolds (content : Nat → UInt8) (m : NodeMem) : Prop where
  pages : R.OwnerPages m
  bytes : ∀ j < R.len, m.bytes (R.ownerBase + j) = content j

theorem OwnerPages.same {m m' : NodeMem} (h : R.OwnerPages m) (hsame : m.Same m') :
    R.OwnerPages m' := by
  constructor
  · rw [hsame.pairs]
    exact h.pages
  · rw [MemCtx.HasRegion, hsame.regions]
    exact h.region

theorem OwnerPages.call {m : NodeMem} (h : R.OwnerPages m) {a : MappingAction}
    (hclear : a.Clear R.base R.len m.ctx) : R.OwnerPages (m.call a) := by
  refine ⟨?_, h.region.call hclear R.len_pos R.global_end⟩
  obtain ⟨new, hpairs, hnew⟩ := m.pairs_call a
  rw [hpairs]
  refine h.pages.append fun p hp => ?_
  obtain ⟨r, hr, i, hi, rfl⟩ := hnew p hp
  exact hclear.new hr hi

section

variable {cl : Cluster} {n n' : RemoteNode} (hsound : n.Sound masterId)
  {incoming : Option PageMessage} {a : RemoteNodeAction} {out : Option (NodeId × PageMessage)}
  (heffect : n.Effect cl masterId incoming a n' out)
  (hclear : ∀ call, a = .call call → call.Clear R.base R.len n.mem.ctx)
include heffect hclear

theorem OwnerPages.effect (h : R.OwnerPages n.mem) : R.OwnerPages n'.mem := by
  by_cases hcall : ∃ call, a = .call call
  · obtain ⟨call, rfl⟩ := hcall
    cases heffect with
    | call hmapped => exact h.call (hclear call rfl)
  · exact h.same (heffect.same (not_exists.mp hcall))

include hsound in
/-- The owner keeps the content, as long as no call meets the range and its program stores nothing
there. -/
theorem OwnerHolds.effect (h : R.OwnerHolds content n.mem)
    (hquiet : ∀ addr byte, a = .store addr byte → ¬ InRange R.ownerBase R.len addr) :
    R.OwnerHolds content n'.mem := by
  refine ⟨h.pages.effect heffect hclear, fun j hj => ?_⟩
  by_cases hcall : ∃ call, a = .call call
  · obtain ⟨call, rfl⟩ := hcall
    cases heffect with
    | call hmapped =>
        obtain ⟨hbytes, -⟩ := NodeMem.call_frame h.pages.region hsound.localApart (hclear call rfl)
          hmapped R.global_end hj
        rw [hbytes]
        exact h.bytes j hj
  · rw [heffect.bytes (not_exists.mp hcall) (hsound.install rfl) fun byte hstore => ?_]
    · exact h.bytes j hj
    · exact hquiet _ byte hstore ⟨Nat.le_add_right _ _, Nat.add_lt_add_left hj _⟩

end

theorem OwnerHolds.pageSend {n : RemoteNode} (h : R.OwnerHolds content n.mem) {g : Nat}
    {copy : PageCopy} (hsend : n.pageSend g = some copy) : R.Carries content copy := by
  rw [RemoteNode.pageSend] at hsend
  split at hsend
  · cases hsend
  · rename_i page hpage
    rw [Option.ite_none_left_eq_some] at hsend
    obtain ⟨-, heq⟩ := hsend
    cases heq
    intro j hj hg
    obtain ⟨hmem, hglobal⟩ := NodeMem.mem_pairs_of_lookup hpage
    have hin : InRange R.base R.len page.globalAddr := by
      rw [hglobal, hg]
      exact inRange_pageBase_add R.dvd_base R.dvd_len hj
    have hlocal : page.localAddr = R.ownerBase + (page.globalAddr - R.base) :=
      h.pages.pages.only page.addrs hmem hin
    have hmod := pageBase_add_mod j
    rw [hglobal, hg, Nat.add_sub_cancel_left] at hlocal
    rw [← h.bytes j hj]
    show n.mem.bytes (page.localAddr + j % pageSize) = _
    congr 1
    omega

end RemoteRange

end Dsm
