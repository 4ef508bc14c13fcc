import Dsm.Network.Startup

/-!
# The region that a worker donates

`dsm_mem_init` of a worker reads `local_node_id` twice, for the base address and for the owner of its
region, and the TCP server thread sets it when `JOIN_RESPONSE` is handled, which may be before, between
or after. The region is at the address that belongs to the worker's id, and is the worker's, exactly
if the id was there before the first of the two (`startup_donates_iff`).
-/

namespace Dsm

/-- The node's region `r` and all its pages are its own, at the place that its id gives them. -/
structure StartupState.Donates (chunks : Nat) (s : StartupState) (r : Region) : Prop where
  owner : r.ownerId = s.mem.localNodeId
  base : r.globalBase = globalStart + s.mem.localNodeId * chunks * pageSize
  pages : ∃ pages, s.mem.pageTable = some pages ∧ pages.length = r.pageCount ∧
    ∀ i page, pages[i]? = some page →
      page.ownerId = s.mem.localNodeId ∧ page.globalAddr = r.globalBase + i * pageSize

/-- A worker chooses its base address when it has been told its id. -/
def StartupAction.JoinsFirst (s : StartupState) : StartupAction → Prop
  | .chooseBase => s.mem.localRole = .worker → s.joined ≠ none
  | _ => True

/-! ### A start that nothing disturbs -/

section Undisturbed

variable {self : Address} {chunks : Nat} {s : StartupState}

theorem exec_registerPage {r : Region} (hpc : s.pc = .register r 0)
    (htable : s.mem.pageTable = some []) {n : Nat} (hn : n ≤ r.pageCount) :
    (startupMachine self chunks).exec s (List.replicate n .registerPage) = some { s with
      pc := .register r n
      mem := { s.mem with
        pageTable := some ((List.range n).map fun i =>
          .new s.mem.localNodeId ((r.globalBase + i * pageSize) % 2 ^ 64) (r.baseAddr + i * pageSize)
            r.ownerId) } } := by
  induction n with
  | zero =>
      rw [List.replicate_zero, Machine.exec_nil, ← hpc]
      simp [← htable]
  | succ n ih =>
      rw [List.replicate_succ']
      apply Machine.exec_snoc _ (ih (Nat.le_of_succ_le hn))
      have hlt : n < r.pageCount := hn
      simp [startupMachine, StartupState.step, hlt, pageRegister, List.range_succ]

theorem exec_regionCreate {globalBase : Nat} (hpc : s.pc = .owner globalBase)
    (htable : s.mem.pageTable = some []) (hsize : initSize chunks ≠ 0) (addr : Nat) :
    let r := Region.created (initSize chunks) s.mem.localNodeId globalBase addr
    (startupMachine self chunks).exec s ([.readOwner, .create (some addr)] ++
        List.replicate r.pageCount .registerPage ++ [.finish]) = some { s with
      pc := .done
      localRegion := some r
      mem :=
        if s.mem.localRole = .master then
          (s.mem.addRegion r).registerOwnership globalBase (initSize chunks) s.mem.localNodeId
        else s.mem.addRegion r } := by
  intro r
  let created : StartupState :=
    { s with pc := .register r 0, mem := { s.mem with regions := s.mem.regions ++ [r] } }
  have hcreate : (startupMachine self chunks).exec s [.readOwner, .create (some addr)] =
      some created := by
    simp [startupMachine, StartupState.step, hpc, hsize, created, r]
  have hpc' : created.pc = .register r 0 := rfl
  have htable' : created.mem.pageTable = some [] := htable
  rw [Machine.exec_append, Machine.exec_append, hcreate, Option.bind_some,
    exec_registerPage hpc' htable' (le_refl r.pageCount), Option.bind_some]
  simp [startupMachine, StartupState.step, MemCtx.addRegion, MemCtx.registerOwnership, htable,
    Region.newPages, created]
  rfl

/-- With no message in between, the steps of the main thread are the call of `dsm_mem_init`. -/
theorem exec_memInit (hpc : s.pc = .memInit) (hsize : initSize chunks ≠ 0) (addr : Nat) :
    let r := Region.created (initSize chunks) s.mem.localNodeId (s.mem.initBase chunks) addr
    (startupMachine self chunks).exec s (.chooseBase :: ([.readOwner, .create (some addr)] ++
        List.replicate r.pageCount .registerPage ++ [.finish])) = some { s with
      pc := .done
      localRegion := some r
      mem := (s.mem.memInit chunks (some addr)).2 } := by
  intro r
  let mem : MemCtx := { s.mem with pageTable := some [], ownership := fun _ => [] }
  by_cases hrole : s.mem.localRole = .master
  · let chosen : StartupState :=
      { s with pc := .owner (s.mem.initBase chunks), mem := mem.bump (initSize chunks) }
    have hchosen : (startupMachine self chunks).step s .chooseBase = some chosen := by
      simp [startupMachine, StartupState.step, hpc, hrole, chosen, mem]
    have hpc' : chosen.pc = .owner (s.mem.initBase chunks) := rfl
    rw [Machine.exec_cons, hchosen, Option.bind_some]
    refine (exec_regionCreate hpc' rfl hsize addr).trans ?_
    simp [MemCtx.memInit, MemCtx.regionCreate_some, MemCtx.addRegion, MemCtx.bump, MemCtx.initBase,
      initSize, hrole, chosen, mem, r]
  · let chosen : StartupState := { s with pc := .owner (s.mem.initBase chunks), mem := mem }
    have hchosen : (startupMachine self chunks).step s .chooseBase = some chosen := by
      simp [startupMachine, StartupState.step, hpc, hrole, chosen, mem]
    have hpc' : chosen.pc = .owner (s.mem.initBase chunks) := rfl
    rw [Machine.exec_cons, hchosen, Option.bind_some]
    refine (exec_regionCreate hpc' rfl hsize addr).trans ?_
    simp [MemCtx.memInit, MemCtx.regionCreate_some, MemCtx.addRegion, MemCtx.initBase, initSize,
      hrole, chosen, mem, r]

end Undisturbed

/-! ### The id -/

/-- The id of a node that is not the master is the one that it has been told, and it is told once. -/
structure IdInv (s : StartupState) : Prop where
  assigned : ∀ i, s.master = .respond i ∨ s.joinResponse = some i ∨ s.joined = some i → Assignable i
  unset : s.pc = .broadcast ∨ s.pc = .wait ∨ (∃ role, s.pc = .decide role) →
    s.mem.localRole = .unknown
  localId : s.mem.localRole ≠ .master → s.mem.localNodeId = s.joined.getD 0
  start : s.mem.localRole ≠ .master → s.mem.nextGlobalAddr = globalStart
  sent : s.joinResponse ≠ none → s.master = .done
  once : s.joined ≠ none → s.joinResponse = none ∧ s.master = .done

namespace IdInv

variable {self : Address} {chunks : Nat} {s t : StartupState} {a : StartupAction}

theorem initial : IdInv .initial where
  assigned := by simp [StartupState.initial]
  unset _ := rfl
  localId _ := rfl
  start _ := rfl
  sent hsent := absurd rfl hsent
  once hjoined := absurd rfl hjoined

theorem not_joined (h : IdInv s) (hmaster : s.master ≠ .done) :
    s.joinResponse = none ∧ s.joined = none := by
  constructor
  · by_contra hsent
    exact hmaster (h.sent hsent)
  · by_contra hjoined
    exact hmaster (h.once hjoined).2

theorem of_master (h : IdInv s) {t : StartupState} (hmaster : s.master ≠ .done)
    (hassigned : ∀ i, t.master = .respond i → Assignable i) (hpc : t.pc = s.pc)
    (hmem : t.mem = s.mem) (hresponse : t.joinResponse = s.joinResponse)
    (hjoined : t.joined = s.joined) : IdInv t := by
  obtain ⟨hnone, hnotJoined⟩ := h.not_joined hmaster
  refine ⟨fun i hi => ?_, ?_, ?_, ?_, ?_, ?_⟩
  · rw [hresponse, hjoined, hnone, hnotJoined] at hi
    rcases hi with hi | hi | hi
    · exact hassigned i hi
    · cases hi
    · cases hi
  · rw [hpc, hmem]
    exact h.unset
  · rw [hmem, hjoined]
    exact h.localId
  · rw [hmem]
    exact h.start
  · intro hsent
    rw [hresponse, hnone] at hsent
    exact absurd rfl hsent
  · intro hset
    rw [hjoined, hnotJoined] at hset
    exact absurd rfl hset

theorem step (h : IdInv s) (hstep : s.step self chunks a = some t) : IdInv t := by
  cases StartupState.step_effect hstep with
  | masterReply _ hmaster =>
      exact h.of_master (by rw [hmaster]; nofun) nofun rfl rfl rfl rfl
  | @masterConnect ok hmaster =>
      exact h.of_master (by rw [hmaster]; nofun) (by cases ok <;> exact nofun) rfl rfl rfl rfl
  | masterAdd hmaster hassigned =>
      exact h.of_master (by rw [hmaster]; nofun) hassigned rfl rfl rfl rfl
  | masterRespond hmaster =>
      obtain ⟨hnone, hnotJoined⟩ := h.not_joined (by rw [hmaster]; nofun)
      refine ⟨fun i hi => ?_, h.unset, h.localId, h.start, fun _ => rfl, fun hset => ?_⟩
      · rcases hi with hi | hi | hi
        · cases hi
        · cases hi
          exact h.assigned _ (.inl hmaster)
        · exact h.assigned i (.inr (.inr hi))
      · exact absurd hnotJoined hset
  | joinResponse hconnection hresponse =>
      refine ⟨fun i hi => ?_, h.unset, fun _ => rfl, h.start, fun hsent => absurd rfl hsent,
        fun _ => ⟨rfl, h.sent (by rw [hresponse]; nofun)⟩⟩
      rcases hi with hi | hi | hi
      · exact h.assigned i (.inl hi)
      · cases hi
      · cases hi
        exact h.assigned _ (.inr (.inl hresponse))
  | broadcast hpc =>
      exact ⟨h.assigned, fun _ => h.unset (.inl hpc), h.localId, h.start, h.sent, h.once⟩
  | woken _ hpc =>
      exact ⟨h.assigned, fun _ => h.unset (.inr (.inl hpc)), h.localId, h.start, h.sent, h.once⟩
  | setMaster =>
      exact ⟨h.assigned, by simp, fun hnot => absurd rfl hnot, fun hnot => absurd rfl hnot, h.sent,
        h.once⟩
  | setWorker hpc =>
      have hunset : s.mem.localRole ≠ .master := by
        rw [h.unset (.inr (.inr ⟨_, hpc⟩))]
        nofun
      exact ⟨h.assigned, by simp, fun _ => h.localId hunset, fun _ => h.start hunset, h.sent, h.once⟩
  | chooseBase hpc hid hrole htable hnext =>
      refine ⟨h.assigned, by simp, fun hnot => ?_, fun hnot => ?_, h.sent, h.once⟩
      · rw [hrole] at hnot
        exact hid.trans (h.localId hnot)
      · rw [hrole] at hnot
        exact (hnext hnot).trans (h.start hnot)
  | finish hpc hid hrole htable hnext =>
      refine ⟨h.assigned, by simp, fun hnot => ?_, fun hnot => ?_, h.sent, h.once⟩
      · rw [hrole] at hnot
        exact hid.trans (h.localId hnot)
      · rw [hrole] at hnot
        exact hnext.trans (h.start hnot)
  | readOwner | createFailed | create | registerPage =>
      exact ⟨h.assigned, by simp, h.localId, h.start, h.sent, h.once⟩
  | reply | dropped | accept =>
      exact ⟨h.assigned, h.unset, h.localId, h.start, h.sent, h.once⟩

end IdInv

/-! ### The region -/

namespace StartupState

/-- A worker whose id was there when it chose the base address: what the main thread has made of the
region so far. -/
def InTime (chunks : Nat) (s : StartupState) : Prop :=
  let id := s.mem.localNodeId
  let base := globalStart + id * initSize chunks
  match s.pc with
  | .owner globalBase => s.joined ≠ none ∧ s.mem.pageTable = some [] ∧ globalBase = base
  | .create globalBase ownerId =>
      s.joined ≠ none ∧ s.mem.pageTable = some [] ∧ globalBase = base ∧ ownerId = id
  | .register r i =>
      s.joined ≠ none ∧ (∃ addr, r = .created (initSize chunks) id base addr) ∧
        s.mem.pageTable = some ((List.range i).map fun j =>
          .new id ((r.globalBase + j * pageSize) % 2 ^ 64) (r.baseAddr + j * pageSize) r.ownerId)
  | .done =>
      s.joined ≠ none ∧ ∃ addr, s.localRegion = some (.created (initSize chunks) id base addr) ∧
        s.mem.pageTable = some
          (Region.newPages (.created (initSize chunks) id base addr) id)
  | _ => True

/-- If the node is a worker, its id was there in time. -/
def Timely (chunks : Nat) (s : StartupState) : Prop :=
  s.mem.localRole = .worker → s.InTime chunks

/-- The base address that has been chosen. -/
def chosenBase (s : StartupState) : Option Nat :=
  match s.pc with
  | .owner globalBase | .create globalBase _ => some globalBase
  | .register r _ => some r.globalBase
  | .done => s.localRegion.map (·.globalBase)
  | _ => none

/-- The base address was chosen without an id. -/
def Late (s : StartupState) : Prop := s.pc = .failed ∨ s.chosenBase = some globalStart

end StartupState

theorem initSize_lt (chunks : Nat) : initSize chunks < 2 ^ 32 := Nat.mod_lt _ (by decide)

section Region

variable {self : Address} {chunks : Nat} {s t : StartupState} {a : StartupAction}

theorem IdInv.initBase (h : IdInv s) (hrole : s.mem.localRole = .worker) :
    s.mem.initBase chunks = globalStart + s.mem.localNodeId * initSize chunks := by
  have hnot : s.mem.localRole ≠ .master := by
    rw [hrole]
    nofun
  have hle : s.mem.localNodeId ≤ maxNodes := by
    rw [h.localId hnot]
    cases hjoined : s.joined with
    | none => exact Nat.zero_le _
    | some id => exact (h.assigned id (.inr (.inr hjoined))).2
  have hsize : s.mem.localNodeId * initSize chunks ≤ maxNodes * 2 ^ 32 :=
    Nat.mul_le_mul hle (initSize_lt chunks).le
  rw [MemCtx.initBase, if_neg hnot, h.start hnot, Nat.mod_eq_of_lt]
  exact (Nat.add_le_add_left hsize globalStart).trans_lt (by decide)

theorem IdInv.timely (h : IdInv s) (hgood : s.Timely chunks) (hok : a.JoinsFirst s)
    (hstep : s.step self chunks a = some t) : t.Timely chunks := by
  intro hworker
  cases StartupState.step_effect hstep with
  | masterReply | masterConnect | masterAdd | masterRespond | reply | dropped | accept =>
      exact hgood hworker
  | joinResponse hconnection hresponse =>
      have hnot : s.joined = none := by
        by_contra hjoined
        rw [(h.once hjoined).1] at hresponse
        cases hresponse
      have hbefore := hgood hworker
      simp only [StartupState.InTime] at hbefore ⊢
      cases hpc : s.pc with
      | owner | create | register | done =>
          simp only [hpc] at hbefore
          exact absurd hnot hbefore.1
      | broadcast | wait | decide | memInit | failed => trivial
  | broadcast | woken | setMaster | setWorker | createFailed => trivial
  | chooseBase hpc hid hrole htable =>
      have hrole' : s.mem.localRole = .worker := hrole.symm.trans hworker
      refine ⟨hok hrole', htable, ?_⟩
      simp only [hid]
      exact h.initBase hrole'
  | readOwner hpc =>
      have hbefore := hgood hworker
      simp only [StartupState.InTime, hpc] at hbefore
      obtain ⟨hjoined, htable, hbase⟩ := hbefore
      exact ⟨hjoined, htable, hbase, rfl⟩
  | create hpc =>
      have hbefore := hgood hworker
      simp only [StartupState.InTime, hpc] at hbefore
      obtain ⟨hjoined, htable, rfl, rfl⟩ := hbefore
      exact ⟨hjoined, ⟨_, rfl⟩, htable⟩
  | @registerPage r i hpc =>
      have hbefore := hgood hworker
      simp only [StartupState.InTime, hpc] at hbefore
      obtain ⟨hjoined, hregion, htable⟩ := hbefore
      refine ⟨hjoined, hregion, ?_⟩
      simp [htable, pageRegister, List.range_succ]
  | @finish r hpc mem hid hrole htable =>
      have hbefore := hgood (hrole.symm.trans hworker)
      simp only [StartupState.InTime, hpc] at hbefore
      obtain ⟨hjoined, ⟨addr, rfl⟩, hpages⟩ := hbefore
      refine ⟨hjoined, addr, ?_, ?_⟩
      · simp only [hid]
      · simp only [hid, htable, hpages]
        rfl

theorem IdInv.late (h : IdInv s) (hnot : ¬ a.JoinsFirst s)
    (hstep : s.step self chunks a = some t) : t.Late := by
  cases StartupState.step_effect hstep with
  | chooseBase hpc =>
      obtain ⟨hworker, hjoined⟩ := Classical.not_imp.mp hnot
      have hrole : s.mem.localRole ≠ .master := by
        rw [hworker]
        nofun
      have hid : s.mem.localNodeId = 0 := by
        rw [h.localId hrole, not_not.mp hjoined]
        rfl
      refine .inr (congrArg some ?_)
      rw [h.initBase hworker, hid, Nat.zero_mul, Nat.add_zero]
  | woken ha => rcases ha with rfl | rfl <;> exact absurd trivial hnot
  | broadcast | masterReply | masterConnect | masterAdd | masterRespond | reply | setMaster
  | setWorker | dropped | accept | joinResponse | readOwner | createFailed | create | registerPage
  | finish => exact absurd trivial hnot

theorem StartupState.Late.step (hlate : s.Late) (hstep : s.step self chunks a = some t) :
    t.Late := by
  cases StartupState.step_effect hstep with
  | masterReply | masterConnect | masterAdd | masterRespond | reply | dropped | accept
  | joinResponse => exact hlate
  | createFailed => exact .inl rfl
  | broadcast hpc | woken _ hpc | setMaster hpc | setWorker hpc | chooseBase hpc =>
      simp [StartupState.Late, StartupState.chosenBase, hpc] at hlate
  | readOwner hpc | create hpc | registerPage hpc | finish hpc =>
      simp only [StartupState.Late, StartupState.chosenBase, hpc] at hlate
      exact .inr (hlate.resolve_left nofun)

/-- Where the region of the run is, if it is there at all. -/
structure RegionInv (chunks : Nat) (s : StartupState) : Prop where
  region : s.localRegion ≠ none → s.pc = .done
  size : s.pc = .done ∨ (∃ r i, s.pc = .register r i) → initSize chunks ≠ 0

theorem RegionInv.step (h : RegionInv chunks s) (hstep : s.step self chunks a = some t) :
    RegionInv chunks t := by
  cases StartupState.step_effect hstep with
  | masterReply | masterConnect | masterAdd | masterRespond | reply | dropped | accept
  | joinResponse => exact ⟨h.region, h.size⟩
  | broadcast hpc | woken _ hpc | setMaster hpc | setWorker hpc | chooseBase hpc | readOwner hpc
  | createFailed hpc =>
      refine ⟨fun hregion => ?_, by simp⟩
      rw [h.region hregion] at hpc
      cases hpc
  | create hpc hsize =>
      refine ⟨fun hregion => ?_, fun _ => hsize⟩
      rw [h.region hregion] at hpc
      cases hpc
  | registerPage hpc =>
      refine ⟨fun hregion => ?_, fun _ => h.size (.inr ⟨_, _, hpc⟩)⟩
      rw [h.region hregion] at hpc
      cases hpc
  | finish hpc => exact ⟨fun _ => rfl, fun _ => h.size (.inr ⟨_, _, hpc⟩)⟩

theorem RegionInv.initial : RegionInv chunks .initial :=
  ⟨fun hregion => absurd rfl hregion, by simp [StartupState.initial]⟩

theorem pageCount_created {chunks : Nat} (hlt : chunks * pageSize < 2 ^ 32) (id base addr : Nat) :
    (Region.created (initSize chunks) id base addr).pageCount = chunks := by
  have hsize : initSize chunks = chunks * pageSize := Nat.mod_eq_of_lt hlt
  have hround : roundUpPage (chunks * pageSize) = chunks * pageSize :=
    roundUpPage_of_dvd (Nat.dvd_mul_left _ _) (hlt.trans (by decide))
  simp only [Region.created, hsize, hround]
  exact Nat.mul_div_cancel _ (by decide)

/-- A region that was created in time, and does not wrap, is the worker's and in its place. -/
theorem StartupState.donates_created (hle : s.mem.localNodeId ≤ maxNodes)
    (hlt : chunks * pageSize < 2 ^ 32) {addr : Nat}
    (htable : s.mem.pageTable = some (Region.newPages (.created (initSize chunks) s.mem.localNodeId
      (globalStart + s.mem.localNodeId * initSize chunks) addr) s.mem.localNodeId)) :
    s.Donates chunks (.created (initSize chunks) s.mem.localNodeId
      (globalStart + s.mem.localNodeId * initSize chunks) addr) := by
  have hsize : initSize chunks = chunks * pageSize := Nat.mod_eq_of_lt hlt
  refine ⟨rfl, ?_, _, htable, ?_, fun i page hpage => ?_⟩
  · simp only [Region.created, hsize, Nat.mul_assoc]
  · simp [Region.newPages]
  · rw [Region.newPages, List.getElem?_map, Option.map_eq_some_iff] at hpage
    obtain ⟨j, hj, rfl⟩ := hpage
    obtain ⟨hi, rfl⟩ := List.getElem?_eq_some_iff.mp hj
    rw [List.length_range, pageCount_created hlt] at hi
    refine ⟨rfl, ?_⟩
    have hbase : s.mem.localNodeId * initSize chunks ≤ maxNodes * 2 ^ 32 :=
      Nat.mul_le_mul hle (initSize_lt chunks).le
    have hpage : i * pageSize ≤ chunks * pageSize := Nat.mul_le_mul_right _ hi.le
    simp only [List.getElem_range, Page.new, Region.created]
    apply Nat.mod_eq_of_lt
    exact (Nat.add_le_add (Nat.add_le_add_left hbase globalStart) (hpage.trans hlt.le)).trans_lt
      (by decide)

theorem StartupState.Donates.base_ne {r : Region} (h : s.Donates chunks r)
    (hid : 1 ≤ s.mem.localNodeId) (hsize : initSize chunks ≠ 0) : r.globalBase ≠ globalStart := by
  intro hfirst
  have hbase := h.base
  rw [hfirst, Nat.mul_assoc] at hbase
  have hzero : s.mem.localNodeId * (chunks * pageSize) = 0 := Nat.left_eq_add.mp hbase
  rcases Nat.mul_eq_zero.mp hzero with hnone | hempty
  · exact Nat.ne_of_gt hid hnone
  · exact hsize (by rw [initSize, hempty, Nat.zero_mod])

theorem StartupState.Donates.size_lt {r : Region} (h : s.Donates chunks r)
    (hid : 1 ≤ s.mem.localNodeId)
    (hbase : r.globalBase = globalStart + s.mem.localNodeId * initSize chunks) :
    chunks * pageSize < 2 ^ 32 := by
  have hplace := h.base
  rw [hbase, Nat.mul_assoc, Nat.add_left_cancel_iff] at hplace
  have heq : initSize chunks = chunks * pageSize := Nat.eq_of_mul_eq_mul_left hid hplace
  exact heq ▸ initSize_lt chunks

theorem StartupState.Late.globalBase_eq {r : Region} (h : s.Late) (hdone : s.pc = .done)
    (hregion : s.localRegion = some r) : r.globalBase = globalStart := by
  rcases h with hfailed | hlate
  · rw [hdone] at hfailed
    cases hfailed
  · simpa [StartupState.chosenBase, hdone, hregion] using hlate

theorem IdInv.assignable (h : IdInv s) (hworker : s.mem.localRole = .worker)
    (hjoined : s.joined ≠ none) : Assignable s.mem.localNodeId := by
  obtain ⟨id, hsome⟩ := Option.ne_none_iff_exists'.mp hjoined
  rw [h.localId (by rw [hworker]; nofun), hsome]
  exact h.assigned id (.inr (.inr hsome))

end Region

/-- After every run in which the worker has its region and its id, the region is its own and in its
place exactly if the id was there when `dsm_mem_init` read it first, and its size is below `2^32`. -/
theorem startup_donates_iff {self : Address} {chunks : Nat} {as : List StartupAction}
    {t : StartupState} {r : Region} (hexec : (startupMachine self chunks).exec .initial as = some t)
    (hworker : t.mem.localRole = .worker) (hregion : t.localRegion = some r)
    (hjoined : t.joined ≠ none) :
    t.Donates chunks r ↔
      (startupMachine self chunks).EachStep (fun s a => a.JoinsFirst s) .initial as ∧
        chunks * pageSize < 2 ^ 32 := by
  have hid : IdInv t := (startupMachine self chunks).exec_invariant IdInv hexec
    (fun _ _ _ _ hinv hstep => hinv.step hstep) .initial
  have hreg : RegionInv chunks t := (startupMachine self chunks).exec_invariant _ hexec
    (fun _ _ _ _ hinv hstep => hinv.step hstep) .initial
  have hstart : StartupState.initial.Timely chunks := nofun
  obtain ⟨hgood, hbad⟩ := Machine.good_or_bad_of_exec hexec IdInv.initial hstart
    (fun _ _ _ hinv hstep => hinv.step hstep)
    (fun _ _ _ hinv hgood hok hstep => hinv.timely hgood hok hstep)
    (fun _ _ _ hinv hnot hstep => hinv.late hnot hstep)
    (fun _ _ _ _ hbad hstep => hbad.step hstep)
  have hdone : t.pc = .done := hreg.region (by rw [hregion]; nofun)
  have hsize : initSize chunks ≠ 0 := hreg.size (.inl hdone)
  obtain ⟨hpos, hle⟩ := hid.assignable hworker hjoined
  have hcreated : (startupMachine self chunks).EachStep (fun s a => a.JoinsFirst s) .initial as →
      ∃ addr, r = .created (initSize chunks) t.mem.localNodeId
          (globalStart + t.mem.localNodeId * initSize chunks) addr ∧
        t.mem.pageTable = some (r.newPages t.mem.localNodeId) := by
    intro hok
    have hinTime := hgood hok hworker
    simp only [StartupState.InTime, hdone, hregion, Option.some.injEq] at hinTime
    obtain ⟨-, addr, heq, htable⟩ := hinTime
    exact ⟨addr, heq, by rw [htable, heq]⟩
  constructor
  · intro hdonates
    have hok : (startupMachine self chunks).EachStep (fun s a => a.JoinsFirst s) .initial as := by
      by_contra hnot
      exact hdonates.base_ne hpos hsize ((hbad hnot).globalBase_eq hdone hregion)
    obtain ⟨addr, hcreate, -⟩ := hcreated hok
    exact ⟨hok, hdonates.size_lt hpos (by rw [hcreate]; rfl)⟩
  · rintro ⟨hok, hlt⟩
    obtain ⟨addr, rfl, htable⟩ := hcreated hok
    exact StartupState.donates_created hle hlt htable

theorem startup_donates_iff_joined : ∃ t r,
    (startupMachine joiner 1).exec .initial joinedRun = some t ∧ t.localRegion = some r ∧
      t.mem.localNodeId = 2 ∧ t.Donates 1 r := by
  obtain ⟨s, u, hbefore, hjoined, hchosen⟩ : ∃ s u,
      (startupMachine joiner 1).exec .initial (joinedRun.take 10) = some s ∧
        s.joined = some 2 ∧ s.step joiner 1 .chooseBase = some u := ⟨_, _, rfl, rfl, rfl⟩
  have hok : (startupMachine joiner 1).EachStep (fun s a => a.JoinsFirst s) .initial joinedRun := by
    refine (Machine.eachStep_append hbefore).mpr ⟨?_, (Machine.eachStep_cons hchosen).mpr ⟨?_, ?_⟩⟩
    · exact Machine.eachStep_of_forall (by simp [joinedRun, StartupAction.JoinsFirst])
    · exact fun _ => by simp [hjoined]
    · exact Machine.eachStep_of_forall (by simp [StartupAction.JoinsFirst])
  obtain ⟨t, r, hexec, hregion, hid, hworker, hjoined⟩ : ∃ t r,
      (startupMachine joiner 1).exec .initial joinedRun = some t ∧ t.localRegion = some r ∧
        t.mem.localNodeId = 2 ∧ t.mem.localRole = .worker ∧ t.joined = some 2 :=
    ⟨_, _, rfl, rfl, rfl, rfl, rfl⟩
  exact ⟨t, r, hexec, hregion, hid,
    (startup_donates_iff hexec hworker hregion (by simp [hjoined])).mpr ⟨hok, by decide⟩⟩

/-- The id comes when the region is there: it is at the first address, and of node 0. -/
theorem startup_donates_late : ∃ t r, (startupMachine joiner 1).exec .initial
    [.broadcast, .masterReply, .masterConnect true, .masterAdd loneMaster 7 0 true, .masterRespond,
      .reply, .found, .setRole, .chooseBase, .readOwner, .create (some 0x7000), .registerPage,
      .finish, .accept 5 true, .joinResponse] = some t ∧
    t.mem.localRole = .worker ∧ t.localRegion = some r ∧ t.joined = some 2 ∧
      r.ownerId = 0 ∧ r.globalBase = 0x1000000 ∧ ¬ t.Donates 1 r := by
  refine ⟨_, _, rfl, rfl, rfl, rfl, rfl, rfl, fun hdonates => ?_⟩
  have howner : 0 = 2 := hdonates.owner
  cases howner

end Dsm
