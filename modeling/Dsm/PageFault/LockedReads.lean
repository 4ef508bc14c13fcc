import Dsm.PageFault.FetchedCopies
import Dsm.PageFault.RemoteMapping
import Dsm.PageFault.SharedMachine
import Dsm.Sync.LockSafety

/-!
# What a load under the lock returns

A worker faults on a page inside the lock and stays inside it until the load has succeeded, and the
master writes the page inside the lock only. So nothing for the page has left a worker before its
first fault on it, and from there to the end of its first load the page keeps its content. Whatever
the master has served to the worker is then what the page contains, until the master writes it again.

After that a worker goes on with its copy. `dsm_page_invalidate` is called nowhere: neither
`dsm_lock` nor `dsm_unlock` touches a page, and a page that has been installed never faults again.
-/

namespace Dsm

/-! ### What a step of one of the machines leaves alone -/

theorem LockState.setWorker_inside {s : LockState} {u : NodeId} {n : WorkerNode}
    (hn : n.inside = (s.worker u).inside) (w : NodeId) :
    ((s.setWorker u n).worker w).inside = (s.worker w).inside := by
  by_cases hwu : w = u
  · subst hwu
    simp only [LockState.setWorker, Function.update_self, hn]
  · simp only [LockState.setWorker, Function.update_of_ne hwu]

theorem LockState.sendGrant_inside (cl : Cluster) (s : LockState) (u : NodeId) (l : LockId)
    (w : NodeId) : ((s.sendGrant cl u l).worker w).inside = (s.worker w).inside := by
  rw [LockState.sendGrant]
  split_ifs
  · exact LockState.setWorker_inside (by rfl) w
  · rfl

theorem LockState.masterStep_inside {cl : Cluster} {s t : LockState} {a : MasterAction}
    (ha : s.masterStep cl a = some t) (w : NodeId) :
    (t.worker w).inside = (s.worker w).inside := by
  cases LockState.masterStep_effect ha with
  | receive => exact LockState.setWorker_inside (by rfl) w
  | grant | tcpGrant => exact LockState.sendGrant_inside cl _ _ _ w
  | lock | testSleep | testEnter | wake | spurious | unlock | release | signal => rfl

/-- Only its own application thread moves a worker into a critical section or out of it. -/
theorem LockState.step_inside {cl : Cluster} {s t : LockState} {a : LockAction} {w : NodeId}
    (ha : s.step cl a = some t) (hown : ∀ b, a = .worker w b → b = .receive) :
    (t.worker w).inside = (s.worker w).inside := by
  cases a with
  | master a => exact LockState.masterStep_inside ha w
  | worker u b =>
      simp only [LockState.step, Option.ite_none_right_eq_some, Option.map_eq_some_iff] at ha
      obtain ⟨-, n, hn, rfl⟩ := ha
      by_cases hwu : w = u
      · subst hwu
        obtain rfl := hown b rfl
        refine LockState.setWorker_inside ?_ w
        cases WorkerNode.step_effect hn
        rfl
      · simp only [LockState.setWorker, Function.update_of_ne hwu]

/-- The page that the fault thread is busy with. -/
def FaultPc.page? : FaultPc → Option Nat
  | .idle => none
  | .check addr | .request addr | .wait addr | .giveUp addr => some (pageBase addr)

/-- Nothing for the page has left the worker, and its fault thread is not busy with it. -/
structure FetchWorker.Untouched (n : FetchWorker) (page : Nat) : Prop where
  requests : ∀ addr ∈ n.requests, pageBase addr ≠ page
  fault : n.fault.page? ≠ some page
  served : n.served page = []

theorem FetchWorker.Untouched.step {w page : Nat} {n n' : FetchWorker} {a : FetchWorkerAction}
    (h : n.Untouched page) (ha : n.step w a = some n')
    (hfault : ∀ addr, a = .fault addr → pageBase addr ≠ page) : n'.Untouched page := by
  obtain ⟨hrequests, hpc, hserved⟩ := h
  have hbusy : ∀ {addr}, n.fault.page? = some (pageBase addr) → pageBase addr ≠ page := by
    rintro addr hpage rfl
    exact hpc hpage
  cases FetchWorker.step_effect ha with
  | @fault addr =>
      refine ⟨hrequests, fun hpage => hfault addr rfl ?_, hserved⟩
      rw [← pageBase_pageBase]
      exact Option.some.inj hpage
  | @check addr mprotectOk p hat hp hfree =>
      refine ⟨hrequests, ?_, hserved⟩
      rw [hat] at hpc
      dsimp only
      split_ifs
      · exact hpc
      · nofun
  | @request addr hat =>
      rw [hat] at hpc hbusy
      refine ⟨fun a hmem => ?_, hpc, hserved⟩
      rcases List.mem_append.mp hmem with hmem | hmem
      · exact hrequests a hmem
      · rw [List.mem_singleton.mp hmem]
        exact hbusy rfl
  | unsent hat | timeout hat =>
      rw [hat] at hpc
      exact ⟨hrequests, hpc, hserved⟩
  | checkNone | leave | giveUpNone | giveUp => exact ⟨hrequests, nofun, hserved⟩
  | map | drop | receive | copy | finish => exact ⟨hrequests, hpc, hserved⟩

theorem FetchState.step_untouched {cl : Cluster} {s t : FetchState} {a : FetchAction} {w : NodeId}
    {page : Nat} (h : (s.worker w).Untouched page) (ha : s.step cl a = some t)
    (hfault : ∀ addr, a = .worker w (.fault addr) → pageBase addr ≠ page) :
    (t.worker w).Untouched page := by
  have hrest : ∀ {addr rest}, (s.worker w).requests = addr :: rest →
      ∀ a ∈ rest, pageBase a ≠ page := by
    intro addr rest hrequests a hmem
    exact h.requests a (by rw [hrequests]; exact List.mem_cons_of_mem addr hmem)
  rcases FetchState.step_worker w ha with hsame | ⟨b, hb, -, hstep⟩ |
    ⟨-, addr, rest, hrequests, hdropped | ⟨p, -, hanswered⟩⟩
  · rwa [hsame]
  · exact h.step hstep fun addr haddr => hfault addr (haddr ▸ hb)
  · rw [hdropped]
    exact ⟨hrest hrequests, h.fault, h.served⟩
  · rw [hanswered]
    have hne : pageBase addr ≠ page :=
      h.requests addr (by rw [hrequests]; exact List.mem_cons_self)
    exact ⟨hrest hrequests, h.fault, (Function.update_of_ne hne.symm ..).trans h.served⟩

/-- All that the master has served to the worker for the page is what the page contains. -/
def FetchState.Current (s : FetchState) (w : NodeId) (page : Nat) : Prop :=
  ∀ bytes ∈ (s.worker w).served page, (s.master page).map (·.bytes) = some bytes

/-- A step that does not write the page leaves its content on the master alone. -/
theorem FetchState.step_master {cl : Cluster} {s t : FetchState} {a : FetchAction} {page : Nat}
    {bytes : PageBytes} (ha : s.step cl a = some t) (hwrite : ∀ bytes', a ≠ .write page bytes')
    (hmaster : (s.master page).map (·.bytes) = some bytes) :
    (t.master page).map (·.bytes) = some bytes := by
  cases FetchState.step_effect ha with
  | @alloc addr haligned hnew =>
      have hne : page ≠ addr := by
        rintro rfl
        rw [hnew] at hmaster
        cases hmaster
      simpa only [Function.update_of_ne hne] using hmaster
  | @write addr bytes' p hp =>
      have hne : page ≠ addr := by
        rintro rfl
        exact hwrite bytes' rfl
      simpa only [Function.update_of_ne hne] using hmaster
  | unserved | serve | worker => exact hmaster

theorem FetchState.Current.step {cl : Cluster} {s t : FetchState} {a : FetchAction} {w : NodeId}
    {page : Nat} (h : s.Current w page) (ha : s.step cl a = some t)
    (hwrite : ∀ bytes, a ≠ .write page bytes) : t.Current w page := by
  intro bytes hbytes
  rcases FetchState.step_served w page ha with hsame | ⟨last, -, -, hlast, hadd⟩
  · rw [hsame] at hbytes
    exact FetchState.step_master ha hwrite (h bytes hbytes)
  · rw [hadd] at hbytes
    rcases List.mem_append.mp hbytes with hbytes | hbytes
    · exact FetchState.step_master ha hwrite (h bytes hbytes)
    · rw [List.mem_singleton.mp hbytes]
      exact FetchState.step_master ha hwrite hlast

/-! ### The invariant -/

structure SharedInv (cl : Cluster) (g : Guard) (s : SharedState) : Prop where
  /-- A worker in a load from the page is inside the lock. -/
  inside : ∀ w ∈ cl.workers, (s.loads w).pc.page? = some g.page →
    (s.lock.worker w).inside g.lock = true
  /-- Before its first load from the page a worker has asked for nothing. -/
  untouched : ∀ w ∈ cl.workers, (s.loads w).hasRead = false →
    (s.loads w).pc.page? ≠ some g.page →
    (s.fetch.worker w).Untouched g.page ∧ (s.loads w).pendingFaultAddr.map pageBase ≠ some g.page
  /-- Until the master writes the page after that load, what it has served is what the page contains. -/
  current : ∀ w ∈ cl.workers, (s.loads w).rewritten = false → s.fetch.Current w g.page

theorem SharedInv.initial (cl : Cluster) (g : Guard) : SharedInv cl g .initial where
  inside _ _ := nofun
  untouched _ _ _ _ := ⟨⟨nofun, nofun, rfl⟩, nofun⟩
  current _ _ _ := nofun

section Steps

variable {cl : Cluster} {g : Guard} {s t : SharedState}

theorem SharedInv.lockStep {a : LockAction} (h : SharedInv cl g s) (ha : s.lockStep cl a = some t) :
    SharedInv cl g t := by
  simp only [SharedState.lockStep, Option.ite_none_right_eq_some, Option.map_eq_some_iff] at ha
  obtain ⟨hfree, lock, hlock, rfl⟩ := ha
  refine ⟨fun w hw hpage => ?_, h.untouched, h.current⟩
  have hown : ∀ b, a = .worker w b → b = .receive := by
    rintro b rfl
    cases b with
    | receive => rfl
    | lock | request | test | wake | spurious | unlock | release | clear =>
        have hnone : (s.loads w).pc = .none := by simpa using hfree
        simp only [hnone, LoadPc.page?] at hpage
        cases hpage
  simp only [LockState.step_inside hlock hown]
  exact h.inside w hw hpage

/-- A step of the pages that writes nothing to the page under the lock and starts no fault. -/
theorem SharedInv.fetchMoved {a : FetchAction} {fetch : FetchState} {loads : NodeId → LoadThread}
    (h : SharedInv cl g s) (ha : s.fetch.step cl a = some fetch)
    (hwrite : ∀ bytes, a ≠ .write g.page bytes) (hfault : ∀ w addr, a ≠ .worker w (.fault addr))
    (hloads : ∀ w, (loads w).pc = (s.loads w).pc ∧ (loads w).hasRead = (s.loads w).hasRead ∧
      (loads w).pendingFaultAddr = (s.loads w).pendingFaultAddr ∧
      (loads w).rewritten = (s.loads w).rewritten) :
    SharedInv cl g { s with fetch := fetch, loads := loads } := by
  refine ⟨fun w hw hpage => ?_, fun w hw hread hpage => ?_, fun w hw hrewritten => ?_⟩
  · rw [(hloads w).1] at hpage
    exact h.inside w hw hpage
  · rw [(hloads w).1] at hpage
    rw [(hloads w).2.1] at hread
    obtain ⟨huntouched, hpending⟩ := h.untouched w hw hread hpage
    refine ⟨FetchState.step_untouched huntouched ha fun addr heq => absurd heq (hfault w addr), ?_⟩
    rw [(hloads w).2.2.1]
    exact hpending
  · rw [(hloads w).2.2.2] at hrewritten
    exact (h.current w hw hrewritten).step ha hwrite

/-- The master writes the page inside the lock: a worker that has not yet read it is not in a load
from it. -/
theorem SharedInv.write {bytes : PageBytes} {fetch : FetchState} (h : SharedInv cl g s)
    (hlock : LockInv cl s.lock) (hinside : s.lock.master.inside g.lock = true)
    (ha : s.fetch.step cl (.write g.page bytes) = some fetch) :
    SharedInv cl g (SharedState.markRewritten { s with fetch := fetch }) := by
  have hothers : ∀ w ∈ cl.workers, (s.loads w).pc.page? ≠ some g.page := by
    intro w hw hpage
    have hmaster := hlock.heldBy_of_inside (.inl ⟨rfl, hinside⟩)
    have hworker := hlock.heldBy_of_inside (.inr ⟨hw, h.inside w hw hpage⟩)
    exact Cluster.ne_masterId hw (Lock.heldBy_unique hworker hmaster)
  have hkept : ∀ w, (s.fetch.worker w).Untouched g.page → (fetch.worker w).Untouched g.page :=
    fun w hw => FetchState.step_untouched hw ha nofun
  refine ⟨h.inside, fun w hw hread hpage => ?_, fun w hw hrewritten => ?_⟩
  · obtain ⟨huntouched, hpending⟩ := h.untouched w hw hread hpage
    exact ⟨hkept w huntouched, hpending⟩
  · have hread : (s.loads w).hasRead = false := (Bool.or_eq_false_iff.mp hrewritten).2
    have hserved := (hkept w (h.untouched w hw hread (hothers w hw)).1).served
    intro last hlast
    change last ∈ (fetch.worker w).served g.page at hlast
    rw [hserved] at hlast
    cases hlast

theorem SharedInv.fetchStep {a : FetchAction} (h : SharedInv cl g s) (hlock : LockInv cl s.lock)
    (ha : s.fetchStep cl g a = some t) : SharedInv cl g t := by
  cases SharedState.fetchStep_effect ha with
  | moved hfetch hwrite hfault =>
      exact h.fetchMoved hfetch hwrite hfault fun _ => ⟨rfl, rfl, rfl, rfl⟩
  | write hinside hfetch => exact h.write hlock hinside hfetch
  | @finish w mprotectOk fetch hfetch =>
      refine h.fetchMoved hfetch nofun nofun fun u => ?_
      by_cases huw : u = w
      · subst huw
        simp only [Function.update_self, and_self]
      · simp only [Function.update_of_ne huw, and_self]

theorem SharedInv.setLoads {w : NodeId} {n : LoadThread} (h : SharedInv cl g s)
    (hinside : n.pc.page? = some g.page → (s.loads w).pc.page? = some g.page ∨
      (s.lock.worker w).inside g.lock = true)
    (hread : n.hasRead = false → n.pc.page? ≠ some g.page →
      (s.loads w).hasRead = false ∧ (s.loads w).pc.page? ≠ some g.page)
    (hpending : n.pendingFaultAddr.map pageBase = some g.page → n.pc.page? = some g.page ∨
      (s.loads w).pendingFaultAddr.map pageBase = some g.page)
    (hrewritten : n.rewritten = (s.loads w).rewritten) : SharedInv cl g (s.setLoads w n) := by
  refine ⟨fun u hu hpage => ?_, fun u hu hnot hpage => ?_, fun u hu hnot => ?_⟩
  · by_cases huw : u = w
    · subst huw
      rw [SharedState.setLoads_loads_self] at hpage
      rcases hinside hpage with hpage | hin
      · exact h.inside u hu hpage
      · exact hin
    · rw [SharedState.setLoads_loads_of_ne s n huw] at hpage
      exact h.inside u hu hpage
  · by_cases huw : u = w
    · subst huw
      rw [SharedState.setLoads_loads_self] at hnot hpage ⊢
      obtain ⟨hnot', hpage'⟩ := hread hnot hpage
      obtain ⟨huntouched, hclean⟩ := h.untouched u hu hnot' hpage'
      refine ⟨huntouched, fun hsome => ?_⟩
      rcases hpending hsome with hon | hsome
      · exact hpage hon
      · exact hclean hsome
    · rw [SharedState.setLoads_loads_of_ne s n huw] at hnot hpage ⊢
      exact h.untouched u hu hnot hpage
  · by_cases huw : u = w
    · subst huw
      rw [SharedState.setLoads_loads_self, hrewritten] at hnot
      exact h.current u hu hnot
    · rw [SharedState.setLoads_loads_of_ne s n huw] at hnot
      exact h.current u hu hnot

/-- The fault thread is only told about pages that the application thread has faulted on. -/
theorem SharedInv.fault {w : NodeId} {addr : Nat} {fetch : FetchState} (h : SharedInv cl g s)
    (hpending : (s.loads w).pendingFaultAddr = some addr)
    (ha : s.fetch.step cl (.worker w (.fault addr)) = some fetch) :
    SharedInv cl g { s with fetch := fetch } := by
  refine ⟨h.inside, fun u hu hread hpage => ?_, fun u hu hrewritten => ?_⟩
  · obtain ⟨huntouched, hclean⟩ := h.untouched u hu hread hpage
    refine ⟨FetchState.step_untouched huntouched ha fun addr' heq => ?_, hclean⟩
    cases heq
    intro hbase
    rw [hpending, Option.map_some, hbase] at hclean
    exact hclean rfl
  · exact (h.current u hu hrewritten).step ha nofun

theorem SharedInv.loadStep {w : NodeId} {a : LoadAction} (h : SharedInv cl g s)
    (ha : s.loadStep cl g w a = some t) : SharedInv cl g t := by
  cases SharedState.loadStep_effect ha with
  | start hpc hguard =>
      refine h.setLoads (fun hpage => .inr (hguard (Option.some.inj hpage))) (fun hread _ => ?_) .inr rfl
      exact ⟨hread, by rw [hpc]; nofun⟩
  | load hpc =>
      refine h.setLoads nofun (fun hread _ => ?_) .inr rfl
      obtain ⟨hread, haddr⟩ := Bool.or_eq_false_iff.mp hread
      refine ⟨hread, ?_⟩
      rw [hpc]
      exact fun heq => (beq_eq_false_iff_ne.mp haddr) (Option.some.inj heq)
  | storeAddr hpc =>
      exact h.setLoads (fun hpage => .inl (by rw [hpc]; exact hpage))
        (fun hread hpage => ⟨hread, by rw [hpc]; exact hpage⟩) .inl rfl
  | loadFault hpc | clearHandled hpc | writeEvent hpc | ret hpc =>
      exact h.setLoads (fun hpage => .inl (by rw [hpc]; exact hpage))
        (fun hread hpage => ⟨hread, by rw [hpc]; exact hpage⟩) .inr rfl
  | wakeNone | done | signal => exact h.setLoads .inl (fun hread hpage => ⟨hread, hpage⟩) .inr rfl
  | clear => exact h.setLoads .inl (fun hread hpage => ⟨hread, hpage⟩) nofun rfl
  | @wake addr fetch hpending hfetch =>
      have hwoken : SharedInv cl g
          (s.setLoads w { s.loads w with eventfd := 0, handler := .handle }) :=
        h.setLoads .inl (fun hread hpage => ⟨hread, hpage⟩) .inr rfl
      refine hwoken.fault ?_ hfetch
      rw [SharedState.setLoads_loads_self]
      exact hpending

end Steps

/-! ### All runs -/

theorem SharedState.fetchStep_parts {cl : Cluster} {g : Guard} {s t : SharedState} {a : FetchAction}
    (ha : s.fetchStep cl g a = some t) : t.lock = s.lock ∧ s.fetch.step cl a = some t.fetch := by
  cases SharedState.fetchStep_effect ha with
  | moved hfetch | write _ hfetch | finish hfetch => exact ⟨rfl, hfetch⟩

theorem SharedState.loadStep_parts {cl : Cluster} {g : Guard} {s t : SharedState} {w : NodeId}
    {a : LoadAction} (ha : s.loadStep cl g w a = some t) :
    t.lock = s.lock ∧ (t.fetch = s.fetch ∨ ∃ b, s.fetch.step cl b = some t.fetch) := by
  cases SharedState.loadStep_effect ha with
  | wake hpending hfetch => exact ⟨rfl, .inr ⟨_, hfetch⟩⟩
  | _ => exact ⟨rfl, .inl rfl⟩

theorem SharedState.lock_reachable {cl : Cluster} {g : Guard} {s : SharedState}
    (hs : (sharedMachine cl g).Reachable s) : (lockMachine cl).Reachable s.lock := by
  refine hs.map SharedState.lock (fun _ hstart => hstart ▸ rfl) fun s a t ha => ?_
  cases a with
  | lock b =>
      simp only [sharedMachine, SharedState.step, SharedState.lockStep,
        Option.ite_none_right_eq_some, Option.map_eq_some_iff] at ha
      obtain ⟨-, lock, hlock, rfl⟩ := ha
      exact .inr ⟨b, hlock⟩
  | fetch b => exact .inl (SharedState.fetchStep_parts ha).1
  | load w b =>
      simp only [sharedMachine, SharedState.step, Option.ite_none_right_eq_some] at ha
      exact .inl (SharedState.loadStep_parts ha.2).1

theorem SharedState.fetch_reachable {cl : Cluster} {g : Guard} {s : SharedState}
    (hs : (sharedMachine cl g).Reachable s) : (fetchMachine cl).Reachable s.fetch := by
  refine hs.map SharedState.fetch (fun _ hstart => hstart ▸ rfl) fun s a t ha => ?_
  cases a with
  | lock b =>
      simp only [sharedMachine, SharedState.step, SharedState.lockStep,
        Option.ite_none_right_eq_some, Option.map_eq_some_iff] at ha
      obtain ⟨-, lock, -, rfl⟩ := ha
      exact .inl rfl
  | fetch b => exact .inr ⟨b, (SharedState.fetchStep_parts ha).2⟩
  | load w b =>
      simp only [sharedMachine, SharedState.step, Option.ite_none_right_eq_some] at ha
      exact (SharedState.loadStep_parts ha.2).2

theorem SharedInv.of_reachable {cl : Cluster} {g : Guard} {s : SharedState}
    (hs : (sharedMachine cl g).Reachable s) : SharedInv cl g s := by
  induction hs with
  | start hstart =>
      rw [hstart]
      exact .initial cl g
  | step a hs ha ih =>
      cases a with
      | lock b => exact ih.lockStep ha
      | fetch b => exact ih.fetchStep (LockInv.of_reachable (SharedState.lock_reachable hs)) ha
      | load w b =>
          simp only [sharedMachine, SharedState.step, Option.ite_none_right_eq_some] at ha
          exact ih.loadStep ha.2

/-- A load under the lock that does not fall inside an install of the page returns what the master
has served to the worker, and that is what the master wrote last, as long as the master has not
written the page since the first load of the worker. -/
theorem locked_read_returns_last_write {cl : Cluster} {g : Guard} {s : SharedState} {w : NodeId}
    {addr : Nat} {bytes : PageBytes} (hs : (sharedMachine cl g).Reachable s) (hw : w ∈ cl.workers)
    (hpage : pageBase addr = g.page) (hread : s.Reads w addr bytes)
    (hinstall : (s.fetch.worker w).locked g.page = false) (hfresh : (s.loads w).rewritten = false) :
    (s.fetch.master g.page).map (·.bytes) = some bytes := by
  obtain ⟨-, p, hp, hprot, rfl⟩ := hread
  rw [hpage] at hp
  have hfetch := FetchInv.of_reachable (SharedState.fetch_reachable hs) w
  have hlast := List.getLast?_eq_some_getLast (hfetch.readable g.page p hp hprot hinstall)
  have hnotCopying : ¬ (s.fetch.worker w).Copying g.page := by
    rintro ⟨i, hi, hia, -⟩
    rw [locked_of_install hi, hia, beq_self_eq_true] at hinstall
    cases hinstall
  have hlog := hfetch.content g.page p _ hp hnotCopying hlast
  exact (SharedInv.of_reachable hs).current w hw hfresh p.bytes (List.mem_of_getElem? hlog)

/-! ### One page, one worker -/

private def pageGuard : Guard := { page := 0x2000000, lock := 0 }

private def masterWrites (byte : UInt8) : List SharedAction :=
  [.lock (.master (.lock 0)), .lock (.master .test), .fetch (.write 0x2000000 fun _ => byte),
    .lock (.master (.unlock 0)), .lock (.master .release), .lock (.master .signal)]

private def workerLocks : List SharedAction :=
  [.lock (.worker 2 (.lock 0)), .lock (.worker 2 .request), .lock (.master (.receive 2)),
    .lock (.master .tcpGrant), .lock (.worker 2 .receive), .lock (.worker 2 .test)]

private def workerUnlocks : List SharedAction :=
  [.lock (.worker 2 (.unlock 0)), .lock (.worker 2 .release), .lock (.worker 2 .clear),
    .lock (.master (.receive 2))]

/-- The load faults and the fault thread sends the request. -/
private def workerFaults : List SharedAction :=
  [.load 2 (.start 0x2000010), .load 2 .load, .load 2 .storeAddr, .load 2 .clearHandled,
    .load 2 .writeEvent, .load 2 .wake, .fetch (.worker 2 (.check true)),
    .fetch (.worker 2 (.request true)), .fetch (.serve 2)]

private def fetchedRun : List SharedAction :=
  [.fetch (.alloc 0x2000000), .fetch (.worker 2 (.map 0x2000000))] ++ masterWrites 1 ++
    workerLocks ++ workerFaults ++
    [.fetch (.worker 2 (.receive true)), .fetch (.worker 2 (.copy 4096)),
      .fetch (.worker 2 (.finish true)), .fetch (.worker 2 .leave), .load 2 .signal, .load 2 .clear,
      .load 2 .done, .load 2 .ret]

/-- The worker reads, the master writes again, and the worker comes to its second load. -/
private def staleRun : List SharedAction :=
  fetchedRun ++ [.load 2 .load] ++ workerUnlocks ++ masterWrites 2 ++ workerLocks ++
    [.load 2 (.start 0x2000010)]

/-- The request times out, and the load is tried again while the late answer is being copied. -/
private def tornReadRun : List SharedAction :=
  [.fetch (.alloc 0x2000000), .fetch (.worker 2 (.map 0x2000000))] ++ masterWrites 1 ++
    workerLocks ++ workerFaults ++
    [.fetch (.worker 2 .timeout), .fetch (.worker 2 .giveUp), .load 2 .clear, .load 2 .done,
      .fetch (.worker 2 (.receive true)), .fetch (.worker 2 (.copy 1)), .load 2 .ret]

/-- The master writes the page once. The worker has used and freed a page of its own, and `mmap` gives
the address of that page to the mapping: the fault finds the record that `dsm_free` has left. -/
private def maskedRun : List (NodeId × RemoteNodeAction) :=
  ownerSteps ++ [(2, .call (.malloc 4096 (some 0x40000))), (2, .call (.free 0x40000)),
    (2, .call (.mapRemote 0x2000000 4096 (some 0x40000))), (2, .fault 0x40005), (2, .check true)]

theorem locked_read_returns_last_write_fetched :
    ∃ s, (sharedMachine oneWorker pageGuard).Reachable s ∧ s.Reads 2 0x2000010 (fun _ => 1) ∧
      (s.fetch.master 0x2000000).map (·.bytes) = some fun _ => 1 := by
  have hrun : ∃ s p, (sharedMachine oneWorker pageGuard).exec .initial fetchedRun = some s ∧
      (s.loads 2).pc = .load 0x2000010 ∧ (s.fetch.worker 2).pages 0x2000000 = some p ∧
      p.prot = .read ∧ p.bytes = PageBytes.overwrite (fun _ => 0) (fun _ => 1) 4096 ∧
      (s.fetch.worker 2).locked 0x2000000 = false ∧ (s.loads 2).rewritten = false :=
    ⟨_, _, rfl, rfl, rfl, rfl, rfl, rfl, rfl⟩
  obtain ⟨s, p, hexec, hpc, hp, hprot, hbytes, hinstall, hfresh⟩ := hrun
  have hreach := Machine.reachable_iff_exec.mpr ⟨_, fetchedRun, rfl, hexec⟩
  have hone : p.bytes = fun _ => 1 := hbytes.trans (PageBytes.overwrite_all ..)
  have hread : s.Reads 2 0x2000010 (fun _ => 1) := ⟨hpc, p, hp, by rw [hprot]; nofun, hone⟩
  exact ⟨s, hreach, hread,
    locked_read_returns_last_write hreach (by decide) rfl hread hinstall hfresh⟩

/-- Three loads that do not return what the master wrote last: one from a copy that the master has made
stale, a first one while its copy is being installed, and a first one from a mapping that a left-over
record hides. -/
theorem stale_torn_and_masked_reads :
    (∃ s, (sharedMachine oneWorker pageGuard).Reachable s ∧ s.Reads 2 0x2000010 (fun _ => 1) ∧
      (s.fetch.worker 2).locked 0x2000000 = false ∧
      (s.fetch.master 0x2000000).map (·.bytes) ≠ some fun _ => 1) ∧
    (∃ s bytes, (sharedMachine oneWorker pageGuard).Reachable s ∧ s.Reads 2 0x2000010 bytes ∧
      (s.loads 2).rewritten = false ∧ (s.fetch.master 0x2000000).map (·.bytes) ≠ some bytes) ∧
    ∃ s, (remoteMachine oneWorker).exec remoteBoot maskedRun = some s ∧
      (s.node 2).handled = [(0x40005, 0)] ∧ (s.node 2).install.isNone = true ∧
      (s.node 2).mem.prot 0x40005 = .readWrite ∧ (s.node 2).mem.bytes 0x40005 = 0 ∧
      (s.node 1).mem.bytes 0x30005 = 7 := by
  refine ⟨?_, ?_, ?_⟩
  · have hrun : ∃ s p, (sharedMachine oneWorker pageGuard).exec .initial staleRun = some s ∧
        (s.loads 2).pc = .load 0x2000010 ∧ (s.fetch.worker 2).pages 0x2000000 = some p ∧
        p.prot = .read ∧ p.bytes = PageBytes.overwrite (fun _ => 0) (fun _ => 1) 4096 ∧
        (s.fetch.worker 2).locked 0x2000000 = false ∧
        (s.fetch.master 0x2000000).map (·.bytes) = some fun _ => 2 :=
      ⟨_, _, rfl, rfl, rfl, rfl, rfl, rfl, rfl⟩
    obtain ⟨s, p, hexec, hpc, hp, hprot, hbytes, hinstall, hmaster⟩ := hrun
    have hone : p.bytes = fun _ => 1 := hbytes.trans (PageBytes.overwrite_all ..)
    refine ⟨s, Machine.reachable_iff_exec.mpr ⟨_, staleRun, rfl, hexec⟩,
      ⟨hpc, p, hp, by rw [hprot]; nofun, hone⟩, hinstall, ?_⟩
    rw [hmaster]
    intro heq
    exact absurd (congrFun (Option.some.inj heq) ⟨0, by decide⟩) (by decide)
  · have hrun : ∃ s p, (sharedMachine oneWorker pageGuard).exec .initial tornReadRun = some s ∧
        (s.loads 2).pc = .load 0x2000010 ∧ (s.fetch.worker 2).pages 0x2000000 = some p ∧
        p.prot = .readWrite ∧ p.bytes = PageBytes.overwrite (fun _ => 0) (fun _ => 1) 1 ∧
        (s.loads 2).rewritten = false ∧
        (s.fetch.master 0x2000000).map (·.bytes) = some fun _ => 1 :=
      ⟨_, _, rfl, rfl, rfl, rfl, rfl, rfl, rfl⟩
    obtain ⟨s, p, hexec, hpc, hp, hprot, hbytes, hfresh, hmaster⟩ := hrun
    refine ⟨s, p.bytes, Machine.reachable_iff_exec.mpr ⟨_, tornReadRun, rfl, hexec⟩,
      ⟨hpc, p, hp, by rw [hprot]; nofun, rfl⟩, hfresh, ?_⟩
    rw [hmaster, hbytes]
    intro heq
    exact absurd (congrFun (Option.some.inj heq) ⟨1, by decide⟩) (by simp [PageBytes.overwrite])
  · have hrun : ((remoteMachine oneWorker).exec remoteBoot maskedRun).map (fun s =>
        ((s.node 2).handled, (s.node 2).install.isNone, (s.node 2).mem.prot 0x40005,
          (s.node 2).mem.bytes 0x40005, (s.node 1).mem.bytes 0x30005)) =
        some ([(0x40005, 0)], true, .readWrite, 0, 7) := by decide +kernel
    obtain ⟨s, hexec, hresult⟩ := Option.map_eq_some_iff.mp hrun
    simp only [Prod.mk.injEq] at hresult
    exact ⟨s, hexec, hresult⟩

end Dsm
