import Dsm.PageFault.FetchMachine
import Dsm.Sync.LockMachine

/-!
# Reading a page under a lock

The locks and the pages of a cluster in one machine, with the loads of the workers' application
threads. A load from a page without access runs `sigsegv_handler`, which hands the address to the
fault thread and spins on `fault_handled`; the load is then tried again, so the application thread
does nothing else before it has succeeded.

One page is used under one lock: the master writes it and the workers load from it only while they
hold the lock. Other pages are used freely. Pages are known by their global addresses, as no other
record has one of the addresses of a page; what happens otherwise is in `maskedRun`.

The state is a pair of the states of the two machines and of what is said here, and each step is a step
of at most one of them.
-/

namespace Dsm

/-- Where the application thread of a worker is in a load from an address. -/
inductive LoadPc where
  | none
  | load (addr : Nat)
  /-- In `sigsegv_handler`, about to set `pending_fault_addr`. -/
  | storeAddr (addr : Nat)
  | clearHandled (addr : Nat)
  | writeEvent (addr : Nat)
  | spin (addr : Nat)
deriving DecidableEq, Repr

/-- Where `fault_handler_thread_func` is. -/
inductive HandlerPc where
  /-- In `read` on `fault_eventfd`. -/
  | read
  | handle
  /-- About to set `fault_handled`. -/
  | done
deriving DecidableEq, Repr

/-- What a worker has beside its locks and its pages. -/
structure LoadThread where
  pc : LoadPc
  handler : HandlerPc
  pendingFaultAddr : Option Nat
  faultHandled : Bool
  eventfd : Nat
  /-- The TCP thread is at the end of `dsm_page_install`, about to set `fault_handled`. -/
  signalling : Bool
  /-- A load of the worker from the page under the lock has succeeded. -/
  hasRead : Bool
  /-- The master has written the page under the lock since the first such load. -/
  rewritten : Bool
deriving DecidableEq, Repr

structure SharedState where
  lock : LockState
  fetch : FetchState
  loads : NodeId → LoadThread

inductive LoadAction where
  /-- The application thread comes to a load. -/
  | start (addr : Nat)
  | load
  | storeAddr
  | clearHandled
  | writeEvent
  /-- `sigsegv_handler` returns. -/
  | ret
  /-- The fault thread returns from `read` and looks at `pending_fault_addr`. -/
  | wake
  /-- The fault thread returns from `dsm_page_fault_handle` and clears `pending_fault_addr`. -/
  | clear
  | done
  | signal
deriving DecidableEq, Repr

inductive SharedAction where
  | lock (a : LockAction)
  | fetch (a : FetchAction)
  | load (w : NodeId) (a : LoadAction)

/-- The page and the lock under which it is used. -/
structure Guard where
  page : Nat
  lock : LockId
deriving DecidableEq, Repr

/-- The page that the application thread is loading from. -/
def LoadPc.page? : LoadPc → Option Nat
  | .none => Option.none
  | .load addr | .storeAddr addr | .clearHandled addr | .writeEvent addr | .spin addr =>
      some (pageBase addr)

namespace SharedState

def setLoads (s : SharedState) (w : NodeId) (n : LoadThread) : SharedState :=
  { s with loads := Function.update s.loads w n }

@[simp] theorem setLoads_loads_self (s : SharedState) (w : NodeId) (n : LoadThread) :
    (s.setLoads w n).loads w = n := Function.update_self ..

@[simp] theorem setLoads_loads_of_ne (s : SharedState) {w u : NodeId} (n : LoadThread)
    (h : u ≠ w) : (s.setLoads w n).loads u = s.loads u := Function.update_of_ne h ..

/-- A step of the locks: an application thread takes none while it is in a load. -/
def lockStep (cl : Cluster) (s : SharedState) (a : LockAction) : Option SharedState :=
  let free : Bool := match a with
    | .master _ => true
    | .worker _ .receive => true
    | .worker w _ => (s.loads w).pc == .none
  if free then (s.lock.step cl a).map fun lock => { s with lock := lock } else none

/-- The master has written the page under the lock. -/
def markRewritten (s : SharedState) : SharedState :=
  { s with loads := fun w => { s.loads w with rewritten := (s.loads w).rewritten || (s.loads w).hasRead } }

/-- A step of the pages. The fault thread is called by `wake` only, the master writes the page under
the lock inside the lock only, and the TCP thread of a worker finishes one install before the next. -/
def fetchStep (cl : Cluster) (g : Guard) (s : SharedState) (a : FetchAction) : Option SharedState :=
  let moved := (s.fetch.step cl a).map fun fetch => { s with fetch := fetch }
  match a with
  | .write addr _ =>
      if s.lock.master.pc = .idle ∧ (addr = g.page → s.lock.master.inside g.lock = true) then
        if addr = g.page then moved.map markRewritten else moved
      else none
  | .worker _ (.fault _) => none
  | .worker w (.map _) => if (s.loads w).pc = .none then moved else none
  | .worker w (.receive _) => if (s.loads w).signalling = false then moved else none
  | .worker w (.finish mprotectOk) =>
      moved.map fun t => t.setLoads w { s.loads w with signalling := mprotectOk }
  | _ => moved

/-- The steps of the application thread in a load, of the fault thread around
`dsm_page_fault_handle`, and of the TCP thread after an install. -/
def loadStep (cl : Cluster) (g : Guard) (s : SharedState) (w : NodeId) : LoadAction → Option SharedState
  | .start addr =>
      if (s.loads w).pc = .none ∧ (s.lock.worker w).pc = .idle ∧
          ((s.fetch.worker w).pages (pageBase addr)).isSome ∧
          (pageBase addr = g.page → (s.lock.worker w).inside g.lock = true) then
        some (s.setLoads w { s.loads w with pc := .load addr })
      else none
  | .load =>
      match (s.loads w).pc with
      | .load addr =>
          match (s.fetch.worker w).pages (pageBase addr) with
          | none => none
          | some p =>
              if p.prot = .none then some (s.setLoads w { s.loads w with pc := .storeAddr addr })
              else
                some (s.setLoads w { s.loads w with
                  pc := .none
                  hasRead := (s.loads w).hasRead || pageBase addr == g.page })
      | _ => none
  | .storeAddr =>
      match (s.loads w).pc with
      | .storeAddr addr =>
          some (s.setLoads w { s.loads w with pc := .clearHandled addr, pendingFaultAddr := some addr })
      | _ => none
  | .clearHandled =>
      match (s.loads w).pc with
      | .clearHandled addr =>
          some (s.setLoads w { s.loads w with pc := .writeEvent addr, faultHandled := false })
      | _ => none
  | .writeEvent =>
      match (s.loads w).pc with
      | .writeEvent addr =>
          some (s.setLoads w { s.loads w with pc := .spin addr, eventfd := (s.loads w).eventfd + 1 })
      | _ => none
  | .ret =>
      match (s.loads w).pc with
      | .spin addr =>
          if (s.loads w).faultHandled then some (s.setLoads w { s.loads w with pc := .load addr })
          else none
      | _ => none
  | .wake =>
      if (s.loads w).handler = .read ∧ 0 < (s.loads w).eventfd then
        match (s.loads w).pendingFaultAddr with
        | none => some (s.setLoads w { s.loads w with eventfd := 0, faultHandled := true })
        | some addr =>
            (s.fetch.step cl (.worker w (.fault addr))).map fun fetch =>
              { s.setLoads w { s.loads w with eventfd := 0, handler := .handle } with fetch := fetch }
      else none
  | .clear =>
      if (s.loads w).handler = .handle ∧ (s.fetch.worker w).fault = .idle then
        some (s.setLoads w { s.loads w with handler := .done, pendingFaultAddr := none })
      else none
  | .done =>
      if (s.loads w).handler = .done then
        some (s.setLoads w { s.loads w with handler := .read, faultHandled := true })
      else none
  | .signal =>
      if (s.loads w).signalling = true then
        some (s.setLoads w { s.loads w with signalling := false, faultHandled := true })
      else none

def step (cl : Cluster) (g : Guard) (s : SharedState) : SharedAction → Option SharedState
  | .lock a => s.lockStep cl a
  | .fetch a => s.fetchStep cl g a
  | .load w a => if w ∈ cl.workers then s.loadStep cl g w a else none

end SharedState

def LoadThread.initial : LoadThread :=
  { pc := .none, handler := .read, pendingFaultAddr := none, faultHandled := false, eventfd := 0,
    signalling := false, hasRead := false, rewritten := false }

def SharedState.initial : SharedState :=
  { lock := .initial, fetch := .initial, loads := fun _ => .initial }

def sharedMachine (cl : Cluster) (g : Guard) : Machine SharedState SharedAction where
  start s := s = .initial
  step := SharedState.step cl g

/-- The next step of worker `w` is a load that succeeds and finds the page at `addr` with the content
`bytes`. -/
def SharedState.Reads (s : SharedState) (w : NodeId) (addr : Nat) (bytes : PageBytes) : Prop :=
  (s.loads w).pc = .load addr ∧
    ∃ p, (s.fetch.worker w).pages (pageBase addr) = some p ∧ p.prot ≠ .none ∧ p.bytes = bytes

/-! ### What a step can do -/

/-- The effects of the steps of the pages. -/
inductive SharedState.FetchEffect (cl : Cluster) (g : Guard) (s : SharedState) :
    FetchAction → SharedState → Prop where
  | moved {a : FetchAction} {fetch : FetchState} (hfetch : s.fetch.step cl a = some fetch)
      (hwrite : ∀ bytes, a ≠ .write g.page bytes) (hfault : ∀ w addr, a ≠ .worker w (.fault addr)) :
      FetchEffect cl g s a { s with fetch := fetch }
  | write {bytes : PageBytes} {fetch : FetchState} (hinside : s.lock.master.inside g.lock = true)
      (hfetch : s.fetch.step cl (.write g.page bytes) = some fetch) :
      FetchEffect cl g s (.write g.page bytes) (markRewritten { s with fetch := fetch })
  | finish {w : NodeId} {mprotectOk : Bool} {fetch : FetchState}
      (hfetch : s.fetch.step cl (.worker w (.finish mprotectOk)) = some fetch) :
      FetchEffect cl g s (.worker w (.finish mprotectOk))
        (({ s with fetch := fetch } : SharedState).setLoads w
          { s.loads w with signalling := mprotectOk })

theorem SharedState.fetchStep_effect {cl : Cluster} {g : Guard} {s t : SharedState}
    {a : FetchAction} (h : s.fetchStep cl g a = some t) : s.FetchEffect cl g a t := by
  have hmoved : (∀ bytes, a ≠ .write g.page bytes) → (∀ w addr, a ≠ .worker w (.fault addr)) →
      (s.fetch.step cl a).map (fun fetch => { s with fetch := fetch }) = some t →
      s.FetchEffect cl g a t := by
    intro hwrite hfault h
    obtain ⟨fetch, hfetch, rfl⟩ := Option.map_eq_some_iff.mp h
    exact .moved hfetch hwrite hfault
  cases a with
  | alloc addr => exact hmoved nofun nofun h
  | serve w => exact hmoved nofun nofun h
  | write addr bytes =>
      simp only [SharedState.fetchStep, Option.ite_none_right_eq_some] at h
      obtain ⟨⟨-, hinside⟩, h⟩ := h
      split_ifs at h with haddr
      · subst haddr
        simp only [Option.map_map, Option.map_eq_some_iff] at h
        obtain ⟨fetch, hfetch, rfl⟩ := h
        exact .write (hinside rfl) hfetch
      · refine hmoved (fun bytes' heq => ?_) nofun h
        cases heq
        exact haddr rfl
  | worker w b =>
      cases b with
      | fault addr => cases h
      | map addr =>
          simp only [SharedState.fetchStep, Option.ite_none_right_eq_some] at h
          exact hmoved nofun nofun h.2
      | receive mprotectOk =>
          simp only [SharedState.fetchStep, Option.ite_none_right_eq_some] at h
          exact hmoved nofun nofun h.2
      | finish mprotectOk =>
          simp only [SharedState.fetchStep, Option.map_map, Option.map_eq_some_iff] at h
          obtain ⟨fetch, hfetch, rfl⟩ := h
          exact .finish hfetch
      | check | request | leave | timeout | giveUp | copy => exact hmoved nofun nofun h

/-- The effects of the steps around the loads of worker `w`. -/
inductive SharedState.LoadEffect (cl : Cluster) (g : Guard) (s : SharedState) (w : NodeId) :
    LoadAction → SharedState → Prop where
  | start {addr : Nat} (hpc : (s.loads w).pc = .none)
      (hguard : pageBase addr = g.page → (s.lock.worker w).inside g.lock = true) :
      LoadEffect cl g s w (.start addr) (s.setLoads w { s.loads w with pc := .load addr })
  | loadFault {addr : Nat} (hpc : (s.loads w).pc = .load addr) :
      LoadEffect cl g s w .load (s.setLoads w { s.loads w with pc := .storeAddr addr })
  | load {addr : Nat} (hpc : (s.loads w).pc = .load addr) :
      LoadEffect cl g s w .load (s.setLoads w { s.loads w with
        pc := .none
        hasRead := (s.loads w).hasRead || pageBase addr == g.page })
  | storeAddr {addr : Nat} (hpc : (s.loads w).pc = .storeAddr addr) :
      LoadEffect cl g s w .storeAddr
        (s.setLoads w { s.loads w with pc := .clearHandled addr, pendingFaultAddr := some addr })
  | clearHandled {addr : Nat} (hpc : (s.loads w).pc = .clearHandled addr) :
      LoadEffect cl g s w .clearHandled
        (s.setLoads w { s.loads w with pc := .writeEvent addr, faultHandled := false })
  | writeEvent {addr : Nat} (hpc : (s.loads w).pc = .writeEvent addr) :
      LoadEffect cl g s w .writeEvent
        (s.setLoads w { s.loads w with pc := .spin addr, eventfd := (s.loads w).eventfd + 1 })
  | ret {addr : Nat} (hpc : (s.loads w).pc = .spin addr)
      (hhandled : (s.loads w).faultHandled = true) :
      LoadEffect cl g s w .ret (s.setLoads w { s.loads w with pc := .load addr })
  | wakeNone (hpending : (s.loads w).pendingFaultAddr = none) :
      LoadEffect cl g s w .wake
        (s.setLoads w { s.loads w with eventfd := 0, faultHandled := true })
  | wake {addr : Nat} {fetch : FetchState} (hpending : (s.loads w).pendingFaultAddr = some addr)
      (hfetch : s.fetch.step cl (.worker w (.fault addr)) = some fetch) :
      LoadEffect cl g s w .wake
        { s.setLoads w { s.loads w with eventfd := 0, handler := .handle } with fetch := fetch }
  | clear (hhandler : (s.loads w).handler = .handle) (hidle : (s.fetch.worker w).fault = .idle) :
      LoadEffect cl g s w .clear
        (s.setLoads w { s.loads w with handler := .done, pendingFaultAddr := none })
  | done (hhandler : (s.loads w).handler = .done) :
      LoadEffect cl g s w .done
        (s.setLoads w { s.loads w with handler := .read, faultHandled := true })
  | signal (hsignalling : (s.loads w).signalling = true) :
      LoadEffect cl g s w .signal
        (s.setLoads w { s.loads w with signalling := false, faultHandled := true })

theorem SharedState.loadStep_effect {cl : Cluster} {g : Guard} {s t : SharedState} {w : NodeId}
    {a : LoadAction} (h : s.loadStep cl g w a = some t) : s.LoadEffect cl g w a t := by
  cases a with
  | start addr =>
      simp only [SharedState.loadStep, Option.ite_none_right_eq_some] at h
      obtain ⟨⟨hpc, -, -, hguard⟩, heq⟩ := h
      cases heq
      exact .start hpc hguard
  | load =>
      simp only [SharedState.loadStep] at h
      split at h
      · rename_i addr hpc
        split at h
        · cases h
        · split_ifs at h
          · cases h
            exact .loadFault hpc
          · cases h
            exact .load hpc
      · cases h
  | storeAddr =>
      simp only [SharedState.loadStep] at h
      split at h
      · rename_i addr hpc
        cases h
        exact .storeAddr hpc
      · cases h
  | clearHandled =>
      simp only [SharedState.loadStep] at h
      split at h
      · rename_i addr hpc
        cases h
        exact .clearHandled hpc
      · cases h
  | writeEvent =>
      simp only [SharedState.loadStep] at h
      split at h
      · rename_i addr hpc
        cases h
        exact .writeEvent hpc
      · cases h
  | ret =>
      simp only [SharedState.loadStep] at h
      split at h
      · rename_i addr hpc
        rw [Option.ite_none_right_eq_some] at h
        obtain ⟨hhandled, heq⟩ := h
        cases heq
        exact .ret hpc hhandled
      · cases h
  | wake =>
      simp only [SharedState.loadStep, Option.ite_none_right_eq_some] at h
      obtain ⟨-, h⟩ := h
      split at h
      · rename_i hpending
        cases h
        exact .wakeNone hpending
      · rename_i addr hpending
        obtain ⟨fetch, hfetch, rfl⟩ := Option.map_eq_some_iff.mp h
        exact .wake hpending hfetch
  | clear =>
      rw [SharedState.loadStep, Option.ite_none_right_eq_some] at h
      obtain ⟨⟨hhandler, hidle⟩, heq⟩ := h
      cases heq
      exact .clear hhandler hidle
  | done =>
      rw [SharedState.loadStep, Option.ite_none_right_eq_some] at h
      obtain ⟨hhandler, heq⟩ := h
      cases heq
      exact .done hhandler
  | signal =>
      rw [SharedState.loadStep, Option.ite_none_right_eq_some] at h
      obtain ⟨hsignalling, heq⟩ := h
      cases heq
      exact .signal hsignalling

end Dsm
