import Dsm.Types
import Mathlib.Logic.Function.Basic

/-!
# Failed initialization

`dsm_init_with_params` with everything that it acquires, every way in which it can fail, and what it
releases then. `held` is what the process holds, beside the variables through which the program reaches
it, so that something can stay behind when its variable is gone.

On every path of failure the descriptors and tables are released and the `SIGSEGV` action is restored,
but none of the three threads is stopped, as `dsm_finalize` stops them: a thread that was started keeps
its flag, and the next call takes it for running (`initWithParams_fresh`, `unwound_iff`).

Calls whose result the program ignores are left out, and so are the connections that the TCP thread
accepts meanwhile, and mutexes and conditions, which hold nothing.
-/

namespace Dsm

/-- A call that can fail and make a function of the initialization return `-1`. -/
inductive InitCall where
  | allocMutex
  | faultMutex
  | faultCond
  | seqMutex
  | discoveryMutex
  | discoveryCond
  | eventfd
  | getifaddrs
  /-- The search for a network interface. -/
  | interface
  | nodeTableCalloc
  | nodeTableRwlock
  | tcpSocket
  | tcpBind
  | tcpListen
  | epollCreate
  | epollCtl
  | tcpThread
  | udpSocket
  | udpBroadcast
  | udpBind
  | udpThread
  | sendto
  | pageTableCalloc
  | pagesCalloc
  | pageTableRwlock
  | mmap
  | mprotect
  | regionCalloc
  | sigaction
  | faultThread
  | lockMutex (i : ℕ)
  | lockCond (i : ℕ)
  | barrierMutex
  | barrierCond
deriving DecidableEq

inductive InitThread where
  | tcp
  | udp
  | fault
deriving DecidableEq

/-- What a process holds beside the sockets of its peers. -/
inductive InitResource where
  | eventfd
  | nodeTable
  | listenFd
  | epollFd
  /-- A thread that was created and not joined. -/
  | thread (t : InitThread)
  | udpSocket
  | pageTable
  | region
deriving DecidableEq

/-- The action for `SIGSEGV`. -/
inductive SegvAction where
  /-- All zero, as a static variable is at first. -/
  | zero
  | application
  | handler
deriving DecidableEq

@[ext] structure InitProcess where
  held : List InitResource
  /-- The fields of `g_dsm_ctx`: `running`, `initialized`, and which descriptors and pointers are set. -/
  running : Bool
  initialized : Bool
  eventfd : Bool
  nodeTable : Bool
  pageTable : Bool
  regions : Bool
  /-- The static variables: which descriptors are set, and the three flags `g_*_running`. -/
  listenFd : Bool
  epollFd : Bool
  udpSocket : Bool
  flag : InitThread → Bool
  sigsegv : SegvAction
  oldSigsegv : SegvAction
  /-- The threads that are in their loops. -/
  loop : InitThread → Bool

namespace InitProcess

/-- Before the first call. -/
def fresh : InitProcess :=
  { held := [], running := false, initialized := false, eventfd := false, nodeTable := false
    pageTable := false, regions := false, listenFd := false, epollFd := false, udpSocket := false
    flag := fun _ => false, sigsegv := .application, oldSigsegv := .zero, loop := fun _ => false }

def acquire (s : InitProcess) (r : InitResource) : InitProcess := { s with held := r :: s.held }

def release (s : InitProcess) (r : InitResource) : InitProcess := { s with held := s.held.erase r }

end InitProcess

open InitProcess

/-! ### The context and the node table -/

def contextInit (ok : InitCall → Bool) (s : InitProcess) : Int × InitProcess :=
  let s := { s with
    running := false, initialized := false, eventfd := false, nodeTable := false, pageTable := false
    regions := false }
  if !(ok .allocMutex && ok .faultMutex && ok .faultCond && ok .seqMutex && ok .discoveryMutex &&
      ok .discoveryCond) then (-1, s)
  else if !ok .eventfd then (-1, s)
  else (0, { s.acquire .eventfd with eventfd := true, running := true })

def contextDestroy (s : InitProcess) : InitProcess :=
  let s := { s with running := false }
  if s.eventfd then { s.release .eventfd with eventfd := false } else s

def netGetLocalIp (ok : InitCall → Bool) : Int :=
  if !ok .getifaddrs then -1 else if !ok .interface then -1 else 0

def nodeTableInit (ok : InitCall → Bool) (s : InitProcess) : Int × InitProcess :=
  if !ok .nodeTableCalloc then (-1, { s with nodeTable := false })
  else if !ok .nodeTableRwlock then (-1, { s with nodeTable := false })
  else (0, { s.acquire .nodeTable with nodeTable := true })

def nodeTableDestroy (s : InitProcess) : InitProcess :=
  if s.nodeTable then { s.release .nodeTable with nodeTable := false } else s

/-! ### Threads -/

def InitProcess.started (s : InitProcess) (t : InitThread) : InitProcess :=
  { s.acquire (.thread t) with
    flag := Function.update s.flag t true
    loop := Function.update s.loop t true }

/-- `dsm_*_start_*` of a thread that `call` creates. -/
def startThread (t : InitThread) (call : InitCall) (ok : InitCall → Bool) (s : InitProcess) :
    Int × InitProcess :=
  if s.flag t then (0, s)
  else if !ok call then (-1, { s with flag := Function.update s.flag t false })
  else (0, s.started t)

/-- `dsm_*_stop_*`, which joins the thread. -/
def stopThread (t : InitThread) (s : InitProcess) : InitProcess :=
  if s.flag t then
    { s.release (.thread t) with
      flag := Function.update s.flag t false
      loop := Function.update s.loop t false }
  else s

def tcpStartServer : (InitCall → Bool) → InitProcess → Int × InitProcess := startThread .tcp .tcpThread

def tcpStopServer : InitProcess → InitProcess := stopThread .tcp

def udpStartListener : (InitCall → Bool) → InitProcess → Int × InitProcess := startThread .udp .udpThread

def udpStopListener : InitProcess → InitProcess := stopThread .udp

def pagefaultStartHandler : (InitCall → Bool) → InitProcess → Int × InitProcess :=
  startThread .fault .faultThread

def pagefaultStopHandler : InitProcess → InitProcess := stopThread .fault

/-- The threads look at their loop conditions, `g_*_running && ctx->running`. -/
def InitProcess.settle (s : InitProcess) : InitProcess :=
  { s with loop := fun t => s.loop t && s.flag t && s.running }

/-! ### The other subsystems -/

def closeListenFd (s : InitProcess) : InitProcess := { s.release .listenFd with listenFd := false }

def closeEpollFd (s : InitProcess) : InitProcess := { s.release .epollFd with epollFd := false }

def tcpInit (ok : InitCall → Bool) (s : InitProcess) : Int × InitProcess :=
  if !ok .tcpSocket then (-1, { s with listenFd := false })
  else
    let s := { s.acquire .listenFd with listenFd := true }
    if !ok .tcpBind then (-1, closeListenFd s)
    else if !ok .tcpListen then (-1, closeListenFd s)
    else if !ok .epollCreate then (-1, closeListenFd { s with epollFd := false })
    else
      let s := { s.acquire .epollFd with epollFd := true }
      if !ok .epollCtl then (-1, closeListenFd (closeEpollFd s)) else (0, s)

def tcpShutdown (s : InitProcess) : InitProcess :=
  let s := if s.epollFd then closeEpollFd s else s
  if s.listenFd then closeListenFd s else s

def closeUdpSocket (s : InitProcess) : InitProcess := { s.release .udpSocket with udpSocket := false }

def udpInit (ok : InitCall → Bool) (s : InitProcess) : Int × InitProcess :=
  if !ok .udpSocket then (-1, { s with udpSocket := false })
  else
    let s := { s.acquire .udpSocket with udpSocket := true }
    if !ok .udpBroadcast then (-1, closeUdpSocket s)
    else if !ok .udpBind then (-1, closeUdpSocket s)
    else (0, s)

def udpShutdown (s : InitProcess) : InitProcess := if s.udpSocket then closeUdpSocket s else s

def udpBroadcastDiscover (ok : InitCall → Bool) (s : InitProcess) : Int :=
  if !s.udpSocket then -1 else if !ok .sendto then -1 else 0

def pageTableInit (ok : InitCall → Bool) (s : InitProcess) : Int × InitProcess :=
  if !ok .pageTableCalloc then (-1, { s with pageTable := false })
  else if !ok .pagesCalloc then (-1, { s with pageTable := false })
  else if !ok .pageTableRwlock then (-1, { s with pageTable := false })
  else (0, { s.acquire .pageTable with pageTable := true })

def pageTableDestroy (s : InitProcess) : InitProcess :=
  if s.pageTable then { s.release .pageTable with pageTable := false } else s

/-- `dsm_region_create` of the local region. -/
def localRegionCreate (ok : InitCall → Bool) (s : InitProcess) : Option InitProcess :=
  if !ok .mmap then none
  else if !ok .mprotect then none
  else if !ok .regionCalloc then none
  else some { s.acquire .region with regions := true }

def memInit (ok : InitCall → Bool) (s : InitProcess) : Int × InitProcess :=
  let (ret, s) := pageTableInit ok s
  if ret ≠ 0 then (-1, s)
  else
    match localRegionCreate ok s with
    | none => (-1, pageTableDestroy s)
    | some s => (0, s)

def memShutdown (s : InitProcess) : InitProcess :=
  pageTableDestroy (if s.regions then { s.release .region with regions := false } else s)

def pagefaultInit (ok : InitCall → Bool) (s : InitProcess) : Int × InitProcess :=
  if !ok .sigaction then (-1, s)
  else (0, { s with sigsegv := .handler, oldSigsegv := s.sigsegv })

def pagefaultShutdown (s : InitProcess) : InitProcess := { s with sigsegv := s.oldSigsegv }

def syncInit (ok : InitCall → Bool) : Int :=
  if !(List.range maxLocks).all (fun i => ok (.lockMutex i) && ok (.lockCond i)) then -1
  else if !ok .barrierMutex then -1
  else if !ok .barrierCond then -1
  else 0

/-! ### `dsm_init_with_params` and `dsm_finalize` -/

/-- A call whose failure is answered by `unwind` and the return of `-1`. -/
def attempt (call : Int × InitProcess) (unwind : InitProcess → InitProcess)
    (rest : InitProcess → Int × InitProcess) : Int × InitProcess :=
  if call.1 ≠ 0 then (-1, unwind call.2) else rest call.2

def initWithParams (ok : InitCall → Bool) (s : InitProcess) : Int × InitProcess :=
  attempt (contextInit ok s) id fun s =>
  attempt (netGetLocalIp ok, s) contextDestroy fun s =>
  attempt (nodeTableInit ok s) contextDestroy fun s =>
  attempt (tcpInit ok s) (contextDestroy ∘ nodeTableDestroy) fun s =>
  attempt (tcpStartServer ok s) (contextDestroy ∘ nodeTableDestroy ∘ tcpShutdown) fun s =>
  attempt (udpInit ok s) (contextDestroy ∘ nodeTableDestroy ∘ tcpShutdown) fun s =>
  attempt (udpStartListener ok s)
    (contextDestroy ∘ nodeTableDestroy ∘ tcpShutdown ∘ udpShutdown) fun s =>
  attempt (udpBroadcastDiscover ok s, s)
    (contextDestroy ∘ nodeTableDestroy ∘ tcpShutdown ∘ udpShutdown) fun s =>
  attempt (memInit ok s) (contextDestroy ∘ nodeTableDestroy ∘ tcpShutdown ∘ udpShutdown) fun s =>
  attempt (pagefaultInit ok s)
    (contextDestroy ∘ nodeTableDestroy ∘ tcpShutdown ∘ udpShutdown ∘ memShutdown) fun s =>
  attempt (pagefaultStartHandler ok s)
    (contextDestroy ∘ nodeTableDestroy ∘ tcpShutdown ∘ udpShutdown ∘ memShutdown ∘ pagefaultShutdown)
    fun s =>
  attempt (syncInit ok, s)
    (contextDestroy ∘ nodeTableDestroy ∘ tcpShutdown ∘ udpShutdown ∘ memShutdown ∘ pagefaultShutdown)
    fun s => (0, { s with initialized := true })

def finalize (s : InitProcess) : InitProcess :=
  if !s.initialized then s
  else
    let s := { s with running := false }
    let s := tcpStopServer (udpStopListener (pagefaultStopHandler s))
    let s := tcpShutdown (udpShutdown (memShutdown (pagefaultShutdown s)))
    { contextDestroy (nodeTableDestroy s) with initialized := false }

/-- Every thread is stopped, every descriptor and table released, and the `SIGSEGV` action restored. -/
structure InitProcess.Released (s : InitProcess) : Prop where
  stopped : ∀ t, s.flag t = false ∧ .thread t ∉ s.held
  released : s.held = []
  restored : s.sigsegv = .application

/-- What a call that fails is to leave behind, so that the next call is like a first one. -/
structure InitProcess.Unwound (s : InitProcess) : Prop extends s.Released where
  again : ∀ ok, initWithParams ok s.settle = initWithParams ok .fresh

/-! ### Stages -/

/-- The calls of `dsm_init_with_params`, in their order. -/
inductive InitStage where
  | context
  | localIp
  | nodeTable
  | tcpInit
  | tcpStart
  | udpInit
  | udpStart
  | broadcast
  | mem
  | pagefaultInit
  | pagefaultStart
  | sync
deriving DecidableEq

namespace InitStage

def all : List InitStage :=
  [.context, .localIp, .nodeTable, .tcpInit, .tcpStart, .udpInit, .udpStart, .broadcast, .mem,
    .pagefaultInit, .pagefaultStart, .sync]

/-- Whether all that a stage calls succeeds. -/
def ok (ok : InitCall → Bool) : InitStage → Bool
  | .context =>
      ok .allocMutex && ok .faultMutex && ok .faultCond && ok .seqMutex && ok .discoveryMutex &&
        ok .discoveryCond && ok .eventfd
  | .localIp => ok .getifaddrs && ok .interface
  | .nodeTable => ok .nodeTableCalloc && ok .nodeTableRwlock
  | .tcpInit => ok .tcpSocket && ok .tcpBind && ok .tcpListen && ok .epollCreate && ok .epollCtl
  | .tcpStart => ok .tcpThread
  | .udpInit => ok .udpSocket && ok .udpBroadcast && ok .udpBind
  | .udpStart => ok .udpThread
  | .broadcast => ok .sendto
  | .mem =>
      ok .pageTableCalloc && ok .pagesCalloc && ok .pageTableRwlock && ok .mmap && ok .mprotect &&
        ok .regionCalloc
  | .pagefaultInit => ok .sigaction
  | .pagefaultStart => ok .faultThread
  | .sync =>
      (List.range maxLocks).all (fun i => ok (.lockMutex i) && ok (.lockCond i)) && ok .barrierMutex &&
        ok .barrierCond

/-- The threads that run when a stage begins, the last one first. -/
def threads : InitStage → List InitThread
  | .context | .localIp | .nodeTable | .tcpInit | .tcpStart => []
  | .udpInit | .udpStart => [.tcp]
  | .broadcast | .mem | .pagefaultInit | .pagefaultStart => [.udp, .tcp]
  | .sync => [.fault, .udp, .tcp]

/-- No thread has been started yet. -/
def BeforeThreads (st : InitStage) : Prop := st.threads = []

instance : DecidablePred BeforeThreads := fun st => inferInstanceAs (Decidable (st.threads = []))

/-- What a stage that succeeds adds. -/
def gain : InitStage → InitProcess → InitProcess
  | .context, s => { s.acquire .eventfd with eventfd := true, running := true }
  | .localIp, s | .broadcast, s | .sync, s => s
  | .nodeTable, s => { s.acquire .nodeTable with nodeTable := true }
  | .tcpInit, s => { (s.acquire .listenFd).acquire .epollFd with listenFd := true, epollFd := true }
  | .tcpStart, s => s.started .tcp
  | .udpInit, s => { s.acquire .udpSocket with udpSocket := true }
  | .udpStart, s => s.started .udp
  | .mem, s => { (s.acquire .pageTable).acquire .region with pageTable := true, regions := true }
  | .pagefaultInit, s => { s with sigsegv := .handler, oldSigsegv := s.sigsegv }
  | .pagefaultStart, s => s.started .fault

/-- The state in which a stage begins. -/
def before (st : InitStage) : InitProcess := (all.takeWhile (· ≠ st)).foldl (fun s st => st.gain s) fresh

/-- What `dsm_init_with_params` does where the stage fails. -/
def unwind : InitStage → InitProcess → InitProcess
  | .context => id
  | .localIp | .nodeTable => contextDestroy
  | .tcpInit => contextDestroy ∘ nodeTableDestroy
  | .tcpStart | .udpInit => contextDestroy ∘ nodeTableDestroy ∘ tcpShutdown
  | .udpStart | .broadcast | .mem => contextDestroy ∘ nodeTableDestroy ∘ tcpShutdown ∘ udpShutdown
  | .pagefaultInit => contextDestroy ∘ nodeTableDestroy ∘ tcpShutdown ∘ udpShutdown ∘ memShutdown
  | .pagefaultStart | .sync =>
      contextDestroy ∘ nodeTableDestroy ∘ tcpShutdown ∘ udpShutdown ∘ memShutdown ∘ pagefaultShutdown

/-- What a failure in the stage leaves behind: nothing but the threads. -/
def leftover (st : InitStage) : InitProcess :=
  { fresh with
    held := st.threads.map .thread
    flag := fun t => decide (t ∈ st.threads)
    loop := fun t => decide (t ∈ st.threads)
    oldSigsegv := match st with
      | .pagefaultStart | .sync => .application
      | _ => .zero }

end InitStage

section

variable (ok : InitCall → Bool)

theorem attempt_ite (b : Bool) (s t : InitProcess) (unwind : InitProcess → InitProcess)
    (rest : InitProcess → Int × InitProcess) :
    attempt (if b then (0, t) else (-1, s)) unwind rest = if b then rest t else (-1, unwind s) := by
  cases b <;> rfl

theorem contextInit_fresh : contextInit ok fresh =
    if InitStage.context.ok ok then (0, InitStage.localIp.before) else (-1, fresh) := by
  unfold contextInit InitStage.ok
  cases ok .allocMutex <;> cases ok .faultMutex <;> cases ok .faultCond <;> cases ok .seqMutex <;>
    cases ok .discoveryMutex <;> cases ok .discoveryCond <;> cases ok .eventfd <;> rfl

theorem netGetLocalIp_before (s : InitProcess) : (netGetLocalIp ok, s) =
    if InitStage.localIp.ok ok then (0, s) else (-1, s) := by
  unfold netGetLocalIp InitStage.ok
  cases ok .getifaddrs <;> cases ok .interface <;> rfl

theorem nodeTableInit_before : nodeTableInit ok InitStage.localIp.before =
    if InitStage.nodeTable.ok ok then (0, InitStage.tcpInit.before)
    else (-1, InitStage.nodeTable.before) := by
  unfold nodeTableInit InitStage.ok
  cases ok .nodeTableCalloc <;> cases ok .nodeTableRwlock <;> rfl

theorem tcpInit_before : tcpInit ok InitStage.tcpInit.before =
    if InitStage.tcpInit.ok ok then (0, InitStage.tcpStart.before)
    else (-1, InitStage.tcpInit.before) := by
  unfold tcpInit InitStage.ok
  cases ok .tcpSocket <;> cases ok .tcpBind <;> cases ok .tcpListen <;> cases ok .epollCreate <;>
    cases ok .epollCtl <;> rfl

theorem startThread_of_not_flag {t : InitThread} {call : InitCall} {s : InitProcess}
    (h : s.flag t = false) :
    startThread t call ok s = if ok call then (0, s.started t) else (-1, s) := by
  rw [startThread, h]
  cases ok call
  · have hsame : Function.update s.flag t false = s.flag := h ▸ Function.update_eq_self ..
    simp [hsame]
  · rfl

theorem tcpStartServer_before : tcpStartServer ok InitStage.tcpStart.before =
    if InitStage.tcpStart.ok ok then (0, InitStage.udpInit.before)
    else (-1, InitStage.tcpStart.before) := startThread_of_not_flag ok rfl

theorem udpInit_before : udpInit ok InitStage.udpInit.before =
    if InitStage.udpInit.ok ok then (0, InitStage.udpStart.before)
    else (-1, InitStage.udpInit.before) := by
  unfold udpInit InitStage.ok
  cases ok .udpSocket <;> cases ok .udpBroadcast <;> cases ok .udpBind <;> rfl

theorem udpStartListener_before : udpStartListener ok InitStage.udpStart.before =
    if InitStage.udpStart.ok ok then (0, InitStage.broadcast.before)
    else (-1, InitStage.udpStart.before) := startThread_of_not_flag ok rfl

theorem udpBroadcastDiscover_before :
    (udpBroadcastDiscover ok InitStage.broadcast.before, InitStage.broadcast.before) =
      if InitStage.broadcast.ok ok then (0, InitStage.mem.before)
      else (-1, InitStage.broadcast.before) := by
  unfold udpBroadcastDiscover InitStage.ok
  cases ok .sendto <;> rfl

theorem memInit_before : memInit ok InitStage.mem.before =
    if InitStage.mem.ok ok then (0, InitStage.pagefaultInit.before)
    else (-1, InitStage.mem.before) := by
  unfold memInit pageTableInit localRegionCreate InitStage.ok
  cases ok .pageTableCalloc <;> cases ok .pagesCalloc <;> cases ok .pageTableRwlock <;>
    cases ok .mmap <;> cases ok .mprotect <;> cases ok .regionCalloc <;> rfl

theorem pagefaultInit_before : pagefaultInit ok InitStage.pagefaultInit.before =
    if InitStage.pagefaultInit.ok ok then (0, InitStage.pagefaultStart.before)
    else (-1, InitStage.pagefaultInit.before) := by
  unfold pagefaultInit InitStage.ok
  cases ok .sigaction <;> rfl

theorem pagefaultStartHandler_before : pagefaultStartHandler ok InitStage.pagefaultStart.before =
    if InitStage.pagefaultStart.ok ok then (0, InitStage.sync.before)
    else (-1, InitStage.pagefaultStart.before) := startThread_of_not_flag ok rfl

theorem syncInit_before (s : InitProcess) : (syncInit ok, s) =
    if InitStage.sync.ok ok then (0, s) else (-1, s) := by
  unfold syncInit InitStage.ok
  cases (List.range maxLocks).all (fun i => ok (.lockMutex i) && ok (.lockCond i)) <;>
    cases ok .barrierMutex <;> cases ok .barrierCond <;> rfl

/-- The stages one after the other, up to the first that fails. -/
def runStages : List InitStage → Int × InitProcess
  | [] => (0, { InitStage.sync.before with initialized := true })
  | st :: rest => if st.ok ok then runStages rest else (-1, st.unwind st.before)

theorem initWithParams_eq_runStages : initWithParams ok fresh = runStages ok InitStage.all := by
  simp only [initWithParams, contextInit_fresh, netGetLocalIp_before, attempt_ite, nodeTableInit_before,
    tcpInit_before, tcpStartServer_before, udpInit_before, udpStartListener_before,
    udpBroadcastDiscover_before, memInit_before, pagefaultInit_before, pagefaultStartHandler_before,
    syncInit_before]
  rfl

theorem InitProcess.eq_of_threads {s s' : InitProcess} (hflag : ∀ t, s.flag t = s'.flag t)
    (hloop : ∀ t, s.loop t = s'.loop t)
    (hrest : { s with flag := s'.flag, loop := s'.loop } = s') : s = s' := by
  rw [← hrest, ← funext hflag, ← funext hloop]

theorem InitStage.unwind_before (st : InitStage) : st.unwind st.before = st.leftover := by
  refine eq_of_threads (fun t => ?_) (fun t => ?_) ?_
  · cases st <;> cases t <;> rfl
  · cases st <;> cases t <;> rfl
  · cases st <;> rfl

theorem initWithParams_fresh : initWithParams ok fresh =
    match InitStage.all.find? (fun st => !st.ok ok) with
    | none => (0, { InitStage.sync.before with initialized := true })
    | some st => (-1, st.leftover) := by
  rw [initWithParams_eq_runStages]
  generalize InitStage.all = stages
  induction stages with
  | nil => rfl
  | cons st rest ih =>
      rw [runStages, List.find?_cons]
      cases st.ok ok with
      | true => exact ih
      | false => exact congrArg (Prod.mk (-1)) st.unwind_before

theorem finalize_released (h : (initWithParams ok fresh).1 = 0) :
    (finalize (initWithParams ok fresh).2).Released := by
  rw [initWithParams_fresh] at h ⊢
  split at h
  · exact ⟨fun t => by cases t <;> decide, by decide, by decide⟩
  · cases h

theorem InitProcess.fresh_unwound : fresh.Unwound :=
  ⟨⟨fun _ => ⟨rfl, List.not_mem_nil⟩, rfl, rfl⟩, fun _ => rfl⟩

theorem InitStage.leftover_of_beforeThreads {st : InitStage} (h : st.BeforeThreads) :
    st.leftover = fresh := by
  cases st with
  | context | localIp | nodeTable | tcpInit | tcpStart =>
      refine eq_of_threads (fun t => ?_) (fun t => ?_) rfl <;> cases t <;> rfl
  | _ => cases h

theorem InitStage.leftover_unwound_iff (st : InitStage) : st.leftover.Unwound ↔ st.BeforeThreads :=
  ⟨fun h => List.map_eq_nil_iff.mp h.released, fun h => leftover_of_beforeThreads h ▸ fresh_unwound⟩

theorem unwound_iff (hfail : (initWithParams ok fresh).1 = -1) :
    (initWithParams ok fresh).2.Unwound ↔
      ∃ st ∈ InitStage.all, st.BeforeThreads ∧ st.ok ok = false := by
  rw [initWithParams_fresh] at hfail ⊢
  cases hfind : InitStage.all.find? (fun st => !st.ok ok) with
  | none =>
      rw [hfind] at hfail
      cases hfail
  | some st =>
      refine st.leftover_unwound_iff.trans ⟨fun h => ⟨st, List.mem_of_find?_eq_some hfind, h, ?_⟩, ?_⟩
      · simpa using List.find?_some hfind
      · rintro ⟨st', hmem, hbefore, hnot⟩
        have horder : InitStage.all.Pairwise fun a b => b.BeforeThreads → a.BeforeThreads := by decide
        obtain ⟨-, pre, post, hall, hpre⟩ := List.find?_eq_some_iff_append.mp hfind
        rw [hall] at hmem horder
        rcases List.mem_append.mp hmem with hin | hin
        · simpa [hnot] using hpre st' hin
        · rcases List.mem_cons.mp hin with rfl | hlater
          · exact hbefore
          · exact List.rel_of_pairwise_cons (List.pairwise_append.mp horder).2.1 hlater hbefore

end

theorem unwound_iff_tcpBind : (initWithParams (· ≠ .tcpBind) fresh).2.Unwound :=
  (unwound_iff (· ≠ .tcpBind) (by decide +kernel)).mpr
    ⟨.tcpInit, by decide, rfl, by decide⟩

theorem not_unwound :
    (initWithParams (· ≠ .udpBind) fresh).1 = -1 ∧
      (initWithParams (· ≠ .udpBind) fresh).2.flag .tcp = true ∧
      ¬ (initWithParams (· ≠ .udpBind) fresh).2.Unwound ∧
      (initWithParams (fun _ => true) (initWithParams (· ≠ .udpBind) fresh).2.settle).1 = 0 ∧
      (initWithParams (fun _ => true) (initWithParams (· ≠ .udpBind) fresh).2.settle).2.loop .tcp =
        false ∧
      (initWithParams (fun _ => true) fresh).2.loop .tcp = true := by
  have hflag : (initWithParams (· ≠ .udpBind) fresh).2.flag .tcp = true := by decide +kernel
  refine ⟨by decide +kernel, hflag, fun h => ?_, by decide +kernel, by decide +kernel, by decide +kernel⟩
  cases hflag.symm.trans (h.stopped .tcp).1

end Dsm
