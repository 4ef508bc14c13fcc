import Dsm.Init.Unwinding
import Dsm.Library.Machine
import Mathlib.Data.Bool.Basic
import Mathlib.Data.Finset.Basic
import Mathlib.Data.List.Count

/-!
# Life cycles of a process

Calls of `dsm_init_with_params` and `dsm_finalize` in any order, the first ones failing anywhere, and the
connections to peers that the threads open and close. A process is balanced if it holds what its variables
name, each once, and nothing else, and if every socket of a peer is one that the server thread will close.
`lifecycle_balanced_iff` says how long it stays so. A failure leaves nothing that the next call or
`dsm_finalize` does not find, except for the sockets of peers, which neither of them closes; and a second
initialization clears the variables of the first one, so that what they named is never released.
-/

namespace Dsm

open InitProcess

/-- A process with the sockets of its peers. -/
structure LifeProcess where
  process : InitProcess
  /-- The sockets that are open, accepted or connected. -/
  sockets : Finset Nat
  /-- Those that are in the interest list of `g_epoll_fd`, so that the server thread sees their end. -/
  watched : Finset Nat

inductive LifeAction where
  /-- During the call the threads open these sockets, of which `epoll_ctl` takes the ones in `taken`. -/
  | init (ok : InitCall → Bool) (opened taken : Finset Nat)
  | finalize
  /-- A thread looks at its loop condition. -/
  | look (t : InitThread)
  /-- `handle_new_connection`, which keeps a socket only if `epoll_ctl` takes it. -/
  | accept (fd : Nat)
  /-- `dsm_tcp_connect` on the listener thread, which keeps the socket in any case. -/
  | connect (fd : Nat) (epollOk : Bool)
  /-- `handle_client_data` finds the end of the stream or an error. -/
  | close (fd : Nat)

/-- What the variables of the process name. -/
def InitProcess.names (s : InitProcess) : InitResource → Bool
  | .eventfd => s.eventfd
  | .nodeTable => s.nodeTable
  | .listenFd => s.listenFd
  | .epollFd => s.epollFd
  | .thread t => s.flag t
  | .udpSocket => s.udpSocket
  | .pageTable => s.pageTable
  | .region => s.regions

/-- Everything that is held is named by one variable. -/
def InitProcess.Balanced (s : InitProcess) : Prop := ∀ r, s.held.count r = (s.names r).toNat

def InitProcess.look (s : InitProcess) (t : InitThread) : InitProcess :=
  { s with loop := Function.update s.loop t (s.loop t && s.flag t && s.running) }

namespace LifeProcess

def fresh : LifeProcess := { process := .fresh, sockets := ∅, watched := ∅ }

/-- `dsm_init_with_params` returns `out`; an instance of epoll that it has created watches `taken`. -/
def initialized (s : LifeProcess) (out : Int × InitProcess) (opened taken : Finset Nat) : LifeProcess :=
  { process := out.2
    sockets := opened ∪ s.sockets
    watched := if out.1 = 0 then taken else if out.2.epollFd then s.watched else ∅ }

/-- No socket is closed with `g_epoll_fd`. -/
def finalize (s : LifeProcess) : LifeProcess :=
  { s with
    process := Dsm.finalize s.process
    watched := if s.process.initialized then ∅ else s.watched }

def step (s : LifeProcess) : LifeAction → Option LifeProcess
  | .init ok opened taken =>
      let out := initWithParams ok s.process
      if Disjoint opened s.sockets ∧ taken ⊆ opened ∧ (opened ≠ ∅ → out.2.flag .tcp = true) then
        some (s.initialized out opened taken)
      else none
  | .finalize => some s.finalize
  | .look t => some { s with process := s.process.look t }
  | .accept fd =>
      if s.process.loop .tcp = true ∧ s.process.epollFd = true ∧ fd ∉ s.sockets then
        some { s with sockets := insert fd s.sockets, watched := insert fd s.watched }
      else none
  | .connect fd epollOk =>
      if s.process.loop .udp = true ∧ fd ∉ s.sockets then
        some { s with
          sockets := insert fd s.sockets
          watched := if epollOk && s.process.epollFd then insert fd s.watched else s.watched }
      else none
  | .close fd =>
      if s.process.loop .tcp = true ∧ fd ∈ s.watched then
        some { s with sockets := s.sockets.erase fd, watched := s.watched.erase fd }
      else none

/-- Everything that is held can be released, and only once. -/
structure Balanced (s : LifeProcess) : Prop where
  process : s.process.Balanced
  sockets : s.sockets ⊆ s.watched

end LifeProcess

def lifecycle : Machine LifeProcess LifeAction where
  start s := s = .fresh
  step := LifeProcess.step

/-- Nobody initializes a process that is initialized, no call that fails and no `dsm_finalize` comes to
its end while the socket of a peer is open, and `epoll_ctl` takes every socket. -/
def LifeAction.InTurn (s : LifeProcess) : LifeAction → Prop
  | .init ok opened taken =>
      s.process.initialized = false ∧
        (opened = ∅ ∨ (initWithParams ok s.process).1 = 0 ∧ taken = opened)
  | .finalize => s.process.initialized = true → s.sockets = ∅
  | .connect _ epollOk => epollOk = true ∧ s.process.epollFd = true
  | .look _ | .accept _ | .close _ => True

instance (s : LifeProcess) : DecidablePred (LifeAction.InTurn s)
  | .init _ _ _ => inferInstanceAs (Decidable (_ ∧ (_ ∨ _)))
  | .finalize => inferInstanceAs (Decidable (_ → _))
  | .connect _ _ => inferInstanceAs (Decidable (_ ∧ _))
  | .look _ | .accept _ | .close _ => .isTrue trivial

/-! ### Between two life cycles -/

/-- A process that has threads left, at the most. -/
def InitProcess.idle (held : List InitResource) (flag loop : InitThread → Bool)
    (oldSigsegv : SegvAction) : InitProcess :=
  { fresh with held := held, flag := flag, loop := loop, oldSigsegv := oldSigsegv }

/-- A process that has everything. -/
def InitProcess.up (held : List InitResource) (loop : InitThread → Bool) : InitProcess :=
  { held := held, running := true, initialized := true, eventfd := true, nodeTable := true
    pageTable := true, regions := true, listenFd := true, epollFd := true, udpSocket := true
    flag := fun _ => true, sigsegv := .handler, oldSigsegv := .application, loop := loop }

structure InitProcess.Idle (s : InitProcess) : Prop where
  rest : s = idle s.held s.flag s.loop s.oldSigsegv
  balanced : s.Balanced

structure InitProcess.Up (s : InitProcess) : Prop where
  rest : s = up s.held s.loop
  balanced : s.Balanced

namespace InitStage

/-- `dsm_*_start_*`, which takes a thread that a failure has left for running. -/
def resumed (t : InitThread) (s : InitProcess) : InitProcess :=
  { s with
    held := if s.flag t then s.held else .thread t :: s.held
    flag := Function.update s.flag t true
    loop := if s.flag t then s.loop else Function.update s.loop t true }

/-- What a stage that succeeds adds to a process that has been initialized before. -/
def regain : InitStage → InitProcess → InitProcess
  | .tcpStart, s => resumed .tcp s
  | .udpStart, s => resumed .udp s
  | .pagefaultStart, s => resumed .fault s
  | st, s => st.gain s

/-- The state in which a stage begins. -/
def reached (s : InitProcess) (st : InitStage) : InitProcess :=
  (all.takeWhile (· ≠ st)).foldl (fun s st => st.regain s) s

/-- Whether a stage succeeds. -/
def passes (ok : InitCall → Bool) (flag : InitThread → Bool) : InitStage → Bool
  | .tcpStart => flag .tcp || ok .tcpThread
  | .udpStart => flag .udp || ok .udpThread
  | .pagefaultStart => flag .fault || ok .faultThread
  | st => st.ok ok

end InitStage

theorem startThread_resumed (t : InitThread) (call : InitCall) (ok : InitCall → Bool) (s : InitProcess) :
    startThread t call ok s = if s.flag t || ok call then (0, InitStage.resumed t s) else (-1, s) := by
  rw [startThread, InitStage.resumed, started]
  cases hflag : s.flag t with
  | true =>
      have hsame : Function.update s.flag t true = s.flag := hflag ▸ Function.update_eq_self ..
      simp [hsame]
  | false =>
      have hsame : Function.update s.flag t false = s.flag := hflag ▸ Function.update_eq_self ..
      cases ok call <;> simp [hsame, acquire]

section

variable (ok : InitCall → Bool) (held : List InitResource) (flag loop : InitThread → Bool)
  (oldSigsegv : SegvAction)

/-- The stages one after the other, up to the first that fails. -/
def runFrom (ok : InitCall → Bool) (s : InitProcess) : List InitStage → Int × InitProcess
  | [] => (0, { InitStage.resumed .fault (InitStage.reached s .pagefaultStart) with initialized := true })
  | st :: rest => if st.passes ok s.flag then runFrom ok s rest else (-1, st.unwind (st.reached s))

theorem initWithParams_idle : initWithParams ok (idle held flag loop oldSigsegv) =
    runFrom ok (idle held flag loop oldSigsegv) InitStage.all := by
  let s := idle held flag loop oldSigsegv
  have hcontext : contextInit ok s =
      if InitStage.context.ok ok then (0, InitStage.localIp.reached s) else (-1, s) := by
    unfold contextInit InitStage.ok
    cases ok .allocMutex <;> cases ok .faultMutex <;> cases ok .faultCond <;> cases ok .seqMutex <;>
      cases ok .discoveryMutex <;> cases ok .discoveryCond <;> cases ok .eventfd <;> rfl
  have hnodeTable : nodeTableInit ok (InitStage.localIp.reached s) =
      if InitStage.nodeTable.ok ok then (0, InitStage.tcpInit.reached s)
      else (-1, InitStage.nodeTable.reached s) := by
    unfold nodeTableInit InitStage.ok
    cases ok .nodeTableCalloc <;> cases ok .nodeTableRwlock <;> rfl
  have htcp : tcpInit ok (InitStage.tcpInit.reached s) =
      if InitStage.tcpInit.ok ok then (0, InitStage.tcpStart.reached s)
      else (-1, InitStage.tcpInit.reached s) := by
    unfold tcpInit InitStage.ok
    cases ok .tcpSocket <;> cases ok .tcpBind <;> cases ok .tcpListen <;> cases ok .epollCreate <;>
      cases ok .epollCtl <;> rfl
  have htcpStart : tcpStartServer ok (InitStage.tcpStart.reached s) =
      if InitStage.tcpStart.passes ok flag then (0, InitStage.udpInit.reached s)
      else (-1, InitStage.tcpStart.reached s) := startThread_resumed ..
  have hudp : udpInit ok (InitStage.udpInit.reached s) =
      if InitStage.udpInit.ok ok then (0, InitStage.udpStart.reached s)
      else (-1, InitStage.udpInit.reached s) := by
    unfold udpInit InitStage.ok
    cases ok .udpSocket <;> cases ok .udpBroadcast <;> cases ok .udpBind <;> rfl
  have hudpStart : udpStartListener ok (InitStage.udpStart.reached s) =
      if InitStage.udpStart.passes ok flag then (0, InitStage.broadcast.reached s)
      else (-1, InitStage.udpStart.reached s) := startThread_resumed ..
  have hbroadcast : (udpBroadcastDiscover ok (InitStage.broadcast.reached s),
      InitStage.broadcast.reached s) =
      if InitStage.broadcast.ok ok then (0, InitStage.mem.reached s)
      else (-1, InitStage.broadcast.reached s) := by
    unfold udpBroadcastDiscover InitStage.ok
    cases ok .sendto <;> rfl
  have hmem : memInit ok (InitStage.mem.reached s) =
      if InitStage.mem.ok ok then (0, InitStage.pagefaultInit.reached s)
      else (-1, InitStage.mem.reached s) := by
    unfold memInit pageTableInit localRegionCreate InitStage.ok
    cases ok .pageTableCalloc <;> cases ok .pagesCalloc <;> cases ok .pageTableRwlock <;>
      cases ok .mmap <;> cases ok .mprotect <;> cases ok .regionCalloc <;> rfl
  have hpagefault : pagefaultInit ok (InitStage.pagefaultInit.reached s) =
      if InitStage.pagefaultInit.ok ok then (0, InitStage.pagefaultStart.reached s)
      else (-1, InitStage.pagefaultInit.reached s) := by
    unfold pagefaultInit InitStage.ok
    cases ok .sigaction <;> rfl
  have hfault : pagefaultStartHandler ok (InitStage.pagefaultStart.reached s) =
      if InitStage.pagefaultStart.passes ok flag then (0, InitStage.sync.reached s)
      else (-1, InitStage.pagefaultStart.reached s) := startThread_resumed ..
  change initWithParams ok s = runFrom ok s InitStage.all
  simp only [initWithParams, hcontext, netGetLocalIp_before, attempt_ite, hnodeTable, htcp, htcpStart,
    hudp, hudpStart, hbroadcast, hmem, hpagefault, hfault, syncInit_before]
  rfl

end

/-! ### What is held stays balanced -/

namespace InitProcess.Balanced

variable {s t : InitProcess} (h : s.Balanced)
include h

theorem acquire {r : InitResource} (hfree : s.names r = false) (hheld : t.held = r :: s.held)
    (hset : t.names r = true) (hothers : ∀ q, q = r ∨ t.names q = s.names q) : t.Balanced := by
  intro q
  rw [hheld, List.count_cons, h q]
  by_cases hq : q = r
  · subst hq
    simp [hfree, hset]
  · simp [(hothers q).resolve_left hq, Ne.symm hq]

theorem release {r : InitResource} (hset : s.names r = true) (hheld : t.held = s.held.erase r)
    (hclear : t.names r = false) (hothers : ∀ q, q = r ∨ t.names q = s.names q) : t.Balanced := by
  intro q
  rw [hheld, List.count_erase, h q]
  by_cases hq : q = r
  · subst hq
    simp [hset, hclear]
  · simp [(hothers q).resolve_left hq, Ne.symm hq]

theorem contextDestroy : (Dsm.contextDestroy s).Balanced := by
  unfold Dsm.contextDestroy
  dsimp only
  split
  · rename_i hset
    exact h.release (r := .eventfd) hset rfl rfl fun q => by
      cases q <;> first | exact .inl rfl | exact .inr rfl
  · exact h

theorem nodeTableDestroy : (Dsm.nodeTableDestroy s).Balanced := by
  unfold Dsm.nodeTableDestroy
  split
  · rename_i hset
    exact h.release (r := .nodeTable) hset rfl rfl fun q => by
      cases q <;> first | exact .inl rfl | exact .inr rfl
  · exact h

theorem closeEpollFd (hset : s.epollFd = true) : (Dsm.closeEpollFd s).Balanced :=
  h.release (r := .epollFd) hset rfl rfl fun q => by
    cases q <;> first | exact .inl rfl | exact .inr rfl

theorem closeListenFd (hset : s.listenFd = true) : (Dsm.closeListenFd s).Balanced :=
  h.release (r := .listenFd) hset rfl rfl fun q => by
    cases q <;> first | exact .inl rfl | exact .inr rfl

theorem tcpShutdown : (Dsm.tcpShutdown s).Balanced := by
  unfold Dsm.tcpShutdown
  split
  · rename_i hepoll
    dsimp only
    split
    · exact (h.closeEpollFd hepoll).closeListenFd ‹_›
    · exact h.closeEpollFd hepoll
  · dsimp only
    split
    · exact h.closeListenFd ‹_›
    · exact h

theorem udpShutdown : (Dsm.udpShutdown s).Balanced := by
  unfold Dsm.udpShutdown
  split
  · rename_i hset
    exact h.release (r := .udpSocket) hset rfl rfl fun q => by
      cases q <;> first | exact .inl rfl | exact .inr rfl
  · exact h

theorem pageTableDestroy : (Dsm.pageTableDestroy s).Balanced := by
  unfold Dsm.pageTableDestroy
  split
  · rename_i hset
    exact h.release (r := .pageTable) hset rfl rfl fun q => by
      cases q <;> first | exact .inl rfl | exact .inr rfl
  · exact h

theorem memShutdown : (Dsm.memShutdown s).Balanced := by
  refine pageTableDestroy (s := if s.regions then _ else s) ?_
  split
  · rename_i hset
    exact h.release (r := .region) hset rfl rfl fun q => by
      cases q <;> first | exact .inl rfl | exact .inr rfl
  · exact h

theorem pagefaultShutdown : (Dsm.pagefaultShutdown s).Balanced := h

theorem stopThread (t : InitThread) : (Dsm.stopThread t s).Balanced := by
  unfold Dsm.stopThread
  split
  · rename_i hset
    refine h.release (r := .thread t) hset rfl (Function.update_self ..) fun q => ?_
    cases q with
    | thread u => exact (eq_or_ne u t).imp (congrArg _) fun hu => Function.update_of_ne hu ..
    | _ => exact .inr rfl
  · exact h

theorem resumed (t : InitThread) : (InitStage.resumed t s).Balanced := by
  have hothers : ∀ q, q = .thread t ∨ (InitStage.resumed t s).names q = s.names q := by
    intro q
    cases q with
    | thread u => exact (eq_or_ne u t).imp (congrArg _) fun hu => Function.update_of_ne hu ..
    | _ => exact .inr rfl
  have hnow : (InitStage.resumed t s).names (.thread t) = true := Function.update_self ..
  cases hset : s.flag t with
  | true =>
      intro q
      rw [show (InitStage.resumed t s).held = s.held from if_pos hset, h q]
      rcases hothers q with rfl | hsame
      · rw [hnow]
        exact congrArg Bool.toNat hset
      · rw [hsame]
  | false =>
      have hheld : (InitStage.resumed t s).held = .thread t :: s.held :=
        if_neg (Bool.eq_false_iff.mp hset)
      exact h.acquire (r := .thread t) hset hheld hnow hothers

end InitProcess.Balanced

theorem InitProcess.Balanced.unwind {s : InitProcess} (h : s.Balanced) (st : InitStage) :
    (st.unwind s).Balanced := by
  cases st with
  | context => exact h
  | localIp | nodeTable => exact h.contextDestroy
  | tcpInit => exact h.nodeTableDestroy.contextDestroy
  | tcpStart | udpInit => exact h.tcpShutdown.nodeTableDestroy.contextDestroy
  | udpStart | broadcast | mem => exact h.udpShutdown.tcpShutdown.nodeTableDestroy.contextDestroy
  | pagefaultInit => exact h.memShutdown.udpShutdown.tcpShutdown.nodeTableDestroy.contextDestroy
  | pagefaultStart | sync =>
      exact h.pagefaultShutdown.memShutdown.udpShutdown.tcpShutdown.nodeTableDestroy.contextDestroy

theorem reached_balanced {held : List InitResource} {flag loop : InitThread → Bool}
    {oldSigsegv : SegvAction} (h : (idle held flag loop oldSigsegv).Balanced) (st : InitStage) :
    (st.reached (idle held flag loop oldSigsegv)).Balanced := by
  let s := idle held flag loop oldSigsegv
  have hlocalIp : (InitStage.localIp.reached s).Balanced :=
    h.acquire (r := .eventfd) rfl rfl rfl fun q => by cases q <;> first | exact .inl rfl | exact .inr rfl
  have htcpInit : (InitStage.tcpInit.reached s).Balanced :=
    hlocalIp.acquire (r := .nodeTable) rfl rfl rfl fun q => by
      cases q <;> first | exact .inl rfl | exact .inr rfl
  have hlisten : InitProcess.Balanced
      { (InitStage.tcpInit.reached s).acquire .listenFd with listenFd := true } :=
    htcpInit.acquire (r := .listenFd) rfl rfl rfl fun q => by
      cases q <;> first | exact .inl rfl | exact .inr rfl
  have htcpStart : (InitStage.tcpStart.reached s).Balanced :=
    hlisten.acquire (r := .epollFd) rfl rfl rfl fun q => by
      cases q <;> first | exact .inl rfl | exact .inr rfl
  have hudpInit : (InitStage.udpInit.reached s).Balanced := htcpStart.resumed .tcp
  have hudpStart : (InitStage.udpStart.reached s).Balanced :=
    hudpInit.acquire (r := .udpSocket) rfl rfl rfl fun q => by
      cases q <;> first | exact .inl rfl | exact .inr rfl
  have hmem : (InitStage.mem.reached s).Balanced := hudpStart.resumed .udp
  have hpageTable : InitProcess.Balanced
      { (InitStage.mem.reached s).acquire .pageTable with pageTable := true } :=
    hmem.acquire (r := .pageTable) rfl rfl rfl fun q => by
      cases q <;> first | exact .inl rfl | exact .inr rfl
  have hpagefaultInit : (InitStage.pagefaultInit.reached s).Balanced :=
    hpageTable.acquire (r := .region) rfl rfl rfl fun q => by
      cases q <;> first | exact .inl rfl | exact .inr rfl
  have hsync : (InitStage.sync.reached s).Balanced := InitProcess.Balanced.resumed hpagefaultInit .fault
  cases st with
  | context => exact h
  | localIp | nodeTable => exact hlocalIp
  | tcpInit => exact htcpInit
  | tcpStart => exact htcpStart
  | udpInit => exact hudpInit
  | udpStart => exact hudpStart
  | broadcast | mem => exact hmem
  | pagefaultInit | pagefaultStart => exact hpagefaultInit
  | sync => exact hsync

/-- A process without resources is initialized, or it is left with threads only. -/
theorem initWithParams_of_idle (ok : InitCall → Bool) {s : InitProcess} (h : s.Idle) :
    (initWithParams ok s).1 = 0 ∧ (initWithParams ok s).2.Up ∨
      (initWithParams ok s).1 = -1 ∧ (initWithParams ok s).2.Idle := by
  have hbalanced := h.balanced
  rw [h.rest] at hbalanced ⊢
  rw [initWithParams_idle]
  generalize InitStage.all = stages
  induction stages with
  | nil =>
      refine .inl ⟨rfl, ?_, reached_balanced hbalanced .sync⟩
      rw [runFrom]
      refine eq_of_threads (fun t => ?_) (fun _ => rfl) rfl
      cases t <;> rfl
  | cons st rest ih =>
      rw [runFrom]
      split
      · exact ih
      · exact .inr ⟨rfl, by cases st <;> rfl, (reached_balanced hbalanced st).unwind st⟩

/-- `dsm_finalize` brings the process back to where it was before its first call; only the variable for
the old `SIGSEGV` action has been used. -/
theorem finalize_of_up {s : InitProcess} (h : s.Up) :
    finalize s = { fresh with oldSigsegv := .application } := by
  have hbalanced : (finalize s).Balanced := by
    rw [finalize]
    split
    · exact h.balanced
    · have hrunning : InitProcess.Balanced { s with running := false } := h.balanced
      have hstopped := ((hrunning.stopThread .fault).stopThread .udp).stopThread .tcp
      exact hstopped.pagefaultShutdown.memShutdown.udpShutdown.tcpShutdown.nodeTableDestroy.contextDestroy
  rw [h.rest] at hbalanced ⊢
  have hrest : finalize (up s.held s.loop) =
      { fresh with held := (finalize (up s.held s.loop)).held, oldSigsegv := .application } := by
    refine eq_of_threads (fun t => ?_) (fun t => ?_) rfl <;> cases t <;> rfl
  have hnothing : (finalize (up s.held s.loop)).held = [] := by
    refine List.eq_nil_iff_forall_not_mem.mpr fun r => List.count_eq_zero.mp ((hbalanced r).trans ?_)
    cases r with
    | thread t => cases t <;> rfl
    | _ => rfl
  rw [hrest, hnothing]
  rfl

/-! ### What a second initialization loses -/

/-- How many eventfds the process holds that `fault_eventfd` does not name. -/
def InitProcess.Lost (c : Nat) (s : InitProcess) : Prop :=
  s.held.count .eventfd = c + s.eventfd.toNat

namespace InitProcess.Lost

variable {c : Nat} {s t : InitProcess}

theorem of_same (h : s.Lost c) (hheld : t.held.count .eventfd = s.held.count .eventfd)
    (hset : t.eventfd = s.eventfd) : t.Lost c := by
  rw [Lost, hheld, hset]
  exact h

theorem acquire (h : s.Lost c) {r : InitResource} (hheld : t.held = r :: s.held)
    (hset : t.eventfd = s.eventfd) (hr : r ≠ .eventfd) : t.Lost c :=
  h.of_same (by rw [hheld, List.count_cons_of_ne hr]) hset

theorem release (h : s.Lost c) {r : InitResource} (hheld : t.held = s.held.erase r)
    (hset : t.eventfd = s.eventfd) (hr : r ≠ .eventfd) : t.Lost c :=
  h.of_same (by rw [hheld, List.count_erase_of_ne hr.symm]) hset

theorem contextInit (ok : InitCall → Bool) (h : s.held.count .eventfd = c) :
    (Dsm.contextInit ok s).2.Lost c := by
  unfold Dsm.contextInit
  dsimp only
  split_ifs
  · exact h
  · exact h
  · exact List.count_cons_self.trans (congrArg _ h)

theorem contextDestroy (h : s.Lost c) : (Dsm.contextDestroy s).Lost c := by
  unfold Dsm.contextDestroy
  dsimp only
  split
  · rename_i hset
    rw [Lost, show s.eventfd = true from hset] at h
    exact List.count_erase_self.trans (Nat.sub_eq_of_eq_add h)
  · exact h

theorem nodeTableInit (ok : InitCall → Bool) (h : s.Lost c) : (Dsm.nodeTableInit ok s).2.Lost c := by
  unfold Dsm.nodeTableInit
  split_ifs
  · exact h
  · exact h
  · exact h.acquire (r := .nodeTable) rfl rfl (by decide)

theorem nodeTableDestroy (h : s.Lost c) : (Dsm.nodeTableDestroy s).Lost c := by
  unfold Dsm.nodeTableDestroy
  split
  · exact h.release (r := .nodeTable) rfl rfl (by decide)
  · exact h

theorem startThread (t : InitThread) (call : InitCall) (ok : InitCall → Bool) (h : s.Lost c) :
    (Dsm.startThread t call ok s).2.Lost c := by
  unfold Dsm.startThread
  split_ifs
  · exact h
  · exact h
  · exact h.acquire (r := .thread t) rfl rfl fun heq => by cases heq

theorem stopThread (t : InitThread) (h : s.Lost c) : (Dsm.stopThread t s).Lost c := by
  unfold Dsm.stopThread
  split
  · exact h.release (r := .thread t) rfl rfl fun heq => by cases heq
  · exact h

theorem closeListenFd (h : s.Lost c) : (Dsm.closeListenFd s).Lost c :=
  h.release (r := .listenFd) rfl rfl (by decide)

theorem closeEpollFd (h : s.Lost c) : (Dsm.closeEpollFd s).Lost c :=
  h.release (r := .epollFd) rfl rfl (by decide)

theorem tcpInit (ok : InitCall → Bool) (h : s.Lost c) : (Dsm.tcpInit ok s).2.Lost c := by
  have hlisten : InitProcess.Lost c { s.acquire .listenFd with listenFd := true } :=
    h.acquire (r := .listenFd) rfl rfl (by decide)
  have hnoEpoll : InitProcess.Lost c { s.acquire .listenFd with listenFd := true, epollFd := false } :=
    hlisten
  have hepoll : InitProcess.Lost c
      { { s.acquire .listenFd with listenFd := true }.acquire .epollFd with epollFd := true } :=
    hlisten.acquire (r := .epollFd) rfl rfl (by decide)
  unfold Dsm.tcpInit
  split_ifs
  · exact h
  · exact hlisten.closeListenFd
  · exact hlisten.closeListenFd
  · exact hnoEpoll.closeListenFd
  · exact hepoll.closeEpollFd.closeListenFd
  · exact hepoll

theorem tcpShutdown (h : s.Lost c) : (Dsm.tcpShutdown s).Lost c := by
  unfold Dsm.tcpShutdown
  split
  · dsimp only
    split
    · exact h.closeEpollFd.closeListenFd
    · exact h.closeEpollFd
  · dsimp only
    split
    · exact h.closeListenFd
    · exact h

theorem closeUdpSocket (h : s.Lost c) : (Dsm.closeUdpSocket s).Lost c :=
  h.release (r := .udpSocket) rfl rfl (by decide)

theorem udpInit (ok : InitCall → Bool) (h : s.Lost c) : (Dsm.udpInit ok s).2.Lost c := by
  have hsocket : InitProcess.Lost c { s.acquire .udpSocket with udpSocket := true } :=
    h.acquire (r := .udpSocket) rfl rfl (by decide)
  unfold Dsm.udpInit
  split_ifs
  · exact h
  · exact hsocket.closeUdpSocket
  · exact hsocket.closeUdpSocket
  · exact hsocket

theorem udpShutdown (h : s.Lost c) : (Dsm.udpShutdown s).Lost c := by
  unfold Dsm.udpShutdown
  split
  · exact h.closeUdpSocket
  · exact h

theorem pageTableDestroy (h : s.Lost c) : (Dsm.pageTableDestroy s).Lost c := by
  unfold Dsm.pageTableDestroy
  split
  · exact h.release (r := .pageTable) rfl rfl (by decide)
  · exact h

theorem memInit (ok : InitCall → Bool) (h : s.Lost c) : (Dsm.memInit ok s).2.Lost c := by
  have htable : (Dsm.pageTableInit ok s).2.Lost c := by
    unfold Dsm.pageTableInit
    split_ifs
    · exact h
    · exact h
    · exact h
    · exact h.acquire (r := .pageTable) rfl rfl (by decide)
  unfold Dsm.memInit
  dsimp only
  split
  · exact htable
  · split
    · exact htable.pageTableDestroy
    · rename_i t hregion
      unfold localRegionCreate at hregion
      split_ifs at hregion
      cases hregion
      exact htable.acquire (r := .region) rfl rfl (by decide)

theorem memShutdown (h : s.Lost c) : (Dsm.memShutdown s).Lost c := by
  refine pageTableDestroy (s := if s.regions then _ else s) ?_
  split
  · exact h.release (r := .region) rfl rfl (by decide)
  · exact h

theorem pagefaultInit (ok : InitCall → Bool) (h : s.Lost c) : (Dsm.pagefaultInit ok s).2.Lost c := by
  unfold Dsm.pagefaultInit
  split_ifs <;> exact h

theorem pagefaultShutdown (h : s.Lost c) : (Dsm.pagefaultShutdown s).Lost c := h

theorem attempt {call : Int × InitProcess} {unwind : InitProcess → InitProcess}
    {rest : InitProcess → Int × InitProcess} (hcall : call.2.Lost c)
    (hunwind : ∀ {s}, s.Lost c → (unwind s).Lost c) (hrest : ∀ {s}, s.Lost c → (rest s).2.Lost c) :
    (Dsm.attempt call unwind rest).2.Lost c := by
  unfold Dsm.attempt
  split
  · exact hunwind hcall
  · exact hrest hcall

end InitProcess.Lost

/-- An eventfd that is held when a process is initialized is never named again. -/
theorem initWithParams_lost (ok : InitCall → Bool) (s : InitProcess) :
    (initWithParams ok s).2.Lost (s.held.count .eventfd) := by
  unfold initWithParams
  refine .attempt (.contextInit ok rfl) id fun h => ?_
  refine .attempt h .contextDestroy fun h => ?_
  refine .attempt (h.nodeTableInit ok) .contextDestroy fun h => ?_
  refine .attempt (h.tcpInit ok) (fun h => h.nodeTableDestroy.contextDestroy) fun h => ?_
  have htcp : ∀ {s c}, InitProcess.Lost c s →
      ((contextDestroy ∘ nodeTableDestroy ∘ tcpShutdown) s).Lost c :=
    fun h => h.tcpShutdown.nodeTableDestroy.contextDestroy
  have hudp : ∀ {s c}, InitProcess.Lost c s →
      ((contextDestroy ∘ nodeTableDestroy ∘ tcpShutdown ∘ udpShutdown) s).Lost c :=
    fun h => htcp h.udpShutdown
  refine .attempt (h.startThread .tcp .tcpThread ok) htcp fun h => ?_
  refine .attempt (h.udpInit ok) htcp fun h => ?_
  refine .attempt (h.startThread .udp .udpThread ok) hudp fun h => ?_
  refine .attempt h hudp fun h => ?_
  refine .attempt (h.memInit ok) hudp fun h => ?_
  refine .attempt (h.pagefaultInit ok) (fun h => hudp h.memShutdown) fun h => ?_
  refine .attempt (h.startThread .fault .faultThread ok)
    (fun h => hudp h.pagefaultShutdown.memShutdown) fun h => ?_
  exact .attempt h (fun h => hudp h.pagefaultShutdown.memShutdown) fun h => h

theorem finalize_lost {c : Nat} {s : InitProcess} (h : s.Lost c) : (finalize s).Lost c := by
  unfold finalize
  split
  · exact h
  · have hrunning : InitProcess.Lost c { s with running := false } := h
    have hstopped := ((hrunning.stopThread .fault).stopThread .udp).stopThread .tcp
    exact hstopped.pagefaultShutdown.memShutdown.udpShutdown.tcpShutdown.nodeTableDestroy.contextDestroy

/-! ### Runs -/

/-- An eventfd that no variable names any more. -/
def InitProcess.Leaked (s : InitProcess) : Prop := ∃ c, 0 < c ∧ s.Lost c

theorem InitProcess.Leaked.not_balanced {s : InitProcess} (h : s.Leaked) : ¬ s.Balanced := by
  obtain ⟨c, hpos, hlost⟩ := h
  intro hbalanced
  have heventfd : s.held.count .eventfd = s.eventfd.toNat := hbalanced .eventfd
  rw [Lost] at hlost
  omega

theorem InitProcess.Idle.thread_of_mem {s : InitProcess} (h : s.Idle) {r : InitResource}
    (hr : r ∈ s.held) : ∃ t, r = .thread t := by
  have hcount := h.balanced r
  rw [h.rest] at hcount
  cases r with
  | thread t => exact ⟨t, rfl⟩
  | _ => exact absurd hr (List.count_eq_zero.mp hcount)

theorem InitProcess.Idle.initialized {s : InitProcess} (h : s.Idle) : s.initialized = false := by
  rw [h.rest]
  rfl

theorem InitProcess.Idle.epollFd {s : InitProcess} (h : s.Idle) : s.epollFd = false := by
  rw [h.rest]
  rfl

theorem InitProcess.Up.initialized {s : InitProcess} (h : s.Up) : s.initialized = true := by
  rw [h.rest]
  rfl

theorem InitProcess.Idle.look {s : InitProcess} (h : s.Idle) (t : InitThread) : (s.look t).Idle := by
  refine ⟨?_, h.balanced⟩
  rw [InitProcess.look, h.rest]
  rfl

theorem InitProcess.Up.look {s : InitProcess} (h : s.Up) (t : InitThread) : (s.look t).Up := by
  refine ⟨?_, h.balanced⟩
  rw [InitProcess.look, h.rest]
  rfl

theorem InitProcess.idle_fresh {oldSigsegv : SegvAction} :
    InitProcess.Idle { fresh with oldSigsegv := oldSigsegv } := by
  refine ⟨rfl, fun r => ?_⟩
  cases r <;> rfl

namespace LifeProcess

variable {s t : LifeProcess} {a : LifeAction}

theorem process_step (hstep : s.step a = some t) :
    (∃ ok, t.process = (initWithParams ok s.process).2) ∨ t.process = Dsm.finalize s.process ∨
      (∃ u, t.process = s.process.look u) ∨ t.process = s.process := by
  cases a with
  | init ok opened taken =>
      obtain ⟨-, heq⟩ := Option.ite_none_right_eq_some.mp hstep
      cases heq
      exact .inl ⟨ok, rfl⟩
  | finalize =>
      cases hstep
      exact .inr (.inl rfl)
  | look u =>
      cases hstep
      exact .inr (.inr (.inl ⟨u, rfl⟩))
  | accept | connect | close =>
      obtain ⟨-, heq⟩ := Option.ite_none_right_eq_some.mp hstep
      cases heq
      exact .inr (.inr (.inr rfl))

/-- The process is up, or it holds nothing but threads; the server thread watches every socket. -/
structure Good (s : LifeProcess) : Prop where
  process : s.process.Up ∨ s.process.Idle ∧ s.sockets = ∅
  watched : s.watched = s.sockets

/-- An eventfd that no variable names any more, or a socket of a peer that nobody watches. -/
def Bad (s : LifeProcess) : Prop := s.process.Leaked ∨ ∃ fd ∈ s.sockets, fd ∉ s.watched

theorem Good.balanced (h : s.Good) : s.Balanced :=
  ⟨h.process.elim (fun hup => hup.balanced) fun hidle => hidle.1.balanced, h.watched ▸ subset_rfl⟩

theorem Bad.not_balanced (h : s.Bad) : ¬ s.Balanced := by
  rintro ⟨hprocess, hsockets⟩
  rcases h with hleaked | ⟨fd, hfd, hwatched⟩
  · exact hleaked.not_balanced hprocess
  · exact hwatched (hsockets hfd)

/-- A step in turn takes the process from one of the two kinds of states to one of them. -/
theorem Good.step (h : s.Good) (hturn : a.InTurn s) (hstep : s.step a = some t) : t.Good := by
  obtain ⟨hprocess, hwatched⟩ := h
  cases a with
  | init ok opened taken =>
      obtain ⟨⟨-, hsubset, -⟩, heq⟩ := Option.ite_none_right_eq_some.mp hstep
      cases heq
      obtain ⟨hnot, hopened⟩ := hturn
      obtain ⟨hidle, hsockets⟩ := hprocess.resolve_left fun hup => by simp [hup.initialized] at hnot
      rw [hsockets] at hwatched
      rcases initWithParams_of_idle ok hidle with ⟨hret, hup⟩ | ⟨hret, hidle⟩
      · have htaken : taken = opened := by
          rcases hopened with rfl | ⟨-, htaken⟩
          · exact Finset.subset_empty.mp hsubset
          · exact htaken
        exact ⟨.inl hup, by simp [initialized, hret, hsockets, htaken]⟩
      · have hnone : opened = ∅ := hopened.resolve_right fun hand => by simp [hret] at hand
        exact ⟨.inr ⟨hidle, by simp [initialized, hnone, hsockets]⟩,
          by simp [initialized, hret, hidle.epollFd, hnone, hsockets]⟩
  | finalize =>
      cases hstep
      rcases hprocess with hup | ⟨hidle, hsockets⟩
      · have hsockets := hturn hup.initialized
        refine ⟨.inr ⟨?_, hsockets⟩, by simp [finalize, hup.initialized, hsockets]⟩
        rw [finalize, finalize_of_up hup]
        exact idle_fresh
      · have hsame : Dsm.finalize s.process = s.process := by rw [Dsm.finalize, hidle.initialized]; rfl
        refine ⟨.inr ⟨?_, hsockets⟩, by simp [finalize, hidle.initialized, hwatched]⟩
        rw [finalize, hsame]
        exact hidle
  | look u =>
      cases hstep
      exact ⟨hprocess.imp (·.look u) fun hidle => ⟨hidle.1.look u, hidle.2⟩, hwatched⟩
  | accept fd =>
      obtain ⟨⟨-, hepoll, -⟩, heq⟩ := Option.ite_none_right_eq_some.mp hstep
      cases heq
      refine ⟨.inl (hprocess.resolve_right fun hidle => ?_), congrArg (insert fd) hwatched⟩
      rw [hidle.1.epollFd] at hepoll
      cases hepoll
  | connect fd epollOk =>
      obtain ⟨-, heq⟩ := Option.ite_none_right_eq_some.mp hstep
      cases heq
      obtain ⟨hok, hepoll⟩ := hturn
      refine ⟨.inl (hprocess.resolve_right fun hidle => ?_), by simp [hok, hepoll, hwatched]⟩
      rw [hidle.1.epollFd] at hepoll
      cases hepoll
  | close fd =>
      obtain ⟨⟨-, hfd⟩, heq⟩ := Option.ite_none_right_eq_some.mp hstep
      cases heq
      refine ⟨.inl (hprocess.resolve_right fun hidle => ?_), congrArg (·.erase fd) hwatched⟩
      rw [hwatched, hidle.2] at hfd
      cases hfd

theorem Good.step_notInTurn (h : s.Good) (hturn : ¬ a.InTurn s) (hstep : s.step a = some t) : t.Bad := by
  obtain ⟨hprocess, hwatched⟩ := h
  cases a with
  | init ok opened taken =>
      obtain ⟨⟨-, htaken, -⟩, heq⟩ := Option.ite_none_right_eq_some.mp hstep
      cases heq
      rcases hprocess with hup | ⟨hidle, hsockets⟩
      · refine .inl ⟨s.process.held.count .eventfd, ?_, initWithParams_lost ok s.process⟩
        rw [hup.balanced .eventfd, hup.rest]
        exact Nat.zero_lt_one
      · have hmissed : opened ≠ ∅ ∧ ((initWithParams ok s.process).1 = 0 → taken ≠ opened) := by
          refine ⟨fun hnone => hturn ⟨hidle.initialized, .inl hnone⟩, fun hret hsame => ?_⟩
          exact hturn ⟨hidle.initialized, .inr ⟨hret, hsame⟩⟩
        rw [hsockets] at hwatched
        right
        rcases initWithParams_of_idle ok hidle with ⟨hret, -⟩ | ⟨hret, hidle⟩
        · obtain ⟨fd, hfd, hnot⟩ :=
            Finset.exists_of_ssubset (Finset.ssubset_iff_subset_ne.mpr ⟨htaken, hmissed.2 hret⟩)
          exact ⟨fd, Finset.mem_union_left _ hfd, by simpa [initialized, hret] using hnot⟩
        · obtain ⟨fd, hfd⟩ := Finset.nonempty_iff_ne_empty.mpr hmissed.1
          exact ⟨fd, Finset.mem_union_left _ hfd, by simp [initialized, hret, hidle.epollFd]⟩
  | finalize =>
      cases hstep
      obtain ⟨hinitialized, hopen⟩ : s.process.initialized = true ∧ s.sockets ≠ ∅ := by
        simpa [LifeAction.InTurn] using hturn
      obtain ⟨fd, hfd⟩ := Finset.nonempty_iff_ne_empty.mpr hopen
      exact .inr ⟨fd, hfd, by simp [finalize, hinitialized]⟩
  | connect fd epollOk =>
      obtain ⟨⟨-, hfd⟩, heq⟩ := Option.ite_none_right_eq_some.mp hstep
      cases heq
      refine .inr ⟨fd, Finset.mem_insert_self .., ?_⟩
      have hnot : (epollOk && s.process.epollFd) = false := by
        simpa [LifeAction.InTurn] using hturn
      simpa [hnot, hwatched] using hfd
  | look | accept | close => exact absurd trivial hturn

theorem Bad.step (h : s.Bad) (hstep : s.step a = some t) : t.Bad := by
  rcases h with ⟨c, hpos, hlost⟩ | ⟨fd, hfd, hnot⟩
  · refine .inl ?_
    rcases process_step hstep with ⟨ok, hprocess⟩ | hprocess | ⟨u, hprocess⟩ | hprocess
    · rw [hprocess]
      exact ⟨_, hlost.symm ▸ Nat.add_pos_left hpos _, initWithParams_lost ok s.process⟩
    · rw [hprocess]
      exact ⟨c, hpos, finalize_lost hlost⟩
    · rw [hprocess]
      exact ⟨c, hpos, hlost⟩
    · rw [hprocess]
      exact ⟨c, hpos, hlost⟩
  · refine .inr ⟨fd, ?_⟩
    cases a with
    | init ok opened taken =>
        obtain ⟨⟨hdisjoint, htaken, -⟩, heq⟩ := Option.ite_none_right_eq_some.mp hstep
        cases heq
        have hnew : fd ∉ taken := fun hmem => Finset.disjoint_left.mp hdisjoint (htaken hmem) hfd
        refine ⟨Finset.mem_union_right _ hfd, ?_⟩
        simp only [initialized]
        split_ifs
        · exact hnew
        · exact hnot
        · exact Finset.notMem_empty fd
    | finalize =>
        cases hstep
        refine ⟨hfd, ?_⟩
        simp only [finalize]
        split_ifs
        · exact Finset.notMem_empty fd
        · exact hnot
    | look u =>
        cases hstep
        exact ⟨hfd, hnot⟩
    | accept fd' =>
        obtain ⟨⟨-, -, hfresh⟩, heq⟩ := Option.ite_none_right_eq_some.mp hstep
        cases heq
        have hne : fd ≠ fd' := fun heq => hfresh (heq ▸ hfd)
        exact ⟨Finset.mem_insert_of_mem hfd, fun hmem => hnot (Finset.mem_of_mem_insert_of_ne hmem hne)⟩
    | connect fd' epollOk =>
        obtain ⟨⟨-, hfresh⟩, heq⟩ := Option.ite_none_right_eq_some.mp hstep
        cases heq
        have hne : fd ≠ fd' := fun heq => hfresh (heq ▸ hfd)
        refine ⟨Finset.mem_insert_of_mem hfd, ?_⟩
        dsimp only
        split_ifs
        · exact fun hmem => hnot (Finset.mem_of_mem_insert_of_ne hmem hne)
        · exact hnot
    | close fd' =>
        obtain ⟨⟨-, hmem⟩, heq⟩ := Option.ite_none_right_eq_some.mp hstep
        cases heq
        have hne : fd ≠ fd' := fun heq => hnot (heq ▸ hmem)
        exact ⟨Finset.mem_erase_of_ne_of_mem hne hfd, fun hmem => hnot (Finset.mem_of_mem_erase hmem)⟩

/-- As long as every step is taken in turn the process is up, or it holds nothing but threads; after any
other step something is lost for good. -/
theorem good_or_bad {as : List LifeAction} (h : lifecycle.exec fresh as = some s) :
    (lifecycle.EachStep LifeAction.InTurn fresh as → s.Good) ∧
      (¬ lifecycle.EachStep LifeAction.InTurn fresh as → s.Bad) := by
  have hfresh : fresh.Good := ⟨.inr ⟨idle_fresh, rfl⟩, rfl⟩
  let Inv : LifeProcess → Prop := fun s => s.Good ∨ s.Bad
  have hInv : Inv fresh := .inl hfresh
  refine Machine.good_or_bad_of_exec h hInv hfresh (fun s a t hs hstep => ?_)
    (fun s a t _ hs hturn hstep => hs.step hturn hstep) (fun s a t hs hturn hstep => ?_)
    fun s a t _ hs hstep => hs.step hstep
  · rcases hs with hgood | hbad
    · by_cases hturn : a.InTurn s
      · exact .inl (hgood.step hturn hstep)
      · exact .inr (hgood.step_notInTurn hturn hstep)
    · exact .inr (hbad.step hstep)
  · exact hs.elim (fun hgood => hgood.step_notInTurn hturn hstep) fun hbad => hbad.step hstep

end LifeProcess

/-- In any sequence of calls, everything that the process holds can be released, and only once, exactly if
every step was taken in turn. Then `dsm_finalize` releases everything except for the sockets of peers,
which stay open and are watched by nobody, and between two life cycles the process holds nothing but
threads. -/
theorem lifecycle_balanced_iff {as : List LifeAction} {s : LifeProcess}
    (h : lifecycle.exec .fresh as = some s) :
    (s.Balanced ↔ lifecycle.EachStep LifeAction.InTurn .fresh as) ∧
      (s.Balanced → s.process.initialized = true → s.finalize =
        { process := { fresh with oldSigsegv := .application }, sockets := s.sockets, watched := ∅ }) ∧
      (s.Balanced → s.process.initialized = false →
        s.sockets = ∅ ∧ ∀ r ∈ s.process.held, ∃ t, r = .thread t) := by
  obtain ⟨hgood, hbad⟩ := LifeProcess.good_or_bad h
  have hiff : s.Balanced ↔ lifecycle.EachStep LifeAction.InTurn .fresh as := by
    refine ⟨fun hbalanced => ?_, fun hturn => (hgood hturn).balanced⟩
    by_contra hnot
    exact (hbad hnot).not_balanced hbalanced
  refine ⟨hiff, fun hbalanced hinitialized => ?_, fun hbalanced hinitialized => ?_⟩
  · rcases (hgood (hiff.mp hbalanced)).process with hup | ⟨hidle, -⟩
    · rw [LifeProcess.finalize, finalize_of_up hup, if_pos hinitialized]
    · rw [hidle.initialized] at hinitialized
      cases hinitialized
  · rcases (hgood (hiff.mp hbalanced)).process with hup | ⟨hidle, hsockets⟩
    · rw [hup.initialized] at hinitialized
      cases hinitialized
    · exact ⟨hsockets, fun r => hidle.thread_of_mem⟩

/-- The first call fails and leaves the TCP thread, which the second one takes for running. One peer
connects during that call and another one after it; the connection of the first one ends. -/
def restarted : List LifeAction :=
  [.init (· ≠ .udpBind) ∅ ∅, .init (fun _ => true) {7} {7}, .accept 8, .close 7]

theorem lifecycle_balanced_iff_restarted : ∃ s, lifecycle.exec .fresh restarted = some s ∧
    s.Balanced ∧ s.finalize =
      { process := { fresh with oldSigsegv := .application }, sockets := {8}, watched := ∅ } := by
  have hrun : (lifecycle.exec .fresh restarted).any
      (fun s => s.process.initialized && decide (s.sockets = {8})) = true := by decide +kernel
  obtain ⟨s, hexec, hs⟩ := (Option.any_eq_true ..).mp hrun
  rw [Bool.and_eq_true, decide_eq_true_eq] at hs
  have hturn : lifecycle.checks LifeAction.InTurn .fresh restarted = true := by decide +kernel
  obtain ⟨hiff, hfinal, -⟩ := lifecycle_balanced_iff hexec
  have hbalanced := hiff.mpr (Machine.eachStep_of_checks hturn)
  exact ⟨s, hexec, hbalanced, hs.2 ▸ hfinal hbalanced hs.1⟩

end Dsm
