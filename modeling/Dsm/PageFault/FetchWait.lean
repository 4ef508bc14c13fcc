import Dsm.Types
import Dsm.Library.Machine
import Mathlib.Logic.Function.Basic

/-!
# The wait for a page

The fault thread in `dsm_page_fault_handle` and the TCP thread in `dsm_page_install`, for any pages.
The state of a page is guarded by the lock of its record, and the fault thread tests it under
`fault_mutex`. An install stores the new state before it takes `fault_mutex`, so the fault thread
either sees that state at its test, or is in the wait before the broadcast: as long as it is blocked
on a page that is no longer pending, the install of this page has its broadcast still to come
(`no_lost_wakeup`), and after it the thread returns (`fetch_returns`).

A wait may end without a broadcast, and at any time by its time-out.
-/

namespace Dsm

inductive FetchThread where
  | fault
  | tcp
deriving DecidableEq, Repr

/-- Where the fault thread is in `dsm_page_fault_handle`. -/
inductive FetchPc (π : Type*) where
  | idle
  | lockPage (page : π)
  /-- At the tests of the state and of the owner, with the lock of the record. -/
  | check (page : π)
  /-- Before `state = DSM_PAGE_MODIFIED`. -/
  | enable (page : π)
  /-- Before `state = DSM_PAGE_PENDING`. -/
  | pend (page : π)
  | unlockPage (page : π) (request : Bool)
  | send (page : π)
  | giveUpLock (page : π)
  /-- Before `state = DSM_PAGE_INVALID`. -/
  | giveUp (page : π)
  | lockMutex (page : π)
  /-- At the test of the loop, with `fault_mutex`. -/
  | test (page : π)
  /-- Before `pthread_cond_timedwait`, with `fault_mutex`. -/
  | sleep (page : π)
  | blocked (page : π)
  /-- Taken off `fault_cond`, before the wait has got `fault_mutex` again. -/
  | woken (page : π) (timedOut : Bool)
  | unlockMutex (page : π) (timedOut : Bool)
deriving DecidableEq

/-- Where the TCP thread is in `dsm_page_install`. -/
inductive InstallPc (π : Type*) where
  | idle
  | lockPage (page : π)
  /-- At the two `mprotect` and the copy between them. -/
  | copy (page : π)
  /-- Before `state = DSM_PAGE_SHARED`. -/
  | store (page : π)
  | unlockPage (page : π) (stored : Bool)
  | lockMutex (page : π)
  /-- Before `fault_handled = 1`. -/
  | handled (page : π)
  | broadcast (page : π)
  | unlockMutex (page : π)
deriving DecidableEq

structure FetchWait (π : Type*) where
  state : π → PageState
  pageLock : π → Option FetchThread
  faultMutex : Option FetchThread
  faultHandled : Bool
  running : Bool
  fault : FetchPc π
  tcp : InstallPc π

inductive FetchWaitAction (π : Type*) where
  /-- The fault thread is called for an address in the page. -/
  | handle (page : π)
  /-- The TCP thread has a `PAGE_DATA` message for the page. -/
  | install (page : π)
  /-- The next statement of the fault thread; `ok` is what its `mprotect` or its send returns. -/
  | faultStep (ok : Bool)
  | tcpStep (ok : Bool)
  | timeout
  | spurious
  | clearRunning
deriving DecidableEq

namespace FetchWait

variable {π : Type*} [DecidableEq π]

def lockPage (s : FetchWait π) (t : FetchThread) (page : π) : Option (FetchWait π) :=
  if s.pageLock page = none then
    some { s with pageLock := Function.update s.pageLock page (some t) }
  else none

def unlockPage (s : FetchWait π) (page : π) : FetchWait π :=
  { s with pageLock := Function.update s.pageLock page none }

def setState (s : FetchWait π) (page : π) (state : PageState) : FetchWait π :=
  { s with state := Function.update s.state page state }

def lockMutex (s : FetchWait π) (t : FetchThread) : Option (FetchWait π) :=
  if s.faultMutex = none then some { s with faultMutex := some t } else none

/-- The next statement of the fault thread; `own page` where the node owns the page. -/
def faultStep (own : π → Bool) (s : FetchWait π) (ok : Bool) : Option (FetchWait π) :=
  match s.fault with
  | .idle | .blocked _ => none
  | .lockPage page => (s.lockPage .fault page).map ({ · with fault := .check page })
  | .check page =>
      if s.state page = .modified ∨ s.state page = .shared then
        if own page then
          some { s with fault := if ok then .enable page else .unlockPage page false }
        else some { s with fault := .unlockPage page false }
      else if own page then
        some { s with fault := if ok then .enable page else .unlockPage page false }
      else some { s with fault := .pend page }
  | .enable page => some { s.setState page .modified with fault := .unlockPage page false }
  | .pend page => some { s.setState page .pending with fault := .unlockPage page true }
  | .unlockPage page request =>
      some { s.unlockPage page with fault := if request then .send page else .idle }
  | .send page => some { s with fault := if ok then .lockMutex page else .giveUpLock page }
  | .giveUpLock page => (s.lockPage .fault page).map ({ · with fault := .giveUp page })
  | .giveUp page => some { s.setState page .invalid with fault := .unlockPage page false }
  | .lockMutex page => (s.lockMutex .fault).map ({ · with fault := .test page })
  | .test page =>
      some { s with
        fault := if s.state page = .pending ∧ s.running = true then .sleep page
          else .unlockMutex page false }
  | .sleep page => some { s with faultMutex := none, fault := .blocked page }
  | .woken page timedOut =>
      (s.lockMutex .fault).map
        ({ · with fault := if timedOut then .unlockMutex page true else .test page })
  | .unlockMutex page timedOut =>
      some { s with faultMutex := none, fault := if timedOut then .giveUpLock page else .idle }

/-- The next statement of the TCP thread. -/
def tcpStep (s : FetchWait π) (ok : Bool) : Option (FetchWait π) :=
  match s.tcp with
  | .idle => none
  | .lockPage page => (s.lockPage .tcp page).map ({ · with tcp := .copy page })
  | .copy page => some { s with tcp := if ok then .store page else .unlockPage page false }
  | .store page => some { s.setState page .shared with tcp := .unlockPage page true }
  | .unlockPage page stored =>
      some { s.unlockPage page with tcp := if stored then .lockMutex page else .idle }
  | .lockMutex page => (s.lockMutex .tcp).map ({ · with tcp := .handled page })
  | .handled page => some { s with faultHandled := true, tcp := .broadcast page }
  | .broadcast page =>
      match s.fault with
      | .blocked waitedFor =>
          some { s with fault := .woken waitedFor false, tcp := .unlockMutex page }
      | _ => some { s with tcp := .unlockMutex page }
  | .unlockMutex _ => some { s with faultMutex := none, tcp := .idle }

def step (own : π → Bool) (s : FetchWait π) : FetchWaitAction π → Option (FetchWait π)
  | .handle page => if s.fault = .idle then some { s with fault := .lockPage page } else none
  | .install page => if s.tcp = .idle then some { s with tcp := .lockPage page } else none
  | .faultStep ok => s.faultStep own ok
  | .tcpStep ok => s.tcpStep ok
  | .timeout =>
      match s.fault with
      | .blocked page => some { s with fault := .woken page true }
      | _ => none
  | .spurious =>
      match s.fault with
      | .blocked page => some { s with fault := .woken page false }
      | _ => none
  | .clearRunning => some { s with running := false }

/-- Both threads are outside their functions, and no lock is held. -/
structure Start (s : FetchWait π) : Prop where
  fault : s.fault = .idle
  tcp : s.tcp = .idle
  pageLock : ∀ page, s.pageLock page = none
  faultMutex : s.faultMutex = none

end FetchWait

/-- The install of the page has stored its state, and its broadcast is still to come. -/
def InstallPc.Finishing {π : Type*} (pc : InstallPc π) (page : π) : Prop :=
  pc = .unlockPage page true ∨ pc = .lockMutex page ∨ pc = .handled page ∨ pc = .broadcast page

section

variable {π : Type*}

def fetchWaitMachine [DecidableEq π] (own : π → Bool) : Machine (FetchWait π) (FetchWaitAction π) where
  start s := s.Start
  step := FetchWait.step own

/-- The fault thread is blocked on `fault_cond` for a page that is no longer pending only while a
broadcast for that page is to come. -/
def FetchWait.NoLostWakeup (s : FetchWait π) : Prop :=
  ∀ page, s.fault = .blocked page → s.state page ≠ .pending → s.tcp.Finishing page

/-! ### Who is where -/

/-- The thread holds `fault_mutex`. -/
def FetchPc.inMutex : FetchPc π → Bool
  | .test _ | .sleep _ | .unlockMutex .. => true
  | _ => false

def InstallPc.inMutex : InstallPc π → Bool
  | .handled _ | .broadcast _ | .unlockMutex _ => true
  | _ => false

/-- The page that the fault thread has found pending at its last test. -/
def FetchPc.waitsFor : FetchPc π → Option π
  | .sleep page | .blocked page => some page
  | _ => none

namespace FetchWait

structure Inv (s : FetchWait π) : Prop where
  fault : s.fault.inMutex = true ↔ s.faultMutex = some .fault
  tcp : s.tcp.inMutex = true ↔ s.faultMutex = some .tcp
  waiting : ∀ page, s.fault.waitsFor = some page → s.state page ≠ .pending → s.tcp.Finishing page

theorem Inv.noLostWakeup {s : FetchWait π} (h : s.Inv) : s.NoLostWakeup := by
  intro page hblocked hstate
  exact h.waiting page (by rw [hblocked]; rfl) hstate

theorem Start.inv {s : FetchWait π} (h : s.Start) : s.Inv where
  fault := by
    rw [h.fault, h.faultMutex]
    exact ⟨nofun, nofun⟩
  tcp := by
    rw [h.tcp, h.faultMutex]
    exact ⟨nofun, nofun⟩
  waiting page hwaits := by
    rw [h.fault] at hwaits
    cases hwaits

/-- A fault thread that waits for nothing has moved outside `fault_mutex`, or inside. -/
theorem Inv.setFault {s : FetchWait π} (h : s.Inv) {pc : FetchPc π} (hin : pc.inMutex = s.fault.inMutex)
    (hwaits : pc.waitsFor = none) (state : π → PageState) (pageLock : π → Option FetchThread) :
    Inv { s with fault := pc, state := state, pageLock := pageLock } where
  fault := hin ▸ h.fault
  tcp := h.tcp
  waiting page hpage := by cases hwaits.symm.trans hpage

theorem Inv.lockFault {s : FetchWait π} (h : s.Inv) (hfree : s.faultMutex = none) {pc : FetchPc π}
    (hin : pc.inMutex = true) (hwaits : pc.waitsFor = none) :
    Inv { s with fault := pc, faultMutex := some .fault } where
  fault := iff_of_true hin rfl
  tcp := by
    refine iff_of_false (fun htcp => ?_) nofun
    rw [h.tcp, hfree] at htcp
    cases htcp
  waiting page hpage := by cases hwaits.symm.trans hpage

theorem Inv.unlockFault {s : FetchWait π} (h : s.Inv) (hheld : s.fault.inMutex = true) {pc : FetchPc π}
    (hin : pc.inMutex = false)
    (hwaits : ∀ page, pc.waitsFor = some page → s.fault.waitsFor = some page) :
    Inv { s with fault := pc, faultMutex := none } where
  fault := iff_of_false (by rw [hin]; decide) nofun
  tcp := by
    refine iff_of_false (fun htcp => ?_) nofun
    cases (h.tcp.mp htcp).symm.trans (h.fault.mp hheld)
  waiting page hpage := h.waiting page (hwaits page hpage)

theorem Inv.setTcp {s : FetchWait π} (h : s.Inv) {pc : InstallPc π} (hin : pc.inMutex = s.tcp.inMutex)
    (hfinishing : ∀ page, s.tcp.Finishing page → pc.Finishing page)
    (pageLock : π → Option FetchThread) (faultHandled : Bool) :
    Inv { s with tcp := pc, pageLock := pageLock, faultHandled := faultHandled } where
  fault := h.fault
  tcp := hin ▸ h.tcp
  waiting page hpage hstate := hfinishing page (h.waiting page hpage hstate)

theorem Inv.lockTcp {s : FetchWait π} (h : s.Inv) (hfree : s.faultMutex = none) {page : π}
    (hpc : s.tcp = .lockMutex page) :
    Inv { s with tcp := .handled page, faultMutex := some .tcp } where
  fault := by
    refine iff_of_false (fun hfault => ?_) nofun
    rw [h.fault, hfree] at hfault
    cases hfault
  tcp := iff_of_true rfl rfl
  waiting other hother hstate := by
    have hfinishing := h.waiting other hother hstate
    rw [hpc] at hfinishing
    rcases hfinishing with hbefore | hpage | hbefore | hbefore
    · cases hbefore
    · obtain rfl := InstallPc.lockMutex.inj hpage
      exact .inr (.inr (.inl rfl))
    · cases hbefore
    · cases hbefore

/-- After the broadcast nobody waits: a thread that has found its page pending and is not blocked yet
holds `fault_mutex`. -/
theorem Inv.broadcast {s : FetchWait π} (h : s.Inv) {page : π} (hpc : s.tcp = .broadcast page)
    {pc : FetchPc π} (hfault : (∃ other, s.fault = .blocked other ∧ pc = .woken other false) ∨
      (∀ other, s.fault ≠ .blocked other) ∧ pc = s.fault) :
    Inv { s with fault := pc, tcp := .unlockMutex page } := by
  have hheld : s.faultMutex = some .tcp := h.tcp.mp (by rw [hpc]; rfl)
  have hout : s.fault.inMutex ≠ true := fun hin => by cases hheld.symm.trans (h.fault.mp hin)
  have hnew : pc.inMutex ≠ true ∧ pc.waitsFor = none := by
    rcases hfault with ⟨other, -, rfl⟩ | ⟨hblocked, rfl⟩
    · exact ⟨nofun, rfl⟩
    · refine ⟨hout, ?_⟩
      cases hf : s.fault with
      | blocked other => exact absurd hf (hblocked other)
      | sleep other =>
          rw [hf] at hout
          exact absurd rfl hout
      | _ => rfl
  refine ⟨iff_of_false hnew.1 (by rw [hheld]; nofun), iff_of_true rfl hheld, fun other hother => ?_⟩
  cases hnew.2.symm.trans hother

theorem Inv.unlockTcp {s : FetchWait π} (h : s.Inv) {page : π} (hpc : s.tcp = .unlockMutex page) :
    Inv { s with tcp := .idle, faultMutex := none } where
  fault := by
    have hheld : s.faultMutex = some .tcp := h.tcp.mp (by rw [hpc]; rfl)
    refine iff_of_false (fun hfault => ?_) nofun
    cases hheld.symm.trans (h.fault.mp hfault)
  tcp := ⟨nofun, nofun⟩
  waiting other hother hstate := by
    have hfinishing := h.waiting other hother hstate
    rw [hpc, InstallPc.Finishing] at hfinishing
    simp at hfinishing

variable [DecidableEq π]

/-- The page that is stored has its broadcast to come, and no other page has changed. -/
theorem Inv.store {s : FetchWait π} (h : s.Inv) {page : π} (hpc : s.tcp = .store page) :
    Inv { s.setState page .shared with tcp := .unlockPage page true } where
  fault := h.fault
  tcp := by
    have hout := h.tcp
    rw [hpc] at hout
    exact hout
  waiting other hother hstate := by
    by_cases heq : other = page
    · subst heq
      exact .inl rfl
    · have hold : s.state other ≠ .pending := by
        change Function.update s.state page .shared other ≠ .pending at hstate
        rwa [Function.update_of_ne heq] at hstate
      have hfinishing := h.waiting other hother hold
      rw [hpc, InstallPc.Finishing] at hfinishing
      simp at hfinishing

theorem lockPage_eq_some {s t : FetchWait π} {thread : FetchThread} {page : π}
    (h : s.lockPage thread page = some t) : ∃ pageLock, t = { s with pageLock := pageLock } := by
  rw [lockPage, Option.ite_none_right_eq_some] at h
  exact ⟨_, (Option.some.inj h.2).symm⟩

omit [DecidableEq π] in
theorem lockMutex_eq_some {s t : FetchWait π} {thread : FetchThread}
    (h : s.lockMutex thread = some t) :
    s.faultMutex = none ∧ t = { s with faultMutex := some thread } := by
  rw [lockMutex, Option.ite_none_right_eq_some] at h
  exact ⟨h.1, (Option.some.inj h.2).symm⟩

theorem Inv.faultStep {own : π → Bool} {s t : FetchWait π} {ok : Bool} (h : s.Inv)
    (ht : s.faultStep own ok = some t) : t.Inv := by
  rw [FetchWait.faultStep] at ht
  cases hpc : s.fault with
  | idle | blocked => simp [hpc] at ht
  | lockPage page | giveUpLock page =>
      simp only [hpc] at ht
      obtain ⟨u, hu, rfl⟩ := Option.map_eq_some_iff.mp ht
      obtain ⟨pageLock, rfl⟩ := lockPage_eq_some hu
      exact h.setFault (by rw [hpc]; rfl) rfl s.state pageLock
  | check page =>
      have hout : ∀ pc : FetchPc π, pc.inMutex = false → pc.waitsFor = none →
          Inv { s with fault := pc } := fun pc hin hwaits =>
        h.setFault (by rw [hin, hpc]; rfl) hwaits s.state s.pageLock
      simp only [hpc] at ht
      split_ifs at ht <;> cases ht <;> exact hout _ rfl rfl
  | enable page | pend page | giveUp page =>
      simp only [hpc] at ht
      cases ht
      exact h.setFault (by rw [hpc]; rfl) rfl _ s.pageLock
  | unlockPage page request =>
      simp only [hpc] at ht
      cases ht
      cases request <;> exact h.setFault (by rw [hpc]; rfl) rfl s.state _
  | send page =>
      simp only [hpc] at ht
      cases ht
      cases ok <;> exact h.setFault (by rw [hpc]; rfl) rfl s.state s.pageLock
  | lockMutex page =>
      simp only [hpc] at ht
      obtain ⟨u, hu, rfl⟩ := Option.map_eq_some_iff.mp ht
      obtain ⟨hfree, rfl⟩ := lockMutex_eq_some hu
      exact h.lockFault hfree rfl rfl
  | test page =>
      simp only [hpc] at ht
      cases ht
      split_ifs with hwait
      · -- the page is pending at the test
        refine ⟨?_, h.tcp, fun other hother hstate => ?_⟩
        · exact iff_of_true rfl (h.fault.mp (by rw [hpc]; rfl))
        · obtain rfl : page = other := Option.some.inj hother
          exact absurd hwait.1 hstate
      · exact h.setFault (by rw [hpc]; rfl) rfl s.state s.pageLock
  | sleep page =>
      simp only [hpc] at ht
      cases ht
      refine h.unlockFault (by rw [hpc]; rfl) rfl fun other hother => ?_
      rw [hpc]
      exact hother
  | woken page timedOut =>
      simp only [hpc] at ht
      obtain ⟨u, hu, rfl⟩ := Option.map_eq_some_iff.mp ht
      obtain ⟨hfree, rfl⟩ := lockMutex_eq_some hu
      cases timedOut <;> exact h.lockFault hfree rfl rfl
  | unlockMutex page timedOut =>
      simp only [hpc] at ht
      cases ht
      cases timedOut <;> exact h.unlockFault (by rw [hpc]; rfl) rfl nofun

theorem Inv.tcpStep {s t : FetchWait π} {ok : Bool} (h : s.Inv) (ht : s.tcpStep ok = some t) :
    t.Inv := by
  rw [FetchWait.tcpStep] at ht
  have hnone : ∀ (pc pc' : InstallPc π), s.tcp = pc → (∀ page, ¬ pc.Finishing page) →
      ∀ page, s.tcp.Finishing page → pc'.Finishing page := by
    rintro pc pc' rfl hnot page hpage
    exact absurd hpage (hnot page)
  cases hpc : s.tcp with
  | idle => simp [hpc] at ht
  | lockPage page =>
      simp only [hpc] at ht
      obtain ⟨u, hu, rfl⟩ := Option.map_eq_some_iff.mp ht
      obtain ⟨pageLock, rfl⟩ := lockPage_eq_some hu
      refine h.setTcp (by rw [hpc]; rfl) (hnone _ _ hpc fun other => ?_) pageLock s.faultHandled
      simp [InstallPc.Finishing]
  | copy page =>
      simp only [hpc] at ht
      cases ht
      refine h.setTcp (by rw [hpc]; cases ok <;> rfl) (hnone _ _ hpc fun other => ?_) s.pageLock
        s.faultHandled
      simp [InstallPc.Finishing]
  | store page =>
      simp only [hpc] at ht
      cases ht
      exact h.store hpc
  | unlockPage page stored =>
      simp only [hpc] at ht
      cases ht
      refine h.setTcp (by rw [hpc]; cases stored <;> rfl) (fun other hother => ?_) _ s.faultHandled
      simp only [hpc, InstallPc.Finishing, InstallPc.unlockPage.injEq, reduceCtorEq, or_false] at hother
      obtain ⟨rfl, rfl⟩ := hother
      exact .inr (.inl rfl)
  | lockMutex page =>
      simp only [hpc] at ht
      obtain ⟨u, hu, rfl⟩ := Option.map_eq_some_iff.mp ht
      obtain ⟨hfree, rfl⟩ := lockMutex_eq_some hu
      exact h.lockTcp hfree hpc
  | handled page =>
      simp only [hpc] at ht
      cases ht
      refine h.setTcp (by rw [hpc]; rfl) (fun other hother => ?_) s.pageLock true
      simp only [hpc, InstallPc.Finishing, InstallPc.handled.injEq, reduceCtorEq, or_false,
        false_or] at hother
      obtain rfl := hother
      exact .inr (.inr (.inr rfl))
  | broadcast page =>
      simp only [hpc] at ht
      split at ht
      · rename_i other hfault
        cases ht
        exact h.broadcast hpc (.inl ⟨other, hfault, rfl⟩)
      · rename_i hfault
        cases ht
        exact h.broadcast hpc (.inr ⟨hfault, rfl⟩)
  | unlockMutex page =>
      simp only [hpc] at ht
      cases ht
      exact h.unlockTcp hpc

theorem Inv.step {own : π → Bool} {s t : FetchWait π} {a : FetchWaitAction π} (h : s.Inv)
    (ht : s.step own a = some t) : t.Inv := by
  cases a with
  | handle page =>
      simp only [FetchWait.step, Option.ite_none_right_eq_some, Option.some.injEq] at ht
      obtain ⟨hpc, rfl⟩ := ht
      exact h.setFault (by rw [hpc]; rfl) rfl s.state s.pageLock
  | install page =>
      simp only [FetchWait.step, Option.ite_none_right_eq_some, Option.some.injEq] at ht
      obtain ⟨hpc, rfl⟩ := ht
      refine h.setTcp (by rw [hpc]; rfl) (fun other hother => ?_) s.pageLock s.faultHandled
      rw [hpc] at hother
      simp [InstallPc.Finishing] at hother
  | faultStep ok => exact h.faultStep ht
  | tcpStep ok => exact h.tcpStep ht
  | timeout | spurious =>
      simp only [FetchWait.step] at ht
      cases hpc : s.fault with
      | blocked page =>
          simp only [hpc] at ht
          cases ht
          exact h.setFault (by rw [hpc]; rfl) rfl s.state s.pageLock
      | _ => simp [hpc] at ht
  | clearRunning =>
      cases ht
      exact ⟨h.fault, h.tcp, h.waiting⟩

theorem Inv.of_reachable {own : π → Bool} {s : FetchWait π} (h : (fetchWaitMachine own).Reachable s) :
    s.Inv :=
  Machine.Reachable.invariant (P := Inv) (fun _ => Start.inv) (fun _ _ _ => Inv.step) h

end FetchWait

variable [DecidableEq π]

/-- Whatever the order of the steps, a fault thread that is blocked on a page that is no longer pending
is going to be woken: the install that has stored the state has its broadcast to come. -/
theorem no_lost_wakeup {own : π → Bool} {s : FetchWait π} (h : (fetchWaitMachine own).Reachable s) :
    s.NoLostWakeup :=
  (FetchWait.Inv.of_reachable h).noLostWakeup

/-- Page 0 is pending and the fault thread is blocked when the TCP thread stores its state. -/
def storedWhileBlocked : List (FetchWaitAction ℕ) :=
  .handle 0 :: List.replicate 8 (.faultStep true) ++ [.install 0, .tcpStep true, .tcpStep true,
    .tcpStep true]

/-- Both threads are idle, and no page is here. -/
def FetchWait.initial : FetchWait ℕ :=
  { state := fun _ => .invalid, pageLock := fun _ => none, faultMutex := none, faultHandled := false
    running := true, fault := .idle, tcp := .idle }

theorem no_lost_wakeup_stored : ∃ s : FetchWait ℕ, s.fault = .blocked 0 ∧ s.state 0 = .shared ∧
    s.tcp.Finishing 0 := by
  have hrun : (((fetchWaitMachine fun _ => false).exec .initial storedWhileBlocked).map
      fun s => (s.fault, s.state 0)) = some (.blocked 0, .shared) := by decide +kernel
  obtain ⟨s, hs, hout⟩ := Option.map_eq_some_iff.mp hrun
  obtain ⟨hfault, hstate⟩ := Prod.mk.inj hout
  have hstart : (fetchWaitMachine fun _ : ℕ => false).start .initial := ⟨rfl, rfl, fun _ => rfl, rfl⟩
  have hlost := no_lost_wakeup ((Machine.Reachable.start hstart).exec hs)
  exact ⟨s, hfault, hstate, hlost 0 hfault (by rw [hstate]; decide)⟩

/-- The steps of the TCP thread that are left to the end of its install, all succeeding. -/
def InstallPc.toEnd : InstallPc π → List (FetchWaitAction π)
  | .unlockPage .. => List.replicate 5 (.tcpStep true)
  | .lockMutex _ => List.replicate 4 (.tcpStep true)
  | .handled _ => List.replicate 3 (.tcpStep true)
  | .broadcast _ => List.replicate 2 (.tcpStep true)
  | _ => []

/-- The end of that install and three steps of the fault thread, which gets `fault_mutex`, sees the new
state and leaves. -/
theorem fetch_returns {own : π → Bool} {s : FetchWait π} (h : (fetchWaitMachine own).Reachable s)
    {page : π} (hblocked : s.fault = .blocked page) (hstate : s.state page ≠ .pending) :
    ∃ t, (fetchWaitMachine own).exec s (s.tcp.toEnd ++ List.replicate 3 (.faultStep true)) = some t ∧
      t.fault = .idle ∧ t.tcp = .idle ∧ t.state = s.state := by
  obtain ⟨hfault, htcp, hwaiting⟩ := FetchWait.Inv.of_reachable h
  have hfinishing := hwaiting page (by rw [hblocked]; rfl) hstate
  have hfree : s.faultMutex = none ∨ s.faultMutex = some .tcp := by
    cases hmutex : s.faultMutex with
    | none => exact .inl rfl
    | some thread =>
        cases thread with
        | tcp => exact .inr rfl
        | fault =>
            rw [hmutex, hblocked] at hfault
            cases hfault.mpr rfl
  have hidle : s.tcp = .unlockPage page true ∨ s.tcp = .lockMutex page → s.faultMutex = none := by
    intro hpc
    refine hfree.resolve_right fun hmutex => ?_
    have hout : s.tcp.inMutex = false := by rcases hpc with hpc | hpc <;> rw [hpc] <;> rfl
    rw [htcp.mpr hmutex] at hout
    cases hout
  rcases hfinishing with hpc | hpc | hpc | hpc
  all_goals simp [fetchWaitMachine, InstallPc.toEnd, hpc, hblocked, hidle, hstate, FetchWait.step,
    FetchWait.faultStep, FetchWait.tcpStep, FetchWait.lockMutex, FetchWait.unlockPage, List.replicate]

end

end Dsm
