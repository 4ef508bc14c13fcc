import Dsm.Library.Fairness
import Mathlib.Logic.Function.Basic

/-!
# Faults of several threads

`sigsegv_handler` in any threads of the program, beside the fault handler thread. The flag
`g_in_handler` is to find a fault inside the handler, but it is one flag for all threads: a thread that
faults while another one is between its two assignments to it restores the default action and raises
the signal again. As long as every fault finds the flag clear, no thread does so, and under a fair
scheduler each comes back to its instruction (`faults_return_iff`), for which one slot for the address
and one flag for the completion are enough: a thread that spins has its event still to be read, or the
fault handler thread is at work, or another thread is about to write (`SignalInv`).

An address is one that lies in a region, and no region goes while the thread is in the handler. The
install of a page sets `fault_handled`, too, at any time. A call of `dsm_page_fault_handle` is one step.
The fault handler thread is stopped by `dsm_finalize` only, which has cleared `running` before.
-/

namespace Dsm

/-- Where a thread of the program is in `sigsegv_handler`. -/
inductive SignalPc (α : Type*) where
  | outside
  /-- At the test of `g_in_handler`. -/
  | test (addr : α)
  /-- Before `g_in_handler = 1`. -/
  | enter (addr : α)
  /-- At the walk over the regions, which finds the one of the address. -/
  | walk (addr : α)
  /-- Before the store to `pending_fault_addr`. -/
  | store (addr : α)
  /-- Before `fault_handled = 0`. -/
  | clear
  /-- Before the write to `fault_eventfd`. -/
  | write
  | spin
  /-- Before `g_in_handler = 0`. -/
  | leave
  /-- Before the default action is restored and the signal raised again. -/
  | raise
deriving DecidableEq

/-- Where the fault handler thread is in its loop. -/
inductive ServerPc (α : Type*) where
  /-- At the test of the loop and the read of `fault_eventfd`. -/
  | read
  /-- Before the load of `pending_fault_addr`. -/
  | load
  | handle (addr : α)
  /-- Before `pending_fault_addr = NULL`. -/
  | clear
  /-- Before `fault_handled = 1`. -/
  | done
  | exited
deriving DecidableEq

structure SignalState (τ α : Type*) where
  inHandler : Bool
  pendingFaultAddr : Option α
  faultHandled : Bool
  eventfd : ℕ
  running : Bool
  /-- The default action has ended the process. -/
  killed : Bool
  pc : τ → SignalPc α
  server : ServerPc α

inductive SignalAction (τ α : Type*) where
  | fault (t : τ) (addr : α)
  /-- The next step of a thread in the handler. -/
  | thread (t : τ)
  /-- The next step of the fault handler thread. -/
  | server
  /-- `dsm_page_install` sets `fault_handled`. -/
  | installed
  /-- `dsm_finalize` clears `running`. -/
  | clearRunning
  /-- Nothing of this happens. -/
  | idle
deriving DecidableEq

namespace SignalState

variable {τ α : Type*} [DecidableEq τ]

/-- What a thread that spins waits for. -/
def Done (s : SignalState τ α) : Prop := s.faultHandled = true ∨ s.running = false

instance (s : SignalState τ α) : Decidable s.Done := inferInstanceAs (Decidable (_ ∨ _))

def setPc (s : SignalState τ α) (t : τ) (pc : SignalPc α) : SignalState τ α :=
  { s with pc := Function.update s.pc t pc }

/-- The next step of thread `t` in the handler. -/
def threadStep (s : SignalState τ α) (t : τ) : Option (SignalState τ α) :=
  match s.pc t with
  | .outside => none
  | .test addr => some (s.setPc t (if s.inHandler then .raise else .enter addr))
  | .enter addr => some { s.setPc t (.walk addr) with inHandler := true }
  | .walk addr => some (s.setPc t (.store addr))
  | .store addr => some { s.setPc t .clear with pendingFaultAddr := some addr }
  | .clear => some { s.setPc t .write with faultHandled := false }
  | .write => some { s.setPc t .spin with eventfd := s.eventfd + 1 }
  | .spin => some (if s.Done then s.setPc t .leave else s)
  | .leave => some { s.setPc t .outside with inHandler := false }
  | .raise => some { s with killed := true }

/-- The next step of `fault_handler_thread_func`; a read of an empty `fault_eventfd` fails. -/
def serverStep (s : SignalState τ α) : Option (SignalState τ α) :=
  match s.server with
  | .read =>
      if s.running then
        some (if 0 < s.eventfd then { s with eventfd := 0, server := .load } else s)
      else some { s with server := .exited }
  | .load =>
      match s.pendingFaultAddr with
      | some addr => some { s with server := .handle addr }
      | none => some { s with server := .done }
  | .handle _ => some { s with server := .clear }
  | .clear => some { s with pendingFaultAddr := none, server := .done }
  | .done => some { s with faultHandled := true, server := .read }
  | .exited => none

def step (s : SignalState τ α) (a : SignalAction τ α) : Option (SignalState τ α) :=
  match a with
  | .idle => some s
  | .fault t addr =>
      if s.killed then none
      else
        match s.pc t with
        | .outside => some (s.setPc t (.test addr))
        | _ => none
  | .thread t => if s.killed then none else s.threadStep t
  | .server => if s.killed then none else s.serverStep
  | .installed => if s.killed then none else some { s with faultHandled := true }
  | .clearRunning => if s.killed then none else some { s with running := false }

/-- Nobody is in the handler, and the fault handler thread has started. -/
def initial : SignalState τ α :=
  { inHandler := false, pendingFaultAddr := none, faultHandled := false, eventfd := 0, running := true
    killed := false, pc := fun _ => .outside, server := .read }

end SignalState

section

variable {τ α : Type*} [DecidableEq τ]

variable (τ α) in
def signalMachine : Machine (SignalState τ α) (SignalAction τ α) where
  start s := s = .initial
  step := SignalState.step

/-- A thread that has faulted finds `g_in_handler` clear. -/
def SignalAction.Ok (s : SignalState τ α) : SignalAction τ α → Prop
  | .thread t => ∀ addr, s.pc t = .test addr → s.inHandler = false
  | _ => True

instance (s : SignalState τ α) : DecidablePred (SignalAction.Ok s)
  | .thread t =>
      match hpc : s.pc t with
      | .test addr => decidable_of_iff (s.inHandler = false) ⟨fun h _ _ => h, fun h => h addr hpc⟩
      | .outside | .enter _ | .walk _ | .store _ | .clear | .write | .spin | .leave | .raise =>
          .isTrue fun _ htest => nomatch hpc.symm.trans htest
  | .fault _ _ | .server | .installed | .clearRunning | .idle => .isTrue trivial

/-- As long as the process lives, every thread in the handler and the fault handler thread take steps
for ever, and a thread that spins looks again at some time when what it waits for is there, if it is
there again and again. -/
structure SignalFair (r : (signalMachine τ α).Run) : Prop where
  thread : ∀ t n, (r.state n).pc t ≠ .outside →
    ∃ m, n ≤ m ∧ (r.act m = .thread t ∨ (r.state m).killed = true)
  server : ∀ n, (r.state n).server ≠ .exited →
    ∃ m, n ≤ m ∧ (r.act m = .server ∨ (r.state m).killed = true)
  spin : ∀ t, (∀ n, ∃ m, n ≤ m ∧ (r.state m).pc t = .spin ∧ (r.state m).Done) →
    ∀ n, ∃ m, n ≤ m ∧ r.act m = .thread t ∧ (r.state m).pc t = .spin ∧ (r.state m).Done

/-- No fault takes the branch that ends the process, and every fault comes back to its instruction. -/
structure FaultsReturn (r : (signalMachine τ α).Run) : Prop where
  not_raised : ∀ t n, (r.state n).pc t ≠ .raise
  returns : ∀ t, r.LeadsTo (·.pc t ≠ .outside) (·.pc t = .outside)

/-! ### What a step does -/

namespace SignalState

@[simp] theorem setPc_pc_self (s : SignalState τ α) (t : τ) (pc : SignalPc α) :
    (s.setPc t pc).pc t = pc := Function.update_self ..

theorem setPc_pc_of_ne (s : SignalState τ α) {t u : τ} (pc : SignalPc α) (h : u ≠ t) :
    (s.setPc t pc).pc u = s.pc u := Function.update_of_ne h ..

theorem step_thread {s s' : SignalState τ α} {t : τ} (hs : s.step (.thread t) = some s') :
    s.killed = false ∧ s.threadStep t = some s' := by
  simp only [step] at hs
  split at hs
  · cases hs
  · exact ⟨Bool.eq_false_iff.mpr ‹_›, hs⟩

theorem step_serverStep {s s' : SignalState τ α} (hs : s.step .server = some s') :
    s.killed = false ∧ s.serverStep = some s' := by
  simp only [step] at hs
  split at hs
  · cases hs
  · exact ⟨Bool.eq_false_iff.mpr ‹_›, hs⟩

/-- Where a thread in the handler goes from each place. -/
def next (s : SignalState τ α) : SignalPc α → SignalPc α
  | .outside | .leave => .outside
  | .test addr => if s.inHandler then .raise else .enter addr
  | .enter addr => .walk addr
  | .walk addr => .store addr
  | .store _ => .clear
  | .clear => .write
  | .write => .spin
  | .spin => if s.Done then .leave else .spin
  | .raise => .raise

/-- Everything that a step of thread `t` in the handler can do. -/
structure ThreadEffect (s s' : SignalState τ α) (t : τ) : Prop where
  pc : s'.pc t = s.next (s.pc t)
  others : ∀ u, u ≠ t → s'.pc u = s.pc u
  server : s'.server = s.server
  running : s'.running = s.running
  killed : s.pc t ≠ .raise → s'.killed = s.killed
  handled : s.pc t ≠ .clear → s'.faultHandled = s.faultHandled
  eventfd : s.eventfd ≤ s'.eventfd
  written : s.pc t = .write → 0 < s'.eventfd

theorem threadStep_effect {s s' : SignalState τ α} {t : τ} (hs : s.threadStep t = some s') :
    ThreadEffect s s' t := by
  have hself : ∀ pc : SignalPc α, (s.setPc t pc).pc t = pc := s.setPc_pc_self t
  have hother : ∀ (pc : SignalPc α) u, u ≠ t → (s.setPc t pc).pc u = s.pc u :=
    fun pc u hu => s.setPc_pc_of_ne pc hu
  rw [threadStep] at hs
  cases hat : s.pc t with
  | outside => simp [hat] at hs
  | clear =>
      simp only [hat] at hs
      cases hs
      exact ⟨hat ▸ hself _, hother _, rfl, rfl, fun _ => rfl, fun hne => absurd hat hne,
        Nat.le_refl _, fun hwrite => nomatch hat.symm.trans hwrite⟩
  | write =>
      simp only [hat] at hs
      cases hs
      exact ⟨hat ▸ hself _, hother _, rfl, rfl, fun _ => rfl, fun _ => rfl, Nat.le_succ _,
        fun _ => Nat.succ_pos _⟩
  | spin =>
      simp only [hat] at hs
      cases hs
      by_cases hdone : s.Done
      · rw [if_pos hdone]
        exact ⟨by rw [hat, hself, next, if_pos hdone], hother _, rfl, rfl, fun _ => rfl, fun _ => rfl,
          Nat.le_refl _, fun hwrite => nomatch hat.symm.trans hwrite⟩
      · rw [if_neg hdone]
        exact ⟨by rw [hat, next, if_neg hdone], fun _ _ => rfl, rfl, rfl, fun _ => rfl, fun _ => rfl,
          Nat.le_refl _, fun hwrite => nomatch hat.symm.trans hwrite⟩
  | raise =>
      simp only [hat] at hs
      cases hs
      exact ⟨by rw [hat, next], fun _ _ => rfl, rfl, rfl, fun hne => absurd hat hne, fun _ => rfl,
        Nat.le_refl _, fun hwrite => nomatch hat.symm.trans hwrite⟩
  | _ =>
      simp only [hat] at hs
      cases hs
      exact ⟨hat ▸ hself _, hother _, rfl, rfl, fun _ => rfl, fun _ => rfl, Nat.le_refl _,
        fun hwrite => nomatch hat.symm.trans hwrite⟩

omit [DecidableEq τ] in
theorem eq_spin_of_next {s : SignalState τ α} {pc : SignalPc α} (hwrite : pc ≠ .write)
    (hspin : s.next pc = .spin) : pc = .spin := by
  cases pc with
  | spin => rfl
  | write => exact absurd rfl hwrite
  | test addr =>
      rw [next] at hspin
      split at hspin <;> cases hspin
  | _ => cases hspin

omit [DecidableEq τ] in
theorem serverStep_others {s s' : SignalState τ α} (hs : s.serverStep = some s') :
    s'.pc = s.pc ∧ s'.killed = s.killed := by
  rw [serverStep] at hs
  cases hserver : s.server with
  | exited => simp [hserver] at hs
  | read =>
      simp only [hserver] at hs
      split at hs
      · cases hs
        split <;> exact ⟨rfl, rfl⟩
      · cases hs
        exact ⟨rfl, rfl⟩
  | load =>
      simp only [hserver] at hs
      split at hs <;> cases hs <;> exact ⟨rfl, rfl⟩
  | _ =>
      simp only [hserver] at hs
      cases hs
      exact ⟨rfl, rfl⟩

/-- Everything that is neither a step of a thread in the handler nor of the fault handler thread. -/
theorem step_environment {s s' : SignalState τ α} {a : SignalAction τ α} (hs : s.step a = some s')
    (hthread : ∀ t, a ≠ .thread t) (hserver : a ≠ .server) :
    s'.server = s.server ∧ s'.eventfd = s.eventfd ∧ s'.killed = s.killed ∧
      (s.faultHandled = true → s'.faultHandled = true) ∧ (s'.running = true → s.running = true) ∧
      ∀ t, s'.pc t = s.pc t ∨ s.pc t = .outside ∧ ∃ addr, s'.pc t = .test addr := by
  cases a with
  | thread t => exact absurd rfl (hthread t)
  | server => exact absurd rfl hserver
  | idle =>
      cases hs
      exact ⟨rfl, rfl, rfl, id, id, fun _ => .inl rfl⟩
  | fault t addr =>
      simp only [step] at hs
      split at hs
      · cases hs
      · split at hs
        · rename_i hpc
          cases hs
          refine ⟨rfl, rfl, rfl, id, id, fun u => ?_⟩
          by_cases hut : u = t
          · subst hut
            exact .inr ⟨hpc, addr, s.setPc_pc_self u _⟩
          · exact .inl (s.setPc_pc_of_ne _ hut)
        · cases hs
  | installed =>
      simp only [step] at hs
      split at hs
      · cases hs
      · cases hs
        exact ⟨rfl, rfl, rfl, fun _ => rfl, id, fun _ => .inl rfl⟩
  | clearRunning =>
      simp only [step] at hs
      split at hs
      · cases hs
      · cases hs
        exact ⟨rfl, rfl, rfl, id, nofun, fun _ => .inl rfl⟩

theorem step_pc {s s' : SignalState τ α} {a : SignalAction τ α} (hs : s.step a = some s') {t : τ}
    (hin : s.pc t ≠ .outside) (ha : a ≠ .thread t) : s'.pc t = s.pc t := by
  cases a with
  | thread u => exact (threadStep_effect (step_thread hs).2).others t fun h => ha (congrArg _ h.symm)
  | server => rw [(serverStep_others (step_serverStep hs).2).1]
  | _ =>
      obtain ⟨-, -, -, -, -, hpc⟩ := step_environment hs nofun nofun
      exact (hpc t).resolve_right fun h => hin h.1

theorem step_server {s s' : SignalState τ α} {a : SignalAction τ α} (hs : s.step a = some s')
    (ha : a ≠ .server) : s'.server = s.server := by
  cases a with
  | thread t => exact (threadStep_effect (step_thread hs).2).server
  | server => exact absurd rfl ha
  | _ => exact (step_environment hs nofun nofun).1

end SignalState

/-! ### Who wakes a thread that spins -/

/-- The steps of the fault handler thread to its `fault_handled = 1`, after it has read an event. -/
def ServerPc.ahead {α : Type*} : ServerPc α → ℕ
  | .load => 4
  | .handle _ => 3
  | .clear => 2
  | .done => 1
  | .read | .exited => 0

structure SignalInv (s : SignalState τ α) : Prop where
  woken : s.running = true → s.faultHandled = false → ∀ t, s.pc t = .spin →
    0 < s.eventfd ∨ 0 < s.server.ahead ∨ ∃ u, s.pc u = .write
  exited : s.server = .exited → s.running = false

namespace SignalInv

variable {s s' : SignalState τ α}

omit [DecidableEq τ] in
theorem initial : SignalInv (.initial : SignalState τ α) where
  woken _ _ t ht := by cases ht
  exited := nofun

omit [DecidableEq τ] in
/-- A step that neither brings a thread to its spin nor takes one from its write. -/
theorem of_pc (h : SignalInv s) (hserver : s'.server = s.server) (heventfd : s'.eventfd = s.eventfd)
    (hhandled : s'.faultHandled = false → s.faultHandled = false)
    (hrunning : s'.running = true → s.running = true)
    (hspin : ∀ t, s'.pc t = .spin → s.pc t = .spin) (hwrite : ∀ t, s.pc t = .write → s'.pc t = .write) :
    SignalInv s' where
  woken hr hf t ht := by
    rw [hserver, heventfd]
    rcases h.woken (hrunning hr) (hhandled hf) t (hspin t ht) with hevent | hbusy | ⟨u, hu⟩
    · exact .inl hevent
    · exact .inr (.inl hbusy)
    · exact .inr (.inr ⟨u, hwrite u hu⟩)
  exited he := by
    rw [hserver] at he
    cases hr : s'.running with
    | false => rfl
    | true => cases (hrunning hr).symm.trans (h.exited he)

theorem thread (h : SignalInv s) {t : τ} (hs : s.threadStep t = some s') : SignalInv s' := by
  have heffect := SignalState.threadStep_effect hs
  have hexited : s'.server = .exited → s'.running = false := by
    rw [heffect.server, heffect.running]
    exact h.exited
  by_cases hwrite : s.pc t = .write
  · exact ⟨fun _ _ _ _ => .inl (heffect.written hwrite), hexited⟩
  by_cases hclear : s.pc t = .clear
  · have hnext : s'.pc t = .write := heffect.pc.trans (by rw [hclear]; rfl)
    exact ⟨fun _ _ _ _ => .inr (.inr ⟨t, hnext⟩), hexited⟩
  have hspin : ∀ u, s'.pc u = .spin → s.pc u = .spin := by
    intro u hu
    by_cases hut : u = t
    · subst hut
      rw [heffect.pc] at hu
      exact SignalState.eq_spin_of_next hwrite hu
    · exact heffect.others u hut ▸ hu
  have hwriter : ∀ u, s.pc u = .write → s'.pc u = .write := by
    intro u hu
    have hut : u ≠ t := fun heq => hwrite (heq ▸ hu)
    exact (heffect.others u hut).trans hu
  refine ⟨fun hr hf u hu => ?_, hexited⟩
  rw [heffect.running] at hr
  rw [heffect.handled hclear] at hf
  rcases h.woken hr hf u (hspin u hu) with hevent | hahead | ⟨v, hv⟩
  · exact .inl (hevent.trans_le heffect.eventfd)
  · exact .inr (.inl (heffect.server ▸ hahead))
  · exact .inr (.inr ⟨v, hwriter v hv⟩)

omit [DecidableEq τ] in
theorem server (h : SignalInv s) (hs : s.serverStep = some s') : SignalInv s' := by
  rw [SignalState.serverStep] at hs
  cases hserver : s.server with
  | exited => simp [hserver] at hs
  | read =>
      simp only [hserver] at hs
      split at hs
      · cases hs
        split
        · exact ⟨fun _ _ _ _ => .inr (.inl (Nat.succ_pos _)), nofun⟩
        · exact h
      · rename_i hrunning
        cases hs
        exact ⟨fun hr => absurd hr hrunning, fun _ => Bool.eq_false_iff.mpr hrunning⟩
  | load =>
      simp only [hserver] at hs
      split at hs <;> cases hs <;> exact ⟨fun _ _ _ _ => .inr (.inl (Nat.succ_pos _)), nofun⟩
  | handle addr | clear =>
      simp only [hserver] at hs
      cases hs
      exact ⟨fun _ _ _ _ => .inr (.inl (Nat.succ_pos _)), nofun⟩
  | done =>
      simp only [hserver] at hs
      cases hs
      exact ⟨nofun, nofun⟩

theorem step (h : SignalInv s) {a : SignalAction τ α} (hs : s.step a = some s') : SignalInv s' := by
  cases a with
  | thread t => exact h.thread (SignalState.step_thread hs).2
  | server => exact h.server (SignalState.step_serverStep hs).2
  | _ =>
      obtain ⟨hserver, heventfd, -, hhandled, hrunning, hpc⟩ :=
        SignalState.step_environment hs nofun nofun
      refine h.of_pc hserver heventfd (fun hf => ?_) hrunning (fun t ht => ?_) fun t ht => ?_
      · refine Bool.eq_false_iff.mpr fun hold => ?_
        cases (hhandled hold).symm.trans hf
      · rcases hpc t with heq | ⟨-, addr, htest⟩
        · exact heq ▸ ht
        · cases htest.symm.trans ht
      · rcases hpc t with heq | ⟨hout, -⟩
        · exact heq.trans ht
        · cases hout.symm.trans ht

end SignalInv

/-! ### Fair runs -/

/-- The steps of a thread in the handler to its spin. -/
def SignalPc.ahead {α : Type*} : SignalPc α → ℕ
  | .test _ => 6
  | .enter _ => 5
  | .walk _ => 4
  | .store _ => 3
  | .clear => 2
  | .write => 1
  | .outside | .spin | .leave | .raise => 0

structure NoneRaised (s : SignalState τ α) : Prop where
  killed : s.killed = false
  raise : ∀ t, s.pc t ≠ .raise

namespace SignalState

variable {s s' : SignalState τ α}

theorem threadStep_ahead {t : τ} (hs : s.threadStep t = some s')
    (hok : (SignalAction.thread t : SignalAction τ α).Ok s) (hahead : 0 < (s.pc t).ahead) :
    0 < (s'.pc t).ahead ∧ (s'.pc t).ahead < (s.pc t).ahead ∨ s'.pc t = .spin := by
  rw [(threadStep_effect hs).pc]
  cases hat : s.pc t with
  | outside | spin | leave | raise =>
      rw [hat] at hahead
      exact absurd hahead (Nat.lt_irrefl 0)
  | test addr => simp [next, hok addr hat, SignalPc.ahead]
  | _ => simp [next, SignalPc.ahead]

theorem threadStep_noneRaised {t : τ} (hs : s.threadStep t = some s')
    (hok : (SignalAction.thread t : SignalAction τ α).Ok s) (h : NoneRaised s) : NoneRaised s' := by
  have heffect := threadStep_effect hs
  refine ⟨(heffect.killed (h.raise t)).trans h.killed, fun u => ?_⟩
  by_cases hut : u = t
  · subst hut
    rw [heffect.pc]
    cases hat : s.pc u with
    | raise => exact absurd hat (h.raise u)
    | test addr => simp [next, hok addr hat]
    | spin =>
        rw [next]
        split <;> nofun
    | _ => nofun
  · exact heffect.others u hut ▸ h.raise u

theorem step_noneRaised {a : SignalAction τ α} (hs : s.step a = some s') (hok : a.Ok s)
    (h : NoneRaised s) : NoneRaised s' := by
  cases a with
  | thread t => exact threadStep_noneRaised (step_thread hs).2 hok h
  | server =>
      obtain ⟨hpc, hkilled⟩ := serverStep_others (step_serverStep hs).2
      exact ⟨hkilled.trans h.killed, hpc ▸ h.raise⟩
  | _ =>
      obtain ⟨-, -, hkilled, -, -, hpc⟩ := step_environment hs nofun nofun
      refine ⟨hkilled.trans h.killed, fun t ht => ?_⟩
      rcases hpc t with heq | ⟨-, addr, htest⟩
      · exact h.raise t (heq.symm.trans ht)
      · cases htest.symm.trans ht

omit [DecidableEq τ] in
/-- After an event the fault handler thread goes on to its `fault_handled = 1`. -/
theorem serverStep_ahead (hs : s.serverStep = some s') (hahead : 0 < s.server.ahead) :
    0 < s'.server.ahead ∧ s'.server.ahead < s.server.ahead ∨ s'.faultHandled = true := by
  rw [serverStep] at hs
  cases hat : s.server with
  | read | exited =>
      rw [hat] at hahead
      exact absurd hahead (Nat.lt_irrefl 0)
  | load =>
      simp only [hat] at hs
      split at hs <;> cases hs <;> simp [ServerPc.ahead]
  | handle addr | clear =>
      simp only [hat] at hs
      cases hs
      simp [ServerPc.ahead]
  | done =>
      simp only [hat] at hs
      cases hs
      exact .inr rfl

omit [DecidableEq τ] in
theorem serverStep_read (hs : s.serverStep = some s') (hread : s.server = .read)
    (hevent : 0 < s.eventfd) : 0 < s'.server.ahead ∨ s'.Done := by
  simp only [serverStep, hread, if_pos hevent] at hs
  split at hs
  · cases hs
    exact .inl (Nat.succ_pos _)
  · rename_i hrunning
    cases hs
    exact .inr (.inr (Bool.eq_false_iff.mpr hrunning))

theorem step_eventfd {a : SignalAction τ α} (hs : s.step a = some s') (ha : a ≠ .server) :
    s.eventfd ≤ s'.eventfd := by
  cases a with
  | server => exact absurd rfl ha
  | thread t => exact (threadStep_effect (step_thread hs).2).eventfd
  | _ => exact (step_environment hs nofun nofun).2.1.ge

end SignalState

section

variable {r : (signalMachine τ α).Run}

theorem signalInv_of_run (r : (signalMachine τ α).Run) (n : ℕ) : SignalInv (r.state n) :=
  (r.reachable n).invariant (fun _ hstart => hstart ▸ .initial) fun _ _ _ h hs => h.step hs

theorem noneRaised_of_ok (hok : ∀ n, (r.act n).Ok (r.state n)) (n : ℕ) : NoneRaised (r.state n) := by
  induction n with
  | zero =>
      rw [show r.state 0 = .initial from r.start]
      exact ⟨rfl, nofun⟩
  | succ n ih => exact SignalState.step_noneRaised (r.step n) (hok n) ih

theorem SignalFair.thread_acts (hfair : SignalFair r) (hok : ∀ n, (r.act n).Ok (r.state n)) {t : τ}
    {n : ℕ} (hin : (r.state n).pc t ≠ .outside) : ∃ m, n ≤ m ∧ r.act m = .thread t := by
  obtain ⟨m, hnm, hact | hkilled⟩ := hfair.thread t n hin
  · exact ⟨m, hnm, hact⟩
  · cases (noneRaised_of_ok hok m).killed.symm.trans hkilled

theorem SignalFair.server_acts (hfair : SignalFair r) (hok : ∀ n, (r.act n).Ok (r.state n)) {n : ℕ}
    (hserver : (r.state n).server ≠ .exited) : ∃ m, n ≤ m ∧ r.act m = .server := by
  obtain ⟨m, hnm, hact | hkilled⟩ := hfair.server n hserver
  · exact ⟨m, hnm, hact⟩
  · cases (noneRaised_of_ok hok m).killed.symm.trans hkilled

theorem leadsTo_spin (hfair : SignalFair r) (hok : ∀ n, (r.act n).Ok (r.state n)) (t : τ) :
    r.LeadsTo (fun s => 0 < (s.pc t).ahead) (·.pc t = .spin) := by
  have hin : ∀ n, 0 < ((r.state n).pc t).ahead → (r.state n).pc t ≠ .outside := by
    intro n hahead hout
    rw [hout] at hahead
    exact absurd hahead (Nat.lt_irrefl 0)
  refine .of_measure (fun s => (s.pc t).ahead) fun k => ?_
  refine Machine.Run.leadsTo_of_helpful (· = .thread t) ?_ ?_ ?_
  · rintro n ⟨hahead, hk⟩ hother
    rw [SignalState.step_pc (r.step n) (hin n hahead) hother]
    exact ⟨hahead, hk⟩
  · rintro n ⟨hahead, hk⟩ hact
    have hstep := r.step n
    have hthis := hok n
    rw [hact] at hstep hthis
    rw [← hk]
    exact SignalState.threadStep_ahead (SignalState.step_thread hstep).2 hthis hahead
  · rintro n ⟨hahead, -⟩
    exact hfair.thread_acts hok (hin n hahead)

theorem leadsTo_handled (hfair : SignalFair r) (hok : ∀ n, (r.act n).Ok (r.state n)) :
    r.LeadsTo (0 < ·.server.ahead) SignalState.Done := by
  refine .of_measure (fun s => s.server.ahead) fun k => ?_
  refine Machine.Run.leadsTo_of_helpful (· = .server) ?_ ?_ ?_
  · rintro n ⟨hahead, hk⟩ hother
    rw [SignalState.step_server (r.step n) hother]
    exact ⟨hahead, hk⟩
  · rintro n ⟨hahead, hk⟩ hact
    have hstep := r.step n
    rw [hact] at hstep
    rw [← hk]
    exact (SignalState.serverStep_ahead (SignalState.step_serverStep hstep).2 hahead).imp_right .inl
  · rintro n ⟨hahead, -⟩
    refine hfair.server_acts hok fun hexited => ?_
    rw [hexited] at hahead
    exact absurd hahead (Nat.lt_irrefl 0)

theorem leadsTo_read (hfair : SignalFair r) (hok : ∀ n, (r.act n).Ok (r.state n)) :
    r.LeadsTo (fun s => 0 < s.eventfd ∧ s.server = .read) (fun s => 0 < s.server.ahead ∨ s.Done) := by
  refine Machine.Run.leadsTo_of_helpful (· = .server) ?_ ?_ ?_
  · rintro n ⟨hevent, hread⟩ hother
    rw [SignalState.step_server (r.step n) hother]
    exact ⟨hevent.trans_le (SignalState.step_eventfd (r.step n) hother), hread⟩
  · rintro n ⟨hevent, hread⟩ hact
    have hstep := r.step n
    rw [hact] at hstep
    exact SignalState.serverStep_read (SignalState.step_serverStep hstep).2 hread hevent
  · rintro n ⟨-, hread⟩
    refine hfair.server_acts hok fun hexited => ?_
    cases hread.symm.trans hexited

theorem leadsTo_done (hfair : SignalFair r) (hok : ∀ n, (r.act n).Ok (r.state n)) :
    r.LeadsTo (0 < ·.eventfd) SignalState.Done := by
  have hdone : r.LeadsTo (fun s => 0 < s.server.ahead ∨ s.Done) SignalState.Done :=
    (leadsTo_handled hfair hok).or (.of_imp fun _ => id)
  have hread := (leadsTo_read hfair hok).trans hdone
  intro n hevent
  cases hserver : (r.state n).server with
  | read => exact hread n ⟨hevent, hserver⟩
  | exited => exact ⟨n, Nat.le_refl n, .inr ((signalInv_of_run r n).exited hserver)⟩
  | _ => exact leadsTo_handled hfair hok n (by simp [hserver, ServerPc.ahead])

theorem leadsTo_event (hfair : SignalFair r) (hok : ∀ n, (r.act n).Ok (r.state n)) (t : τ) :
    r.LeadsTo (·.pc t = .write) (0 < ·.eventfd) := by
  have hin : ∀ n, (r.state n).pc t = .write → (r.state n).pc t ≠ .outside :=
    fun n hwrite hout => nomatch hwrite.symm.trans hout
  refine Machine.Run.leadsTo_of_helpful (· = .thread t) ?_ ?_ ?_
  · intro n hwrite hother
    exact (SignalState.step_pc (r.step n) (hin n hwrite) hother).trans hwrite
  · intro n hwrite hact
    have hstep := r.step n
    rw [hact] at hstep
    exact (SignalState.threadStep_effect (SignalState.step_thread hstep).2).written hwrite
  · exact fun n hwrite => hfair.thread_acts hok (hin n hwrite)

theorem leadsTo_done_of_spin (hfair : SignalFair r) (hok : ∀ n, (r.act n).Ok (r.state n)) (t : τ) :
    r.LeadsTo (·.pc t = .spin) SignalState.Done := by
  intro n hspin
  by_cases hdone : (r.state n).Done
  · exact ⟨n, Nat.le_refl n, hdone⟩
  · obtain ⟨hhandled, hrunning⟩ := not_or.mp hdone
    rcases (signalInv_of_run r n).woken (Bool.not_eq_false _ ▸ hrunning) (Bool.eq_false_iff.mpr hhandled)
      t hspin with hevent | hahead | ⟨u, hwrite⟩
    · exact leadsTo_done hfair hok n hevent
    · exact leadsTo_handled hfair hok n hahead
    · exact ((leadsTo_event hfair hok u).trans (leadsTo_done hfair hok)) n hwrite

/-- A thread that spins leaves its loop, as otherwise it would look for ever and pass by what it waits
for every time. -/
theorem leadsTo_leave (hfair : SignalFair r) (hok : ∀ n, (r.act n).Ok (r.state n)) (t : τ) :
    r.LeadsTo (·.pc t = .spin) (·.pc t = .leave) := by
  intro n hspin
  by_contra hnever
  push Not at hnever
  have hstays : ∀ m, n ≤ m → (r.state m).pc t = .spin := by
    intro m hnm
    induction m, hnm using Nat.le_induction with
    | base => exact hspin
    | succ m hnm ih =>
        have hstep := r.step m
        by_cases hact : r.act m = .thread t
        · rw [hact] at hstep
          have hnext := (SignalState.threadStep_effect (SignalState.step_thread hstep).2).pc
          rw [ih, SignalState.next] at hnext
          split at hnext
          · exact absurd hnext (hnever (m + 1) (hnm.trans (Nat.le_succ m)))
          · exact hnext
        · exact (SignalState.step_pc hstep (by rw [ih]; nofun) hact).trans ih
  have hagain : ∀ k, ∃ m, k ≤ m ∧ (r.state m).pc t = .spin ∧ (r.state m).Done := by
    intro k
    have hmax := hstays (max k n) (Nat.le_max_right k n)
    obtain ⟨m, hm, hdone⟩ := leadsTo_done_of_spin hfair hok t (max k n) hmax
    exact ⟨m, (Nat.le_max_left k n).trans hm, hstays m ((Nat.le_max_right k n).trans hm), hdone⟩
  obtain ⟨m, hnm, hact, hat, hdone⟩ := hfair.spin t hagain n
  have hstep := r.step m
  rw [hact] at hstep
  have hnext := (SignalState.threadStep_effect (SignalState.step_thread hstep).2).pc
  rw [hat, SignalState.next, if_pos hdone] at hnext
  exact hnever (m + 1) (hnm.trans (Nat.le_succ m)) hnext

theorem leadsTo_outside (hfair : SignalFair r) (hok : ∀ n, (r.act n).Ok (r.state n)) (t : τ) :
    r.LeadsTo (·.pc t = .leave) (·.pc t = .outside) := by
  have hin : ∀ n, (r.state n).pc t = .leave → (r.state n).pc t ≠ .outside :=
    fun n hleave hout => nomatch hleave.symm.trans hout
  refine Machine.Run.leadsTo_of_helpful (· = .thread t) ?_ ?_ ?_
  · intro n hleave hother
    exact (SignalState.step_pc (r.step n) (hin n hleave) hother).trans hleave
  · intro n hleave hact
    have hstep := r.step n
    rw [hact] at hstep
    have hnext := (SignalState.threadStep_effect (SignalState.step_thread hstep).2).pc
    rwa [hleave] at hnext
  · exact fun n hleave => hfair.thread_acts hok (hin n hleave)

theorem faultsReturn_of_ok (hfair : SignalFair r) (hok : ∀ n, (r.act n).Ok (r.state n)) :
    FaultsReturn r where
  not_raised t n := (noneRaised_of_ok hok n).raise t
  returns t := by
    have hleave := leadsTo_outside hfair hok t
    have hspin := (leadsTo_leave hfair hok t).trans hleave
    have hahead := (leadsTo_spin hfair hok t).trans hspin
    intro n hin
    cases hat : (r.state n).pc t with
    | outside => exact absurd hat hin
    | raise => exact absurd hat ((noneRaised_of_ok hok n).raise t)
    | leave => exact hleave n hat
    | spin => exact hspin n hat
    | _ => exact hahead n (by simp [hat, SignalPc.ahead])

theorem ok_of_not_raised (h : ∀ t n, (r.state n).pc t ≠ .raise) (n : ℕ) :
    (r.act n).Ok (r.state n) := by
  cases hact : r.act n with
  | thread t =>
      intro addr htest
      refine Bool.eq_false_iff.mpr fun hset => h t (n + 1) ?_
      have hstep := r.step n
      rw [hact] at hstep
      have hnext := (SignalState.threadStep_effect (SignalState.step_thread hstep).2).pc
      rwa [htest, SignalState.next, if_pos hset] at hnext
  | _ => trivial

theorem faults_return_iff (r : (signalMachine τ α).Run) (hfair : SignalFair r) :
    FaultsReturn r ↔ ∀ n, (r.act n).Ok (r.state n) :=
  ⟨fun h => ok_of_not_raised h.not_raised, faultsReturn_of_ok hfair⟩

end

end

/-- Two threads that fault at the same time, when the flag is clear for both. -/
def overlappingFaults : List (SignalAction Bool ℕ) :=
  List.flatten
    [[.fault false 4096, .fault true 8192, .thread false, .thread true],
      List.replicate 5 (.thread false), List.replicate 5 .server, List.replicate 5 (.thread true),
      [.thread false], List.replicate 5 .server,
      [.thread true, .thread false, .thread true, .thread false]]

theorem faults_return_iff_overlapping :
    ∃ r : (signalMachine Bool ℕ).Run, SignalFair r ∧ FaultsReturn r := by
  have hout : (((signalMachine Bool ℕ).exec .initial overlappingFaults).map fun s =>
      (s.pc false, s.pc true, s.server, s.eventfd, s.running, s.killed)) =
      some (.outside, .outside, .read, 0, true, false) := by decide +kernel
  obtain ⟨t, ht, hlast⟩ := Option.map_eq_some_iff.mp hout
  simp only [Prod.mk.injEq] at hlast
  obtain ⟨hfalse, htrue, hread, hevent, hrunning, hkilled⟩ := hlast
  have hidle : (signalMachine Bool ℕ).step t .server = some t := by
    simp [signalMachine, SignalState.step, SignalState.serverStep, hkilled, hread, hrunning, hevent]
  let r := Machine.Run.ofExec rfl ht hidle
  have hend : ∀ u n, 29 ≤ n → (r.state n).pc u = .outside := by
    intro u n hn
    rw [show r.state n = t from Machine.Run.ofExec_state_of_le rfl ht hidle hn]
    cases u
    · exact hfalse
    · exact htrue
  have hback : (((signalMachine Bool ℕ).exec .initial (overlappingFaults.take 28)).map (·.pc true)) =
      some .outside := by decide +kernel
  have hahead : ∀ u n, (r.state n).pc u ≠ .outside → ∃ m, n ≤ m ∧ r.act m = .thread u := by
    intro u n hin
    rcases Nat.lt_or_ge n 28 with hn | hn
    · cases u
      · exact ⟨28, Nat.le_of_lt hn, rfl⟩
      · exact ⟨27, Nat.le_of_lt_succ hn, rfl⟩
    · rcases Nat.eq_or_lt_of_le hn with rfl | hlate
      · cases u
        · exact ⟨28, Nat.le_refl 28, rfl⟩
        · obtain ⟨v, hv, hpc⟩ := Option.map_eq_some_iff.mp hback
          rw [show r.state 28 = v from Machine.Run.ofExec_state rfl ht hidle hv] at hin
          exact absurd hpc hin
      · exact absurd (hend u n hlate) hin
  have hfair : SignalFair r := by
    refine ⟨fun u n hin => ?_, fun n _ => ⟨max n 29, Nat.le_max_left n 29, .inl ?_⟩, fun u hagain => ?_⟩
    · obtain ⟨m, hnm, hact⟩ := hahead u n hin
      exact ⟨m, hnm, .inl hact⟩
    · exact Machine.Run.ofExec_act_of_le rfl ht hidle (Nat.le_max_right n 29)
    · obtain ⟨m, hm, hspin, -⟩ := hagain 29
      cases (hend u m hm).symm.trans hspin
  have hclear : (signalMachine Bool ℕ).checks SignalAction.Ok .initial overlappingFaults = true := by
    decide +kernel
  have hok := Machine.Run.ofExec_each rfl ht hidle (Machine.eachStep_of_checks hclear) trivial
  exact ⟨r, hfair, (faults_return_iff r hfair).mpr hok⟩

theorem not_faultsReturn :
    ∃ r : (signalMachine Bool ℕ).Run, SignalFair r ∧ ¬ FaultsReturn r := by
  let faults : List (SignalAction Bool ℕ) :=
    [.fault false 4096, .thread false, .thread false, .fault true 8192, .thread true, .thread true]
  have hout : (((signalMachine Bool ℕ).exec .initial faults).map fun s =>
      (s.pc false, s.pc true, s.killed)) = some (.walk 4096, .raise, true) := by decide +kernel
  obtain ⟨t, ht, hlast⟩ := Option.map_eq_some_iff.mp hout
  simp only [Prod.mk.injEq] at hlast
  obtain ⟨hwalk, hraise, hkilled⟩ := hlast
  have hidle : (signalMachine Bool ℕ).step t .idle = some t := rfl
  let r := Machine.Run.ofExec rfl ht hidle
  have hend : ∀ n, 6 ≤ n → r.state n = t := fun n hn => Machine.Run.ofExec_state_of_le rfl ht hidle hn
  have hdead : ∀ n, ∃ m, n ≤ m ∧ (r.state m).killed = true :=
    fun n => ⟨max n 6, Nat.le_max_left n 6, by rw [hend _ (Nat.le_max_right n 6), hkilled]⟩
  refine ⟨r, ⟨fun u n _ => ?_, fun n _ => ?_, fun u hagain => ?_⟩, fun h => ?_⟩
  · exact (hdead n).imp fun m hm => ⟨hm.1, .inr hm.2⟩
  · exact (hdead n).imp fun m hm => ⟨hm.1, .inr hm.2⟩
  · obtain ⟨m, hm, hspin, -⟩ := hagain 6
    rw [hend m hm] at hspin
    cases u
    · cases hwalk.symm.trans hspin
    · cases hraise.symm.trans hspin
  · refine h.not_raised true 6 ?_
    rw [hend 6 (Nat.le_refl 6), hraise]

end Dsm
