import Dsm.PageFault.PageOps

/-!
# Handled faults

The signal handler returns to the instruction that has faulted, so a `return 0` of
`dsm_page_fault_handle` is worth something only if the page then admits the access. The fault thread
waits without the lock of the record, and the protection is set by `dsm_page_install` on another
thread. While the fault thread waits, the record is pending or the page can be read, and so it is after
each statement that an install has left: `Throughout` for `GuardedPage.Fetched`. An install opens a
page for reading only, and the loop also ends when `ctx->running` is cleared, so a fault that is to be
handled must not depend on more.
-/

namespace Dsm

open CriticalSection

/-- The access goes through, so the instruction does not fault again. -/
def GuardedPage.Admits (p : GuardedPage) (access : FaultAccess) : Prop :=
  p.Valid ∧ p.prot.permits access = true

/-- What the fault thread may rely on while it waits for a page. -/
def GuardedPage.Fetched (p : GuardedPage) : Prop := p.page.state = .pending ∨ p.Admits .read

/-- The actions of a fault and of what may come between its steps. -/
def PageOpAction.onFault : PageOpAction → Bool
  | .install .. | .fault .. | .step .. | .timeout | .clearRunning => true
  | .create .. | .invalidate .. | .markModified .. => false

/-- Faults and installs, from any page table of which no thread has locked a record. -/
def faultMachine : Machine PageOps PageOpAction where
  start s := s.Quiet ∧ ∀ p ∈ s.pages, p.holder = none
  step s a := if a.onFault then s.step a else none

/-- Whenever `dsm_page_fault_handle` returns 0, its page admits the access. -/
def PageOps.Handled (s : PageOps) : Prop :=
  ∀ i access, s.pc .fault = .ret i access → ∃ p, s.pages[i]? = some p ∧ p.Admits access

def PageStmt.closes : PageStmt → Bool
  | .protect .read _ => true
  | _ => false

/-- The condition on the next step of a thread. A fault on a valid page of another node is for an
access that its protection permits; the loop on `fault_cond` is left with a page that is no longer
pending, after a read or while the page is open for writing; and no install takes the write access
back before the handler has returned. -/
def OpPc.LetsProceed (s : PageOps) (ok : Bool) : OpPc → Prop
  | .lock i (.check access) => ∀ p ∈ s.pages[i]?, p.Valid →
      p.page.ownerId = s.node ∨ p.prot.permits access = true
  | .test i access => ∀ p ∈ s.pages[i]?, (p.page.state = .pending → s.running = true) ∧
      (p.page.state ≠ .pending → access = .read ∨ p.prot = .readWrite)
  | .locked i (stmt :: _) _ => stmt.closes = true → ok = true → s.pc .fault ≠ .ret i .write
  | _ => True

instance (s : PageOps) (ok : Bool) : (pc : OpPc) → Decidable (pc.LetsProceed s ok)
  | .lock i (.check access) => inferInstanceAs (Decidable (∀ p ∈ s.pages[i]?, p.Valid →
      p.page.ownerId = s.node ∨ p.prot.permits access = true))
  | .lock _ (.install _) | .lock _ .invalidate | .lock _ .markModified | .lock _ .giveUp
  | .locked _ [] _ | .idle | .register .. | .openRegion _ | .mark .. | .request .. | .sleep ..
  | .ret .. => inferInstanceAs (Decidable True)
  | .test i access => inferInstanceAs (Decidable (∀ p ∈ s.pages[i]?,
      (p.page.state = .pending → s.running = true) ∧
        (p.page.state ≠ .pending → access = .read ∨ p.prot = .readWrite)))
  | .locked i (_ :: _) _ =>
      inferInstanceAs (Decidable (_ → ok = true → s.pc .fault ≠ .ret i .write))

def PageOpAction.LetsProceed (s : PageOps) : PageOpAction → Prop
  | .step t ok => (s.pc t).LetsProceed s ok
  | _ => True

instance (s : PageOps) : (a : PageOpAction) → Decidable (a.LetsProceed s)
  | .step t ok => inferInstanceAs (Decidable ((s.pc t).LetsProceed s ok))
  | .create .. | .install .. | .invalidate .. | .markModified .. | .fault .. | .timeout
  | .clearRunning => inferInstanceAs (Decidable True)

/-! ### What the critical sections do -/

/-- The statement runs to its end or ends the operation. -/
def PageStmt.Checked : PageStmt → Prop
  | .protect _ checked => checked = true
  | _ => True

/-- The statements of `dsm_page_install`. -/
def PageStmt.OfInstall : PageStmt → Prop
  | .protect prot checked => prot ≠ .none ∧ checked = true
  | .setState state => state = .shared
  | .setVersion _ => True
  | _ => False

/-- What the next step after a critical section of the fault thread relies on. -/
def AfterUnlock.Facts (p : GuardedPage) : AfterUnlock → Prop
  | .done => True
  | .request _ => p.page.state = .pending
  | .ret access => p.Admits access

namespace GuardedPage

theorem Admits.of_eq {p q : GuardedPage} {access : FaultAccess} (h : p.Admits access)
    (hstate : q.page.state = p.page.state) (hprot : q.prot = p.prot) : q.Admits access := by
  rw [Admits, Valid, hstate, hprot]
  exact h

theorem Fetched.of_eq {p q : GuardedPage} (h : p.Fetched) (hstate : q.page.state = p.page.state)
    (hprot : q.prot = p.prot) : q.Fetched := by
  rw [Fetched, hstate]
  exact h.imp_right fun hadmits => hadmits.of_eq hstate hprot

theorem permits_read {prot : Prot} (h : prot ≠ .none) : prot.permits .read = true := by
  cases prot with
  | none => exact absurd rfl h
  | read => rfl
  | readWrite => rfl

theorem Admits.exec_read {p : GuardedPage} {stmt : PageStmt} (h : p.Admits .read)
    (hstmt : stmt.OfInstall) : (p.exec stmt).Admits .read := by
  cases stmt with
  | protect prot checked => exact ⟨h.1, permits_read hstmt.1⟩
  | setState state =>
      have hshared : state = .shared := hstmt
      subst hshared
      exact ⟨.inr rfl, h.2⟩
  | setVersion version => exact h
  | _ => exact hstmt.elim

/-- A statement of an install that does not close the page keeps it open for writing. -/
theorem Admits.exec_write {p : GuardedPage} {stmt : PageStmt} (h : p.Admits .write)
    (hstmt : stmt.OfInstall) (hcloses : stmt.closes = false) : (p.exec stmt).Admits .write := by
  cases stmt with
  | protect prot checked =>
      cases prot with
      | none => exact absurd rfl hstmt.1
      | read => cases hcloses
      | readWrite => exact ⟨h.1, rfl⟩
  | setState state =>
      have hshared : state = .shared := hstmt
      subst hshared
      exact ⟨.inr rfl, h.2⟩
  | setVersion version => exact h
  | _ => exact hstmt.elim

/-- An install that takes the lock of a page leaves it pending or readable after each statement. -/
theorem Fetched.throughout_install {p : GuardedPage} (h : p.Fetched) (node version : Nat) :
    Throughout exec Fetched p ((LockedOp.install version).plan node p.page).1 := by
  have hopen : ∀ prot, prot ≠ .none → ({ p with prot := prot } : GuardedPage).Fetched :=
    fun prot hprot => h.imp_right fun hadmits => ⟨hadmits.1, permits_read hprot⟩
  have hshared : ∀ version', Fetched
      { p with prot := .read, page := { p.page with state := .shared, version := version' } } :=
    fun _ => .inr ⟨.inr rfl, rfl⟩
  rw [LockedOp.plan, throughout_cons, throughout_cons, throughout_cons, throughout_cons,
    throughout_nil]
  exact ⟨h, hopen .readWrite (by decide), hopen .read (by decide), hshared p.page.version,
    hshared version⟩

end GuardedPage

theorem LockedOp.plan_install_ofInstall (node : NodeId) (page : Page) (version : Nat) :
    ∀ stmt ∈ ((install version).plan node page).1, stmt.OfInstall := by
  simp [plan, PageStmt.OfInstall]

theorem LockedOp.plan_check_checked (node : NodeId) (page : Page) (access : FaultAccess) :
    ∀ stmt ∈ ((check access).plan node page).1, stmt.Checked := by
  unfold plan
  dsimp only
  split
  · split <;> simp [PageStmt.Checked]
  · split <;> simp [PageStmt.Checked]

theorem LockedOp.plan_check_facts {node : NodeId} {p : GuardedPage} {access : FaultAccess}
    (hok : p.Valid → p.page.ownerId = node ∨ p.prot.permits access = true) :
    ((check access).plan node p.page).2.Facts
      (((check access).plan node p.page).1.foldl GuardedPage.exec p) := by
  have hmodified : ∀ q : GuardedPage, q.page.state = .modified → q.prot = .readWrite →
      q.Admits access := by
    intro q hstate hprot
    refine ⟨.inl hstate, ?_⟩
    rw [hprot]
    rfl
  unfold plan
  dsimp only
  split
  · split
    · exact hmodified _ rfl rfl
    · exact ⟨‹_›, (hok ‹_›).resolve_left ‹_›⟩
  · split
    · exact hmodified _ rfl rfl
    · rfl

/-- Where a thread that installs pages may stand. -/
def OpPc.OfInstall : OpPc → Prop
  | .idle => True
  | .lock _ op => ∃ version, op = .install version
  | .locked _ todo after => after = .done ∧ ∀ stmt ∈ todo, stmt.OfInstall
  | _ => False

namespace PageOps

/-- What holds of the page that the fault thread is about. -/
def FaultFacts (s : PageOps) : OpPc → Prop
  | .idle => True
  | .lock _ op => (∃ access, op = .check access) ∨ op = .giveUp
  | .locked i todo after => (∀ stmt ∈ todo, stmt.Checked) ∧
      ∃ p, s.pages[i]? = some p ∧ after.Facts (todo.foldl GuardedPage.exec p)
  | .request i _ | .test i _ | .sleep i _ =>
      ∃ p, s.pages[i]? = some p ∧
        Throughout GuardedPage.exec GuardedPage.Fetched p (s.rest p)
  | .ret i access => ∃ p, s.pages[i]? = some p ∧ p.Admits access
  | .register .. | .openRegion _ | .mark .. => False

theorem FaultFacts.of_eq {s s' : PageOps} {pc : OpPc} (hpages : s'.pages = s.pages)
    (hinside : s'.inside = s.inside) (h : s.FaultFacts pc) : s'.FaultFacts pc := by
  have hrest : ∀ p, s'.rest p = s.rest p := by
    intro p
    rw [rest, hinside, rest]
  cases pc with
  | idle => trivial
  | register fixed r k => exact h.elim
  | openRegion r => exact h.elim
  | mark r k => exact h.elim
  | _ => simpa only [FaultFacts, hpages, hrest] using h

structure FaultInv (s : PageOps) : Prop where
  locked : s.Locked
  install : ∀ n, (s.pc (.other n)).OfInstall
  fault : s.FaultFacts (s.pc .fault)

theorem FaultInv.start {s : PageOps} (h : faultMachine.start s) : s.FaultInv := by
  obtain ⟨hquiet, hfree⟩ := h
  have hinside : ∀ t, s.inside t = none := fun t => inside_of_pc (hquiet t)
  refine ⟨⟨?_, ?_⟩, ?_, ?_⟩
  · intro i p t hp hholder
    rw [hfree p (List.mem_of_getElem? hp)] at hholder
    cases hholder
  · intro t i todo ht
    rw [hinside t] at ht
    cases ht
  · intro n
    rw [hquiet]
    trivial
  · rw [hquiet]
    trivial

theorem FaultInv.handled {s : PageOps} (h : s.FaultInv) : s.Handled := by
  intro i access hpc
  have hfacts := h.fault
  rw [hpc] at hfacts
  exact hfacts

/-! ### Steps of the threads that install -/

/-- What a step of another thread leaves of a page. -/
structure Carried (s s' : PageOps) (i : Nat) (p p' : GuardedPage) : Prop where
  found : s'.pages[i]? = some p'
  same : p.holder = some .fault → p' = p
  fetched : Throughout GuardedPage.exec GuardedPage.Fetched p (s.rest p) →
    Throughout GuardedPage.exec GuardedPage.Fetched p' (s'.rest p')
  admits : ∀ access, s.pc .fault = .ret i access → p.Admits access → p'.Admits access

/-- The facts of the fault thread carry over to a state in which it stands where it stood. -/
theorem FaultFacts.carry {s s' : PageOps} (hfacts : s.FaultFacts (s.pc .fault)) (hlocked : s.Locked)
    (hcarry : ∀ i p, s.pages[i]? = some p → ∃ p', s.Carried s' i p p') :
    s'.FaultFacts (s.pc .fault) := by
  cases hpc : s.pc .fault with
  | idle => trivial
  | lock i op =>
      rw [hpc] at hfacts
      exact hfacts
  | locked i todo after =>
      rw [hpc] at hfacts
      obtain ⟨hchecked, p, hp, hafter⟩ := hfacts
      obtain ⟨p', hcarried⟩ := hcarry i p hp
      have hholder : p.holder = some .fault := hlocked.holder_eq (inside_of_pc hpc) hp
      have hsame := hcarried.same hholder
      subst hsame
      exact ⟨hchecked, p', hcarried.found, hafter⟩
  | request i access | test i access | sleep i access =>
      rw [hpc] at hfacts
      obtain ⟨p, hp, hfetched⟩ := hfacts
      obtain ⟨p', hcarried⟩ := hcarry i p hp
      exact ⟨p', hcarried.found, hcarried.fetched hfetched⟩
  | ret i access =>
      rw [hpc] at hfacts
      obtain ⟨p, hp, hadmits⟩ := hfacts
      obtain ⟨p', hcarried⟩ := hcarry i p hp
      exact ⟨p', hcarried.found, hcarried.admits access hpc hadmits⟩
  | register fixed r k =>
      rw [hpc] at hfacts
      exact hfacts
  | openRegion r =>
      rw [hpc] at hfacts
      exact hfacts
  | mark r k =>
      rw [hpc] at hfacts
      exact hfacts

theorem carried_modify {s : PageOps} {n i : Nat} {f : GuardedPage → GuardedPage} {p : GuardedPage}
    {pc : OpPc} (hp : s.pages[i]? = some p)
    (hothers : ∀ j q, i ≠ j → s.pages[j]? = some q → q.holder ≠ some (.other n))
    (hmine : p.holder ≠ some .fault)
    (hfetched : Throughout GuardedPage.exec GuardedPage.Fetched p (s.rest p) →
      Throughout GuardedPage.exec GuardedPage.Fetched (f p)
        (((s.modify i f).setPc (.other n) pc).rest (f p)))
    (hadmits : ∀ access, s.pc .fault = .ret i access → p.Admits access → (f p).Admits access) :
    ∀ j q, s.pages[j]? = some q → ∃ q', s.Carried ((s.modify i f).setPc (.other n) pc) j q q' := by
  intro j q hq
  by_cases hij : i = j
  · subst hij
    rw [hp] at hq
    cases hq
    exact ⟨f p, getElem?_modify_of_some f hp, fun hholder => absurd hholder hmine, hfetched, hadmits⟩
  · have hfound : (s.pages.modify i f)[j]? = some q := by rw [List.getElem?_modify_ne f s.pages hij, hq]
    have hrest : ((s.modify i f).setPc (.other n) pc).rest q = s.rest q := by
      rw [rest, inside_setPc, rest_update_of_ne (hothers j q hij hq)]
      rfl
    exact ⟨q, hfound, fun _ => rfl, fun hthroughout => hrest ▸ hthroughout, fun _ _ hq' => hq'⟩

theorem rest_setPc_self {s : PageOps} {t : OpThread} {p : GuardedPage} {i : Nat}
    {todo : List PageStmt} {after : AfterUnlock} (hholder : p.holder = some t) :
    (s.setPc t (.locked i todo after)).rest p = todo := by
  rw [rest, hholder]
  exact rest_some (by rw [inside_setPc, Function.update_self]; rfl)

theorem rest_of_free {s : PageOps} {p : GuardedPage} (hfree : p.holder = none) : s.rest p = [] := by
  rw [rest, hfree, rest_none]

theorem carried_inside {s : PageOps} {n i : Nat} {f : GuardedPage → GuardedPage} {pc : OpPc}
    {todo : List PageStmt} {after : AfterUnlock} (h : s.Locked)
    (hpc : s.pc (.other n) = .locked i todo after)
    (hfetched : ∀ p, p.holder = some (.other n) →
      Throughout GuardedPage.exec GuardedPage.Fetched p todo →
      Throughout GuardedPage.exec GuardedPage.Fetched (f p)
        (((s.modify i f).setPc (.other n) pc).rest (f p)))
    (hadmits : ∀ p access, s.pc .fault = .ret i access → p.Admits access → (f p).Admits access) :
    ∀ j q, s.pages[j]? = some q → ∃ q', s.Carried ((s.modify i f).setPc (.other n) pc) j q q' := by
  have hinside : s.inside (.other n) = some (i, todo) := inside_of_pc hpc
  obtain ⟨p, hp, hholder⟩ := h.holder_of_inside _ _ _ hinside
  have hrest : s.rest p = todo := by
    rw [rest, hholder]
    exact rest_some hinside
  apply carried_modify hp (fun j q hij hq => h.holder_ne hinside hij hq)
  · rw [hholder]
    simp
  · rw [hrest]
    exact hfetched p hholder
  · exact hadmits p

theorem FaultInv.other {s u : PageOps} {n : Nat} {pc : OpPc} (h : s.FaultInv) (hu : u.pc = s.pc)
    (hpc : pc.OfInstall) (hlocked : (u.setPc (.other n) pc).Locked)
    (hcarry : ∀ i p, s.pages[i]? = some p → ∃ p', s.Carried (u.setPc (.other n) pc) i p p') :
    (u.setPc (.other n) pc).FaultInv := by
  refine ⟨hlocked, fun m => ?_, ?_⟩
  · by_cases hmn : m = n
    · subst hmn
      rwa [setPc_pc_self]
    · rw [setPc_pc_of_ne u pc (by simpa using hmn), hu]
      exact h.install m
  · rw [setPc_pc_of_ne u pc (by simp), hu]
    exact h.fault.carry h.locked hcarry

theorem FaultInv.other_effect {s s' : PageOps} {n : Nat} {ok : Bool} (h : s.FaultInv)
    (hok : PageOpAction.LetsProceed s (.step (.other n) ok)) (heffect : s.Effect (.other n) ok s') :
    s'.FaultInv := by
  have hlocked := h.locked.effect heffect
  have hinstall := h.install n
  cases heffect with
  | move hmove =>
      generalize s.pc (.other n) = pc at hmove hinstall
      cases hmove <;> exact hinstall.elim
  | register hpc hk =>
      rw [hpc] at hinstall
      exact hinstall.elim
  | openRegion hpc _ =>
      rw [hpc] at hinstall
      exact hinstall.elim
  | mark hpc hk =>
      rw [hpc] at hinstall
      exact hinstall.elim
  | @lock i op p hpc hp hfree =>
      rw [hpc] at hinstall
      obtain ⟨version, rfl⟩ := hinstall
      have houtside : s.inside (.other n) = none := inside_of_pc hpc
      refine h.other rfl ⟨rfl, LockedOp.plan_install_ofInstall s.node p.page version⟩ hlocked
        (carried_modify hp (fun j q _ hq => h.locked.holder_ne_of_outside houtside hq) ?_ ?_ ?_)
      · rw [hfree]
        simp
      · intro hfetched
        rw [rest_setPc_self rfl]
        have hheld : ({ p with holder := some (.other n) } : GuardedPage).Fetched :=
          hfetched.now.of_eq rfl rfl
        exact hheld.throughout_install s.node version
      · exact fun access _ hadmits => hadmits.of_eq rfl rfl
  | @unlock i after hpc =>
      rw [hpc] at hinstall
      obtain ⟨rfl, -⟩ := hinstall
      refine h.other rfl trivial hlocked (carried_inside h.locked hpc ?_ ?_)
      · intro p _ hfetched
        rw [rest_of_free rfl, throughout_nil]
        exact hfetched.now.of_eq rfl rfl
      · exact fun p access _ hadmits => hadmits.of_eq rfl rfl
  | @run i stmt todo after hpc hrun =>
      have hproceed : OpPc.LetsProceed s ok (.locked i (stmt :: todo) after) := hpc ▸ hok
      rw [hpc] at hinstall
      obtain ⟨hafter, hstmts⟩ := hinstall
      have hstmt : stmt.OfInstall := hstmts stmt List.mem_cons_self
      refine h.other rfl ⟨hafter, fun st hst => hstmts st (List.mem_cons_of_mem _ hst)⟩ hlocked
        (carried_inside h.locked hpc ?_ ?_)
      · intro p hholder hfetched
        rw [rest_setPc_self (by rw [p.exec_holder, hholder])]
        exact (throughout_cons.mp hfetched).2
      · intro p access hret hadmits
        cases access with
        | read => exact hadmits.exec_read hstmt
        | write =>
            apply hadmits.exec_write hstmt
            rw [← Bool.not_eq_true]
            intro hcloses
            have hsucceeds : ok = true := by
              cases stmt with
              | protect prot checked => exact hrun prot checked rfl
              | _ => cases hcloses
            exact hproceed hcloses hsucceeds hret
  | @fail i prot todo after hpc hfail =>
      have hcarry : ∀ j q, s.pages[j]? = some q →
          ∃ q', s.Carried ((s.modify i id).setPc (.other n) (.locked i [] .done)) j q q' := by
        apply carried_inside h.locked hpc
        · intro p hholder hfetched
          dsimp only [id]
          rw [rest_setPc_self hholder, throughout_nil]
          exact hfetched.now
        · exact fun _ _ _ hadmits => hadmits
      have hsame : s.modify i id = s := by rw [modify, List.modify_id]
      rw [hsame] at hcarry
      exact h.other rfl ⟨rfl, by simp⟩ hlocked hcarry
  | @skip i prot todo after hpc hskip =>
      rw [hpc] at hinstall
      have hchecked := (hinstall.2 _ List.mem_cons_self).2
      cases hchecked

/-! ### Steps of the fault thread -/

theorem FaultInv.own {s u : PageOps} {pc : OpPc} (h : s.FaultInv) (hu : u.pc = s.pc)
    (hlocked : (u.setPc .fault pc).Locked) (hfacts : (u.setPc .fault pc).FaultFacts pc) :
    (u.setPc .fault pc).FaultInv := by
  refine ⟨hlocked, fun n => ?_, ?_⟩
  · rw [setPc_pc_of_ne u pc (by simp), hu]
    exact h.install n
  · rwa [setPc_pc_self]

theorem FaultFacts.move {s : PageOps} {ok : Bool} {pc pc' : OpPc} (hfacts : s.FaultFacts pc)
    (hok : pc.LetsProceed s ok) (hmove : s.Moves ok pc pc') : s.FaultFacts pc' := by
  cases hmove with
  | registered hk => exact hfacts.elim
  | openFailed hfail => exact hfacts.elim
  | marked hk => exact hfacts.elim
  | requested hsent => exact hfacts
  | requestFailed hfail => exact .inr rfl
  | wait hp hpending hrunning => exact hfacts
  | @leave i access p hp hleave =>
      obtain ⟨q, hq, hthroughout⟩ := hfacts
      rw [hp] at hq
      cases hq
      obtain ⟨hrunning, hkind⟩ := hok p hp
      have hready : p.page.state ≠ .pending := by
        intro hpending
        rw [hleave hpending] at hrunning
        cases hrunning hpending
      have hread : p.Admits .read := hthroughout.now.resolve_left hready
      refine ⟨p, hp, hread.1, ?_⟩
      rcases hkind hready with rfl | hopen
      · exact hread.2
      · rw [hopen]
        rfl
  | wake => exact hfacts
  | ret => trivial

theorem FaultInv.own_effect {s s' : PageOps} {ok : Bool} (h : s.FaultInv)
    (hok : PageOpAction.LetsProceed s (.step .fault ok)) (heffect : s.Effect .fault ok s') :
    s'.FaultInv := by
  have hlocked := h.locked.effect heffect
  have hfacts := h.fault
  have hproceed : (s.pc .fault).LetsProceed s ok := hok
  cases heffect with
  | @move pc hmove =>
      have hmoved : s.FaultFacts pc := hfacts.move hproceed hmove
      refine h.own rfl hlocked (FaultFacts.of_eq ?_ ?_ hmoved)
      · rfl
      · exact inside_setPc_of_none hmove.inside.1 hmove.inside.2
  | register hpc hk =>
      rw [hpc] at hfacts
      exact hfacts.elim
  | openRegion hpc _ =>
      rw [hpc] at hfacts
      exact hfacts.elim
  | mark hpc hk =>
      rw [hpc] at hfacts
      exact hfacts.elim
  | @lock i op p hpc hp hfree =>
      rw [hpc] at hfacts hproceed
      refine h.own rfl hlocked ?_
      have hheld : (s.pages.modify i ({ · with holder := some OpThread.fault }))[i]? =
          some { p with holder := some .fault } := getElem?_modify_of_some _ hp
      rcases hfacts with ⟨access, rfl⟩ | rfl
      · refine ⟨LockedOp.plan_check_checked s.node p.page access, _, hheld, ?_⟩
        have hfacts : ({ p with holder := some .fault } : GuardedPage).Valid →
            p.page.ownerId = s.node ∨ p.prot.permits access = true := hproceed p hp
        exact LockedOp.plan_check_facts hfacts
      · exact ⟨by simp [LockedOp.plan, PageStmt.Checked], _, hheld, trivial⟩
  | @unlock i after hpc =>
      rw [hpc] at hfacts
      obtain ⟨-, p, hp, hafter⟩ := hfacts
      refine h.own rfl hlocked ?_
      have hfreed : (s.pages.modify i ({ · with holder := none }))[i]? =
          some { p with holder := none } := getElem?_modify_of_some _ hp
      cases after with
      | done => trivial
      | request access =>
          refine ⟨_, hfreed, ?_⟩
          rw [rest_of_free rfl, throughout_nil]
          exact .inl hafter
      | ret access => exact ⟨_, hfreed, GuardedPage.Admits.of_eq hafter rfl rfl⟩
  | @run i stmt todo after hpc hrun =>
      rw [hpc] at hfacts
      obtain ⟨hchecked, p, hp, hafter⟩ := hfacts
      exact h.own rfl hlocked ⟨fun st hst => hchecked st (List.mem_cons_of_mem _ hst), p.exec stmt,
        getElem?_modify_of_some _ hp, hafter⟩
  | @fail i prot todo after hpc hfail =>
      rw [hpc] at hfacts
      obtain ⟨-, p, hp, -⟩ := hfacts
      exact h.own rfl hlocked ⟨by simp, p, hp, trivial⟩
  | @skip i prot todo after hpc hskip =>
      rw [hpc] at hfacts
      have hchecked := hfacts.1 _ List.mem_cons_self
      cases hchecked

theorem FaultInv.step {s s' : PageOps} {a : PageOpAction} (h : s.FaultInv)
    (hok : a.LetsProceed s) (ha : faultMachine.step s a = some s') : s'.FaultInv := by
  obtain ⟨hon, hstep⟩ := Option.ite_none_right_eq_some.mp ha
  have hlocked := h.locked.step hstep
  rcases step_effect hstep with ⟨t, ok, rfl, heffect⟩ | hcall
  · cases t with
    | fault => exact h.own_effect hok heffect
    | other n => exact h.other_effect hok heffect
  · obtain ⟨-, hpages, hinside⟩ := hcall.frame
    cases hcall with
    | notFound => exact h
    | clearRunning => exact ⟨hlocked, h.install, h.fault.of_eq hpages hinside⟩
    | fault hpc => exact h.own rfl hlocked (.inl ⟨_, rfl⟩)
    | timeout hpc => exact h.own rfl hlocked (.inr rfl)
    | @install n i globalAddr version hpc =>
        refine h.other rfl ⟨version, rfl⟩ hlocked fun i p hp => ⟨p, hp, fun _ => rfl, ?_, ?_⟩
        · intro hfetched
          rwa [rest, hinside]
        · exact fun _ _ hadmits => hadmits
    | create hpc => cases hon
    | invalidate hpc => cases hon
    | markModified hpc => cases hon

end PageOps

/-- As long as the steps meet their condition, a fault that is reported as handled is. -/
theorem handled_faults_proceed {s s' : PageOps} {acts : List PageOpAction}
    (hstart : faultMachine.start s) (hexec : faultMachine.exec s acts = some s')
    (hok : faultMachine.EachStep (fun u a => a.LetsProceed u) s acts) :
    faultMachine.Always PageOps.Handled s acts := by
  have hhandled : ∀ u : PageOps, u.FaultInv → u.Handled := fun u hu => hu.handled
  exact Machine.always_of_eachStep hhandled (fun u a v hu hstep ha => hu.step hstep ha)
    (PageOps.FaultInv.start hstart) hexec hok

/-- Node 2 after a `dsm_map_remote` of one page. -/
private def mappedRemote : PageOps :=
  { node := 2, pages := [.new 2 (.created pageSize masterId 0x2000000 0x20000) 0]
    pc := fun _ => .idle, running := true }

/-- A fault, up to its `return 0`, with the install that answers it. -/
private def fetchRun (access : FaultAccess) : List PageOpAction :=
  .fault 0x20010 access :: List.replicate 5 (.step .fault true) ++
    .install 1 0x2000000 1 :: List.replicate 6 (.step (.other 1) true) ++
    List.replicate 2 (.step .fault true)

theorem handled_faults_proceed_read :
    faultMachine.Always PageOps.Handled mappedRemote (fetchRun .read) := by
  have hexec : ((faultMachine.exec mappedRemote (fetchRun .read)).isSome) = true := by
    decide +kernel
  obtain ⟨s', hs'⟩ := Option.isSome_iff_exists.mp hexec
  exact handled_faults_proceed ⟨fun _ => rfl, by decide⟩ hs'
    (Machine.eachStep_of_checks (by decide +kernel))

/-- The handler reports a write to a page of another node as handled and leaves the page read-only. -/
theorem handled_fault_repeats : ¬ ∀ s acts, faultMachine.start s →
    faultMachine.Always PageOps.Handled s acts := by
  intro h
  have halways := h mappedRemote (fetchRun .write) ⟨fun _ => rfl, by decide⟩
  obtain ⟨p, hp, hadmits⟩ := halways.last rfl 0 .write rfl
  cases hp
  exact absurd hadmits.2 (by decide)

end Dsm
