import Dsm.Memory.NodeMem
import Dsm.Library.CriticalSection
import Dsm.PageFault.FetchMachine

/-!
# The operations on pages, statement by statement

The fault thread and any number of other threads of one node. A thread creates regions
(`dsm_region_create`, alone or called by `dsm_malloc_at`), installs, invalidates or marks a page, and
the fault thread runs `dsm_page_fault_handle`. The lock of a record is taken and released in steps of
their own, and between them every `mprotect` and every assignment is a step; `dsm_malloc_at` opens its
region and marks its pages without a lock.

The contents of the pages are left out, and a record stands together with the protection of its local
page: no two mappings that are in use have a page in common.
-/

namespace Dsm

inductive OpThread where
  | fault
  | other (n : Nat)
deriving DecidableEq, Repr

/-- The kind of the access that faults. -/
inductive FaultAccess where
  | read
  | write
deriving DecidableEq, Repr

def Prot.permits : Prot → FaultAccess → Bool
  | .none, _ => false
  | .read, .read => true
  | .read, .write => false
  | .readWrite, _ => true

/-- A record of the page table with the protection of its local page, and the thread that holds its
lock. -/
structure GuardedPage where
  page : Page
  prot : Prot
  holder : Option OpThread
deriving DecidableEq, Repr

/-- What a thread does to a page whose lock it holds. -/
inductive PageStmt where
  /-- `mprotect`; `checked` where a failure ends the operation. -/
  | protect (prot : Prot) (checked : Bool)
  | setState (state : PageState)
  | setVersion (version : Nat)
  | incVersion
  | setDirty
deriving DecidableEq, Repr

namespace GuardedPage

def exec (p : GuardedPage) : PageStmt → GuardedPage
  | .protect prot _ => { p with prot := prot }
  | .setState state => { p with page := { p.page with state := state } }
  | .setVersion version => { p with page := { p.page with version := version } }
  | .incVersion => { p with page := { p.page with version := p.page.version + 1 } }
  | .setDirty => { p with page := { p.page with dirty := true } }

/-- `dsm_page_register` of page `k` of a new region on node `node`; the mapping is open if the node
owns the region. -/
def new (node : NodeId) (r : Region) (k : Nat) : GuardedPage :=
  { page := .new node ((r.globalBase + k * pageSize) % 2 ^ 64) (r.baseAddr + k * pageSize) r.ownerId
    prot := if r.ownerId = node then .readWrite else .none
    holder := none }

/-- The page is in a state in which the program may access it. -/
def Valid (p : GuardedPage) : Prop := p.page.state = .modified ∨ p.page.state = .shared

instance (p : GuardedPage) : Decidable p.Valid := inferInstanceAs (Decidable (_ ∨ _))

/-- The local page lies in the mapping of the region. -/
def In (p : GuardedPage) (r : Region) : Prop :=
  r.baseAddr ≤ p.page.localAddr ∧ p.page.localAddr < r.baseAddr + r.totalSize

instance (p : GuardedPage) (r : Region) : Decidable (p.In r) := inferInstanceAs (Decidable (_ ∧ _))

@[simp] theorem exec_holder (p : GuardedPage) (stmt : PageStmt) : (p.exec stmt).holder = p.holder := by
  cases stmt <;> rfl

@[simp] theorem new_holder (node : NodeId) (r : Region) (k : Nat) : (new node r k).holder = none := rfl

/-- The `mprotect` of a whole region. -/
def openedWith (r : Region) (p : GuardedPage) : GuardedPage :=
  if p.In r then p.exec (.protect .readWrite true) else p

@[simp] theorem openedWith_holder (r : Region) (p : GuardedPage) : (p.openedWith r).holder = p.holder := by
  unfold openedWith
  split <;> rfl

@[simp] theorem openedWith_page (r : Region) (p : GuardedPage) : (p.openedWith r).page = p.page := by
  unfold openedWith
  split <;> rfl

/-- The page as the machine of `Dsm.PageFault.FetchMachine` has it, with the given content. -/
def toLocal (p : GuardedPage) (bytes : PageBytes) : LocalPage := .ofPage p.page p.prot bytes

end GuardedPage

/-- The operations that take the lock of a record. -/
inductive LockedOp where
  | install (version : Nat)
  | invalidate
  | markModified
  /-- The first critical section of `dsm_page_fault_handle`. -/
  | check (access : FaultAccess)
  /-- Its failure paths. -/
  | giveUp
deriving DecidableEq, Repr

/-- What follows once the lock has been released. -/
inductive AfterUnlock where
  | done
  | request (access : FaultAccess)
  | ret (access : FaultAccess)
deriving DecidableEq, Repr

/-- The statements of an operation on node `node`, by the record that it has locked. -/
def LockedOp.plan (node : NodeId) (page : Page) : LockedOp → List PageStmt × AfterUnlock
  | .install version =>
      ([.protect .readWrite true, .protect .read true, .setState .shared, .setVersion version], .done)
  | .invalidate => ([.protect .none false, .setState .invalid], .done)
  | .markModified => ([.setState .modified, .setDirty, .incVersion], .done)
  | .check access =>
      if page.state = .modified ∨ page.state = .shared then
        if page.ownerId = node then ([.protect .readWrite true, .setState .modified], .ret access)
        else ([], .ret access)
      else if page.ownerId = node then
        ([.protect .readWrite true, .setState .modified], .ret access)
      else ([.setState .pending], .request access)
  | .giveUp => ([.setState .invalid], .done)

/-- The first critical section of a fault, run to its end with every `mprotect` succeeding. -/
theorem LockedOp.plan_check (node : NodeId) (access : FaultAccess) (p : GuardedPage) (bytes : PageBytes) :
    ((((check access).plan node p.page).1.foldl GuardedPage.exec p).toLocal bytes,
        decide (((check access).plan node p.page).2 = .request access)) =
      (p.toLocal bytes).onFault node true := by
  unfold plan LocalPage.onFault GuardedPage.toLocal LocalPage.ofPage
  dsimp only
  by_cases hvalid : p.page.state = .modified ∨ p.page.state = .shared
  · by_cases hown : p.page.ownerId = node
    · simp only [if_pos hvalid, if_pos hown, and_true]
      rfl
    · simp only [if_pos hvalid, if_neg hown, and_true]
      rfl
  · by_cases hown : p.page.ownerId = node
    · simp only [if_neg hvalid, if_pos hown]
      rfl
    · simp only [if_neg hvalid, if_neg hown, decide_true]
      rfl

/-- What an install leaves of a page, run to its end with every `mprotect` succeeding. -/
theorem LockedOp.plan_install (node version : Nat) (p : GuardedPage) (bytes : PageBytes) :
    (((install version).plan node p.page).1.foldl GuardedPage.exec p).toLocal bytes =
      (p.toLocal bytes).onInstalled version true := rfl

/-- Where a thread stands. -/
inductive OpPc where
  | idle
  /-- In the loop of `dsm_region_create`, before page `k`; `fixed` where `dsm_malloc_at` has called
  it. -/
  | register (fixed : Bool) (r : Region) (k : Nat)
  /-- Before the `mprotect` of `dsm_malloc_at`. -/
  | openRegion (r : Region)
  /-- In the loop of `dsm_malloc_at`, before page `k`. -/
  | mark (r : Region) (k : Nat)
  | lock (i : Nat) (op : LockedOp)
  | locked (i : Nat) (todo : List PageStmt) (next : AfterUnlock)
  /-- About to send `PAGE_REQUEST`. -/
  | request (i : Nat) (access : FaultAccess)
  /-- At the test of the loop on `fault_cond`. -/
  | test (i : Nat) (access : FaultAccess)
  | sleep (i : Nat) (access : FaultAccess)
  /-- Before the `return 0` of `dsm_page_fault_handle`. -/
  | ret (i : Nat) (access : FaultAccess)
deriving DecidableEq, Repr

/-- The record that the thread has locked, and what it has still to do to it. -/
def OpPc.inside : OpPc → Option (Nat × List PageStmt)
  | .locked i todo _ => some (i, todo)
  | _ => none

def AfterUnlock.pc (i : Nat) : AfterUnlock → OpPc
  | .done => .idle
  | .request access => .request i access
  | .ret access => .ret i access

theorem AfterUnlock.pc_inside (i : Nat) (after : AfterUnlock) : (after.pc i).inside = none := by
  cases after <;> rfl

structure PageOps where
  node : NodeId
  pages : List GuardedPage
  pc : OpThread → OpPc
  running : Bool

inductive PageOpAction where
  /-- `dsm_region_create` at the address that `mmap` returns, alone or in `dsm_malloc_at`. -/
  | create (n : Nat) (fixed : Bool) (size ownerId globalBase addr : Nat)
  | install (n globalAddr version : Nat)
  | invalidate (n globalAddr : Nat)
  | markModified (n globalAddr : Nat)
  | fault (addr : Nat) (access : FaultAccess)
  /-- The next step of a thread; `ok` is what its `mprotect` or its send returns. -/
  | step (t : OpThread) (ok : Bool)
  /-- `pthread_cond_timedwait` times out. -/
  | timeout
  | clearRunning
deriving DecidableEq, Repr

namespace PageOps

def setPc (s : PageOps) (t : OpThread) (pc : OpPc) : PageOps :=
  { s with pc := Function.update s.pc t pc }

def modify (s : PageOps) (i : Nat) (f : GuardedPage → GuardedPage) : PageOps :=
  { s with pages := s.pages.modify i f }

def append (s : PageOps) (p : GuardedPage) : PageOps := { s with pages := s.pages ++ [p] }

/-- The record that `dsm_page_lookup` finds. -/
def lookup (s : PageOps) (globalAddr : Nat) : Option Nat :=
  s.pages.findIdx? (·.page.globalAddr == pageBase globalAddr)

/-- The record that `dsm_page_lookup_local` finds. -/
def lookupLocal (s : PageOps) (addr : Nat) : Option Nat :=
  s.pages.findIdx? (·.page.localAddr == pageBase addr)

/-- A call whose lookup finds no record returns at once. -/
def call (s : PageOps) (t : OpThread) (found : Option Nat) (op : LockedOp) : Option PageOps :=
  if s.pc t = .idle then
    match found with
    | none => some s
    | some i => some (s.setPc t (.lock i op))
  else none

/-- The `mprotect` of `dsm_malloc_at` over its region. -/
def openRegion (s : PageOps) (r : Region) : PageOps :=
  { s with pages := s.pages.map (·.openedWith r) }

/-- The mark of `dsm_malloc_at` on its page `k`. -/
def mark (s : PageOps) (r : Region) (k : Nat) : PageOps :=
  match s.lookup ((r.globalBase + k * pageSize) % 2 ^ 64) with
  | none => s
  | some i => s.modify i (·.exec (.setState .shared))

/-- The next step of thread `t`. -/
def next (s : PageOps) (t : OpThread) (ok : Bool) : Option PageOps :=
  match s.pc t with
  | .idle => none
  | .register fixed r k =>
      if k < r.pageCount then
        some ((s.append (.new s.node r k)).setPc t (.register fixed r (k + 1)))
      else some (s.setPc t (if fixed then .openRegion r else .idle))
  | .openRegion r =>
      if ok then some ((s.openRegion r).setPc t (.mark r 0)) else some (s.setPc t .idle)
  | .mark r k =>
      if k < r.pageCount then some ((s.mark r k).setPc t (.mark r (k + 1)))
      else some (s.setPc t .idle)
  | .lock i op =>
      match s.pages[i]? with
      | none => none
      | some p =>
          if p.holder = none then
            some ((s.modify i ({ · with holder := some t })).setPc t
              (.locked i (op.plan s.node p.page).1 (op.plan s.node p.page).2))
          else none
  | .locked i [] after => some ((s.modify i ({ · with holder := none })).setPc t (after.pc i))
  | .locked i (.protect prot checked :: todo) after =>
      if ok then some ((s.modify i (·.exec (.protect prot checked))).setPc t (.locked i todo after))
      else if checked then some (s.setPc t (.locked i [] .done))
      else some (s.setPc t (.locked i todo after))
  | .locked i (stmt :: todo) after =>
      some ((s.modify i (·.exec stmt)).setPc t (.locked i todo after))
  | .request i access => some (s.setPc t (if ok then .test i access else .lock i .giveUp))
  | .test i access =>
      match s.pages[i]? with
      | none => none
      | some p =>
          if p.page.state = .pending ∧ s.running then some (s.setPc t (.sleep i access))
          else some (s.setPc t (.ret i access))
  | .sleep i access => some (s.setPc t (.test i access))
  | .ret _ _ => some (s.setPc t .idle)

def step (s : PageOps) : PageOpAction → Option PageOps
  | .create n fixed size ownerId globalBase addr =>
      if s.pc (.other n) = .idle ∧ (fixed → ownerId = s.node) then
        some (s.setPc (.other n) (.register fixed (.created size ownerId globalBase addr) 0))
      else none
  | .install n globalAddr version => s.call (.other n) (s.lookup globalAddr) (.install version)
  | .invalidate n globalAddr => s.call (.other n) (s.lookup globalAddr) .invalidate
  | .markModified n globalAddr => s.call (.other n) (s.lookup globalAddr) .markModified
  | .fault addr access => s.call .fault (s.lookupLocal addr) (.check access)
  | .step t ok => s.next t ok
  | .timeout =>
      match s.pc .fault with
      | .sleep i _ => some (s.setPc .fault (.lock i .giveUp))
      | _ => none
  | .clearRunning => some { s with running := false }

/-- No operation is in progress. -/
def Quiet (s : PageOps) : Prop := ∀ t, s.pc t = .idle

/-! ### What a step can do -/

@[simp] theorem setPc_pages (s : PageOps) (t : OpThread) (pc : OpPc) :
    (s.setPc t pc).pages = s.pages := rfl

@[simp] theorem setPc_pc_self (s : PageOps) (t : OpThread) (pc : OpPc) : (s.setPc t pc).pc t = pc :=
  Function.update_self ..

theorem setPc_pc_of_ne (s : PageOps) {t u : OpThread} (pc : OpPc) (h : u ≠ t) :
    (s.setPc t pc).pc u = s.pc u := Function.update_of_ne h ..

@[simp] theorem append_pc (s : PageOps) (p : GuardedPage) : (s.append p).pc = s.pc := rfl

@[simp] theorem openRegion_pc (s : PageOps) (r : Region) : (s.openRegion r).pc = s.pc := rfl

@[simp] theorem mark_pc (s : PageOps) (r : Region) (k : Nat) : (s.mark r k).pc = s.pc := by
  unfold mark
  split <;> rfl

/-- The critical section that a thread is in. -/
def inside (s : PageOps) (t : OpThread) : Option (Nat × List PageStmt) := (s.pc t).inside

/-- The statements that the holder of the lock of a page has left. -/
def rest (s : PageOps) (p : GuardedPage) : List PageStmt := CriticalSection.rest s.inside p.holder

theorem inside_setPc (s : PageOps) (t : OpThread) (pc : OpPc) :
    (s.setPc t pc).inside = Function.update s.inside t pc.inside := by
  funext u
  by_cases hut : u = t
  · subst hut
    rw [Function.update_self, inside, setPc_pc_self]
  · rw [Function.update_of_ne hut, inside, setPc_pc_of_ne s pc hut]
    rfl

theorem inside_setPc_of_none {s : PageOps} {t : OpThread} {pc : OpPc} (ht : s.inside t = none)
    (hpc : pc.inside = none) : (s.setPc t pc).inside = s.inside := by
  rw [inside_setPc, hpc, ← ht, Function.update_eq_self]

theorem inside_of_pc {s : PageOps} {t : OpThread} {pc : OpPc} (hpc : s.pc t = pc) :
    s.inside t = pc.inside := by
  rw [inside, hpc]

/-- The moves that change no page. -/
inductive Moves (s : PageOps) (ok : Bool) : OpPc → OpPc → Prop where
  | registered {fixed : Bool} {r : Region} {k : Nat} (hk : r.pageCount ≤ k) :
      Moves s ok (.register fixed r k) (if fixed then .openRegion r else .idle)
  | openFailed {r : Region} (hok : ok = false) : Moves s ok (.openRegion r) .idle
  | marked {r : Region} {k : Nat} (hk : r.pageCount ≤ k) : Moves s ok (.mark r k) .idle
  | requested {i : Nat} {access : FaultAccess} (hok : ok = true) :
      Moves s ok (.request i access) (.test i access)
  | requestFailed {i : Nat} {access : FaultAccess} (hok : ok = false) :
      Moves s ok (.request i access) (.lock i .giveUp)
  | wait {i : Nat} {access : FaultAccess} {p : GuardedPage} (hp : s.pages[i]? = some p)
      (hpending : p.page.state = .pending) (hrunning : s.running = true) :
      Moves s ok (.test i access) (.sleep i access)
  | leave {i : Nat} {access : FaultAccess} {p : GuardedPage} (hp : s.pages[i]? = some p)
      (hleave : p.page.state = .pending → s.running = false) :
      Moves s ok (.test i access) (.ret i access)
  | wake {i : Nat} {access : FaultAccess} : Moves s ok (.sleep i access) (.test i access)
  | ret {i : Nat} {access : FaultAccess} : Moves s ok (.ret i access) .idle

theorem Moves.inside {s : PageOps} {ok : Bool} {pc pc' : OpPc} (h : s.Moves ok pc pc') :
    pc.inside = none ∧ pc'.inside = none := by
  cases h with
  | @registered fixed r k hk => cases fixed <;> exact ⟨rfl, rfl⟩
  | _ => exact ⟨rfl, rfl⟩

/-- The effects of a step of thread `t`. -/
inductive Effect (s : PageOps) (t : OpThread) (ok : Bool) : PageOps → Prop where
  | move {pc : OpPc} (h : s.Moves ok (s.pc t) pc) : Effect s t ok (s.setPc t pc)
  | register {fixed : Bool} {r : Region} {k : Nat} (hpc : s.pc t = .register fixed r k)
      (hk : k < r.pageCount) :
      Effect s t ok ((s.append (.new s.node r k)).setPc t (.register fixed r (k + 1)))
  | openRegion {r : Region} (hpc : s.pc t = .openRegion r) (hok : ok = true) :
      Effect s t ok ((s.openRegion r).setPc t (.mark r 0))
  | mark {r : Region} {k : Nat} (hpc : s.pc t = .mark r k) (hk : k < r.pageCount) :
      Effect s t ok ((s.mark r k).setPc t (.mark r (k + 1)))
  | lock {i : Nat} {op : LockedOp} {p : GuardedPage} (hpc : s.pc t = .lock i op)
      (hp : s.pages[i]? = some p) (hfree : p.holder = none) :
      Effect s t ok ((s.modify i ({ · with holder := some t })).setPc t
        (.locked i (op.plan s.node p.page).1 (op.plan s.node p.page).2))
  | unlock {i : Nat} {after : AfterUnlock} (hpc : s.pc t = .locked i [] after) :
      Effect s t ok ((s.modify i ({ · with holder := none })).setPc t (after.pc i))
  | run {i : Nat} {stmt : PageStmt} {todo : List PageStmt} {after : AfterUnlock}
      (hpc : s.pc t = .locked i (stmt :: todo) after)
      (hok : ∀ prot checked, stmt = .protect prot checked → ok = true) :
      Effect s t ok ((s.modify i (·.exec stmt)).setPc t (.locked i todo after))
  /-- A failure that ends the operation. -/
  | fail {i : Nat} {prot : Prot} {todo : List PageStmt} {after : AfterUnlock}
      (hpc : s.pc t = .locked i (.protect prot true :: todo) after) (hok : ok = false) :
      Effect s t ok (s.setPc t (.locked i [] .done))
  /-- A failure that goes unnoticed. -/
  | skip {i : Nat} {prot : Prot} {todo : List PageStmt} {after : AfterUnlock}
      (hpc : s.pc t = .locked i (.protect prot false :: todo) after) (hok : ok = false) :
      Effect s t ok (s.setPc t (.locked i todo after))

theorem next_effect {s s' : PageOps} {t : OpThread} {ok : Bool} (h : s.next t ok = some s') :
    s.Effect t ok s' := by
  unfold next at h
  cases hpc : s.pc t with
  | idle => simp [hpc] at h
  | register fixed r k =>
      simp only [hpc] at h
      split at h <;> cases h
      · exact .register hpc ‹_›
      · exact .move (hpc ▸ .registered (Nat.le_of_not_lt ‹_›))
  | openRegion r =>
      simp only [hpc] at h
      split at h <;> cases h
      · exact .openRegion hpc ‹_›
      · exact .move (hpc ▸ .openFailed (Bool.not_eq_true _ ▸ ‹_›))
  | mark r k =>
      simp only [hpc] at h
      split at h <;> cases h
      · exact .mark hpc ‹_›
      · exact .move (hpc ▸ .marked (Nat.le_of_not_lt ‹_›))
  | lock i op =>
      simp only [hpc] at h
      cases hp : s.pages[i]? with
      | none => simp [hp] at h
      | some p =>
          simp only [hp] at h
          split at h <;> cases h
          exact .lock hpc hp ‹_›
  | locked i todo after =>
      cases todo with
      | nil =>
          simp only [hpc] at h
          cases h
          exact .unlock hpc
      | cons stmt todo =>
          cases stmt with
          | protect prot checked =>
              simp only [hpc] at h
              cases ok with
              | true =>
                  cases h
                  exact .run hpc fun _ _ _ => rfl
              | false =>
                  cases checked with
                  | true =>
                      cases h
                      exact .fail hpc rfl
                  | false =>
                      cases h
                      exact .skip hpc rfl
          | _ =>
              simp only [hpc] at h
              cases h
              exact .run hpc (by simp)
  | request i access =>
      simp only [hpc] at h
      cases h
      cases ok with
      | true => exact .move (hpc ▸ .requested rfl)
      | false => exact .move (hpc ▸ .requestFailed rfl)
  | test i access =>
      simp only [hpc] at h
      cases hp : s.pages[i]? with
      | none => simp [hp] at h
      | some p =>
          simp only [hp] at h
          by_cases hwait : p.page.state = .pending ∧ s.running
          · rw [if_pos hwait] at h
            cases h
            exact .move (hpc ▸ .wait hp hwait.1 hwait.2)
          · rw [if_neg hwait] at h
            cases h
            refine .move (hpc ▸ .leave hp fun hpending => ?_)
            exact Bool.eq_false_iff.mpr fun hrunning => hwait ⟨hpending, hrunning⟩
  | sleep i access =>
      simp only [hpc] at h
      cases h
      exact .move (hpc ▸ .wake)
  | ret i access =>
      simp only [hpc] at h
      cases h
      exact .move (hpc ▸ .ret)

/-- What the other steps do: a thread that is idle or that gives up its sleep starts on something. -/
inductive CallEffect (s : PageOps) : PageOpAction → PageOps → Prop where
  | create {n size ownerId globalBase addr : Nat} {fixed : Bool} (hpc : s.pc (.other n) = .idle) :
      CallEffect s (.create n fixed size ownerId globalBase addr)
        (s.setPc (.other n) (.register fixed (.created size ownerId globalBase addr) 0))
  | notFound {a : PageOpAction} : CallEffect s a s
  | install {n i globalAddr version : Nat} (hpc : s.pc (.other n) = .idle) :
      CallEffect s (.install n globalAddr version) (s.setPc (.other n) (.lock i (.install version)))
  | invalidate {n i globalAddr : Nat} (hpc : s.pc (.other n) = .idle) :
      CallEffect s (.invalidate n globalAddr) (s.setPc (.other n) (.lock i .invalidate))
  | markModified {n i globalAddr : Nat} (hpc : s.pc (.other n) = .idle) :
      CallEffect s (.markModified n globalAddr) (s.setPc (.other n) (.lock i .markModified))
  | fault {i addr : Nat} {access : FaultAccess} (hpc : s.pc .fault = .idle) :
      CallEffect s (.fault addr access) (s.setPc .fault (.lock i (.check access)))
  | timeout {i : Nat} {access : FaultAccess} (hpc : s.pc .fault = .sleep i access) :
      CallEffect s .timeout (s.setPc .fault (.lock i .giveUp))
  | clearRunning : CallEffect s .clearRunning { s with running := false }

theorem call_eq_some {s s' : PageOps} {t : OpThread} {found : Option Nat} {op : LockedOp}
    (h : s.call t found op = some s') :
    s' = s ∨ s.pc t = .idle ∧ ∃ i, s' = s.setPc t (.lock i op) := by
  unfold call at h
  split at h
  · cases found with
    | none =>
        cases h
        exact .inl rfl
    | some i =>
        cases h
        exact .inr ⟨‹_›, i, rfl⟩
  · cases h

theorem step_effect {s s' : PageOps} {a : PageOpAction} (h : s.step a = some s') :
    (∃ t ok, a = .step t ok ∧ s.Effect t ok s') ∨ s.CallEffect a s' := by
  cases a with
  | step t ok => exact .inl ⟨t, ok, rfl, next_effect h⟩
  | create n fixed size ownerId globalBase addr =>
      rw [step, Option.ite_none_right_eq_some] at h
      obtain ⟨⟨hpc, -⟩, heq⟩ := h
      cases heq
      exact .inr (.create hpc)
  | install n globalAddr version =>
      obtain rfl | ⟨hpc, i, rfl⟩ := call_eq_some h
      · exact .inr .notFound
      · exact .inr (.install hpc)
  | invalidate n globalAddr =>
      obtain rfl | ⟨hpc, i, rfl⟩ := call_eq_some h
      · exact .inr .notFound
      · exact .inr (.invalidate hpc)
  | markModified n globalAddr =>
      obtain rfl | ⟨hpc, i, rfl⟩ := call_eq_some h
      · exact .inr .notFound
      · exact .inr (.markModified hpc)
  | fault addr access =>
      obtain rfl | ⟨hpc, i, rfl⟩ := call_eq_some h
      · exact .inr .notFound
      · exact .inr (.fault hpc)
  | timeout =>
      cases hpc : s.pc .fault with
      | sleep i access =>
          simp only [step, hpc] at h
          cases h
          exact .inr (.timeout hpc)
      | _ => simp [step, hpc] at h
  | clearRunning =>
      cases h
      exact .inr .clearRunning

/-- The locks are held by the threads that are in their critical sections. -/
def Locked (s : PageOps) : Prop := CriticalSection.Locked GuardedPage.holder s.pages s.inside

theorem locked_setPc {s : PageOps} {t : OpThread} {pc : OpPc} : (s.setPc t pc).Locked ↔
    CriticalSection.Locked GuardedPage.holder s.pages (Function.update s.inside t pc.inside) := by
  rw [Locked, inside_setPc, setPc_pages]

theorem locked_setPc_of_none {s : PageOps} {t : OpThread} {pc : OpPc} (ht : s.inside t = none)
    (hpc : pc.inside = none) : (s.setPc t pc).Locked ↔ s.Locked := by
  rw [Locked, inside_setPc_of_none ht hpc, setPc_pages, Locked]

theorem Locked.append {s : PageOps} (h : s.Locked) {p : GuardedPage} (hp : p.holder = none) :
    (s.append p).Locked := CriticalSection.Locked.concat h hp

theorem Locked.openRegion {s : PageOps} (h : s.Locked) (r : Region) : (s.openRegion r).Locked :=
  CriticalSection.Locked.map h (GuardedPage.openedWith_holder r)

theorem Locked.mark {s : PageOps} (h : s.Locked) (r : Region) (k : Nat) : (s.mark r k).Locked := by
  unfold PageOps.mark
  split
  · exact h
  · exact CriticalSection.Locked.modify h _ fun p => p.exec_holder _

theorem Locked.effect {s s' : PageOps} {t : OpThread} {ok : Bool} (h : s.Locked)
    (heffect : s.Effect t ok s') : s'.Locked := by
  cases heffect with
  | move hmove => exact (locked_setPc_of_none hmove.inside.1 hmove.inside.2).mpr h
  | @register fixed r k hpc hk =>
      have hpc' : (s.append (.new s.node r k)).pc t = .register fixed r k := hpc
      exact (locked_setPc_of_none (inside_of_pc hpc') rfl).mpr (h.append (GuardedPage.new_holder ..))
  | @openRegion r hpc hok =>
      have hpc' : (s.openRegion r).pc t = .openRegion r := hpc
      exact (locked_setPc_of_none (inside_of_pc hpc') rfl).mpr (h.openRegion r)
  | @mark r k hpc hk =>
      have hpc' : (s.mark r k).pc t = .mark r k := by rw [mark_pc, hpc]
      exact (locked_setPc_of_none (inside_of_pc hpc') rfl).mpr (h.mark r k)
  | lock hpc hp hfree =>
      exact locked_setPc.mpr (CriticalSection.Locked.lock h hp hfree (inside_of_pc hpc) rfl)
  | @unlock i after hpc =>
      rw [locked_setPc, after.pc_inside]
      exact CriticalSection.Locked.unlock h (inside_of_pc hpc) fun _ => rfl
  | @run i stmt todo after hpc hok =>
      have hrun : (s.modify i (·.exec stmt)).Locked :=
        CriticalSection.Locked.modify h i fun p => p.exec_holder stmt
      exact locked_setPc.mpr (CriticalSection.Locked.advance hrun (inside_of_pc hpc))
  | fail hpc hok | skip hpc hok =>
      exact locked_setPc.mpr (CriticalSection.Locked.advance h (inside_of_pc hpc))

theorem CallEffect.frame {s s' : PageOps} {a : PageOpAction} (h : s.CallEffect a s') :
    s'.node = s.node ∧ s'.pages = s.pages ∧ s'.inside = s.inside := by
  cases h with
  | notFound => exact ⟨rfl, rfl, rfl⟩
  | clearRunning => exact ⟨rfl, rfl, rfl⟩
  | create hpc | install hpc | invalidate hpc | markModified hpc | fault hpc | timeout hpc =>
      exact ⟨rfl, rfl, inside_setPc_of_none (inside_of_pc hpc) rfl⟩

theorem Locked.step {s s' : PageOps} {a : PageOpAction} (h : s.Locked) (ha : s.step a = some s') :
    s'.Locked := by
  rcases step_effect ha with ⟨t, ok, -, heffect⟩ | hcall
  · exact h.effect heffect
  · obtain ⟨-, hpages, hinside⟩ := hcall.frame
    rw [Locked, hpages, hinside]
    exact h

end PageOps

/-- From the node's first region on. -/
def pageOpsMachine : Machine PageOps PageOpAction where
  start s := s.pages = [] ∧ s.Quiet
  step := PageOps.step

/-! ### Calls that nothing comes between -/

namespace PageOps

/-- The page table without the protections and the locks. -/
def table (s : PageOps) : PageTable := some (s.pages.map (·.page))

theorem lookup_page (s : PageOps) (globalAddr : Nat) :
    ((s.lookup globalAddr).bind (s.pages[·]?)).map (·.page) = pageLookup s.table globalAddr := by
  rw [lookup, ← List.find?_eq_bind_findIdx?_getElem?, pageLookup, table, Option.bind_some,
    List.find?_map]
  rfl

theorem table_mark (s : PageOps) (r : Region) (k : Nat) : (s.mark r k).table =
    pageUpdate s.table ((r.globalBase + k * pageSize) % 2 ^ 64) ({ · with state := .shared }) := by
  have hindex : (s.pages.map (·.page)).findIdx?
      (·.globalAddr == pageBase ((r.globalBase + k * pageSize) % 2 ^ 64)) =
      s.lookup ((r.globalBase + k * pageSize) % 2 ^ 64) := List.findIdx?_map
  rw [pageUpdate, table, table, Option.map_some, List.updateFirst_eq_modify, hindex, mark]
  cases s.lookup ((r.globalBase + k * pageSize) % 2 ^ 64) with
  | none => rfl
  | some i =>
      have hpage : ∀ p : GuardedPage, (p.exec (.setState .shared)).page =
          { p.page with state := .shared } := fun _ => rfl
      exact congrArg some (List.map_modify_comm hpage s.pages i)

variable {s : PageOps} {n : Nat} {fixed : Bool} {r : Region}

theorem exec_register {k m : Nat} (hpc : s.pc (.other n) = .register fixed r k)
    (hm : k + m = r.pageCount) :
    ∃ u, pageOpsMachine.exec s (List.replicate m (.step (.other n) true)) = some u ∧
      u.pc (.other n) = .register fixed r r.pageCount ∧ u.node = s.node ∧
      u.table = s.table.map (· ++ (List.range' k m).map fun i => .new s.node
        ((r.globalBase + i * pageSize) % 2 ^ 64) (r.baseAddr + i * pageSize) r.ownerId) := by
  induction m generalizing s k with
  | zero =>
      refine ⟨s, rfl, ?_, rfl, ?_⟩
      · rw [hpc, ← hm, Nat.add_zero]
      · simp [table]
  | succ m ih =>
      have hlt : k < r.pageCount := by omega
      have hstep : pageOpsMachine.step s (.step (.other n) true) =
          some ((s.append (.new s.node r k)).setPc (.other n) (.register fixed r (k + 1))) := by
        show s.next (.other n) true = _
        simp only [next, hpc, if_pos hlt]
      have hrest : k + 1 + m = r.pageCount := by omega
      obtain ⟨u, hexec, hpc', hnode, htable⟩ := ih
        (setPc_pc_self (s.append (.new s.node r k)) (.other n) (.register fixed r (k + 1))) hrest
      refine ⟨u, ?_, hpc', hnode, ?_⟩
      · rw [List.replicate_succ, Machine.exec_cons, hstep, Option.bind_some, hexec]
      · rw [htable, List.range'_succ, List.map_cons]
        simp [table, append, GuardedPage.new, setPc]

theorem exec_mark {k m : Nat} (hpc : s.pc (.other n) = .mark r k) (hm : k + m = r.pageCount) :
    ∃ u, pageOpsMachine.exec s (List.replicate m (.step (.other n) true)) = some u ∧
      u.pc (.other n) = .mark r r.pageCount ∧
      u.table = markPages s.table
        ((List.range' k m).map fun i => (r.globalBase + i * pageSize) % 2 ^ 64) := by
  induction m generalizing s k with
  | zero =>
      refine ⟨s, rfl, ?_, rfl⟩
      rw [hpc, ← hm, Nat.add_zero]
  | succ m ih =>
      have hlt : k < r.pageCount := by omega
      have hstep : pageOpsMachine.step s (.step (.other n) true) =
          some ((s.mark r k).setPc (.other n) (.mark r (k + 1))) := by
        show s.next (.other n) true = _
        simp only [next, hpc, if_pos hlt]
      have hrest : k + 1 + m = r.pageCount := by omega
      obtain ⟨u, hexec, hpc', htable⟩ :=
        ih (setPc_pc_self (s.mark r k) (.other n) (.mark r (k + 1))) hrest
      refine ⟨u, ?_, hpc', ?_⟩
      · rw [List.replicate_succ, Machine.exec_cons, hstep, Option.bind_some, hexec]
      · rw [htable, List.range'_succ, List.map_cons, markPages_cons, ← table_mark]
        rfl

/-- With no other step in between, the steps are the loop of `dsm_region_create`. -/
theorem exec_regionCreate {size ownerId globalBase : Nat} (hidle : s.pc (.other n) = .idle)
    (hfixed : fixed → ownerId = s.node) (addr : Nat) :
    let r := Region.created size ownerId globalBase addr
    ∃ u, pageOpsMachine.exec s (.create n fixed size ownerId globalBase addr ::
        List.replicate (r.pageCount + 1) (.step (.other n) true)) = some u ∧
      u.pc (.other n) = (if fixed then .openRegion r else .idle) ∧
      u.table = s.table.map (· ++ r.newPages s.node) := by
  intro r
  have hcreate : pageOpsMachine.step s (.create n fixed size ownerId globalBase addr) =
      some (s.setPc (.other n) (.register fixed r 0)) := if_pos ⟨hidle, hfixed⟩
  obtain ⟨u, hexec, hpc, -, htable⟩ := exec_register
    (setPc_pc_self s (.other n) (.register fixed r 0)) (Nat.zero_add r.pageCount)
  have hlast : pageOpsMachine.step u (.step (.other n) true) =
      some (u.setPc (.other n) (if fixed then .openRegion r else .idle)) := by
    show u.next (.other n) true = _
    simp only [next, hpc, if_neg (Nat.lt_irrefl r.pageCount)]
  refine ⟨u.setPc (.other n) (if fixed then .openRegion r else .idle), ?_, setPc_pc_self .., ?_⟩
  · rw [Machine.exec_cons, hcreate, Option.bind_some, List.replicate_succ', Machine.exec_append,
      hexec, Option.bind_some, Machine.exec_cons, hlast]
    rfl
  · show u.table = _
    rw [htable, Region.newPages, List.range_eq_range']
    rfl

variable {ctx : MemCtx} {size globalAddr : Nat}

theorem exec_mapRemote (hidle : s.pc (.other n) = .idle) (htable : ctx.pageTable = s.table)
    (hnode : ctx.localNodeId = s.node) (hsize : size ≠ 0) (addr : Nat) :
    let r := Region.created (roundUpPage size) masterId globalAddr addr
    ∃ u, pageOpsMachine.exec s (.create n false (roundUpPage size) masterId globalAddr addr ::
        List.replicate (r.pageCount + 1) (.step (.other n) true)) = some u ∧
      u.pc (.other n) = .idle ∧
      u.table = (ctx.mapRemote globalAddr size (some addr)).2.pageTable := by
  intro r
  obtain ⟨u, hexec, hpc, hu⟩ := @exec_regionCreate s n false (roundUpPage size) masterId globalAddr
    hidle nofun addr
  refine ⟨u, hexec, hpc, ?_⟩
  rw [hu, MemCtx.mapRemote, if_neg hsize]
  simp only [MemCtx.regionCreate_some, MemCtx.addRegion, MemCtx.registerOwnership, htable, hnode]

theorem exec_mallocAt (hidle : s.pc (.other n) = .idle) (htable : ctx.pageTable = s.table)
    (hnode : ctx.localNodeId = s.node) (hsize : size ≠ 0) (addr : Nat) :
    let r := Region.created (roundUpPage size) s.node globalAddr addr
    ∃ u, pageOpsMachine.exec s (.create n true (roundUpPage size) s.node globalAddr addr ::
        (List.replicate (r.pageCount + 1) (.step (.other n) true) ++
          .step (.other n) true :: List.replicate (r.pageCount + 1) (.step (.other n) true))) =
        some u ∧
      u.pc (.other n) = .idle ∧
      u.table = (ctx.mallocAt globalAddr size (some addr) true).2.pageTable := by
  intro r
  obtain ⟨u, hcreate, hopenPc, hu⟩ := @exec_regionCreate s n true (roundUpPage size) s.node globalAddr
    hidle (fun _ => rfl) addr
  have hopen : pageOpsMachine.step u (.step (.other n) true) =
      some ((u.openRegion r).setPc (.other n) (.mark r 0)) := by
    show u.next (.other n) true = _
    simp only [next, hopenPc, if_true]
    rfl
  obtain ⟨v, hmarks, hmarkPc, hv⟩ := exec_mark
    (setPc_pc_self (u.openRegion r) (.other n) (.mark r 0)) (Nat.zero_add r.pageCount)
  have hlast : pageOpsMachine.step v (.step (.other n) true) = some (v.setPc (.other n) .idle) := by
    show v.next (.other n) true = _
    simp only [next, hmarkPc, if_neg (Nat.lt_irrefl r.pageCount)]
  refine ⟨v.setPc (.other n) .idle, ?_, setPc_pc_self .., ?_⟩
  · rw [← List.cons_append, Machine.exec_append, hcreate, Option.bind_some, Machine.exec_cons, hopen,
      Option.bind_some, List.replicate_succ', Machine.exec_append, hmarks, Option.bind_some,
      Machine.exec_cons, hlast]
    rfl
  · have hopened : ((u.openRegion r).setPc (.other n) (.mark r 0)).table = u.table := by
      simp [table, openRegion, setPc]
    have hcount : r.pageCount = roundUpPage size / pageSize := by
      show roundUpPage (roundUpPage size) / pageSize = _
      rw [roundUpPage_roundUpPage]
    show v.table = _
    rw [hv, hopened, hu, MemCtx.mallocAt, if_neg hsize]
    simp only [MemCtx.regionCreate_some, MemCtx.markShared_pageTable, MemCtx.addRegion,
      MemCtx.registerOwnership, htable, hnode, List.range_eq_range', hcount, Bool.not_true,
      Bool.false_eq_true, if_false]
    rfl

end PageOps

end Dsm
