import Dsm.Sync.LockMachine
import Dsm.Library.CondVar

/-!
# The master's locks under any number of threads

The master branches of `dsm_lock` and `dsm_unlock` run by any number of application threads, beside
the TCP thread that handles `LOCK_REQUEST` and `LOCK_RELEASE`. A step is one critical section, one
send, or one handled message, and nothing is assumed of the callers: a thread may release a lock that
it does not hold, and a message may name any source. The condition of a lock is the list of the
threads that are blocked on it.
-/

namespace Dsm

abbrev ThreadId := Nat

/-- Where an application thread of the master is in `dsm_lock` or `dsm_unlock`. -/
inductive MasterLockPc where
  | idle
  /-- About to take the mutex and test the record. -/
  | acquire (l : LockId)
  /-- In `pthread_cond_wait`. -/
  | sleep (l : LockId)
  | release (l : LockId)
  /-- About to send the grant that the release decided. -/
  | grant (l : LockId) (next : NodeId)
  | signal (l : LockId)
deriving DecidableEq, Repr

structure MasterThreads where
  pc : ThreadId → MasterLockPc
  locks : LockTable
  /-- The threads that are blocked on the condition of a lock. -/
  blocked : LockId → List ThreadId
  /-- The grant that the TCP thread is about to send. -/
  tcpGrant : Option (NodeId × LockId)

inductive MasterThreadsAction where
  /-- Thread `t` calls `dsm_lock(l)`. -/
  | lock (t : ThreadId) (l : LockId)
  | test (t : ThreadId)
  | wake (t : ThreadId)
  | spurious (t : ThreadId)
  /-- Thread `t` calls `dsm_unlock(l)`. -/
  | unlock (t : ThreadId) (l : LockId)
  | release (t : ThreadId)
  | grant (t : ThreadId)
  /-- Thread `t` signals the condition, which wakes `woken`. -/
  | signal (t : ThreadId) (woken : Option ThreadId)
  /-- The TCP thread handles a message. -/
  | handle (msg : ToMaster)
  | tcpGrant
deriving DecidableEq, Repr

namespace MasterThreads

def setPc (m : MasterThreads) (t : ThreadId) (pc : MasterLockPc) : MasterThreads :=
  { m with pc := Function.update m.pc t pc }

@[simp] theorem setPc_self (m : MasterThreads) (t : ThreadId) (pc : MasterLockPc) :
    (m.setPc t pc).pc t = pc := Function.update_self ..

@[simp] theorem setPc_of_ne {m : MasterThreads} {t u : ThreadId} {pc : MasterLockPc} (h : u ≠ t) :
    (m.setPc t pc).pc u = m.pc u := Function.update_of_ne h ..

@[simp] theorem setPc_locks (m : MasterThreads) (t : ThreadId) (pc : MasterLockPc) :
    (m.setPc t pc).locks = m.locks := rfl

@[simp] theorem setPc_blocked (m : MasterThreads) (t : ThreadId) (pc : MasterLockPc) :
    (m.setPc t pc).blocked = m.blocked := rfl

@[simp] theorem setPc_tcpGrant (m : MasterThreads) (t : ThreadId) (pc : MasterLockPc) :
    (m.setPc t pc).tcpGrant = m.tcpGrant := rfl

/-- The `LOCK_REQUEST` and `LOCK_RELEASE` branches of `dsm_handle_message` on the master. -/
def handle (m : MasterThreads) : ToMaster → MasterThreads
  | .request srcNode l =>
      let out := syncHandleLockRequest m.locks srcNode l
      { m with locks := out.locks, tcpGrant := out.grant.map fun w => (w, l) }
  | .release srcNode l =>
      let out := syncHandleLockRelease m.locks srcNode l
      { m with locks := out.locks, tcpGrant := out.grant.map fun w => (w, l) }

def step (m : MasterThreads) : MasterThreadsAction → Option MasterThreads
  | .lock t l => if m.pc t = .idle ∧ l < maxLocks then some (m.setPc t (.acquire l)) else none
  | .test t =>
      match m.pc t with
      | .acquire l =>
          let lock := m.locks l
          if lock.locked && lock.holderId != masterId then
            some { m.setPc t (.sleep l) with
              blocked := Function.update m.blocked l (m.blocked l ++ [t]) }
          else
            some { m.setPc t .idle with
              locks := Function.update m.locks l { lock with locked := true, holderId := masterId } }
      | _ => none
  | .wake t =>
      match m.pc t with
      | .sleep l => if t ∈ m.blocked l then none else some (m.setPc t (.acquire l))
      | _ => none
  | .spurious t =>
      match m.pc t with
      | .sleep l =>
          some { m.setPc t (.acquire l) with
            blocked := Function.update m.blocked l ((m.blocked l).erase t) }
      | _ => none
  | .unlock t l => if m.pc t = .idle ∧ l < maxLocks then some (m.setPc t (.release l)) else none
  | .release t =>
      match m.pc t with
      | .release l =>
          let out := syncHandleLockRelease m.locks masterId l
          let pc := match out.grant with
            | some next => .grant l next
            | none => .signal l
          some { m.setPc t pc with locks := out.locks }
      | _ => none
  | .grant t =>
      match m.pc t with
      | .grant l _ => some (m.setPc t (.signal l))
      | _ => none
  | .signal t woken =>
      match m.pc t with
      | .signal l => (CondVar.signal (m.blocked l) woken).map fun left =>
          { m.setPc t .idle with blocked := Function.update m.blocked l left }
      | _ => none
  | .handle msg => if m.tcpGrant = none then some (m.handle msg) else none
  | .tcpGrant => if m.tcpGrant = none then none else some { m with tcpGrant := none }

/-- The `LOCK_GRANT` that a step sends, to whom and of which lock. -/
def sends (m : MasterThreads) : MasterThreadsAction → Option (NodeId × LockId)
  | .grant t =>
      match m.pc t with
      | .grant l next => some (next, l)
      | _ => none
  | .tcpGrant => m.tcpGrant
  | _ => none

end MasterThreads

/-- The master as `dsm_sync_init` leaves it. -/
def MasterThreads.initial : MasterThreads :=
  { pc := fun _ => .idle, locks := fun _ => .free, blocked := fun _ => [], tcpGrant := none }

def masterThreadsMachine : Machine MasterThreads MasterThreadsAction where
  start m := m = .initial
  step := MasterThreads.step

/-! ### What a step can do -/

namespace MasterThreads

/-- The effects of the steps. -/
inductive Effect (m : MasterThreads) : MasterThreadsAction → MasterThreads → Prop where
  | lock {t : ThreadId} {l : LockId} (hpc : m.pc t = .idle) (hl : l < maxLocks) :
      Effect m (.lock t l) (m.setPc t (.acquire l))
  | testSleep {t : ThreadId} {l : LockId} (hpc : m.pc t = .acquire l)
      (htaken : (m.locks l).locked = true ∧ (m.locks l).holderId ≠ masterId) :
      Effect m (.test t) { m.setPc t (.sleep l) with
        blocked := Function.update m.blocked l (m.blocked l ++ [t]) }
  | testEnter {t : ThreadId} {l : LockId} (hpc : m.pc t = .acquire l)
      (hfree : (m.locks l).locked = true → (m.locks l).holderId = masterId) :
      Effect m (.test t) { m.setPc t .idle with
        locks := Function.update m.locks l
          { m.locks l with locked := true, holderId := masterId } }
  | wake {t : ThreadId} {l : LockId} (hpc : m.pc t = .sleep l) (hsignalled : t ∉ m.blocked l) :
      Effect m (.wake t) (m.setPc t (.acquire l))
  | spurious {t : ThreadId} {l : LockId} (hpc : m.pc t = .sleep l) :
      Effect m (.spurious t) { m.setPc t (.acquire l) with
        blocked := Function.update m.blocked l ((m.blocked l).erase t) }
  | unlock {t : ThreadId} {l : LockId} (hpc : m.pc t = .idle) (hl : l < maxLocks) :
      Effect m (.unlock t l) (m.setPc t (.release l))
  | release {t : ThreadId} {l : LockId} {pc : MasterLockPc} (hpc : m.pc t = .release l)
      (hgrant : ∀ next, (syncHandleLockRelease m.locks masterId l).grant = some next →
        pc = .grant l next)
      (hsignal : (syncHandleLockRelease m.locks masterId l).grant = none → pc = .signal l) :
      Effect m (.release t) { m.setPc t pc with
        locks := (syncHandleLockRelease m.locks masterId l).locks }
  | grant {t : ThreadId} {l : LockId} {next : NodeId} (hpc : m.pc t = .grant l next) :
      Effect m (.grant t) (m.setPc t (.signal l))
  | signal {t : ThreadId} {l : LockId} {woken : Option ThreadId} {left : List ThreadId}
      (hpc : m.pc t = .signal l) (hleft : CondVar.signal (m.blocked l) woken = some left) :
      Effect m (.signal t woken) { m.setPc t .idle with
        blocked := Function.update m.blocked l left }
  | handle {msg : ToMaster} (htcp : m.tcpGrant = none) : Effect m (.handle msg) (m.handle msg)
  | tcpGrant {w : NodeId} {l : LockId} (htcp : m.tcpGrant = some (w, l)) :
      Effect m .tcpGrant { m with tcpGrant := none }

theorem step_effect {m m' : MasterThreads} {a : MasterThreadsAction} (h : m.step a = some m') :
    m.Effect a m' := by
  cases a with
  | lock t l =>
      rw [step, Option.ite_none_right_eq_some] at h
      obtain ⟨⟨hpc, hl⟩, heq⟩ := h
      cases heq
      exact .lock hpc hl
  | unlock t l =>
      rw [step, Option.ite_none_right_eq_some] at h
      obtain ⟨⟨hpc, hl⟩, heq⟩ := h
      cases heq
      exact .unlock hpc hl
  | test t =>
      simp only [step] at h
      split at h
      · rename_i l hpc
        split at h
        · rename_i htaken
          cases h
          exact .testSleep hpc (by simpa using htaken)
        · rename_i hfree
          cases h
          exact .testEnter hpc (by simpa using hfree)
      · cases h
  | wake t =>
      simp only [step] at h
      split at h
      · rename_i l hpc
        rw [Option.ite_none_left_eq_some] at h
        obtain ⟨hsignalled, heq⟩ := h
        cases heq
        exact .wake hpc hsignalled
      · cases h
  | release t =>
      simp only [step] at h
      split at h
      · rename_i l hpc
        cases h
        refine .release hpc (fun next hgrant => ?_) (fun hnone => ?_)
        · rw [hgrant]
        · rw [hnone]
      · cases h
  | signal t woken =>
      simp only [step] at h
      split at h
      · rename_i l hpc
        rw [Option.map_eq_some_iff] at h
        obtain ⟨left, hleft, heq⟩ := h
        cases heq
        exact .signal hpc hleft
      · cases h
  | handle msg =>
      rw [step, Option.ite_none_right_eq_some] at h
      obtain ⟨htcp, heq⟩ := h
      cases heq
      exact .handle htcp
  | tcpGrant =>
      rw [step, Option.ite_none_left_eq_some] at h
      obtain ⟨htcp, heq⟩ := h
      cases heq
      obtain ⟨⟨w, l⟩, hsome⟩ := Option.ne_none_iff_exists'.mp htcp
      exact .tcpGrant hsome
  | spurious t | grant t =>
      simp only [step] at h
      split at h
      · cases h
        constructor
        assumption
      · cases h

/-! ### The records -/

/-- A free record is as it was at the start, and a lock that is taken has a valid id. -/
structure Records (m : MasterThreads) : Prop where
  free : ∀ l, (m.locks l).locked = false → m.locks l = .free
  range : ∀ l, (m.locks l).locked = true → l < maxLocks
  pcRange : ∀ t l, m.pc t = .acquire l ∨ m.pc t = .sleep l → l < maxLocks

namespace Records

variable {m m' : MasterThreads}

theorem initial : Records .initial := by
  refine ⟨fun _ _ => rfl, ?_, ?_⟩ <;> simp [MasterThreads.initial, Lock.free]

theorem noneWaits (h : m.Records) : m.locks.NoneWaitsForFree := by
  intro l hlocked
  rw [h.free l hlocked]
  rfl

/-- A thread that is not about to test a record, or that was in `dsm_lock` of the same lock before. -/
theorem pcRange_update (h : m.Records) {t : ThreadId} {pc : MasterLockPc}
    (hpc : ∀ l, pc = .acquire l ∨ pc = .sleep l →
      l < maxLocks ∨ m.pc t = .acquire l ∨ m.pc t = .sleep l) (u : ThreadId) (l : LockId)
    (hu : (m.setPc t pc).pc u = .acquire l ∨ (m.setPc t pc).pc u = .sleep l) : l < maxLocks := by
  by_cases heq : u = t
  · subst heq
    rw [setPc_self] at hu
    rcases hpc l hu with hl | hold
    · exact hl
    · exact h.pcRange u l hold
  · rw [setPc_of_ne heq] at hu
    exact h.pcRange u l hu

theorem released (h : m.Records) {node : NodeId} {l : LockId}
    (hlocks : m'.locks = (syncHandleLockRelease m.locks node l).locks)
    (hpcRange : ∀ t l, m'.pc t = .acquire l ∨ m'.pc t = .sleep l → l < maxLocks) : m'.Records := by
  refine ⟨fun l' hfree => ?_, fun l' hlocked => ?_, hpcRange⟩
  · rw [hlocks] at hfree ⊢
    rcases syncHandleLockRelease_free _ _ _ hfree with hsame | hreset
    · rw [hsame] at hfree ⊢
      exact h.free l' hfree
    · exact hreset
  · rw [hlocks] at hlocked
    exact h.range l' (syncHandleLockRelease_locked _ _ _ hlocked)

theorem requested (h : m.Records) {node : NodeId} {l : LockId}
    (hlocks : m'.locks = (syncHandleLockRequest m.locks node l).locks) (hpc : m'.pc = m.pc) :
    m'.Records := by
  refine ⟨fun l' hfree => ?_, fun l' hlocked => ?_, by rw [hpc]; exact h.pcRange⟩
  · rw [hlocks] at hfree ⊢
    have hsame := syncHandleLockRequest_free _ _ _ hfree
    rw [hsame] at hfree ⊢
    exact h.free l' hfree
  · rw [hlocks] at hlocked
    exact (syncHandleLockRequest_locked _ _ hlocked).elim id (h.range l')

theorem step {a : MasterThreadsAction} (h : m.Records) (hstep : m.step a = some m') :
    m'.Records := by
  cases step_effect hstep with
  | lock hpc hl => exact ⟨h.free, h.range, h.pcRange_update (by simp [hl])⟩
  | @testSleep t l hpc =>
      exact ⟨h.free, h.range, h.pcRange_update (by simp [hpc])⟩
  | @testEnter t l hpc =>
      refine ⟨fun l' hfree => ?_, fun l' hlocked => ?_, h.pcRange_update (by simp)⟩
      all_goals by_cases heq : l' = l
      · subst heq
        simp at hfree
      · simp only [Function.update_of_ne heq] at hfree ⊢
        exact h.free l' hfree
      · exact heq ▸ h.pcRange t l (.inl hpc)
      · simp only [Function.update_of_ne heq] at hlocked
        exact h.range l' hlocked
  | wake hpc | spurious hpc => exact ⟨h.free, h.range, h.pcRange_update (by simp [hpc])⟩
  | unlock | grant | signal => exact ⟨h.free, h.range, h.pcRange_update (by simp)⟩
  | @release t l pc hpc hgrant hsignal =>
      refine h.released rfl (h.pcRange_update ?_)
      cases hout : (syncHandleLockRelease m.locks masterId l).grant with
      | some next => simp [hgrant next hout]
      | none => simp [hsignal hout]
  | @handle msg =>
      cases msg with
      | request srcNode l => exact h.requested rfl rfl
      | release srcNode l => exact h.released rfl h.pcRange
  | tcpGrant => exact ⟨h.free, h.range, h.pcRange⟩

theorem of_reachable (hreach : masterThreadsMachine.Reachable m) : m.Records := by
  refine hreach.invariant (fun m hm => ?_) (fun _ _ _ hinv => hinv.step)
  rw [hm]
  exact initial

end Records

end MasterThreads

end Dsm
