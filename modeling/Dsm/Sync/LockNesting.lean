import Dsm.Sync.LockCluster

/-!
# Nested acquisition

A thread may call `dsm_lock` of a lock that its node holds already. On the master the loop of
`dsm_lock` lets it through and the record keeps no count, so the first `dsm_unlock` gives the lock
away. On a worker the call puts the worker into the queue of the lock it holds, so each `dsm_unlock`
passes the lock to the first of the queue, which is the worker itself only if nobody else asked before.
The record follows the count of the thread in every run in which neither happens.
-/

namespace Dsm

/-! ### Calls on one lock -/

def MasterLockPc.lockId : MasterLockPc → Option LockId
  | .idle => none
  | .acquire l | .sleep l | .release l | .grant l _ | .signal l => some l

def WorkerLockPc.lockId : WorkerLockPc → Option LockId
  | .idle => none
  | .request l | .wait l | .sleep l | .release l | .clear l => some l

namespace LockCluster

/-- Thread `t` of node `i` is in no call on lock `l`, and the messages of its calls are handled. -/
structure Settled (s : LockCluster) (i : NodeId) (t : ThreadId) (l : LockId) : Prop where
  master : i = masterId → (s.master.pc t).lockId ≠ some l
  worker : i ≠ masterId → ((s.worker i).pc t).lockId ≠ some l
  handled : i ≠ masterId →
    .request i l ∉ (s.worker i).toMaster ∧ .release i l ∉ (s.worker i).toMaster

/-- While thread `t` is settled, the record names its node exactly if more calls of `dsm_lock` have
returned to the thread than it has made calls of `dsm_unlock`. -/
def Balanced (s : LockCluster) (i : NodeId) (t : ThreadId) (l : LockId) : Prop :=
  s.Settled i t l → ((s.master.locks l).heldBy i = true ↔ 0 < s.acquired i t l)

end LockCluster

namespace LockClusterAction

/-- No thread of node `i` but `t` calls `dsm_lock(l)`. -/
def OnlyThread (i : NodeId) (t : ThreadId) (l : LockId) : LockClusterAction → Prop
  | .master (.lock u l') => i = masterId → l' = l → u = t
  | .worker w (.lock u l') => i = w → l' = l → u = t
  | _ => True

/-- The master's thread makes its `dsm_unlock` from an acquisition that is not nested. A worker's
thread returns from `dsm_lock` while the master's record names the worker, and a release that leaves
it with an acquisition finds the worker itself at the head of the queue. -/
def NestsSafely (i : NodeId) (t : ThreadId) (l : LockId) (s : LockCluster) :
    LockClusterAction → Prop
  | .master (.unlock u l') => i = masterId → u = t → l' = l → s.acquired masterId t l = 1
  | .worker w (.test u) =>
      i = w → u = t → (s.worker i).pc t = .wait l → ((s.worker i).locks l).heldBy i = true →
        (s.master.locks l).heldBy i = true
  | .receive w =>
      i = w → ∀ rest, (s.worker i).toMaster = .release i l :: rest →
        (0 < s.acquired i t l ∨ (s.worker i).pc t = .release l ∨ .release i l ∈ rest) →
          (s.master.locks l).waiters.head? = some i
  | _ => True

end LockClusterAction

/-! ### The count of a thread -/

namespace Acquired

variable {acquired k : Acquired} {t : ThreadId} {l : LockId}

theorem count_returned (h : acquired.count (some (.returned t l)) = some k) :
    k t l = acquired t l + 1 := by
  cases h
  simp [set]

theorem count_unlocks (h : acquired.count (some (.unlocks t l)) = some k) :
    k t l + 1 = acquired t l := by
  rw [count, Option.ite_none_right_eq_some] at h
  obtain ⟨hpos, heq⟩ := h
  cases heq
  simp only [set, Function.update_self]
  omega

theorem count_of_ne {call : Option LockCall} (h : acquired.count call = some k)
    (hreturned : call ≠ some (.returned t l)) (hunlocks : call ≠ some (.unlocks t l)) :
    k t l = acquired t l := by
  have hset : ∀ u l' n, ¬ (u = t ∧ l' = l) → acquired.set u l' n t l = acquired t l := by
    intro u l' n hother
    by_cases hu : t = u
    · subst hu
      have hl : l ≠ l' := fun heq => hother ⟨rfl, heq.symm⟩
      simp [set, hl]
    · simp [set, hu]
  cases call with
  | none =>
      cases h
      rfl
  | some call =>
      cases call with
      | returned u l' =>
          cases h
          exact hset u l' _ fun hsame => hreturned (by rw [hsame.1, hsame.2])
      | unlocks u l' =>
          rw [count, Option.ite_none_right_eq_some] at h
          obtain ⟨-, heq⟩ := h
          cases heq
          exact hset u l' _ fun hsame => hunlocks (by rw [hsame.1, hsame.2])

/-- No other thread than `t` has acquired lock `l`, or is in a call on it; `on` is the lock that a
thread is in a call on. -/
def Alone (acquired : Acquired) (on : ThreadId → Option LockId) (t : ThreadId) (l : LockId) : Prop :=
  ∀ u, u ≠ t → acquired u l = 0 ∧ on u ≠ some l

theorem Alone.step {on on' : ThreadId → Option LockId} {call : Option LockCall}
    {thread : Option ThreadId} {about : Option LockId} (h : acquired.Alone on t l)
    (hcount : acquired.count call = some k)
    (hcall : ∀ u l', call = some (.returned u l') ∨ call = some (.unlocks u l') →
      thread = some u ∧ about = some l')
    (hthread : about = some l → thread = some t) (hmoves : ∀ u, thread ≠ some u → on' u = on u)
    (hother : about ≠ some l → ∀ u, on' u = on u ∨ on u ≠ some l ∧ on' u ≠ some l) :
    k.Alone on' t l := by
  intro u hu
  have hnone : ¬ (thread = some u ∧ about = some l) := by
    rintro ⟨hmover, habout⟩
    rw [hthread habout] at hmover
    exact hu (Option.some.inj hmover).symm
  rw [count_of_ne hcount (fun hreturned => hnone (hcall u l (.inl hreturned)))
    (fun hunlocks => hnone (hcall u l (.inr hunlocks)))]
  by_cases habout : about = some l
  · rw [hmoves u fun hmover => hnone ⟨hmover, habout⟩]
    exact h u hu
  · rcases hother habout u with heq | ⟨-, hafter⟩
    · rw [heq]
      exact h u hu
    · exact ⟨(h u hu).1, hafter⟩

end Acquired

/-! ### Steps of a worker -/

namespace WorkerThreads

variable {w : NodeId} {n n' : WorkerThreads} {a : WorkerThreadsAction} {acquired k : Acquired}
  {t : ThreadId} {l : LockId}

/-- The lock that a step of an application thread is about. -/
def lockId (n : WorkerThreads) : WorkerThreadsAction → Option LockId
  | .lock _ l | .unlock _ l => some l
  | .request t | .test t | .wake t | .spurious t | .release t | .clear t => (n.pc t).lockId
  | .receive _ => none

theorem lockId_of_call {call : LockCall} (h : n.call w a = some call)
    (hcall : call = .returned t l ∨ call = .unlocks t l) : a.thread = some t ∧ n.lockId a = some l := by
  cases a with
  | test u =>
      simp only [WorkerThreads.call] at h
      split at h
      · rename_i l' hpc
        rw [Option.ite_none_right_eq_some] at h
        obtain ⟨-, heq⟩ := h
        cases heq
        rcases hcall with hcall | hcall <;> cases hcall
        exact ⟨rfl, by rw [lockId, hpc]; rfl⟩
      · cases h
  | unlock u l' =>
      cases h
      rcases hcall with hcall | hcall <;> cases hcall
      exact ⟨rfl, rfl⟩
  | _ => cases h

def requested (n : WorkerThreads) (w : NodeId) (l : LockId) : Nat :=
  n.toMaster.count (.request w l)

def waiting (n : WorkerThreads) (t : ThreadId) (l : LockId) : Nat :=
  if n.pc t = .wait l ∨ n.pc t = .sleep l then 1 else 0

def releasing (n : WorkerThreads) (t : ThreadId) (l : LockId) : Nat :=
  if n.pc t = .release l then 1 else 0

/-- Nothing of lock `l` differs but the local record and the grants. -/
structure SameOn (n n' : WorkerThreads) (w : NodeId) (l : LockId) : Prop where
  pc : ∀ t, n'.pc t = n.pc t ∨ ((n.pc t).lockId ≠ some l ∧ (n'.pc t).lockId ≠ some l)
  requested : n'.requested w l = n.requested w l
  released : n'.released w l = n.released w l

theorem SameOn.of_eq (hpc : n'.pc = n.pc) (htoMaster : n'.toMaster = n.toMaster) :
    n.SameOn n' w l := by
  refine ⟨fun t => .inl (by rw [hpc]), ?_, ?_⟩
  · show n'.toMaster.count _ = n.toMaster.count _
    rw [htoMaster]
  · show n'.toMaster.count _ = n.toMaster.count _
    rw [htoMaster]

theorem SameOn.move (u : ThreadId) (pc : WorkerLockPc) (hpc : n'.pc = Function.update n.pc u pc)
    (hbefore : (n.pc u).lockId ≠ some l) (hafter : pc.lockId ≠ some l)
    (hrequested : n'.requested w l = n.requested w l) (hreleased : n'.released w l = n.released w l) :
    n.SameOn n' w l := by
  refine ⟨fun t => ?_, hrequested, hreleased⟩
  by_cases heq : t = u
  · subst heq
    exact .inr ⟨hbefore, by rwa [hpc, Function.update_self]⟩
  · exact .inl (by rw [hpc, Function.update_of_ne heq])

theorem waiting_of_lockId_ne (h : (n.pc t).lockId ≠ some l) : n.waiting t l = 0 := by
  rw [waiting, if_neg]
  rintro (hpc | hpc) <;> rw [hpc] at h <;> exact h rfl

theorem releasing_of_lockId_ne (h : (n.pc t).lockId ≠ some l) : n.releasing t l = 0 := by
  rw [releasing, if_neg]
  rintro hpc
  rw [hpc] at h
  exact h rfl

theorem SameOn.waiting (h : n.SameOn n' w l) : n'.waiting t l = n.waiting t l := by
  rcases h.pc t with heq | ⟨hbefore, hafter⟩
  · rw [WorkerThreads.waiting, WorkerThreads.waiting, heq]
  · rw [waiting_of_lockId_ne hbefore, waiting_of_lockId_ne hafter]

theorem SameOn.releasing (h : n.SameOn n' w l) : n'.releasing t l = n.releasing t l := by
  rcases h.pc t with heq | ⟨hbefore, hafter⟩
  · rw [WorkerThreads.releasing, WorkerThreads.releasing, heq]
  · rw [releasing_of_lockId_ne hbefore, releasing_of_lockId_ne hafter]

theorem sameOn_of_step (hstep : n.step w a = some n') (hother : n.lockId a ≠ some l) :
    n.SameOn n' w l := by
  cases WorkerThreads.step_effect hstep with
  | lock hpc | unlock hpc => exact .move _ _ rfl (by simp [hpc, WorkerLockPc.lockId]) hother rfl rfl
  | testEnter hpc | clear hpc =>
      exact .move _ _ rfl hother (by simp [WorkerLockPc.lockId]) rfl rfl
  | testSleep hpc | wake hpc | spurious hpc =>
      rw [lockId, hpc] at hother
      exact .move _ _ rfl (by rwa [hpc]) hother rfl rfl
  | @request u l' hpc =>
      rw [lockId, hpc] at hother
      have hne : ¬ l' = l := fun heq => hother (congrArg some heq)
      apply SameOn.move u (.wait l') rfl (by rwa [hpc]) hother
      · simp [requested, hne]
      · simp [released]
  | @release u l' hpc =>
      rw [lockId, hpc] at hother
      have hne : ¬ l' = l := fun heq => hother (congrArg some heq)
      apply SameOn.move u (.clear l') rfl (by rwa [hpc]) hother
      · simp [requested]
      · simp [released, hne]
  | receive => exact .of_eq rfl rfl

/-- A step on lock `l` is a step of thread `t`, if only thread `t` calls `dsm_lock(l)`. -/
theorem thread_eq (h : acquired.Alone (fun u => (n.pc u).lockId) t l)
    (honly : LockClusterAction.OnlyThread w t l (.worker w a))
    (hcount : acquired.count (n.call w a) = some k) (hlock : n.lockId a = some l) :
    a.thread = some t := by
  cases a with
  | lock u l' =>
      cases hlock
      rw [WorkerThreadsAction.thread, honly rfl rfl]
  | unlock u l' =>
      cases hlock
      have hpos := Acquired.count_unlocks hcount
      by_cases heq : u = t
      · rw [WorkerThreadsAction.thread, heq]
      · rw [(h u heq).1] at hpos
        cases hpos
  | receive => cases hlock
  | request u | test u | wake u | spurious u | release u | clear u =>
      by_cases heq : u = t
      · rw [WorkerThreadsAction.thread, heq]
      · exact absurd hlock (h u heq).2

theorem alone_step (h : acquired.Alone (fun u => (n.pc u).lockId) t l)
    (honly : LockClusterAction.OnlyThread w t l (.worker w a)) (hstep : n.step w a = some n')
    (hcount : acquired.count (n.call w a) = some k) :
    k.Alone (fun u => (n'.pc u).lockId) t l := by
  apply h.step hcount
  · rintro u l' (hcall | hcall)
    · exact lockId_of_call hcall (.inl rfl)
    · exact lockId_of_call hcall (.inr rfl)
  · exact thread_eq h honly hcount
  · exact fun u hmover => congrArg _ (WorkerThreads.pc_of_step hstep hmover)
  · exact fun hother u => ((sameOn_of_step hstep hother).pc u).imp_left (congrArg _)

end WorkerThreads

/-- What worker `i` has of lock `l` at the master, and what its thread `t` has asked for: each
acquisition is a place in the line of the lock, or a request on its way. -/
structure NestWorker (i : NodeId) (t : ThreadId) (l : LockId) (lock : Lock) (n : WorkerThreads)
    (a : Nat) : Prop where
  share : lock.held i + lock.queued i + n.requested i l ≤
    a + n.waiting t l + n.releasing t l + n.released i l
  holds : 0 < a + n.releasing t l + n.released i l → lock.heldBy i = true

section Worker

variable {i : NodeId} {t : ThreadId} {l : LockId} {lock : Lock} {n n' : WorkerThreads} {a a' : Nat}

theorem NestWorker.of_counts (h : NestWorker i t l lock n a)
    (hshare : n'.requested i l + (a + n.waiting t l + n.releasing t l + n.released i l) ≤
      n.requested i l + (a' + n'.waiting t l + n'.releasing t l + n'.released i l))
    (hholds : a' + n'.releasing t l + n'.released i l ≤
      a + n.releasing t l + n.released i l ∨ lock.heldBy i = true) :
    NestWorker i t l lock n' a' := by
  have hbefore := h.share
  refine ⟨by omega, fun hpos => ?_⟩
  rcases hholds with hle | hheld
  · exact h.holds (by omega)
  · exact hheld

theorem NestWorker.frame (h : NestWorker i t l lock n a) (hsame : n.SameOn n' i l) :
    NestWorker i t l lock n' a := by
  apply h.of_counts
  · rw [hsame.requested, hsame.released, hsame.waiting, hsame.releasing]
  · rw [hsame.released, hsame.releasing]
    exact .inl le_rfl

theorem NestWorker.own {b : WorkerThreadsAction} {acquired k : Acquired}
    (h : NestWorker i t l lock n (acquired t l)) (hstep : n.step i b = some n')
    (hcount : acquired.count (n.call i b) = some k) (hthread : b.thread = some t)
    (hlock : n.lockId b = some l)
    (hsafe : b = .test t → n.pc t = .wait l → (n.locks l).heldBy i = true →
      lock.heldBy i = true) :
    NestWorker i t l lock n' (k t l) := by
  cases WorkerThreads.step_effect hstep with
  | lock hpc =>
      cases hthread
      cases hlock
      cases hcount
      apply h.of_counts <;>
        simp [WorkerThreads.requested, WorkerThreads.released, WorkerThreads.waiting,
          WorkerThreads.releasing, hpc]
  | @unlock _ _ hpc =>
      cases hthread
      cases hlock
      have hpos := Acquired.count_unlocks hcount
      apply h.of_counts <;>
        simp [WorkerThreads.requested, WorkerThreads.released, WorkerThreads.waiting,
          WorkerThreads.releasing, hpc] <;> omega
  | @testEnter _ _ hpc hheld =>
      cases hthread
      rw [WorkerThreads.lockId, hpc] at hlock
      cases hlock
      have hcall : n.call i (.test t) = some (.returned t l) := by
        simp [WorkerThreads.call, hpc, hheld]
      rw [hcall] at hcount
      have hmore := Acquired.count_returned hcount
      apply h.of_counts
      · simp [WorkerThreads.requested, WorkerThreads.released, WorkerThreads.waiting,
          WorkerThreads.releasing, hpc]
        omega
      · exact .inr (hsafe rfl hpc hheld)
  | @testSleep _ _ hpc hheld =>
      cases hthread
      rw [WorkerThreads.lockId, hpc] at hlock
      cases hlock
      have hcall : n.call i (.test t) = none := by
        simp [WorkerThreads.call, hpc, hheld]
      rw [hcall] at hcount
      cases hcount
      apply h.of_counts <;>
        simp [WorkerThreads.requested, WorkerThreads.released, WorkerThreads.waiting,
          WorkerThreads.releasing, hpc]
  | receive => cases hthread
  | request hpc | wake hpc | spurious hpc | release hpc | clear hpc =>
      cases hthread
      rw [WorkerThreads.lockId, hpc] at hlock
      cases hlock
      cases hcount
      apply h.of_counts <;>
        simp [WorkerThreads.requested, WorkerThreads.released, WorkerThreads.waiting,
          WorkerThreads.releasing, hpc] <;> omega

/-! ### Steps of the master that meet the worker's share -/

theorem NestWorker.record {lock' : Lock} (h : NestWorker i t l lock n a)
    (hline : lock'.held i + lock'.queued i ≤ lock.held i + lock.queued i)
    (hheld : lock.heldBy i = true → lock'.heldBy i = true) : NestWorker i t l lock' n a := by
  have hbefore := h.share
  exact ⟨by omega, fun hpos => hheld (h.holds hpos)⟩

variable {locks : LockTable}

theorem NestWorker.requestOther {node : NodeId} (h : NestWorker i t l (locks l) n a)
    (hne : i ≠ node) (l₀ : LockId) :
    NestWorker i t l ((syncHandleLockRequest locks node l₀).locks l) n a := by
  apply h.record
  · have hheld := syncHandleLockRequest_held locks node l₀ i l
    have hqueued := syncHandleLockRequest_queued locks node l₀ i l
    rw [if_neg fun hsame => hne hsame.1] at hqueued
    omega
  · exact syncHandleLockRequest_heldBy locks node

theorem NestWorker.releaseOther {node : NodeId} (h : NestWorker i t l (locks l) n a)
    (hne : i ≠ node) (l₀ : LockId) :
    NestWorker i t l ((syncHandleLockRelease locks node l₀).locks l) n a := by
  apply h.record
  · have hheld := syncHandleLockRelease_held_of_ne locks hne l₀ l
    have hqueued := syncHandleLockRelease_queued locks node l₀ i l
    omega
  · exact syncHandleLockRelease_heldBy_of_ne locks hne l₀

/-- A step of the master's own threads or its TCP thread, other than the handling of a message. -/
theorem NestWorker.masterStep {m m' : MasterThreads} {b : MasterThreadsAction}
    (h : NestWorker i t l (m.locks l) n a) (hne : i ≠ masterId) (hown : ∀ msg, b ≠ .handle msg)
    (hstep : m.step b = some m') : NestWorker i t l (m'.locks l) n a := by
  cases MasterThreads.step_effect hstep with
  | lock | testSleep | wake | spurious | unlock | grant | signal | tcpGrant => exact h
  | @testEnter u l₀ hpc hfree =>
      by_cases heq : l = l₀
      · subst heq
        have hnot : ¬ (m.locks l).heldBy i = true := by
          rw [Lock.heldBy_eq_true]
          rintro ⟨hlocked, rfl⟩
          exact hne (hfree hlocked)
        apply h.record
        · simp [Lock.held, Lock.queued, Ne.symm hne]
        · exact fun hheld => absurd hheld hnot
      · simpa [heq] using h
  | release => exact h.releaseOther hne _
  | handle => exact absurd rfl (hown _)

theorem NestWorker.request {l₀ : LockId} (h : NestWorker i t l (locks l) n a)
    (hhead : n.toMaster = .request i l₀ :: n'.toMaster) (hpc : n'.pc = n.pc) :
    NestWorker i t l ((syncHandleLockRequest locks i l₀).locks l) n' a := by
  have hbefore := h.share
  have hheld := syncHandleLockRequest_held locks i l₀ i l
  have hqueued := syncHandleLockRequest_queued locks i l₀ i l
  have hrequested : n.requested i l = n'.requested i l + if l = l₀ then 1 else 0 := by
    simp [WorkerThreads.requested, hhead, List.count_cons, @eq_comm _ l]
  have hreleased : n.released i l = n'.released i l := by
    simp [WorkerThreads.released, hhead]
  have hwaiting : n'.waiting t l = n.waiting t l := by
    rw [WorkerThreads.waiting, WorkerThreads.waiting, hpc]
  have hreleasing : n'.releasing t l = n.releasing t l := by
    rw [WorkerThreads.releasing, WorkerThreads.releasing, hpc]
  refine ⟨?_, fun hpos => ?_⟩
  · simp only [true_and] at hqueued
    omega
  · apply syncHandleLockRequest_heldBy
    exact h.holds (by omega)

/-- A release of the worker itself is handled: it comes from the holder, and if the thread still has
an acquisition, its own request is the next in the queue. -/
theorem NestWorker.release {l₀ : LockId} (h : NestWorker i t l (locks l) n a)
    (hrange : (locks l).locked = true → l < maxLocks)
    (hhead : n.toMaster = .release i l₀ :: n'.toMaster) (hpc : n'.pc = n.pc)
    (hsafe : l₀ = l → (0 < a ∨ n.pc t = .release l ∨ .release i l ∈ n'.toMaster) →
      (locks l).waiters.head? = some i) :
    NestWorker i t l ((syncHandleLockRelease locks i l₀).locks l) n' a := by
  have hbefore := h.share
  have hrequested : n.requested i l = n'.requested i l := by
    simp [WorkerThreads.requested, hhead]
  have hreleased : n.released i l = n'.released i l + if l = l₀ then 1 else 0 := by
    simp [WorkerThreads.released, hhead, List.count_cons, @eq_comm _ l]
  have hwaiting : n'.waiting t l = n.waiting t l := by
    rw [WorkerThreads.waiting, WorkerThreads.waiting, hpc]
  have hreleasing : n'.releasing t l = n.releasing t l := by
    rw [WorkerThreads.releasing, WorkerThreads.releasing, hpc]
  by_cases heq : l = l₀
  · subst heq
    rw [if_pos rfl] at hreleased
    have hholds : (locks l).heldBy i = true := h.holds (by omega)
    have hl : l < maxLocks := hrange (Lock.heldBy_eq_true.mp hholds).1
    have hheld := syncHandleLockRelease_held locks hl hholds i l
    have hqueued := syncHandleLockRelease_queued locks i l i l
    rw [if_pos ⟨rfl, rfl⟩] at hheld
    refine ⟨by omega, fun hpos => ?_⟩
    have hleft : 0 < a ∨ n.pc t = .release l ∨ .release i l ∈ n'.toMaster := by
      by_contra! hnone
      obtain ⟨ha, hpcs, hmem⟩ := hnone
      simp only [WorkerThreads.releasing, hpc, hpcs, if_false, WorkerThreads.released,
        List.count_eq_zero_of_not_mem hmem] at hpos
      omega
    have hnext := hsafe rfl hleft
    rcases syncHandleLockRelease_cases locks hl hholds with
      ⟨next, rest, hwaiters, hcall⟩ | ⟨hwaiters, hcall⟩
    · rw [hwaiters] at hnext
      cases hnext
      simpa [hcall] using (Lock.heldBy_eq_true.mp hholds).1
    · rw [hwaiters] at hnext
      cases hnext
  · rw [if_neg heq] at hreleased
    rw [syncHandleLockRelease_frame locks i heq]
    exact ⟨by omega, fun hpos => h.holds (by omega)⟩

end Worker

/-! ### Steps of the master's threads -/

namespace MasterThreads

variable {m m' : MasterThreads} {a : MasterThreadsAction} {acquired k : Acquired} {t : ThreadId}
  {l : LockId}

/-- The lock that a step of an application thread is about. -/
def lockId (m : MasterThreads) : MasterThreadsAction → Option LockId
  | .lock _ l | .unlock _ l => some l
  | .test t | .wake t | .spurious t | .release t | .grant t | .signal t _ => (m.pc t).lockId
  | .handle _ | .tcpGrant => none

theorem lockId_of_call {call : LockCall} (h : m.call a = some call)
    (hcall : call = .returned t l ∨ call = .unlocks t l) : a.thread = some t ∧ m.lockId a = some l := by
  cases a with
  | test u =>
      simp only [MasterThreads.call] at h
      split at h
      · rename_i l' hpc
        rw [Option.ite_none_left_eq_some] at h
        obtain ⟨-, heq⟩ := h
        cases heq
        rcases hcall with hcall | hcall <;> cases hcall
        exact ⟨rfl, by rw [lockId, hpc]; rfl⟩
      · cases h
  | unlock u l' =>
      cases h
      rcases hcall with hcall | hcall <;> cases hcall
      exact ⟨rfl, rfl⟩
  | _ => cases h

theorem pc_of_move (u : ThreadId) (pc : MasterLockPc) (hpc : m'.pc = Function.update m.pc u pc)
    (hbefore : (m.pc u).lockId ≠ some l) (hafter : pc.lockId ≠ some l) (t : ThreadId) :
    m'.pc t = m.pc t ∨ (m.pc t).lockId ≠ some l ∧ (m'.pc t).lockId ≠ some l := by
  by_cases heq : t = u
  · subst heq
    exact .inr ⟨hbefore, by rwa [hpc, Function.update_self]⟩
  · exact .inl (by rw [hpc, Function.update_of_ne heq])

theorem sameOn_of_step (hstep : m.step a = some m') (hown : ∀ msg, a ≠ .handle msg)
    (hother : m.lockId a ≠ some l) : m'.locks l = m.locks l ∧
      ∀ t, m'.pc t = m.pc t ∨ (m.pc t).lockId ≠ some l ∧ (m'.pc t).lockId ≠ some l := by
  cases MasterThreads.step_effect hstep with
  | lock hpc | unlock hpc =>
      exact ⟨rfl, pc_of_move _ _ rfl (by simp [hpc, MasterLockPc.lockId]) hother⟩
  | signal hpc => exact ⟨rfl, pc_of_move _ _ rfl hother (by simp [MasterLockPc.lockId])⟩
  | testSleep hpc | wake hpc | spurious hpc | grant hpc =>
      rw [lockId, hpc] at hother
      exact ⟨rfl, pc_of_move _ _ rfl (by rwa [hpc]) hother⟩
  | @testEnter u l' hpc =>
      rw [lockId, hpc] at hother
      have hne : l ≠ l' := fun heq => hother (congrArg some heq.symm)
      exact ⟨by simp [hne], pc_of_move u .idle rfl (by rwa [hpc]) (by simp [MasterLockPc.lockId])⟩
  | @release u l' pc hpc hgrant hsignal =>
      rw [lockId, hpc] at hother
      have hne : l ≠ l' := fun heq => hother (congrArg some heq.symm)
      refine ⟨syncHandleLockRelease_frame _ _ hne, pc_of_move u pc rfl (by rwa [hpc]) ?_⟩
      cases hout : (syncHandleLockRelease m.locks masterId l').grant with
      | some next =>
          rw [hgrant next hout]
          exact hother
      | none =>
          rw [hsignal hout]
          exact hother
  | handle => exact absurd rfl (hown _)
  | tcpGrant => exact ⟨rfl, fun _ => .inl rfl⟩

/-- A step on lock `l` is a step of thread `t`, if only thread `t` calls `dsm_lock(l)`. -/
theorem thread_eq (h : acquired.Alone (fun u => (m.pc u).lockId) t l)
    (honly : LockClusterAction.OnlyThread masterId t l (.master a))
    (hcount : acquired.count (m.call a) = some k) (hlock : m.lockId a = some l) :
    a.thread = some t := by
  cases a with
  | lock u l' =>
      cases hlock
      rw [MasterThreadsAction.thread, honly rfl rfl]
  | unlock u l' =>
      cases hlock
      have hpos := Acquired.count_unlocks hcount
      by_cases heq : u = t
      · rw [MasterThreadsAction.thread, heq]
      · rw [(h u heq).1] at hpos
        cases hpos
  | handle | tcpGrant => cases hlock
  | test u | wake u | spurious u | release u | grant u | signal u =>
      by_cases heq : u = t
      · rw [MasterThreadsAction.thread, heq]
      · exact absurd hlock (h u heq).2

theorem alone_step (h : acquired.Alone (fun u => (m.pc u).lockId) t l)
    (honly : LockClusterAction.OnlyThread masterId t l (.master a)) (hstep : m.step a = some m')
    (hown : ∀ msg, a ≠ .handle msg) (hcount : acquired.count (m.call a) = some k) :
    k.Alone (fun u => (m'.pc u).lockId) t l := by
  apply h.step hcount
  · rintro u l' (hcall | hcall)
    · exact lockId_of_call hcall (.inl rfl)
    · exact lockId_of_call hcall (.inr rfl)
  · exact thread_eq h honly hcount
  · exact fun u hmover => congrArg _ (MasterThreads.pc_of_step hstep hmover)
  · exact fun hother u => ((sameOn_of_step hstep hown hother).2 u).imp_left (congrArg _)

end MasterThreads

/-- The master's record of lock `l` and its thread `t`: an acquisition is never nested when it is
released, so the record needs no count. -/
structure NestMaster (t : ThreadId) (l : LockId) (m : MasterThreads) (a : Nat) : Prop where
  held : (m.locks l).heldBy masterId = true ↔ 0 < a ∨ m.pc t = .release l
  once : m.pc t = .release l → a = 0
  waiters : masterId ∉ (m.locks l).waiters

section Master

variable {t : ThreadId} {l : LockId} {m m' : MasterThreads} {a : Nat}

theorem NestMaster.frame (h : NestMaster t l m a) (hlocks : m'.locks l = m.locks l)
    (hpc : m'.pc t = .release l ↔ m.pc t = .release l) : NestMaster t l m' a := by
  refine ⟨?_, fun hrelease => h.once (hpc.mp hrelease), ?_⟩
  · rw [hlocks, hpc]
    exact h.held
  · rw [hlocks]
    exact h.waiters

theorem NestMaster.move (h : NestMaster t l m a) (hlocks : m'.locks = m.locks)
    (hbefore : m.pc t ≠ .release l) (hafter : m'.pc t ≠ .release l) : NestMaster t l m' a :=
  h.frame (by rw [hlocks]) (iff_of_false hafter hbefore)

/-- The master's own release is made by the holder, and the lock goes to a worker or is free. -/
theorem NestMaster.released (h : NestMaster t l m a)
    (hrange : (m.locks l).locked = true → l < maxLocks) (hpc : m.pc t = .release l)
    (hpc' : m'.pc t ≠ .release l)
    (hlocks : m'.locks = (syncHandleLockRelease m.locks masterId l).locks) :
    NestMaster t l m' a := by
  have hheld : (m.locks l).heldBy masterId = true := h.held.mpr (.inr hpc)
  rcases syncHandleLockRelease_effect m.locks masterId l with
    ⟨next, rest, -, -, hwaiters, hcall⟩ | ⟨-, -, hwaiters, hcall⟩ | ⟨hnot, hcall⟩
  · have hnone := h.waiters
    rw [hwaiters, List.mem_cons, not_or] at hnone
    refine ⟨?_, fun hrelease => absurd hrelease hpc', ?_⟩
    · simp [hlocks, hcall, h.once hpc, hpc', Ne.symm hnone.1]
    · simpa [hlocks, hcall] using hnone.2
  · refine ⟨?_, fun hrelease => absurd hrelease hpc', ?_⟩
    · simp [hlocks, hcall, h.once hpc, hpc']
    · simp [hlocks, hcall, hwaiters]
  · exact absurd ⟨hrange (Lock.heldBy_eq_true.mp hheld).1, hheld⟩ hnot

theorem NestMaster.own {b : MasterThreadsAction} {acquired k : Acquired}
    (h : NestMaster t l m (acquired t l)) (hrange : (m.locks l).locked = true → l < maxLocks)
    (hstep : m.step b = some m')
    (hcount : acquired.count (m.call b) = some k) (hthread : b.thread = some t)
    (hlock : m.lockId b = some l) (hsafe : b = .unlock t l → acquired t l = 1) :
    NestMaster t l m' (k t l) := by
  cases MasterThreads.step_effect hstep with
  | lock hpc =>
      cases hthread
      cases hcount
      exact h.move rfl (by simp [hpc]) (by simp)
  | unlock hpc =>
      cases hthread
      cases hlock
      have hpos := Acquired.count_unlocks hcount
      have hone := hsafe rfl
      have hnone : k t l = 0 := by omega
      have hheld : (m.locks l).heldBy masterId = true := h.held.mpr (.inl (by omega))
      exact ⟨by simpa using hheld, fun _ => hnone, h.waiters⟩
  | @testSleep _ _ hpc htaken =>
      cases hthread
      have hcall : m.call (.test t) = none := by simp [MasterThreads.call, hpc, htaken]
      rw [hcall] at hcount
      cases hcount
      exact h.move rfl (by simp [hpc]) (by simp)
  | @testEnter _ _ hpc hfree =>
      cases hthread
      rw [MasterThreads.lockId, hpc] at hlock
      cases hlock
      have hcall : m.call (.test t) = some (.returned t l) := by
        simpa [MasterThreads.call, hpc] using hfree
      rw [hcall] at hcount
      have hmore := Acquired.count_returned hcount
      refine ⟨?_, ?_, ?_⟩
      · simp [hmore]
      · simp
      · simpa using h.waiters
  | wake hpc | spurious hpc | grant hpc | signal hpc =>
      cases hthread
      cases hcount
      exact h.move rfl (by simp [hpc]) (by simp)
  | @release _ _ pc hpc hgrant hsignal =>
      cases hthread
      rw [MasterThreads.lockId, hpc] at hlock
      cases hlock
      cases hcount
      apply h.released hrange hpc _ rfl
      cases hout : (syncHandleLockRelease m.locks masterId l).grant with
      | some next => simp [hgrant next hout]
      | none => simp [hsignal hout]
  | handle => cases hthread
  | tcpGrant => cases hthread

theorem NestMaster.not_of_heldBy {node : NodeId} (h : NestMaster t l m a) (hne : node ≠ masterId)
    (hheld : (m.locks l).heldBy node = true) : ¬ (0 < a ∨ m.pc t = .release l) := by
  intro hmine
  exact hne (Lock.heldBy_unique hheld (h.held.mpr hmine))

/-- A message of a worker neither takes the lock from the master nor gives it to the master. -/
theorem NestMaster.handle {msg : ToMaster} (h : NestMaster t l m a)
    (hsrc : msg.srcNode ≠ masterId) : NestMaster t l (m.handle msg) a := by
  have hnone := h.waiters
  cases msg with
  | request srcNode l₀ =>
      have hne : srcNode ≠ masterId := hsrc
      by_cases heq : l = l₀
      · subst heq
        rcases syncHandleLockRequest_cases m.locks srcNode l with
          ⟨-, hfree, hcall⟩ | ⟨-, hcall⟩ | ⟨_, hcall⟩
        · have hlost : ¬ (0 < a ∨ m.pc t = .release l) := by
            rw [← h.held]
            simp [hfree]
          refine ⟨?_, h.once, ?_⟩
          · simpa [MasterThreads.handle, hcall, hne] using hlost
          · simpa [MasterThreads.handle, hcall] using hnone
        · refine ⟨?_, h.once, ?_⟩
          · simpa [MasterThreads.handle, hcall] using h.held
          · simp [MasterThreads.handle, hcall, hnone, Ne.symm hne]
        · exact h.frame (by simp [MasterThreads.handle, hcall]) Iff.rfl
      · exact h.frame (syncHandleLockRequest_frame _ _ heq) Iff.rfl
  | release srcNode l₀ =>
      by_cases heq : l = l₀
      · subst heq
        rcases syncHandleLockRelease_effect m.locks srcNode l with
          ⟨next, rest, -, hheld, hwaiters, hcall⟩ | ⟨-, hheld, -, hcall⟩ | ⟨-, hcall⟩
        · have hlost := h.not_of_heldBy hsrc hheld
          rw [hwaiters, List.mem_cons, not_or] at hnone
          refine ⟨?_, h.once, ?_⟩
          · simpa [MasterThreads.handle, hcall, Ne.symm hnone.1] using hlost
          · simpa [MasterThreads.handle, hcall] using hnone.2
        · have hlost := h.not_of_heldBy hsrc hheld
          refine ⟨?_, h.once, ?_⟩
          · simpa [MasterThreads.handle, hcall] using hlost
          · simpa [MasterThreads.handle, hcall] using hnone
        · exact h.frame (by simp [MasterThreads.handle, hcall]) Iff.rfl
      · exact h.frame (syncHandleLockRelease_frame _ _ heq) Iff.rfl

end Master

/-! ### Runs -/

/-- The invariant for node `i`, whose thread `t` alone acquires lock `l`. -/
structure NestInv (cl : Cluster) (i : NodeId) (t : ThreadId) (l : LockId) (s : LockCluster) :
    Prop where
  reachable : (lockCluster cl).Reachable s
  master : i = masterId → (s.acquired masterId).Alone (fun u => (s.master.pc u).lockId) t l ∧
    NestMaster t l s.master (s.acquired masterId t l)
  worker : i ∈ cl.workers → (s.acquired i).Alone (fun u => ((s.worker i).pc u).lockId) t l ∧
    NestWorker i t l (s.master.locks l) (s.worker i) (s.acquired i t l)

namespace NestInv

variable {cl : Cluster} {i : NodeId} {t : ThreadId} {l : LockId} {s s' : LockCluster}

theorem records (h : NestInv cl i t l s) : s.master.Records :=
  LockCluster.records_of_reachable h.reachable

theorem sources (h : NestInv cl i t l s) : s.Sources cl :=
  LockCluster.sources_of_reachable h.reachable

theorem initial : NestInv cl i t l .initial := by
  refine ⟨.start rfl, fun _ => ⟨?_, ?_⟩, fun _ => ⟨?_, ?_⟩⟩
  · exact fun _ _ => ⟨rfl, by simp [LockCluster.initial, MasterThreads.initial, MasterLockPc.lockId]⟩
  · refine ⟨?_, ?_, ?_⟩ <;> simp [LockCluster.initial, MasterThreads.initial, Lock.free]
  · exact fun _ _ => ⟨rfl, by simp [LockCluster.initial, WorkerLockPc.lockId]⟩
  · refine ⟨?_, ?_⟩ <;>
      simp [LockCluster.initial, MasterThreads.initial, Lock.free, Lock.held, Lock.queued,
        WorkerThreads.requested, WorkerThreads.waiting, WorkerThreads.releasing,
        WorkerThreads.released]

theorem balanced (h : NestInv cl i t l s) (hi : i ∈ cl.nodes) : s.Balanced i t l := by
  intro hsettled
  by_cases heq : i = masterId
  · subst heq
    have hpc : s.master.pc t ≠ .release l := fun hpc => hsettled.master rfl (by rw [hpc]; rfl)
    rw [(h.master rfl).2.held, or_iff_left hpc]
  · have hw : i ∈ cl.workers := (List.mem_cons.mp hi).resolve_left heq
    have hnest := (h.worker hw).2
    have hwaiting := WorkerThreads.waiting_of_lockId_ne (hsettled.worker heq)
    have hreleasing := WorkerThreads.releasing_of_lockId_ne (hsettled.worker heq)
    have hreleased : (s.worker i).released i l = 0 :=
      List.count_eq_zero_of_not_mem (hsettled.handled heq).2
    constructor
    · intro hheld
      have hshare := hnest.share
      rw [Lock.held, if_pos hheld] at hshare
      omega
    · exact fun hpos => hnest.holds (by omega)

/-- A step of the master's threads or its TCP thread, other than the handling of a message. -/
theorem masterStep {b : MasterThreadsAction} {m : MasterThreads} {k : Acquired}
    (h : NestInv cl i t l s) (hown : ∀ msg, b ≠ .handle msg)
    (honly : LockClusterAction.OnlyThread i t l (.master b))
    (hok : LockClusterAction.NestsSafely i t l s (.master b)) (hstep : s.master.step b = some m)
    (hcount : (s.acquired masterId).count (s.master.call b) = some k) (hi : i = masterId) :
    k.Alone (fun u => (m.pc u).lockId) t l ∧ NestMaster t l m (k t l) := by
  subst hi
  obtain ⟨halone, hnest⟩ := h.master rfl
  refine ⟨MasterThreads.alone_step halone honly hstep hown hcount, ?_⟩
  by_cases hlock : s.master.lockId b = some l
  · apply hnest.own (h.records.range l) hstep hcount
      (MasterThreads.thread_eq halone honly hcount hlock) hlock
    rintro rfl
    exact hok rfl rfl rfl
  · obtain ⟨hlocks, hpc⟩ := MasterThreads.sameOn_of_step hstep hown hlock
    rw [Acquired.count_of_ne hcount
      (fun hcall => hlock (MasterThreads.lockId_of_call hcall (.inl rfl)).2)
      (fun hcall => hlock (MasterThreads.lockId_of_call hcall (.inr rfl)).2)]
    apply hnest.frame hlocks
    rcases hpc t with heq | ⟨hbefore, hafter⟩
    · rw [heq]
    · constructor <;> intro hrelease
      · exact absurd (by rw [hrelease]; rfl) hafter
      · exact absurd (by rw [hrelease]; rfl) hbefore

theorem workerStep {b : WorkerThreadsAction} {n : WorkerThreads} {k : Acquired}
    (h : NestInv cl i t l s) (hi : i ∈ cl.workers)
    (honly : LockClusterAction.OnlyThread i t l (.worker i b))
    (hok : LockClusterAction.NestsSafely i t l s (.worker i b))
    (hstep : (s.worker i).step i b = some n)
    (hcount : (s.acquired i).count ((s.worker i).call i b) = some k) :
    k.Alone (fun u => (n.pc u).lockId) t l ∧ NestWorker i t l (s.master.locks l) n (k t l) := by
  obtain ⟨halone, hnest⟩ := h.worker hi
  refine ⟨WorkerThreads.alone_step halone honly hstep hcount, ?_⟩
  by_cases hlock : (s.worker i).lockId b = some l
  · apply hnest.own hstep hcount (WorkerThreads.thread_eq halone honly hcount hlock) hlock
    rintro rfl
    exact hok rfl rfl
  · rw [Acquired.count_of_ne hcount
      (fun hcall => hlock (WorkerThreads.lockId_of_call hcall (.inl rfl)).2)
      (fun hcall => hlock (WorkerThreads.lockId_of_call hcall (.inr rfl)).2)]
    exact hnest.frame (WorkerThreads.sameOn_of_step hstep hlock)

theorem receiveStep {v : NodeId} {msg : ToMaster} {rest : List ToMaster} (h : NestInv cl i t l s)
    (hi : i ∈ cl.workers) (hv : v ∈ cl.workers) (hhead : (s.worker v).toMaster = msg :: rest)
    (hok : LockClusterAction.NestsSafely i t l s (.receive v)) :
    NestWorker i t l ((s.master.handle msg).locks l)
      (Function.update s.worker v { s.worker v with toMaster := rest } i) (s.acquired i t l) := by
  have hnest := (h.worker hi).2
  have hsrc : msg.srcNode = v := h.sources v hv msg (by rw [hhead]; exact List.mem_cons_self)
  by_cases heq : i = v
  · subst heq
    rw [Function.update_self]
    cases msg with
    | request srcNode l₀ =>
        obtain rfl : srcNode = i := hsrc
        exact hnest.request hhead rfl
    | release srcNode l₀ =>
        obtain rfl : srcNode = i := hsrc
        refine hnest.release (h.records.range l) hhead rfl fun heq hleft => ?_
        subst heq
        exact hok rfl rest hhead hleft
  · rw [Function.update_of_ne heq]
    have hne : i ≠ msg.srcNode := by rwa [hsrc]
    cases msg with
    | request srcNode l₀ => exact hnest.requestOther hne l₀
    | release srcNode l₀ => exact hnest.releaseOther hne l₀

theorem step {a : LockClusterAction} (h : NestInv cl i t l s)
    (honly : a.OnlyThread i t l) (hok : a.NestsSafely i t l s) (hstep : s.step cl a = some s') :
    NestInv cl i t l s' := by
  have hreachable := h.reachable.step a hstep
  cases LockCluster.step_effect hstep with
  | @master b m k hown hm hcount =>
      refine ⟨hreachable, fun hi => ?_, fun hi => ?_⟩
      · simpa using h.masterStep hown honly hok hm hcount hi
      · obtain ⟨hpc, -, htoMaster⟩ :=
          LockCluster.deliver_frame cl s.worker (s.master.sends b) i
        obtain ⟨halone, hnest⟩ := h.worker hi
        have hne : i ≠ masterId := Cluster.ne_masterId hi
        simp only [Function.update_of_ne hne, hpc]
        exact ⟨halone, (hnest.masterStep hne hown hm).frame (.of_eq hpc htoMaster)⟩
  | @receive v msg rest hv hhead htcp =>
      have hsrc : msg.srcNode = v := h.sources v hv msg (by rw [hhead]; exact List.mem_cons_self)
      refine ⟨hreachable, fun hi => ?_, fun hi => ⟨?_, ?_⟩⟩
      · obtain ⟨halone, hnest⟩ := h.master hi
        have hpc : (s.master.handle msg).pc = s.master.pc := by cases msg <;> rfl
        refine ⟨by rwa [hpc], hnest.handle ?_⟩
        rw [hsrc]
        exact Cluster.ne_masterId hv
      · have halone := (h.worker hi).1
        by_cases heq : i = v
        · subst heq
          simpa using halone
        · simpa [heq] using halone
      · exact h.receiveStep hi hv hhead hok
  | @worker v b n k hv hn hcount =>
      refine ⟨hreachable, fun hi => ?_, fun hi => ?_⟩
      · have hne : masterId ≠ v := (Cluster.ne_masterId hv).symm
        simpa [hne] using h.master hi
      · by_cases heq : i = v
        · subst heq
          simpa using h.workerStep hi honly hok hn hcount
        · simpa [heq] using h.worker hi

end NestInv

/-- In every run in which the node's nested acquisitions are safe, the master's record names the node
while the thread has an acquisition left, and not after its last release. -/
theorem lock_nesting_balanced {cl : Cluster} {i : NodeId} (hi : i ∈ cl.nodes) {t : ThreadId}
    {l : LockId} {s : LockCluster} {as : List LockClusterAction}
    (hexec : (lockCluster cl).exec .initial as = some s)
    (honly : (lockCluster cl).EachStep (fun _ a => a.OnlyThread i t l) .initial as)
    (hok : (lockCluster cl).EachStep (fun s a => a.NestsSafely i t l s) .initial as) :
    (lockCluster cl).Always (fun s => s.Balanced i t l) .initial as := by
  have hboth : (lockCluster cl).EachStep
      (fun s a => a.OnlyThread i t l ∧ a.NestsSafely i t l s) .initial as :=
    fun pre a u hpre hu => ⟨honly pre a u hpre hu, hok pre a u hpre hu⟩
  exact Machine.always_of_eachStep (fun _ hinv => NestInv.balanced hinv hi)
    (fun _ _ _ hinv hand hstep => NestInv.step hinv hand.1 hand.2 hstep) .initial hexec hboth

/-- Worker 2 acquires lock 0 twice and releases it once, with nobody else in the queue. -/
def nestedRun : List LockClusterAction :=
  [.worker 2 (.lock 0 0), .worker 2 (.request 0), .receive 2, .master .tcpGrant,
    .worker 2 (.receive none), .worker 2 (.test 0), .worker 2 (.lock 0 0), .worker 2 (.request 0),
    .worker 2 (.test 0), .receive 2, .worker 2 (.unlock 0 0), .worker 2 (.release 0),
    .worker 2 (.clear 0), .receive 2, .master .tcpGrant, .worker 2 (.receive none)]

theorem lock_nesting_balanced_nested : ∃ s,
    (lockCluster oneWorker).exec .initial nestedRun = some s ∧ s.acquired 2 0 0 = 1 ∧
      (s.master.locks 0).heldBy 2 = true := by
  have honly : (lockCluster oneWorker).EachStep (fun _ a => a.OnlyThread 2 0 0) .initial
      nestedRun :=
    Machine.eachStep_of_forall (by simp [nestedRun, LockClusterAction.OnlyThread])
  have hok : (lockCluster oneWorker).EachStep (fun s a => a.NestsSafely 2 0 0 s) .initial
      nestedRun := by
    refine (Machine.eachStep_cons rfl).mpr ⟨trivial, (Machine.eachStep_cons rfl).mpr ⟨trivial, ?_⟩⟩
    refine (Machine.eachStep_cons rfl).mpr ⟨nofun, (Machine.eachStep_cons rfl).mpr ⟨trivial, ?_⟩⟩
    refine (Machine.eachStep_cons rfl).mpr ⟨trivial, (Machine.eachStep_cons rfl).mpr ⟨?_, ?_⟩⟩
    · exact fun _ _ _ _ => rfl
    refine (Machine.eachStep_cons rfl).mpr ⟨trivial, (Machine.eachStep_cons rfl).mpr ⟨trivial, ?_⟩⟩
    refine (Machine.eachStep_cons rfl).mpr ⟨?_, (Machine.eachStep_cons rfl).mpr ⟨?_, ?_⟩⟩
    · exact fun _ _ _ _ => rfl
    · exact fun _ rest hhead => nomatch hhead
    refine (Machine.eachStep_cons rfl).mpr ⟨trivial, (Machine.eachStep_cons rfl).mpr ⟨trivial, ?_⟩⟩
    refine (Machine.eachStep_cons rfl).mpr ⟨trivial, (Machine.eachStep_cons rfl).mpr ⟨?_, ?_⟩⟩
    · exact fun _ _ _ _ => rfl
    refine (Machine.eachStep_cons rfl).mpr ⟨trivial, (Machine.eachStep_cons rfl).mpr ⟨trivial, ?_⟩⟩
    exact Machine.eachStep_nil
  obtain ⟨s, hexec, hpc, htoMaster, hacquired⟩ : ∃ s,
      (lockCluster oneWorker).exec .initial nestedRun = some s ∧
        ((s.worker 2).pc 0).lockId = none ∧ (s.worker 2).toMaster = [] ∧ s.acquired 2 0 0 = 1 :=
    ⟨_, rfl, rfl, rfl, rfl⟩
  have hsettled : s.Settled 2 0 0 :=
    ⟨fun heq => absurd heq (by decide), fun _ => by simp [hpc], fun _ => by simp [htoMaster]⟩
  have hbalanced := (lock_nesting_balanced (by decide) hexec honly hok).last hexec hsettled
  exact ⟨s, hexec, hacquired, hbalanced.mpr (by rw [hacquired]; decide)⟩

/-- A thread acquires the lock twice and releases it once, and the record does not name its node: on
the master the first release frees the lock, and a worker's passes it to the worker that asked in
between. -/
theorem lock_nesting_unbalanced :
    (∃ s, (lockCluster oneWorker).exec .initial
      [.master (.lock 0 0), .master (.test 0), .master (.lock 0 0), .master (.test 0),
        .master (.unlock 0 0), .master (.release 0), .master (.signal 0 none)] = some s ∧
      s.Settled masterId 0 0 ∧ s.acquired masterId 0 0 = 1 ∧
      (s.master.locks 0).heldBy masterId = false) ∧
    (∃ s, (lockCluster twoWorkers).exec .initial
      [.worker 2 (.lock 0 0), .worker 2 (.request 0), .receive 2, .master .tcpGrant,
        .worker 2 (.receive none), .worker 2 (.test 0), .worker 3 (.lock 0 0),
        .worker 3 (.request 0), .receive 3, .worker 2 (.lock 0 0), .worker 2 (.request 0),
        .worker 2 (.test 0), .receive 2, .worker 2 (.unlock 0 0), .worker 2 (.release 0),
        .worker 2 (.clear 0), .receive 2, .master .tcpGrant, .worker 3 (.receive none)] = some s ∧
      s.Settled 2 0 0 ∧ s.acquired 2 0 0 = 1 ∧ (s.master.locks 0).heldBy 2 = false) := by
  refine ⟨⟨_, rfl, ⟨fun _ => ?_, ?_, ?_⟩, rfl, rfl⟩, ⟨_, rfl, ⟨?_, fun _ => ?_, fun _ => ?_⟩, rfl, rfl⟩⟩
  · decide
  · exact fun hne => absurd rfl hne
  · exact fun hne => absurd rfl hne
  · decide
  · decide
  · decide

end Dsm
