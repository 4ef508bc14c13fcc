import Dsm.Sync.LockSafety
import Dsm.Library.FirstMatch
import Mathlib.Data.List.Perm.Subperm

/-!
# No request is dropped

The queue of a lock record has `DSM_MAX_NODES` places, and a request that finds it full is dropped.
A worker asks again only after it has had the lock and released it, and its channel is in order, so
the master handles that release before the next request. Hence a worker is named at most once by the
holder and the queue together, all that wait are distinct workers, and there is always a free place.
-/

namespace Dsm

/-- What the place of worker `w` in the master's queues owes to its messages in flight. -/
structure QueueLink (w : NodeId) (m : MasterNode) (n : WorkerNode) : Prop where
  once : ∀ l, m.held w l + m.queued w l ≤ 1
  /-- No release travels behind a request for the same lock. -/
  order : ∀ l, n.toMaster.Pairwise fun first later =>
    first = .request w l → later ≠ .release w l
  range : ∀ l, .request w l ∈ n.toMaster ∨ n.pc = .request l → l < maxLocks

structure QueueInv (cl : Cluster) (s : LockState) : Prop where
  lock : LockInv cl s
  link : ∀ w ∈ cl.workers, QueueLink w s.master (s.worker w)
  waiters : ∀ l, ∀ i ∈ (s.master.locks l).waiters, i ∈ cl.workers

theorem QueueInv.initial (cl : Cluster) : QueueInv cl .initial := by
  refine ⟨LockInv.initial cl, fun w _ => ⟨?_, ?_, ?_⟩, ?_⟩ <;>
    simp [LockState.initial, MasterNode.initial, WorkerNode.initial, MasterNode.held,
      MasterNode.queued, Lock.held, Lock.queued, Lock.free]

/-! ### Steps of a worker -/

theorem QueueLink.step {w : NodeId} {m : MasterNode} {n n' : WorkerNode} {a : WorkerAction}
    (h : QueueLink w m n) (hlink : LinkInv w m n) (hstep : n.step w a = some n') :
    QueueLink w m n' := by
  cases WorkerNode.step_effect hstep with
  | lock hpc hl _ =>
      refine ⟨h.once, h.order, fun l' hl' => ?_⟩
      rcases hl' with hsent | hpc'
      · exact h.range l' (.inl hsent)
      · cases hpc'
        exact hl
  | @request l hpc =>
      refine ⟨h.once, fun l' => ?_, fun l' hl' => ?_⟩
      · exact List.pairwise_concat.mpr ⟨h.order l', fun first _ _ => nofun⟩
      · rcases hl' with hsent | hpc'
        · rcases List.mem_append.mp hsent with hsent | hsent
          · exact h.range l' (.inl hsent)
          · cases List.mem_singleton.mp hsent
            exact h.range l (.inr hpc)
        · cases hpc'
  | @release l hpc =>
      refine ⟨h.once, fun l' => ?_, fun l' hl' => ?_⟩
      · refine List.pairwise_concat.mpr ⟨h.order l', ?_⟩
        intro first hfirst heq hrelease
        cases hrelease
        have hquiet := hlink.quiet l (by simp [hpc, WorkerPc.WaitsFor])
        have hone : 1 ≤ n.requested w l := List.one_le_count_iff.mpr (heq ▸ hfirst)
        omega
      · rcases hl' with hsent | hpc'
        · refine h.range l' (.inl ?_)
          simpa using hsent
        · cases hpc'
  | @receive l rest hgrants =>
      refine ⟨h.once, h.order, fun l' hl' => h.range l' ?_⟩
      rwa [WorkerPc.signal_eq_request] at hl'
  | testSleep hpc | testEnter hpc | wake hpc | spurious hpc | unlock hpc | clear hpc =>
      refine ⟨h.once, h.order, fun l' hl' => h.range l' (.inl ?_)⟩
      rcases hl' with hsent | hpc'
      · exact hsent
      · cases hpc'

/-! ### Steps of the master -/

/-- A step of the master takes messages from the front of the channels and queues workers only. -/
theorem QueueInv.balance {cl : Cluster} {s t : LockState} (h : QueueInv cl s) (ht : LockInv cl t)
    (hpc : ∀ w ∈ cl.workers, (t.worker w).pc = (s.worker w).pc)
    (hsent : ∀ w ∈ cl.workers, (t.worker w).toMaster <:+ (s.worker w).toMaster)
    (honce : ∀ w ∈ cl.workers, ∀ l, t.master.held w l + t.master.queued w l ≤ 1)
    (hqueued : ∀ i l, t.master.queued i l ≤ s.master.queued i l ∨ i ∈ cl.workers) :
    QueueInv cl t := by
  refine ⟨ht, fun w hw => ⟨honce w hw, fun l => ?_, fun l hl => ?_⟩, fun l i hi => ?_⟩
  · exact ((h.link w hw).order l).sublist (hsent w hw).sublist
  · rw [hpc w hw] at hl
    exact (h.link w hw).range l (hl.imp_left fun hmem => (hsent w hw).subset hmem)
  · have hone : 1 ≤ t.master.queued i l := List.one_le_count_iff.mpr hi
    rcases hqueued i l with hless | hworker
    · exact h.waiters l i (List.one_le_count_iff.mp (hone.trans hless))
    · exact hworker

theorem QueueInv.congr {cl : Cluster} {s t : LockState} (h : QueueInv cl s) (ht : LockInv cl t)
    (hlocks : t.master.locks = s.master.locks)
    (hpc : ∀ w, (t.worker w).pc = (s.worker w).pc)
    (hsent : ∀ w, (t.worker w).toMaster = (s.worker w).toMaster) : QueueInv cl t := by
  refine h.balance ht (fun w _ => hpc w) (fun w _ => ?_) (fun w hw l => ?_) (fun i l => .inl ?_)
  · rw [hsent w]
  · simpa [MasterNode.held, MasterNode.queued, hlocks] using (h.link w hw).once l
  · rw [MasterNode.queued, MasterNode.queued, hlocks]

theorem LockState.sendGrant_frame (cl : Cluster) (s : LockState) (node : NodeId) (l : LockId) :
    (s.sendGrant cl node l).master = s.master ∧ ∀ w,
      ((s.sendGrant cl node l).worker w).pc = (s.worker w).pc ∧
      ((s.sendGrant cl node l).worker w).toMaster = (s.worker w).toMaster := by
  unfold LockState.sendGrant
  split
  · refine ⟨rfl, fun w => ?_⟩
    by_cases heq : w = node
    · subst heq
      simp [LockState.setWorker]
    · simp [LockState.setWorker, heq]
  · exact ⟨rfl, fun w => ⟨rfl, rfl⟩⟩

theorem QueueInv.masterEnter {cl : Cluster} {s : LockState} {l : LockId} {t : LockState}
    (h : QueueInv cl s) (ht : LockInv cl t) (hworker : t.worker = s.worker)
    (hlocks : t.master.locks = Function.update s.master.locks l
      { s.master.locks l with locked := true, holderId := masterId }) : QueueInv cl t := by
  have hqueued : ∀ i l', t.master.queued i l' = s.master.queued i l' := by
    intro i l'
    by_cases heq : l' = l
    · subst heq
      simp [MasterNode.queued, Lock.queued, hlocks]
    · simp [MasterNode.queued, hlocks, heq]
  have hheld : ∀ w ∈ cl.workers, ∀ l', t.master.held w l' ≤ s.master.held w l' := by
    intro w hw l'
    by_cases heq : l' = l
    · subst heq
      simp [MasterNode.held, Lock.held, hlocks, Ne.symm (Cluster.ne_masterId hw)]
    · simp [MasterNode.held, hlocks, heq]
  refine h.balance ht (fun w _ => by rw [hworker]) (fun w _ => by rw [hworker])
    (fun w hw l' => ?_) (fun i l' => .inl (hqueued i l').le)
  have honce := (h.link w hw).once l'
  have hless := hheld w hw l'
  rw [hqueued]
  omega

/-- A release by the holder, from its message or from the master's own thread. -/
theorem QueueInv.released {cl : Cluster} {s t : LockState} {node : NodeId} {l : LockId}
    (h : QueueInv cl s) (ht : LockInv cl t) (hheld : (s.master.locks l).heldBy node = true)
    (hlocks : t.master.locks = (syncHandleLockRelease s.master.locks node l).locks)
    (hpc : ∀ w ∈ cl.workers, (t.worker w).pc = (s.worker w).pc)
    (hsent : ∀ w ∈ cl.workers, (t.worker w).toMaster <:+ (s.worker w).toMaster) :
    QueueInv cl t := by
  have hl : l < maxLocks := h.lock.master.range l (Lock.heldBy_eq_true.mp hheld).1
  have hmoved := syncHandleLockRelease_held s.master.locks hl hheld
  have hleft := syncHandleLockRelease_queued s.master.locks node l
  refine h.balance ht hpc hsent (fun w hw l' => ?_) (fun i l' => .inl ?_)
  · have honce := (h.link w hw).once l'
    have hmoved := hmoved w l'
    have hleft := hleft w l'
    simp only [MasterNode.held, MasterNode.queued, hlocks] at honce ⊢
    omega
  · have hleft := hleft i l'
    simp only [MasterNode.queued, hlocks]
    omega

/-- The worker has no place yet when its request is handled: the release that ended its last turn
went ahead of the request. -/
theorem QueueInv.no_place {cl : Cluster} {s : LockState} {w : NodeId} {l : LockId}
    {rest : List ToMaster} (h : QueueInv cl s) (hw : w ∈ cl.workers)
    (hhead : (s.worker w).toMaster = .request w l :: rest) :
    s.master.held w l + s.master.queued w l = 0 := by
  have hlink := h.lock.link w hw
  have horder := (h.link w hw).order l
  rw [hhead] at horder
  have hbehind : .release w l ∉ rest := fun hmem => (List.pairwise_cons.mp horder).1 _ hmem rfl rfl
  have hreleased : (s.worker w).released w l = 0 := by
    rw [WorkerNode.released, hhead, List.count_eq_zero]
    simp [hbehind]
  have hrequested : 1 ≤ (s.worker w).requested w l := by
    rw [WorkerNode.requested, hhead, List.one_le_count_iff]
    exact List.mem_cons_self
  have htoken := hlink.token l
  have hsingle := hlink.single l
  omega

theorem QueueInv.requested {cl : Cluster} {s t : LockState} {w : NodeId} {l : LockId}
    {rest : List ToMaster} (h : QueueInv cl s) (ht : LockInv cl t) (hw : w ∈ cl.workers)
    (hhead : (s.worker w).toMaster = .request w l :: rest)
    (hlocks : t.master.locks = (syncHandleLockRequest s.master.locks w l).locks)
    (hpc : ∀ i ∈ cl.workers, (t.worker i).pc = (s.worker i).pc)
    (hsent : ∀ i ∈ cl.workers, (t.worker i).toMaster <:+ (s.worker i).toMaster) :
    QueueInv cl t := by
  have hzero := h.no_place hw hhead
  have hmoved := syncHandleLockRequest_held s.master.locks w l
  have hadded := syncHandleLockRequest_queued s.master.locks w l
  refine h.balance ht hpc hsent (fun i hi l' => ?_) (fun i l' => ?_)
  · have honce := (h.link i hi).once l'
    have hmoved := hmoved i l'
    have hadded := hadded i l'
    simp only [MasterNode.held, MasterNode.queued, hlocks] at honce hzero ⊢
    split at hadded
    · rename_i hsame
      obtain ⟨rfl, rfl⟩ := hsame
      omega
    · omega
  · have hadded := hadded i l'
    simp only [MasterNode.queued, hlocks]
    split at hadded
    · rename_i hsame
      exact .inr (hsame.1 ▸ hw)
    · exact .inl (by omega)

theorem QueueInv.masterStep {cl : Cluster} {s t : LockState} {a : MasterAction}
    (h : QueueInv cl s) (hstep : s.masterStep cl a = some t) : QueueInv cl t := by
  have ht : LockInv cl t := h.lock.masterStep hstep
  cases LockState.masterStep_effect hstep with
  | lock | testSleep | wake | spurious | unlock | signal =>
      exact h.congr ht rfl (fun _ => rfl) (fun _ => rfl)
  | testEnter => exact h.masterEnter ht rfl rfl
  | @release l hpc =>
      have hheld : (s.master.locks l).heldBy masterId = true := h.lock.master.critical l (.inr hpc)
      exact h.released ht hheld rfl (fun _ _ => rfl) (fun _ _ => List.suffix_refl _)
  | grant | tcpGrant =>
      obtain ⟨hmaster, hworker⟩ := LockState.sendGrant_frame cl (s.setMaster _) _ _
      refine h.congr ht ?_ (fun w => (hworker w).1) (fun w => (hworker w).2)
      rw [hmaster]
      rfl
  | @receive w msg rest hw htcp hhead =>
      have hsource := (h.lock.link w hw).source msg (by rw [hhead]; exact List.mem_cons_self)
      have hpc : ∀ i ∈ cl.workers, (((s.setMaster (s.master.handle msg)).setWorker w
          { s.worker w with toMaster := rest }).worker i).pc = (s.worker i).pc := by
        intro i _
        by_cases heq : i = w
        · subst heq
          simp [LockState.setWorker]
        · simp [LockState.setWorker, LockState.setMaster, heq]
      have hsent : ∀ i ∈ cl.workers, (((s.setMaster (s.master.handle msg)).setWorker w
          { s.worker w with toMaster := rest }).worker i).toMaster <:+ (s.worker i).toMaster := by
        intro i _
        by_cases heq : i = w
        · subst heq
          simp [LockState.setWorker, hhead, List.suffix_cons]
        · simp [LockState.setWorker, LockState.setMaster, heq]
      cases msg with
      | request srcNode l =>
          obtain rfl : srcNode = w := hsource
          exact h.requested ht hw hhead rfl hpc hsent
      | release srcNode l =>
          obtain rfl : srcNode = w := hsource
          exact h.released ht (h.lock.heldBy_of_released hw hhead) rfl hpc hsent

theorem QueueInv.step {cl : Cluster} {s t : LockState} {a : LockAction} (h : QueueInv cl s)
    (hstep : s.step cl a = some t) : QueueInv cl t := by
  cases a with
  | master a => exact h.masterStep hstep
  | worker w a =>
      have ht : LockInv cl t := h.lock.step hstep
      simp only [LockState.step, Option.ite_none_right_eq_some, Option.map_eq_some_iff] at hstep
      obtain ⟨hw, n, hn, rfl⟩ := hstep
      refine ⟨ht, fun i hi => ?_, h.waiters⟩
      by_cases heq : i = w
      · subst heq
        simpa [LockState.setWorker] using (h.link i hi).step (h.lock.link i hi) hn
      · simpa [LockState.setWorker, heq] using h.link i hi

theorem QueueInv.of_reachable {cl : Cluster} {s : LockState} (h : (lockMachine cl).Reachable s) :
    QueueInv cl s := by
  refine h.invariant (fun s hs => ?_) (fun _ _ _ hinv => hinv.step)
  rw [hs]
  exact QueueInv.initial cl

/-! ### The queue has room -/

theorem QueueInv.count_line {cl : Cluster} {s : LockState} (h : QueueInv cl s) {w : NodeId}
    (hw : w ∈ cl.workers) (l : LockId) : (s.master.locks l).line.count w ≤ 1 := by
  rw [Lock.count_line]
  exact (h.link w hw).once l

theorem QueueInv.waiters_length {cl : Cluster} {s : LockState} (h : QueueInv cl s) (l : LockId) :
    (s.master.locks l).waiters.length ≤ cl.workers.length := by
  have hnodup : (s.master.locks l).waiters.Nodup := by
    refine List.nodup_iff_count_le_one.mpr fun i => ?_
    by_cases hi : i ∈ (s.master.locks l).waiters
    · have honce := (h.link i (h.waiters l i hi)).once l
      exact (Nat.le_add_left _ _).trans honce
    · rw [List.count_eq_zero.mpr hi]
      exact Nat.zero_le 1
  exact (hnodup.subperm (h.waiters l)).length_le

/-- The request that the TCP thread takes next is granted or queued. -/
def LockState.Kept (s : LockState) (srcNode : NodeId) (l : LockId) : Prop :=
  (syncHandleLockRequest s.master.locks srcNode l).grant = some srcNode ∨
    ((syncHandleLockRequest s.master.locks srcNode l).locks l).waiters =
      (s.master.locks l).waiters ++ [srcNode]

/-- In a cluster of at most `DSM_MAX_NODES` nodes a worker is named at most once by a lock's holder
and queue together, the queue is never full, and every request that arrives is granted or queued. -/
theorem lock_request_never_dropped {cl : Cluster} {s : LockState} (l : LockId)
    (hsize : cl.nodes.length ≤ maxNodes) (hreach : (lockMachine cl).Reachable s) :
    (∀ w ∈ cl.workers, (s.master.locks l).line.count w ≤ 1) ∧
      (s.master.locks l).waiters.length < maxNodes ∧
      ∀ w ∈ cl.workers, ∀ srcNode rest,
        (s.worker w).toMaster = .request srcNode l :: rest → s.Kept srcNode l := by
  have hinv := QueueInv.of_reachable hreach
  have hroom : (s.master.locks l).waiters.length < maxNodes := by
    have hless := hinv.waiters_length l
    have hnodes : cl.nodes.length = cl.workers.length + 1 := rfl
    omega
  refine ⟨fun w hw => hinv.count_line hw l, hroom, fun w hw srcNode rest hhead => ?_⟩
  have hmem : ToMaster.request srcNode l ∈ (s.worker w).toMaster := by
    rw [hhead]
    exact List.mem_cons_self
  obtain rfl : srcNode = w := (hinv.lock.link w hw).source _ hmem
  have hl : ¬ maxLocks ≤ l := Nat.not_le.mpr ((hinv.link srcNode hw).range l (.inl hmem))
  cases hlocked : (s.master.locks l).locked with
  | false => exact .inl (by simp [syncHandleLockRequest, hl, hlocked])
  | true => exact .inr (by simp [syncHandleLockRequest, hl, hlocked, hroom])

theorem lock_request_never_dropped_contended : ∃ s, (lockMachine twoWorkers).Reachable s ∧
    (s.master.locks 0).waiters = [3] ∧ (s.master.locks 0).line.count 3 ≤ 1 := by
  have hrun : ((lockMachine twoWorkers).exec .initial contendedRun).map
      (fun s => (s.master.locks 0).waiters) = some [3] := by decide
  obtain ⟨s, hexec, hwaiters⟩ := Option.map_eq_some_iff.mp hrun
  have hreach : (lockMachine twoWorkers).Reachable s := (Machine.Reachable.start rfl).exec hexec
  exact ⟨s, hreach, hwaiters,
    (lock_request_never_dropped 0 (by decide) hreach).1 3 (by decide)⟩

end Dsm
