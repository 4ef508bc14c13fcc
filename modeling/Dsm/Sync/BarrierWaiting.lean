import Dsm.Sync.BarrierSafety

/-!
# Waiting at a barrier

A worker sends `BARRIER_ENTER` and then waits on the condition once, without a test, so a release
that is handled between the two is lost. The master enters and then reads `barrier_id` in a second
critical section, so when its barrier has completed in between, and a worker has arrived for the
next one, it waits for a barrier that it has not entered itself. Each wait is as it should be in a run
exactly as long as that one step is not taken in such a state.
-/

namespace Dsm

/-- The barrier that worker `w` has entered is released and no release is on its way to `w`. -/
def BarrierState.ReleaseHandled (s : BarrierState) (w : NodeId) : Prop :=
  (s.worker w).calls ≤ s.master.done ∧ s.master.unsent w = 0 ∧ (s.worker w).toWorker = 0

/-- The thread of worker `w` waits for a release that has been handled already. A wake-up that is
pending has taken the thread out of `.waiting`. -/
def BarrierState.ReleaseLost (s : BarrierState) (w : NodeId) : Prop :=
  (s.worker w).pc = .waiting ∧ s.ReleaseHandled w

instance (s : BarrierState) (w : NodeId) : Decidable (s.ReleaseHandled w) :=
  inferInstanceAs (Decidable (_ ∧ _))

instance (s : BarrierState) (w : NodeId) : Decidable (s.ReleaseLost w) :=
  inferInstanceAs (Decidable (_ ∧ _))

/-- A worker starts to wait before the release is handled. -/
def BarrierAction.WaitsInTime (s : BarrierState) : BarrierAction → Prop
  | .worker w .wait => ¬ s.ReleaseHandled w
  | _ => True

/-- The thread of the master waits although the barrier that it has entered is complete. -/
def BarrierState.WaitsForLater (s : BarrierState) : Prop :=
  (∃ currentId, s.master.pc = .waiting currentId) ∧ s.master.calls ≤ s.master.completed

/-- The master reads `barrier_id` before its barrier completes, or before anybody enters the next. -/
def BarrierAction.ReadsInTime (s : BarrierState) : BarrierAction → Prop
  | .master .read => s.master.completed < s.master.calls ∨ s.master.barrier.arrived = []
  | _ => True

/-! ### The worker -/

section Worker

variable {cl : Cluster} {s t : BarrierState}

theorem BarrierWorker.receive_pc {w : NodeId} {n n' : BarrierWorker}
    (hstep : n.step w .receive = some n') : n'.pc ≠ .waiting := by
  cases hrest : n.toWorker with
  | zero => simp [BarrierWorker.step, hrest] at hstep
  | succ rest =>
      simp only [BarrierWorker.step, hrest, Option.some.injEq] at hstep
      rw [← hstep]
      by_cases hpc : n.pc = .waiting <;> simp [hpc]

theorem BarrierWorker.waiting_of_step {w : NodeId} {n n' : BarrierWorker} {a : BarrierWorkerAction}
    (hstep : n.step w a = some n') (hpc : n'.pc = .waiting) :
    a = .wait ∧ n' = { n with pc := .waiting } := by
  cases a with
  | wait =>
      simp only [BarrierWorker.step, Option.ite_none_right_eq_some, Option.some.injEq] at hstep
      exact ⟨rfl, hstep.2.symm⟩
  | receive => exact absurd hpc (BarrierWorker.receive_pc hstep)
  | call | send | ret =>
      simp only [BarrierWorker.step, Option.ite_none_right_eq_some, Option.some.injEq] at hstep
      obtain ⟨-, rfl⟩ := hstep
      cases hpc

/-- An arrival that completes the barrier leaves a release for every node to be sent. -/
theorem BarrierMaster.arrive_done {m : BarrierMaster} {thread : BarrierThread} {fromNode w : NodeId}
    (hfree : m.releasing = none)
    (hmem : (m.arrive cl thread fromNode).releasing.isSome → w ∈ m.barrier.arrived ++ [fromNode])
    (hunsent : (m.arrive cl thread fromNode).unsent w = 0) :
    (m.arrive cl thread fromNode).done = m.done := by
  by_cases hfull : cl.nodes.length ≤ (m.barrier.arrived ++ [fromNode]).length
  · have hreleasing : (m.arrive cl thread fromNode).releasing =
        some (thread, m.barrier.arrived ++ [fromNode]) := by
      rw [BarrierMaster.arrive, if_pos hfull]
    have hone : 1 ≤ (m.barrier.arrived ++ [fromNode]).count w :=
      List.one_le_count_iff.mpr (hmem (by rw [hreleasing]; rfl))
    simp only [BarrierMaster.unsent, hreleasing] at hunsent
    omega
  · simp only [BarrierMaster.done, BarrierMaster.arrive, if_neg hfull, hfree]

theorem BarrierMaster.test_frame (m : BarrierMaster) (currentId : Nat) :
    (m.test currentId).releasing = m.releasing ∧ (m.test currentId).completed = m.completed := by
  unfold BarrierMaster.test
  split <;> exact ⟨rfl, rfl⟩

/-- The thread of `w` sees nothing of a step of the master that sends it no release and completes no
barrier. -/
theorem BarrierState.ReleaseHandled.congr {w : NodeId} (hhandled : t.ReleaseHandled w)
    (hcalls : (t.worker w).calls = (s.worker w).calls)
    (htoWorker : (t.worker w).toWorker = (s.worker w).toWorker) (hdone : t.master.done = s.master.done)
    (hunsent : s.master.unsent w = t.master.unsent w ∨ s.master.unsent w = 0) :
    s.ReleaseHandled w := by
  obtain ⟨hreleased, hsent, hempty⟩ := hhandled
  refine ⟨?_, hunsent.elim (fun heq => heq.trans hsent) id, htoWorker ▸ hempty⟩
  rw [← hcalls, ← hdone]
  exact hreleased

/-- A step of the master leaves a release for `w` to be sent or received whenever it completes a
barrier. -/
theorem BarrierInv.releaseHandled_of_masterStep {w : NodeId} {a : BarrierMasterAction}
    (h : BarrierInv cl s) (hw : w ∈ cl.workers) (hstep : s.masterStep cl a = some t)
    (hhandled : t.ReleaseHandled w) : s.ReleaseHandled w := by
  have ht : BarrierInv cl t := h.masterStep hstep
  have hnode : w ∈ cl.nodes := List.mem_cons_of_mem _ hw
  cases a with
  | call =>
      simp only [BarrierState.masterStep, Option.ite_none_right_eq_some, Option.some.injEq] at hstep
      obtain ⟨-, rfl⟩ := hstep
      exact hhandled.congr rfl rfl rfl (.inl rfl)
  | enter =>
      simp only [BarrierState.masterStep, Option.ite_none_right_eq_some, Option.some.injEq] at hstep
      obtain ⟨⟨-, hfree⟩, rfl⟩ := hstep
      have hdone : (s.master.arrive cl .app masterId).done = s.master.done :=
        BarrierMaster.arrive_done hfree (fun hfull => ht.master.mem_arrived hfull hnode) hhandled.2.1
      exact hhandled.congr rfl rfl hdone (.inr (by rw [BarrierMaster.unsent, hfree]))
  | read =>
      simp only [BarrierState.masterStep, Option.ite_none_right_eq_some, Option.some.injEq] at hstep
      obtain ⟨-, rfl⟩ := hstep
      obtain ⟨hreleasing, hcompleted⟩ := s.master.test_frame s.master.barrier.barrierId
      refine hhandled.congr rfl rfl ?_ (.inl ?_)
      · simp only [BarrierState.setMaster, BarrierMaster.done, hreleasing, hcompleted]
      · simp only [BarrierState.setMaster, BarrierMaster.unsent, hreleasing]
  | wake =>
      cases hpc : s.master.pc with
      | woken currentId =>
          simp only [BarrierState.masterStep, hpc, Option.ite_none_right_eq_some,
            Option.some.injEq] at hstep
          obtain ⟨-, rfl⟩ := hstep
          obtain ⟨hreleasing, hcompleted⟩ := s.master.test_frame currentId
          refine hhandled.congr rfl rfl ?_ (.inl ?_)
          · simp only [BarrierState.setMaster, BarrierMaster.done, hreleasing, hcompleted]
          · simp only [BarrierState.setMaster, BarrierMaster.unsent, hreleasing]
      | _ => simp [BarrierState.masterStep, hpc] at hstep
  | receive v =>
      cases hsent : (s.worker v).toMaster with
      | nil => simp [BarrierState.masterStep, hsent] at hstep
      | cons srcNode rest =>
          simp only [BarrierState.masterStep, hsent, Option.ite_none_right_eq_some,
            Option.some.injEq] at hstep
          obtain ⟨⟨-, hfree⟩, rfl⟩ := hstep
          have hdone : (s.master.arrive cl .tcp srcNode).done = s.master.done :=
            BarrierMaster.arrive_done hfree (fun hfull => ht.master.mem_arrived hfull hnode)
              hhandled.2.1
          refine hhandled.congr ?_ ?_ hdone (.inr (by rw [BarrierMaster.unsent, hfree])) <;>
          · by_cases heq : w = v
            · subst heq
              simp [BarrierState.setWorker, BarrierState.setMaster]
            · simp [BarrierState.setWorker, BarrierState.setMaster, heq]
  | visit =>
      rcases hreleasing : s.master.releasing with _ | ⟨thread, _ | ⟨node, rest⟩⟩
      · simp [BarrierState.masterStep, hreleasing] at hstep
      · simp [BarrierState.masterStep, hreleasing] at hstep
      · simp only [BarrierState.masterStep, hreleasing, Option.some.injEq] at hstep
        have hmaster : t.master = { s.master with releasing := some (thread, rest) } := by
          rw [← hstep]
          unfold BarrierState.sendRelease
          split <;> rfl
        by_cases heq : node = w
        · -- the release has just been sent, so it is in the channel
          subst heq
          have hworker : (t.worker node).toWorker = (s.worker node).toWorker + 1 := by
            rw [← hstep, BarrierState.sendRelease, if_pos (Cluster.ne_masterId hw)]
            simp [BarrierState.setWorker, BarrierState.setMaster]
          have hempty := hhandled.2.2
          omega
        · have hworker : t.worker w = s.worker w := by
            rw [← hstep]
            unfold BarrierState.sendRelease
            split <;> simp [BarrierState.setWorker, BarrierState.setMaster, Ne.symm heq]
          refine hhandled.congr (by rw [hworker]) (by rw [hworker]) ?_ (.inl ?_)
          · simp [BarrierMaster.done, hmaster, hreleasing]
          · simp [BarrierMaster.unsent, hmaster, hreleasing, heq]
  | reset =>
      rcases hreleasing : s.master.releasing with _ | ⟨thread, _ | ⟨node, rest⟩⟩
      · simp [BarrierState.masterStep, hreleasing] at hstep
      · simp only [BarrierState.masterStep, hreleasing, Option.some.injEq] at hstep
        subst hstep
        refine hhandled.congr rfl rfl ?_ (.inr ?_)
        · simp [BarrierState.setMaster, BarrierMaster.done, BarrierMaster.reset, hreleasing]
        · simp [BarrierMaster.unsent, hreleasing]
      · simp [BarrierState.masterStep, hreleasing] at hstep

theorem BarrierState.masterStep_worker_pc {a : BarrierMasterAction}
    (hstep : s.masterStep cl a = some t) (w : NodeId) : (t.worker w).pc = (s.worker w).pc := by
  cases a with
  | call | enter | read =>
      simp only [BarrierState.masterStep, Option.ite_none_right_eq_some, Option.some.injEq] at hstep
      obtain ⟨-, rfl⟩ := hstep
      rfl
  | wake =>
      simp only [BarrierState.masterStep] at hstep
      split at hstep
      · rw [Option.ite_none_right_eq_some] at hstep
        obtain ⟨-, heq⟩ := hstep
        cases heq
        rfl
      · cases hstep
  | receive v =>
      simp only [BarrierState.masterStep] at hstep
      split at hstep
      · rw [Option.ite_none_right_eq_some] at hstep
        obtain ⟨-, heq⟩ := hstep
        cases heq
        by_cases heq : w = v
        · subst heq
          simp [BarrierState.setWorker]
        · simp [BarrierState.setWorker, BarrierState.setMaster, heq]
      · cases hstep
  | visit =>
      simp only [BarrierState.masterStep] at hstep
      split at hstep
      · rename_i node rest _
        cases hstep
        unfold BarrierState.sendRelease
        split
        · by_cases heq : w = node
          · subst heq
            simp [BarrierState.setWorker, BarrierState.setMaster]
          · simp [BarrierState.setWorker, BarrierState.setMaster, heq]
        · rfl
      · cases hstep
  | reset =>
      simp only [BarrierState.masterStep] at hstep
      split at hstep
      · cases hstep
        rfl
      · cases hstep

theorem BarrierState.releaseLost_of_wait {w : NodeId} (hstep : s.step cl (.worker w .wait) = some t)
    (hhandled : s.ReleaseHandled w) : w ∈ cl.workers ∧ t.ReleaseLost w := by
  simp only [BarrierState.step, Option.ite_none_right_eq_some, Option.map_eq_some_iff,
    BarrierWorker.step] at hstep
  obtain ⟨hw, n, ⟨-, heq⟩, rfl⟩ := hstep
  cases heq
  refine ⟨hw, by simp [BarrierState.setWorker], ?_⟩
  simpa [BarrierState.ReleaseHandled, BarrierState.setWorker] using hhandled

/-- A thread that waits for a handled release has started to wait in this step. -/
theorem BarrierInv.releaseLost_step {a : BarrierAction} (h : BarrierInv cl s)
    (hstep : s.step cl a = some t) {w : NodeId} (hw : w ∈ cl.workers) (hlost : t.ReleaseLost w) :
    s.ReleaseLost w ∨ (a = .worker w .wait ∧ s.ReleaseHandled w) := by
  obtain ⟨hpc, hhandled⟩ := hlost
  cases a with
  | master a =>
      have hold := h.releaseHandled_of_masterStep hw hstep hhandled
      exact .inl ⟨BarrierState.masterStep_worker_pc hstep w ▸ hpc, hold⟩
  | worker v a =>
      simp only [BarrierState.step, Option.ite_none_right_eq_some, Option.map_eq_some_iff] at hstep
      obtain ⟨-, n, hn, rfl⟩ := hstep
      by_cases heq : w = v
      · subst heq
        simp only [BarrierState.setWorker, Function.update_self] at hpc
        obtain ⟨rfl, rfl⟩ := BarrierWorker.waiting_of_step hn hpc
        refine .inr ⟨rfl, ?_⟩
        simpa [BarrierState.ReleaseHandled, BarrierState.setWorker] using hhandled
      · refine .inl ⟨?_, ?_⟩
        · simpa [BarrierState.setWorker, heq] using hpc
        · simpa [BarrierState.ReleaseHandled, BarrierState.setWorker, heq] using hhandled

end Worker

/-- In a run no worker ever waits for a release that has been handled, exactly when each worker calls
`pthread_cond_wait` before the release of its barrier is handled. -/
theorem barrier_release_kept_iff {cl : Cluster} {t : BarrierState} {as : List BarrierAction}
    (hexec : (barrierMachine cl).exec .initial as = some t) :
    (barrierMachine cl).Always (fun s => ∀ w ∈ cl.workers, ¬ s.ReleaseLost w) .initial as ↔
      (barrierMachine cl).EachStep (fun s a => a.WaitsInTime s) .initial as := by
  refine Machine.always_iff_eachStep
    (fun s (hinv : BarrierInv cl s ∧ ∀ w ∈ cl.workers, ¬ s.ReleaseLost w) => hinv.2) ?_ ?_
    ⟨BarrierInv.initial cl, ?_⟩ hexec
  · rintro s a t ⟨hinv, hkept⟩ hok hstep
    refine ⟨hinv.step hstep, fun w hw hlost => ?_⟩
    rcases hinv.releaseLost_step hstep hw hlost with hold | ⟨rfl, hhandled⟩
    · exact hkept w hw hold
    · exact hok hhandled
  · rintro s a t ⟨hinv, -⟩ hnot hstep hkept
    unfold BarrierAction.WaitsInTime at hnot
    split at hnot
    · rename_i w
      rw [not_not] at hnot
      obtain ⟨hw, hlost⟩ := BarrierState.releaseLost_of_wait hstep hnot
      exact hkept w hw hlost
    · exact hnot trivial
  · rintro w - ⟨hpc, -⟩
    cases hpc

/-- Worker 2 sends its `BARRIER_ENTER`; the master follows and releases the barrier. -/
def releasedRun (beforeRelease afterRelease : List BarrierAction) : List BarrierAction :=
  [.worker 2 .call, .worker 2 .send] ++ beforeRelease ++
    [.master (.receive 2), .master .call, .master .enter, .master .visit, .worker 2 .receive] ++
    afterRelease

/-- The worker waits in time and is woken. -/
theorem barrier_release_kept_iff_wait_first : ∃ t, (barrierMachine oneWorker).exec .initial
    (releasedRun [.worker 2 .wait] []) = some t ∧ ∀ w ∈ oneWorker.workers, ¬ t.ReleaseLost w := by
  have hok : (barrierMachine oneWorker).EachStep (fun s a => a.WaitsInTime s) .initial
      (releasedRun [.worker 2 .wait] []) := by
    refine (Machine.eachStep_cons rfl).mpr ⟨trivial, (Machine.eachStep_cons rfl).mpr ⟨trivial, ?_⟩⟩
    refine (Machine.eachStep_cons rfl).mpr ⟨?_, Machine.eachStep_of_forall fun t a ha => ?_⟩
    · change ¬ BarrierState.ReleaseHandled _ 2
      decide
    · have hmem : a ∈ [.master (.receive 2), .master .call, .master .enter, .master .visit,
          .worker 2 .receive] := ha
      simp only [List.mem_cons, List.not_mem_nil, or_false] at hmem
      rcases hmem with rfl | rfl | rfl | rfl | rfl <;> trivial
  exact ⟨_, rfl, ((barrier_release_kept_iff rfl).mpr hok).last rfl⟩

/-- The release is handled before the worker waits, and the worker waits for ever. -/
theorem barrier_release_lost : ∃ t, (barrierMachine oneWorker).exec .initial
    (releasedRun [] [.worker 2 .wait]) = some t ∧ t.ReleaseLost 2 :=
  ⟨_, rfl, by decide⟩

/-! ### The master -/

/-- While every read of `barrier_id` is in time, a waiting thread waits for its own barrier, and a
woken one will find that the id has changed. -/
structure BarrierMaster.Waits (m : BarrierMaster) : Prop where
  waiting : ∀ currentId, m.pc = .waiting currentId →
    m.calls = m.completed + 1 ∧ currentId = m.completed % 2 ^ 32
  woken : ∀ currentId, m.pc = .woken currentId →
    m.calls = m.completed ∧ (currentId + 1) % 2 ^ 32 = m.completed % 2 ^ 32

theorem BarrierMaster.Waits.of_pc {m : BarrierMaster} (hwaiting : ∀ c, m.pc ≠ .waiting c)
    (hwoken : ∀ c, m.pc ≠ .woken c) : m.Waits :=
  ⟨fun c hpc => absurd hpc (hwaiting c), fun c hpc => absurd hpc (hwoken c)⟩

section Master

variable {cl : Cluster} {m : BarrierMaster}

/-- The master has called `dsm_barrier` at most once more than the barrier has been completed. -/
theorem BarrierMasterInv.calls_le (h : BarrierMasterInv cl m) (hpc : m.pc ≠ .enter) :
    m.calls ≤ m.completed + 1 := by
  have harrivals := h.arrivals
  have honce := List.nodup_iff_count_le_one.mp h.nodup masterId
  rw [if_neg hpc] at harrivals
  omega

theorem BarrierMaster.Waits.read (h : BarrierMasterInv cl m) (hpc : m.pc = .read)
    (hok : m.completed < m.calls ∨ m.barrier.arrived = []) :
    (m.test m.barrier.barrierId).Waits := by
  have hle := h.calls_le (by simp [hpc])
  unfold BarrierMaster.test
  split
  · rename_i hwait
    have hlt : m.completed < m.calls := by
      refine hok.resolve_right fun hempty => ?_
      simp [hempty] at hwait
    refine ⟨fun c hc => ?_, by simp⟩
    cases hc
    exact ⟨by dsimp only; omega, h.ident⟩
  · exact .of_pc (by simp) (by simp)

theorem BarrierMaster.Waits.wake {currentId : Nat} (hwaits : m.Waits) (h : BarrierMasterInv cl m)
    (hpc : m.pc = .woken currentId) : (m.test currentId).Waits := by
  obtain ⟨-, hident⟩ := hwaits.woken currentId hpc
  have hchanged : m.barrier.barrierId ≠ currentId := by
    rw [h.ident]
    omega
  rw [BarrierMaster.test, if_neg fun hwait => hchanged hwait.1]
  exact .of_pc (by simp) (by simp)

theorem BarrierMaster.Waits.reset {thread : BarrierThread} {rest : List NodeId} (hwaits : m.Waits)
    (h : BarrierMasterInv cl m) (hreleasing : m.releasing = some (thread, rest)) :
    (m.reset thread).Waits := by
  have hone : m.barrier.arrived.count masterId = 1 :=
    h.count_arrived (by rw [hreleasing]; rfl) List.mem_cons_self
  have harrivals := h.arrivals
  cases thread with
  | app => exact .of_pc (by simp [BarrierMaster.reset]) (by simp [BarrierMaster.reset])
  | tcp =>
      cases hpc : m.pc with
      | waiting currentId =>
          obtain ⟨hcalls, hident⟩ := hwaits.waiting currentId hpc
          refine ⟨by simp [BarrierMaster.reset, hpc], fun c hc => ?_⟩
          simp only [BarrierMaster.reset, hpc, BarrierMasterPc.woken.injEq] at hc ⊢
          refine ⟨hcalls, ?_⟩
          omega
      | woken currentId =>
          obtain ⟨hcalls, -⟩ := hwaits.woken currentId hpc
          rw [hpc, if_neg (by simp)] at harrivals
          omega
      | idle | enter | inHandler | read =>
          exact .of_pc (by simp [BarrierMaster.reset, hpc]) (by simp [BarrierMaster.reset, hpc])

/-- Everything but a late read of `barrier_id` keeps the master waiting for its own barrier. -/
theorem BarrierMaster.Waits.step {s t : BarrierState} {a : BarrierAction} (hwaits : s.master.Waits)
    (h : BarrierInv cl s) (hok : a.ReadsInTime s) (hstep : s.step cl a = some t) :
    t.master.Waits := by
  cases a with
  | worker w a =>
      simp only [BarrierState.step, Option.ite_none_right_eq_some, Option.map_eq_some_iff] at hstep
      obtain ⟨-, n, -, rfl⟩ := hstep
      exact hwaits
  | master a =>
      cases a with
      | call =>
          simp only [BarrierState.step, BarrierState.masterStep, Option.ite_none_right_eq_some,
            Option.some.injEq] at hstep
          obtain ⟨-, rfl⟩ := hstep
          exact .of_pc (by simp [BarrierState.setMaster]) (by simp [BarrierState.setMaster])
      | enter =>
          simp only [BarrierState.step, BarrierState.masterStep, Option.ite_none_right_eq_some,
            Option.some.injEq] at hstep
          obtain ⟨-, rfl⟩ := hstep
          refine .of_pc ?_ ?_ <;>
          · simp only [BarrierState.setMaster]
            split <;> simp
      | read =>
          simp only [BarrierState.step, BarrierState.masterStep, Option.ite_none_right_eq_some,
            Option.some.injEq] at hstep
          obtain ⟨⟨hpc, -⟩, rfl⟩ := hstep
          exact .read h.master hpc hok
      | wake =>
          simp only [BarrierState.step, BarrierState.masterStep] at hstep
          split at hstep
          · rename_i currentId hpc
            rw [Option.ite_none_right_eq_some] at hstep
            obtain ⟨-, heq⟩ := hstep
            cases heq
            exact hwaits.wake h.master hpc
          · cases hstep
      | receive v =>
          simp only [BarrierState.step, BarrierState.masterStep] at hstep
          split at hstep
          · rw [Option.ite_none_right_eq_some] at hstep
            obtain ⟨-, heq⟩ := hstep
            cases heq
            exact ⟨hwaits.waiting, hwaits.woken⟩
          · cases hstep
      | visit =>
          simp only [BarrierState.step, BarrierState.masterStep] at hstep
          split at hstep
          · cases hstep
            unfold BarrierState.sendRelease
            split <;> exact ⟨hwaits.waiting, hwaits.woken⟩
          · cases hstep
      | reset =>
          simp only [BarrierState.step, BarrierState.masterStep] at hstep
          split at hstep
          · rename_i thread hreleasing
            cases hstep
            exact hwaits.reset h.master hreleasing
          · cases hstep

theorem BarrierState.waitsForLater_of_read {s t : BarrierState}
    (hstep : s.step cl (.master .read) = some t)
    (hlate : ¬ (s.master.completed < s.master.calls ∨ s.master.barrier.arrived = [])) :
    t.WaitsForLater := by
  obtain ⟨hcomplete, harrived⟩ := not_or.mp hlate
  simp only [BarrierState.step, BarrierState.masterStep, Option.ite_none_right_eq_some,
    Option.some.injEq] at hstep
  obtain ⟨-, rfl⟩ := hstep
  have hwait : 0 < s.master.barrier.arrived.length := List.length_pos_iff.mpr harrived
  rw [BarrierMaster.test, if_pos ⟨rfl, hwait⟩]
  exact ⟨⟨_, rfl⟩, Nat.not_lt.mp hcomplete⟩

end Master

/-- In a run the master never waits for a barrier later than the one it has entered, exactly when it
reads `barrier_id` each time before its barrier completes or before anybody enters the next. -/
theorem barrier_master_waits_iff {cl : Cluster} {t : BarrierState} {as : List BarrierAction}
    (hexec : (barrierMachine cl).exec .initial as = some t) :
    (barrierMachine cl).Always (fun s => ¬ s.WaitsForLater) .initial as ↔
      (barrierMachine cl).EachStep (fun s a => a.ReadsInTime s) .initial as := by
  refine Machine.always_iff_eachStep
    (fun s (hinv : BarrierInv cl s ∧ s.master.Waits) => ?_) ?_ ?_ ?_ hexec
  · rintro ⟨⟨currentId, hpc⟩, hcomplete⟩
    have hcalls := (hinv.2.waiting currentId hpc).1
    omega
  · rintro s a t ⟨hinv, hwaits⟩ hok hstep
    exact ⟨hinv.step hstep, hwaits.step hinv hok hstep⟩
  · rintro s a t ⟨hinv, -⟩ hnot hstep
    unfold BarrierAction.ReadsInTime at hnot
    split at hnot
    · exact not_not.mpr (BarrierState.waitsForLater_of_read (show s.step cl _ = some t from hstep) hnot)
    · exact absurd trivial hnot
  · exact ⟨BarrierInv.initial cl, .of_pc (by simp [BarrierState.initial])
      (by simp [BarrierState.initial])⟩

/-- The master enters the barrier and reads its id before worker 2 completes it. -/
theorem barrier_master_waits_iff_read_first : ∃ t, (barrierMachine oneWorker).exec .initial
    [.master .call, .master .enter, .master .read, .worker 2 .call, .worker 2 .send,
      .master (.receive 2), .master .visit, .master .visit, .master .reset] = some t ∧
    ¬ t.WaitsForLater := by
  have hok : (barrierMachine oneWorker).EachStep (fun s a => a.ReadsInTime s) .initial
      [.master .call, .master .enter, .master .read, .worker 2 .call, .worker 2 .send,
        .master (.receive 2), .master .visit, .master .visit, .master .reset] := by
    refine (Machine.eachStep_cons rfl).mpr ⟨trivial, (Machine.eachStep_cons rfl).mpr ⟨trivial, ?_⟩⟩
    refine (Machine.eachStep_cons rfl).mpr ⟨.inl (by decide), Machine.eachStep_of_forall fun t a ha => ?_⟩
    simp only [List.mem_cons, List.not_mem_nil, or_false] at ha
    rcases ha with rfl | rfl | rfl | rfl | rfl | rfl <;> trivial
  exact ⟨_, rfl, ((barrier_master_waits_iff rfl).mpr hok).last rfl⟩

/-- Worker 2 completes the first barrier and enters the second before the master reads the id: the
master waits for a barrier that it has not entered. -/
theorem barrier_master_waits_for_later : ∃ t, (barrierMachine oneWorker).exec .initial
    [.master .call, .master .enter, .worker 2 .call, .worker 2 .send, .worker 2 .wait,
      .master (.receive 2), .master .visit, .master .visit, .master .reset, .worker 2 .receive,
      .worker 2 .ret, .worker 2 .call, .worker 2 .send, .master (.receive 2), .master .read] =
      some t ∧ t.WaitsForLater :=
  ⟨_, rfl, ⟨1, rfl⟩, by decide⟩

end Dsm
