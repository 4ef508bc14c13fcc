import Dsm.Sync.LockHistory

/-!
# The master's turn

The queue of a lock record holds remote nodes only. A thread of the master that waits for the lock is
behind all requests that were taken in before it blocked, and nothing keeps it ahead of the later
ones: a release hands the lock to the first remote waiter whenever there is one, and a request that
finds the lock free takes it. A thread is not overtaken in a run exactly as long as no release finds at
the head of the queue a request that came after a thread began to wait, and no request finds the lock
free while a thread waits.
-/

namespace Dsm

namespace LockHistory

/-- The first request in the queue came before every thread of the master that waits for `l`. -/
def FirstIsOlder (h : LockHistory) (l : LockId) : Prop :=
  ∀ t n, h.Waits t l n → (h.granted l).length < n

/-- What a release of lock `l` by `node` may find. -/
def HandsOver (h : LockHistory) (node : NodeId) (l : LockId) : Prop :=
  l < maxLocks → (h.master.locks l).heldBy node = true → (h.master.locks l).waiters ≠ [] →
    h.FirstIsOlder l

end LockHistory

/-- A step grants no request that came after a thread of the master began to wait. -/
def MasterThreadsAction.KeepsTurn (h : LockHistory) : MasterThreadsAction → Prop
  | .handle (.request _ l) =>
      l < maxLocks → (h.master.locks l).locked = false → ∀ t n, ¬ h.Waits t l n
  | .handle (.release srcNode l) => h.HandsOver srcNode l
  | .release t => ∀ l, h.master.pc t = .release l → h.HandsOver masterId l
  | _ => True

/-- Every thread that waits has been passed by earlier requests only. -/
structure TurnInv (h : LockHistory) : Prop where
  fifo : h.Fifo
  since : ∀ t n, h.since t = some n → ∃ l, h.master.pc t = .sleep l ∨ h.master.pc t = .acquire l
  bound : ∀ t l n, h.Waits t l n → n ≤ (h.requested l).length
  turn : ∀ t l n, h.Waits t l n → (h.granted l).length ≤ n

namespace LockHistory

variable {h h' : LockHistory}

theorem granting_length_le (h : LockHistory) (out : LockOutcome) (l l' : LockId) :
    (h.granting l out l').length ≤ (h.granted l').length + if out.grant.isSome ∧ l' = l then 1 else 0 := by
  unfold granting
  cases hgrant : out.grant with
  | none => simp
  | some node =>
      by_cases heq : l' = l
      · subst heq
        simp
      · simp [heq]

theorem requesting_length_le (srcNode : NodeId) (l l' : LockId) :
    (h.requested l').length ≤ (h.requesting l srcNode l').length := by
  unfold requesting
  split
  · by_cases heq : l' = l
    · subst heq
      simp
    · simp [heq]
  · exact le_rfl

/-- The grants are the first requests, so a later request is granted as soon as there are more grants
than requests before it. -/
theorem Fifo.prefix_take_iff (hf : h.Fifo) (l : LockId) (n : Nat) :
    h.granted l <+: (h.requested l).take n ↔ (h.granted l).length ≤ n := by
  rw [List.prefix_take_iff, and_iff_right ⟨_, hf.queue l⟩]

end LockHistory

namespace TurnInv

variable {h h' : LockHistory}

theorem initial : TurnInv .initial := by
  refine ⟨.initial, ?_, ?_, ?_⟩ <;> simp [LockHistory.initial, LockHistory.Waits]

theorem not_overtaken (hinv : TurnInv h) (t : ThreadId) (l : LockId) : ¬ h.Overtaken t l := by
  rintro ⟨n, hwaits, hlater⟩
  exact hlater ((hinv.fifo.prefix_take_iff l n).mpr (hinv.turn t l n hwaits))

theorem keep (hinv : TurnInv h) (hf : h'.Fifo)
    (hsince : ∀ t n, h'.since t = some n →
      ∃ l, h'.master.pc t = .sleep l ∨ h'.master.pc t = .acquire l)
    (hwaits : ∀ t l n, h'.Waits t l n → h.Waits t l n)
    (hrequested : ∀ l, (h.requested l).length ≤ (h'.requested l).length)
    (hgranted : ∀ t l n, h.Waits t l n → (h'.granted l).length ≤ n) : TurnInv h' :=
  ⟨hf, hsince, fun t l n hw => (hinv.bound t l n (hwaits t l n hw)).trans (hrequested l),
    fun t l n hw => hgranted t l n (hwaits t l n hw)⟩

theorem move (hinv : TurnInv h) (hf : h'.Fifo) (t : ThreadId)
    (hpc : ∀ u, u ≠ t → h'.master.pc u = h.master.pc u) (hsince : h'.since = h.since)
    (hself : h.since t = none ∨ ∃ l, h.master.pc t = .sleep l ∧ h'.master.pc t = .acquire l)
    (hrequested : h'.requested = h.requested)
    (hgranted : ∀ t l n, h.Waits t l n → (h'.granted l).length ≤ n) : TurnInv h' := by
  refine hinv.keep hf (fun u n hu => ?_) (fun u l n hw => ?_) (fun l => by rw [hrequested])
    hgranted
  · rw [hsince] at hu
    by_cases heq : u = t
    · subst heq
      rcases hself with hnone | ⟨l, -, hafter⟩
      · rw [hnone] at hu
        cases hu
      · exact ⟨l, .inr hafter⟩
    · rw [hpc u heq]
      exact hinv.since u n hu
  · obtain ⟨hwhere, hn⟩ := hw
    rw [hsince] at hn
    refine ⟨?_, hn⟩
    by_cases heq : u = t
    · subst heq
      rcases hself with hnone | ⟨l', hbefore, hafter⟩
      · rw [hnone] at hn
        cases hn
      · rw [hafter] at hwhere
        have hsame : l' = l := by simpa using hwhere
        exact .inl (hsame ▸ hbefore)
    · rwa [hpc u heq] at hwhere

/-- A thread that is neither in its wait nor about to test the record does not wait. -/
theorem since_none (hinv : TurnInv h) {t : ThreadId} (hsleep : ∀ l, h.master.pc t ≠ .sleep l)
    (hacquire : ∀ l, h.master.pc t ≠ .acquire l) : h.since t = none := by
  by_contra hsome
  obtain ⟨n, hn⟩ := Option.ne_none_iff_exists'.mp hsome
  obtain ⟨l, hpc | hpc⟩ := hinv.since t n hn
  · exact hsleep l hpc
  · exact hacquire l hpc

/-- The thread finds the lock taken: it begins to wait now, or goes on with its wait. -/
theorem testSleep (hinv : TurnInv h) (hf : h'.Fifo) {t : ThreadId} {l : LockId}
    (hpc : h.master.pc t = .acquire l) (hpc' : h'.master.pc = Function.update h.master.pc t (.sleep l))
    (hsince : h'.since = Function.update h.since t
      (some ((h.since t).getD (h.requested l).length)))
    (hrequested : h'.requested = h.requested) (hgranted : h'.granted = h.granted) : TurnInv h' := by
  have hold : ∀ u l' n, h'.Waits u l' n → h.Waits u l' n ∨
      (u = t ∧ l' = l ∧ h.since t = none ∧ n = (h.requested l).length) := by
    rintro u l' n ⟨hwhere, hn⟩
    rw [hpc'] at hwhere
    rw [hsince] at hn
    by_cases heq : u = t
    · subst heq
      have hl : l = l' := by simpa using hwhere
      subst hl
      rw [Function.update_self, Option.some.injEq] at hn
      cases hbefore : h.since u with
      | some k =>
          rw [hbefore] at hn
          exact .inl ⟨.inr hpc, hbefore.trans (congrArg some hn)⟩
      | none =>
          rw [hbefore] at hn
          exact .inr ⟨rfl, rfl, rfl, hn.symm⟩
    · rw [Function.update_of_ne heq] at hwhere hn
      exact .inl ⟨hwhere, hn⟩
  refine ⟨hf, fun u n hu => ?_, fun u l' n hw => ?_, fun u l' n hw => ?_⟩
  · rw [hpc']
    by_cases heq : u = t
    · subst heq
      exact ⟨l, .inl (Function.update_self ..)⟩
    · rw [hsince, Function.update_of_ne heq] at hu
      simpa [heq] using hinv.since u n hu
  · rw [hrequested]
    rcases hold u l' n hw with hwas | ⟨-, rfl, -, rfl⟩
    · exact hinv.bound u l' n hwas
    · exact le_rfl
  · rw [hgranted]
    rcases hold u l' n hw with hwas | ⟨-, rfl, -, rfl⟩
    · exact hinv.turn u l' n hwas
    · rw [← hinv.fifo.queue l', List.length_append]
      exact Nat.le_add_right _ _

theorem testEnter (hinv : TurnInv h) (hf : h'.Fifo) (t : ThreadId)
    (hpc : h'.master.pc = Function.update h.master.pc t .idle)
    (hsince : h'.since = Function.update h.since t none)
    (hrequested : h'.requested = h.requested) (hgranted : h'.granted = h.granted) : TurnInv h' := by
  have hne : ∀ u n, h'.since u = some n → u ≠ t := by
    rintro u n hu rfl
    rw [hsince, Function.update_self] at hu
    cases hu
  refine hinv.keep hf (fun u n hu => ?_) (fun u l n hw => ?_) (fun l => by rw [hrequested])
    (fun u l n hw => by rw [hgranted]; exact hinv.turn u l n hw)
  · have heq := hne u n hu
    rw [hsince, Function.update_of_ne heq] at hu
    simpa [hpc, heq] using hinv.since u n hu
  · obtain ⟨hwhere, hn⟩ := hw
    have heq := hne u n hn
    rw [hsince, Function.update_of_ne heq] at hn
    rw [hpc, Function.update_of_ne heq] at hwhere
    exact ⟨hwhere, hn⟩

/-- A release grants at most the first waiter, and that one's request is older than any wait. -/
theorem granting_release (hinv : TurnInv h) {node : NodeId} {l : LockId}
    (hok : h.HandsOver node l) (t : ThreadId) (l' : LockId) (n : Nat) (hw : h.Waits t l' n) :
    (h.granting l (syncHandleLockRelease h.master.locks node l) l').length ≤ n := by
  have hturn := hinv.turn t l' n hw
  rcases syncHandleLockRelease_effect h.master.locks node l with
    ⟨next, rest, hl, hheld, hwaiters, hcall⟩ | ⟨-, -, -, hcall⟩ | ⟨-, hcall⟩
  · have hle := h.granting_length_le (syncHandleLockRelease h.master.locks node l) l l'
    by_cases heq : l' = l
    · subst heq
      have hfirst := hok hl hheld (by simp [hwaiters]) t n hw
      simp only [hcall, Option.isSome_some, and_self, if_true] at hle ⊢
      omega
    · simp only [heq, and_false, if_false] at hle
      omega
  · simpa [LockHistory.granting, hcall] using hturn
  · simpa [LockHistory.granting, hcall] using hturn

theorem granting_request (hinv : TurnInv h) {srcNode : NodeId} {l : LockId}
    (hok : MasterThreadsAction.KeepsTurn h (.handle (.request srcNode l))) (t : ThreadId)
    (l' : LockId) (n : Nat) (hw : h.Waits t l' n) :
    (h.granting l (syncHandleLockRequest h.master.locks srcNode l) l').length ≤ n := by
  have hturn := hinv.turn t l' n hw
  rcases syncHandleLockRequest_cases h.master.locks srcNode l with
    ⟨hl, hfree, hcall⟩ | ⟨-, hcall⟩ | ⟨_, hcall⟩
  · by_cases heq : l' = l
    · subst heq
      exact absurd hw (hok hl hfree t n)
    · rwa [LockHistory.granting_of_ne _ heq]
  · simpa [LockHistory.granting, hcall] using hturn
  · simpa [LockHistory.granting, hcall] using hturn

theorem step {a : MasterThreadsAction} (hinv : TurnInv h) (hok : a.KeepsTurn h)
    (hstep : h.step a = some h') : TurnInv h' := by
  have hf : h'.Fifo := hinv.fifo.step hstep
  obtain ⟨m, hm, rfl⟩ := Option.map_eq_some_iff.mp hstep
  cases MasterThreads.step_effect hm with
  | @lock t l hpc | @unlock t l hpc =>
      exact hinv.move hf t (fun u hu => MasterThreads.setPc_of_ne hu) rfl
        (.inl (hinv.since_none (by simp [hpc]) (by simp [hpc]))) rfl hinv.turn
  | @grant t l next hpc =>
      exact hinv.move hf t (fun u hu => MasterThreads.setPc_of_ne hu) rfl
        (.inl (hinv.since_none (by simp [hpc]) (by simp [hpc]))) rfl hinv.turn
  | @signal t l woken left hpc =>
      exact hinv.move hf t (fun u hu => MasterThreads.setPc_of_ne hu) rfl
        (.inl (hinv.since_none (by simp [hpc]) (by simp [hpc]))) rfl hinv.turn
  | @wake t l hpc | @spurious t l hpc =>
      exact hinv.move hf t (fun u hu => MasterThreads.setPc_of_ne hu) rfl
        (.inr ⟨l, hpc, MasterThreads.setPc_self ..⟩) rfl hinv.turn
  | tcpGrant => exact ⟨hf, hinv.since, hinv.bound, hinv.turn⟩
  | @testSleep t l hpc =>
      exact hinv.testSleep hf hpc (by simp [LockHistory.record, MasterThreads.setPc])
        (by simp [LockHistory.record]) (by simp [LockHistory.record])
        (by simp [LockHistory.record])
  | @testEnter t l hpc =>
      exact hinv.testEnter hf t (by simp [LockHistory.record, MasterThreads.setPc])
        (by simp [LockHistory.record]) (by simp [LockHistory.record])
        (by simp [LockHistory.record])
  | @release t l pc hpc =>
      refine hinv.move hf t (fun u hu => ?_) ?_
        (.inl (hinv.since_none (by simp [hpc]) (by simp [hpc]))) ?_ (fun u l' n hw => ?_)
      · simp [LockHistory.record, hpc, hu]
      · simp [LockHistory.record, hpc]
      · simp [LockHistory.record, hpc]
      · simpa [LockHistory.record, hpc] using hinv.granting_release (hok l hpc) u l' n hw
  | @handle msg =>
      cases msg with
      | request srcNode l =>
          exact hinv.keep hf hinv.since (fun _ _ _ hw => hw)
            (LockHistory.requesting_length_le srcNode l) (hinv.granting_request hok)
      | release srcNode l =>
          exact hinv.keep hf hinv.since (fun _ _ _ hw => hw) (fun _ => le_rfl)
            (hinv.granting_release hok)

end TurnInv

/-- A request is granted past a thread that waits: the lock was free, so the queue was empty. -/
theorem LockHistory.overtaken_of_request {h h' : LockHistory} (hinv : TurnInv h) {srcNode : NodeId}
    {t : ThreadId} {l : LockId} {n : Nat} (hl : l < maxLocks)
    (hfree : (h.master.locks l).locked = false) (hw : h.Waits t l n)
    (hstep : h.step (.handle (.request srcNode l)) = some h') : h'.Overtaken t l := by
  have hf' : h'.Fifo := hinv.fifo.step hstep
  have hbound := hinv.bound t l n hw
  have hqueue := hinv.fifo.queue l
  rw [hinv.fifo.records.noneWaits l hfree, List.append_nil] at hqueue
  obtain ⟨m, hm, rfl⟩ := Option.map_eq_some_iff.mp hstep
  rw [MasterThreads.step, Option.ite_none_right_eq_some] at hm
  obtain ⟨-, heq⟩ := hm
  cases heq
  refine ⟨n, hw, ?_⟩
  rw [hf'.prefix_take_iff]
  have hcall : (syncHandleLockRequest h.master.locks srcNode l).grant = some srcNode := by
    simp [syncHandleLockRequest, Nat.not_le.mpr hl, hfree]
  simp only [LockHistory.record, LockHistory.granting, hcall, Function.update_self,
    List.length_append, List.length_singleton, hqueue]
  omega

/-- A release hands the lock to a node that asked after the thread began to wait. -/
theorem LockHistory.overtaken_of_handOver {h h' : LockHistory} {node : NodeId} {t : ThreadId}
    {l : LockId} {n : Nat} (hf' : h'.Fifo) (hl : l < maxLocks)
    (hheld : (h.master.locks l).heldBy node = true) (hwaiters : (h.master.locks l).waiters ≠ [])
    (hlate : ¬ (h.granted l).length < n) (hw' : h'.Waits t l n)
    (hgranted : h'.granted = h.granting l (syncHandleLockRelease h.master.locks node l)) :
    h'.Overtaken t l := by
  refine ⟨n, hw', ?_⟩
  rw [hf'.prefix_take_iff, hgranted]
  rcases syncHandleLockRelease_cases h.master.locks hl hheld with
    ⟨next, rest, -, hcall⟩ | ⟨hnone, -⟩
  · simp only [LockHistory.granting, hcall, Function.update_self, List.length_append,
      List.length_singleton]
    omega
  · exact absurd hnone hwaiters

theorem LockHistory.overtaken_of_not_keepsTurn {h h' : LockHistory} {a : MasterThreadsAction}
    (hinv : TurnInv h) (hnot : ¬ a.KeepsTurn h) (hstep : h.step a = some h') :
    ∃ t l, h'.Overtaken t l := by
  have hf' : h'.Fifo := hinv.fifo.step hstep
  unfold MasterThreadsAction.KeepsTurn at hnot
  split at hnot
  · rename_i srcNode l
    simp only [Classical.not_imp, not_forall, not_not] at hnot
    obtain ⟨hl, hfree, t, n, hw⟩ := hnot
    exact ⟨t, l, LockHistory.overtaken_of_request hinv hl hfree hw hstep⟩
  · rename_i srcNode l
    simp only [LockHistory.HandsOver, LockHistory.FirstIsOlder, Classical.not_imp,
      not_forall] at hnot
    obtain ⟨hl, hheld, hwaiters, t, n, hw, hlate⟩ := hnot
    obtain ⟨m, hm, rfl⟩ := Option.map_eq_some_iff.mp hstep
    rw [MasterThreads.step, Option.ite_none_right_eq_some] at hm
    obtain ⟨-, heq⟩ := hm
    cases heq
    exact ⟨t, l, LockHistory.overtaken_of_handOver hf' hl hheld hwaiters hlate hw rfl⟩
  · rename_i u
    simp only [LockHistory.HandsOver, LockHistory.FirstIsOlder, Classical.not_imp,
      not_forall] at hnot
    obtain ⟨l, hpc, hl, hheld, hwaiters, t, n, hw, hlate⟩ := hnot
    obtain ⟨m, hm, rfl⟩ := Option.map_eq_some_iff.mp hstep
    cases MasterThreads.step_effect hm with
    | @release _ l' pc hpc' =>
        cases hpc.symm.trans hpc'
        have hne : t ≠ u := by
          rintro rfl
          rcases hw.1 with hwhere | hwhere <;> rw [hpc] at hwhere <;> cases hwhere
        refine ⟨t, l, LockHistory.overtaken_of_handOver hf' hl hheld hwaiters hlate ?_ ?_⟩
        · simpa [LockHistory.Waits, LockHistory.record, hpc, hne] using hw
        · simp [LockHistory.record, hpc]
  · exact absurd trivial hnot

/-- In a run no thread of the master is overtaken in the queue of a lock by a request that came after
it began to wait, exactly when each step keeps the turn of the threads that wait. -/
theorem lock_not_overtaken_iff {h : LockHistory} {as : List MasterThreadsAction}
    (hexec : lockHistoryMachine.exec .initial as = some h) :
    lockHistoryMachine.Always (fun h => ∀ t l, ¬ h.Overtaken t l) .initial as ↔
      lockHistoryMachine.EachStep (fun h a => a.KeepsTurn h) .initial as := by
  refine Machine.always_iff_eachStep (fun _ (hinv : TurnInv _) => hinv.not_overtaken)
    (fun _ _ _ hinv hok hstep => hinv.step hok hstep) (fun h a h' hinv hnot hstep hkept => ?_)
    .initial hexec
  obtain ⟨t, l, hovertaken⟩ := LockHistory.overtaken_of_not_keepsTurn hinv hnot hstep
  exact hkept t l hovertaken

/-- The thread asks after worker 3, so the hand-over to worker 3 does not overtake it. -/
theorem lock_not_overtaken_iff_asked_before : ∃ h, lockHistoryMachine.exec .initial
    [.handle (.request 2 0), .tcpGrant, .handle (.request 3 0), .lock 0 0, .test 0,
      .handle (.release 2 0)] = some h ∧ ∀ t l, ¬ h.Overtaken t l := by
  have hok : lockHistoryMachine.EachStep (fun h a => a.KeepsTurn h) .initial
      [.handle (.request 2 0), .tcpGrant, .handle (.request 3 0), .lock 0 0, .test 0,
        .handle (.release 2 0)] := by
    refine (Machine.eachStep_cons rfl).mpr ⟨?_, (Machine.eachStep_cons rfl).mpr ⟨trivial, ?_⟩⟩
    · rintro - - t n ⟨-, hn⟩
      cases hn
    refine (Machine.eachStep_cons rfl).mpr ⟨?_, (Machine.eachStep_cons rfl).mpr ⟨trivial, ?_⟩⟩
    · rintro - - t n ⟨-, hn⟩
      cases hn
    refine (Machine.eachStep_cons rfl).mpr ⟨trivial, (Machine.eachStep_cons rfl).mpr ⟨?_, ?_⟩⟩
    · rintro - - - t n ⟨-, hn⟩
      by_cases ht : t = 0
      · subst ht
        cases hn
        decide
      · simp [LockHistory.record, LockHistory.initial, MasterThreads.setPc, ht] at hn
    · exact Machine.eachStep_nil
  exact ⟨_, rfl, ((lock_not_overtaken_iff rfl).mpr hok).last rfl⟩

/-- Worker 3 asks after the thread has blocked, and is granted the lock before it. -/
theorem lock_overtaken : ∃ h, lockHistoryMachine.exec .initial
    (overtakenRun ++ [.handle (.release 2 0)]) = some h ∧ h.Overtaken 0 0 :=
  ⟨_, rfl, 1, ⟨.inl rfl, rfl⟩, by decide⟩

end Dsm
