import Dsm.Sync.MasterThreads

/-!
# Waiting for a lock on the master

A thread of the master that finds a lock taken blocks on its condition, and the only signal is the
one at the end of `dsm_unlock` on the master. When a worker's release frees the lock, the TCP thread
signals nobody. As long as another thread of the master is in `dsm_lock` or `dsm_unlock` of the lock,
it will take the lock or signal, so the wake-up is lost exactly where a worker's release frees a lock
on which threads are blocked and no such thread is there.
-/

namespace Dsm

namespace MasterThreads

/-- Thread `t` is in `dsm_lock` or `dsm_unlock` of lock `l` and not blocked. -/
def Runs (m : MasterThreads) (t : ThreadId) (l : LockId) : Prop :=
  m.pc t = .acquire l ∨ (m.pc t = .sleep l ∧ t ∉ m.blocked l) ∨ m.pc t = .release l ∨
    (∃ next, m.pc t = .grant l next) ∨ m.pc t = .signal l

/-- Some thread of the master, the TCP thread included, is in an operation on lock `l`. -/
def InProgress (m : MasterThreads) (l : LockId) : Prop :=
  (∃ t, m.Runs t l) ∨ ∃ w, m.tcpGrant = some (w, l)

/-- The lock is free, a thread is blocked on it, and nobody will wake that thread. -/
def WakeUpLost (m : MasterThreads) (l : LockId) : Prop :=
  (m.locks l).locked = false ∧ m.blocked l ≠ [] ∧ ¬ m.InProgress l

end MasterThreads

/-- A worker's release that frees a lock finds no thread blocked on it, or finds a thread of the
master in `dsm_lock` or `dsm_unlock` of it. -/
def MasterThreadsAction.FreesSafely (m : MasterThreads) : MasterThreadsAction → Prop
  | .handle (.release srcNode l) =>
      l < maxLocks → (m.locks l).heldBy srcNode = true → (m.locks l).waiters = [] →
        m.blocked l ≠ [] → ∃ t, m.Runs t l
  | _ => True

/-- The threads blocked on a condition are those in its wait, and while they are blocked on a free
lock somebody will wake them. -/
structure BlockedInv (m : MasterThreads) : Prop where
  asleep : ∀ l, ∀ t ∈ m.blocked l, m.pc t = .sleep l
  nodup : ∀ l, (m.blocked l).Nodup
  woken : ∀ l, (m.locks l).locked = false → m.blocked l ≠ [] → ∃ t, m.Runs t l

namespace BlockedInv

variable {m m' : MasterThreads}

theorem initial : BlockedInv .initial := by
  refine ⟨?_, ?_, ?_⟩ <;> simp [MasterThreads.initial]

theorem wakeUp_not_lost (h : BlockedInv m) (l : LockId) : ¬ m.WakeUpLost l := by
  rintro ⟨hfree, hblocked, hidle⟩
  exact hidle (.inl (h.woken l hfree hblocked))

theorem not_blocked {t : ThreadId} (h : BlockedInv m) (hpc : ∀ l, m.pc t ≠ .sleep l) (l : LockId) :
    t ∉ m.blocked l :=
  fun hmem => hpc l (h.asleep l t hmem)

/-- A thread of the master moves on; what the others do is not changed by it. -/
theorem move (t : ThreadId) (h : BlockedInv m) (hpc : ∀ u, u ≠ t → m'.pc u = m.pc u)
    (hasleep : ∀ l, ∀ u ∈ m'.blocked l, u ≠ t → u ∈ m.blocked l)
    (hself : ∀ l, t ∈ m'.blocked l → m'.pc t = .sleep l)
    (hnodup : ∀ l, (m'.blocked l).Nodup)
    (hwoken : ∀ l, (m'.locks l).locked = false → m'.blocked l ≠ [] →
      (∃ u, m'.Runs u l) ∨ ((m.locks l).locked = false ∧ m.blocked l ≠ [] ∧ ¬ m.Runs t l)) :
    BlockedInv m' := by
  refine ⟨fun l u hu => ?_, hnodup, fun l hfree hblocked => ?_⟩
  · by_cases heq : u = t
    · subst heq
      exact hself l hu
    · rw [hpc u heq]
      exact h.asleep l u (hasleep l u hu heq)
  · rcases hwoken l hfree hblocked with hruns | ⟨hold, hwaiting, hother⟩
    · exact hruns
    · obtain ⟨u, hu⟩ := h.woken l hold hwaiting
      have hne : u ≠ t := by
        rintro rfl
        exact hother hu
      refine ⟨u, ?_⟩
      unfold MasterThreads.Runs at hu ⊢
      rw [hpc u hne]
      exact hu.imp_right fun hrest =>
        hrest.imp_left fun ⟨hsleep, hsignalled⟩ => ⟨hsleep, fun hmem => hsignalled (hasleep l u hmem hne)⟩

theorem call {t : ThreadId} {pc : MasterLockPc} (h : BlockedInv m) (hpc : m.pc t = .idle) :
    BlockedInv (m.setPc t pc) := by
  refine h.move t (fun u hu => MasterThreads.setPc_of_ne hu) (fun _ _ hu _ => hu)
    (fun l hmem => absurd hmem (h.not_blocked (by simp [hpc]) l)) h.nodup
    (fun l hfree hblocked => .inr ⟨hfree, hblocked, ?_⟩)
  simp [MasterThreads.Runs, hpc]

theorem testSleep {t : ThreadId} {l : LockId} (h : BlockedInv m) (hpc : m.pc t = .acquire l)
    (hlocked : (m.locks l).locked = true) :
    BlockedInv { m.setPc t (.sleep l) with
      blocked := Function.update m.blocked l (m.blocked l ++ [t]) } := by
  have hnew : ∀ l', t ∉ m.blocked l' := h.not_blocked (by simp [hpc])
  refine h.move t (fun u hu => MasterThreads.setPc_of_ne hu) (fun l' u hu hne => ?_)
    (fun l' hmem => ?_) (fun l' => ?_) (fun l' hfree hblocked => ?_)
  all_goals by_cases heq : l' = l
  · subst heq
    simpa [hne] using hu
  · simpa [heq] using hu
  · simp [heq]
  · exact absurd (by simpa [heq] using hmem) (hnew l')
  · subst heq
    simpa using (h.nodup l').append (List.nodup_singleton t) (by simpa using hnew l')
  · simpa [heq] using h.nodup l'
  · subst heq
    simp [hlocked] at hfree
  · exact .inr ⟨hfree, by simpa [heq] using hblocked, by simp [MasterThreads.Runs, hpc, Ne.symm heq]⟩

theorem testEnter {t : ThreadId} {l : LockId} {lock : Lock} (h : BlockedInv m)
    (hpc : m.pc t = .acquire l) (hlocked : lock.locked = true) :
    BlockedInv { m.setPc t .idle with locks := Function.update m.locks l lock } := by
  refine h.move t (fun u hu => MasterThreads.setPc_of_ne hu) (fun _ _ hu _ => hu)
    (fun l' hmem => absurd hmem (h.not_blocked (by simp [hpc]) l')) h.nodup
    (fun l' hfree hblocked => ?_)
  by_cases heq : l' = l
  · subst heq
    simp [hlocked] at hfree
  · exact .inr ⟨by simpa [heq] using hfree, hblocked,
      by simp [MasterThreads.Runs, hpc, Ne.symm heq]⟩

/-- A thread leaves its wait, signalled or not, and will test the record again. -/
theorem wake {t : ThreadId} {l : LockId} {blocked : LockId → List ThreadId} (h : BlockedInv m)
    (hpc : m.pc t = .sleep l) (hout : t ∉ blocked l) (hsub : (blocked l).Sublist (m.blocked l))
    (hframe : ∀ l', l' ≠ l → blocked l' = m.blocked l') :
    BlockedInv { m.setPc t (.acquire l) with blocked := blocked } := by
  refine h.move t (fun u hu => MasterThreads.setPc_of_ne hu) (fun l' u hu _ => ?_)
    (fun l' hmem => ?_) (fun l' => ?_) (fun l' hfree hblocked => ?_)
  all_goals by_cases heq : l' = l
  · subst heq
    exact hsub.subset hu
  · exact hframe l' heq ▸ hu
  · subst heq
    exact absurd hmem hout
  · have hsleep := h.asleep l' t (hframe l' heq ▸ hmem)
    rw [hpc] at hsleep
    exact absurd (MasterLockPc.sleep.inj hsleep).symm heq
  · subst heq
    exact (h.nodup l').sublist hsub
  · simpa [hframe l' heq] using h.nodup l'
  · subst heq
    exact .inl ⟨t, .inl (by simp)⟩
  · exact .inr ⟨hfree, by simpa [hframe l' heq] using hblocked,
      by simp [MasterThreads.Runs, hpc, Ne.symm heq]⟩

theorem unlocking {t : ThreadId} {l : LockId} {pc : MasterLockPc} {locks : LockTable}
    (h : BlockedInv m) (hpc : m.pc t = .release l ∨ ∃ next, m.pc t = .grant l next)
    (hnext : (∃ next, pc = .grant l next) ∨ pc = .signal l)
    (hframe : ∀ l', l' ≠ l → locks l' = m.locks l') :
    BlockedInv { m.setPc t pc with locks := locks } := by
  refine h.move t (fun u hu => MasterThreads.setPc_of_ne hu) (fun _ _ hu _ => hu)
    (fun l' hmem => absurd hmem (h.not_blocked ?_ l')) h.nodup (fun l' hfree hblocked => ?_)
  · rcases hpc with hpc | ⟨next, hpc⟩ <;> simp [hpc]
  · by_cases heq : l' = l
    · subst heq
      refine .inl ⟨t, .inr (.inr (.inr ?_))⟩
      simpa using hnext
    · refine .inr ⟨hframe l' heq ▸ hfree, hblocked, ?_⟩
      rcases hpc with hpc | ⟨next, hpc⟩ <;> simp [MasterThreads.Runs, hpc, Ne.symm heq]

/-- The last step of `dsm_unlock`: the thread leaves, and a thread that was blocked runs. -/
theorem signal {t : ThreadId} {l : LockId} {woken : Option ThreadId} {left : List ThreadId}
    (h : BlockedInv m) (hpc : m.pc t = .signal l)
    (hleft : CondVar.signal (m.blocked l) woken = some left) :
    BlockedInv { m.setPc t .idle with blocked := Function.update m.blocked l left } := by
  have hsub : left.Sublist (m.blocked l) := CondVar.signal_sublist hleft
  have hout : ∀ l', t ∉ m.blocked l' := h.not_blocked (by simp [hpc])
  refine h.move t (fun u hu => MasterThreads.setPc_of_ne hu) (fun l' u hu _ => ?_)
    (fun l' hmem => ?_) (fun l' => ?_) (fun l' hfree hblocked => ?_)
  all_goals by_cases heq : l' = l
  · subst heq
    exact hsub.subset (by simpa using hu)
  · simpa [heq] using hu
  · subst heq
    exact absurd (hsub.subset (by simpa using hmem)) (hout l')
  · exact absurd (by simpa [heq] using hmem) (hout l')
  · subst heq
    simpa using (h.nodup l').sublist hsub
  · simpa [heq] using h.nodup l'
  · subst heq
    have hwaiting : m.blocked l' ≠ [] := by
      intro hnone
      rw [hnone] at hsub
      simp [List.eq_nil_of_sublist_nil hsub] at hblocked
    obtain ⟨u, hu, hwoken⟩ := CondVar.exists_woken hleft (h.nodup l') hwaiting
    have hne : u ≠ t := by
      rintro rfl
      exact hout l' hu
    refine .inl ⟨u, .inr (.inl ⟨?_, by simpa using hwoken⟩)⟩
    simpa [hne] using h.asleep l' u hu
  · exact .inr ⟨hfree, by simpa [heq] using hblocked,
      by simp [MasterThreads.Runs, hpc, Ne.symm heq]⟩

/-- The TCP thread changes records only, and frees a lock only where somebody will wake the others. -/
theorem handle {msg : ToMaster} (h : BlockedInv m)
    (hok : MasterThreadsAction.FreesSafely m (.handle msg)) : BlockedInv (m.handle msg) := by
  cases msg with
  | request srcNode l =>
      refine ⟨h.asleep, h.nodup, fun l' hfree hblocked => h.woken l' ?_ hblocked⟩
      by_contra hlocked
      rw [Bool.not_eq_false] at hlocked
      have hkept := syncHandleLockRequest_keeps_locked m.locks srcNode l hlocked
      rw [show ((m.handle (.request srcNode l)).locks l').locked = true from hkept] at hfree
      cases hfree
  | release srcNode l =>
      refine ⟨h.asleep, h.nodup, fun l' hfree hblocked => ?_⟩
      by_cases hold : (m.locks l').locked = false
      · exact h.woken l' hold hblocked
      · obtain ⟨rfl, hl, hheld, hwaiters⟩ :=
          syncHandleLockRelease_frees m.locks srcNode l (Bool.not_eq_false _ ▸ hold) hfree
        exact hok hl hheld hwaiters hblocked

theorem step {a : MasterThreadsAction} (h : BlockedInv m) (hok : a.FreesSafely m)
    (hstep : m.step a = some m') : BlockedInv m' := by
  cases MasterThreads.step_effect hstep with
  | lock hpc | unlock hpc => exact h.call hpc
  | testSleep hpc htaken => exact h.testSleep hpc htaken.1
  | testEnter hpc => exact h.testEnter hpc rfl
  | wake hpc hsignalled =>
      exact h.wake hpc hsignalled (List.Sublist.refl _) (fun _ _ => rfl)
  | @spurious t l hpc =>
      refine h.wake hpc ?_ ?_ (fun l' hne => by simp [hne])
      · simpa using (h.nodup l).not_mem_erase
      · simpa using List.erase_sublist
  | @release t l pc hpc hgrant hsignal =>
      refine h.unlocking (.inl hpc) ?_ (fun l' hne => syncHandleLockRelease_frame _ _ hne)
      cases hout : (syncHandleLockRelease m.locks masterId l).grant with
      | some next => exact .inl ⟨next, hgrant next hout⟩
      | none => exact .inr (hsignal hout)
  | grant hpc => exact h.unlocking (.inr ⟨_, hpc⟩) (.inr rfl) (fun _ _ => rfl)
  | signal hpc hleft => exact h.signal hpc hleft
  | handle => exact h.handle hok
  | tcpGrant => exact ⟨h.asleep, h.nodup, h.woken⟩

end BlockedInv

/-- A worker's release that frees a lock, with a thread blocked on it and nobody there to wake it. -/
theorem MasterThreads.wakeUpLost_of_release {m m' : MasterThreads} {a : MasterThreadsAction}
    (hnot : ¬ a.FreesSafely m) (hstep : m.step a = some m') : ∃ l, m'.WakeUpLost l := by
  unfold MasterThreadsAction.FreesSafely at hnot
  split at hnot
  · rename_i srcNode l
    simp only [Classical.not_imp] at hnot
    obtain ⟨hl, hheld, hwaiters, hblocked, hidle⟩ := hnot
    rw [MasterThreads.step, Option.ite_none_right_eq_some] at hstep
    obtain ⟨-, heq⟩ := hstep
    cases heq
    have hcall := syncHandleLockRelease_effect m.locks srcNode l
    simp only [hl, hheld, hwaiters, reduceCtorEq, false_and, and_false, exists_false, true_and,
      not_true_eq_false, false_or, or_false] at hcall
    refine ⟨l, ?_, hblocked, ?_⟩
    · simp [MasterThreads.handle, hcall]
    · rintro (hruns | ⟨w, htcp⟩)
      · exact hidle hruns
      · simp [MasterThreads.handle, hcall] at htcp
  · exact absurd trivial hnot

/-- In a run no wake-up of a thread of the master is lost, exactly when every worker's release that
frees a lock finds nobody blocked on it, or a thread of the master on its way to take or to signal. -/
theorem lock_wakeUp_not_lost_iff {m : MasterThreads} {as : List MasterThreadsAction}
    (hexec : masterThreadsMachine.exec .initial as = some m) :
    masterThreadsMachine.Always (fun m => ∀ l, ¬ m.WakeUpLost l) .initial as ↔
      masterThreadsMachine.EachStep (fun m a => a.FreesSafely m) .initial as := by
  refine Machine.always_iff_eachStep (fun _ (hinv : BlockedInv _) => hinv.wakeUp_not_lost)
    (fun _ _ _ hinv hok hstep => hinv.step hok hstep) (fun m a m' _ hnot hstep hkept => ?_)
    .initial hexec
  obtain ⟨l, hlost⟩ := MasterThreads.wakeUpLost_of_release hnot hstep
  exact hkept l hlost

/-- Worker 2 has lock 0 when thread 0 of the master asks for it and blocks. -/
def blockedRun : List MasterThreadsAction :=
  [.handle (.request 2 0), .tcpGrant, .lock 0 0, .test 0]

/-- Thread 1 comes to the lock before the worker's release is handled. -/
theorem lock_wakeUp_not_lost_iff_second_thread : ∃ m, masterThreadsMachine.exec .initial
    (blockedRun ++ [.lock 1 0, .handle (.release 2 0)]) = some m ∧ ∀ l, ¬ m.WakeUpLost l := by
  have hok : masterThreadsMachine.EachStep (fun m a => a.FreesSafely m) .initial
      (blockedRun ++ [.lock 1 0, .handle (.release 2 0)]) := by
    refine (Machine.eachStep_cons rfl).mpr ⟨trivial, (Machine.eachStep_cons rfl).mpr ⟨trivial, ?_⟩⟩
    refine (Machine.eachStep_cons rfl).mpr ⟨trivial, (Machine.eachStep_cons rfl).mpr ⟨trivial, ?_⟩⟩
    refine (Machine.eachStep_cons rfl).mpr ⟨trivial, (Machine.eachStep_cons rfl).mpr ⟨?_, ?_⟩⟩
    · exact fun _ _ _ _ => ⟨1, .inl rfl⟩
    · exact Machine.eachStep_nil
  exact ⟨_, rfl, ((lock_wakeUp_not_lost_iff rfl).mpr hok).last rfl⟩

/-- The worker's release frees the lock and wakes nobody. -/
theorem lock_wakeUp_lost : ∃ m, masterThreadsMachine.exec .initial
    (blockedRun ++ [.handle (.release 2 0)]) = some m ∧ m.WakeUpLost 0 := by
  refine ⟨_, rfl, rfl, by decide, ?_⟩
  rintro (⟨t, hruns⟩ | ⟨w, htcp⟩)
  · by_cases ht : t = 0
    · subst ht
      exact absurd hruns (by simp [MasterThreads.Runs, MasterThreads.handle, MasterThreads.setPc])
    · simp [MasterThreads.Runs, MasterThreads.handle, MasterThreads.setPc, MasterThreads.initial,
        ht] at hruns
  · cases htcp

end Dsm
