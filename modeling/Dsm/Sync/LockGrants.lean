import Dsm.Sync.LockHistory
import Dsm.Sync.LockRest
import Mathlib.Data.Set.Card

/-!
# Grants that are decided and grants that are sent

The history records a grant when a critical section makes the node the holder. The `LOCK_GRANT` leaves
in a later step, of the thread that released the lock or of the TCP thread. What a run has sent,
together with what its threads are about to send, is what the history has recorded
(`granted_count`).
-/

namespace Dsm

namespace MasterThreads

/-- The `LOCK_GRANT`s that the steps of a run send, to whom and of which lock. -/
def grantsSent (m : MasterThreads) : List MasterThreadsAction → List (NodeId × LockId)
  | [] => []
  | a :: as => (m.sends a).toList ++ ((m.step a).map (grantsSent · as)).getD []

/-- The threads that are about to send `w` a grant of lock `l`. -/
def senders (m : MasterThreads) (w : NodeId) (l : LockId) : Set (Option ThreadId) :=
  {x | m.Sends w l x}

theorem encard_senders_of_one {m m' : MasterThreads} {w : NodeId} {l : LockId} {x : Option ThreadId}
    {p : Prop} [Decidable p] (hbefore : ¬ m.Sends w l x) (hafter : m'.Sends w l x ↔ p)
    (hothers : ∀ y, y ≠ x → (m'.Sends w l y ↔ m.Sends w l y)) :
    (m'.senders w l).encard = (m.senders w l).encard + if p then 1 else 0 := by
  by_cases hp : p
  · have hset : m'.senders w l = insert x (m.senders w l) := by
      ext y
      by_cases hy : y = x
      · subst hy
        exact iff_of_true (hafter.mpr hp) (Set.mem_insert y _)
      · have hmem : y ∈ insert x (m.senders w l) ↔ y ∈ m.senders w l :=
          Set.mem_insert_iff.trans (or_iff_right hy)
        exact (hothers y hy).trans hmem.symm
    have hnotMem : x ∉ m.senders w l := hbefore
    rw [hset, Set.encard_insert_of_notMem hnotMem, if_pos hp]
  · have hset : m'.senders w l = m.senders w l := by
      ext y
      by_cases hy : y = x
      · subst hy
        exact iff_of_false (mt hafter.mp hp) hbefore
      · exact hothers y hy
    rw [hset, if_neg hp, add_zero]

theorem senders_initial (w : NodeId) (l : LockId) : MasterThreads.initial.senders w l = ∅ := by
  ext x
  cases x <;> simp [senders, Sends, MasterThreads.initial]

end MasterThreads

namespace LockHistory

variable {h h' : LockHistory}

theorem count_granting (h : LockHistory) (l₀ : LockId) (out : LockOutcome) (w : NodeId) (l : LockId) :
    (h.granting l₀ out l).count w =
      (h.granted l).count w + if out.grant = some w ∧ l = l₀ then 1 else 0 := by
  by_cases hl : l = l₀
  · subst hl
    unfold granting
    cases hout : out.grant <;> simp [List.count_singleton]
  · rw [granting_of_ne out hl, if_neg fun hboth => hl hboth.2, add_zero]

/-- The grants of a lock to a node that the history has recorded, those sent so far (`sent`) and those
that the threads are about to send. -/
def Accounted (h : LockHistory) (sent : List (NodeId × LockId)) : Prop :=
  ∀ w l, ((h.granted l).count w : ℕ∞) = (sent.count (w, l) : ℕ∞) + (h.master.senders w l).encard

theorem Accounted.initial : LockHistory.initial.Accounted [] := by
  intro w l
  rw [LockHistory.initial, MasterThreads.senders_initial]
  simp

theorem Accounted.quiet {sent : List (NodeId × LockId)} (hacc : h.Accounted sent)
    (hsends : ∀ w l x, h'.master.Sends w l x ↔ h.master.Sends w l x) (hgranted : h'.granted = h.granted) :
    h'.Accounted sent := by
  intro w l
  have hset : h'.master.senders w l = h.master.senders w l := Set.ext (hsends w l)
  rw [hgranted, hset]
  exact hacc w l

theorem Accounted.decide {sent : List (NodeId × LockId)} (hacc : h.Accounted sent)
    (x : Option ThreadId) (l₀ : LockId) (out : LockOutcome)
    (hbefore : ∀ w l, ¬ h.master.Sends w l x)
    (hafter : ∀ w l, h'.master.Sends w l x ↔ out.grant = some w ∧ l = l₀)
    (hothers : ∀ w l y, y ≠ x → (h'.master.Sends w l y ↔ h.master.Sends w l y))
    (hgranted : h'.granted = h.granting l₀ out) : h'.Accounted sent := by
  intro w l
  rw [hgranted, count_granting,
    MasterThreads.encard_senders_of_one (hbefore w l) (hafter w l) (hothers w l), ← add_assoc,
    ← hacc w l]
  push_cast
  rfl

theorem Accounted.send {sent : List (NodeId × LockId)} (hacc : h.Accounted sent)
    (x : Option ThreadId) (node : NodeId) (l₀ : LockId)
    (hbefore : ∀ w l, h.master.Sends w l x ↔ (node, l₀) = (w, l))
    (hafter : ∀ w l, ¬ h'.master.Sends w l x)
    (hothers : ∀ w l y, y ≠ x → (h'.master.Sends w l y ↔ h.master.Sends w l y))
    (hgranted : h'.granted = h.granted) : h'.Accounted (sent ++ [(node, l₀)]) := by
  intro w l
  have hone := MasterThreads.encard_senders_of_one (hafter w l) (hbefore w l)
    fun y hy => (hothers w l y hy).symm
  rw [hgranted, hacc w l, hone, List.count_append, List.count_singleton]
  simp only [beq_iff_eq]
  push_cast
  exact add_left_comm _ _ _ |>.trans (add_comm _ _)

theorem Accounted.handled {sent : List (NodeId × LockId)} (hacc : h.Accounted sent) (l₀ : LockId)
    (out : LockOutcome) (htcp : h.master.tcpGrant = none) (hpc : h'.master.pc = h.master.pc)
    (hdecided : h'.master.tcpGrant = out.grant.map fun node => (node, l₀))
    (hgranted : h'.granted = h.granting l₀ out) : h'.Accounted sent := by
  refine hacc.decide none l₀ out (fun w l => ?_) (fun w l => ?_)
    (fun w l y hy => MasterThreads.sends_app hpc hy) hgranted
  · simp [MasterThreads.Sends, htcp]
  · cases hout : out.grant with
    | some node => simp [MasterThreads.Sends, hdecided, hout, @eq_comm _ l]
    | none => simp [MasterThreads.Sends, hdecided, hout]

theorem Accounted.step {sent : List (NodeId × LockId)} {a : MasterThreadsAction}
    (hacc : h.Accounted sent) (hstep : h.step a = some h') :
    h'.Accounted (sent ++ (h.master.sends a).toList) := by
  obtain ⟨m, hm, rfl⟩ := Option.map_eq_some_iff.mp hstep
  have hmaster := record_master h m a
  cases MasterThreads.step_effect hm with
  | lock hpc | wake hpc | spurious hpc | unlock hpc | signal hpc | testSleep hpc | testEnter hpc =>
      simp only [MasterThreads.sends, Option.toList_none, List.append_nil]
      refine hacc.quiet (fun w l x => ?_) (by simp [record])
      rw [hmaster]
      exact MasterThreads.sends_update (by rfl) (by rfl) (by simp [hpc]) (by simp) x
  | @release t l₀ pc hpc hgrant hsignal =>
      simp only [MasterThreads.sends, Option.toList_none, List.append_nil]
      refine hacc.decide (some t) l₀ (syncHandleLockRelease h.master.locks masterId l₀)
        (fun w l => ?_) (fun w l => ?_) (fun w l y hy => ?_) (by simp [record, hpc])
      · simp [MasterThreads.Sends, hpc]
      · rw [hmaster]
        cases hout : (syncHandleLockRelease h.master.locks masterId l₀).grant with
        | some next => simp [MasterThreads.Sends, hgrant next hout, and_comm, @eq_comm _ l]
        | none => simp [MasterThreads.Sends, hsignal hout]
      · rw [hmaster]
        exact MasterThreads.sends_of_ne (by rfl) (by rfl) hy
  | @grant t l₀ node hpc =>
      have hsends : h.master.sends (.grant t) = some (node, l₀) := by simp [MasterThreads.sends, hpc]
      rw [hsends, Option.toList_some]
      refine hacc.send (some t) node l₀ (fun w l => ?_) (fun w l => ?_) (fun w l y hy => ?_)
        (by simp [record])
      · simp [MasterThreads.Sends, hpc, and_comm]
      · rw [hmaster]
        simp [MasterThreads.Sends]
      · rw [hmaster]
        exact MasterThreads.sends_of_ne (by rfl) (by rfl) hy
  | @tcpGrant node l₀ htcp =>
      have hsends : h.master.sends .tcpGrant = some (node, l₀) := htcp
      rw [hsends, Option.toList_some]
      refine hacc.send none node l₀ (fun w l => ?_) (fun w l => ?_) (fun w l y hy => ?_)
        (by simp [record])
      · simp [MasterThreads.Sends, htcp]
      · rw [hmaster]
        simp [MasterThreads.Sends]
      · rw [hmaster]
        exact MasterThreads.sends_app (by rfl) hy
  | @handle msg htcp =>
      simp only [MasterThreads.sends, Option.toList_none, List.append_nil]
      cases msg with
      | request srcNode l₀ => exact hacc.handled l₀ _ htcp rfl rfl rfl
      | release srcNode l₀ => exact hacc.handled l₀ _ htcp rfl rfl rfl

theorem Accounted.exec {sent : List (NodeId × LockId)} {as : List MasterThreadsAction}
    (hacc : h.Accounted sent) (hexec : lockHistoryMachine.exec h as = some h') :
    h'.Accounted (sent ++ h.master.grantsSent as) := by
  induction as generalizing h sent with
  | nil =>
      obtain rfl := Option.some.inj hexec
      rwa [MasterThreads.grantsSent, List.append_nil]
  | cons a as ih =>
      obtain ⟨h₁, hstep, hrest⟩ := Option.bind_eq_some_iff.mp hexec
      have hmaster : h.master.step a = some h₁.master := by
        obtain ⟨m, hm, rfl⟩ := Option.map_eq_some_iff.mp hstep
        rw [record_master, hm]
      rw [MasterThreads.grantsSent, hmaster, ← List.append_assoc]
      exact ih (hacc.step hstep) hrest

end LockHistory

/-- In every run, the grants of a lock to a node that the history has recorded are the `LOCK_GRANT`s
that the run has sent to it and those that a thread is about to send. -/
theorem granted_count {as : List MasterThreadsAction} {h : LockHistory}
    (hexec : lockHistoryMachine.exec .initial as = some h) (w : NodeId) (l : LockId) :
    ((h.granted l).count w : ℕ∞) =
      ((MasterThreads.initial.grantsSent as).count (w, l) : ℕ∞) + {x | h.master.Sends w l x}.encard := by
  have hacc := LockHistory.Accounted.initial.exec hexec
  exact hacc w l

end Dsm
