import Dsm.Library.Fairness
import Dsm.Sync.BarrierWaiting

/-!
# The steps of an infinite run at a barrier

What one step of an infinite run can do to the master and to a worker, and what holds in each of its
states: counts only grow, a barrier that nobody is releasing has room, and a master that is inside its
own handler is releasing one.
-/

namespace Dsm

/-! ### What a step can do -/

/-- The effects of the steps of worker `w`. -/
inductive BarrierWorker.Effect (w : NodeId) (n : BarrierWorker) :
    BarrierWorkerAction → BarrierWorker → Prop where
  | call (hpc : n.pc = .idle) : Effect w n .call { n with pc := .send, calls := n.calls + 1 }
  | send (hpc : n.pc = .send) :
      Effect w n .send { n with pc := .lock, toMaster := n.toMaster ++ [w] }
  | wait (hpc : n.pc = .lock) : Effect w n .wait { n with pc := .waiting }
  | receive {rest : Nat} (hrest : n.toWorker = rest + 1) :
      Effect w n .receive
        { n with toWorker := rest, pc := if n.pc = .waiting then .woken else n.pc }
  | ret (hpc : n.pc = .woken) : Effect w n .ret { n with pc := .idle, rets := n.rets + 1 }

theorem BarrierWorker.step_effect {w : NodeId} {n n' : BarrierWorker} {a : BarrierWorkerAction}
    (h : n.step w a = some n') : n.Effect w a n' := by
  cases a with
  | receive =>
      simp only [BarrierWorker.step] at h
      split at h
      · rename_i rest hrest
        cases h
        exact .receive hrest
      · cases h
  | call | send | wait | ret =>
      simp only [BarrierWorker.step, Option.ite_none_right_eq_some, Option.some.injEq] at h
      obtain ⟨hpc, rfl⟩ := h
      constructor
      exact hpc

/-- The effects of the steps of the master. -/
inductive BarrierState.MasterEffect (cl : Cluster) (s : BarrierState) :
    BarrierMasterAction → BarrierState → Prop where
  | call (hpc : s.master.pc = .idle) :
      MasterEffect cl s .call
        (s.setMaster { s.master with pc := .enter, calls := s.master.calls + 1 })
  | enter (hpc : s.master.pc = .enter) (hfree : s.master.releasing = none) :
      MasterEffect cl s .enter
        (s.setMaster { s.master.arrive cl .app masterId with
          pc := if (s.master.arrive cl .app masterId).releasing = none then .read else .inHandler })
  | read (hpc : s.master.pc = .read) (hfree : s.master.releasing = none) :
      MasterEffect cl s .read (s.setMaster (s.master.test s.master.barrier.barrierId))
  | wake {currentId : Nat} (hpc : s.master.pc = .woken currentId) (hfree : s.master.releasing = none) :
      MasterEffect cl s .wake (s.setMaster (s.master.test currentId))
  | receive {w srcNode : NodeId} {rest : List NodeId} (hw : w ∈ cl.workers)
      (hfree : s.master.releasing = none) (hhead : (s.worker w).toMaster = srcNode :: rest) :
      MasterEffect cl s (.receive w)
        ((s.setMaster (s.master.arrive cl .tcp srcNode)).setWorker w
          { s.worker w with toMaster := rest })
  | visit {thread : BarrierThread} {node : NodeId} {rest : List NodeId}
      (hreleasing : s.master.releasing = some (thread, node :: rest)) :
      MasterEffect cl s .visit
        ((s.setMaster { s.master with releasing := some (thread, rest) }).sendRelease node)
  | reset {thread : BarrierThread} (hreleasing : s.master.releasing = some (thread, [])) :
      MasterEffect cl s .reset (s.setMaster (s.master.reset thread))

theorem BarrierState.masterStep_effect {cl : Cluster} {s t : BarrierState} {a : BarrierMasterAction}
    (h : s.masterStep cl a = some t) : s.MasterEffect cl a t := by
  cases a with
  | call =>
      simp only [masterStep, Option.ite_none_right_eq_some, Option.some.injEq] at h
      obtain ⟨hpc, rfl⟩ := h
      exact .call hpc
  | enter =>
      simp only [masterStep, Option.ite_none_right_eq_some, Option.some.injEq] at h
      obtain ⟨⟨hpc, hfree⟩, rfl⟩ := h
      exact .enter hpc hfree
  | read =>
      simp only [masterStep, Option.ite_none_right_eq_some, Option.some.injEq] at h
      obtain ⟨⟨hpc, hfree⟩, rfl⟩ := h
      exact .read hpc hfree
  | wake =>
      simp only [masterStep] at h
      split at h
      · rename_i currentId hpc
        rw [Option.ite_none_right_eq_some] at h
        obtain ⟨hfree, heq⟩ := h
        cases heq
        exact .wake hpc hfree
      · cases h
  | receive w =>
      simp only [masterStep] at h
      split at h
      · rename_i srcNode rest hhead
        rw [Option.ite_none_right_eq_some] at h
        obtain ⟨⟨hw, hfree⟩, heq⟩ := h
        cases heq
        exact .receive hw hfree hhead
      · cases h
  | visit =>
      simp only [masterStep] at h
      split at h
      · rename_i thread node rest hreleasing
        cases h
        exact .visit hreleasing
      · cases h
  | reset =>
      simp only [masterStep] at h
      split at h
      · rename_i thread hreleasing
        cases h
        exact .reset hreleasing
      · cases h
/-! ### What other steps leave alone -/

/-- A step in which worker `w` does nothing: a release may have come for it, and the master may have
taken its next arrival. -/
structure BarrierState.Untouched (s t : BarrierState) (w : NodeId) (a : Option BarrierAction) :
    Prop where
  pc : (t.worker w).pc = (s.worker w).pc
  calls : (t.worker w).calls = (s.worker w).calls
  rets : (t.worker w).rets = (s.worker w).rets
  toWorker : (s.worker w).toWorker ≤ (t.worker w).toWorker
  toMaster : (t.worker w).toMaster = (s.worker w).toMaster ∧ a ≠ some (.master (.receive w)) ∨
    a = some (.master (.receive w)) ∧
      ∃ srcNode, (s.worker w).toMaster = srcNode :: (t.worker w).toMaster

theorem BarrierState.untouched_of_worker {s t : BarrierState} {w : NodeId} {a : Option BarrierAction}
    (hworker : t.worker w = s.worker w) (ha : a ≠ some (.master (.receive w))) :
    s.Untouched t w a where
  pc := by rw [hworker]
  calls := by rw [hworker]
  rets := by rw [hworker]
  toWorker := by rw [hworker]
  toMaster := .inl ⟨by rw [hworker], ha⟩

theorem BarrierState.worker_sendRelease (s : BarrierState) (node w : NodeId) :
    (s.sendRelease node).worker w = if node = w ∧ node ≠ masterId then
      { s.worker w with toWorker := (s.worker w).toWorker + 1 } else s.worker w := by
  unfold BarrierState.sendRelease
  by_cases hnode : node ≠ masterId
  · rw [if_pos hnode]
    by_cases heq : node = w
    · subst heq
      rw [if_pos ⟨rfl, hnode⟩]
      exact Function.update_self ..
    · rw [if_neg fun hand => heq hand.1]
      exact Function.update_of_ne (Ne.symm heq) ..
  · rw [if_neg hnode, if_neg fun hand => hnode hand.2]

theorem BarrierState.master_sendRelease (s : BarrierState) (node : NodeId) :
    (s.sendRelease node).master = s.master := by
  unfold BarrierState.sendRelease
  split <;> rfl

theorem BarrierState.untouched_of_step {cl : Cluster} {s t : BarrierState} {w : NodeId}
    {a : BarrierAction} (hstep : s.step cl a = some t) (hother : ∀ b, a ≠ .worker w b) :
    s.Untouched t w (some a) := by
  cases a with
  | worker i b =>
      simp only [BarrierState.step, Option.ite_none_right_eq_some, Option.map_eq_some_iff] at hstep
      obtain ⟨-, n, -, rfl⟩ := hstep
      have hne : w ≠ i := by
        rintro rfl
        exact hother b rfl
      exact BarrierState.untouched_of_worker (Function.update_of_ne hne ..) fun hact => by cases hact
  | master b =>
      cases BarrierState.masterStep_effect hstep with
      | call | enter | read | wake | reset =>
          exact BarrierState.untouched_of_worker rfl fun hact => by cases hact
      | @visit thread node rest hreleasing =>
          have hworker := BarrierState.worker_sendRelease
            (s.setMaster { s.master with releasing := some (thread, rest) }) node w
          split_ifs at hworker
          · exact ⟨by rw [hworker]; rfl, by rw [hworker]; rfl, by rw [hworker]; rfl,
              by rw [hworker]; exact Nat.le_succ _,
              .inl ⟨by rw [hworker]; rfl, fun hact => by cases hact⟩⟩
          · exact BarrierState.untouched_of_worker hworker fun hact => by cases hact
      | @receive i srcNode rest hi hfree hhead =>
          by_cases heq : w = i
          · subst heq
            have hself : (((s.setMaster (s.master.arrive cl .tcp srcNode)).setWorker w
                { s.worker w with toMaster := rest }).worker w) =
                { s.worker w with toMaster := rest } := Function.update_self ..
            exact ⟨by rw [hself], by rw [hself], by rw [hself], by rw [hself],
              .inr ⟨rfl, srcNode, by rw [hself, hhead]⟩⟩
          · refine BarrierState.untouched_of_worker (Function.update_of_ne heq ..) fun hact => ?_
            cases hact
            exact heq rfl

section Run

variable {cl : Cluster} (r : (barrierMachine cl).idling.Run)

theorem barrierWorker_step (w : NodeId) (n : ℕ) :
    (∃ a, r.act n = some (.worker w a) ∧ (r.state (n + 1)).master = (r.state n).master ∧
        ((r.state n).worker w).Effect w a ((r.state (n + 1)).worker w)) ∨
      (∀ a, r.act n ≠ some (.worker w a)) ∧ (r.state n).Untouched (r.state (n + 1)) w (r.act n) := by
  have hstep := r.step n
  cases hact : r.act n with
  | none =>
      rw [hact] at hstep
      have hsame : r.state n = r.state (n + 1) := Option.some.inj hstep
      exact .inr ⟨nofun, BarrierState.untouched_of_worker (by rw [hsame]) nofun⟩
  | some a =>
      rw [hact] at hstep
      by_cases hown : ∃ b, a = .worker w b
      · obtain ⟨b, rfl⟩ := hown
        change (r.state n).step cl (.worker w b) = _ at hstep
        simp only [BarrierState.step, Option.ite_none_right_eq_some, Option.map_eq_some_iff] at hstep
        obtain ⟨-, n', hn', heq⟩ := hstep
        refine .inl ⟨b, rfl, by rw [← heq]; rfl, ?_⟩
        have hself : (r.state (n + 1)).worker w = n' := by
          rw [← heq]
          exact Function.update_self ..
        rw [hself]
        exact BarrierWorker.step_effect hn'
      · refine .inr ⟨fun b hb => hown ⟨b, Option.some.inj hb⟩, ?_⟩
        exact BarrierState.untouched_of_step hstep (not_exists.mp hown)

theorem barrierMaster_step (n : ℕ) :
    (∃ a, r.act n = some (.master a) ∧ (r.state n).MasterEffect cl a (r.state (n + 1))) ∨
      (∀ a, r.act n ≠ some (.master a)) ∧ (r.state (n + 1)).master = (r.state n).master := by
  have hstep := r.step n
  cases hact : r.act n with
  | none =>
      rw [hact] at hstep
      have hsame : r.state n = r.state (n + 1) := Option.some.inj hstep
      exact .inr ⟨fun a ha => (by cases ha), by rw [hsame]⟩
  | some a =>
      rw [hact] at hstep
      change (r.state n).step cl a = _ at hstep
      cases a with
      | master a => exact .inl ⟨a, rfl, BarrierState.masterStep_effect hstep⟩
      | worker w a =>
          simp only [BarrierState.step, Option.ite_none_right_eq_some, Option.map_eq_some_iff] at hstep
          obtain ⟨-, n', -, heq⟩ := hstep
          exact .inr ⟨fun b hb => (by cases hb), by rw [← heq]; rfl⟩

/-! ### What holds in every state of a run -/

theorem barrierInv_of_run (n : ℕ) : BarrierInv cl (r.state n) :=
  BarrierInv.of_reachable (Machine.reachable_of_idling (r.reachable n))

theorem BarrierState.MasterEffect.counts_le {s t : BarrierState} {a : BarrierMasterAction}
    (h : s.MasterEffect cl a t) : s.master.calls ≤ t.master.calls ∧ s.master.rets ≤ t.master.rets ∧
      s.master.completed ≤ t.master.completed := by
  cases h with
  | call => exact ⟨Nat.le_succ _, Nat.le_refl _, Nat.le_refl _⟩
  | reset => exact ⟨Nat.le_refl _, Nat.le_refl _, Nat.le_succ _⟩
  | enter | receive => exact ⟨Nat.le_refl _, Nat.le_refl _, Nat.le_refl _⟩
  | visit =>
      rw [BarrierState.master_sendRelease]
      exact ⟨Nat.le_refl _, Nat.le_refl _, Nat.le_refl _⟩
  | read | wake =>
      simp only [BarrierState.setMaster, BarrierMaster.test]
      split
      · exact ⟨Nat.le_refl _, Nat.le_refl _, Nat.le_refl _⟩
      · exact ⟨Nat.le_refl _, Nat.le_succ _, Nat.le_refl _⟩

theorem BarrierWorker.Effect.counts_le {w : NodeId} {n n' : BarrierWorker} {a : BarrierWorkerAction}
    (h : n.Effect w a n') : n.calls ≤ n'.calls ∧ n.rets ≤ n'.rets := by
  cases h with
  | call => exact ⟨Nat.le_succ _, Nat.le_refl _⟩
  | ret => exact ⟨Nat.le_refl _, Nat.le_succ _⟩
  | send | wait | receive => exact ⟨Nat.le_refl _, Nat.le_refl _⟩

theorem barrier_counts_le (n : ℕ) (i : NodeId) :
    (r.state n).calls i ≤ (r.state (n + 1)).calls i ∧ (r.state n).rets i ≤ (r.state (n + 1)).rets i ∧
      (r.state n).master.completed ≤ (r.state (n + 1)).master.completed := by
  have hmaster : (r.state n).master.calls ≤ (r.state (n + 1)).master.calls ∧
      (r.state n).master.rets ≤ (r.state (n + 1)).master.rets ∧
      (r.state n).master.completed ≤ (r.state (n + 1)).master.completed := by
    rcases barrierMaster_step r n with ⟨a, -, heffect⟩ | ⟨-, hsame⟩
    · exact heffect.counts_le
    · rw [hsame]
      exact ⟨Nat.le_refl _, Nat.le_refl _, Nat.le_refl _⟩
  have hworker : ((r.state n).worker i).calls ≤ ((r.state (n + 1)).worker i).calls ∧
      ((r.state n).worker i).rets ≤ ((r.state (n + 1)).worker i).rets := by
    rcases barrierWorker_step r i n with ⟨a, -, -, heffect⟩ | ⟨-, hsame⟩
    · exact heffect.counts_le
    · exact ⟨hsame.calls.ge, hsame.rets.ge⟩
  unfold BarrierState.calls BarrierState.rets
  split
  · exact hmaster
  · exact ⟨hworker.1, hworker.2, hmaster.2.2⟩

theorem stable_calls (i : NodeId) (k : Nat) : r.Stable fun s => k ≤ s.calls i :=
  fun n hk => hk.trans (barrier_counts_le r n i).1

theorem stable_rets (i : NodeId) (k : Nat) : r.Stable fun s => k ≤ s.rets i :=
  fun n hk => hk.trans (barrier_counts_le r n i).2.1

theorem stable_completed (k : Nat) : r.Stable fun s => k ≤ s.master.completed :=
  fun n hk => hk.trans (barrier_counts_le r n masterId).2.2

/-- A barrier that nobody is releasing is not full, and a master in its handler releases one. -/
structure BarrierMaster.Settled (cl : Cluster) (m : BarrierMaster) : Prop where
  room : m.releasing = none → m.barrier.arrived.length < cl.nodes.length
  handler : m.pc = .inHandler → ∃ rest, m.releasing = some (.app, rest)

theorem BarrierMaster.arrive_cases (cl : Cluster) (m : BarrierMaster) (thread : BarrierThread)
    (fromNode : NodeId) :
    (m.arrive cl thread fromNode).barrier.arrived.length < cl.nodes.length ∧
        (m.arrive cl thread fromNode).releasing = none ∨
      (m.arrive cl thread fromNode).releasing = some (thread, m.barrier.arrived ++ [fromNode]) := by
  by_cases hfull : cl.nodes.length ≤ (m.barrier.arrived ++ [fromNode]).length
  · exact .inr (if_pos hfull)
  · exact .inl ⟨Nat.lt_of_not_le hfull, if_neg hfull⟩

theorem BarrierMaster.Settled.arrive {m : BarrierMaster} {thread : BarrierThread} {fromNode : NodeId}
    {pc : BarrierMasterPc}
    (hpc : pc = .inHandler → thread = .app ∧ (m.arrive cl thread fromNode).releasing ≠ none) :
    BarrierMaster.Settled cl { m.arrive cl thread fromNode with pc := pc } := by
  rcases m.arrive_cases cl thread fromNode with ⟨hroom, hfree⟩ | hreleasing
  · exact ⟨fun _ => hroom, fun hin => absurd hfree (hpc hin).2⟩
  · refine ⟨fun hfree => ?_, fun hin => ?_⟩
    · cases hreleasing.symm.trans hfree
    · obtain ⟨rfl, -⟩ := hpc hin
      exact ⟨_, hreleasing⟩

theorem BarrierMaster.Settled.test {m : BarrierMaster} (h : m.Settled cl) (currentId : Nat) :
    (m.test currentId).Settled cl := by
  unfold BarrierMaster.test
  split <;> exact ⟨h.room, nofun⟩

theorem BarrierMaster.Settled.step {s t : BarrierState} {a : BarrierMasterAction}
    (h : s.master.Settled cl) (heffect : s.MasterEffect cl a t) : t.master.Settled cl := by
  cases heffect with
  | call => exact ⟨h.room, nofun⟩
  | enter =>
      refine .arrive fun hpc => ⟨rfl, fun hfree => ?_⟩
      rw [if_pos hfree] at hpc
      cases hpc
  | read | wake => exact h.test _
  | receive _ hfree =>
      refine .arrive fun hpc => ?_
      obtain ⟨rest, hreleasing⟩ := h.handler hpc
      cases hfree.symm.trans hreleasing
  | visit hreleasing =>
      rw [BarrierState.master_sendRelease]
      refine ⟨nofun, fun hpc => ?_⟩
      obtain ⟨rest, happ⟩ := h.handler hpc
      cases hreleasing.symm.trans happ
      exact ⟨_, rfl⟩
  | @reset thread hreleasing =>
      refine ⟨fun _ => Nat.succ_pos _, fun hpc => ?_⟩
      cases thread with
      | app => cases hpc
      | tcp =>
          dsimp only [BarrierState.setMaster, BarrierMaster.reset] at hpc
          split at hpc
          · cases hpc
          · cases hpc
          · obtain ⟨rest, happ⟩ := h.handler hpc
            cases hreleasing.symm.trans happ

theorem settled_of_run (n : ℕ) : (r.state n).master.Settled cl := by
  induction n with
  | zero =>
      rw [show r.state 0 = .initial from r.start]
      exact ⟨fun _ => Nat.succ_pos _, nofun⟩
  | succ n ih =>
      rcases barrierMaster_step r n with ⟨a, -, heffect⟩ | ⟨-, hsame⟩
      · exact ih.step heffect
      · rwa [hsame]

end Run

end Dsm
