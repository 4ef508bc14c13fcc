import Dsm.Sync.BarrierSteps

/-!
# Every barrier opens

What `dsm_barrier` is for: a barrier that every node has called lets every node go. The arrivals that
are counted for a node are sent, received and recorded one after the other, so the barrier fills up;
the last arrival starts the release loop, and its end completes the barrier. A thread that is behind
the completed barriers then returns, unless it has begun to wait too late. `barriers_open_iff` says so
in both directions, for every run under a fair scheduler: all barriers open exactly if every wait
begins in time.
-/

namespace Dsm

/-! ### Fair runs -/

/-- The thread does not wait for anything but the mutex. -/
def BarrierWorkerPc.runs : BarrierWorkerPc → Bool
  | .send | .lock | .woken => true
  | .idle | .waiting => false

@[inherit_doc BarrierWorkerPc.runs]
def BarrierMasterPc.runs : BarrierMasterPc → Bool
  | .enter | .read | .woken _ => true
  | .idle | .inHandler | .waiting _ => false

/-- The application thread goes on in its call. -/
def BarrierWorkerAction.moves : BarrierWorkerAction → Bool
  | .send | .wait | .ret => true
  | .call | .receive => false

@[inherit_doc BarrierWorkerAction.moves]
def BarrierMasterAction.moves : BarrierMasterAction → Bool
  | .enter | .read | .wake => true
  | .call | .receive _ | .visit | .reset => false

def BarrierAction.movesWorker (w : NodeId) : Option BarrierAction → Bool
  | some (.worker i a) => i == w && a.moves
  | _ => false

def BarrierAction.movesMaster : Option BarrierAction → Bool
  | some (.master a) => a.moves
  | _ => false

/-- The thread in the release loop goes on. -/
def BarrierAction.releases : Option BarrierAction → Bool
  | some (.master .visit) | some (.master .reset) => true
  | _ => false

/-- Every thread that can go on does so, and every message is taken up. -/
structure BarrierFair (cl : Cluster) (r : (barrierMachine cl).idling.Run) : Prop where
  worker : ∀ w ∈ cl.workers, ∀ n, ((r.state n).worker w).pc.runs = true →
    ∃ m, n ≤ m ∧ BarrierAction.movesWorker w (r.act m) = true
  workerTcp : ∀ w ∈ cl.workers, ∀ n, ((r.state n).worker w).toWorker ≠ 0 →
    ∃ m, n ≤ m ∧ r.act m = some (.worker w .receive)
  master : ∀ n, (r.state n).master.pc.runs = true →
    ∃ m, n ≤ m ∧ BarrierAction.movesMaster (r.act m) = true
  connection : ∀ w ∈ cl.workers, ∀ n, ((r.state n).worker w).toMaster ≠ [] →
    ∃ m, n ≤ m ∧ r.act m = some (.master (.receive w))
  handler : ∀ n, (r.state n).master.releasing.isSome = true →
    ∃ m, n ≤ m ∧ BarrierAction.releases (r.act m) = true

/-- Every node has called its `k`-th barrier. -/
def BarrierState.AllCalled (cl : Cluster) (k : Nat) (s : BarrierState) : Prop :=
  ∀ i ∈ cl.nodes, k ≤ s.calls i

/-- Every node has returned from its `k`-th barrier. -/
def BarrierState.AllReturned (cl : Cluster) (k : Nat) (s : BarrierState) : Prop :=
  ∀ i ∈ cl.nodes, k ≤ s.rets i

instance (s : BarrierState) : DecidablePred (BarrierAction.WaitsInTime s)
  | .worker w .wait => inferInstanceAs (Decidable (¬ s.ReleaseHandled w))
  | .worker _ .call | .worker _ .send | .worker _ .receive | .worker _ .ret | .master _ => .isTrue trivial

instance (s : BarrierState) : DecidablePred (BarrierAction.ReadsInTime s)
  | .master .read => inferInstanceAs (Decidable (_ ∨ _))
  | .master .call | .master .enter | .master .wake | .master (.receive _) | .master .visit
  | .master .reset | .worker _ _ => .isTrue trivial

/-- Each wait of the run begins before it would be too late. -/
def BarriersInTime (cl : Cluster) (r : (barrierMachine cl).idling.Run) : Prop :=
  ∀ n, ∀ a ∈ r.act n, a.WaitsInTime (r.state n) ∧ a.ReadsInTime (r.state n)

section Run

variable {cl : Cluster} {r : (barrierMachine cl).idling.Run}

/-! ### While every wait begins in time -/

theorem waits_of_run (htime : BarriersInTime cl r) (n : ℕ) : (r.state n).master.Waits := by
  induction n with
  | zero =>
      rw [show r.state 0 = .initial from r.start]
      exact .of_pc nofun nofun
  | succ n ih =>
      have hstep := r.step n
      cases hact : r.act n with
      | none =>
          rw [hact] at hstep
          have hsame : r.state n = r.state (n + 1) := Option.some.inj hstep
          rwa [← hsame]
      | some a =>
          rw [hact] at hstep
          exact ih.step (barrierInv_of_run r n) (htime n a hact).2 hstep

theorem releaseKept_of_run (htime : BarriersInTime cl r) {w : NodeId} (hw : w ∈ cl.workers) (n : ℕ) :
    ¬ (r.state n).ReleaseLost w := by
  induction n with
  | zero =>
      rw [show r.state 0 = .initial from r.start]
      rintro ⟨⟨⟩, -⟩
  | succ n ih =>
      have hstep := r.step n
      intro hlost
      cases hact : r.act n with
      | none =>
          rw [hact] at hstep
          have hsame : r.state n = r.state (n + 1) := Option.some.inj hstep
          exact ih (hsame ▸ hlost)
      | some a =>
          rw [hact] at hstep
          rcases (barrierInv_of_run r n).releaseLost_step hstep hw hlost with hold | ⟨rfl, hhandled⟩
          · exact ih hold
          · exact (htime n _ hact).1 hhandled

/-! ### The threads go on -/

/-- The thread of a worker that runs stays where it is until it goes on itself. -/
theorem BarrierWorker.Effect.moves_or_pc {w : NodeId} {n n' : BarrierWorker} {a : BarrierWorkerAction}
    (h : n.Effect w a n') (hruns : n.pc.runs = true) :
    a.moves = true ∨ a.moves = false ∧ n'.pc = n.pc := by
  cases h with
  | call hpc =>
      rw [hpc] at hruns
      cases hruns
  | send | wait | ret => exact .inl rfl
  | receive =>
      refine .inr ⟨rfl, if_neg fun hpc => ?_⟩
      rw [hpc] at hruns
      cases hruns

theorem leadsTo_of_barrierWorker (hfair : BarrierFair cl r) {w : NodeId} (hw : w ∈ cl.workers)
    {pc : BarrierWorkerPc} (hruns : pc.runs = true) {S Q : BarrierState → Prop} (hS : r.Stable S)
    (hmove : ∀ n a, r.act n = some (.worker w a) → a.moves = true →
      ((r.state n).worker w).Effect w a ((r.state (n + 1)).worker w) →
      ((r.state n).worker w).pc = pc → S (r.state n) → Q (r.state (n + 1))) :
    r.LeadsTo (fun s => (s.worker w).pc = pc ∧ S s) Q := by
  have hstep : ∀ n, ((r.state n).worker w).pc = pc → S (r.state n) →
      ((r.state (n + 1)).worker w).pc = pc ∧ BarrierAction.movesWorker w (r.act n) = false ∨
        Q (r.state (n + 1)) := by
    intro n hpc hSn
    rcases barrierWorker_step r w n with ⟨a, ha, -, heffect⟩ | ⟨hother, hsame⟩
    · rcases heffect.moves_or_pc (hpc ▸ hruns) with hmoves | ⟨hno, hkept⟩
      · exact .inr (hmove n a ha hmoves heffect hpc hSn)
      · refine .inl ⟨hkept.trans hpc, ?_⟩
        rw [ha, BarrierAction.movesWorker, hno, Bool.and_false]
    · refine .inl ⟨hsame.pc.trans hpc, ?_⟩
      unfold BarrierAction.movesWorker
      split
      · rename_i i a hact
        have hne : i ≠ w := fun heq => hother a (heq ▸ hact)
        rw [beq_false_of_ne hne, Bool.false_and]
      · rfl
  refine Machine.Run.leadsTo_of_unless (BarrierAction.movesWorker w · = true)
    (fun n hn => (hstep n hn.1 hn.2).imp_left fun hkept => ⟨hkept.1, hS n hn.2⟩)
    (fun n hn hact => ?_) fun n hn => hfair.worker w hw n (hn.1 ▸ hruns)
  refine (hstep n hn.1 hn.2).resolve_left fun hkept => ?_
  rw [hkept.2] at hact
  cases hact

/-- The thread of the master that runs stays where it is until it goes on itself. -/
theorem BarrierState.MasterEffect.moves_or_pc {s t : BarrierState} {a : BarrierMasterAction}
    (h : s.MasterEffect cl a t) (hinv : BarrierInv cl s) (hruns : s.master.pc.runs = true) :
    a.moves = true ∨ a.moves = false ∧ t.master.pc = s.master.pc := by
  cases h with
  | call hpc =>
      rw [hpc] at hruns
      cases hruns
  | enter | read | wake => exact .inl rfl
  | receive => exact .inr ⟨rfl, rfl⟩
  | visit => exact .inr ⟨rfl, by rw [BarrierState.master_sendRelease]; rfl⟩
  | @reset thread hreleasing =>
      refine .inr ⟨rfl, ?_⟩
      cases thread with
      | app =>
          rw [hinv.master.thread [] hreleasing] at hruns
          cases hruns
      | tcp =>
          cases hpc : s.master.pc with
          | idle | inHandler | waiting =>
              rw [hpc] at hruns
              cases hruns
          | enter | read | woken => simp [BarrierState.setMaster, BarrierMaster.reset, hpc]

theorem leadsTo_of_barrierMaster (hfair : BarrierFair cl r) {pc : BarrierMasterPc} (hruns : pc.runs = true)
    {S Q : BarrierState → Prop} (hS : r.Stable S)
    (hmove : ∀ n a, r.act n = some (.master a) → a.moves = true →
      (r.state n).MasterEffect cl a (r.state (n + 1)) →
      (r.state n).master.pc = pc → S (r.state n) → Q (r.state (n + 1))) :
    r.LeadsTo (fun s => s.master.pc = pc ∧ S s) Q := by
  have hstep : ∀ n, (r.state n).master.pc = pc → S (r.state n) →
      (r.state (n + 1)).master.pc = pc ∧ BarrierAction.movesMaster (r.act n) = false ∨
        Q (r.state (n + 1)) := by
    intro n hpc hSn
    rcases barrierMaster_step r n with ⟨a, ha, heffect⟩ | ⟨hother, hsame⟩
    · rcases heffect.moves_or_pc (barrierInv_of_run r n) (hpc ▸ hruns) with hmoves | ⟨hno, hkept⟩
      · exact .inr (hmove n a ha hmoves heffect hpc hSn)
      · exact .inl ⟨hkept.trans hpc, by rw [ha]; exact hno⟩
    · refine .inl ⟨by rw [hsame]; exact hpc, ?_⟩
      unfold BarrierAction.movesMaster
      split
      · rename_i a hact
        exact absurd hact (hother a)
      · rfl
  refine Machine.Run.leadsTo_of_unless (BarrierAction.movesMaster · = true)
    (fun n hn => (hstep n hn.1 hn.2).imp_left fun hkept => ⟨hkept.1, hS n hn.2⟩)
    (fun n hn hact => ?_) fun n hn => hfair.master n (hn.1 ▸ hruns)
  refine (hstep n hn.1 hn.2).resolve_left fun hkept => ?_
  rw [hkept.2] at hact
  cases hact

/-! ### The barrier fills up -/

/-- The arrival of `i` at the barrier after the first `c` is recorded, or that barrier is complete. -/
def BarrierState.Arrived (c : Nat) (i : NodeId) (s : BarrierState) : Prop :=
  c < s.master.completed ∨ i ∈ s.master.barrier.arrived ∧ c ≤ s.master.completed

theorem stable_arrived (c : Nat) (i : NodeId) : r.Stable (BarrierState.Arrived c i) := by
  rintro n (hlt | ⟨hmem, hle⟩)
  · exact .inl (stable_completed r (c + 1) n hlt)
  · rcases barrierMaster_step r n with ⟨a, -, heffect⟩ | ⟨-, hsame⟩
    · generalize r.state (n + 1) = t at heffect ⊢
      cases heffect with
      | call => exact .inr ⟨hmem, hle⟩
      | enter | receive => exact .inr ⟨List.mem_append_left _ hmem, hle⟩
      | read | wake =>
          refine .inr ?_
          simp only [BarrierState.setMaster, BarrierMaster.test]
          split <;> exact ⟨hmem, hle⟩
      | visit =>
          refine .inr ?_
          rw [BarrierState.master_sendRelease]
          exact ⟨hmem, hle⟩
      | reset => exact .inl (Nat.lt_succ_of_le hle)
    · refine .inr ?_
      rw [hsame]
      exact ⟨hmem, hle⟩

theorem barrier_toMaster_step (w : NodeId) (n : ℕ) :
    (∃ new, ((r.state (n + 1)).worker w).toMaster = ((r.state n).worker w).toMaster ++ new) ∧
        r.act n ≠ some (.master (.receive w)) ∨
      r.act n = some (.master (.receive w)) ∧ ∃ srcNode,
        ((r.state n).worker w).toMaster = srcNode :: ((r.state (n + 1)).worker w).toMaster := by
  rcases barrierWorker_step r w n with ⟨a, ha, -, heffect⟩ | ⟨-, hsame⟩
  · refine .inl ⟨?_, by rw [ha]; nofun⟩
    generalize (r.state (n + 1)).worker w = n' at heffect ⊢
    cases heffect with
    | send => exact ⟨_, rfl⟩
    | _ => exact ⟨[], (List.append_nil _).symm⟩
  · refine hsame.toMaster.imp_left fun hkept => ⟨⟨[], ?_⟩, hkept.2⟩
    rw [hkept.1, List.append_nil]

theorem leadsTo_arrived_of_sent (hfair : BarrierFair cl r) {w : NodeId} (hw : w ∈ cl.workers) :
    r.LeadsTo (fun s => w ∈ (s.worker w).toMaster) (fun s => w ∈ s.master.barrier.arrived) := by
  refine Machine.Run.leadsTo_of_channel (fun s : BarrierState => (s.worker w).toMaster) w
    (fun a => a = some (BarrierAction.master (.receive w))) (fun n => ?_) (fun n htaken => ?_)
    fun n => hfair.connection w hw n
  · exact (barrier_toMaster_step w n).imp_right And.right
  · have hreceive : r.act n = some (.master (.receive w)) := by
      refine ((barrier_toMaster_step w n).resolve_left ?_).1
      rintro ⟨⟨new, hnew⟩, -⟩
      have hlen := congrArg List.length htaken
      rw [hnew, List.length_cons, List.length_append] at hlen
      omega
    rcases barrierMaster_step r n with ⟨a, ha, heffect⟩ | ⟨hother, -⟩
    · cases ha.symm.trans hreceive
      generalize r.state (n + 1) = t at heffect ⊢
      cases heffect with
      | @receive _ srcNode rest _ _ hhead =>
          have hsource := ((barrierInv_of_run r n).link w hw).source srcNode
            (by rw [hhead]; exact List.mem_cons_self)
          exact List.mem_append_right _ (List.mem_singleton.mpr hsource.symm)
    · exact absurd hreceive (hother _)

theorem leadsTo_sent_of_send (hfair : BarrierFair cl r) {w : NodeId} (hw : w ∈ cl.workers) :
    r.LeadsTo (fun s => (s.worker w).pc = .send ∧ True) (fun s => w ∈ (s.worker w).toMaster) := by
  refine leadsTo_of_barrierWorker hfair hw rfl (fun _ _ => trivial) fun n a _ hmoves heffect hpc _ => ?_
  generalize (r.state (n + 1)).worker w = n' at heffect ⊢
  cases heffect with
  | send => exact List.mem_append_right _ List.mem_cons_self
  | call hpc' | wait hpc' | ret hpc' => cases hpc.symm.trans hpc'
  | receive => cases hmoves

theorem leadsTo_arrived_of_enter (hfair : BarrierFair cl r) :
    r.LeadsTo (fun s => s.master.pc = .enter ∧ True)
      (fun s => masterId ∈ s.master.barrier.arrived) := by
  refine leadsTo_of_barrierMaster hfair rfl (fun _ _ => trivial) fun n a _ hmoves heffect hpc _ => ?_
  generalize r.state (n + 1) = t at heffect ⊢
  cases heffect with
  | enter => exact List.mem_append_right _ List.mem_cons_self
  | call hpc' | read hpc' | wake hpc' => cases hpc.symm.trans hpc'
  | receive | visit | reset => cases hmoves

theorem leadsTo_arrived (hfair : BarrierFair cl r) {i : NodeId} (hi : i ∈ cl.nodes) (c : Nat) :
    r.LeadsTo (fun s => c < s.calls i ∧ c ≤ s.master.completed) (BarrierState.Arrived c i) := by
  rintro n ⟨hcalls, hle⟩
  by_cases hcomplete : c < (r.state n).master.completed
  · exact ⟨n, Nat.le_refl n, .inl hcomplete⟩
  have hrecorded : ∀ {P : BarrierState → Prop}, r.LeadsTo P (fun s => i ∈ s.master.barrier.arrived) →
      P (r.state n) → ∃ m, n ≤ m ∧ BarrierState.Arrived c i (r.state m) := by
    intro P hleads hP
    obtain ⟨m, hnm, hm⟩ := (hleads.and_stable (stable_completed r c)) n ⟨hP, hle⟩
    exact ⟨m, hnm, .inr hm⟩
  by_cases hmem : i ∈ (r.state n).master.barrier.arrived
  · exact ⟨n, Nat.le_refl n, .inr ⟨hmem, hle⟩⟩
  have hinv := barrierInv_of_run r n
  have hcount : (r.state n).master.barrier.arrived.count i = 0 := List.count_eq_zero.mpr hmem
  rcases List.mem_cons.mp hi with rfl | hw
  · have harrivals := hinv.master.arrivals
    rw [BarrierState.calls, if_pos rfl] at hcalls
    have henter : (r.state n).master.pc = .enter := by
      by_contra hpc
      rw [if_neg hpc] at harrivals
      omega
    exact hrecorded (leadsTo_arrived_of_enter hfair) ⟨henter, trivial⟩
  · have harrivals := (hinv.link i hw).arrivals
    rw [BarrierState.calls, if_neg (Cluster.ne_masterId hw)] at hcalls
    by_cases hsent : i ∈ ((r.state n).worker i).toMaster
    · exact hrecorded (leadsTo_arrived_of_sent hfair hw) hsent
    · have hsend : ((r.state n).worker i).pc = .send := by
        by_contra hpc
        rw [if_neg hpc, List.count_eq_zero.mpr hsent] at harrivals
        omega
      exact hrecorded ((leadsTo_sent_of_send hfair hw).trans (leadsTo_arrived_of_sent hfair hw))
        ⟨hsend, trivial⟩

/-! ### The full barrier is released -/

theorem leadsTo_completed_of_releasing (hfair : BarrierFair cl r) (c : Nat) :
    r.LeadsTo (fun s => s.master.releasing.isSome = true ∧ c ≤ s.master.completed)
      (fun s => c < s.master.completed) := by
  refine Machine.Run.LeadsTo.of_measure (fun s => (s.master.releasing.map (·.2.length)).getD 0)
    fun k => ?_
  have hstep : ∀ n, (r.state n).master.releasing.isSome = true → c ≤ (r.state n).master.completed →
      (r.state (n + 1)).master.releasing = (r.state n).master.releasing ∧
          BarrierAction.releases (r.act n) = false ∨
        (∃ thread node rest, (r.state n).master.releasing = some (thread, node :: rest) ∧
          (r.state (n + 1)).master.releasing = some (thread, rest)) ∨
        c < (r.state (n + 1)).master.completed := by
    intro n hsome hle
    rcases barrierMaster_step r n with ⟨a, ha, heffect⟩ | ⟨hother, hsame⟩
    · rw [ha]
      generalize r.state (n + 1) = t at heffect ⊢
      cases heffect with
      | call => exact .inl ⟨rfl, rfl⟩
      | enter _ hfree | read _ hfree | wake _ hfree | receive _ hfree =>
          rw [hfree] at hsome
          cases hsome
      | visit hreleasing =>
          rw [BarrierState.master_sendRelease]
          exact .inr (.inl ⟨_, _, _, hreleasing, rfl⟩)
      | reset => exact .inr (.inr (Nat.lt_succ_of_le hle))
    · refine .inl ⟨by rw [hsame], ?_⟩
      unfold BarrierAction.releases
      split
      · rename_i hact
        exact absurd hact (hother _)
      · rename_i hact
        exact absurd hact (hother _)
      · rfl
  have hdown : ∀ n, (∃ thread node rest, (r.state n).master.releasing = some (thread, node :: rest) ∧
        (r.state (n + 1)).master.releasing = some (thread, rest)) →
      c ≤ (r.state n).master.completed →
      ((r.state n).master.releasing.map (·.2.length)).getD 0 = k →
      ((r.state (n + 1)).master.releasing.isSome = true ∧ c ≤ (r.state (n + 1)).master.completed) ∧
        ((r.state (n + 1)).master.releasing.map (·.2.length)).getD 0 < k := by
    rintro n ⟨thread, node, rest, hold, hnew⟩ hle hk
    refine ⟨⟨by rw [hnew]; rfl, stable_completed r c n hle⟩, ?_⟩
    rw [hold] at hk
    rw [hnew, ← hk]
    exact Nat.lt_succ_self _
  refine Machine.Run.leadsTo_of_unless (BarrierAction.releases · = true) ?_ ?_
    fun n hn => hfair.handler n hn.1.1
  · rintro n ⟨⟨hsome, hle⟩, hk⟩
    rcases hstep n hsome hle with ⟨hsame, -⟩ | hvisit | hdone
    · exact .inl ⟨⟨by rw [hsame]; exact hsome, stable_completed r c n hle⟩, by rw [hsame]; exact hk⟩
    · exact .inr (.inl (hdown n hvisit hle hk))
    · exact .inr (.inr hdone)
  · rintro n ⟨⟨hsome, hle⟩, hk⟩ hact
    rcases hstep n hsome hle with ⟨-, hno⟩ | hvisit | hdone
    · rw [hno] at hact
      cases hact
    · exact .inl (hdown n hvisit hle hk)
    · exact .inr hdone

theorem releasing_of_full {n : ℕ} (hfull : ∀ i ∈ cl.nodes, i ∈ (r.state n).master.barrier.arrived) :
    (r.state n).master.releasing.isSome = true := by
  rw [Option.isSome_iff_ne_none]
  intro hfree
  have hroom := (settled_of_run r n).room hfree
  have hnodup : cl.nodes.Nodup :=
    List.nodup_cons.mpr ⟨fun hmem => Cluster.ne_masterId hmem rfl, cl.nodup⟩
  have hle := (List.subperm_of_subset hnodup hfull).length_le
  omega

theorem leadsTo_completed_succ (hfair : BarrierFair cl r) (c : Nat) :
    r.LeadsTo (fun s => s.AllCalled cl (c + 1) ∧ c ≤ s.master.completed)
      (fun s => c < s.master.completed) := by
  have harrived : r.LeadsTo (fun s => s.AllCalled cl (c + 1) ∧ c ≤ s.master.completed)
      (fun s => ∀ i ∈ cl.nodes, BarrierState.Arrived c i s) :=
    Machine.Run.LeadsTo.forall_mem
      (fun i hi n hn => leadsTo_arrived hfair hi c n ⟨hn.1 i hi, hn.2⟩) fun i _ => stable_arrived c i
  refine harrived.trans fun n hn => ?_
  by_cases hcomplete : c < (r.state n).master.completed
  · exact ⟨n, Nat.le_refl n, hcomplete⟩
  have hfull : ∀ i ∈ cl.nodes, i ∈ (r.state n).master.barrier.arrived :=
    fun i hi => ((hn i hi).resolve_left hcomplete).1
  have hle := ((hn masterId List.mem_cons_self).resolve_left hcomplete).2
  exact leadsTo_completed_of_releasing hfair c n ⟨releasing_of_full hfull, hle⟩

theorem leadsTo_completed (hfair : BarrierFair cl r) (k : Nat) :
    r.LeadsTo (fun s => s.AllCalled cl k) (fun s => k ≤ s.master.completed) := by
  have hstable : r.Stable fun s => s.AllCalled cl k :=
    fun n hn i hi => stable_calls r i k n (hn i hi)
  refine Machine.Run.LeadsTo.of_measure (fun s => k - s.master.completed) fun d => ?_
  rintro n ⟨hcalled, hd⟩
  by_cases hdone : k ≤ (r.state n).master.completed
  · exact ⟨n, Nat.le_refl n, .inr hdone⟩
  have hnext := (leadsTo_completed_succ hfair (r.state n).master.completed).and_stable hstable
  obtain ⟨m, hnm, hlt, hm⟩ := hnext n
    ⟨⟨fun i hi => (Nat.lt_of_not_le hdone).trans_le (hcalled i hi), Nat.le_refl _⟩, hcalled⟩
  exact ⟨m, hnm, .inl ⟨hm, by omega⟩⟩

/-! ### The nodes return -/

/-- A node that is behind the completed barriers is in the call of the last one, and the next one has
not begun to open. -/
theorem BarrierInv.behind {s : BarrierState} (h : BarrierInv cl s) {i : NodeId} (hi : i ∈ cl.nodes)
    {k : Nat} (hcomplete : k ≤ s.master.completed) (hbehind : s.rets i < k) :
    s.calls i = s.master.completed ∧ s.calls i = s.rets i + 1 ∧ s.master.releasing = none := by
  have hdone := h.done_le_calls hi
  have hle : s.calls i ≤ s.rets i + 1 := by
    rcases List.mem_cons.mp hi with rfl | hw
    · have hcalls := h.master.calls
      rw [BarrierState.calls, BarrierState.rets, if_pos rfl, if_pos rfl]
      split at hcalls <;> omega
    · have hcalls := (h.link i hw).calls
      rw [BarrierState.calls, BarrierState.rets, if_neg (Cluster.ne_masterId hw),
        if_neg (Cluster.ne_masterId hw)]
      split at hcalls <;> omega
  unfold BarrierMaster.done at hdone
  cases hreleasing : s.master.releasing with
  | none => exact ⟨by omega, by omega, rfl⟩
  | some releasing =>
      rw [hreleasing] at hdone
      simp only [Option.isSome_some, if_true] at hdone
      omega

theorem leadsTo_rets_of_workerWoken (hfair : BarrierFair cl r) {w : NodeId} (hw : w ∈ cl.workers)
    (k : Nat) : r.LeadsTo (fun s => (s.worker w).pc = .woken ∧ k ≤ s.calls w)
      (fun s => k ≤ s.rets w) := by
  refine leadsTo_of_barrierWorker hfair hw rfl (stable_calls r w k) fun n a _ hmoves heffect hpc hk => ?_
  have hcalls := ((barrierInv_of_run r n).link w hw).calls
  rw [hpc, if_neg nofun] at hcalls
  rw [BarrierState.calls, if_neg (Cluster.ne_masterId hw)] at hk
  rw [BarrierState.rets, if_neg (Cluster.ne_masterId hw)]
  generalize (r.state (n + 1)).worker w = n' at heffect ⊢
  cases heffect with
  | ret => exact hk.trans hcalls.le
  | call hpc' | send hpc' | wait hpc' => cases hpc.symm.trans hpc'
  | receive => cases hmoves

theorem leadsTo_woken_of_sent (hfair : BarrierFair cl r) {w : NodeId} (hw : w ∈ cl.workers) (k : Nat) :
    r.LeadsTo (fun s => ((s.worker w).pc = .waiting ∧ (s.worker w).toWorker ≠ 0) ∧ k ≤ s.calls w)
      (fun s => (s.worker w).pc = .woken ∧ k ≤ s.calls w) := by
  refine Machine.Run.LeadsTo.and_stable ?_ (stable_calls r w k)
  have hstep : ∀ n, ((r.state n).worker w).pc = .waiting → ((r.state n).worker w).toWorker ≠ 0 →
      (((r.state (n + 1)).worker w).pc = .waiting ∧ ((r.state (n + 1)).worker w).toWorker ≠ 0) ∧
          r.act n ≠ some (.worker w .receive) ∨
        ((r.state (n + 1)).worker w).pc = .woken := by
    intro n hpc hsent
    rcases barrierWorker_step r w n with ⟨a, -, -, heffect⟩ | ⟨hother, hsame⟩
    · generalize (r.state (n + 1)).worker w = n' at heffect ⊢
      cases heffect with
      | receive => exact .inr (if_pos hpc)
      | call hpc' | send hpc' | wait hpc' | ret hpc' => cases hpc.symm.trans hpc'
    · refine .inl ⟨⟨hsame.pc.trans hpc, ?_⟩, hother _⟩
      have hle := hsame.toWorker
      omega
  exact Machine.Run.leadsTo_of_unless (· = some (.worker w .receive))
    (fun n hn => (hstep n hn.1 hn.2).imp_left And.left)
    (fun n hn hact => (hstep n hn.1 hn.2).resolve_left fun hkept => hkept.2 hact)
    fun n hn => hfair.workerTcp w hw n hn.2

theorem leadsTo_waiting_of_lock (hfair : BarrierFair cl r) {w : NodeId} (hw : w ∈ cl.workers)
    (k : Nat) : r.LeadsTo (fun s => (s.worker w).pc = .lock ∧ k ≤ s.master.completed)
      (fun s => (s.worker w).pc = .waiting ∧ k ≤ s.master.completed) := by
  refine leadsTo_of_barrierWorker hfair hw rfl (stable_completed r k) fun n a _ hmoves heffect hpc hk => ?_
  refine ⟨?_, stable_completed r k n hk⟩
  generalize (r.state (n + 1)).worker w = n' at heffect ⊢
  cases heffect with
  | wait => rfl
  | call hpc' | send hpc' | ret hpc' => cases hpc.symm.trans hpc'
  | receive => cases hmoves

theorem leadsTo_rets_of_worker (hfair : BarrierFair cl r) (htime : BarriersInTime cl r) {w : NodeId}
    (hw : w ∈ cl.workers) (k : Nat) :
    r.LeadsTo (fun s => k ≤ s.master.completed) (fun s => k ≤ s.rets w) := by
  have hwoken := leadsTo_rets_of_workerWoken hfair hw k
  have hsent := (leadsTo_woken_of_sent hfair hw k).trans hwoken
  have hwaiting : r.LeadsTo (fun s => (s.worker w).pc = .waiting ∧ k ≤ s.master.completed)
      (fun s => k ≤ s.rets w) := by
    rintro n ⟨hpc, hk⟩
    by_cases hrets : k ≤ (r.state n).rets w
    · exact ⟨n, Nat.le_refl n, hrets⟩
    obtain ⟨hcalls, -, hfree⟩ := (barrierInv_of_run r n).behind (List.mem_cons_of_mem _ hw) hk
      (Nat.lt_of_not_le hrets)
    refine hsent n ⟨⟨hpc, fun hempty => ?_⟩, hcalls ▸ hk⟩
    refine releaseKept_of_run htime hw n ⟨hpc, ?_, by rw [BarrierMaster.unsent, hfree], hempty⟩
    rw [BarrierState.calls, if_neg (Cluster.ne_masterId hw)] at hcalls
    rw [hcalls, BarrierMaster.done_of_free hfree]
  intro n hk
  by_cases hrets : k ≤ (r.state n).rets w
  · exact ⟨n, Nat.le_refl n, hrets⟩
  have hinv := barrierInv_of_run r n
  obtain ⟨hcalls, hsucc, -⟩ := hinv.behind (List.mem_cons_of_mem _ hw) hk (Nat.lt_of_not_le hrets)
  have hkcalls : k ≤ (r.state n).calls w := hcalls ▸ hk
  have harrivals := (hinv.link w hw).arrivals
  have hlinkCalls := (hinv.link w hw).calls
  rw [BarrierState.calls, if_neg (Cluster.ne_masterId hw)] at hcalls hsucc
  rw [BarrierState.rets, if_neg (Cluster.ne_masterId hw)] at hsucc
  cases hpc : ((r.state n).worker w).pc with
  | idle =>
      rw [hpc, if_pos rfl] at hlinkCalls
      omega
  | send =>
      rw [hpc, if_pos rfl] at harrivals
      omega
  | lock => exact ((leadsTo_waiting_of_lock hfair hw k).trans hwaiting) n ⟨hpc, hk⟩
  | waiting => exact hwaiting n ⟨hpc, hk⟩
  | woken => exact hwoken n ⟨hpc, hkcalls⟩

/-- A thread of the master that looks at the barrier id after its barrier has completed goes on. -/
theorem BarrierMaster.test_rets {m : BarrierMaster} {currentId : Nat}
    (hleave : m.barrier.barrierId ≠ currentId ∨ m.barrier.arrived = []) :
    (m.test currentId).rets = m.rets + 1 := by
  unfold BarrierMaster.test
  split
  · rename_i hwait
    rcases hleave with hne | hempty
    · exact absurd hwait.1 hne
    · rw [hempty] at hwait
      exact absurd hwait.2 (Nat.lt_irrefl 0)
  · rfl

theorem leadsTo_rets_of_masterRuns (hfair : BarrierFair cl r) (htime : BarriersInTime cl r)
    {pc : BarrierMasterPc} (hruns : pc.runs = true) (henter : pc ≠ .enter) (k : Nat) :
    r.LeadsTo (fun s => s.master.pc = pc ∧ k ≤ s.master.completed) (fun s => k ≤ s.rets masterId) := by
  refine leadsTo_of_barrierMaster hfair hruns (stable_completed r k) fun n a hact hmoves heffect hpc hk => ?_
  by_cases hrets : k ≤ (r.state n).rets masterId
  · exact stable_rets r masterId k n hrets
  have hinv := barrierInv_of_run r n
  have hwaits := waits_of_run htime n
  have hreads := (htime n _ hact).2
  obtain ⟨hcalls, hsucc, -⟩ := hinv.behind List.mem_cons_self hk (Nat.lt_of_not_le hrets)
  rw [BarrierState.calls, if_pos rfl] at hcalls hsucc
  rw [BarrierState.rets, if_pos rfl] at hsucc ⊢
  generalize r.state (n + 1) = t at heffect ⊢
  cases heffect with
  | call | receive | visit | reset => cases hmoves
  | enter hpc' => exact absurd (hpc.symm.trans hpc') henter
  | read =>
      have hempty := (show _ ∨ _ from hreads).resolve_left fun hlt => by omega
      change k ≤ ((r.state n).master.test _).rets
      rw [BarrierMaster.test_rets (.inr hempty)]
      omega
  | @wake currentId hpc' =>
      obtain ⟨-, hident⟩ := hwaits.woken currentId hpc'
      change k ≤ ((r.state n).master.test _).rets
      rw [BarrierMaster.test_rets (.inl (by rw [hinv.master.ident]; omega))]
      omega

theorem leadsTo_rets_of_masterThread (hfair : BarrierFair cl r) (htime : BarriersInTime cl r)
    (k : Nat) : r.LeadsTo (fun s => k ≤ s.master.completed) (fun s => k ≤ s.rets masterId) := by
  intro n hk
  by_cases hrets : k ≤ (r.state n).rets masterId
  · exact ⟨n, Nat.le_refl n, hrets⟩
  have hinv := barrierInv_of_run r n
  obtain ⟨hcalls, hsucc, hfree⟩ := hinv.behind List.mem_cons_self hk (Nat.lt_of_not_le hrets)
  have harrivals := hinv.master.arrivals
  have hmasterCalls := hinv.master.calls
  rw [BarrierState.calls, if_pos rfl] at hcalls hsucc
  rw [BarrierState.rets, if_pos rfl] at hsucc
  cases hpc : (r.state n).master.pc with
  | idle =>
      rw [hpc, if_pos rfl] at hmasterCalls
      omega
  | enter =>
      rw [hpc, if_pos rfl] at harrivals
      omega
  | inHandler =>
      obtain ⟨rest, hreleasing⟩ := (settled_of_run r n).handler hpc
      cases hfree.symm.trans hreleasing
  | waiting currentId =>
      have hown := ((waits_of_run htime n).waiting currentId hpc).1
      omega
  | read =>
      have hruns : BarrierMasterPc.read.runs = true := rfl
      have henter : BarrierMasterPc.read ≠ .enter := fun h => by cases h
      exact leadsTo_rets_of_masterRuns hfair htime hruns henter k n ⟨hpc, hk⟩
  | woken currentId =>
      have hruns : (BarrierMasterPc.woken currentId).runs = true := rfl
      have henter : BarrierMasterPc.woken currentId ≠ .enter := fun h => by cases h
      exact leadsTo_rets_of_masterRuns hfair htime hruns henter k n ⟨hpc, hk⟩

/-- While every wait begins in time, a barrier that every node has called lets every node go. -/
theorem leadsTo_allReturned (hfair : BarrierFair cl r) (htime : BarriersInTime cl r) (k : Nat) :
    r.LeadsTo (fun s => s.AllCalled cl k) (fun s => s.AllReturned cl k) := by
  refine (leadsTo_completed hfair k).trans ?_
  refine Machine.Run.LeadsTo.forall_mem (fun i hi => ?_) fun i _ => stable_rets r i k
  rcases List.mem_cons.mp hi with rfl | hw
  · exact leadsTo_rets_of_masterThread hfair htime k
  · exact leadsTo_rets_of_worker hfair htime hw k

/-! ### A wait that begins too late never ends -/

/-- Nothing is recorded or on its way for a worker whose release has been handled. -/
theorem BarrierInv.not_recorded {s : BarrierState} (h : BarrierInv cl s) {w : NodeId}
    (hw : w ∈ cl.workers) (hfree : s.master.releasing = none) (hhandled : s.ReleaseHandled w) :
    w ∉ s.master.barrier.arrived ∧ w ∉ (s.worker w).toMaster := by
  have harrivals := (h.link w hw).arrivals
  have hcalls := hhandled.1
  rw [BarrierMaster.done_of_free hfree] at hcalls
  exact ⟨List.count_eq_zero.mp (by omega), List.count_eq_zero.mp (by omega)⟩

theorem BarrierInv.arrive_free {s t : BarrierState} (ht : BarrierInv cl t) {w fromNode : NodeId}
    {thread : BarrierThread} {pc : BarrierMasterPc} (hw : w ∈ cl.workers)
    (hmaster : t.master = { s.master.arrive cl thread fromNode with pc := pc })
    (hnew : w ∉ s.master.barrier.arrived) (hne : fromNode ≠ w) :
    t.master.releasing = none := by
  rcases s.master.arrive_cases cl thread fromNode with ⟨-, hfree⟩ | hreleasing
  · rw [hmaster]
    exact hfree
  · have hmem := ht.master.mem_arrived (by rw [hmaster]; exact hreleasing ▸ rfl)
      (List.mem_cons_of_mem _ hw)
    rw [hmaster] at hmem
    rcases List.mem_append.mp hmem with hold | hold
    · exact absurd hold hnew
    · exact absurd (List.mem_singleton.mp hold).symm hne

theorem BarrierMaster.test_releases (m : BarrierMaster) (currentId : Nat) (w : NodeId) :
    (m.test currentId).unsent w = m.unsent w ∧ (m.test currentId).done = m.done := by
  obtain ⟨hreleasing, hcompleted⟩ := m.test_frame currentId
  rw [BarrierMaster.unsent, BarrierMaster.done, hreleasing, hcompleted]
  exact ⟨rfl, rfl⟩

/-- The master sends no second release to a worker that waits for a lost one. -/
theorem BarrierState.ReleaseHandled.masterStep {s t : BarrierState} {w : NodeId}
    {a : BarrierMasterAction} (hhandled : s.ReleaseHandled w) (h : BarrierInv cl s)
    (ht : BarrierInv cl t) (hw : w ∈ cl.workers) (heffect : s.MasterEffect cl a t) :
    t.master.unsent w = 0 ∧ s.master.done ≤ t.master.done ∧ t.worker w = s.worker w := by
  have hunsent := hhandled.2.1
  cases heffect with
  | call => exact ⟨hunsent, Nat.le_refl _, rfl⟩
  | read | wake =>
      have hkept := s.master.test_releases
      exact ⟨(hkept _ w).1.trans hunsent, (hkept _ w).2.ge, rfl⟩
  | enter _ hfree =>
      obtain ⟨hnew, -⟩ := h.not_recorded hw hfree hhandled
      have hnone := ht.arrive_free hw rfl hnew (Cluster.ne_masterId hw).symm
      rw [BarrierMaster.done_of_free hfree, BarrierMaster.done_of_free hnone, BarrierMaster.unsent, hnone]
      exact ⟨rfl, Nat.le_refl _, rfl⟩
  | @receive i srcNode rest hi hfree hhead =>
      obtain ⟨hnew, hquiet⟩ := h.not_recorded hw hfree hhandled
      have hsource := (h.link i hi).source srcNode (by rw [hhead]; exact List.mem_cons_self)
      have hne : i ≠ w := by
        rintro rfl
        rw [hhead, hsource] at hquiet
        exact hquiet List.mem_cons_self
      have hnone := ht.arrive_free hw rfl hnew (hsource.trans_ne hne)
      rw [BarrierMaster.done_of_free hfree, BarrierMaster.done_of_free hnone, BarrierMaster.unsent, hnone]
      exact ⟨rfl, Nat.le_refl _, Function.update_of_ne hne.symm ..⟩
  | @visit thread node rest hreleasing =>
      simp only [BarrierMaster.unsent, hreleasing, List.count_eq_zero, List.mem_cons, not_or] at hunsent
      have hworker := BarrierState.worker_sendRelease
        (s.setMaster { s.master with releasing := some (thread, rest) }) node w
      rw [if_neg fun hand => hunsent.1 hand.1.symm] at hworker
      rw [BarrierState.master_sendRelease]
      refine ⟨List.count_eq_zero.mpr hunsent.2, ?_, hworker⟩
      simp [BarrierState.setMaster, BarrierMaster.done, hreleasing]
  | reset hreleasing =>
      refine ⟨rfl, ?_, rfl⟩
      simp [BarrierState.setMaster, BarrierMaster.reset, BarrierMaster.done, hreleasing]

theorem BarrierState.ReleaseLost.step {s t : BarrierState} {w : NodeId} {a : BarrierAction}
    (hlost : s.ReleaseLost w) (h : BarrierInv cl s) (hw : w ∈ cl.workers)
    (hstep : s.step cl a = some t) :
    t.ReleaseLost w ∧ (t.worker w).calls = (s.worker w).calls := by
  obtain ⟨hpc, hhandled⟩ := hlost
  have ht := h.step hstep
  cases a with
  | master a =>
      obtain ⟨hunsent, hdone, hworker⟩ :=
        hhandled.masterStep h ht hw (BarrierState.masterStep_effect hstep)
      refine ⟨⟨hworker ▸ hpc, ?_, hunsent, hworker ▸ hhandled.2.2⟩, by rw [hworker]⟩
      rw [hworker]
      exact hhandled.1.trans hdone
  | worker i a =>
      simp only [BarrierState.step, Option.ite_none_right_eq_some, Option.map_eq_some_iff] at hstep
      obtain ⟨-, n, hn, rfl⟩ := hstep
      by_cases heq : w = i
      · subst heq
        cases BarrierWorker.step_effect hn with
        | receive hrest => cases hhandled.2.2.symm.trans hrest
        | call hpc' | send hpc' | wait hpc' | ret hpc' => cases hpc.symm.trans hpc'
      · have hworker : ((s.setWorker i n).worker w) = s.worker w := Function.update_of_ne heq ..
        refine ⟨⟨by rw [hworker]; exact hpc, ?_⟩, by rw [hworker]⟩
        rw [BarrierState.ReleaseHandled, hworker]
        exact hhandled

theorem BarrierState.WaitsForLater.step {s t : BarrierState} {a : BarrierAction}
    (hlater : s.WaitsForLater) (h : BarrierInv cl s) (hstep : s.step cl a = some t) :
    t.WaitsForLater ∧ t.master.calls = s.master.calls := by
  obtain ⟨⟨currentId, hpc⟩, hcomplete⟩ := hlater
  cases a with
  | worker i a =>
      simp only [BarrierState.step, Option.ite_none_right_eq_some, Option.map_eq_some_iff] at hstep
      obtain ⟨-, n, -, rfl⟩ := hstep
      exact ⟨⟨⟨currentId, hpc⟩, hcomplete⟩, rfl⟩
  | master a =>
      cases BarrierState.masterStep_effect hstep with
      | call hpc' | enter hpc' | read hpc' | wake hpc' => cases hpc.symm.trans hpc'
      | receive => exact ⟨⟨⟨currentId, hpc⟩, hcomplete⟩, rfl⟩
      | visit =>
          rw [BarrierState.WaitsForLater, BarrierState.master_sendRelease]
          exact ⟨⟨⟨currentId, hpc⟩, hcomplete⟩, rfl⟩
      | reset hreleasing =>
          have hone := h.master.count_arrived (by rw [hreleasing]; rfl) (List.mem_cons_self)
          have harrivals := h.master.arrivals
          omega

/-- A node that has stopped in the call of a barrier that is opening leaves that barrier closed. -/
theorem not_leadsTo_of_stuck {i : NodeId} (hi : i ∈ cl.nodes) {P : BarrierState → Prop}
    {n k : Nat} (hcalls : k ≤ (r.state n).master.done) (hP : P (r.state n)) (hstable : r.Stable P)
    (hstuck : ∀ m, P (r.state m) → (r.state m).rets i < k) :
    ¬ r.LeadsTo (fun s => s.AllCalled cl k) (fun s => s.AllReturned cl k) := by
  intro hleads
  have hinv := barrierInv_of_run r n
  obtain ⟨m, hnm, hreturned⟩ := hleads n fun j hj => hcalls.trans (hinv.done_le_calls hj)
  exact Nat.not_lt.mpr (hreturned i hi) (hstuck m (hstable.lasts hP hnm))

theorem not_leadsTo_of_releaseLost {w : NodeId} (hw : w ∈ cl.workers) {n : ℕ}
    (hlost : (r.state n).ReleaseLost w) : ∃ k,
    ¬ r.LeadsTo (fun s => s.AllCalled cl k) (fun s => s.AllReturned cl k) := by
  let k := ((r.state n).worker w).calls
  have hstable : r.Stable fun s => s.ReleaseLost w ∧ (s.worker w).calls = k :=
    Machine.Run.stable_of_step fun s a t hreach hstep hP =>
      (hP.1.step (.of_reachable hreach) hw hstep).imp_right (·.trans hP.2)
  refine ⟨k, not_leadsTo_of_stuck (List.mem_cons_of_mem _ hw) hlost.2.1 ⟨hlost, rfl⟩ hstable ?_⟩
  rintro m ⟨⟨hpc, -⟩, hk⟩
  have hcalls := ((barrierInv_of_run r m).link w hw).calls
  rw [hpc, if_neg nofun] at hcalls
  rw [BarrierState.rets, if_neg (Cluster.ne_masterId hw)]
  omega

theorem not_leadsTo_of_waitsForLater {n : ℕ} (hlater : (r.state n).WaitsForLater) : ∃ k,
    ¬ r.LeadsTo (fun s => s.AllCalled cl k) (fun s => s.AllReturned cl k) := by
  let k := (r.state n).master.calls
  have hstable : r.Stable fun s => s.WaitsForLater ∧ s.master.calls = k :=
    Machine.Run.stable_of_step fun s a t hreach hstep hP =>
      (hP.1.step (.of_reachable hreach) hstep).imp_right (·.trans hP.2)
  have hdone : k ≤ (r.state n).master.done := hlater.2.trans (Nat.le_add_right _ _)
  refine ⟨k, not_leadsTo_of_stuck List.mem_cons_self hdone ⟨hlater, rfl⟩ hstable ?_⟩
  rintro m ⟨⟨⟨currentId, hpc⟩, -⟩, hk⟩
  have hcalls := (barrierInv_of_run r m).master.calls
  rw [hpc, if_neg nofun] at hcalls
  rw [BarrierState.rets, if_pos rfl]
  omega

theorem barriersInTime_of_open
    (hopen : ∀ k, r.LeadsTo (fun s => s.AllCalled cl k) (fun s => s.AllReturned cl k)) :
    BarriersInTime cl r := by
  intro n a hact
  have hstep := r.step n
  rw [show r.act n = some a from hact] at hstep
  change (r.state n).step cl a = _ at hstep
  constructor
  · by_contra hlate
    unfold BarrierAction.WaitsInTime at hlate
    split at hlate
    · obtain ⟨hw, hlost⟩ := BarrierState.releaseLost_of_wait hstep (not_not.mp hlate)
      obtain ⟨k, hclosed⟩ := not_leadsTo_of_releaseLost hw hlost
      exact hclosed (hopen k)
    · exact hlate trivial
  · by_contra hlate
    unfold BarrierAction.ReadsInTime at hlate
    split at hlate
    · obtain ⟨k, hclosed⟩ :=
        not_leadsTo_of_waitsForLater (BarrierState.waitsForLater_of_read hstep hlate)
      exact hclosed (hopen k)
    · exact hlate trivial

/-- Under a fair scheduler every barrier that every node has called lets every node go, exactly if no
worker calls `pthread_cond_wait` after its release has been handled, and the master never reads
`barrier_id` after its barrier has completed and somebody has entered the next. -/
theorem barriers_open_iff (hfair : BarrierFair cl r) :
    (∀ k, r.LeadsTo (fun s => s.AllCalled cl k) (fun s => s.AllReturned cl k)) ↔
      BarriersInTime cl r :=
  ⟨barriersInTime_of_open, fun htime k => leadsTo_allReturned hfair htime k⟩

end Run

/-- The run of one barrier, `barrierRun`, goes on for ever with no more calls. -/
theorem barriers_open_iff_one_worker : ∃ r : (barrierMachine oneWorker).idling.Run,
    BarrierFair oneWorker r ∧ (∃ n, (r.state n).AllCalled oneWorker 1) ∧
      ∀ k, r.LeadsTo (fun s => s.AllCalled oneWorker k) (fun s => s.AllReturned oneWorker k) := by
  have hrun : ((barrierMachine oneWorker).exec .initial barrierRun).isSome := by decide
  obtain ⟨t, ht⟩ := Option.isSome_iff_exists.mp hrun
  let M := (barrierMachine oneWorker).idling
  have hexec : M.exec .initial (barrierRun.map some) = some t := by
    rw [Machine.exec_idling]
    exact ht
  have hidle : M.step t none = some t := rfl
  let r : M.Run := Machine.Run.ofExec rfl hexec hidle
  have hserved : ∀ (waiting : BarrierState → Bool) (serves : Option BarrierAction → Bool),
      M.answered waiting serves .initial (barrierRun.map some) = true →
      ∀ n, waiting (r.state n) = true → ∃ m, n ≤ m ∧ serves (r.act m) = true :=
    fun _ _ h => Machine.Run.ofExec_answered rfl hexec hidle h
  have hacts : ∀ (waiting : BarrierState → Bool) (a : BarrierAction),
      M.answered waiting (· == some a) .initial (barrierRun.map some) = true →
      ∀ n, waiting (r.state n) = true → ∃ m, n ≤ m ∧ r.act m = some a :=
    fun waiting a h n hn => (hserved waiting _ h n hn).imp fun _ hm => ⟨hm.1, beq_iff_eq.mp hm.2⟩
  have hone : ∀ w ∈ oneWorker.workers, w = 2 := by decide
  have hfair : BarrierFair oneWorker r := by
    refine ⟨fun w hw => ?_, fun w hw n hn => ?_, ?_, fun w hw n hn => ?_, ?_⟩
    · obtain rfl := hone w hw
      exact hserved (fun s => (s.worker 2).pc.runs) _ (by decide)
    · obtain rfl := hone w hw
      exact hacts (fun s => (s.worker 2).toWorker ≠ 0) _ (by decide) n (decide_eq_true hn)
    · exact hserved (fun s => s.master.pc.runs) _ (by decide)
    · obtain rfl := hone w hw
      exact hacts (fun s => (s.worker 2).toMaster ≠ []) _ (by decide) n (decide_eq_true hn)
    · exact hserved (fun s => s.master.releasing.isSome) _ (by decide)
  have htime : BarriersInTime oneWorker r := by
    have hchecks : M.checks (fun s a => ∀ b ∈ a, b.WaitsInTime s ∧ b.ReadsInTime s) .initial
        (barrierRun.map some) = true := by decide
    exact Machine.Run.ofExec_each rfl hexec hidle (Machine.eachStep_of_checks hchecks) nofun
  have hcalled : ∃ n, (r.state n).AllCalled oneWorker 1 := by
    have hcalls : (M.exec .initial ((barrierRun.map some).take 5)).any
        (fun s => decide (∀ i ∈ oneWorker.nodes, 1 ≤ s.calls i)) = true := by decide
    obtain ⟨u, hu, hcalls⟩ := (Option.any_eq_true ..).mp hcalls
    refine ⟨5, ?_⟩
    rw [show r.state 5 = u from Machine.Run.ofExec_state rfl hexec hidle hu]
    rw [BarrierState.AllCalled]
    exact of_decide_eq_true hcalls
  exact ⟨r, hfair, hcalled, (barriers_open_iff hfair).mpr htime⟩

end Dsm
