import Dsm.Library.Fairness
import Dsm.Sync.LockQueue

/-!
# Every request is granted

What `dsm_lock` is for: a worker that calls it gets the lock. The token of the safety proof says where
the turn of a node is, and each place leads to the next one: a grant that is decided is sent, received
and found by the thread that waits for it, and a release that is sent is handled. A worker in the queue
moves up whenever the holder's turn ends, and no later request overtakes it, so in the end it is the
holder (`lock_returns`). A thread of a worker never sleeps with the grant in its record, since the
grant is stored and signalled under the mutex under which the thread has tested the record.

The scheduler is fair, messages arrive, and whoever has the lock gives it back.
-/

namespace Dsm

/-- The thread does not wait for anything. -/
def WorkerPc.runs : WorkerPc → Bool
  | .idle | .sleep _ false => false
  | _ => true

@[inherit_doc WorkerPc.runs]
def MasterPc.runs : MasterPc → Bool
  | .idle | .sleep _ false => false
  | _ => true

/-- The application thread goes on in its call. -/
def WorkerAction.moves : WorkerAction → Bool
  | .request | .test | .wake | .spurious | .release | .clear => true
  | .lock _ | .unlock _ | .receive => false

@[inherit_doc WorkerAction.moves]
def MasterAction.moves : MasterAction → Bool
  | .test | .wake | .spurious | .release | .grant | .signal => true
  | .lock _ | .unlock _ | .receive _ | .tcpGrant => false

def LockAction.movesWorker (w : NodeId) : Option LockAction → Bool
  | some (.worker i a) => i == w && a.moves
  | _ => false

def LockAction.movesMaster : Option LockAction → Bool
  | some (.master a) => a.moves
  | _ => false

/-- Node `i` calls `dsm_unlock(l)`. -/
def LockAction.unlockBy (i : NodeId) (l : LockId) : LockAction :=
  if i = masterId then .master (.unlock l) else .worker i (.unlock l)

/-- Every thread that can go on does so, and every message and every decided grant is taken up. -/
structure LockFair (cl : Cluster) (r : (lockMachine cl).idling.Run) : Prop where
  worker : ∀ w ∈ cl.workers, ∀ n, ((r.state n).worker w).pc.runs = true →
    ∃ m, n ≤ m ∧ LockAction.movesWorker w (r.act m) = true
  workerTcp : ∀ w ∈ cl.workers, ∀ n, ((r.state n).worker w).toWorker ≠ [] →
    ∃ m, n ≤ m ∧ r.act m = some (.worker w .receive)
  master : ∀ n, (r.state n).master.pc.runs = true →
    ∃ m, n ≤ m ∧ LockAction.movesMaster (r.act m) = true
  masterTcp : ∀ n, (r.state n).master.tcpGrant ≠ none →
    ∃ m, n ≤ m ∧ r.act m = some (.master .tcpGrant)
  connection : ∀ w ∈ cl.workers, ∀ n, ((r.state n).worker w).toMaster ≠ [] →
    ∃ m, n ≤ m ∧ r.act m = some (.master (.receive w))

/-- Whoever is inside the critical section of lock `l` calls `dsm_unlock(l)` some time. -/
def GivesBack (cl : Cluster) (r : (lockMachine cl).idling.Run) (l : LockId) : Prop :=
  ∀ i n, (r.state n).Inside cl i l → ∃ m, n ≤ m ∧ r.act m = some (.unlockBy i l)

/-! ### What other steps leave alone -/

/-- A step in which worker `w` does nothing: its thread is where it was, a message may have come for
it, and the master may have taken its next one. -/
structure LockState.Untouched (s t : LockState) (w : NodeId) (a : Option LockAction) : Prop where
  pc : (t.worker w).pc = (s.worker w).pc
  inside : (t.worker w).inside = (s.worker w).inside
  locks : (t.worker w).locks = (s.worker w).locks
  toWorker : ∃ new, (t.worker w).toWorker = (s.worker w).toWorker ++ new
  toMaster : (t.worker w).toMaster = (s.worker w).toMaster ∧ a ≠ some (.master (.receive w)) ∨
    a = some (.master (.receive w)) ∧ ∃ msg, (s.worker w).toMaster = msg :: (t.worker w).toMaster

theorem LockState.untouched_of_worker {s t : LockState} {w : NodeId} {a : Option LockAction}
    (hworker : t.worker w = s.worker w) (ha : a ≠ some (.master (.receive w))) :
    s.Untouched t w a where
  pc := by rw [hworker]
  inside := by rw [hworker]
  locks := by rw [hworker]
  toWorker := ⟨[], by rw [hworker, List.append_nil]⟩
  toMaster := .inl ⟨by rw [hworker], ha⟩

theorem LockState.untouched_sendGrant (cl : Cluster) (s : LockState) (m : MasterNode) (node w : NodeId)
    (l : LockId) {a : Option LockAction} (ha : a ≠ some (.master (.receive w))) :
    s.Untouched ((s.setMaster m).sendGrant cl node l) w a := by
  rw [LockState.sendGrant]
  split
  · by_cases heq : w = node
    · subst heq
      have hself : (((s.setMaster m).setWorker w { (s.setMaster m).worker w with
          toWorker := ((s.setMaster m).worker w).toWorker ++ [l] }).worker w) =
          { s.worker w with toWorker := (s.worker w).toWorker ++ [l] } := Function.update_self ..
      exact ⟨by rw [hself], by rw [hself], by rw [hself], ⟨[l], by rw [hself]⟩,
        .inl ⟨by rw [hself], ha⟩⟩
    · exact LockState.untouched_of_worker (Function.update_of_ne heq ..) ha
  · exact LockState.untouched_of_worker rfl ha

theorem LockState.untouched_of_step {cl : Cluster} {s t : LockState} {w : NodeId} {a : LockAction}
    (hstep : s.step cl a = some t) (hother : ∀ b, a ≠ .worker w b) : s.Untouched t w (some a) := by
  cases a with
  | worker i b =>
      simp only [LockState.step, Option.ite_none_right_eq_some, Option.map_eq_some_iff] at hstep
      obtain ⟨-, n, -, rfl⟩ := hstep
      have hne : w ≠ i := by
        rintro rfl
        exact hother b rfl
      exact LockState.untouched_of_worker (Function.update_of_ne hne ..) fun hact => by cases hact
  | master b =>
      cases LockState.masterStep_effect hstep with
      | lock | testSleep | testEnter | wake | spurious | unlock | release | signal =>
          exact LockState.untouched_of_worker rfl fun hact => by cases hact
      | grant | tcpGrant =>
          exact LockState.untouched_sendGrant cl s _ _ w _ fun hact => by cases hact
      | @receive i msg rest hi htcp hhead =>
          by_cases heq : w = i
          · subst heq
            have hself : (((s.setMaster (s.master.handle msg)).setWorker w
                { s.worker w with toMaster := rest }).worker w) =
                { s.worker w with toMaster := rest } := Function.update_self ..
            exact ⟨by rw [hself], by rw [hself], by rw [hself],
              ⟨[], by rw [hself, List.append_nil]⟩, .inr ⟨rfl, msg, by rw [hself, hhead]⟩⟩
          · refine LockState.untouched_of_worker (Function.update_of_ne heq ..) fun hact => ?_
            cases hact
            exact heq rfl

/-- The master's own steps and the messages that it takes; the workers' steps are not among them. -/
theorem LockState.master_of_worker {cl : Cluster} {s t : LockState} {w : NodeId} {a : WorkerAction}
    (hstep : s.step cl (.worker w a) = some t) :
    t.master = s.master ∧ w ∈ cl.workers ∧ (s.worker w).Effect w a (t.worker w) := by
  simp only [LockState.step, Option.ite_none_right_eq_some, Option.map_eq_some_iff] at hstep
  obtain ⟨hw, n, hn, rfl⟩ := hstep
  refine ⟨rfl, hw, ?_⟩
  have hself : ((s.setWorker w n).worker w) = n := Function.update_self ..
  rw [hself]
  exact WorkerNode.step_effect hn

section Run

variable {cl : Cluster} {r : (lockMachine cl).idling.Run} {w : NodeId} {l : LockId}

theorem effect_or_untouched (r : (lockMachine cl).idling.Run) (w : NodeId) (n : ℕ) :
    (∃ a, r.act n = some (.worker w a) ∧ (r.state (n + 1)).master = (r.state n).master ∧
        ((r.state n).worker w).Effect w a ((r.state (n + 1)).worker w)) ∨
      (∀ a, r.act n ≠ some (.worker w a)) ∧ (r.state n).Untouched (r.state (n + 1)) w (r.act n) := by
  have hstep := r.step n
  cases hact : r.act n with
  | none =>
      rw [hact] at hstep
      have hsame : r.state n = r.state (n + 1) := Option.some.inj hstep
      exact .inr ⟨nofun, LockState.untouched_of_worker (by rw [hsame]) nofun⟩
  | some a =>
      rw [hact] at hstep
      by_cases hown : ∃ b, a = .worker w b
      · obtain ⟨b, rfl⟩ := hown
        obtain ⟨hmaster, -, heffect⟩ := LockState.master_of_worker hstep
        exact .inl ⟨b, rfl, hmaster, heffect⟩
      · refine .inr ⟨fun b hb => hown ⟨b, Option.some.inj hb⟩, ?_⟩
        exact LockState.untouched_of_step hstep (not_exists.mp hown)

/-- A condition on the thread of worker `w` lasts until a step of the worker ends it. -/
theorem unless_of_effect {P : WorkerPc → (LockId → Bool) → LockTable → Prop} {Q : WorkerNode → Prop}
    (h : ∀ n n' a, WorkerNode.Effect w n a n' → P n.pc n.inside n.locks →
      P n'.pc n'.inside n'.locks ∨ Q n') :
    r.Unless (fun s => P (s.worker w).pc (s.worker w).inside (s.worker w).locks)
      (fun s => Q (s.worker w)) := by
  intro n hP
  rcases effect_or_untouched r w n with ⟨a, -, -, heffect⟩ | ⟨-, hsame⟩
  · exact h _ _ a heffect hP
  · refine .inl ?_
    change P ((r.state (n + 1)).worker w).pc ((r.state (n + 1)).worker w).inside _
    rw [hsame.pc, hsame.inside, hsame.locks]
    exact hP

/-- The thread of worker `w` goes on from a place where it waits for nothing. -/
theorem leadsTo_of_thread (hfair : LockFair cl r) (hw : w ∈ cl.workers)
    {P : WorkerPc → (LockId → Bool) → LockTable → Prop} {Q : WorkerNode → Prop}
    (hruns : ∀ pc inside locks, P pc inside locks → pc.runs = true)
    (h : ∀ n n' a, WorkerNode.Effect w n a n' → P n.pc n.inside n.locks →
      a.moves = false ∧ P n'.pc n'.inside n'.locks ∨ Q n') :
    r.LeadsTo (fun s => P (s.worker w).pc (s.worker w).inside (s.worker w).locks)
      (fun s => Q (s.worker w)) := by
  refine Machine.Run.leadsTo_of_unless (LockAction.movesWorker w · = true)
    (unless_of_effect fun n n' a heffect hP => (h n n' a heffect hP).imp_left And.right)
    (fun n hP hact => ?_) fun n hP => hfair.worker w hw n (hruns _ _ _ hP)
  rcases effect_or_untouched r w n with ⟨a, ha, -, heffect⟩ | ⟨hother, -⟩
  · refine (h _ _ a heffect hP).resolve_left fun hno => ?_
    rw [ha, LockAction.movesWorker, hno.1, Bool.and_false] at hact
    cases hact
  · cases hn : r.act n with
    | none =>
        rw [hn] at hact
        cases hact
    | some b =>
        rw [hn] at hact hother
        cases b with
        | master b => cases hact
        | worker i b =>
            rw [LockAction.movesWorker, Bool.and_eq_true, beq_iff_eq] at hact
            exact absurd (congrArg some (congrArg (LockAction.worker · b) hact.1)) (hother b)

/-! ### The channels of a worker -/

theorem toMaster_step (r : (lockMachine cl).idling.Run) (w : NodeId) (n : ℕ) :
    (∃ new, ((r.state (n + 1)).worker w).toMaster = ((r.state n).worker w).toMaster ++ new) ∧
        r.act n ≠ some (.master (.receive w)) ∨
      r.act n = some (.master (.receive w)) ∧
        ∃ msg, ((r.state n).worker w).toMaster = msg :: ((r.state (n + 1)).worker w).toMaster := by
  rcases effect_or_untouched r w n with ⟨a, ha, -, heffect⟩ | ⟨-, hsame⟩
  · refine .inl ⟨?_, by rw [ha]; nofun⟩
    generalize (r.state (n + 1)).worker w = n' at heffect ⊢
    cases heffect with
    | request | release => exact ⟨_, rfl⟩
    | _ => exact ⟨[], (List.append_nil _).symm⟩
  · refine hsame.toMaster.imp_left fun hkept => ⟨⟨[], ?_⟩, hkept.2⟩
    rw [hkept.1, List.append_nil]

theorem toWorker_step (r : (lockMachine cl).idling.Run) (w : NodeId) (n : ℕ) :
    (∃ new, ((r.state (n + 1)).worker w).toWorker = ((r.state n).worker w).toWorker ++ new) ∧
        r.act n ≠ some (.worker w .receive) ∨
      ∃ first, ((r.state n).worker w).toWorker = first :: ((r.state (n + 1)).worker w).toWorker ∧
        ((r.state n).worker w).Effect w .receive ((r.state (n + 1)).worker w) := by
  rcases effect_or_untouched r w n with ⟨a, ha, -, heffect⟩ | ⟨hother, hsame⟩
  · by_cases hreceive : a = .receive
    · subst hreceive
      refine .inr ?_
      have hkept := heffect
      generalize (r.state (n + 1)).worker w = n' at heffect hkept ⊢
      cases heffect with
      | receive hgrants => exact ⟨_, hgrants, hkept⟩
    · refine .inl ⟨⟨[], ?_⟩, fun hact => hreceive ?_⟩
      · generalize (r.state (n + 1)).worker w = n' at heffect ⊢
        cases heffect with
        | receive => exact absurd rfl hreceive
        | _ => exact (List.append_nil _).symm
      · cases ha.symm.trans hact
        rfl
  · exact .inl ⟨hsame.toWorker, hother _⟩

/-! ### From the grant to the release -/

/-- The grant is in the local record, and the thread that has asked for it is going to look. -/
def WorkerNode.Ready (w : NodeId) (l : LockId) (n : WorkerNode) : Prop :=
  (n.locks l).heldBy w = true ∧ (n.pc = .wait l ∨ n.pc = .sleep l true)

theorem heldBy_receive {locks : LockTable} {l' : LockId} (hheld : (locks l).heldBy w = true) :
    (Function.update locks l' { locks l' with locked := true, holderId := w } l).heldBy w = true := by
  by_cases heq : l = l'
  · subst heq
    simp
  · rwa [Function.update_of_ne heq]

theorem leadsTo_inside_of_wait (hfair : LockFair cl r) (hw : w ∈ cl.workers) :
    r.LeadsTo (fun s => ((s.worker w).locks l).heldBy w = true ∧ (s.worker w).pc = .wait l)
      (fun s => (s.worker w).inside l = true) := by
  refine leadsTo_of_thread (P := fun pc _ locks => (locks l).heldBy w = true ∧ pc = .wait l)
    (Q := fun n => n.inside l = true) hfair hw (fun pc _ _ hP => by rw [hP.2]; rfl) ?_
  rintro n n' a heffect ⟨hheld, hpc⟩
  cases heffect with
  | testSleep hpc' hout =>
      cases hpc.symm.trans hpc'
      rw [hheld] at hout
      cases hout
  | testEnter hpc' =>
      cases hpc.symm.trans hpc'
      exact .inr (Function.update_self ..)
  | receive => exact .inl ⟨rfl, heldBy_receive hheld, by rw [hpc]; rfl⟩
  | lock hpc' | request hpc' | wake hpc' | spurious hpc' | unlock hpc' | release hpc' | clear hpc' =>
      cases hpc.symm.trans hpc'

theorem leadsTo_inside_of_ready (hfair : LockFair cl r) (hw : w ∈ cl.workers) :
    r.LeadsTo (fun s => (s.worker w).Ready w l) (fun s => (s.worker w).inside l = true) := by
  have hwake : r.LeadsTo
      (fun s => ((s.worker w).locks l).heldBy w = true ∧ (s.worker w).pc = .sleep l true)
      (fun s => ((s.worker w).locks l).heldBy w = true ∧ (s.worker w).pc = .wait l) := by
    refine leadsTo_of_thread (P := fun pc _ locks => (locks l).heldBy w = true ∧ pc = .sleep l true)
      (Q := fun n => (n.locks l).heldBy w = true ∧ n.pc = .wait l) hfair hw
      (fun pc _ _ hP => by rw [hP.2]; rfl) ?_
    rintro n n' a heffect ⟨hheld, hpc⟩
    cases heffect with
    | wake hpc' | spurious hpc' =>
        cases hpc.symm.trans hpc'
        exact .inr ⟨hheld, rfl⟩
    | receive => exact .inl ⟨rfl, heldBy_receive hheld, by rw [hpc]; rfl⟩
    | lock hpc' | request hpc' | testSleep hpc' | testEnter hpc' | unlock hpc' | release hpc'
    | clear hpc' => cases hpc.symm.trans hpc'
  rintro n ⟨hheld, hpc | hpc⟩
  · exact leadsTo_inside_of_wait hfair hw n ⟨hheld, hpc⟩
  · exact (hwake.trans (leadsTo_inside_of_wait hfair hw)) n ⟨hheld, hpc⟩

theorem leadsTo_release_of_inside (hback : GivesBack cl r l) (hw : w ∈ cl.workers) :
    r.LeadsTo (fun s => (s.worker w).inside l = true) (fun s => (s.worker w).pc = .release l) := by
  have hunlock : ∀ n n' a, WorkerNode.Effect w n a n' → n.inside l = true →
      a ≠ .unlock l ∧ n'.inside l = true ∨ n'.pc = .release l := by
    intro n n' a heffect hinside
    cases heffect with
    | @testEnter l' =>
        refine .inl ⟨nofun, ?_⟩
        by_cases heq : l = l'
        · exact heq ▸ Function.update_self ..
        · exact (Function.update_of_ne heq ..).trans hinside
    | @unlock l' =>
        by_cases heq : l = l'
        · exact .inr (by rw [heq])
        · refine .inl ⟨fun hact => heq ?_, (Function.update_of_ne heq ..).trans hinside⟩
          cases hact
          rfl
    | _ => exact .inl ⟨nofun, hinside⟩
  have hact : LockAction.unlockBy w l = .worker w (.unlock l) := if_neg (Cluster.ne_masterId hw)
  refine Machine.Run.leadsTo_of_unless (· = some (.unlockBy w l))
    (unless_of_effect (P := fun _ inside _ => inside l = true) (Q := (·.pc = .release l))
      fun n n' a heffect hP => (hunlock n n' a heffect hP).imp_left And.right)
    (fun n hP hn => ?_) fun n hP => hback w n (.inr ⟨hw, hP⟩)
  rw [hact] at hn
  rcases effect_or_untouched r w n with ⟨a, ha, -, heffect⟩ | ⟨hother, -⟩
  · refine (hunlock _ _ a heffect hP).resolve_left fun hno => hno.1 ?_
    cases ha.symm.trans hn
    rfl
  · exact absurd hn (hother _)

theorem leadsTo_sent_of_release (hfair : LockFair cl r) (hw : w ∈ cl.workers) :
    r.LeadsTo (fun s => (s.worker w).pc = .release l)
      (fun s => .release w l ∈ (s.worker w).toMaster) := by
  refine leadsTo_of_thread (P := fun pc _ _ => pc = .release l)
    (Q := fun n => .release w l ∈ n.toMaster) hfair hw (fun pc _ _ hP => by rw [hP]; rfl) ?_
  intro n n' a heffect hpc
  cases heffect with
  | release hpc' =>
      cases hpc.symm.trans hpc'
      exact .inr (List.mem_append_right _ List.mem_cons_self)
  | receive => exact .inl ⟨rfl, by rw [hpc]; rfl⟩
  | lock hpc' | request hpc' | testSleep hpc' | testEnter hpc' | wake hpc' | spurious hpc'
  | unlock hpc' | clear hpc' => cases hpc.symm.trans hpc'

theorem leadsTo_sent_of_request (hfair : LockFair cl r) (hw : w ∈ cl.workers) :
    r.LeadsTo (fun s => (s.worker w).pc = .request l)
      (fun s => .request w l ∈ (s.worker w).toMaster) := by
  refine leadsTo_of_thread (P := fun pc _ _ => pc = .request l)
    (Q := fun n => .request w l ∈ n.toMaster) hfair hw (fun pc _ _ hP => by rw [hP]; rfl) ?_
  intro n n' a heffect hpc
  cases heffect with
  | request hpc' =>
      cases hpc.symm.trans hpc'
      exact .inr (List.mem_append_right _ List.mem_cons_self)
  | receive => exact .inl ⟨rfl, by rw [hpc]; rfl⟩
  | lock hpc' | testSleep hpc' | testEnter hpc' | wake hpc' | spurious hpc' | unlock hpc'
  | release hpc' | clear hpc' => cases hpc.symm.trans hpc'

/-! ### Messages -/

theorem lockInv_of_run (r : (lockMachine cl).idling.Run) (n : ℕ) : LockInv cl (r.state n) :=
  .of_reachable (Machine.reachable_of_idling (r.reachable n))

theorem queueInv_of_run (r : (lockMachine cl).idling.Run) (n : ℕ) : QueueInv cl (r.state n) :=
  .of_reachable (Machine.reachable_of_idling (r.reachable n))

theorem leadsTo_ready_of_granted (hfair : LockFair cl r) (hw : w ∈ cl.workers) :
    r.LeadsTo (fun s => l ∈ (s.worker w).toWorker) (fun s => (s.worker w).Ready w l) := by
  refine Machine.Run.leadsTo_of_channel (fun s : LockState => (s.worker w).toWorker) l
    (· = some (LockAction.worker w .receive)) (fun n => ?_) (fun n htaken => ?_) (hfair.workerTcp w hw)
  · exact (toWorker_step r w n).imp_right fun ⟨first, hfirst, _⟩ => ⟨first, hfirst⟩
  · rcases toWorker_step r w n with ⟨⟨new, hnew⟩, -⟩ | ⟨first, hfirst, heffect⟩
    · have hlen := congrArg List.length htaken
      rw [hnew, List.length_cons, List.length_append] at hlen
      omega
    · have hwaits : ((r.state n).worker w).pc.WaitsFor l := by
        by_contra hnot
        have hquiet := ((lockInv_of_run r n).link w hw).quiet l hnot
        have hone : 1 ≤ ((r.state n).worker w).granted l :=
          List.one_le_count_iff.mpr (by rw [htaken]; exact List.mem_cons_self)
        omega
      obtain rfl : first = l := (List.cons.inj (hfirst.symm.trans htaken)).1
      change WorkerNode.Ready w first ((r.state (n + 1)).worker w)
      generalize (r.state (n + 1)).worker w = n' at hfirst heffect ⊢
      cases heffect with
      | @receive l' rest hgrants =>
          obtain rfl : l' = first := (List.cons.inj (hgrants.symm.trans hfirst)).1
          refine ⟨by simp, ?_⟩
          rcases hwaits with hpc | ⟨b, hpc⟩
          · exact .inl (by rw [hpc]; rfl)
          · exact .inr (by rw [hpc]; simp [WorkerPc.signal])

theorem handled_of_taken {n : ℕ} {msg : ToMaster} (htaken : ((r.state n).worker w).toMaster =
      msg :: ((r.state (n + 1)).worker w).toMaster) :
    (r.state (n + 1)).master = (r.state n).master.handle msg := by
  rcases toMaster_step r w n with ⟨⟨new, hnew⟩, -⟩ | ⟨hact, -⟩
  · have hlen := congrArg List.length htaken
    rw [hnew, List.length_cons, List.length_append] at hlen
    omega
  · have hstep : (r.state n).masterStep cl (.receive w) = some (r.state (n + 1)) := by
      have h := r.step n
      rwa [hact] at h
    generalize r.state (n + 1) = t at htaken hstep ⊢
    cases LockState.masterStep_effect hstep with
    | @receive _ first rest hw htcp hhead =>
        rw [(List.cons.inj (hhead.symm.trans htaken)).1]
        rfl

theorem leadsTo_of_toMaster (hfair : LockFair cl r) (hw : w ∈ cl.workers) (msg : ToMaster)
    {Q : LockState → Prop} (htaken : ∀ n, ((r.state n).worker w).toMaster =
        msg :: ((r.state (n + 1)).worker w).toMaster →
      (r.state (n + 1)).master = (r.state n).master.handle msg → Q (r.state (n + 1))) :
    r.LeadsTo (fun s => msg ∈ (s.worker w).toMaster) Q := by
  refine Machine.Run.leadsTo_of_channel (fun s : LockState => (s.worker w).toMaster) msg
    (· = some (LockAction.master (.receive w))) (fun n => ?_)
    (fun n h => htaken n h (handled_of_taken h)) (hfair.connection w hw)
  exact (toMaster_step r w n).imp_right And.right

theorem leadsTo_not_held_of_released (hfair : LockFair cl r) (hw : w ∈ cl.workers) :
    r.LeadsTo (fun s => .release w l ∈ (s.worker w).toMaster)
      (fun s => (s.master.locks l).heldBy w = false) := by
  refine leadsTo_of_toMaster hfair hw _ fun n htaken hmaster => ?_
  have hinv := queueInv_of_run r n
  have hheld := hinv.lock.heldBy_of_released hw htaken
  have hl : l < maxLocks := hinv.lock.master.range l (Lock.heldBy_eq_true.mp hheld).1
  have honce := (hinv.link w hw).once l
  have hmoved := syncHandleLockRelease_held (r.state n).master.locks hl hheld w l
  have hleft := syncHandleLockRelease_queued (r.state n).master.locks w l w l
  have hone : (r.state n).master.held w l = 1 := by rw [MasterNode.held, Lock.held, if_pos hheld]
  rw [if_pos ⟨rfl, rfl⟩] at hmoved
  rw [hmaster]
  refine Bool.eq_false_iff.mpr fun hstill => ?_
  have hafter : ((syncHandleLockRelease (r.state n).master.locks w l).locks l).held w = 1 :=
    if_pos hstill
  simp only [MasterNode.held, MasterNode.queued] at honce hone
  omega

theorem leadsTo_placed_of_requested (hfair : LockFair cl r) (hsize : cl.nodes.length ≤ maxNodes)
    (hw : w ∈ cl.workers) :
    r.LeadsTo (fun s => .request w l ∈ (s.worker w).toMaster)
      (fun s => w ∈ (s.master.locks l).waiters ∨ s.master.tcpGrant = some (w, l)) := by
  refine leadsTo_of_toMaster hfair hw _ fun n htaken hmaster => ?_
  have hinv := queueInv_of_run r n
  have hl : l < maxLocks := (hinv.link w hw).range l (.inl (by rw [htaken]; exact List.mem_cons_self))
  have hroom := hinv.waiters_length l
  have hnodes : cl.nodes.length = cl.workers.length + 1 := rfl
  rw [hmaster, MasterNode.handle, syncHandleLockRequest, if_neg (Nat.not_le.mpr hl)]
  cases hlocked : ((r.state n).master.locks l).locked with
  | false => exact .inr (by simp [hlocked])
  | true =>
      have hlt : ((r.state n).master.locks l).waiters.length < maxNodes := by omega
      exact .inl (by simp [hlocked, hlt])

end Run

/-! ### The holder of a record -/

/-- The record of a lock names a node of the cluster as its holder, and the master only as long as its
own thread has the lock; nobody waits for a free lock. -/
structure HolderInv (cl : Cluster) (s : LockState) : Prop where
  queue : QueueInv cl s
  holder : ∀ l, (s.master.locks l).locked = true → (s.master.locks l).holderId ∈ cl.nodes
  master : ∀ l, (s.master.locks l).heldBy masterId = true →
    s.master.inside l = true ∨ s.master.pc = .release l
  free : s.master.locks.NoneWaitsForFree

theorem QueueInv.next_mem {cl : Cluster} {s : LockState} {l : LockId} {next : NodeId}
    {rest : List NodeId} (h : QueueInv cl s) (hwaiters : (s.master.locks l).waiters = next :: rest) :
    next ∈ cl.workers :=
  h.waiters l next (by rw [hwaiters]; exact List.mem_cons_self)

theorem HolderInv.initial (cl : Cluster) : HolderInv cl .initial := by
  refine ⟨QueueInv.initial cl, fun l hl => ?_, fun l hl => ?_, fun _ _ => rfl⟩
  · cases hl
  · cases (Lock.heldBy_eq_true.mp hl).1

section Steps

variable {cl : Cluster} {s t : LockState}

theorem HolderInv.move (h : HolderInv cl s) (ht : QueueInv cl t)
    (hlocks : t.master.locks = s.master.locks) (hinside : t.master.inside = s.master.inside)
    (hpc : ∀ l, s.master.pc = .release l → t.master.pc = .release l) : HolderInv cl t := by
  refine ⟨ht, by rw [hlocks]; exact h.holder, fun l hl => ?_, by rw [hlocks]; exact h.free⟩
  rw [hlocks] at hl
  rw [hinside]
  exact (h.master l hl).imp_right (hpc l)

theorem HolderInv.testEnter {l : LockId} (h : HolderInv cl s)
    (ht : QueueInv cl t) (hpc : s.master.pc = .acquire l)
    (hinside : t.master.inside = Function.update s.master.inside l true)
    (hlocks : t.master.locks = Function.update s.master.locks l
      { s.master.locks l with locked := true, holderId := masterId }) : HolderInv cl t := by
  refine ⟨ht, fun l' hl' => ?_, fun l' hl' => ?_, fun l' hl' => ?_⟩
  · by_cases heq : l' = l
    · subst heq
      rw [hlocks, Function.update_self]
      exact List.mem_cons_self
    · rw [hlocks, Function.update_of_ne heq] at hl' ⊢
      exact h.holder l' hl'
  · by_cases heq : l' = l
    · subst heq
      exact .inl (by rw [hinside, Function.update_self])
    · rw [hlocks, Function.update_of_ne heq] at hl'
      refine .inl ?_
      rw [hinside, Function.update_of_ne heq]
      exact (h.master l' hl').resolve_right fun hpc' => by cases hpc.symm.trans hpc'
  · by_cases heq : l' = l
    · subst heq
      rw [hlocks, Function.update_self] at hl'
      cases hl'
    · rw [hlocks, Function.update_of_ne heq] at hl' ⊢
      exact h.free l' hl'

theorem HolderInv.handle {w : NodeId} {msg : ToMaster} (h : HolderInv cl s) (ht : QueueInv cl t)
    (hw : w ∈ cl.workers) (hsource : msg.srcNode = w) (hmaster : t.master = s.master.handle msg) :
    HolderInv cl t := by
  have hnode : w ≠ masterId := Cluster.ne_masterId hw
  have hmem : w ∈ cl.nodes := List.mem_cons_of_mem _ hw
  cases msg with
  | request srcNode l =>
      obtain rfl : srcNode = w := hsource
      refine ⟨ht, fun l' hl' => ?_, fun l' hl' => ?_, ?_⟩
      · rw [hmaster] at hl' ⊢
        simp only [MasterNode.handle] at hl' ⊢
        by_cases heq : l' = l
        · subst heq
          rcases syncHandleLockRequest_cases s.master.locks srcNode l' with
            ⟨-, -, hcall⟩ | ⟨hlocked, hcall⟩ | ⟨_, hcall⟩
          · simpa [hcall] using hmem
          · simpa [hcall] using h.holder l' hlocked
          · rw [hcall] at hl' ⊢
            exact h.holder l' hl'
        · rw [syncHandleLockRequest_frame _ _ heq] at hl' ⊢
          exact h.holder l' hl'
      · rw [hmaster] at hl' ⊢
        refine h.master l' ?_
        by_contra hnot
        have hheld := syncHandleLockRequest_held s.master.locks srcNode l masterId l'
        simp only [MasterNode.handle] at hl'
        rw [Lock.held, Lock.held, if_pos hl', if_neg hnot, Nat.zero_add, LockOutcome.grants] at hheld
        rcases syncHandleLockRequest_cases s.master.locks srcNode l with
          ⟨-, -, hcall⟩ | ⟨-, hcall⟩ | ⟨_, hcall⟩ <;> simp [hcall, hnode] at hheld
      · rw [hmaster]
        exact h.free.request srcNode l
  | release srcNode l =>
      obtain rfl : srcNode = w := hsource
      refine ⟨ht, fun l' hl' => ?_, fun l' hl' => ?_, ?_⟩
      · rw [hmaster] at hl' ⊢
        simp only [MasterNode.handle] at hl' ⊢
        by_cases heq : l' = l
        · subst heq
          rcases syncHandleLockRelease_effect s.master.locks srcNode l' with
            ⟨next, rest, -, -, hwaiters, hcall⟩ | ⟨-, -, -, hcall⟩ | ⟨-, hcall⟩
          · have hnext : next ∈ cl.nodes := List.mem_cons_of_mem masterId (h.queue.next_mem hwaiters)
            simpa [hcall] using hnext
          · simp [hcall] at hl'
          · rw [hcall] at hl' ⊢
            exact h.holder l' hl'
        · rw [syncHandleLockRelease_frame _ _ heq] at hl' ⊢
          exact h.holder l' hl'
      · rw [hmaster] at hl' ⊢
        refine h.master l' ?_
        by_contra hnot
        have hheld := syncHandleLockRelease_held_of_ne s.master.locks hnode.symm l l'
        simp only [MasterNode.handle] at hl'
        rw [Lock.held, Lock.held, if_pos hl', if_neg hnot, Nat.zero_add, LockOutcome.grants] at hheld
        rcases syncHandleLockRelease_effect s.master.locks srcNode l with
          ⟨next, rest, -, -, hwaiters, hcall⟩ | ⟨-, -, -, hcall⟩ | ⟨-, hcall⟩
        · simp [hcall, Cluster.ne_masterId (h.queue.next_mem hwaiters)] at hheld
        · simp [hcall] at hheld
        · simp [hcall] at hheld
      · rw [hmaster]
        exact h.free.release srcNode l

theorem HolderInv.release {l : LockId} (h : HolderInv cl s) (ht : QueueInv cl t)
    (hpc : s.master.pc = .release l) (hinside : t.master.inside = s.master.inside)
    (hlocks : t.master.locks = (syncHandleLockRelease s.master.locks masterId l).locks) :
    HolderInv cl t ∧ (t.master.locks l).heldBy masterId = false := by
  have hheld : (s.master.locks l).heldBy masterId = true := h.queue.lock.master.critical l (.inr hpc)
  have hl : l < maxLocks := h.queue.lock.master.range l (Lock.heldBy_eq_true.mp hheld).1
  have hout : (t.master.locks l).heldBy masterId = false := by
    rw [hlocks]
    rcases syncHandleLockRelease_cases s.master.locks hl hheld with
      ⟨next, rest, hwaiters, hcall⟩ | ⟨-, hcall⟩
    · simp [hcall, Lock.heldBy, Cluster.ne_masterId (h.queue.next_mem hwaiters)]
    · simp [hcall, Lock.heldBy]
  refine ⟨⟨ht, fun l' hl' => ?_, fun l' hl' => ?_, by rw [hlocks]; exact h.free.release masterId l⟩, hout⟩
  · by_cases heq : l' = l
    · subst heq
      rw [hlocks] at hl' ⊢
      rcases syncHandleLockRelease_cases s.master.locks hl hheld with
        ⟨next, rest, hwaiters, hcall⟩ | ⟨-, hcall⟩
      · have hnext : next ∈ cl.nodes := List.mem_cons_of_mem masterId (h.queue.next_mem hwaiters)
        simpa [hcall] using hnext
      · simp [hcall] at hl'
    · rw [hlocks, syncHandleLockRelease_frame _ _ heq] at hl' ⊢
      exact h.holder l' hl'
  · by_cases heq : l' = l
    · subst heq
      rw [hout] at hl'
      cases hl'
    · rw [hlocks, syncHandleLockRelease_frame _ _ heq] at hl'
      rw [hinside]
      exact .inl ((h.master l' hl').resolve_right fun hpc' =>
        heq (MasterPc.release.inj (hpc.symm.trans hpc')).symm)

theorem HolderInv.masterStep {a : MasterAction} (h : HolderInv cl s)
    (hstep : s.masterStep cl a = some t) : HolderInv cl t := by
  have ht : QueueInv cl t := h.queue.masterStep hstep
  cases LockState.masterStep_effect hstep with
  | lock hpc | testSleep hpc | wake hpc | spurious hpc | signal hpc =>
      exact h.move ht rfl rfl fun l hl => by cases hpc.symm.trans hl
  | @unlock l hpc =>
      refine ⟨ht, h.holder, fun l' hl' => ?_, h.free⟩
      by_cases heq : l' = l
      · exact .inr (by rw [heq]; rfl)
      · have hin := (h.master l' hl').resolve_right fun hpc' => by cases hpc.symm.trans hpc'
        exact .inl ((Function.update_of_ne heq ..).trans hin)
  | testEnter hpc => exact h.testEnter ht hpc rfl rfl
  | release hpc => exact (h.release ht hpc rfl rfl).1
  | @grant l next hpc =>
      have hmaster := (LockState.sendGrant_frame cl (s.setMaster { s.master with pc := .signal l })
        next l).1
      refine h.move ht (by rw [hmaster]; rfl) (by rw [hmaster]; rfl) fun l' hl' => ?_
      cases hpc.symm.trans hl'
  | @tcpGrant w l htcp =>
      have hmaster := (LockState.sendGrant_frame cl (s.setMaster { s.master with tcpGrant := none })
        w l).1
      exact h.move ht (by rw [hmaster]; rfl) (by rw [hmaster]; rfl) fun l' hl' => by
        rw [hmaster]
        exact hl'
  | @receive w msg rest hw htcp hhead =>
      have hsource := (h.queue.lock.link w hw).source msg (by rw [hhead]; exact List.mem_cons_self)
      exact h.handle ht hw hsource rfl

theorem HolderInv.of_reachable (h : (lockMachine cl).Reachable s) : HolderInv cl s := by
  refine h.invariant (fun s hs => ?_) fun s a t hinv hstep => ?_
  · rw [hs]
    exact HolderInv.initial cl
  · cases a with
    | master a => exact hinv.masterStep hstep
    | worker w a =>
        have hworker : s.step cl (.worker w a) = some t := hstep
        have hmaster := (LockState.master_of_worker hworker).1
        exact hinv.move (hinv.queue.step hworker) (by rw [hmaster]) (by rw [hmaster]) fun l hl => by
          rw [hmaster]
          exact hl

end Steps

/-! ### Turns -/

/-- A thread of the master is about to send `w` the grant that it has decided. -/
def MasterNode.Granting (m : MasterNode) (w : NodeId) (l : LockId) : Prop :=
  m.tcpGrant = some (w, l) ∨ m.pc = .grant l w

section Run

variable {cl : Cluster} {r : (lockMachine cl).idling.Run} {w : NodeId} {l : LockId}

theorem holderInv_of_run (r : (lockMachine cl).idling.Run) (n : ℕ) : HolderInv cl (r.state n) :=
  .of_reachable (Machine.reachable_of_idling (r.reachable n))

theorem masterEffect_or_same (r : (lockMachine cl).idling.Run) (n : ℕ) :
    (∃ a, r.act n = some (.master a) ∧ (r.state n).MasterEffect cl a (r.state (n + 1))) ∨
      (∀ a, r.act n ≠ some (.master a)) ∧ (r.state (n + 1)).master = (r.state n).master := by
  have hstep := r.step n
  cases hact : r.act n with
  | none =>
      rw [hact] at hstep
      have hsame : r.state n = r.state (n + 1) := Option.some.inj hstep
      exact .inr ⟨nofun, by rw [hsame]⟩
  | some a =>
      rw [hact] at hstep
      cases a with
      | master a => exact .inl ⟨a, rfl, LockState.masterStep_effect hstep⟩
      | worker w a =>
          have hworker : (r.state n).step cl (.worker w a) = some (r.state (n + 1)) := hstep
          exact .inr ⟨nofun, (LockState.master_of_worker hworker).1⟩

theorem mem_toWorker_sendGrant (s : LockState) (hw : w ∈ cl.workers) (l : LockId) :
    l ∈ ((s.sendGrant cl w l).worker w).toWorker := by
  have hself : ((s.sendGrant cl w l).worker w).toWorker = (s.worker w).toWorker ++ [l] := by
    simp [LockState.sendGrant, hw, LockState.setWorker]
  rw [hself]
  exact List.mem_append_right _ List.mem_cons_self

theorem leadsTo_granted_of_tcpGrant (hfair : LockFair cl r) (hw : w ∈ cl.workers) :
    r.LeadsTo (fun s => s.master.tcpGrant = some (w, l)) (fun s => l ∈ (s.worker w).toWorker) := by
  have hsends : ∀ n, (r.state n).master.tcpGrant = some (w, l) →
      r.act n ≠ some (.master .tcpGrant) ∧ (r.state (n + 1)).master.tcpGrant = some (w, l) ∨
        l ∈ ((r.state (n + 1)).worker w).toWorker := by
    intro n hgrant
    rcases masterEffect_or_same r n with ⟨a, ha, heffect⟩ | ⟨hother, hsame⟩
    · rw [ha]
      generalize r.state (n + 1) = t at heffect ⊢
      cases heffect with
      | tcpGrant htcp =>
          cases hgrant.symm.trans htcp
          exact .inr (mem_toWorker_sendGrant _ hw l)
      | receive _ htcp => cases hgrant.symm.trans htcp
      | @grant l' next =>
          refine .inl ⟨nofun, ?_⟩
          rw [(LockState.sendGrant_frame cl _ next l').1]
          exact hgrant
      | _ => exact .inl ⟨nofun, hgrant⟩
    · exact .inl ⟨hother _, by rw [hsame]; exact hgrant⟩
  refine Machine.Run.leadsTo_of_unless (· = some (.master .tcpGrant))
    (fun n hgrant => (hsends n hgrant).imp_left And.right)
    (fun n hgrant hact => (hsends n hgrant).resolve_left fun hno => hno.1 hact)
    fun n hgrant => hfair.masterTcp n (by rw [hgrant]; nofun)

/-- The application thread of the master goes on from a place of its own, which no other step of the
master changes. -/
theorem leadsTo_of_master (hfair : LockFair cl r) {pc : MasterPc} {Q : LockState → Prop}
    (hruns : pc.runs = true)
    (h : ∀ s t a, HolderInv cl s → QueueInv cl t → s.MasterEffect cl a t → s.master.pc = pc →
      a.moves = false ∧ t.master.pc = pc ∨ Q t) :
    r.LeadsTo (fun s => s.master.pc = pc) Q := by
  have hmoves : ∀ n, (r.state n).master.pc = pc →
      LockAction.movesMaster (r.act n) = false ∧ (r.state (n + 1)).master.pc = pc ∨
        Q (r.state (n + 1)) := by
    intro n hpc
    rcases masterEffect_or_same r n with ⟨a, ha, heffect⟩ | ⟨hother, hsame⟩
    · rw [ha]
      exact h _ _ a (holderInv_of_run r n) (queueInv_of_run r (n + 1)) heffect hpc
    · refine .inl ⟨?_, by rw [hsame]; exact hpc⟩
      cases hact : r.act n with
      | none => rfl
      | some a =>
          cases a with
          | master a => exact absurd hact (hother a)
          | worker i a => rfl
  refine Machine.Run.leadsTo_of_unless (LockAction.movesMaster · = true)
    (fun n hpc => (hmoves n hpc).imp_left And.right)
    (fun n hpc hact => (hmoves n hpc).resolve_left fun hno => ?_)
    fun n hpc => hfair.master n (by rw [hpc]; exact hruns)
  rw [hno.1] at hact
  cases hact

theorem leadsTo_granted_of_grant (hfair : LockFair cl r) (hw : w ∈ cl.workers) :
    r.LeadsTo (fun s => s.master.pc = .grant l w) (fun s => l ∈ (s.worker w).toWorker) := by
  refine leadsTo_of_master hfair rfl fun s t a _ _ heffect hpc => ?_
  cases heffect with
  | grant hpc' =>
      cases hpc.symm.trans hpc'
      exact .inr (mem_toWorker_sendGrant _ hw l)
  | @receive _ msg => exact .inl ⟨rfl, by cases msg <;> exact hpc⟩
  | tcpGrant =>
      refine .inl ⟨rfl, ?_⟩
      rw [(LockState.sendGrant_frame cl _ _ _).1]
      exact hpc
  | lock hpc' | testSleep hpc' | testEnter hpc' | wake hpc' | spurious hpc' | unlock hpc'
  | release hpc' | signal hpc' => cases hpc.symm.trans hpc'

theorem leadsTo_not_held_of_masterRelease (hfair : LockFair cl r) :
    r.LeadsTo (fun s => s.master.pc = .release l)
      (fun s => (s.master.locks l).heldBy masterId = false) := by
  refine leadsTo_of_master hfair rfl fun s t a hinv ht heffect hpc => ?_
  cases heffect with
  | release hpc' =>
      cases hpc.symm.trans hpc'
      exact .inr (hinv.release ht hpc rfl rfl).2
  | @receive _ msg => exact .inl ⟨rfl, by cases msg <;> exact hpc⟩
  | tcpGrant =>
      refine .inl ⟨rfl, ?_⟩
      rw [(LockState.sendGrant_frame cl _ _ _).1]
      exact hpc
  | lock hpc' | testSleep hpc' | testEnter hpc' | wake hpc' | spurious hpc' | unlock hpc'
  | grant hpc' | signal hpc' => cases hpc.symm.trans hpc'

theorem leadsTo_release_of_masterInside (hback : GivesBack cl r l) :
    r.LeadsTo (fun s => s.master.inside l = true) (fun s => s.master.pc = .release l) := by
  have hunlock : ∀ n, (r.state n).master.inside l = true →
      r.act n ≠ some (.master (.unlock l)) ∧ (r.state (n + 1)).master.inside l = true ∨
        (r.state (n + 1)).master.pc = .release l := by
    intro n hinside
    rcases masterEffect_or_same r n with ⟨a, ha, heffect⟩ | ⟨hother, hsame⟩
    · rw [ha]
      generalize r.state (n + 1) = t at heffect ⊢
      cases heffect with
      | @testEnter l' =>
          refine .inl ⟨nofun, ?_⟩
          by_cases heq : l = l'
          · exact heq ▸ Function.update_self ..
          · exact (Function.update_of_ne heq ..).trans hinside
      | @unlock l' =>
          by_cases heq : l = l'
          · exact .inr (by rw [heq]; rfl)
          · refine .inl ⟨fun hact => heq ?_, (Function.update_of_ne heq ..).trans hinside⟩
            cases hact
            rfl
      | @receive _ msg => exact .inl ⟨nofun, by cases msg <;> exact hinside⟩
      | grant | tcpGrant =>
          refine .inl ⟨nofun, ?_⟩
          rw [(LockState.sendGrant_frame cl _ _ _).1]
          exact hinside
      | _ => exact .inl ⟨nofun, hinside⟩
    · exact .inl ⟨hother _, by rw [hsame]; exact hinside⟩
  refine Machine.Run.leadsTo_of_unless (· = some (.unlockBy masterId l))
    (fun n hinside => (hunlock n hinside).imp_left And.right)
    (fun n hinside hact => (hunlock n hinside).resolve_left fun hno => hno.1 hact)
    fun n hinside => hback masterId n (.inl ⟨rfl, hinside⟩)

/-- A thread that sleeps unsignalled has found no grant in its record, and none has come since. -/
theorem not_heldBy_of_sleep (r : (lockMachine cl).idling.Run) (w : NodeId) (n : ℕ) {l : LockId}
    (hpc : ((r.state n).worker w).pc = .sleep l false) :
    (((r.state n).worker w).locks l).heldBy w = false := by
  induction n with
  | zero =>
      have hstart : r.state 0 = .initial := r.start
      rw [hstart] at hpc
      cases hpc
  | succ n ih =>
      rcases effect_or_untouched r w n with ⟨a, -, -, heffect⟩ | ⟨-, hsame⟩
      · generalize (r.state (n + 1)).worker w = n' at heffect hpc ⊢
        cases heffect with
        | testSleep _ hheld =>
            cases hpc
            exact hheld
        | @receive l' =>
            have hold : ((r.state n).worker w).pc = .sleep l false ∧ l ≠ l' := by
              cases hwas : ((r.state n).worker w).pc with
              | sleep l'' signalled =>
                  simp only [hwas, WorkerPc.signal, WorkerPc.sleep.injEq, Bool.or_eq_false_iff,
                    beq_eq_false_iff_ne] at hpc
                  obtain ⟨rfl, rfl, hne⟩ := hpc
                  exact ⟨rfl, hne.symm⟩
              | _ =>
                  rw [hwas] at hpc
                  cases hpc
            exact (congrArg (Lock.heldBy · w) (Function.update_of_ne hold.2 ..)).trans (ih hold.1)
        | _ => cases hpc
      · rw [hsame.pc] at hpc
        rw [hsame.locks]
        exact ih hpc

/-- The holder's turn ends: wherever its token is, it comes back to the master. -/
theorem leadsTo_not_held (hfair : LockFair cl r) (hback : GivesBack cl r l) {node : NodeId}
    (hnode : node ∈ cl.nodes) :
    r.LeadsTo (fun s => (s.master.locks l).heldBy node = true)
      (fun s => (s.master.locks l).heldBy node = false) := by
  rcases List.mem_cons.mp hnode with rfl | hw
  · have hrelease := leadsTo_not_held_of_masterRelease (l := l) hfair
    intro n hheld
    rcases (holderInv_of_run r n).master l hheld with hinside | hpc
    · exact ((leadsTo_release_of_masterInside hback).trans hrelease) n hinside
    · exact hrelease n hpc
  · have hsent := leadsTo_not_held_of_released (l := l) hfair hw
    have hreleasing := (leadsTo_sent_of_release (l := l) hfair hw).trans hsent
    have hinside := (leadsTo_release_of_inside hback hw).trans hreleasing
    have hready := (leadsTo_inside_of_ready (l := l) hfair hw).trans hinside
    have hgranted := (leadsTo_ready_of_granted (l := l) hfair hw).trans hready
    intro n hheld
    have hlink := (lockInv_of_run r n).link node hw
    have htoken := hlink.token l
    have hone : (r.state n).master.held node l = 1 := if_pos hheld
    by_cases htcp : (r.state n).master.tcpGrant = some (node, l)
    · exact ((leadsTo_granted_of_tcpGrant hfair hw).trans hgranted) n htcp
    by_cases hpc : (r.state n).master.pc = .grant l node
    · exact ((leadsTo_granted_of_grant hfair hw).trans hgranted) n hpc
    have hpending : (r.state n).master.pending node l = 0 := by
      rw [MasterNode.pending, if_neg htcp, if_neg hpc]
    by_cases hmem : l ∈ ((r.state n).worker node).toWorker
    · exact hgranted n hmem
    have hempty : ((r.state n).worker node).granted l = 0 := List.count_eq_zero.mpr hmem
    by_cases hreleased : .release node l ∈ ((r.state n).worker node).toMaster
    · exact hsent n hreleased
    have hquiet : ((r.state n).worker node).released node l = 0 := List.count_eq_zero.mpr hreleased
    have howns : ((r.state n).worker node).owns node l = 1 := by omega
    have hlocal : (((r.state n).worker node).locks l).heldBy node = true := by
      by_contra hnot
      rw [WorkerNode.owns, if_neg fun hand => hnot hand.1] at howns
      cases howns
    rcases hlink.owner l howns with hin | hwaits | hrelease
    · exact hinside n hin
    · refine hready n ⟨hlocal, ?_⟩
      rcases hwaits with hwait | ⟨signalled, hsleep⟩
      · exact .inl hwait
      · cases signalled with
        | true => exact .inr hsleep
        | false =>
            rw [not_heldBy_of_sleep r node n hsleep] at hlocal
            cases hlocal
    · exact hreleasing n hrelease

/-! ### The queue -/

/-- What a step of the master does to a record that is taken: nothing, one more node in the queue, or
the holder's release, after which the grant to the first of the queue is to be sent. -/
theorem record_of_masterEffect {s t : LockState} {a : MasterAction} (h : HolderInv cl s)
    (heffect : s.MasterEffect cl a t) {l : LockId} (hlocked : (s.master.locks l).locked = true)
    (hwaiters : (s.master.locks l).waiters ≠ []) :
    t.master.locks l = s.master.locks l ∨
      (∃ node, t.master.locks l =
        { s.master.locks l with waiters := (s.master.locks l).waiters ++ [node] }) ∨
      ∃ next rest, (s.master.locks l).waiters = next :: rest ∧
        (t.master.locks l).waiters = rest ∧ t.master.Granting next l := by
  cases heffect with
  | lock | testSleep | wake | spurious | unlock | signal => exact .inl rfl
  | @testEnter l' hpc hfree =>
      refine .inl ?_
      by_cases heq : l = l'
      · subst heq
        have hown : (s.master.locks l).holderId = masterId := by
          rw [hlocked] at hfree
          simpa using hfree
        refine (Function.update_self ..).trans ?_
        rw [← hlocked, ← hown]
      · exact Function.update_of_ne heq ..
  | @release l' hpc =>
      by_cases heq : l = l'
      · subst heq
        have hheld := h.queue.lock.master.critical l (.inr hpc)
        have hl := h.queue.lock.master.range l hlocked
        rcases syncHandleLockRelease_cases s.master.locks hl hheld with
          ⟨next, rest, hqueue, hcall⟩ | ⟨hqueue, -⟩
        · refine .inr (.inr ⟨next, rest, hqueue, ?_, .inr ?_⟩)
          · simp [LockState.setMaster, hcall]
          · simp [LockState.setMaster, hcall]
        · exact absurd hqueue hwaiters
      · exact .inl (syncHandleLockRelease_frame _ _ heq)
  | grant | tcpGrant =>
      refine .inl ?_
      rw [(LockState.sendGrant_frame cl _ _ _).1]
      rfl
  | @receive w msg rest hw htcp hhead =>
      have hsource := (h.queue.lock.link w hw).source msg (by rw [hhead]; exact List.mem_cons_self)
      cases msg with
      | request srcNode l' =>
          by_cases heq : l = l'
          · subst heq
            rcases syncHandleLockRequest_cases s.master.locks srcNode l with
              ⟨-, hfree, -⟩ | ⟨-, hcall⟩ | ⟨_, hcall⟩
            · rw [hlocked] at hfree
              cases hfree
            · refine .inr (.inl ⟨srcNode, ?_⟩)
              simp [LockState.setWorker, LockState.setMaster, MasterNode.handle, hcall]
            · refine .inl ?_
              simp [LockState.setWorker, LockState.setMaster, MasterNode.handle, hcall]
          · exact .inl (syncHandleLockRequest_frame _ _ heq)
      | release srcNode l' =>
          obtain rfl : srcNode = w := hsource
          by_cases heq : l = l'
          · subst heq
            have hheld := h.queue.lock.heldBy_of_released hw hhead
            have hl := h.queue.lock.master.range l hlocked
            rcases syncHandleLockRelease_cases s.master.locks hl hheld with
              ⟨next, rest, hqueue, hcall⟩ | ⟨hqueue, -⟩
            · refine .inr (.inr ⟨next, rest, hqueue, ?_, .inl ?_⟩)
              · simp [LockState.setWorker, LockState.setMaster, MasterNode.handle, hcall]
              · simp [LockState.setWorker, LockState.setMaster, MasterNode.handle, hcall]
            · exact absurd hqueue hwaiters
          · exact .inl (syncHandleLockRelease_frame _ _ heq)

/-- A worker in the queue moves up with each turn that ends, until the grant is its own. -/
theorem leadsTo_granting_of_queued (hfair : LockFair cl r) (hback : GivesBack cl r l) :
    r.LeadsTo (fun s => w ∈ (s.master.locks l).waiters) (fun s => s.master.Granting w l) := by
  refine Machine.Run.LeadsTo.of_measure (fun s => (s.master.locks l).waiters.idxOf w) fun k => ?_
  rintro n ⟨hmem, hk⟩
  have hinv := holderInv_of_run r n
  have hlocked : ((r.state n).master.locks l).locked = true := by
    by_contra hfree
    rw [hinv.free l (Bool.eq_false_iff.mpr hfree)] at hmem
    cases hmem
  let Turn : LockState → Prop := fun s =>
    (s.master.locks l).heldBy ((r.state n).master.locks l).holderId = true ∧
      w ∈ (s.master.locks l).waiters ∧ (s.master.locks l).waiters.idxOf w = k
  have hlasts : r.Unless Turn fun s => (w ∈ (s.master.locks l).waiters ∧
      (s.master.locks l).waiters.idxOf w < k) ∨ s.master.Granting w l := by
    rintro m ⟨hheld, hmem, hk⟩
    rcases masterEffect_or_same r m with ⟨a, -, heffect⟩ | ⟨-, hsame⟩
    · rcases record_of_masterEffect (holderInv_of_run r m) heffect (Lock.heldBy_eq_true.mp hheld).1
        (List.ne_nil_of_mem hmem) with hsame | ⟨node, happend⟩ | ⟨next, rest, hqueue, hrest, hgrant⟩
      · exact .inl (by simp only [Turn, hsame]; exact ⟨hheld, hmem, hk⟩)
      · refine .inl ⟨by rw [happend]; exact hheld, ?_, ?_⟩
        · rw [happend]
          exact List.mem_append_left _ hmem
        · rw [happend, List.idxOf_append_of_mem hmem]
          exact hk
      · rw [hqueue] at hmem hk
        by_cases hnext : next = w
        · exact .inr (.inr (hnext ▸ hgrant))
        · rw [List.idxOf_cons_ne _ hnext] at hk
          refine .inr (.inl ?_)
          rw [hrest]
          exact ⟨(List.mem_cons.mp hmem).resolve_left (Ne.symm hnext), by omega⟩
    · exact .inl (by simp only [Turn, hsame]; exact ⟨hheld, hmem, hk⟩)
  have hheld : ((r.state n).master.locks l).heldBy ((r.state n).master.locks l).holderId = true :=
    Lock.heldBy_eq_true.mpr ⟨hlocked, rfl⟩
  obtain ⟨m, hnm, hend⟩ :=
    (leadsTo_not_held hfair hback (hinv.holder l hlocked)).psp hlasts n ⟨hheld, hheld, hmem, hk⟩
  refine ⟨m, hnm, hend.resolve_left fun hboth => ?_⟩
  exact Bool.noConfusion (hboth.1.symm.trans hboth.2.1)

theorem leadsTo_inside_of_sent (hsize : cl.nodes.length ≤ maxNodes) (hfair : LockFair cl r)
    (hback : GivesBack cl r l) (hw : w ∈ cl.workers) :
    r.LeadsTo (fun s => .request w l ∈ (s.worker w).toMaster)
      (fun s => (s.worker w).inside l = true) := by
  have hgranted : r.LeadsTo (fun s => l ∈ (s.worker w).toWorker)
      (fun s => (s.worker w).inside l = true) :=
    (leadsTo_ready_of_granted hfair hw).trans (leadsTo_inside_of_ready hfair hw)
  have htcp := (leadsTo_granted_of_tcpGrant (l := l) hfair hw).trans hgranted
  have hgranting : r.LeadsTo (fun s => s.master.Granting w l) (fun s => (s.worker w).inside l = true) :=
    htcp.or ((leadsTo_granted_of_grant hfair hw).trans hgranted)
  have hqueued := (leadsTo_granting_of_queued (w := w) hfair hback).trans hgranting
  exact (leadsTo_placed_of_requested (l := l) hfair hsize hw).trans (hqueued.or htcp)

/-- Every `dsm_lock` of a worker returns, in a cluster of at most `DSM_MAX_NODES` nodes where whoever
gets that lock gives it back: no order of the steps starves a worker, neither in the queue nor on its
condition. -/
theorem lock_returns (hsize : cl.nodes.length ≤ maxNodes) (hfair : LockFair cl r)
    (hback : GivesBack cl r l) (hw : w ∈ cl.workers) :
    r.LeadsTo (fun s => (s.worker w).pc = .request l) (fun s => (s.worker w).inside l = true) :=
  (leadsTo_sent_of_request hfair hw).trans (leadsTo_inside_of_sent hsize hfair hback hw)

end Run

/-- As in `contendedRun`, and then each of the two workers gives the lock back. -/
def contendedTurns : List LockAction :=
  contendedRun ++
    [.worker 3 .test, .worker 2 (.unlock 0), .worker 2 .release, .worker 2 .clear,
      .master (.receive 2), .master .tcpGrant, .worker 3 .receive, .worker 3 .wake, .worker 3 .test,
      .worker 3 (.unlock 0), .worker 3 .release, .worker 3 .clear, .master (.receive 3)]

theorem lock_returns_contended : ∃ r : (lockMachine twoWorkers).idling.Run,
    LockFair twoWorkers r ∧ GivesBack twoWorkers r 0 ∧ ((r.state 3).worker 3).pc = .request 0 ∧
      ∃ m, 3 ≤ m ∧ ((r.state m).worker 3).inside 0 = true := by
  have hrun : ((lockMachine twoWorkers).exec .initial contendedTurns).isSome := by decide +kernel
  obtain ⟨t, ht⟩ := Option.isSome_iff_exists.mp hrun
  let M := (lockMachine twoWorkers).idling
  have hexec : M.exec .initial (contendedTurns.map some) = some t := by
    rw [Machine.exec_idling]
    exact ht
  have hidle : M.step t none = some t := rfl
  let r : M.Run := Machine.Run.ofExec rfl hexec hidle
  have hserved : ∀ (waiting : LockState → Bool) (serves : Option LockAction → Bool),
      M.answered waiting serves .initial (contendedTurns.map some) = true →
      ∀ n, waiting (r.state n) = true → ∃ m, n ≤ m ∧ serves (r.act m) = true :=
    fun _ _ h => Machine.Run.ofExec_answered rfl hexec hidle h
  have hacts : ∀ (waiting : LockState → Bool) (a : LockAction),
      M.answered waiting (· == some a) .initial (contendedTurns.map some) = true →
      ∀ n, waiting (r.state n) = true → ∃ m, n ≤ m ∧ r.act m = some a :=
    fun waiting a h n hn => (hserved waiting _ h n hn).imp fun _ hm => ⟨hm.1, beq_iff_eq.mp hm.2⟩
  have htwo : ∀ w ∈ twoWorkers.workers, w = 2 ∨ w = 3 := by decide
  have hfair : LockFair twoWorkers r := by
    refine ⟨fun w hw => ?_, fun w hw n hn => ?_, ?_, fun n hn => ?_, fun w hw n hn => ?_⟩
    · obtain rfl | rfl := htwo w hw
      · exact hserved (fun s => (s.worker 2).pc.runs) _ (by decide +kernel)
      · exact hserved (fun s => (s.worker 3).pc.runs) _ (by decide +kernel)
    · obtain rfl | rfl := htwo w hw
      · exact hacts (fun s => (s.worker 2).toWorker ≠ []) _ (by decide +kernel) n (decide_eq_true hn)
      · exact hacts (fun s => (s.worker 3).toWorker ≠ []) _ (by decide +kernel) n (decide_eq_true hn)
    · exact hserved (fun s => s.master.pc.runs) _ (by decide +kernel)
    · exact hacts (fun s => s.master.tcpGrant ≠ none) _ (by decide +kernel) n (decide_eq_true hn)
    · obtain rfl | rfl := htwo w hw
      · exact hacts (fun s => (s.worker 2).toMaster ≠ []) _ (by decide +kernel) n (decide_eq_true hn)
      · exact hacts (fun s => (s.worker 3).toMaster ≠ []) _ (by decide +kernel) n (decide_eq_true hn)
  have hback : GivesBack twoWorkers r 0 := by
    rintro i n (⟨rfl, hinside⟩ | ⟨hi, hinside⟩)
    · exact hacts (fun s => s.master.inside 0) _ (by decide +kernel) n hinside
    · obtain rfl | rfl := htwo i hi
      · exact hacts (fun s => (s.worker 2).inside 0) _ (by decide +kernel) n hinside
      · exact hacts (fun s => (s.worker 3).inside 0) _ (by decide +kernel) n hinside
  have hrequest : ((r.state 3).worker 3).pc = .request 0 := by
    have hpc : (M.exec .initial ((contendedTurns.map some).take 3)).map (fun s => (s.worker 3).pc) =
        some (.request 0) := by decide +kernel
    obtain ⟨u, hu, hpc⟩ := Option.map_eq_some_iff.mp hpc
    rw [show r.state 3 = u from Machine.Run.ofExec_state rfl hexec hidle hu, hpc]
  exact ⟨r, hfair, hback, hrequest,
    lock_returns (l := 0) (by decide) hfair hback (w := 3) (by decide) 3 hrequest⟩

end Dsm
