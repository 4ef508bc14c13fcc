import Dsm.Sync.LockCluster

/-!
# Local records and the master's record

For a worker and a lock there is one token while the master's record names the worker: a grant that a
thread of the master is about to send, a grant in flight, the local record, or a release in flight.
With one thread for each worker that alternates, the code keeps it. With nested calls or several
threads it does not: `dsm_unlock` sends its release before it clears the local record, so a grant that
is handled in between is erased, and a release that is sent without the token in the local record
leaves a stale grant behind. The records agree at rest in every run in which neither happens.
-/

namespace Dsm

/-- The TCP thread (`none`) or an application thread of the master is about to send a grant of `l`
to `w`. -/
def MasterThreads.Sends (m : MasterThreads) (w : NodeId) (l : LockId) : Option ThreadId → Prop
  | none => m.tcpGrant = some (w, l)
  | some t => m.pc t = .grant l w

def MasterThreads.Sending (m : MasterThreads) (w : NodeId) (l : LockId) : Prop :=
  ∃ thread, m.Sends w l thread

/-- A thread of the worker has sent its release and not cleared the local record yet. -/
def WorkerThreads.Clears (n : WorkerThreads) (l : LockId) : Prop := ∃ t, n.pc t = .clear l

/-- No `LOCK_*` message is in flight or being handled, and no thread is inside `dsm_unlock`. -/
structure LockCluster.AtRest (cl : Cluster) (s : LockCluster) : Prop where
  channels : ∀ w ∈ cl.workers, (s.worker w).toMaster = [] ∧ (s.worker w).toWorker = []
  handled : s.master.tcpGrant = none
  workers : ∀ w ∈ cl.workers, ∀ t l, (s.worker w).pc t ≠ .release l ∧ (s.worker w).pc t ≠ .clear l
  master : ∀ t l, s.master.pc t ≠ .release l ∧ (∀ next, s.master.pc t ≠ .grant l next) ∧
    s.master.pc t ≠ .signal l

/-- A worker's local record says held by itself exactly when the master's record names the worker. -/
def LockCluster.Agrees (cl : Cluster) (s : LockCluster) : Prop :=
  ∀ w ∈ cl.workers, ∀ l,
    ((s.worker w).locks l).heldBy w = true ↔ (s.master.locks l).heldBy w = true

/-- A grant is handled while no thread of the worker is about to clear the record, and a release is
sent only from a record that says held and that no other thread is about to clear. -/
def LockClusterAction.KeepsToken (s : LockCluster) : LockClusterAction → Prop
  | .worker w (.receive _) =>
      ∀ l rest, (s.worker w).toWorker = l :: rest → ¬ (s.worker w).Clears l
  | .worker w (.release t) =>
      ∀ l, (s.worker w).pc t = .release l →
        ((s.worker w).locks l).heldBy w = true ∧ ¬ (s.worker w).Clears l
  | _ => True

/-! ### The token -/

section Token

open Classical in
noncomputable def MasterThreads.pending (m : MasterThreads) (w : NodeId) (l : LockId) : Nat :=
  if m.Sending w l then 1 else 0

open Classical in
/-- The local record says held, and no thread is about to clear it. -/
noncomputable def WorkerThreads.owns (n : WorkerThreads) (w : NodeId) (l : LockId) : Nat :=
  if (n.locks l).heldBy w = true ∧ ¬ n.Clears l then 1 else 0

def WorkerThreads.granted (n : WorkerThreads) (l : LockId) : Nat := n.toWorker.count l

structure TokenInv (w : NodeId) (m : MasterThreads) (n : WorkerThreads) : Prop where
  token : ∀ l, m.pending w l + n.granted l + n.owns w l + n.released w l = (m.locks l).held w
  /-- One thread of the master sends the grant. -/
  sender : ∀ l x y, m.Sends w l x → m.Sends w l y → x = y

variable {w : NodeId} {m m' : MasterThreads} {n n' : WorkerThreads}

theorem MasterThreads.pending_congr {l : LockId} (h : m'.Sending w l ↔ m.Sending w l) :
    m'.pending w l = m.pending w l := by
  rw [MasterThreads.pending, MasterThreads.pending, propext h]

theorem WorkerThreads.owns_congr {l : LockId} (hlocks : n'.locks l = n.locks l)
    (hclears : n'.Clears l ↔ n.Clears l) : n'.owns w l = n.owns w l := by
  rw [WorkerThreads.owns, WorkerThreads.owns, hlocks, propext hclears]

theorem Lock.held_le_one (lock : Lock) (i : NodeId) : lock.held i ≤ 1 := by
  unfold Lock.held
  split <;> omega

theorem TokenInv.heldBy_iff (h : TokenInv w m n) {l : LockId} (hsending : ¬ m.Sending w l)
    (htoMaster : n.toMaster = []) (htoWorker : n.toWorker = []) (hclears : ¬ n.Clears l) :
    (n.locks l).heldBy w = true ↔ (m.locks l).heldBy w = true := by
  have htoken := h.token l
  simp only [MasterThreads.pending, hsending, if_false, WorkerThreads.granted, htoWorker,
    WorkerThreads.released, htoMaster, List.count_nil, WorkerThreads.owns, hclears,
    not_false_eq_true, and_true, Lock.held] at htoken
  by_cases hlocal : (n.locks l).heldBy w = true <;>
    by_cases hmaster : (m.locks l).heldBy w = true <;> simp [hlocal, hmaster] at htoken ⊢

/-- No grant is about to be sent to a worker whose release, if the record names it, is in flight. -/
theorem TokenInv.not_sending (h : TokenInv w m n) {l : LockId}
    (hle : (m.locks l).held w ≤ n.released w l) : ¬ m.Sending w l := by
  intro hbusy
  have htoken := h.token l
  rw [MasterThreads.pending, if_pos hbusy] at htoken
  omega

theorem Lock.held_eq_zero {lock : Lock} {i : NodeId} (h : ¬ lock.heldBy i = true) :
    lock.held i = 0 := by
  rw [Lock.held, if_neg h]

/-! ### Steps of the worker -/

theorem TokenInv.of_worker (h : TokenInv w m n)
    (hsum : ∀ l, n'.granted l + n'.owns w l + n'.released w l =
      n.granted l + n.owns w l + n.released w l) : TokenInv w m n' := by
  refine ⟨fun l => ?_, h.sender⟩
  have htoken := h.token l
  have hkept := hsum l
  omega

theorem WorkerThreads.clears_update {t : ThreadId} {l : LockId} {pc : WorkerLockPc}
    (hpc : n'.pc = Function.update n.pc t pc) (hbefore : n.pc t ≠ .clear l) (hafter : pc ≠ .clear l) :
    n'.Clears l ↔ n.Clears l := by
  constructor
  · rintro ⟨u, hu⟩
    refine ⟨u, ?_⟩
    by_cases heq : u = t
    · subst heq
      simp only [hpc, Function.update_self] at hu
      exact absurd hu hafter
    · rwa [hpc, Function.update_of_ne heq] at hu
  · rintro ⟨u, hu⟩
    have hne : u ≠ t := by
      rintro rfl
      exact hbefore hu
    exact ⟨u, by rwa [hpc, Function.update_of_ne hne]⟩

theorem TokenInv.move (h : TokenInv w m n) (t : ThreadId) (pc : WorkerLockPc)
    (hpc : n'.pc = Function.update n.pc t pc) (hbefore : ∀ l, n.pc t ≠ .clear l)
    (hafter : ∀ l, pc ≠ .clear l) (hlocks : n'.locks = n.locks)
    (htoWorker : n'.toWorker = n.toWorker)
    (hreleased : ∀ l, n'.released w l = n.released w l) : TokenInv w m n' := by
  refine h.of_worker fun l => ?_
  rw [hreleased, WorkerThreads.granted, WorkerThreads.granted, htoWorker,
    WorkerThreads.owns_congr (by rw [hlocks])
      (WorkerThreads.clears_update hpc (hbefore l) (hafter l))]

theorem TokenInv.release {t : ThreadId} {l : LockId} (h : TokenInv w m n)
    (hpc : n.pc t = .release l) (hheld : (n.locks l).heldBy w = true) (hclears : ¬ n.Clears l) :
    TokenInv w m { n.setPc t (.clear l) with toMaster := n.toMaster ++ [.release w l] } := by
  refine h.of_worker fun l' => ?_
  have hreleased : WorkerThreads.released
      { n.setPc t (.clear l) with toMaster := n.toMaster ++ [.release w l] } w l' =
        n.released w l' + if l = l' then 1 else 0 := by
    simp [WorkerThreads.released, List.count_singleton]
  by_cases heq : l = l'
  · subst heq
    have hbefore : n.owns w l = 1 := by rw [WorkerThreads.owns, if_pos ⟨hheld, hclears⟩]
    have hafter : WorkerThreads.owns
        { n.setPc t (.clear l) with toMaster := n.toMaster ++ [.release w l] } w l = 0 := by
      rw [WorkerThreads.owns, if_neg]
      rintro ⟨-, hnone⟩
      exact hnone ⟨t, WorkerThreads.setPc_self ..⟩
    rw [hreleased, if_pos rfl, hbefore, hafter]
    simp only [WorkerThreads.granted, WorkerThreads.setPc_toWorker]
    omega
  · have howns : WorkerThreads.owns
        { n.setPc t (.clear l) with toMaster := n.toMaster ++ [.release w l] } w l' =
          n.owns w l' :=
      WorkerThreads.owns_congr rfl
        (WorkerThreads.clears_update rfl (by simp [hpc]) (by simpa using heq))
    rw [hreleased, if_neg heq, howns]
    rfl

theorem TokenInv.clear {t : ThreadId} {l : LockId} (h : TokenInv w m n) (hpc : n.pc t = .clear l) :
    TokenInv w m { n.setPc t .idle with
      locks := Function.update n.locks l { n.locks l with locked := false, holderId := 0 } } := by
  refine h.of_worker fun l' => ?_
  have howns : WorkerThreads.owns { n.setPc t .idle with
      locks := Function.update n.locks l { n.locks l with locked := false, holderId := 0 } } w l' =
        n.owns w l' := by
    by_cases heq : l' = l
    · subst heq
      have hbefore : n.owns w l' = 0 := by
        rw [WorkerThreads.owns, if_neg]
        exact fun hand => hand.2 ⟨t, hpc⟩
      rw [hbefore, WorkerThreads.owns, if_neg]
      simp
    · refine WorkerThreads.owns_congr (by simp [heq]) (WorkerThreads.clears_update rfl ?_ (by simp))
      simpa [hpc] using Ne.symm heq
  rw [howns]
  rfl

/-- A grant reaches the worker: the token moves from the channel into the local record. -/
theorem TokenInv.receive {l : LockId} {rest : List LockId} {left : List ThreadId}
    (h : TokenInv w m n) (hgrants : n.toWorker = l :: rest) (hclears : ¬ n.Clears l) :
    TokenInv w m { n with
      locks := Function.update n.locks l { n.locks l with locked := true, holderId := w }
      blocked := Function.update n.blocked l left
      toWorker := rest } := by
  refine h.of_worker fun l' => ?_
  have hgranted : n.granted l' = rest.count l' + if l = l' then 1 else 0 := by
    simp [WorkerThreads.granted, hgrants, List.count_cons]
  by_cases heq : l = l'
  · subst heq
    have hbefore : n.owns w l = 0 := by
      have htoken := h.token l
      have honce := (m.locks l).held_le_one w
      rw [hgranted, if_pos rfl] at htoken
      omega
    have hafter : WorkerThreads.owns { n with
        locks := Function.update n.locks l { n.locks l with locked := true, holderId := w }
        blocked := Function.update n.blocked l left
        toWorker := rest } w l = 1 := by
      rw [WorkerThreads.owns, if_pos]
      exact ⟨by simp, hclears⟩
    rw [hgranted, hbefore, hafter, if_pos rfl]
    simp only [WorkerThreads.granted, WorkerThreads.released]
  · have howns : WorkerThreads.owns { n with
        locks := Function.update n.locks l { n.locks l with locked := true, holderId := w }
        blocked := Function.update n.blocked l left
        toWorker := rest } w l' = n.owns w l' :=
      WorkerThreads.owns_congr (by simp [Ne.symm heq]) Iff.rfl
    rw [hgranted, howns, if_neg heq, Nat.add_zero]
    rfl

theorem TokenInv.workerStep {s : LockCluster} {a : WorkerThreadsAction}
    (h : TokenInv w m (s.worker w)) (hok : LockClusterAction.KeepsToken s (.worker w a))
    (hstep : (s.worker w).step w a = some n') : TokenInv w m n' := by
  cases WorkerThreads.step_effect hstep with
  | lock hpc | testEnter hpc | wake hpc | unlock hpc =>
      exact h.move _ _ rfl (by simp [hpc]) (by simp) rfl rfl (fun _ => rfl)
  | testSleep hpc | spurious hpc =>
      exact h.move _ _ rfl (by simp [hpc]) (by simp) rfl rfl (fun _ => rfl)
  | request hpc =>
      refine h.move _ _ rfl (by simp [hpc]) (by simp) rfl rfl (fun l => ?_)
      simp [WorkerThreads.released]
  | release hpc => exact h.release hpc (hok _ hpc).1 (hok _ hpc).2
  | clear hpc => exact h.clear hpc
  | receive hgrants => exact h.receive hgrants (hok _ _ hgrants)

/-! ### Steps of the master -/

theorem TokenInv.quiet (h : TokenInv w m n) (hsends : ∀ l x, m'.Sends w l x ↔ m.Sends w l x)
    (hheld : ∀ l, (m'.locks l).held w = (m.locks l).held w) : TokenInv w m' n := by
  refine ⟨fun l => ?_, fun l x y hx hy => ?_⟩
  · rw [hheld, MasterThreads.pending_congr (exists_congr (hsends l))]
    exact h.token l
  · exact h.sender l x y ((hsends l x).mp hx) ((hsends l y).mp hy)

/-- A thread decides: the token moves between a release, the record and a grant that is still to be
sent. -/
theorem TokenInv.decide (h : TokenInv w m n) (x : Option ThreadId) (l₀ : LockId) (out : LockOutcome)
    (hbefore : ∀ l, ¬ m.Sends w l x) (hafter : ∀ l, m'.Sends w l x ↔ out.grant = some w ∧ l = l₀)
    (hothers : ∀ l y, y ≠ x → (m'.Sends w l y ↔ m.Sends w l y))
    (hnew : out.grant = some w → ¬ m.Sending w l₀)
    (hmove : ∀ l, (m'.locks l).held w + n.released w l =
      (m.locks l).held w + out.grants l₀ w l + n'.released w l)
    (hpc : n'.pc = n.pc) (hlocks : n'.locks = n.locks) (htoWorker : n'.toWorker = n.toWorker) :
    TokenInv w m' n' := by
  have hpending : ∀ l, m'.pending w l = m.pending w l + out.grants l₀ w l := by
    intro l
    by_cases hgrant : out.grant = some w ∧ l = l₀
    · obtain ⟨hout, rfl⟩ := hgrant
      have hbusy : m'.Sending w l := ⟨x, (hafter l).mpr ⟨hout, rfl⟩⟩
      rw [MasterThreads.pending, MasterThreads.pending, if_pos hbusy, if_neg (hnew hout),
        LockOutcome.grants, if_pos ⟨hout, rfl⟩]
    · have hsame : m'.Sending w l ↔ m.Sending w l := by
        refine exists_congr fun y => ?_
        by_cases heq : y = x
        · subst heq
          exact iff_of_false (mt (hafter l).mp hgrant) (hbefore l)
        · exact hothers l y heq
      rw [MasterThreads.pending_congr hsame, LockOutcome.grants, if_neg hgrant, Nat.add_zero]
  refine ⟨fun l => ?_, fun l y z hy hz => ?_⟩
  · have htoken := h.token l
    have hmoved := hmove l
    have howns : n'.owns w l = n.owns w l :=
      WorkerThreads.owns_congr (by rw [hlocks]) (by simp only [WorkerThreads.Clears, hpc])
    rw [hpending, howns, WorkerThreads.granted, htoWorker]
    simp only [WorkerThreads.granted] at htoken
    omega
  · by_cases hyx : y = x <;> by_cases hzx : z = x
    · exact hyx.trans hzx.symm
    · subst hyx
      obtain ⟨hout, rfl⟩ := (hafter l).mp hy
      exact absurd ⟨z, (hothers l z hzx).mp hz⟩ (hnew hout)
    · subst hzx
      obtain ⟨hout, rfl⟩ := (hafter l).mp hz
      exact absurd ⟨y, (hothers l y hyx).mp hy⟩ (hnew hout)
    · exact h.sender l y z ((hothers l y hyx).mp hy) ((hothers l z hzx).mp hz)

theorem TokenInv.send (h : TokenInv w m n) (x : Option ThreadId) (node : NodeId) (l₀ : LockId)
    (hbefore : ∀ l, m.Sends w l x ↔ w = node ∧ l = l₀) (hafter : ∀ l, ¬ m'.Sends w l x)
    (hothers : ∀ l y, y ≠ x → (m'.Sends w l y ↔ m.Sends w l y)) (hrecords : m'.locks = m.locks)
    (hpc : n'.pc = n.pc) (hlocks : n'.locks = n.locks) (htoMaster : n'.toMaster = n.toMaster)
    (hgranted : ∀ l, n'.granted l = n.granted l + if w = node ∧ l = l₀ then 1 else 0) :
    TokenInv w m' n' := by
  have hpending : ∀ l, m.pending w l = m'.pending w l + if w = node ∧ l = l₀ then 1 else 0 := by
    intro l
    by_cases hsent : w = node ∧ l = l₀
    · have hbusy : m.Sends w l x := (hbefore l).mpr hsent
      have hdone : ¬ m'.Sending w l := by
        rintro ⟨y, hy⟩
        by_cases heq : y = x
        · exact hafter l (heq ▸ hy)
        · exact heq (h.sender l y x ((hothers l y heq).mp hy) hbusy)
      rw [MasterThreads.pending, MasterThreads.pending, if_pos ⟨x, hbusy⟩, if_neg hdone,
        if_pos hsent]
    · have hsame : m'.Sending w l ↔ m.Sending w l := by
        refine exists_congr fun y => ?_
        by_cases heq : y = x
        · subst heq
          exact iff_of_false (hafter l) (mt (hbefore l).mp hsent)
        · exact hothers l y heq
      rw [MasterThreads.pending_congr hsame, if_neg hsent, Nat.add_zero]
  refine ⟨fun l => ?_, fun l y z hy hz => ?_⟩
  · have htoken := h.token l
    have hmoved := hpending l
    have howns : n'.owns w l = n.owns w l :=
      WorkerThreads.owns_congr (by rw [hlocks]) (by simp only [WorkerThreads.Clears, hpc])
    rw [hrecords, howns, hgranted, WorkerThreads.released, htoMaster]
    simp only [WorkerThreads.released] at htoken
    omega
  · have hne : ∀ v, m'.Sends w l v → v ≠ x := by
      rintro v hv rfl
      exact hafter l hv
    exact h.sender l y z ((hothers l y (hne y hy)).mp hy) ((hothers l z (hne z hz)).mp hz)

theorem MasterThreads.sends_update {t : ThreadId} {pc : MasterLockPc} {l : LockId}
    (hpc : m'.pc = Function.update m.pc t pc) (htcp : m'.tcpGrant = m.tcpGrant)
    (hbefore : m.pc t ≠ .grant l w) (hafter : pc ≠ .grant l w) (x : Option ThreadId) :
    m'.Sends w l x ↔ m.Sends w l x := by
  cases x with
  | none => simp only [MasterThreads.Sends, htcp]
  | some u =>
      by_cases heq : u = t
      · subst heq
        simp [MasterThreads.Sends, hpc, hbefore, hafter]
      · simp [MasterThreads.Sends, hpc, heq]

theorem MasterThreads.sends_of_ne {t : ThreadId} {pc : MasterLockPc} {l : LockId}
    (hpc : m'.pc = Function.update m.pc t pc) (htcp : m'.tcpGrant = m.tcpGrant)
    {x : Option ThreadId} (hx : x ≠ some t) : m'.Sends w l x ↔ m.Sends w l x := by
  cases x with
  | none => simp only [MasterThreads.Sends, htcp]
  | some u =>
      have hne : u ≠ t := fun heq => hx (congrArg some heq)
      simp [MasterThreads.Sends, hpc, hne]

theorem MasterThreads.sends_app {l : LockId} (hpc : m'.pc = m.pc) {x : Option ThreadId}
    (hx : x ≠ none) : m'.Sends w l x ↔ m.Sends w l x := by
  cases x with
  | none => exact absurd rfl hx
  | some u => simp only [MasterThreads.Sends, hpc]

/-- The master's own release: no worker's token is touched but that of the next holder. -/
theorem TokenInv.masterRelease {t : ThreadId} {l : LockId} {pc : MasterLockPc}
    (h : TokenInv w m n) (hw : w ≠ masterId) (hpc : m.pc t = .release l)
    (hgrant : ∀ next, (syncHandleLockRelease m.locks masterId l).grant = some next →
      pc = .grant l next)
    (hsignal : (syncHandleLockRelease m.locks masterId l).grant = none → pc = .signal l)
    (hpc' : m'.pc = Function.update m.pc t pc) (htcp : m'.tcpGrant = m.tcpGrant)
    (hlocks : m'.locks = (syncHandleLockRelease m.locks masterId l).locks) : TokenInv w m' n := by
  refine h.decide (some t) l (syncHandleLockRelease m.locks masterId l) (fun l' => ?_)
    (fun l' => ?_) (fun l' y hy => MasterThreads.sends_of_ne hpc' htcp hy) (fun hout => ?_)
    (fun l' => ?_) rfl rfl rfl
  · simp [MasterThreads.Sends, hpc]
  · cases hout : (syncHandleLockRelease m.locks masterId l).grant with
    | some next =>
        simp only [MasterThreads.Sends, hpc', Function.update_self, hgrant next hout,
          MasterLockPc.grant.injEq, Option.some.injEq]
        rw [and_comm, @eq_comm _ l]
    | none => simp [MasterThreads.Sends, hpc', hsignal hout]
  · refine h.not_sending ?_
    rcases syncHandleLockRelease_effect m.locks masterId l with
      ⟨_, _, -, hheld, -, -⟩ | ⟨-, -, -, hcall⟩ | ⟨-, hcall⟩
    · rw [Lock.held_eq_zero fun hand => hw (Lock.heldBy_unique hand hheld)]
      exact Nat.zero_le _
    · simp [hcall] at hout
    · simp [hcall] at hout
  · have hmoved := syncHandleLockRelease_held_of_ne m.locks hw l l'
    rw [hlocks]
    omega

theorem TokenInv.masterEnter {t : ThreadId} {l : LockId} (h : TokenInv w m n) (hw : w ≠ masterId)
    (hpc : m.pc t = .acquire l)
    (hfree : (m.locks l).locked = true → (m.locks l).holderId = masterId) :
    TokenInv w { m.setPc t .idle with
      locks := Function.update m.locks l
        { m.locks l with locked := true, holderId := masterId } } n := by
  refine h.quiet (fun l' x => ?_) (fun l' => ?_)
  · exact MasterThreads.sends_update (by rfl) (by rfl) (by simp [hpc]) (by simp) x
  · by_cases heq : l' = l
    · subst heq
      rw [Lock.held_eq_zero, Lock.held_eq_zero]
      · rw [Lock.heldBy_eq_true]
        rintro ⟨hlocked, rfl⟩
        exact hw (hfree hlocked)
      · simp [Ne.symm hw]
    · simp [heq]

theorem LockCluster.granted_deliver {cl : Cluster} {worker : NodeId → WorkerThreads}
    (hw : w ∈ cl.workers) (node : NodeId) (l l' : LockId) :
    (LockCluster.deliver cl worker (some (node, l)) w).granted l' =
      (worker w).granted l' + if w = node ∧ l' = l then 1 else 0 := by
  by_cases heq : w = node
  · subst heq
    simp [LockCluster.deliver, hw, WorkerThreads.granted, List.count_append,
      List.count_singleton, @eq_comm _ l']
  · have hsame : LockCluster.deliver cl worker (some (node, l)) w = worker w := by
      simp only [LockCluster.deliver]
      split <;> simp [heq]
    simp [hsame, heq]

theorem TokenInv.masterStep {cl : Cluster} {worker : NodeId → WorkerThreads}
    {a : MasterThreadsAction} (h : TokenInv w m (worker w)) (hw : w ∈ cl.workers)
    (hown : ∀ msg, a ≠ .handle msg) (hstep : m.step a = some m') :
    TokenInv w m' (LockCluster.deliver cl worker (m.sends a) w) := by
  have hne : w ≠ masterId := Cluster.ne_masterId hw
  cases MasterThreads.step_effect hstep with
  | lock hpc | testSleep hpc | wake hpc | spurious hpc | unlock hpc | signal hpc =>
      refine h.quiet (fun l x => ?_) (fun _ => rfl)
      exact MasterThreads.sends_update (by rfl) (by rfl) (by simp [hpc]) (by simp) x
  | testEnter hpc hfree => exact h.masterEnter hne hpc hfree
  | release hpc hgrant hsignal => exact h.masterRelease hne hpc hgrant hsignal rfl rfl rfl
  | @grant t l next hpc =>
      obtain ⟨hpcs, hlocks, htoMaster⟩ := LockCluster.deliver_frame cl worker (some (next, l)) w
      have hsends : m.sends (.grant t) = some (next, l) := by simp [MasterThreads.sends, hpc]
      rw [hsends]
      refine h.send (some t) next l (fun l' => ?_) (fun l' => ?_)
        (fun l' y hy => MasterThreads.sends_of_ne (by rfl) (by rfl) hy) rfl hpcs hlocks htoMaster
        (fun l' => LockCluster.granted_deliver hw next l l')
      · simp [MasterThreads.Sends, hpc, and_comm, @eq_comm _ w, @eq_comm _ l']
      · simp [MasterThreads.Sends]
  | @tcpGrant node l htcp =>
      obtain ⟨hpcs, hlocks, htoMaster⟩ := LockCluster.deliver_frame cl worker (some (node, l)) w
      have hsends : m.sends .tcpGrant = some (node, l) := htcp
      rw [hsends]
      refine h.send none node l (fun l' => ?_) (fun l' => ?_)
        (fun l' y hy => MasterThreads.sends_app (by rfl) hy) rfl hpcs hlocks htoMaster
        (fun l' => LockCluster.granted_deliver hw node l l')
      · simp [MasterThreads.Sends, htcp, @eq_comm _ w, @eq_comm _ l']
      · simp [MasterThreads.Sends]
  | handle => exact absurd rfl (hown _)

theorem TokenInv.decideTcp {l₀ : LockId} (h : TokenInv w m n) (out : LockOutcome)
    (htcp : m.tcpGrant = none) (hpc' : m'.pc = m.pc) (hlocks' : m'.locks = out.locks)
    (htcp' : m'.tcpGrant = out.grant.map fun i => (i, l₀))
    (hnew : out.grant = some w → (m.locks l₀).held w ≤ n.released w l₀)
    (hmove : ∀ l, (out.locks l).held w + n.released w l =
      (m.locks l).held w + out.grants l₀ w l + n'.released w l)
    (hpc : n'.pc = n.pc) (hlocks : n'.locks = n.locks) (htoWorker : n'.toWorker = n.toWorker) :
    TokenInv w m' n' := by
  refine h.decide none l₀ out (fun l => ?_) (fun l => ?_)
    (fun l y hy => MasterThreads.sends_app hpc' hy) (fun hout => h.not_sending (hnew hout))
    (by rw [hlocks']; exact hmove) hpc hlocks htoWorker
  · simp [MasterThreads.Sends, htcp]
  · cases hout : out.grant with
    | some node => simp [MasterThreads.Sends, htcp', hout, @eq_comm _ l]
    | none => simp [MasterThreads.Sends, htcp', hout]

theorem TokenInv.handle {msg : ToMaster} (h : TokenInv w m n) (hrecords : m.Records)
    (htcp : m.tcpGrant = none)
    (hreleased : ∀ l, n.released w l = n'.released w l + if msg = .release w l then 1 else 0)
    (hpc : n'.pc = n.pc) (hlocks : n'.locks = n.locks) (htoWorker : n'.toWorker = n.toWorker) :
    TokenInv w (m.handle msg) n' := by
  cases msg with
  | request srcNode l₀ =>
      refine h.decideTcp (syncHandleLockRequest m.locks srcNode l₀) htcp rfl rfl rfl
        (fun hout => ?_) (fun l => ?_) hpc hlocks htoWorker
      · rcases syncHandleLockRequest_cases m.locks srcNode l₀ with
          ⟨-, hfree, -⟩ | ⟨-, hcall⟩ | ⟨_, hcall⟩
        · rw [Lock.held_eq_zero (by simp [hfree])]
          exact Nat.zero_le _
        · simp [hcall] at hout
        · simp [hcall] at hout
      · have hmoved := syncHandleLockRequest_held m.locks srcNode l₀ w l
        have hsame := hreleased l
        rw [if_neg (by simp)] at hsame
        omega
  | release srcNode l₀ =>
      by_cases hsrc : w = srcNode
      · subst hsrc
        have hone : 1 ≤ n.released w l₀ := by
          have hsame := hreleased l₀
          rw [if_pos rfl] at hsame
          omega
        have hheld : (m.locks l₀).heldBy w = true := by
          by_contra hnot
          have htoken := h.token l₀
          rw [Lock.held_eq_zero hnot] at htoken
          omega
        have hl : l₀ < maxLocks := hrecords.range l₀ (Lock.heldBy_eq_true.mp hheld).1
        refine h.decideTcp (syncHandleLockRelease m.locks w l₀) htcp rfl rfl rfl
          (fun _ => (Lock.held_le_one _ _).trans hone) (fun l => ?_) hpc hlocks htoWorker
        have hmoved := syncHandleLockRelease_held m.locks hl hheld w l
        have hsame := hreleased l
        simp only [ToMaster.release.injEq, true_and, @eq_comm _ l₀] at hsame hmoved
        omega
      · refine h.decideTcp (syncHandleLockRelease m.locks srcNode l₀) htcp rfl rfl rfl
          (fun hout => ?_) (fun l => ?_) hpc hlocks htoWorker
        · rcases syncHandleLockRelease_effect m.locks srcNode l₀ with
            ⟨_, _, -, hheld, -, -⟩ | ⟨-, -, -, hcall⟩ | ⟨-, hcall⟩
          · rw [Lock.held_eq_zero fun hand => hsrc (Lock.heldBy_unique hand hheld)]
            exact Nat.zero_le _
          · simp [hcall] at hout
          · simp [hcall] at hout
        · have hmoved := syncHandleLockRelease_held_of_ne m.locks hsrc l₀ l
          have hsame := hreleased l
          rw [if_neg (by simp [Ne.symm hsrc])] at hsame
          omega

end Token

/-! ### Runs -/

structure RestInv (cl : Cluster) (s : LockCluster) : Prop where
  reachable : (lockCluster cl).Reachable s
  token : ∀ w ∈ cl.workers, TokenInv w s.master (s.worker w)

namespace RestInv

variable {cl : Cluster} {s t : LockCluster}

theorem initial : RestInv cl .initial := by
  refine ⟨.start rfl, fun w _ => ⟨fun l => ?_, ?_⟩⟩
  · have hsending : ¬ LockCluster.initial.master.Sending w l := by
      rintro ⟨_ | u, hu⟩ <;> cases hu
    rw [MasterThreads.pending, if_neg hsending]
    simp [LockCluster.initial, MasterThreads.initial, WorkerThreads.granted, WorkerThreads.owns,
      WorkerThreads.released, Lock.free, Lock.held]
  · rintro l (_ | u) y hu <;> cases hu

theorem step {a : LockClusterAction} (h : RestInv cl s) (hok : a.KeepsToken s)
    (hstep : s.step cl a = some t) : RestInv cl t := by
  refine ⟨h.reachable.step a hstep, fun w hw => ?_⟩
  cases LockCluster.step_effect hstep with
  | master hown hm => exact (h.token w hw).masterStep hw hown hm
  | @receive v msg rest hv hhead htcp =>
      have hrecords := LockCluster.records_of_reachable h.reachable
      by_cases heq : w = v
      · subst heq
        refine (h.token w hw).handle hrecords htcp (fun l => ?_) ?_ ?_ ?_
        · simp [WorkerThreads.released, hhead, List.count_cons]
        all_goals simp
      · refine (h.token w hw).handle hrecords htcp (fun l => ?_) ?_ ?_ ?_
        · have hother : msg ≠ .release w l := by
            rintro rfl
            exact heq (LockCluster.sources_of_reachable h.reachable v hv (.release w l)
              (by rw [hhead]; exact List.mem_cons_self))
          simp [heq, hother]
        all_goals simp [heq]
  | @worker v b n k hv hn =>
      by_cases heq : w = v
      · subst heq
        simpa using (h.token w hw).workerStep hok hn
      · simpa [heq] using h.token w hw

theorem agrees (h : RestInv cl s) (hrest : s.AtRest cl) : s.Agrees cl := by
  intro w hw l
  obtain ⟨htoMaster, htoWorker⟩ := hrest.channels w hw
  refine (h.token w hw).heldBy_iff ?_ htoMaster htoWorker ?_
  · rintro ⟨_ | u, hu⟩
    · have htcp : s.master.tcpGrant = some (w, l) := hu
      rw [hrest.handled] at htcp
      cases htcp
    · exact (hrest.master u l).2.1 w hu
  · rintro ⟨u, hu⟩
    exact (hrest.workers w hw u l).2 hu

end RestInv

/-- In every run in which no grant is erased and no release is sent without the token, the workers'
local records agree with the master's at rest, with any number of threads and nested calls. -/
theorem lock_records_agree {cl : Cluster} {t : LockCluster} {as : List LockClusterAction}
    (hexec : (lockCluster cl).exec .initial as = some t)
    (hok : (lockCluster cl).EachStep (fun s a => a.KeepsToken s) .initial as) :
    (lockCluster cl).Always (fun s => s.AtRest cl → s.Agrees cl) .initial as :=
  Machine.always_of_eachStep (fun _ (h : RestInv cl _) => h.agrees)
    (fun _ _ _ h hok hstep => h.step hok hstep) .initial hexec hok

/-- A run of thread 0 of worker 2 alone that ends with the thread outside of its calls. -/
theorem LockCluster.atRest_of_exec {as : List LockClusterAction} {t : LockCluster}
    (hexec : (lockCluster oneWorker).exec .initial as = some t)
    (hmoves : ∀ a ∈ as, ∀ i u, a.Moves i u → i = 2 ∧ u = 0) (hpc : (t.worker 2).pc 0 = .idle)
    (hchannels : (t.worker 2).toMaster = [] ∧ (t.worker 2).toWorker = [])
    (htcp : t.master.tcpGrant = none) : t.AtRest oneWorker := by
  have hworker : ∀ u, (t.worker 2).pc u = .idle := by
    intro u
    by_cases heq : u = 0
    · rw [heq, hpc]
    · exact idle_of_exec hexec fun a ha hmove => heq (hmoves a ha 2 u hmove).2
  have hmaster : ∀ u, t.master.pc u = .idle := fun u =>
    master_idle_of_exec hexec fun a ha hmove =>
      absurd (hmoves a ha masterId u hmove).1 (by decide)
  refine ⟨fun w hw => ?_, htcp, fun w hw u l => ?_, fun u l => ?_⟩
  · rw [List.mem_singleton.mp hw]
    exact hchannels
  · rw [List.mem_singleton.mp hw, hworker u]
    exact ⟨nofun, nofun⟩
  · rw [hmaster u]
    exact ⟨nofun, fun _ => nofun, nofun⟩

/-- Thread 0 of worker 2 acquires lock 0. -/
def acquiredRun : List LockClusterAction :=
  [.worker 2 (.lock 0 0), .worker 2 (.request 0), .receive 2, .master .tcpGrant,
    .worker 2 (.receive none), .worker 2 (.test 0)]

theorem lock_records_agree_acquired : ∃ t,
    (lockCluster oneWorker).exec .initial acquiredRun = some t ∧ t.AtRest oneWorker ∧
      (t.worker 2).locks 0 = { Lock.free with locked := true, holderId := 2 } ∧
      t.Agrees oneWorker := by
  have hok : (lockCluster oneWorker).EachStep (fun s a => a.KeepsToken s) .initial acquiredRun := by
    obtain ⟨s, u, hexec, hpc, hgrant⟩ : ∃ s u,
        (lockCluster oneWorker).exec .initial (acquiredRun.take 4) = some s ∧
          (s.worker 2).pc 0 = .wait 0 ∧
          s.step oneWorker (.worker 2 (.receive none)) = some u := ⟨_, _, rfl, rfl, rfl⟩
    refine (Machine.eachStep_append hexec).mpr ⟨?_, (Machine.eachStep_cons hgrant).mpr ⟨?_, ?_⟩⟩
    · exact Machine.eachStep_of_forall (by simp [acquiredRun, LockClusterAction.KeepsToken])
    · rintro l rest - ⟨v, hv⟩
      by_cases heq : v = 0
      · rw [heq, hpc] at hv
        cases hv
      · have hidle : (s.worker 2).pc v = .idle :=
          LockCluster.idle_of_exec hexec (by simp [acquiredRun, LockClusterAction.Moves,
            WorkerThreadsAction.thread, MasterThreadsAction.thread, Ne.symm heq])
        rw [hidle] at hv
        cases hv
    · exact Machine.eachStep_of_forall (by simp [LockClusterAction.KeepsToken])
  obtain ⟨t, hexec, hpc, hchannels, htcp, hlocal⟩ : ∃ t,
      (lockCluster oneWorker).exec .initial acquiredRun = some t ∧ (t.worker 2).pc 0 = .idle ∧
        ((t.worker 2).toMaster = [] ∧ (t.worker 2).toWorker = []) ∧ t.master.tcpGrant = none ∧
        (t.worker 2).locks 0 = { Lock.free with locked := true, holderId := 2 } :=
    ⟨_, rfl, rfl, by decide, rfl, rfl⟩
  have hrest : t.AtRest oneWorker :=
    LockCluster.atRest_of_exec hexec (by simp [acquiredRun, LockClusterAction.Moves,
      WorkerThreadsAction.thread, MasterThreadsAction.thread]) hpc hchannels htcp
  exact ⟨t, hexec, hrest, hlocal, (lock_records_agree hexec hok).last hexec hrest⟩

/-- The thread acquires the lock twice and releases it once. The grant for its second request is
handled between the send of the release and the clearing of the record, and is erased. -/
theorem lock_records_disagree : ∃ t, (lockCluster oneWorker).exec .initial (acquiredRun ++
    [.worker 2 (.lock 0 0), .worker 2 (.request 0), .worker 2 (.test 0), .worker 2 (.unlock 0 0),
      .worker 2 (.release 0), .receive 2, .receive 2, .master .tcpGrant, .worker 2 (.receive none),
      .worker 2 (.clear 0)]) = some t ∧ t.AtRest oneWorker ∧ ¬ t.Agrees oneWorker := by
  obtain ⟨t, hexec, hpc, hchannels, htcp, hlocal, hmaster⟩ : ∃ t,
      (lockCluster oneWorker).exec .initial (acquiredRun ++
        [.worker 2 (.lock 0 0), .worker 2 (.request 0), .worker 2 (.test 0),
          .worker 2 (.unlock 0 0), .worker 2 (.release 0), .receive 2, .receive 2,
          .master .tcpGrant, .worker 2 (.receive none), .worker 2 (.clear 0)]) = some t ∧
        (t.worker 2).pc 0 = .idle ∧
        ((t.worker 2).toMaster = [] ∧ (t.worker 2).toWorker = []) ∧ t.master.tcpGrant = none ∧
        ((t.worker 2).locks 0).heldBy 2 = false ∧ (t.master.locks 0).heldBy 2 = true :=
    ⟨_, rfl, rfl, by decide, rfl, rfl, rfl⟩
  refine ⟨t, hexec, LockCluster.atRest_of_exec hexec ?_ hpc hchannels htcp, fun hagrees => ?_⟩
  · simp [acquiredRun, LockClusterAction.Moves, WorkerThreadsAction.thread,
      MasterThreadsAction.thread]
  · have hheld := (hagrees 2 List.mem_cons_self 0).mpr hmaster
    rw [hlocal] at hheld
    cases hheld

end Dsm
