import Dsm.Sync.BarrierMachine
import Mathlib.Data.List.Count
import Mathlib.Data.List.Perm.Subperm

/-!
# Barrier safety

The arrivals of a node are all accounted for: each was consumed by a completed barrier, is recorded,
is on its way, or has not been sent. A worker returns once for each release it gets, and the master
returns only after a reset that follows its own arrival. Since a node arrives again only after it
has returned, it is recorded at most once, so a full barrier has recorded every node.
-/

namespace Dsm

/-- The barriers that are complete, with the one whose releases are being sent. -/
def BarrierMaster.done (m : BarrierMaster) : Nat :=
  m.completed + if m.releasing.isSome then 1 else 0

/-- The releases for `w` that the loop of the handler has still to send. -/
def BarrierMaster.unsent (m : BarrierMaster) (w : NodeId) : Nat :=
  match m.releasing with
  | some (_, rest) => rest.count w
  | none => 0

structure BarrierMasterInv (cl : Cluster) (m : BarrierMaster) : Prop where
  arrivals : m.calls = m.completed + m.barrier.arrived.count masterId +
    if m.pc = .enter then 1 else 0
  calls : m.calls = m.rets + if m.pc = .idle then 0 else 1
  rets : m.rets ≤ m.completed
  ident : m.barrier.barrierId = m.completed % 2 ^ 32
  waits : ∀ currentId, m.pc = .waiting currentId ∨ m.pc = .woken currentId →
    ∃ g, currentId = g % 2 ^ 32 ∧ m.rets ≤ g ∧ g ≤ m.completed
  nodup : m.barrier.arrived.Nodup
  nodes : ∀ i ∈ m.barrier.arrived, i ∈ cl.nodes
  full : m.releasing.isSome → cl.nodes.length ≤ m.barrier.arrived.length
  thread : ∀ rest, m.releasing = some (.app, rest) → m.pc = .inHandler

/-- What links worker `w` and its channels to the master's barrier. -/
structure BarrierLinkInv (w : NodeId) (m : BarrierMaster) (n : BarrierWorker) : Prop where
  arrivals : n.calls = m.completed + m.barrier.arrived.count w + n.toMaster.count w +
    if n.pc = .send then 1 else 0
  calls : n.calls = n.rets + if n.pc = .idle then 0 else 1
  releases : n.rets + (if n.pc = .woken then 1 else 0) + n.toWorker + m.unsent w ≤ m.done
  source : ∀ srcNode ∈ n.toMaster, srcNode = w

structure BarrierInv (cl : Cluster) (s : BarrierState) : Prop where
  master : BarrierMasterInv cl s.master
  link : ∀ w ∈ cl.workers, BarrierLinkInv w s.master (s.worker w)

theorem BarrierInv.initial (cl : Cluster) : BarrierInv cl .initial := by
  refine ⟨⟨?_, ?_, ?_, ?_, ?_, ?_, ?_, ?_, ?_⟩, fun w _ => ⟨?_, ?_, ?_, ?_⟩⟩ <;>
    simp [BarrierState.initial, BarrierMaster.unsent]

/-! ### Steps of a worker -/

theorem BarrierLinkInv.step {w : NodeId} {m : BarrierMaster} {n n' : BarrierWorker}
    {a : BarrierWorkerAction} (h : BarrierLinkInv w m n) (hstep : n.step w a = some n') :
    BarrierLinkInv w m n' := by
  obtain ⟨harrivals, hcalls, hreleases, hsource⟩ := h
  cases a with
  | call =>
      simp only [BarrierWorker.step, Option.ite_none_right_eq_some, Option.some.injEq] at hstep
      obtain ⟨hpc, rfl⟩ := hstep
      simp only [hpc, reduceCtorEq, if_true, if_false] at harrivals hcalls hreleases
      refine ⟨?_, ?_, ?_, hsource⟩ <;> simp <;> omega
  | send =>
      simp only [BarrierWorker.step, Option.ite_none_right_eq_some, Option.some.injEq] at hstep
      obtain ⟨hpc, rfl⟩ := hstep
      simp only [hpc, reduceCtorEq, if_true, if_false] at harrivals hcalls hreleases
      refine ⟨?_, ?_, ?_, fun srcNode hmem => ?_⟩
      · simp [List.count_append]
        omega
      · simpa using hcalls
      · simpa using hreleases
      · rcases List.mem_append.mp hmem with hmem | hmem
        · exact hsource srcNode hmem
        · exact List.mem_singleton.mp hmem
  | wait =>
      simp only [BarrierWorker.step, Option.ite_none_right_eq_some, Option.some.injEq] at hstep
      obtain ⟨hpc, rfl⟩ := hstep
      simp only [hpc, reduceCtorEq, if_false] at harrivals hcalls hreleases
      exact ⟨by simpa using harrivals, by simpa using hcalls, by simpa using hreleases, hsource⟩
  | receive =>
      cases hrest : n.toWorker with
      | zero => simp [BarrierWorker.step, hrest] at hstep
      | succ rest =>
          simp only [BarrierWorker.step, hrest, Option.some.injEq] at hstep
          subst hstep
          rw [hrest] at hreleases
          by_cases hpc : n.pc = .waiting
          · simp only [hpc, reduceCtorEq, if_false] at harrivals hcalls hreleases
            refine ⟨?_, ?_, ?_, hsource⟩ <;> simp [hpc] <;> omega
          · refine ⟨?_, ?_, ?_, hsource⟩ <;> simp only [hpc, if_false] <;> omega
  | ret =>
      simp only [BarrierWorker.step, Option.ite_none_right_eq_some, Option.some.injEq] at hstep
      obtain ⟨hpc, rfl⟩ := hstep
      simp only [hpc, reduceCtorEq, if_true, if_false] at harrivals hcalls hreleases
      refine ⟨?_, ?_, ?_, hsource⟩ <;> simp <;> omega

/-! ### Steps of the master -/

theorem BarrierLinkInv.congr_master {w : NodeId} {m m' : BarrierMaster} {n : BarrierWorker}
    (h : BarrierLinkInv w m n) (hbarrier : m'.barrier = m.barrier)
    (hreleasing : m'.releasing = m.releasing) (hcompleted : m'.completed = m.completed) :
    BarrierLinkInv w m' n := by
  refine ⟨?_, h.calls, ?_, h.source⟩
  · rw [hbarrier, hcompleted]
    exact h.arrivals
  · rw [BarrierMaster.unsent, BarrierMaster.done, hreleasing, hcompleted]
    exact h.releases

theorem BarrierMaster.done_of_free {m : BarrierMaster} (hfree : m.releasing = none) :
    m.done = m.completed := by
  simp [BarrierMaster.done, hfree]

theorem BarrierLinkInv.not_mem_arrived {w : NodeId} {m : BarrierMaster} {n : BarrierWorker}
    (h : BarrierLinkInv w m n) (hfree : m.releasing = none) (hsent : w ∈ n.toMaster) :
    w ∉ m.barrier.arrived := by
  have harrivals := h.arrivals
  have hcalls := h.calls
  have hreleases := h.releases
  have hone : 1 ≤ n.toMaster.count w := List.one_le_count_iff.mpr hsent
  rw [BarrierMaster.done_of_free hfree] at hreleases
  rw [← List.count_eq_zero]
  split at hcalls <;> omega

theorem BarrierMasterInv.not_mem_arrived {cl : Cluster} {m : BarrierMaster}
    (h : BarrierMasterInv cl m) (hpc : m.pc = .enter) : masterId ∉ m.barrier.arrived := by
  have harrivals := h.arrivals
  have hcalls := h.calls
  have hrets := h.rets
  rw [hpc, if_pos rfl] at harrivals
  rw [hpc, if_neg (by simp)] at hcalls
  rw [← List.count_eq_zero]
  omega

theorem BarrierMasterInv.arrive {cl : Cluster} {m : BarrierMaster} {thread : BarrierThread}
    {fromNode : NodeId} {pc : BarrierMasterPc} (h : BarrierMasterInv cl m)
    (hnew : fromNode ∉ m.barrier.arrived) (hmem : fromNode ∈ cl.nodes)
    (harrivals : m.calls = m.completed + (m.barrier.arrived ++ [fromNode]).count masterId +
      if pc = .enter then 1 else 0)
    (hidle : pc = .idle ↔ m.pc = .idle)
    (hwaits : ∀ currentId, pc = .waiting currentId ∨ pc = .woken currentId →
      m.pc = .waiting currentId ∨ m.pc = .woken currentId)
    (hthread : ∀ rest, (m.arrive cl thread fromNode).releasing = some (.app, rest) →
      pc = .inHandler) :
    BarrierMasterInv cl { m.arrive cl thread fromNode with pc := pc } := by
  refine ⟨harrivals, ?_, h.rets, h.ident, fun currentId hpc => h.waits currentId (hwaits _ hpc), ?_,
    fun i hi => ?_, fun hfull => ?_, hthread⟩
  · simp only [hidle]
    exact h.calls
  · exact List.nodup_append.mpr ⟨h.nodup, List.nodup_singleton _, fun a ha b hb => by
      rintro rfl
      exact hnew (List.mem_singleton.mp hb ▸ ha)⟩
  · rcases List.mem_append.mp hi with hi | hi
    · exact h.nodes i hi
    · rw [List.mem_singleton.mp hi]
      exact hmem
  · by_contra hnot
    simp [BarrierMaster.arrive] at hfull hnot
    omega

theorem BarrierLinkInv.arrive {cl : Cluster} {w : NodeId} {m : BarrierMaster} {n : BarrierWorker}
    {thread : BarrierThread} {fromNode : NodeId} {sent : List NodeId} (h : BarrierLinkInv w m n)
    (hfree : m.releasing = none) (hnodup : (m.barrier.arrived ++ [fromNode]).Nodup)
    (hsource : ∀ srcNode ∈ sent, srcNode = w)
    (hsent : n.toMaster.count w = sent.count w + if fromNode = w then 1 else 0) :
    BarrierLinkInv w (m.arrive cl thread fromNode) { n with toMaster := sent } := by
  have harrivals := h.arrivals
  have hreleases := h.releases
  rw [BarrierMaster.done_of_free hfree] at hreleases
  refine ⟨?_, h.calls, ?_, hsource⟩
  · have hcount : [fromNode].count w = if fromNode = w then 1 else 0 := by
      simp [List.count_singleton]
    simp only [BarrierMaster.arrive, List.count_append, hcount]
    omega
  · have honce := List.nodup_iff_count_le_one.mp hnodup w
    by_cases hfull : cl.nodes.length ≤ (m.barrier.arrived ++ [fromNode]).length
    · simp only [BarrierMaster.unsent, BarrierMaster.done, BarrierMaster.arrive, if_pos hfull,
        Option.isSome_some, if_true]
      omega
    · simp only [BarrierMaster.unsent, BarrierMaster.done, BarrierMaster.arrive, if_neg hfull,
        Option.isSome_none]
      simp
      omega

/-- The wait loop of the master lets it go only when its own barrier is complete. -/
theorem BarrierMasterInv.test {cl : Cluster} {m : BarrierMaster} {currentId g : Nat}
    (h : BarrierMasterInv cl m) (hpc : m.pc ≠ .idle ∧ m.pc ≠ .enter ∧ m.pc ≠ .inHandler)
    (hcurrent : currentId = g % 2 ^ 32) (hlow : m.rets ≤ g) (hhigh : g ≤ m.completed) :
    BarrierMasterInv cl (m.test currentId) := by
  obtain ⟨hidle, henter, hhandler⟩ := hpc
  have harrivals := h.arrivals
  have hcalls := h.calls
  have hfree : ∀ rest, m.releasing ≠ some (.app, rest) := fun rest hsome =>
    hhandler (h.thread rest hsome)
  rw [if_neg henter] at harrivals
  rw [if_neg hidle] at hcalls
  unfold BarrierMaster.test
  split
  · refine ⟨by simpa using harrivals, by simpa using hcalls, h.rets, h.ident, fun c hc => ?_,
      h.nodup, h.nodes, h.full, fun rest hsome => absurd hsome (hfree rest)⟩
    have heq : currentId = c := by simpa using hc
    exact ⟨g, heq ▸ hcurrent, hlow, hhigh⟩
  · rename_i hleave
    have hrets : m.rets + 1 ≤ m.completed := by
      by_cases hident : m.barrier.barrierId = currentId
      · have hempty : m.barrier.arrived = [] := by
          rw [← List.length_eq_zero_iff]
          omega
        rw [hempty, List.count_nil] at harrivals
        omega
      · have hne : g ≠ m.completed := by
          rintro rfl
          exact hident (h.ident.trans hcurrent.symm)
        omega
    exact ⟨by simpa using harrivals, by simpa using hcalls, hrets, h.ident, by simp, h.nodup,
      h.nodes, h.full, fun rest hsome => absurd hsome (hfree rest)⟩

theorem BarrierMasterInv.mem_arrived {cl : Cluster} {m : BarrierMaster} {i : NodeId}
    (h : BarrierMasterInv cl m) (hfull : m.releasing.isSome) (hi : i ∈ cl.nodes) :
    i ∈ m.barrier.arrived := by
  have hsub : m.barrier.arrived.Subperm cl.nodes := List.subperm_of_subset h.nodup h.nodes
  exact (hsub.perm_of_length_le (h.full hfull)).mem_iff.mpr hi

theorem BarrierMasterInv.count_arrived {cl : Cluster} {m : BarrierMaster} {i : NodeId}
    (h : BarrierMasterInv cl m) (hfull : m.releasing.isSome) (hi : i ∈ cl.nodes) :
    m.barrier.arrived.count i = 1 :=
  List.count_eq_one_of_mem h.nodup (h.mem_arrived hfull hi)

theorem BarrierMasterInv.reset {cl : Cluster} {m : BarrierMaster} {thread : BarrierThread}
    {rest : List NodeId} (h : BarrierMasterInv cl m) (hreleasing : m.releasing = some (thread, rest)) :
    BarrierMasterInv cl (m.reset thread) := by
  have hone : m.barrier.arrived.count masterId = 1 :=
    h.count_arrived (by rw [hreleasing]; rfl) (List.mem_cons_self)
  have harrivals := h.arrivals
  have hcalls := h.calls
  have hrets := h.rets
  rw [hone] at harrivals
  have henter : m.pc ≠ .enter := by
    intro hpc
    rw [hpc, if_pos rfl] at harrivals
    rw [hpc, if_neg (by simp)] at hcalls
    omega
  rw [if_neg henter] at harrivals
  have hpc : (m.reset thread).pc ≠ .enter ∧ ((m.reset thread).pc = .idle ↔ m.pc = .idle) ∧
      ∀ c, (m.reset thread).pc = .waiting c ∨ (m.reset thread).pc = .woken c →
        m.pc = .waiting c ∨ m.pc = .woken c := by
    cases thread with
    | app => simp [BarrierMaster.reset, h.thread rest hreleasing]
    | tcp => cases hold : m.pc <;> simp_all [BarrierMaster.reset]
  refine ⟨?_, ?_, ?_, ?_, fun c hc => ?_, List.nodup_nil, by simp [BarrierMaster.reset],
    by simp [BarrierMaster.reset], by simp [BarrierMaster.reset]⟩
  · rw [if_neg hpc.1]
    simpa [BarrierMaster.reset] using harrivals
  · simp only [hpc.2.1]
    exact hcalls
  · simp only [BarrierMaster.reset]
    omega
  · simp only [BarrierMaster.reset, h.ident]
    omega
  · obtain ⟨g, hg, hlow, hhigh⟩ := h.waits c (hpc.2.2 c hc)
    exact ⟨g, hg, hlow, Nat.le_succ_of_le hhigh⟩

theorem BarrierLinkInv.reset {cl : Cluster} {w : NodeId} {m : BarrierMaster} {n : BarrierWorker}
    {thread : BarrierThread} (h : BarrierLinkInv w m n) (hm : BarrierMasterInv cl m)
    (hw : w ∈ cl.workers) (hreleasing : m.releasing = some (thread, [])) :
    BarrierLinkInv w (m.reset thread) n := by
  have hone : m.barrier.arrived.count w = 1 :=
    hm.count_arrived (by rw [hreleasing]; rfl) (List.mem_cons_of_mem _ hw)
  have harrivals := h.arrivals
  have hreleases := h.releases
  refine ⟨?_, h.calls, ?_, h.source⟩
  · simp only [BarrierMaster.reset, List.count_nil]
    omega
  · simp only [BarrierMaster.unsent, BarrierMaster.done, hreleasing, Option.isSome_some, if_true,
      List.count_nil] at hreleases
    simpa [BarrierMaster.unsent, BarrierMaster.done, BarrierMaster.reset] using hreleases

theorem BarrierInv.arrived_nodup {cl : Cluster} {s : BarrierState} {fromNode : NodeId}
    (h : BarrierInv cl s) (hnew : fromNode ∉ s.master.barrier.arrived) :
    (s.master.barrier.arrived ++ [fromNode]).Nodup :=
  List.nodup_append.mpr ⟨h.master.nodup, List.nodup_singleton _, fun a ha b hb => by
    rintro rfl
    exact hnew (List.mem_singleton.mp hb ▸ ha)⟩

theorem BarrierInv.enter {cl : Cluster} {s t : BarrierState} (h : BarrierInv cl s)
    (hstep : s.masterStep cl .enter = some t) : BarrierInv cl t := by
  simp only [BarrierState.masterStep, Option.ite_none_right_eq_some, Option.some.injEq] at hstep
  obtain ⟨⟨hpc, hfree⟩, rfl⟩ := hstep
  have hnew := h.master.not_mem_arrived hpc
  have harrivals := h.master.arrivals
  rw [hpc, if_pos rfl] at harrivals
  refine ⟨h.master.arrive hnew (List.mem_cons_self) ?_ ?_ ?_ ?_, fun w hw => ?_⟩
  · have hleave : (if (s.master.arrive cl .app masterId).releasing = none then BarrierMasterPc.read
        else .inHandler) ≠ .enter := by split <;> simp
    rw [if_neg hleave, List.count_append, List.count_singleton_self]
    omega
  · split <;> simp [hpc]
  · split <;> simp
  · intro rest hsome
    rw [if_neg (by rw [hsome]; simp)]
  · have hne : masterId ≠ w := (Cluster.ne_masterId hw).symm
    have hlink : BarrierLinkInv w (s.master.arrive cl .app masterId) (s.worker w) :=
      (h.link w hw).arrive hfree (h.arrived_nodup hnew) (h.link w hw).source (by rw [if_neg hne]; rfl)
    exact hlink.congr_master rfl rfl rfl

theorem BarrierInv.receive {cl : Cluster} {s t : BarrierState} {w : NodeId} (h : BarrierInv cl s)
    (hstep : s.masterStep cl (.receive w) = some t) : BarrierInv cl t := by
  cases hsent : (s.worker w).toMaster with
  | nil => simp [BarrierState.masterStep, hsent] at hstep
  | cons srcNode rest =>
      simp only [BarrierState.masterStep, hsent, Option.ite_none_right_eq_some,
        Option.some.injEq] at hstep
      obtain ⟨⟨hw, hfree⟩, rfl⟩ := hstep
      have hlink := h.link w hw
      have hmem : srcNode ∈ (s.worker w).toMaster := by
        rw [hsent]
        exact List.mem_cons_self
      obtain rfl : srcNode = w := hlink.source srcNode hmem
      have hnew := hlink.not_mem_arrived hfree hmem
      have hne : srcNode ≠ masterId := Cluster.ne_masterId hw
      refine ⟨?_, fun i hi => ?_⟩
      · have harrive : BarrierMasterInv cl
            { s.master.arrive cl .tcp srcNode with pc := s.master.pc } := by
          refine h.master.arrive hnew (List.mem_cons_of_mem _ hw) ?_ Iff.rfl (fun _ hpc => hpc)
            (fun rest' hsome => ?_)
          · rw [List.count_append, List.count_singleton, beq_false_of_ne hne]
            simpa using h.master.arrivals
          · simp [BarrierMaster.arrive] at hsome
        exact harrive
      · by_cases heq : i = srcNode
        · subst heq
          have harrive : BarrierLinkInv i (s.master.arrive cl .tcp i)
              { s.worker i with toMaster := rest } := by
            refine hlink.arrive hfree (h.arrived_nodup hnew) (fun x hx => ?_) (by simp [hsent])
            exact hlink.source x (by rw [hsent]; exact List.mem_cons_of_mem _ hx)
          simpa [BarrierState.setWorker, BarrierState.setMaster] using harrive
        · have harrive : BarrierLinkInv i (s.master.arrive cl .tcp srcNode) (s.worker i) :=
            (h.link i hi).arrive hfree (h.arrived_nodup hnew) (h.link i hi).source
              (by rw [if_neg (Ne.symm heq)]; rfl)
          simpa [BarrierState.setWorker, BarrierState.setMaster, heq] using harrive

theorem BarrierInv.visit {cl : Cluster} {s t : BarrierState} (h : BarrierInv cl s)
    (hstep : s.masterStep cl .visit = some t) : BarrierInv cl t := by
  rcases hreleasing : s.master.releasing with _ | ⟨thread, _ | ⟨node, rest⟩⟩
  · simp [BarrierState.masterStep, hreleasing] at hstep
  · simp [BarrierState.masterStep, hreleasing] at hstep
  · simp only [BarrierState.masterStep, hreleasing, Option.some.injEq] at hstep
    have hmaster : t.master = { s.master with releasing := some (thread, rest) } := by
      rw [← hstep]
      unfold BarrierState.sendRelease
      split <;> rfl
    refine ⟨?_, fun w hw => ?_⟩
    · rw [hmaster]
      refine ⟨h.master.arrivals, h.master.calls, h.master.rets, h.master.ident, h.master.waits,
        h.master.nodup, h.master.nodes, fun _ => h.master.full (by rw [hreleasing]; rfl),
        fun rest' hsome => h.master.thread (node :: rest) ?_⟩
      rw [hreleasing, (Prod.mk.inj (Option.some.inj hsome)).1]
    · have hlink := h.link w hw
      have hreleases := hlink.releases
      simp only [BarrierMaster.unsent, BarrierMaster.done, hreleasing, Option.isSome_some, if_true,
        List.count_cons, beq_iff_eq] at hreleases
      rw [hmaster]
      by_cases heq : node = w
      · subst heq
        have hworker : t.worker node =
            { s.worker node with toWorker := (s.worker node).toWorker + 1 } := by
          rw [← hstep, BarrierState.sendRelease, if_pos (Cluster.ne_masterId hw)]
          simp [BarrierState.setWorker, BarrierState.setMaster]
        rw [hworker]
        rw [if_pos rfl] at hreleases
        refine ⟨hlink.arrivals, hlink.calls, ?_, hlink.source⟩
        simp only [BarrierMaster.unsent, BarrierMaster.done, Option.isSome_some, if_true]
        omega
      · have hworker : t.worker w = s.worker w := by
          rw [← hstep]
          unfold BarrierState.sendRelease
          split <;> simp [BarrierState.setWorker, BarrierState.setMaster, Ne.symm heq]
        rw [hworker]
        rw [if_neg heq] at hreleases
        refine ⟨hlink.arrivals, hlink.calls, ?_, hlink.source⟩
        simpa [BarrierMaster.unsent, BarrierMaster.done] using hreleases

theorem BarrierInv.masterStep {cl : Cluster} {s t : BarrierState} {a : BarrierMasterAction}
    (h : BarrierInv cl s) (hstep : s.masterStep cl a = some t) : BarrierInv cl t := by
  cases a with
  | call =>
      simp only [BarrierState.masterStep, Option.ite_none_right_eq_some, Option.some.injEq] at hstep
      obtain ⟨hpc, rfl⟩ := hstep
      obtain ⟨harrivals, hcalls, hrets, hident, -, hnodup, hnodes, hfull, hthread⟩ := h.master
      simp only [hpc, reduceCtorEq, if_true, if_false] at harrivals hcalls hthread
      refine ⟨⟨?_, ?_, hrets, hident, by simp [BarrierState.setMaster], hnodup, hnodes, hfull,
        fun rest hsome => (hthread rest hsome).elim⟩, fun w hw => ?_⟩
      · simpa [BarrierState.setMaster] using harrivals
      · simpa [BarrierState.setMaster] using hcalls
      · exact (h.link w hw).congr_master rfl rfl rfl
  | enter => exact h.enter hstep
  | read =>
      simp only [BarrierState.masterStep, Option.ite_none_right_eq_some, Option.some.injEq] at hstep
      obtain ⟨⟨hpc, -⟩, rfl⟩ := hstep
      refine ⟨h.master.test (by simp [hpc]) h.master.ident h.master.rets le_rfl, fun w hw => ?_⟩
      refine (h.link w hw).congr_master ?_ ?_ ?_ <;>
        (simp only [BarrierState.setMaster, BarrierMaster.test]; split <;> rfl)
  | wake =>
      cases hpc : s.master.pc with
      | woken currentId =>
          simp only [BarrierState.masterStep, hpc, Option.ite_none_right_eq_some,
            Option.some.injEq] at hstep
          obtain ⟨-, rfl⟩ := hstep
          obtain ⟨g, hg, hlow, hhigh⟩ := h.master.waits currentId (.inr hpc)
          refine ⟨h.master.test (by simp [hpc]) hg hlow hhigh, fun w hw => ?_⟩
          refine (h.link w hw).congr_master ?_ ?_ ?_ <;>
            (simp only [BarrierState.setMaster, BarrierMaster.test]; split <;> rfl)
      | _ => simp [BarrierState.masterStep, hpc] at hstep
  | receive w => exact h.receive hstep
  | visit => exact h.visit hstep
  | reset =>
      rcases hreleasing : s.master.releasing with _ | ⟨thread, _ | ⟨node, rest⟩⟩
      · simp [BarrierState.masterStep, hreleasing] at hstep
      · simp only [BarrierState.masterStep, hreleasing, Option.some.injEq] at hstep
        rw [← hstep]
        exact ⟨h.master.reset hreleasing, fun w hw => (h.link w hw).reset h.master hw hreleasing⟩
      · simp [BarrierState.masterStep, hreleasing] at hstep

theorem BarrierInv.step {cl : Cluster} {s t : BarrierState} {a : BarrierAction}
    (h : BarrierInv cl s) (hstep : s.step cl a = some t) : BarrierInv cl t := by
  cases a with
  | master a => exact h.masterStep hstep
  | worker w a =>
      simp only [BarrierState.step, Option.ite_none_right_eq_some, Option.map_eq_some_iff] at hstep
      obtain ⟨hw, n, hn, rfl⟩ := hstep
      refine ⟨h.master, fun i hi => ?_⟩
      by_cases heq : i = w
      · subst heq
        simpa [BarrierState.setWorker] using (h.link i hi).step hn
      · simpa [BarrierState.setWorker, heq] using h.link i hi

theorem BarrierInv.of_reachable {cl : Cluster} {s : BarrierState}
    (h : (barrierMachine cl).Reachable s) : BarrierInv cl s := by
  refine h.invariant (fun s hs => ?_) (fun _ _ _ hinv => hinv.step)
  rw [hs]
  exact BarrierInv.initial cl

/-! ### Safety -/

theorem BarrierInv.rets_le_done {cl : Cluster} {s : BarrierState} {i : NodeId}
    (h : BarrierInv cl s) (hi : i ∈ cl.nodes) : s.rets i ≤ s.master.done := by
  rcases List.mem_cons.mp hi with rfl | hi
  · rw [BarrierState.rets, if_pos rfl]
    exact h.master.rets.trans (Nat.le_add_right _ _)
  · have hreleases := (h.link i hi).releases
    rw [BarrierState.rets, if_neg (Cluster.ne_masterId hi)]
    omega

/-- A node has called `dsm_barrier` for every barrier that is complete or being released. -/
theorem BarrierInv.done_le_calls {cl : Cluster} {s : BarrierState} {j : NodeId}
    (h : BarrierInv cl s) (hj : j ∈ cl.nodes) : s.master.done ≤ s.calls j := by
  have hrecorded : s.master.done ≤ s.master.completed + s.master.barrier.arrived.count j := by
    unfold BarrierMaster.done
    split
    · rename_i hfull
      rw [h.master.count_arrived hfull hj]
    · exact Nat.le_add_right _ _
  rcases List.mem_cons.mp hj with rfl | hj
  · have harrivals := h.master.arrivals
    rw [BarrierState.calls, if_pos rfl]
    omega
  · have harrivals := (h.link j hj).arrivals
    rw [BarrierState.calls, if_neg (Cluster.ne_masterId hj)]
    omega

theorem BarrierInv.rets_le_calls {cl : Cluster} {s : BarrierState} {i j : NodeId}
    (h : BarrierInv cl s) (hi : i ∈ cl.nodes) (hj : j ∈ cl.nodes) : s.rets i ≤ s.calls j :=
  (h.rets_le_done hi).trans (h.done_le_calls hj)

/-- No node returns from its `k`-th barrier before every node has called its `k`-th barrier. -/
theorem barrier_safety {cl : Cluster} {s : BarrierState} {i j : NodeId} {k : Nat}
    (hreach : (barrierMachine cl).Reachable s) (hi : i ∈ cl.nodes) (hj : j ∈ cl.nodes)
    (hret : k ≤ s.rets i) : k ≤ s.calls j := by
  have hinv := BarrierInv.of_reachable hreach
  exact hret.trans (hinv.rets_le_calls hi hj)

/-- Worker 2 passes one barrier and the master follows. -/
def barrierRun : List BarrierAction :=
  [.worker 2 .call, .worker 2 .send, .worker 2 .wait, .master (.receive 2), .master .call,
    .master .enter, .master .visit, .worker 2 .receive, .worker 2 .ret, .master .visit,
    .master .reset, .master .read]

theorem barrier_safety_one_worker : ∃ s, (barrierMachine oneWorker).Reachable s ∧
    1 ≤ s.rets 2 ∧ 1 ≤ s.calls 1 := by
  have hrun : ((barrierMachine oneWorker).exec .initial barrierRun).map
      (fun s => s.rets 2) = some 1 := by decide
  obtain ⟨s, hexec, hrets⟩ := Option.map_eq_some_iff.mp hrun
  have hreach : (barrierMachine oneWorker).Reachable s := (Machine.Reachable.start rfl).exec hexec
  exact ⟨s, hreach, hrets.ge, barrier_safety hreach (by decide) (by decide) hrets.ge⟩

end Dsm
