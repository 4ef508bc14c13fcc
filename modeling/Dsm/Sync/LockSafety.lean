import Dsm.Sync.LockMachine

/-!
# Mutual exclusion

For a worker and a lock there is one token: a grant that a thread of the master is about to send, a
grant in flight, the local record from the handling of the grant until `LOCK_RELEASE` is sent, or a
release in flight. `LinkInv.token` says that the token exists exactly while the master's record names
the worker as holder, and `LinkInv.critical` that a worker inside its critical section has it in its
local record. Two nodes inside the same lock are then both named by one record.
-/

namespace Dsm

/-- The grants for `w` on `l` that a thread of the master has decided and not yet sent. -/
def MasterNode.pending (m : MasterNode) (w : NodeId) (l : LockId) : Nat :=
  (if m.tcpGrant = some (w, l) then 1 else 0) + (if m.pc = .grant l w then 1 else 0)

def MasterNode.held (m : MasterNode) (w : NodeId) (l : LockId) : Nat := (m.locks l).held w

def MasterNode.queued (m : MasterNode) (w : NodeId) (l : LockId) : Nat := (m.locks l).queued w

/-- The application thread waits for the grant of `l`. -/
def WorkerPc.WaitsFor (pc : WorkerPc) (l : LockId) : Prop :=
  pc = .wait l ∨ ∃ b, pc = .sleep l b

def WorkerPc.Busy (pc : WorkerPc) (l : LockId) : Prop :=
  pc.WaitsFor l ∨ pc = .request l ∨ pc = .release l ∨ pc = .clear l

def WorkerNode.requested (n : WorkerNode) (w : NodeId) (l : LockId) : Nat :=
  n.toMaster.count (.request w l)

def WorkerNode.released (n : WorkerNode) (w : NodeId) (l : LockId) : Nat :=
  n.toMaster.count (.release w l)

def WorkerNode.granted (n : WorkerNode) (l : LockId) : Nat := n.toWorker.count l

/-- The local record says held, and `LOCK_RELEASE` has not been sent. -/
def WorkerNode.owns (n : WorkerNode) (w : NodeId) (l : LockId) : Nat :=
  if (n.locks l).heldBy w = true ∧ n.pc ≠ .clear l then 1 else 0

/-- What links the master's records to worker `w` and its channels. -/
structure LinkInv (w : NodeId) (m : MasterNode) (n : WorkerNode) : Prop where
  token : ∀ l, m.pending w l + n.granted l + n.owns w l + n.released w l = m.held w l
  single : ∀ l, n.requested w l + m.queued w l + m.pending w l + n.granted l + n.owns w l ≤ 1
  quiet : ∀ l, ¬ n.pc.WaitsFor l →
    n.requested w l + m.queued w l + m.pending w l + n.granted l = 0
  owner : ∀ l, n.owns w l = 1 → n.inside l = true ∨ n.pc.WaitsFor l ∨ n.pc = .release l
  critical : ∀ l, n.inside l = true ∨ n.pc = .release l → (n.locks l).heldBy w = true
  busy : ∀ l, n.pc.Busy l → n.inside l = false
  source : ∀ msg ∈ n.toMaster, msg.srcNode = w

structure MasterInv (m : MasterNode) : Prop where
  critical : ∀ l, m.inside l = true ∨ m.pc = .release l → (m.locks l).heldBy masterId = true
  busy : ∀ l, m.pc = .release l → m.inside l = false
  range : ∀ l, (m.locks l).locked = true → l < maxLocks
  pcRange : ∀ l, m.pc = .acquire l ∨ (∃ b, m.pc = .sleep l b) → l < maxLocks

/-! ### Steps of a worker -/

theorem WorkerPc.signal_waitsFor (pc : WorkerPc) (l l' : LockId) :
    (pc.signal l').WaitsFor l ↔ pc.WaitsFor l := by
  cases pc <;> simp [WorkerPc.signal, WorkerPc.WaitsFor]

theorem WorkerPc.signal_eq_release (pc : WorkerPc) (l l' : LockId) :
    pc.signal l' = .release l ↔ pc = .release l := by
  cases pc <;> simp [WorkerPc.signal]

theorem WorkerPc.signal_eq_clear (pc : WorkerPc) (l l' : LockId) :
    pc.signal l' = .clear l ↔ pc = .clear l := by
  cases pc <;> simp [WorkerPc.signal]

theorem WorkerPc.signal_eq_request (pc : WorkerPc) (l l' : LockId) :
    pc.signal l' = .request l ↔ pc = .request l := by
  cases pc <;> simp [WorkerPc.signal]

theorem LinkInv.inside_of_owns {w : NodeId} {m : MasterNode} {n : WorkerNode} {l : LockId}
    (h : LinkInv w m n) (hone : n.owns w l = 1) (hwait : ¬ n.pc.WaitsFor l)
    (hrelease : n.pc ≠ .release l) : n.inside l = true := by
  rcases h.owner l hone with hinside | hwaits | hpc
  · exact hinside
  · exact absurd hwaits hwait
  · exact absurd hpc hrelease

theorem LinkInv.keep {w : NodeId} {m : MasterNode} {n n' : WorkerNode} (h : LinkInv w m n)
    (htoMaster : n'.toMaster = n.toMaster) (htoWorker : n'.toWorker = n.toWorker)
    (howns : ∀ l, n'.owns w l = n.owns w l)
    (hquiet : ∀ l, ¬ n'.pc.WaitsFor l → ¬ n.pc.WaitsFor l ∨ n.owns w l = 1)
    (howner : ∀ l, n.owns w l = 1 → n'.inside l = true ∨ n'.pc.WaitsFor l ∨ n'.pc = .release l)
    (hcritical : ∀ l, n'.inside l = true ∨ n'.pc = .release l → (n'.locks l).heldBy w = true)
    (hbusy : ∀ l, n'.pc.Busy l → n'.inside l = false) : LinkInv w m n' := by
  refine ⟨fun l => ?_, fun l => ?_, fun l hl => ?_, fun l hl => howner l (howns l ▸ hl), hcritical,
    hbusy, by rw [htoMaster]; exact h.source⟩
  · have htoken := h.token l
    simpa only [howns, WorkerNode.granted, WorkerNode.released, htoMaster, htoWorker] using htoken
  · have hsingle := h.single l
    simpa only [howns, WorkerNode.granted, WorkerNode.requested, htoMaster, htoWorker] using hsingle
  · have hzero : n.requested w l + m.queued w l + m.pending w l + n.granted l = 0 := by
      rcases hquiet l hl with hnowait | hone
      · exact h.quiet l hnowait
      · have hsingle := h.single l
        omega
    simpa only [WorkerNode.granted, WorkerNode.requested, htoMaster, htoWorker] using hzero

/-- A grant reaches the worker: the token moves from the channel into the local record. -/
theorem LinkInv.receive {w : NodeId} {m : MasterNode} {n : WorkerNode} {l : LockId}
    {rest : List LockId} (h : LinkInv w m n) (hgrants : n.toWorker = l :: rest) :
    LinkInv w m { n with
      pc := n.pc.signal l
      locks := Function.update n.locks l { n.locks l with locked := true, holderId := w }
      toWorker := rest } := by
  generalize hstep : ({ n with
    pc := n.pc.signal l
    locks := Function.update n.locks l { n.locks l with locked := true, holderId := w }
    toWorker := rest } : WorkerNode) = n'
  have hgranted : ∀ l', n.granted l' = n'.granted l' + if l = l' then 1 else 0 := by
    intro l'
    simp [← hstep, WorkerNode.granted, hgrants, List.count_cons]
  have hwaits : ∀ l', n'.pc.WaitsFor l' ↔ n.pc.WaitsFor l' := by
    intro l'
    rw [← hstep]
    exact WorkerPc.signal_waitsFor _ _ _
  have hrelease : ∀ l', n'.pc = .release l' ↔ n.pc = .release l' := by
    intro l'
    rw [← hstep]
    exact WorkerPc.signal_eq_release _ _ _
  have hwait : n.pc.WaitsFor l := by
    by_contra hnot
    have hquiet := h.quiet l hnot
    have hone := hgranted l
    rw [if_pos rfl] at hone
    omega
  have hzero : n.owns w l = 0 := by
    have hsingle := h.single l
    have hone := hgranted l
    rw [if_pos rfl] at hone
    omega
  have howns : ∀ l', n'.owns w l' = n.owns w l' + if l = l' then 1 else 0 := by
    intro l'
    by_cases heq : l = l'
    · subst heq
      have hclear : n.pc ≠ .clear l := by
        intro hpc
        simp [hpc, WorkerPc.WaitsFor] at hwait
      rw [if_pos rfl, hzero]
      simp [← hstep, WorkerNode.owns, WorkerPc.signal_eq_clear, hclear]
    · simp [← hstep, WorkerNode.owns, WorkerPc.signal_eq_clear, heq, Ne.symm heq]
  have hinside : n'.inside = n.inside := by rw [← hstep]
  have hsent : n'.toMaster = n.toMaster := by rw [← hstep]
  refine ⟨fun l' => ?_, fun l' => ?_, fun l' hl' => ?_, fun l' hl' => ?_, fun l' hl' => ?_,
    fun l' hl' => ?_, by rw [hsent]; exact h.source⟩
  · have htoken := h.token l'
    simp only [hgranted, howns, WorkerNode.released, hsent] at htoken ⊢
    omega
  · have hsingle := h.single l'
    simp only [hgranted, howns, WorkerNode.requested, hsent] at hsingle ⊢
    omega
  · have hquiet := h.quiet l' (mt (hwaits l').mpr hl')
    simp only [hgranted, WorkerNode.requested, hsent] at hquiet ⊢
    omega
  · rw [hinside, hwaits, hrelease]
    by_cases heq : l = l'
    · exact .inr (.inl (heq ▸ hwait))
    · rw [howns, if_neg heq] at hl'
      exact h.owner l' hl'
  · rw [hinside, hrelease] at hl'
    have hheld := h.critical l' hl'
    by_cases heq : l = l'
    · subst heq
      simp [← hstep]
    · simpa [← hstep, Ne.symm heq] using hheld
  · rw [hinside]
    refine h.busy l' ?_
    rw [WorkerPc.Busy, hwaits, hrelease] at hl'
    simpa [← hstep, WorkerPc.Busy, WorkerPc.signal_eq_clear, WorkerPc.signal_eq_request] using hl'

/-- Moving between testing the record and sleeping changes nothing that the invariant reads. -/
theorem LinkInv.setPc {w : NodeId} {m : MasterNode} {n : WorkerNode} {pc : WorkerPc}
    (h : LinkInv w m n) (hwaits : ∀ l, pc.WaitsFor l ↔ n.pc.WaitsFor l)
    (hrelease : ∀ l, pc = .release l ↔ n.pc = .release l)
    (hclear : ∀ l, pc = .clear l ↔ n.pc = .clear l)
    (hrequest : ∀ l, pc = .request l ↔ n.pc = .request l) : LinkInv w m { n with pc := pc } := by
  refine h.keep rfl rfl (fun l => ?_) (fun l hl => .inl (mt (hwaits l).mpr hl)) (fun l hl => ?_)
    (fun l hl => ?_) (fun l hl => ?_)
  · simp [WorkerNode.owns, hclear]
  · rw [hwaits, hrelease]
    exact h.owner l hl
  · rw [hrelease] at hl
    exact h.critical l hl
  · rw [WorkerPc.Busy, hwaits, hrelease, hclear, hrequest] at hl
    exact h.busy l hl

theorem LinkInv.lock {w : NodeId} {m : MasterNode} {n : WorkerNode} {l : LockId}
    (h : LinkInv w m n) (hpc : n.pc = .idle) (hinside : n.inside l = false) :
    LinkInv w m { n with pc := .request l } := by
  have hnowait : ∀ l', ¬ n.pc.WaitsFor l' := by simp [hpc, WorkerPc.WaitsFor]
  refine h.keep rfl rfl (fun l' => ?_) (fun l' _ => .inl (hnowait l')) (fun l' hl' => ?_)
    (fun l' hl' => ?_) (fun l' hl' => ?_)
  · simp [WorkerNode.owns, hpc]
  · exact .inl (h.inside_of_owns hl' (hnowait l') (by simp [hpc]))
  · simp only [reduceCtorEq, or_false] at hl'
    exact h.critical l' (.inl hl')
  · simp only [WorkerPc.Busy, WorkerPc.WaitsFor, reduceCtorEq, exists_false, or_self, or_false,
      false_or, WorkerPc.request.injEq] at hl'
    exact hl' ▸ hinside

theorem LinkInv.request {w : NodeId} {m : MasterNode} {n : WorkerNode} {l : LockId}
    (h : LinkInv w m n) (hpc : n.pc = .request l) :
    LinkInv w m { n with pc := .wait l, toMaster := n.toMaster ++ [.request w l] } := by
  generalize hstep : ({ n with
    pc := .wait l, toMaster := n.toMaster ++ [.request w l] } : WorkerNode) = n'
  have hnowait : ∀ l', ¬ n.pc.WaitsFor l' := by simp [hpc, WorkerPc.WaitsFor]
  have hrequested : ∀ l', n'.requested w l' = n.requested w l' + if l = l' then 1 else 0 := by
    intro l'
    simp [← hstep, WorkerNode.requested, List.count_singleton]
  have hreleased : ∀ l', n'.released w l' = n.released w l' := by
    intro l'
    simp [← hstep, WorkerNode.released]
  have howns : ∀ l', n'.owns w l' = n.owns w l' := by
    intro l'
    simp [← hstep, WorkerNode.owns, hpc]
  have hgranted : ∀ l', n'.granted l' = n.granted l' := by
    intro l'
    simp [← hstep, WorkerNode.granted]
  have hinside : n'.inside = n.inside := by rw [← hstep]
  have hlocks : n'.locks = n.locks := by rw [← hstep]
  have hpc' : n'.pc = .wait l := by rw [← hstep]
  have hidle : n.inside l = false := h.busy l (.inr (.inl hpc))
  have hzero : n.owns w l = 0 := by
    have hsingle := h.single l
    by_contra hne
    have hinside := h.inside_of_owns (by omega) (hnowait l) (by simp [hpc])
    rw [hidle] at hinside
    cases hinside
  refine ⟨fun l' => ?_, fun l' => ?_, fun l' hl' => ?_, fun l' hl' => ?_, fun l' hl' => ?_,
    fun l' hl' => ?_, fun msg hmsg => ?_⟩
  · rw [hgranted, howns, hreleased]
    exact h.token l'
  · have hsingle := h.single l'
    have hquiet := h.quiet l' (hnowait l')
    rw [hrequested, hgranted, howns]
    by_cases heq : l = l'
    · subst heq
      rw [if_pos rfl]
      omega
    · rw [if_neg heq]
      omega
  · have hne : l ≠ l' := by
      rintro rfl
      exact hl' (.inl hpc')
    rw [hrequested, if_neg hne, hgranted]
    exact h.quiet l' (hnowait l')
  · rw [hinside]
    exact .inl (h.inside_of_owns (howns l' ▸ hl') (hnowait l') (by simp [hpc]))
  · rw [hlocks]
    refine h.critical l' (.inl ?_)
    simpa [hinside, hpc'] using hl'
  · have heq : l = l' := by simpa [WorkerPc.Busy, WorkerPc.WaitsFor, hpc'] using hl'
    rw [hinside, ← heq]
    exact hidle
  · rw [← hstep] at hmsg
    rcases List.mem_append.mp hmsg with hmsg | hmsg
    · exact h.source msg hmsg
    · rw [List.mem_singleton.mp hmsg]
      rfl

theorem LinkInv.enter {w : NodeId} {m : MasterNode} {n : WorkerNode} {l : LockId}
    (h : LinkInv w m n) (hpc : n.pc = .wait l) (hheld : (n.locks l).heldBy w = true) :
    LinkInv w m { n with pc := .idle, inside := Function.update n.inside l true } := by
  have hone : n.owns w l = 1 := by simpa [WorkerNode.owns, hpc] using hheld
  have hinside : ∀ l', Function.update n.inside l true l' = true ↔ l' = l ∨ n.inside l' = true := by
    intro l'
    by_cases heq : l' = l <;> simp [heq]
  refine h.keep rfl rfl (fun l' => ?_) (fun l' _ => ?_) (fun l' hl' => ?_) (fun l' hl' => ?_)
    (fun l' hl' => ?_)
  · simp [WorkerNode.owns, hpc]
  · by_cases heq : l' = l
    · exact .inr (heq ▸ hone)
    · exact .inl (by simp [hpc, WorkerPc.WaitsFor, Ne.symm heq])
  · have howner := h.owner l' hl'
    simp only [hpc, WorkerPc.WaitsFor, WorkerPc.wait.injEq, reduceCtorEq, exists_false,
      or_false] at howner
    refine .inl ((hinside l').mpr ?_)
    rcases howner with howner | rfl
    · exact .inr howner
    · exact .inl rfl
  · rw [hinside] at hl'
    rcases hl' with (rfl | hl') | hl'
    · exact hheld
    · exact h.critical l' (.inl hl')
    · cases hl'
  · simp [WorkerPc.Busy, WorkerPc.WaitsFor] at hl'

theorem LinkInv.unlock {w : NodeId} {m : MasterNode} {n : WorkerNode} {l : LockId}
    (h : LinkInv w m n) (hpc : n.pc = .idle) (hinside : n.inside l = true) :
    LinkInv w m { n with pc := .release l, inside := Function.update n.inside l false } := by
  have hnowait : ∀ l', ¬ n.pc.WaitsFor l' := by simp [hpc, WorkerPc.WaitsFor]
  have hleft : ∀ l', Function.update n.inside l false l' = true ↔ l' ≠ l ∧ n.inside l' = true := by
    intro l'
    by_cases heq : l' = l <;> simp [heq]
  refine h.keep rfl rfl (fun l' => ?_) (fun l' _ => .inl (hnowait l')) (fun l' hl' => ?_)
    (fun l' hl' => ?_) (fun l' hl' => ?_)
  · simp [WorkerNode.owns, hpc]
  · by_cases heq : l' = l
    · exact .inr (.inr (heq ▸ rfl))
    · have hmem := h.inside_of_owns hl' (hnowait l') (by simp [hpc])
      exact .inl ((hleft l').mpr ⟨heq, hmem⟩)
  · rcases hl' with hl' | hl'
    · exact h.critical l' (.inl ((hleft l').mp hl').2)
    · rw [WorkerPc.release.injEq] at hl'
      exact h.critical l' (.inl (hl' ▸ hinside))
  · have heq : l = l' := by simpa [WorkerPc.Busy, WorkerPc.WaitsFor] using hl'
    rw [Bool.eq_false_iff, Ne, hleft]
    exact fun hmem => hmem.1 heq.symm

/-- The token leaves the local record with `LOCK_RELEASE`, before the record is cleared. -/
theorem LinkInv.release {w : NodeId} {m : MasterNode} {n : WorkerNode} {l : LockId}
    (h : LinkInv w m n) (hpc : n.pc = .release l) :
    LinkInv w m { n with pc := .clear l, toMaster := n.toMaster ++ [.release w l] } := by
  generalize hstep : ({ n with
    pc := .clear l, toMaster := n.toMaster ++ [.release w l] } : WorkerNode) = n'
  have hnowait : ∀ l', ¬ n.pc.WaitsFor l' := by simp [hpc, WorkerPc.WaitsFor]
  have hheld : (n.locks l).heldBy w = true := h.critical l (.inr hpc)
  have hidle : n.inside l = false := h.busy l (.inr (.inr (.inl hpc)))
  have hrequested : ∀ l', n'.requested w l' = n.requested w l' := by
    intro l'
    simp [← hstep, WorkerNode.requested]
  have hreleased : ∀ l', n'.released w l' = n.released w l' + if l = l' then 1 else 0 := by
    intro l'
    simp [← hstep, WorkerNode.released, List.count_singleton]
  have howns : ∀ l', n'.owns w l' + (if l = l' then 1 else 0) = n.owns w l' := by
    intro l'
    by_cases heq : l = l'
    · subst heq
      have hone : n.owns w l = 1 := by simpa [WorkerNode.owns, hpc] using hheld
      have hzero : n'.owns w l = 0 := by simp [← hstep, WorkerNode.owns]
      rw [hone, hzero, if_pos rfl]
    · simp [← hstep, WorkerNode.owns, hpc, heq]
  have hgranted : ∀ l', n'.granted l' = n.granted l' := by
    intro l'
    simp [← hstep, WorkerNode.granted]
  have hinside : n'.inside = n.inside := by rw [← hstep]
  have hlocks : n'.locks = n.locks := by rw [← hstep]
  have hpc' : n'.pc = .clear l := by rw [← hstep]
  refine ⟨fun l' => ?_, fun l' => ?_, fun l' _ => ?_, fun l' hl' => ?_, fun l' hl' => ?_,
    fun l' hl' => ?_, fun msg hmsg => ?_⟩
  · have htoken := h.token l'
    have hmove := howns l'
    rw [hgranted, hreleased]
    omega
  · have hsingle := h.single l'
    have hmove := howns l'
    rw [hrequested, hgranted]
    omega
  · rw [hrequested, hgranted]
    exact h.quiet l' (hnowait l')
  · have hne : l ≠ l' := by
      rintro rfl
      simp [WorkerNode.owns, hpc'] at hl'
    rw [hinside]
    exact .inl (h.inside_of_owns (by rw [← howns l', if_neg hne, hl']) (hnowait l')
      (by simp [hpc, hne]))
  · rw [hlocks]
    refine h.critical l' (.inl ?_)
    simpa [hinside, hpc'] using hl'
  · have heq : l = l' := by simpa [WorkerPc.Busy, WorkerPc.WaitsFor, hpc'] using hl'
    rw [hinside, ← heq]
    exact hidle
  · rw [← hstep] at hmsg
    rcases List.mem_append.mp hmsg with hmsg | hmsg
    · exact h.source msg hmsg
    · rw [List.mem_singleton.mp hmsg]
      rfl

theorem LinkInv.clear {w : NodeId} {m : MasterNode} {n : WorkerNode} {l : LockId}
    (h : LinkInv w m n) (hpc : n.pc = .clear l) :
    LinkInv w m { n with
      pc := .idle
      locks := Function.update n.locks l { n.locks l with locked := false, holderId := 0 } } := by
  have hnowait : ∀ l', ¬ n.pc.WaitsFor l' := by simp [hpc, WorkerPc.WaitsFor]
  have hidle : n.inside l = false := h.busy l (.inr (.inr (.inr hpc)))
  refine h.keep rfl rfl (fun l' => ?_) (fun l' _ => .inl (hnowait l')) (fun l' hl' => ?_)
    (fun l' hl' => ?_) (fun l' hl' => ?_)
  · by_cases heq : l' = l
    · subst heq
      simp [WorkerNode.owns, hpc]
    · simp [WorkerNode.owns, hpc, heq, Ne.symm heq]
  · exact .inl (h.inside_of_owns hl' (hnowait l') (by simp [hpc]))
  · rw [or_iff_left (by simp)] at hl'
    have hne : l' ≠ l := by
      rintro rfl
      rw [hidle] at hl'
      cases hl'
    have hheld := h.critical l' (.inl hl')
    simpa [hne] using hheld
  · simp [WorkerPc.Busy, WorkerPc.WaitsFor] at hl'

theorem LinkInv.step {w : NodeId} {m : MasterNode} {n n' : WorkerNode} {a : WorkerAction}
    (h : LinkInv w m n) (hstep : n.step w a = some n') : LinkInv w m n' := by
  cases WorkerNode.step_effect hstep with
  | lock hpc _ hinside => exact h.lock hpc hinside
  | request hpc => exact h.request hpc
  | testEnter hpc hheld => exact h.enter hpc hheld
  | testSleep hpc | wake hpc | spurious hpc =>
      exact h.setPc (by simp [hpc, WorkerPc.WaitsFor]) (by simp [hpc]) (by simp [hpc])
        (by simp [hpc])
  | unlock hpc _ hinside => exact h.unlock hpc hinside
  | release hpc => exact h.release hpc
  | clear hpc => exact h.clear hpc
  | receive hgrants => exact h.receive hgrants

/-! ### Steps of the master -/

/-- What the master does to the link of `w`: the token moves between the master's record, its
undecided sends and the two channels, and nothing new is asked for on behalf of `w`. -/
theorem LinkInv.balance {w : NodeId} {m m' : MasterNode} {n n' : WorkerNode} (h : LinkInv w m n)
    (hpc : n'.pc = n.pc) (hinside : n'.inside = n.inside) (hlocks : n'.locks = n.locks)
    (hsource : ∀ msg ∈ n'.toMaster, msg ∈ n.toMaster)
    (htoken : ∀ l, m'.pending w l + n'.granted l + n'.released w l + m.held w l =
      m.pending w l + n.granted l + n.released w l + m'.held w l)
    (hload : ∀ l, n'.requested w l + m'.queued w l + m'.pending w l + n'.granted l ≤
      n.requested w l + m.queued w l + m.pending w l + n.granted l) : LinkInv w m' n' := by
  have howns : ∀ l, n'.owns w l = n.owns w l := by
    intro l
    simp only [WorkerNode.owns, hpc, hlocks]
  refine ⟨fun l => ?_, fun l => ?_, fun l hl => ?_, fun l hl => ?_, fun l hl => ?_, fun l hl => ?_,
    fun msg hmsg => h.source msg (hsource msg hmsg)⟩
  · have hold := h.token l
    have hmove := htoken l
    rw [howns]
    omega
  · have hold := h.single l
    have hless := hload l
    rw [howns]
    omega
  · have hold := h.quiet l (hpc ▸ hl)
    have hless := hload l
    omega
  · rw [hinside, hpc]
    exact h.owner l (howns l ▸ hl)
  · rw [hinside, hpc] at hl
    rw [hlocks]
    exact h.critical l hl
  · rw [hinside]
    exact h.busy l (hpc ▸ hl)

theorem LinkInv.congr_master {w : NodeId} {m m' : MasterNode} {n : WorkerNode} (h : LinkInv w m n)
    (hheld : ∀ l, m'.held w l = m.held w l) (hqueued : ∀ l, m'.queued w l = m.queued w l)
    (hpending : ∀ l, m'.pending w l = m.pending w l) : LinkInv w m' n := by
  refine h.balance rfl rfl rfl (fun _ hmsg => hmsg) (fun l => ?_) (fun l => ?_)
  · rw [hheld, hpending]
  · rw [hqueued, hpending]

structure LockInv (cl : Cluster) (s : LockState) : Prop where
  master : MasterInv s.master
  link : ∀ w ∈ cl.workers, LinkInv w s.master (s.worker w)

theorem LockInv.initial (cl : Cluster) : LockInv cl .initial := by
  refine ⟨⟨?_, ?_, ?_, ?_⟩, fun w _ => ⟨?_, ?_, ?_, ?_, ?_, ?_, ?_⟩⟩ <;>
    simp [LockState.initial, MasterNode.initial, WorkerNode.initial, Lock.free, MasterNode.pending,
      MasterNode.held, MasterNode.queued, Lock.held, Lock.queued, WorkerNode.granted,
      WorkerNode.owns, WorkerNode.released, WorkerNode.requested]

theorem MasterNode.pending_congr {m m' : MasterNode} {w : NodeId} {l : LockId}
    (htcp : m'.tcpGrant = m.tcpGrant) (hpc' : m'.pc ≠ .grant l w) (hpc : m.pc ≠ .grant l w) :
    m'.pending w l = m.pending w l := by
  rw [MasterNode.pending, MasterNode.pending, htcp, if_neg hpc, if_neg hpc']

/-- Taking the mutex, sleeping, waking and leaving `dsm_unlock` touch no record and no grant. -/
theorem LockInv.setPc {cl : Cluster} {s : LockState} (h : LockInv cl s) {m : MasterNode}
    (hm : MasterInv m) (hlocks : m.locks = s.master.locks) (htcp : m.tcpGrant = s.master.tcpGrant)
    (hbefore : ∀ l w, s.master.pc ≠ .grant l w) (hafter : ∀ l w, m.pc ≠ .grant l w) :
    LockInv cl (s.setMaster m) := by
  refine ⟨hm, fun w hw => (h.link w hw).congr_master (fun l => ?_) (fun l => ?_) (fun l => ?_)⟩
  · simp [MasterNode.held, LockState.setMaster, hlocks]
  · simp [MasterNode.queued, LockState.setMaster, hlocks]
  · exact MasterNode.pending_congr htcp (hafter l w) (hbefore l w)

theorem LockInv.masterEnter {cl : Cluster} {s : LockState} {l : LockId} (h : LockInv cl s)
    (hpc : s.master.pc = .acquire l)
    (hfree : ¬ ((s.master.locks l).locked && (s.master.locks l).holderId != masterId) = true) :
    LockInv cl (s.setMaster { s.master with
      pc := .idle
      inside := Function.update s.master.inside l true
      locks := Function.update s.master.locks l
        { s.master.locks l with locked := true, holderId := masterId } }) := by
  have hl : l < maxLocks := h.master.pcRange l (.inl hpc)
  have hheld : ∀ w ∈ cl.workers, s.master.held w l = 0 := by
    intro w hw
    have hne := Cluster.ne_masterId hw
    rw [MasterNode.held, Lock.held, if_neg]
    rw [Lock.heldBy_eq_true]
    rintro ⟨hlocked, hholder⟩
    simp [hlocked, hholder, hne] at hfree
  refine ⟨⟨?_, ?_, ?_, ?_⟩, fun w hw => ?_⟩
  · intro l' hl'
    by_cases heq : l' = l
    · subst heq
      simp [LockState.setMaster]
    · have hcrit := h.master.critical l'
        (.inl (by simpa [LockState.setMaster, heq] using hl'))
      simpa [LockState.setMaster, heq] using hcrit
  · simp [LockState.setMaster]
  · intro l' hl'
    by_cases heq : l' = l
    · exact heq ▸ hl
    · exact h.master.range l' (by simpa [LockState.setMaster, heq] using hl')
  · simp [LockState.setMaster]
  · have hne := Cluster.ne_masterId hw
    refine (h.link w hw).congr_master (fun l' => ?_) (fun l' => ?_) (fun l' => ?_)
    · by_cases heq : l' = l
      · subst heq
        rw [hheld w hw]
        simp [MasterNode.held, Lock.held, LockState.setMaster, Ne.symm hne]
      · simp [MasterNode.held, LockState.setMaster, heq]
    · by_cases heq : l' = l
      · subst heq
        simp [MasterNode.queued, Lock.queued, LockState.setMaster]
      · simp [MasterNode.queued, LockState.setMaster, heq]
    · exact MasterNode.pending_congr rfl (by simp [LockState.setMaster]) (by simp [hpc])

/-- The master passes its lock to the first waiter or frees it; the grant is not sent yet. -/
theorem LockInv.masterRelease {cl : Cluster} {s : LockState} {l : LockId} (h : LockInv cl s)
    (hpc : s.master.pc = .release l) :
    LockInv cl (s.setMaster { s.master with
      locks := (syncHandleLockRelease s.master.locks masterId l).locks
      pc := match (syncHandleLockRelease s.master.locks masterId l).grant with
        | some next => .grant l next
        | none => .signal l }) := by
  have hheld : (s.master.locks l).heldBy masterId = true := h.master.critical l (.inr hpc)
  have hl : l < maxLocks := h.master.range l (Lock.heldBy_eq_true.mp hheld).1
  have hne : ∀ l', s.master.inside l' = true → l' ≠ l := by
    rintro l' hl' rfl
    rw [h.master.busy l' hpc] at hl'
    cases hl'
  have hframe : ∀ l', l' ≠ l →
      (syncHandleLockRelease s.master.locks masterId l).locks l' = s.master.locks l' :=
    fun l' => syncHandleLockRelease_frame _ _
  have hheldEq := syncHandleLockRelease_held s.master.locks hl hheld
  have hqueuedEq := syncHandleLockRelease_queued s.master.locks masterId l
  generalize hcall : syncHandleLockRelease s.master.locks masterId l = out at *
  generalize hstep : s.setMaster { s.master with
    locks := out.locks
    pc := match out.grant with
      | some next => .grant l next
      | none => .signal l } = t
  have hlocks : t.master.locks = out.locks := by rw [← hstep]; rfl
  have hinside : t.master.inside = s.master.inside := by rw [← hstep]; rfl
  have htcp : t.master.tcpGrant = s.master.tcpGrant := by rw [← hstep]; rfl
  have hworker : t.worker = s.worker := by rw [← hstep]; rfl
  have hpc' : ∀ l' w, t.master.pc = .grant l' w ↔ out.grant = some w ∧ l' = l := by
    intro l' w
    rw [← hstep]
    cases out.grant <;> simp [LockState.setMaster, eq_comm, and_comm]
  have hother : ∀ l', t.master.pc ≠ .release l' ∧ t.master.pc ≠ .acquire l' ∧
      ∀ b, t.master.pc ≠ .sleep l' b := by
    intro l'
    rw [← hstep]
    cases out.grant <;> simp [LockState.setMaster]
  have hpending : ∀ w l', t.master.pending w l' = s.master.pending w l' + out.grants l w l' := by
    intro w l'
    simp only [MasterNode.pending, htcp, hpc', LockOutcome.grants, hpc, reduceCtorEq, if_false,
      Nat.add_zero]
  refine ⟨⟨fun l' hl' => ?_, fun l' hl' => absurd hl' (hother l').1, fun l' hl' => ?_,
    fun l' hl' => ?_⟩, fun w hw => ?_⟩
  · rw [hinside, or_iff_left (hother l').1] at hl'
    rw [hlocks, hframe l' (hne l' hl')]
    exact h.master.critical l' (.inl hl')
  · by_cases heq : l' = l
    · exact heq ▸ hl
    · rw [hlocks, hframe l' heq] at hl'
      exact h.master.range l' hl'
  · rcases hl' with hl' | ⟨b, hl'⟩
    · exact absurd hl' (hother l').2.1
    · exact absurd hl' ((hother l').2.2 b)
  · have hnode := Cluster.ne_masterId hw
    rw [hworker]
    refine (h.link w hw).balance rfl rfl rfl (fun _ hmsg => hmsg) (fun l' => ?_) (fun l' => ?_)
    · have heq := hheldEq w l'
      rw [if_neg (fun hand => hnode hand.1)] at heq
      rw [hpending, MasterNode.held, MasterNode.held, hlocks]
      omega
    · have heq := hqueuedEq w l'
      rw [hpending, MasterNode.queued, MasterNode.queued, hlocks]
      omega

theorem LockInv.sendGrant {cl : Cluster} {s : LockState} (h : LockInv cl s) {m : MasterNode}
    {node : NodeId} {l : LockId} (hm : MasterInv m) (hlocks : m.locks = s.master.locks)
    (hpending : ∀ w l', s.master.pending w l' =
      m.pending w l' + if w = node ∧ l' = l then 1 else 0) :
    LockInv cl ((s.setMaster m).sendGrant cl node l) := by
  have hmaster : ((s.setMaster m).sendGrant cl node l).master = m := by
    unfold LockState.sendGrant
    split <;> rfl
  refine ⟨by rw [hmaster]; exact hm, fun w hw => ?_⟩
  have hworker : ((s.setMaster m).sendGrant cl node l).worker w =
      if w = node then { s.worker w with toWorker := (s.worker w).toWorker ++ [l] }
      else s.worker w := by
    by_cases heq : w = node
    · subst heq
      simp [LockState.sendGrant, hw, LockState.setWorker, LockState.setMaster]
    · unfold LockState.sendGrant
      split <;> simp [LockState.setWorker, LockState.setMaster, heq]
  have hgranted : ∀ l', (((s.setMaster m).sendGrant cl node l).worker w).granted l' =
      (s.worker w).granted l' + if w = node ∧ l' = l then 1 else 0 := by
    intro l'
    rw [hworker]
    by_cases heq : w = node
    · simp [heq, WorkerNode.granted, List.count_append, List.count_singleton, @eq_comm _ l']
    · simp [heq]
  rw [hmaster]
  refine (h.link w hw).balance ?_ ?_ ?_ ?_ (fun l' => ?_) (fun l' => ?_)
  · rw [hworker]
    split <;> rfl
  · rw [hworker]
    split <;> rfl
  · rw [hworker]
    split <;> rfl
  · rw [hworker]
    split <;> exact fun _ hmsg => hmsg
  · have hreleased : (((s.setMaster m).sendGrant cl node l).worker w).released w l' =
        (s.worker w).released w l' := by
      rw [hworker]
      split <;> rfl
    have hmove := hpending w l'
    rw [hgranted, hreleased, MasterNode.held, MasterNode.held, hlocks]
    omega
  · have hrequested : (((s.setMaster m).sendGrant cl node l).worker w).requested w l' =
        (s.worker w).requested w l' := by
      rw [hworker]
      split <;> rfl
    have hmove := hpending w l'
    rw [hgranted, hrequested, MasterNode.queued, MasterNode.queued, hlocks]
    omega

/-- The TCP thread of the master handles the next message of `w`; a grant is not sent yet. -/
theorem LockInv.handled {cl : Cluster} {s : LockState} (h : LockInv cl s) {w : NodeId}
    {msg : ToMaster} {rest : List ToMaster} {l : LockId} {out : LockOutcome}
    (hw : w ∈ cl.workers) (hhead : (s.worker w).toMaster = msg :: rest)
    (htcp : s.master.tcpGrant = none)
    (hm : MasterInv { s.master with
      locks := out.locks, tcpGrant := out.grant.map fun node => (node, l) })
    (hheld : ∀ i l', (out.locks l').held i + (if msg = .release i l' then 1 else 0) =
      (s.master.locks l').held i + out.grants l i l')
    (hqueued : ∀ i l', (out.locks l').queued i + out.grants l i l' ≤
      (s.master.locks l').queued i + if msg = .request i l' then 1 else 0) :
    LockInv cl ((s.setMaster { s.master with
      locks := out.locks, tcpGrant := out.grant.map fun node => (node, l) }).setWorker w
        { s.worker w with toMaster := rest }) := by
  refine ⟨hm, fun i hi => ?_⟩
  have hpending : ∀ l', MasterNode.pending { s.master with
      locks := out.locks, tcpGrant := out.grant.map fun node => (node, l) } i l' =
        s.master.pending i l' + out.grants l i l' := by
    intro l'
    cases hgrant : out.grant <;>
      simp [MasterNode.pending, htcp, LockOutcome.grants, hgrant, @eq_comm _ l', Nat.add_comm]
  have hsource : msg.srcNode = w := (h.link w hw).source msg (by rw [hhead]; exact List.mem_cons_self)
  by_cases heq : i = w
  · subst heq
    have hworker : ((s.setMaster { s.master with
        locks := out.locks, tcpGrant := out.grant.map fun node => (node, l) }).setWorker i
          { s.worker i with toMaster := rest }).worker i = { s.worker i with toMaster := rest } := by
      simp [LockState.setWorker]
    rw [hworker]
    refine (h.link i hi).balance rfl rfl rfl ?_ (fun l' => ?_) (fun l' => ?_)
    · intro m' hm'
      rw [hhead]
      exact List.mem_cons_of_mem _ hm'
    · have hmove := hheld i l'
      have hreleased : (s.worker i).released i l' = WorkerNode.released
          { s.worker i with toMaster := rest } i l' + if msg = .release i l' then 1 else 0 := by
        simp [WorkerNode.released, hhead, List.count_cons]
      have hsame : WorkerNode.granted { s.worker i with toMaster := rest } l' =
        (s.worker i).granted l' := rfl
      rw [LockState.setWorker, LockState.setMaster, hpending, hreleased, hsame, MasterNode.held,
        MasterNode.held]
      dsimp only
      omega
    · have hmove := hqueued i l'
      have hrequested : (s.worker i).requested i l' = WorkerNode.requested
          { s.worker i with toMaster := rest } i l' + if msg = .request i l' then 1 else 0 := by
        simp [WorkerNode.requested, hhead, List.count_cons]
      have hsame : WorkerNode.granted { s.worker i with toMaster := rest } l' =
        (s.worker i).granted l' := rfl
      rw [LockState.setWorker, LockState.setMaster, hpending, hrequested, hsame, MasterNode.queued,
        MasterNode.queued]
      dsimp only
      omega
  · have hrelease : ∀ l', msg ≠ .release i l' := by
      rintro l' rfl
      exact heq hsource
    have hrequest : ∀ l', msg ≠ .request i l' := by
      rintro l' rfl
      exact heq hsource
    have hworker : ((s.setMaster { s.master with
        locks := out.locks, tcpGrant := out.grant.map fun node => (node, l) }).setWorker w
          { s.worker w with toMaster := rest }).worker i = s.worker i := by
      simp [LockState.setWorker, LockState.setMaster, heq]
    rw [hworker]
    refine (h.link i hi).balance rfl rfl rfl (fun _ hmsg => hmsg) (fun l' => ?_) (fun l' => ?_)
    · have hmove := hheld i l'
      rw [if_neg (hrelease l')] at hmove
      rw [LockState.setWorker, LockState.setMaster, hpending, MasterNode.held, MasterNode.held]
      dsimp only
      omega
    · have hmove := hqueued i l'
      rw [if_neg (hrequest l')] at hmove
      rw [LockState.setWorker, LockState.setMaster, hpending, MasterNode.queued, MasterNode.queued]
      dsimp only
      omega

/-- The token is in a release in flight, so the record names the worker as its holder. -/
theorem LockInv.heldBy_of_released {cl : Cluster} {s : LockState} {w : NodeId} {l : LockId}
    {rest : List ToMaster} (h : LockInv cl s) (hw : w ∈ cl.workers)
    (hhead : (s.worker w).toMaster = .release w l :: rest) :
    (s.master.locks l).heldBy w = true := by
  have htoken := (h.link w hw).token l
  have hone : 1 ≤ (s.worker w).released w l := by simp [WorkerNode.released, hhead]
  by_contra hnot
  rw [MasterNode.held, Lock.held, if_neg hnot] at htoken
  omega

theorem LockInv.receive {cl : Cluster} {s : LockState} {w : NodeId} {msg : ToMaster}
    {rest : List ToMaster} (h : LockInv cl s) (hw : w ∈ cl.workers)
    (htcp : s.master.tcpGrant = none) (hhead : (s.worker w).toMaster = msg :: rest) :
    LockInv cl ((s.setMaster (s.master.handle msg)).setWorker w
      { s.worker w with toMaster := rest }) := by
  have hsource := (h.link w hw).source msg (by rw [hhead]; exact List.mem_cons_self)
  cases msg with
  | request srcNode l =>
      refine h.handled hw hhead htcp ⟨fun l' hl' => ?_, h.master.busy, fun l' hl' => ?_,
        h.master.pcRange⟩ (fun i l' => ?_) (fun i l' => ?_)
      · exact syncHandleLockRequest_heldBy _ _ (h.master.critical l' hl')
      · rcases syncHandleLockRequest_locked _ _ hl' with hl' | hl'
        · exact hl'
        · exact h.master.range l' hl'
      · simpa using syncHandleLockRequest_held s.master.locks srcNode l i l'
      · simpa [@eq_comm _ srcNode, @eq_comm _ l] using
          syncHandleLockRequest_queued s.master.locks srcNode l i l'
  | release srcNode l =>
      obtain rfl : srcNode = w := hsource
      have hheld : (s.master.locks l).heldBy srcNode = true := h.heldBy_of_released hw hhead
      have hl : l < maxLocks := h.master.range l (Lock.heldBy_eq_true.mp hheld).1
      have hnode := Cluster.ne_masterId hw
      refine h.handled hw hhead htcp ⟨fun l' hl' => ?_, h.master.busy, fun l' hl' => ?_,
        h.master.pcRange⟩ (fun i l' => ?_) (fun i l' => ?_)
      · have hcrit := h.master.critical l' hl'
        have hne : l' ≠ l := by
          rintro rfl
          exact hnode (Lock.heldBy_unique hheld hcrit)
        simpa [syncHandleLockRelease_frame s.master.locks srcNode hne] using hcrit
      · by_cases heq : l' = l
        · exact heq ▸ hl
        · refine h.master.range l' ?_
          simpa [syncHandleLockRelease_frame s.master.locks srcNode heq] using hl'
      · simpa [@eq_comm _ srcNode, @eq_comm _ l] using
          syncHandleLockRelease_held s.master.locks hl hheld i l'
      · simpa using (syncHandleLockRelease_queued s.master.locks srcNode l i l').le

/-- Outside `dsm_unlock` nothing is known of the thread but the range of its lock id. -/
theorem MasterInv.setPc {m : MasterNode} {pc : MasterPc} (h : MasterInv m)
    (hrelease : ∀ l, pc ≠ .release l)
    (hrange : ∀ l, pc = .acquire l ∨ (∃ b, pc = .sleep l b) → l < maxLocks) :
    MasterInv { m with pc := pc } where
  critical l hl := h.critical l (.inl (hl.resolve_right (hrelease l)))
  busy l hl := absurd hl (hrelease l)
  range := h.range
  pcRange := hrange

theorem LockInv.masterStep {cl : Cluster} {s t : LockState} {a : MasterAction}
    (h : LockInv cl s) (hstep : s.masterStep cl a = some t) : LockInv cl t := by
  cases LockState.masterStep_effect hstep with
  | lock hpc hl hinside =>
      exact h.setPc (h.master.setPc nofun (by simpa using hl)) rfl rfl (by simp [hpc]) (by simp)
  | @testSleep l hpc htaken =>
      have hl : l < maxLocks := h.master.pcRange l (.inl hpc)
      exact h.setPc (h.master.setPc nofun (by simpa using hl)) rfl rfl (by simp [hpc]) (by simp)
  | testEnter hpc hfree => exact h.masterEnter hpc hfree
  | @wake l hpc | @spurious l _ hpc =>
      have hl : l < maxLocks := h.master.pcRange l (.inr ⟨_, hpc⟩)
      exact h.setPc (h.master.setPc nofun (by simpa using hl)) rfl rfl (by simp [hpc]) (by simp)
  | @unlock l hpc hl hinside =>
      refine h.setPc ⟨fun l' hl' => ?_, fun l' hl' => ?_, h.master.range, by simp⟩ rfl rfl
        (by simp [hpc]) (by simp)
      · refine h.master.critical l' (.inl ?_)
        rcases hl' with hl' | hl'
        · by_cases heq : l' = l
          · exact heq ▸ hinside
          · simpa [heq] using hl'
        · rw [← MasterPc.release.inj hl']
          exact hinside
      · rw [← MasterPc.release.inj hl']
        simp
  | release hpc => exact h.masterRelease hpc
  | @grant l next hpc =>
      refine h.sendGrant (h.master.setPc nofun (by simp)) rfl (fun w l' => ?_)
      simp [MasterNode.pending, hpc, and_comm, @eq_comm _ w, @eq_comm _ l']
  | signal hpc =>
      exact h.setPc (h.master.setPc nofun (by simp)) rfl rfl (by simp [hpc]) (by simp)
  | receive hw htcp hhead => exact h.receive hw htcp hhead
  | tcpGrant htcp =>
      refine h.sendGrant ⟨h.master.critical, h.master.busy, h.master.range, h.master.pcRange⟩ rfl
        (fun w l' => ?_)
      simp [MasterNode.pending, htcp, @eq_comm _ w, @eq_comm _ l', Nat.add_comm]

theorem LockInv.step {cl : Cluster} {s t : LockState} {a : LockAction} (h : LockInv cl s)
    (hstep : s.step cl a = some t) : LockInv cl t := by
  cases a with
  | master a => exact h.masterStep hstep
  | worker w a =>
      simp only [LockState.step, Option.ite_none_right_eq_some, Option.map_eq_some_iff] at hstep
      obtain ⟨hw, n, hn, rfl⟩ := hstep
      refine ⟨h.master, fun i hi => ?_⟩
      by_cases heq : i = w
      · subst heq
        simpa [LockState.setWorker] using (h.link i hi).step hn
      · simpa [LockState.setWorker, heq] using h.link i hi

theorem LockInv.of_reachable {cl : Cluster} {s : LockState}
    (h : (lockMachine cl).Reachable s) : LockInv cl s := by
  refine h.invariant (fun s hs => ?_) (fun _ _ _ hinv => hinv.step)
  rw [hs]
  exact LockInv.initial cl

/-! ### Mutual exclusion -/

/-- A node inside the critical section of a lock is the holder in the master's record. -/
theorem LockInv.heldBy_of_inside {cl : Cluster} {s : LockState} {i : NodeId} {l : LockId}
    (h : LockInv cl s) (hinside : s.Inside cl i l) : (s.master.locks l).heldBy i = true := by
  rcases hinside with ⟨rfl, hinside⟩ | ⟨hi, hinside⟩
  · exact h.master.critical l (.inl hinside)
  · have hlink := h.link i hi
    have hclear : (s.worker i).pc ≠ .clear l := by
      intro hpc
      have hout := hlink.busy l (.inr (.inr (.inr hpc)))
      rw [hinside] at hout
      cases hout
    have howns : (s.worker i).owns i l = 1 := by
      rw [WorkerNode.owns, if_pos ⟨hlink.critical l (.inl hinside), hclear⟩]
    have htoken := hlink.token l
    by_contra hnot
    rw [MasterNode.held, Lock.held, if_neg hnot] at htoken
    omega

/-- A lock has one holder, so one node at most is inside its critical section. -/
theorem LockInv.inside_unique {cl : Cluster} {s : LockState} {i j : NodeId} {l : LockId}
    (h : LockInv cl s) (hi : s.Inside cl i l) (hj : s.Inside cl j l) : i = j :=
  Lock.heldBy_unique (h.heldBy_of_inside hi) (h.heldBy_of_inside hj)

/-- No two nodes are inside the critical section of one lock, in any interleaving. -/
theorem lock_mutual_exclusion {cl : Cluster} {s : LockState} {i j : NodeId} {l : LockId}
    (hreach : (lockMachine cl).Reachable s) (hi : s.Inside cl i l) (hj : s.Inside cl j l) : i = j := by
  have hinv := LockInv.of_reachable hreach
  exact hinv.inside_unique hi hj

/-- A cluster with workers 2 and 3, in which worker 2 acquires lock 0 while worker 3 asks for it. -/
def contendedRun : List LockAction :=
  [.worker 2 (.lock 0), .worker 3 (.lock 0), .worker 2 .request, .worker 3 .request,
    .master (.receive 2), .master .tcpGrant, .master (.receive 3), .worker 2 .receive,
    .worker 2 .test]

theorem lock_mutual_exclusion_contended : ∃ s, (lockMachine twoWorkers).Reachable s ∧
    s.Inside twoWorkers 2 0 ∧ ∀ j, s.Inside twoWorkers j 0 → 2 = j := by
  have hrun : ((lockMachine twoWorkers).exec .initial contendedRun).map
      (fun s => (s.worker 2).inside 0) = some true := by decide
  obtain ⟨s, hexec, hinside⟩ := Option.map_eq_some_iff.mp hrun
  have hreach : (lockMachine twoWorkers).Reachable s := (Machine.Reachable.start rfl).exec hexec
  have hin : s.Inside twoWorkers 2 0 := .inr ⟨by decide, hinside⟩
  exact ⟨s, hreach, hin, fun j hj => lock_mutual_exclusion hreach hin hj⟩

end Dsm
