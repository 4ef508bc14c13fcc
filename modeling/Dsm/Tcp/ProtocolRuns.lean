import Dsm.Tcp.Protocol
import Dsm.Tcp.StreamProgress

/-!
# Runs of a protocol over connections

An infinite run of a protocol over connections is a run of the protocol, with steps in which it stands
still (`Protocol.Lawful.abstractRun`). A message that is pending in one of its channels is in a connection
whose bytes move on, so the step that completes it is taken (`receives_toMaster`, `receives_toWorker`):
what the server threads are assumed to do in a fair run of the protocol follows from what is assumed of the
bytes.
-/

namespace Dsm

variable {σ α μ ν : Type*} {P : Protocol σ α μ ν}

/-! ### The streams of a step -/

namespace ProtocolWire

variable {s t : ProtocolWire σ}

theorem streams_of_handleToMaster {w : NodeId} {call : Option Tcp.Call}
    (h : s.handleToMaster P w call = some t) : t.toMaster = s.toMaster ∧ t.toWorker = s.toWorker := by
  rw [handleToMaster] at h
  split at h
  · cases h
    exact ⟨rfl, rfl⟩
  · obtain ⟨n, -, rfl⟩ := Option.map_eq_some_iff.mp h
    exact ⟨rfl, rfl⟩

theorem streams_of_handleToWorker {w : NodeId} {call : Option Tcp.Call}
    (h : s.handleToWorker P w call = some t) : t.toMaster = s.toMaster ∧ t.toWorker = s.toWorker := by
  rw [handleToWorker] at h
  split at h
  · cases h
    exact ⟨rfl, rfl⟩
  · obtain ⟨n, -, rfl⟩ := Option.map_eq_some_iff.mp h
    exact ⟨rfl, rfl⟩

variable (hP : P.Lawful)
include hP

/-- A step moves the bytes from worker `w` to the master, or hands messages to the connection. -/
theorem toMaster_of_step {a : ProtocolWireAction α} (hstep : s.step P a = some t) (w : NodeId) :
    (∃ b call, a = .toMaster w b ∧ (s.toMaster w).step b = some (t.toMaster w, call)) ∨
      (∀ b, a ≠ .toMaster w b) ∧ (s.toMaster w).Handed (t.toMaster w) := by
  cases a with
  | thread a seqNum =>
      obtain ⟨n, -, rfl⟩ := Option.map_eq_some_iff.mp hstep
      refine .inr ⟨fun _ heq => (by cases heq), _, List.forall_mem_map.mpr fun msg _ => ?_, rfl⟩
      exact hP.wellFormedToMaster ..
  | toMaster v b =>
      obtain ⟨out, hout, hhandle⟩ := Option.bind_eq_some_iff.mp hstep
      rw [(streams_of_handleToMaster hhandle).1]
      by_cases heq : w = v
      · subst heq
        exact .inl ⟨b, out.2, rfl, by simp [hout]⟩
      · refine .inr ⟨fun b' hb' => ?_, by simpa [heq] using Tcp.Stream.Handed.refl _⟩
        cases hb'
        exact heq rfl
  | toWorker v b =>
      obtain ⟨out, -, hhandle⟩ := Option.bind_eq_some_iff.mp hstep
      rw [(streams_of_handleToWorker hhandle).1]
      exact .inr ⟨fun _ heq => (by cases heq), .refl _⟩
  | otherToMaster v m =>
      rw [step, Option.ite_none_right_eq_some] at hstep
      obtain ⟨hother, heq⟩ := hstep
      cases heq
      have hsent : (s.toMaster v).Handed ((s.toMaster v).send [m]) :=
        ⟨[m], List.forall_mem_singleton.mpr hother.1, rfl⟩
      exact .inr ⟨fun _ heq => (by cases heq), hsent.update w⟩
  | otherToWorker v m =>
      rw [step, Option.ite_none_right_eq_some] at hstep
      cases hstep.2
      exact .inr ⟨fun _ heq => (by cases heq), .refl _⟩

/-- A step moves the bytes from the master to worker `w`, or hands messages to the connection. -/
theorem toWorker_of_step {a : ProtocolWireAction α} (hstep : s.step P a = some t) (w : NodeId) :
    (∃ b call, a = .toWorker w b ∧ (s.toWorker w).step b = some (t.toWorker w, call)) ∨
      (∀ b, a ≠ .toWorker w b) ∧ (s.toWorker w).Handed (t.toWorker w) := by
  cases a with
  | thread a seqNum =>
      obtain ⟨n, -, rfl⟩ := Option.map_eq_some_iff.mp hstep
      refine .inr ⟨fun _ heq => (by cases heq), _, List.forall_mem_map.mpr fun msg _ => ?_, rfl⟩
      exact hP.wellFormedToWorker ..
  | toMaster v b =>
      obtain ⟨out, -, hhandle⟩ := Option.bind_eq_some_iff.mp hstep
      rw [(streams_of_handleToMaster hhandle).2]
      exact .inr ⟨fun _ heq => (by cases heq), .refl _⟩
  | toWorker v b =>
      obtain ⟨out, hout, hhandle⟩ := Option.bind_eq_some_iff.mp hstep
      rw [(streams_of_handleToWorker hhandle).2]
      by_cases heq : w = v
      · subst heq
        exact .inl ⟨b, out.2, rfl, by simp [hout]⟩
      · refine .inr ⟨fun b' hb' => ?_, by simpa [heq] using Tcp.Stream.Handed.refl _⟩
        cases hb'
        exact heq rfl
  | otherToMaster v m =>
      rw [step, Option.ite_none_right_eq_some] at hstep
      cases hstep.2
      exact .inr ⟨fun _ heq => (by cases heq), .refl _⟩
  | otherToWorker v m =>
      rw [step, Option.ite_none_right_eq_some] at hstep
      obtain ⟨hother, heq⟩ := hstep
      cases heq
      have hsent : (s.toWorker v).Handed ((s.toWorker v).send [m]) :=
        ⟨[m], List.forall_mem_singleton.mpr hother.1, rfl⟩
      exact .inr ⟨fun _ heq => (by cases heq), hsent.update w⟩

end ProtocolWire

/-! ### Runs -/

/-- The step of a thread that an action is. -/
def ProtocolWireAction.onThread : Option (ProtocolWireAction α) → Option α
  | some (.thread a _) => some a
  | _ => none

/-- The step of the bytes from worker `w` to the master that an action is. -/
def ProtocolWireAction.bytesToMaster (w : NodeId) : Option (ProtocolWireAction α) → Option Tcp.Action
  | some (.toMaster v a) => if v = w then some a else none
  | _ => none

def ProtocolWireAction.bytesToWorker (w : NodeId) : Option (ProtocolWireAction α) → Option Tcp.Action
  | some (.toWorker v a) => if v = w then some a else none
  | _ => none

theorem ProtocolWireAction.bytesToMaster_eq_some (w : NodeId) (x : Option (ProtocolWireAction α))
    (a : Tcp.Action) : bytesToMaster w x = some a ↔ x = some (.toMaster w a) := by
  unfold bytesToMaster
  split
  · simp
  · rename_i hother
    exact iff_of_false (fun heq => by cases heq) (hother w a)

theorem ProtocolWireAction.bytesToWorker_eq_some (w : NodeId) (x : Option (ProtocolWireAction α))
    (a : Tcp.Action) : bytesToWorker w x = some a ↔ x = some (.toWorker w a) := by
  unfold bytesToWorker
  split
  · simp
  · rename_i hother
    exact iff_of_false (fun heq => by cases heq) (hother w a)

/-- The bytes between the master and its workers move on. -/
structure Protocol.BytesFair (P : Protocol σ α μ ν) (cl : Cluster) (r : P.wire.idling.Run) : Prop where
  toMaster : ∀ w ∈ cl.workers, Tcp.StreamFair r (fun s => s.toMaster w) fun a => some (.toMaster w a)
  toWorker : ∀ w ∈ cl.workers, Tcp.StreamFair r (fun s => s.toWorker w) fun a => some (.toWorker w a)

/-- A finite run that serves the connections of all workers is fair to them when nothing follows. -/
theorem Protocol.bytesFair_ofExec {cl : Cluster} {s t : ProtocolWire σ}
    {as : List (Option (ProtocolWireAction α))} (hs : P.wire.idling.start s)
    (has : P.wire.idling.exec s as = some t) (hidle : P.wire.idling.step t none = some t)
    (htoMaster : ∀ w ∈ cl.workers, Tcp.serves P.wire.idling (fun s => s.toMaster w)
      (ProtocolWireAction.bytesToMaster w) s as = true)
    (htoWorker : ∀ w ∈ cl.workers, Tcp.serves P.wire.idling (fun s => s.toWorker w)
      (ProtocolWireAction.bytesToWorker w) s as = true) :
    P.BytesFair cl (Machine.Run.ofExec hs has hidle) where
  toMaster w hw :=
    Tcp.streamFair_ofExec hs has hidle (ProtocolWireAction.bytesToMaster_eq_some w) (htoMaster w hw) rfl
  toWorker w hw :=
    Tcp.streamFair_ofExec hs has hidle (ProtocolWireAction.bytesToWorker_eq_some w) (htoWorker w hw) rfl

namespace Protocol.Lawful

variable (hP : P.Lawful) (r : P.wire.idling.Run)
include hP

theorem wireInv_of_run (n : ℕ) : ProtocolWireInv P (r.state n) :=
  hP.wireInv (Machine.reachable_of_idling (r.reachable n))

/-- The run of the protocol that a run over connections is. -/
def abstractRun : P.machine.idling.Run where
  state n := (r.state n).abstract P
  act n := (r.act n).bind fun a => a.abstract P (r.state n)
  start := by
    obtain ⟨nodes, hstart, hopened⟩ := r.start
    have hsame : (ProtocolWire.opened nodes).abstract P = nodes := hP.setChannels_self nodes
    rw [hopened, hsame]
    exact hstart
  step n := by
    have hstep := r.step n
    cases hact : r.act n with
    | none =>
        rw [hact] at hstep
        rw [← Option.some.inj hstep]
        rfl
    | some a =>
        rw [hact] at hstep
        exact ((hP.wireInv_of_run r n).step hP hstep).2

variable {r}

theorem abstractRun_act {n : ℕ} {a : α} (h : ProtocolWireAction.onThread (r.act n) = some a) :
    (hP.abstractRun r).act n = some a := by
  change (r.act n).bind (fun a => a.abstract P (r.state n)) = some a
  cases hact : r.act n with
  | none =>
      rw [hact] at h
      cases h
  | some b =>
      rw [hact] at h
      cases b with
      | thread b seqNum => exact h
      | toMaster | toWorker | otherToMaster | otherToWorker => cases h

theorem abstractRun_moves {f : Option α → Bool} (hnone : f none = false) {n : ℕ}
    (h : f (ProtocolWireAction.onThread (r.act n)) = true) : f ((hP.abstractRun r).act n) = true := by
  cases hact : ProtocolWireAction.onThread (r.act n) with
  | none =>
      rw [hact, hnone] at h
      cases h
  | some a =>
      rw [hP.abstractRun_act hact, ← hact]
      exact h

variable {cl : Cluster} (hfair : P.BytesFair cl r) {w : NodeId} (hw : w ∈ cl.workers) {n : ℕ}
include hfair hw

theorem receives_toMaster (hmore : P.toMaster ((hP.abstractRun r).state n) w ≠ []) :
    ∃ m, n ≤ m ∧ (hP.abstractRun r).act m = some (P.masterReceive w) := by
  have hcarries : Tcp.Carries r (fun s => s.toMaster w) fun a => some (.toMaster w a) := by
    refine .of_step r (fun a b heq => ?_) (fun s hs => ?_) fun s a t hstep => ?_
    · cases heq
      rfl
    · obtain ⟨nodes, -, rfl⟩ := hs
      exact .opened
    · exact ProtocolWire.toMaster_of_step hP hstep w
  have hpending : ((r.state n).toMaster w).decoded P.ofCallToMaster ≠ [] := by
    intro hnil
    refine hmore ?_
    change P.toMaster (P.behind (r.state n).nodes _ _) w = []
    rw [behind, hP.toMaster_setChannels, hnil, ((hP.wireInv_of_run r n).quiet w).1, List.append_nil]
  obtain ⟨m, hnm, a, stream, call, hact, hstep, hsome⟩ :=
    Tcp.exists_read hcarries (hfair.toMaster w hw) hpending
  obtain ⟨msg, hmsg⟩ := Option.isSome_iff_exists.mp hsome
  refine ⟨m, hnm, ?_⟩
  change (r.act m).bind (fun a => a.abstract P (r.state m)) = _
  rw [hact, Option.bind_some, ProtocolWireAction.abstract, hstep, Option.bind_some, Option.bind_some,
    hmsg, Option.map_some]

theorem receives_toWorker (hmore : P.toWorker ((hP.abstractRun r).state n) w ≠ []) :
    ∃ m, n ≤ m ∧ (hP.abstractRun r).act m = some (P.workerReceive w) := by
  have hcarries : Tcp.Carries r (fun s => s.toWorker w) fun a => some (.toWorker w a) := by
    refine .of_step r (fun a b heq => ?_) (fun s hs => ?_) fun s a t hstep => ?_
    · cases heq
      rfl
    · obtain ⟨nodes, -, rfl⟩ := hs
      exact .opened
    · exact ProtocolWire.toWorker_of_step hP hstep w
  have hpending : ((r.state n).toWorker w).decoded P.ofCallToWorker ≠ [] := by
    intro hnil
    refine hmore ?_
    change P.toWorker (P.behind (r.state n).nodes _ _) w = []
    rw [behind, hP.toWorker_setChannels, hnil, ((hP.wireInv_of_run r n).quiet w).2, List.append_nil]
  obtain ⟨m, hnm, a, stream, call, hact, hstep, hsome⟩ :=
    Tcp.exists_read hcarries (hfair.toWorker w hw) hpending
  obtain ⟨msg, hmsg⟩ := Option.isSome_iff_exists.mp hsome
  refine ⟨m, hnm, ?_⟩
  change (r.act m).bind (fun a => a.abstract P (r.state m)) = _
  rw [hact, Option.bind_some, ProtocolWireAction.abstract, hstep, Option.bind_some, Option.bind_some,
    hmsg, Option.map_some]

end Protocol.Lawful

end Dsm
