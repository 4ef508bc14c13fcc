import Dsm.Sync.BarrierSteps
import Dsm.Tcp.ClusterTraffic
import Dsm.Tcp.Protocol

/-!
# Barriers over connections

`BarrierMachine` as a protocol over connections. `BARRIER_ENTER` and `BARRIER_RELEASE` are headers alone;
the master knows an arrival by the `src_node` of its header, which is that of the worker whose connection
it came over (`BarrierState.Sourced`), and all releases are alike, so the channel to a worker is how many of
them are on their way.
-/

namespace Dsm

/-! ### The messages -/

/-- A header without payload. -/
def barrierMessage (type : MsgType) (srcNode dstNode : NodeId) (seqNum : UInt32) : Message :=
  { header :=
      { magic := magic, type := type.code, srcNode := UInt32.ofNat srcNode
        dstNode := UInt32.ofNat dstNode, seqNum := seqNum, payloadLen := 0 }
    payload := [] }

def enterMessage (seqNum : UInt32) (srcNode : NodeId) : Message :=
  barrierMessage .barrierEnter srcNode NodeCtx.masterIdField seqNum

def releaseMessage (w : NodeId) (seqNum : UInt32) : Message :=
  barrierMessage .barrierRelease masterId w seqNum

/-- The case for `BARRIER_ENTER` in the dispatcher of the master. -/
def enterOfCall (call : Tcp.Call) : Option NodeId :=
  if MsgType.ofCode call.1.type = some .barrierEnter then some call.1.srcNode.toNat else none

/-- The case for `BARRIER_RELEASE` in the dispatcher of a worker. -/
def releaseOfCall (call : Tcp.Call) : Option Unit :=
  if MsgType.ofCode call.1.type = some .barrierRelease then some () else none

/-- Every worker with other channels. -/
def BarrierState.setChannels (s : BarrierState) (toMaster : NodeId → List NodeId)
    (toWorker : NodeId → List Unit) : BarrierState :=
  { s with
    worker := fun w => { s.worker w with toMaster := toMaster w, toWorker := (toWorker w).length } }

/-- The barrier of a cluster as a protocol between its nodes. -/
def barrierProtocol (cl : Cluster) : Protocol BarrierState BarrierAction NodeId Unit where
  machine := barrierMachine cl
  toMaster s w := (s.worker w).toMaster
  toWorker s w := List.replicate (s.worker w).toWorker ()
  setChannels := BarrierState.setChannels
  masterReceive w := .master (.receive w)
  workerReceive w := .worker w .receive
  messageToMaster _ seqNum srcNode := enterMessage seqNum srcNode
  messageToWorker w seqNum _ := releaseMessage w seqNum
  ofCallToMaster := enterOfCall
  ofCallToWorker := releaseOfCall
  types := [.barrierEnter, .barrierRelease]

def barrierWire (cl : Cluster) : Machine (ProtocolWire BarrierState) (ProtocolWireAction BarrierAction) :=
  (barrierProtocol cl).wire

/-! ### A node takes its steps without looking at what was sent before -/

def BarrierWorker.behind (n : BarrierWorker) (toMaster : List NodeId) (toWorker : List Unit) :
    BarrierWorker :=
  { n with
    toMaster := toMaster ++ n.toMaster
    toWorker := (toWorker ++ List.replicate n.toWorker ()).length }

theorem BarrierWorker.step_behind {w : NodeId} {n n' : BarrierWorker} {a : BarrierWorkerAction}
    (hquiet : n.toWorker = 0) (hstep : n.step w a = some n') (toMaster : List NodeId)
    (toWorker : List Unit) :
    (n.behind toMaster toWorker).step w a = some (n'.behind toMaster toWorker) := by
  cases BarrierWorker.step_effect hstep with
  | call hpc | send hpc | wait hpc | ret hpc => simp [BarrierWorker.step, BarrierWorker.behind, hpc]
  | receive hrest =>
      rw [hquiet] at hrest
      cases hrest

namespace BarrierState

variable {cl : Cluster} {s t : BarrierState}

/-- What was sent before comes before what the nodes send now. -/
def behind (s : BarrierState) (toMaster : NodeId → List NodeId) (toWorker : NodeId → List Unit) :
    BarrierState :=
  { s with worker := fun w => (s.worker w).behind (toMaster w) (toWorker w) }

/-- Nothing is on its way between the threads of a node and its sockets. -/
def Quiet (s : BarrierState) : Prop := ∀ w, (s.worker w).toMaster = [] ∧ (s.worker w).toWorker = 0

variable (toMaster : NodeId → List NodeId) (toWorker : NodeId → List Unit)

theorem behind_setWorker (w : NodeId) (n : BarrierWorker) :
    (s.setWorker w n).behind toMaster toWorker =
      (s.behind toMaster toWorker).setWorker w (n.behind (toMaster w) (toWorker w)) := by
  simp only [behind, setWorker, mk.injEq, true_and]
  funext w'
  by_cases heq : w' = w
  · subst heq
    simp
  · simp [heq]

theorem behind_sendRelease (node : NodeId) :
    (s.sendRelease node).behind toMaster toWorker = (s.behind toMaster toWorker).sendRelease node := by
  rw [sendRelease, sendRelease]
  split_ifs
  · rw [behind_setWorker]
    simp [BarrierWorker.behind, behind, Nat.add_assoc]
  · rfl

theorem masterStep_behind {a : BarrierMasterAction} (hquiet : ∀ w, (s.worker w).toMaster = [])
    (hstep : s.masterStep cl a = some t) :
    (s.behind toMaster toWorker).masterStep cl a = some (t.behind toMaster toWorker) := by
  have hmaster : (s.behind toMaster toWorker).master = s.master := rfl
  cases masterStep_effect hstep with
  | call hpc => exact if_pos hpc
  | enter hpc hfree | read hpc hfree => exact if_pos ⟨hpc, hfree⟩
  | wake hpc hfree =>
      simp only [masterStep, hmaster, hpc, if_pos hfree]
      rfl
  | receive _ _ hhead =>
      rw [hquiet] at hhead
      cases hhead
  | visit hreleasing =>
      simp only [masterStep, hmaster, hreleasing, behind_sendRelease]
      rfl
  | reset hreleasing =>
      simp only [masterStep, hmaster, hreleasing]
      rfl

theorem step_behind {a : BarrierAction} (hquiet : s.Quiet) (hstep : s.step cl a = some t) :
    (s.behind toMaster toWorker).step cl a = some (t.behind toMaster toWorker) := by
  cases a with
  | master a => exact masterStep_behind toMaster toWorker (fun w => (hquiet w).1) hstep
  | worker w a =>
      rw [step, Option.ite_none_right_eq_some] at hstep
      obtain ⟨hw, hstep⟩ := hstep
      obtain ⟨n, hn, rfl⟩ := Option.map_eq_some_iff.mp hstep
      rw [step, if_pos hw]
      refine Option.map_eq_some_iff.mpr ⟨_, BarrierWorker.step_behind (hquiet w).2 hn _ _, ?_⟩
      rw [behind_setWorker]

/-- The master handles the arrival that has just come as it handles the first one of its channel. -/
theorem receive_setChannels {w srcNode : NodeId}
    (hstep : (s.setChannels (Function.update (fun _ => []) w [srcNode]) fun _ => []).step cl
      (.master (.receive w)) = some t) :
    t.Quiet ∧ ∀ rest, toMaster w = srcNode :: rest →
      (s.setChannels toMaster toWorker).step cl (.master (.receive w)) =
        some (t.setChannels (Function.update toMaster w rest) toWorker) := by
  have heffect : (s.setChannels (Function.update (fun _ => []) w [srcNode]) fun _ => []).MasterEffect cl
      (.receive w) t := masterStep_effect hstep
  cases heffect with
  | @receive _ srcNode' rest' hw hfree hhead =>
      have hone : [srcNode] = srcNode' :: rest' := by simpa [setChannels] using hhead
      obtain ⟨rfl, rfl⟩ := List.cons.inj hone
      constructor
      · intro w'
        by_cases heq : w' = w
        · subst heq
          simp [setWorker, setMaster, setChannels]
        · simp [setWorker, setMaster, setChannels, heq]
      · intro rest hfirst
        have hmaster : (s.setChannels toMaster toWorker).master.releasing = none := hfree
        have hfirst : ((s.setChannels toMaster toWorker).worker w).toMaster = srcNode :: rest := hfirst
        simp only [step, masterStep, hfirst, if_pos (And.intro hw hmaster)]
        refine congrArg some ?_
        simp only [setChannels, setWorker, setMaster, mk.injEq, true_and]
        funext w'
        by_cases heq : w' = w
        · subst heq
          simp
        · simp [heq]

/-- A worker handles the release that has just come as it handles the first one of its channel. -/
theorem release_setChannels {w : NodeId} {msg : Unit}
    (hstep : (s.setChannels (fun _ => []) (Function.update (fun _ => []) w [msg])).step cl
      (.worker w .receive) = some t) :
    t.Quiet ∧ ∀ rest, toWorker w = msg :: rest →
      (s.setChannels toMaster toWorker).step cl (.worker w .receive) =
        some (t.setChannels toMaster (Function.update toWorker w rest)) := by
  rw [step, Option.ite_none_right_eq_some] at hstep
  obtain ⟨hw, hstep⟩ := hstep
  obtain ⟨n, hn, rfl⟩ := Option.map_eq_some_iff.mp hstep
  simp only [setChannels, Function.update_self, BarrierWorker.step, List.length_singleton,
    Option.some.injEq] at hn
  subst hn
  constructor
  · intro w'
    by_cases heq : w' = w
    · subst heq
      simp [setWorker]
    · simp [setWorker, setChannels, heq]
  · intro rest hfirst
    have hlen : ((s.setChannels toMaster toWorker).worker w).toWorker = rest.length + 1 := by
      change (toWorker w).length = rest.length + 1
      rw [hfirst, List.length_cons]
    simp only [step, if_pos hw, BarrierWorker.step, hlen, Option.map_some]
    refine congrArg some ?_
    simp only [setChannels, setWorker, mk.injEq, true_and]
    funext w'
    by_cases heq : w' = w
    · subst heq
      simp only [Function.update_self]
      rfl
    · simp [heq]

/-! ### The senders of the arrivals -/

/-- Every arrival on its way comes from the worker at the other end of its connection. -/
def Sourced (cl : Cluster) (s : BarrierState) : Prop :=
  ∀ w, ∀ srcNode ∈ (s.worker w).toMaster, w ∈ cl.workers ∧ srcNode = w

theorem Sourced.step {a : BarrierAction} (h : s.Sourced cl) (hstep : s.step cl a = some t) :
    t.Sourced cl := by
  intro w srcNode hsrc
  by_cases hact : ∃ b, a = .worker w b
  · obtain ⟨b, rfl⟩ := hact
    rw [BarrierState.step, Option.ite_none_right_eq_some] at hstep
    obtain ⟨hw, hstep⟩ := hstep
    obtain ⟨n, hn, rfl⟩ := Option.map_eq_some_iff.mp hstep
    simp only [setWorker, Function.update_self] at hsrc
    cases BarrierWorker.step_effect hn with
    | call | wait | receive | ret => exact h w srcNode hsrc
    | send =>
        rcases List.mem_append.mp hsrc with hsrc | hsrc
        · exact h w srcNode hsrc
        · exact ⟨hw, List.mem_singleton.mp hsrc⟩
  · have huntouched := untouched_of_step (w := w) hstep fun b heq => hact ⟨b, heq⟩
    rcases huntouched.toMaster with ⟨hsame, -⟩ | ⟨-, first, htail⟩
    · exact h w srcNode (hsame ▸ hsrc)
    · exact h w srcNode (htail ▸ List.mem_cons_of_mem first hsrc)

theorem sourced_of_reachable (h : (barrierMachine cl).Reachable s) : s.Sourced cl := by
  refine h.invariant (fun s hs => ?_) fun _ _ _ hinv hstep => hinv.step hstep
  rw [hs]
  intro _ _ hsrc
  cases hsrc

end BarrierState

/-! ### What the other end makes of the messages -/

theorem barrierMessage_wellFormed (type : MsgType) (srcNode dstNode : NodeId) (seqNum : UInt32) :
    (barrierMessage type srcNode dstNode seqNum).WellFormed :=
  ⟨rfl, (by decide : (0 : UInt32).toNat ≤ tcpBufferSize), rfl⟩

theorem enterOfCall_enterMessage {srcNode : NodeId} (hsrc : srcNode < 2 ^ 32) (seqNum : UInt32) :
    enterOfCall (enterMessage seqNum srcNode).call = some srcNode :=
  congrArg some (UInt32.toNat_ofNat_of_lt' hsrc)

theorem releaseOfCall_releaseMessage (w : NodeId) (seqNum : UInt32) :
    releaseOfCall (releaseMessage w seqNum).call = some () := rfl

theorem enterOfCall_other {cl : Cluster} {m : Message} (h : (barrierProtocol cl).Other m) :
    enterOfCall m.call = none :=
  if_neg (h.2 .barrierEnter List.mem_cons_self)

theorem releaseOfCall_other {cl : Cluster} {m : Message} (h : (barrierProtocol cl).Other m) :
    releaseOfCall m.call = none :=
  if_neg (h.2 .barrierRelease (by simp [barrierProtocol]))

theorem replicate_length (releases : List Unit) : List.replicate releases.length () = releases :=
  (List.eq_replicate_iff.mpr ⟨rfl, fun _ _ => rfl⟩).symm

theorem barrierProtocol_quiet {cl : Cluster} {s : BarrierState} :
    (barrierProtocol cl).Quiet s ↔ s.Quiet :=
  forall_congr' fun _ => and_congr_right fun _ => List.replicate_eq_nil_iff ()

theorem barrierProtocol_lawful {cl : Cluster} (hids : ∀ w ∈ cl.workers, w < 2 ^ 32) :
    (barrierProtocol cl).Lawful where
  toMaster_setChannels _ _ _ := rfl
  toWorker_setChannels _ _ g := funext fun w => replicate_length (g w)
  setChannels_self s := by
    simp [barrierProtocol, BarrierState.setChannels]
  setChannels_idem _ _ _ _ _ := rfl
  quiet_start s hs := by
    rw [show s = .initial from hs]
    exact fun _ => ⟨rfl, rfl⟩
  step_behind hquiet hstep f g := BarrierState.step_behind f g (barrierProtocol_quiet.mp hquiet) hstep
  masterReceive _ hstep := by
    refine ⟨barrierProtocol_quiet.mpr ?_, fun f g rest hfirst => ?_⟩
    · exact (BarrierState.receive_setChannels (fun _ => []) (fun _ => []) hstep).1
    · exact (BarrierState.receive_setChannels f g hstep).2 rest hfirst
  workerReceive _ hstep := by
    refine ⟨barrierProtocol_quiet.mpr ?_, fun f g rest hfirst => ?_⟩
    · exact (BarrierState.release_setChannels (fun _ => []) (fun _ => []) hstep).1
    · exact (BarrierState.release_setChannels f g hstep).2 rest hfirst
  wellFormedToMaster _ _ _ := barrierMessage_wellFormed ..
  wellFormedToWorker _ _ _ := barrierMessage_wellFormed ..
  ofCall_messageToMaster hreach hsrc seqNum := by
    obtain ⟨hw, rfl⟩ := BarrierState.sourced_of_reachable hreach _ _ hsrc
    exact enterOfCall_enterMessage (hids _ hw) seqNum
  ofCall_messageToWorker _ _ seqNum := releaseOfCall_releaseMessage masterId seqNum
  otherToMaster := enterOfCall_other
  otherToWorker := releaseOfCall_other

/-- `barrierRun` over connections: a heartbeat follows the arrival of worker 2, in pieces that do not end
where the messages do. -/
def passRun : List (ProtocolWireAction BarrierAction) :=
  [.thread (.worker 2 .call) 0, .thread (.worker 2 .send) 0,
    .otherToMaster 2 (NodeCtx.message (.fresh .worker 2 [] 0 1) .heartbeat NodeCtx.masterIdField []),
    .toMaster 2 .begin, .toMaster 2 (.accept 20), .toMaster 2 (.deliver 15), .toMaster 2 (.accept 4),
    .toMaster 2 .begin, .toMaster 2 (.accept 24), .toMaster 2 (.deliver 33), .toMaster 2 .call,
    .toMaster 2 (.peek 24), .toMaster 2 .readHeader, .toMaster 2 (.peek 24), .toMaster 2 .readHeader,
    .thread (.worker 2 .wait) 0, .thread (.master .call) 0, .thread (.master .enter) 0,
    .thread (.master .visit) 1, .toWorker 2 .begin, .toWorker 2 (.accept 24), .toWorker 2 (.deliver 24),
    .toWorker 2 .call, .toWorker 2 (.peek 24), .toWorker 2 .readHeader, .thread (.worker 2 .ret) 0,
    .thread (.master .visit) 1, .thread (.master .reset) 0, .thread (.master .read) 0]

end Dsm
