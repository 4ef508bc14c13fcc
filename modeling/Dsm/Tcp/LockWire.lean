import Dsm.Sync.LockSafety
import Dsm.Tcp.ClusterTraffic
import Dsm.Tcp.Protocol

/-!
# Locks over connections

`LockMachine` as a protocol over connections: what `LOCK_REQUEST`, `LOCK_RELEASE` and `LOCK_GRANT` are as
bytes, and why the other end takes them for what they are. Every lock id that is sent is one that
`dsm_lock` and `dsm_unlock` let pass (`LockState.InRange`), so it survives its four bytes, and a node takes
its steps without looking at what was sent before (`LockState.step_behind`).
-/

namespace Dsm

/-! ### The messages -/

/-- A `dsm_msg_lock_t` with its header. -/
def lockMessage (type : MsgType) (srcNode dstNode : NodeId) (seqNum : UInt32) (l : LockId) : Message :=
  { header :=
      { magic := magic, type := type.code, srcNode := UInt32.ofNat srcNode
        dstNode := UInt32.ofNat dstNode, seqNum := seqNum, payloadLen := 4 }
    payload := Bytes.le l 4 }

def ToMaster.lockId : ToMaster → LockId
  | .request _ l => l
  | .release _ l => l

def ToMaster.message (seqNum : UInt32) : ToMaster → Message
  | .request srcNode l => lockMessage .lockRequest srcNode NodeCtx.masterIdField seqNum l
  | .release srcNode l => lockMessage .lockRelease srcNode NodeCtx.masterIdField seqNum l

def grantMessage (w : NodeId) (seqNum : UInt32) (l : LockId) : Message :=
  lockMessage .lockGrant masterId w seqNum l

/-- The cases for `LOCK_REQUEST` and `LOCK_RELEASE` in the dispatcher of the master. -/
def ToMaster.ofCall (call : Tcp.Call) : Option ToMaster :=
  if 4 ≤ call.1.payloadLen.toNat then
    match MsgType.ofCode call.1.type with
    | some .lockRequest => some (.request call.1.srcNode.toNat (Bytes.field (call.2.getD []) 0 4))
    | some .lockRelease => some (.release call.1.srcNode.toNat (Bytes.field (call.2.getD []) 0 4))
    | _ => none
  else none

/-- The case for `LOCK_GRANT` in the dispatcher of a worker. -/
def grantOfCall (call : Tcp.Call) : Option LockId :=
  if 4 ≤ call.1.payloadLen.toNat ∧ MsgType.ofCode call.1.type = some .lockGrant then
    some (Bytes.field (call.2.getD []) 0 4)
  else none

/-- Every worker with other channels. -/
def LockState.setChannels (s : LockState) (toMaster : NodeId → List ToMaster)
    (toWorker : NodeId → List LockId) : LockState :=
  { s with worker := fun w => { s.worker w with toMaster := toMaster w, toWorker := toWorker w } }

/-- The locks of a cluster as a protocol between its nodes. -/
def lockProtocol (cl : Cluster) : Protocol LockState LockAction ToMaster LockId where
  machine := lockMachine cl
  toMaster s w := (s.worker w).toMaster
  toWorker s w := (s.worker w).toWorker
  setChannels := LockState.setChannels
  masterReceive w := .master (.receive w)
  workerReceive w := .worker w .receive
  messageToMaster _ seqNum msg := msg.message seqNum
  messageToWorker := grantMessage
  ofCallToMaster := ToMaster.ofCall
  ofCallToWorker := grantOfCall
  types := [.lockRequest, .lockGrant, .lockRelease]

def lockWire (cl : Cluster) : Machine (ProtocolWire LockState) (ProtocolWireAction LockAction) :=
  (lockProtocol cl).wire

/-! ### A node takes its steps without looking at what was sent before -/

def WorkerNode.behind (n : WorkerNode) (toMaster : List ToMaster) (toWorker : List LockId) :
    WorkerNode :=
  { n with toMaster := toMaster ++ n.toMaster, toWorker := toWorker ++ n.toWorker }

namespace LockState

/-- Nothing is on its way between the threads of a node and its sockets. -/
def Quiet (s : LockState) : Prop := ∀ w, (s.worker w).toMaster = [] ∧ (s.worker w).toWorker = []

/-- What was sent before comes before what the nodes send now. -/
def behind (s : LockState) (toMaster : NodeId → List ToMaster) (toWorker : NodeId → List LockId) :
    LockState :=
  { s with worker := fun w => (s.worker w).behind (toMaster w) (toWorker w) }

end LockState

theorem WorkerNode.step_behind {w : NodeId} {n n' : WorkerNode} {a : WorkerAction}
    (hquiet : n.toWorker = []) (hstep : n.step w a = some n') (toMaster : List ToMaster)
    (toWorker : List LockId) :
    (n.behind toMaster toWorker).step w a = some (n'.behind toMaster toWorker) := by
  cases WorkerNode.step_effect hstep with
  | lock hpc hl hinside | unlock hpc hl hinside => exact if_pos ⟨hpc, hl, hinside⟩
  | testSleep hpc hheld | testEnter hpc hheld =>
      simp [WorkerNode.step, WorkerNode.behind, hpc, hheld]
  | request hpc | release hpc =>
      simp [WorkerNode.step, WorkerNode.behind, hpc]
  | wake hpc | spurious hpc | clear hpc => simp [WorkerNode.step, WorkerNode.behind, hpc]
  | receive hgrants =>
      rw [hquiet] at hgrants
      cases hgrants

namespace LockState

variable {cl : Cluster} {s t : LockState} (toMaster : NodeId → List ToMaster)
  (toWorker : NodeId → List LockId)

theorem behind_setWorker (w : NodeId) (n : WorkerNode) :
    (s.setWorker w n).behind toMaster toWorker =
      (s.behind toMaster toWorker).setWorker w (n.behind (toMaster w) (toWorker w)) := by
  simp only [behind, setWorker, mk.injEq, true_and]
  funext w'
  by_cases heq : w' = w
  · subst heq
    simp
  · simp [heq]

theorem behind_sendGrant (w : NodeId) (l : LockId) :
    (s.sendGrant cl w l).behind toMaster toWorker =
      (s.behind toMaster toWorker).sendGrant cl w l := by
  rw [sendGrant, sendGrant]
  split_ifs
  · rw [behind_setWorker]
    simp [WorkerNode.behind, behind]
  · rfl

theorem masterStep_behind {a : MasterAction} (hquiet : ∀ w, (s.worker w).toMaster = [])
    (hstep : s.masterStep cl a = some t) :
    (s.behind toMaster toWorker).masterStep cl a = some (t.behind toMaster toWorker) := by
  have hmaster : (s.behind toMaster toWorker).master = s.master := rfl
  cases LockState.masterStep_effect hstep with
  | lock hpc hl hinside | unlock hpc hl hinside => exact if_pos ⟨hpc, hl, hinside⟩
  | testSleep hpc htest | testEnter hpc htest =>
      simp only [LockState.masterStep, hmaster, hpc, htest]
      rfl
  | wake hpc | spurious hpc | release hpc | signal hpc =>
      simp only [LockState.masterStep, hmaster, hpc]
      rfl
  | grant hpc =>
      simp only [LockState.masterStep, hmaster, hpc, behind_sendGrant]
      rfl
  | receive _ _ hhead =>
      rw [hquiet] at hhead
      cases hhead
  | tcpGrant hgrant =>
      simp only [LockState.masterStep, hmaster, hgrant, behind_sendGrant]
      rfl

theorem step_behind {a : LockAction} (hquiet : s.Quiet) (hstep : s.step cl a = some t) :
    (s.behind toMaster toWorker).step cl a = some (t.behind toMaster toWorker) := by
  cases a with
  | master a => exact masterStep_behind toMaster toWorker (fun w => (hquiet w).1) hstep
  | worker w a =>
      rw [LockState.step, Option.ite_none_right_eq_some] at hstep
      obtain ⟨hw, hstep⟩ := hstep
      obtain ⟨n, hn, rfl⟩ := Option.map_eq_some_iff.mp hstep
      rw [LockState.step, if_pos hw]
      refine Option.map_eq_some_iff.mpr ⟨_, WorkerNode.step_behind (hquiet w).2 hn _ _, ?_⟩
      rw [behind_setWorker]

/-- The master handles the message that has just arrived as it handles the first one of its channel. -/
theorem receive_setChannels {w : NodeId} {msg : ToMaster}
    (hstep : (s.setChannels (Function.update (fun _ => []) w [msg]) fun _ => []).step cl
      (.master (.receive w)) = some t) :
    t.Quiet ∧ ∀ rest, toMaster w = msg :: rest →
      (s.setChannels toMaster toWorker).step cl (.master (.receive w)) =
        some (t.setChannels (Function.update toMaster w rest) toWorker) := by
  have heffect : (s.setChannels (Function.update (fun _ => []) w [msg]) fun _ => []).MasterEffect cl
      (.receive w) t := masterStep_effect hstep
  cases heffect with
  | @receive _ msg' rest' hw htcp hhead =>
      have hone : [msg] = msg' :: rest' := by simpa [setChannels] using hhead
      obtain ⟨rfl, rfl⟩ := List.cons.inj hone
      constructor
      · intro w'
        by_cases heq : w' = w
        · subst heq
          simp [setWorker, setMaster, setChannels]
        · simp [setWorker, setMaster, setChannels, heq]
      · intro rest hfirst
        have hmaster : (s.setChannels toMaster toWorker).master.tcpGrant = none := htcp
        have hfirst : ((s.setChannels toMaster toWorker).worker w).toMaster = msg :: rest := hfirst
        simp only [step, masterStep, hmaster, hfirst, if_pos hw]
        refine congrArg some ?_
        simp only [setChannels, setWorker, setMaster, mk.injEq, true_and]
        funext w'
        by_cases heq : w' = w
        · subst heq
          simp
        · simp [heq]

/-- A worker handles the grant that has just arrived as it handles the first one of its channel. -/
theorem grant_setChannels {w : NodeId} {l : LockId}
    (hstep : (s.setChannels (fun _ => []) (Function.update (fun _ => []) w [l])).step cl
      (.worker w .receive) = some t) :
    t.Quiet ∧ ∀ rest, toWorker w = l :: rest →
      (s.setChannels toMaster toWorker).step cl (.worker w .receive) =
        some (t.setChannels toMaster (Function.update toWorker w rest)) := by
  rw [step, Option.ite_none_right_eq_some] at hstep
  obtain ⟨hw, hstep⟩ := hstep
  obtain ⟨n, hn, rfl⟩ := Option.map_eq_some_iff.mp hstep
  simp only [setChannels, Function.update_self, WorkerNode.step, Option.some.injEq] at hn
  subst hn
  constructor
  · intro w'
    by_cases heq : w' = w
    · subst heq
      simp [setWorker]
    · simp [setWorker, setChannels, heq]
  · intro rest hfirst
    have hfirst : ((s.setChannels toMaster toWorker).worker w).toWorker = l :: rest := hfirst
    simp only [step, if_pos hw, WorkerNode.step, hfirst, Option.map_some]
    refine congrArg some ?_
    simp only [setChannels, setWorker, mk.injEq, true_and]
    funext w'
    by_cases heq : w' = w
    · subst heq
      simp
    · simp [heq]

end LockState

/-! ### The lock ids of the messages -/

def MasterPc.lockId : MasterPc → Option LockId
  | .idle => none
  | .acquire l | .sleep l _ | .release l | .grant l _ | .signal l => some l

def WorkerPc.lockId : WorkerPc → Option LockId
  | .idle => none
  | .request l | .wait l | .sleep l _ | .release l | .clear l => some l

/-- Every lock id that a thread works with or sends is one that `dsm_lock` and `dsm_unlock` let pass. -/
structure LockState.InRange (cl : Cluster) (s : LockState) : Prop where
  master : ∀ l ∈ s.master.pc.lockId, l < maxLocks
  tcpGrant : ∀ g ∈ s.master.tcpGrant, g.2 < maxLocks
  worker : ∀ w, ∀ l ∈ (s.worker w).pc.lockId, l < maxLocks
  toMaster : ∀ w, ∀ msg ∈ (s.worker w).toMaster,
    w ∈ cl.workers ∧ msg.srcNode = w ∧ msg.lockId < maxLocks
  toWorker : ∀ w, ∀ l ∈ (s.worker w).toWorker, l < maxLocks

theorem LockState.InRange.initial (cl : Cluster) : LockState.initial.InRange cl where
  master _ hl := by cases hl
  tcpGrant _ hg := by cases hg
  worker _ _ hl := by cases hl
  toMaster _ _ hmsg := by cases hmsg
  toWorker _ _ hl := by cases hl

namespace LockState.InRange

variable {cl : Cluster} {s t : LockState} (h : s.InRange cl)
include h

theorem setMaster {m : MasterNode} (hpc : ∀ l ∈ m.pc.lockId, l < maxLocks)
    (htcp : ∀ g ∈ m.tcpGrant, g.2 < maxLocks) : (s.setMaster m).InRange cl :=
  ⟨hpc, htcp, h.worker, h.toMaster, h.toWorker⟩

theorem setWorker {w : NodeId} {n : WorkerNode} (hpc : ∀ l ∈ n.pc.lockId, l < maxLocks)
    (htoMaster : ∀ msg ∈ n.toMaster, w ∈ cl.workers ∧ msg.srcNode = w ∧ msg.lockId < maxLocks)
    (htoWorker : ∀ l ∈ n.toWorker, l < maxLocks) : (s.setWorker w n).InRange cl where
  master := h.master
  tcpGrant := h.tcpGrant
  worker := (Function.forall_update_iff s.worker fun _ n => ∀ l ∈ n.pc.lockId, l < maxLocks).mpr
    ⟨hpc, fun w' _ => h.worker w'⟩
  toMaster := (Function.forall_update_iff s.worker fun w n => ∀ msg ∈ n.toMaster,
    w ∈ cl.workers ∧ msg.srcNode = w ∧ msg.lockId < maxLocks).mpr ⟨htoMaster, fun w' _ => h.toMaster w'⟩
  toWorker := (Function.forall_update_iff s.worker fun _ n => ∀ l ∈ n.toWorker, l < maxLocks).mpr
    ⟨htoWorker, fun w' _ => h.toWorker w'⟩

theorem sendGrant (w : NodeId) {l : LockId} (hl : l < maxLocks) : (s.sendGrant cl w l).InRange cl := by
  rw [LockState.sendGrant]
  split_ifs
  · refine h.setWorker (h.worker w) (h.toMaster w) ?_
    exact List.forall_mem_append.mpr ⟨h.toWorker w, fun l' hl' => List.mem_singleton.mp hl' ▸ hl⟩
  · exact h

theorem workerStep {w : NodeId} {n : WorkerNode} {a : WorkerAction} (hw : w ∈ cl.workers)
    (hstep : (s.worker w).step w a = some n) : (s.setWorker w n).InRange cl := by
  have hpc := h.worker w
  have htoMaster := h.toMaster w
  have htoWorker := h.toWorker w
  cases WorkerNode.step_effect hstep with
  | lock _ hl | unlock _ hl =>
      refine h.setWorker ?_ htoMaster htoWorker
      rintro _ ⟨⟩
      exact hl
  | testSleep hat | wake hat | spurious hat =>
      rw [hat] at hpc
      exact h.setWorker hpc htoMaster htoWorker
  | testEnter => exact h.setWorker (fun _ hl => by cases hl) htoMaster htoWorker
  | clear => exact h.setWorker (fun _ hl => by cases hl) htoMaster htoWorker
  | request hat | release hat =>
      rw [hat] at hpc
      refine h.setWorker hpc (List.forall_mem_append.mpr ⟨htoMaster, ?_⟩) htoWorker
      intro msg hmsg
      rw [List.mem_singleton.mp hmsg]
      exact ⟨hw, rfl, hpc _ rfl⟩
  | @receive l rest hgrants =>
      rw [hgrants] at htoWorker
      refine h.setWorker ?_ htoMaster fun l' hl' => htoWorker l' (List.mem_cons_of_mem l hl')
      have hsame : ((s.worker w).pc.signal l).lockId = (s.worker w).pc.lockId := by
        cases (s.worker w).pc <;> rfl
      rw [hsame]
      exact hpc

theorem masterStep {a : MasterAction} (hstep : s.masterStep cl a = some t) : t.InRange cl := by
  have hpc := h.master
  have htcp := h.tcpGrant
  cases LockState.masterStep_effect hstep with
  | lock _ hl | unlock _ hl =>
      refine h.setMaster ?_ htcp
      rintro _ ⟨⟩
      exact hl
  | testSleep hat | wake hat | spurious hat =>
      rw [hat] at hpc
      exact h.setMaster hpc htcp
  | testEnter => exact h.setMaster (fun _ hl => by cases hl) htcp
  | signal => exact h.setMaster (fun _ hl => by cases hl) htcp
  | @release l hat =>
      rw [hat] at hpc
      refine h.setMaster ?_ htcp
      dsimp only
      split <;> exact hpc
  | @grant l next hat =>
      rw [hat] at hpc
      have hmaster := h.setMaster (m := { s.master with pc := .signal l }) hpc htcp
      exact hmaster.sendGrant next (hpc l rfl)
  | @receive w msg rest hw hnone hhead =>
      have htoMaster := h.toMaster w
      rw [hhead] at htoMaster
      have hl := (htoMaster msg List.mem_cons_self).2.2
      refine (h.setMaster ?_ ?_).setWorker (h.worker w)
        (fun msg' hmsg' => htoMaster msg' (List.mem_cons_of_mem msg hmsg')) (h.toWorker w)
      · cases msg <;> exact hpc
      · cases msg <;>
        · intro g hg
          obtain ⟨node, -, rfl⟩ := Option.map_eq_some_iff.mp hg
          exact hl
  | @tcpGrant w l hgrant =>
      have hmaster := h.setMaster (m := { s.master with tcpGrant := none }) hpc fun _ hg => by cases hg
      exact hmaster.sendGrant w (htcp (w, l) hgrant)

theorem step {a : LockAction} (hstep : s.step cl a = some t) : t.InRange cl := by
  cases a with
  | master a => exact h.masterStep hstep
  | worker w a =>
      rw [LockState.step, Option.ite_none_right_eq_some] at hstep
      obtain ⟨hw, hstep⟩ := hstep
      obtain ⟨n, hn, rfl⟩ := Option.map_eq_some_iff.mp hstep
      exact h.workerStep hw hn

end LockState.InRange

theorem LockState.inRange_of_reachable {cl : Cluster} {s : LockState}
    (h : (lockMachine cl).Reachable s) : s.InRange cl := by
  refine h.invariant (fun s hs => ?_) fun _ _ _ hinv hstep => hinv.step hstep
  rw [hs]
  exact .initial cl

/-! ### What the other end makes of the messages -/

theorem lockMessage_wellFormed (type : MsgType) (srcNode dstNode : NodeId) (seqNum : UInt32)
    (l : LockId) : (lockMessage type srcNode dstNode seqNum l).WellFormed :=
  ⟨rfl, (by decide : (4 : UInt32).toNat ≤ tcpBufferSize), Bytes.length_le l 4⟩

theorem field_lockId {l : LockId} (hl : l < maxLocks) : Bytes.field (Bytes.le l 4) 0 4 = l := by
  have hfield := Bytes.field_append_le [] [] l 4
  rw [List.append_nil, List.nil_append, List.length_nil] at hfield
  rw [hfield, Nat.mod_eq_of_lt (hl.trans (by decide))]

theorem ToMaster.ofCall_message {msg : ToMaster} (hsrc : msg.srcNode < 2 ^ 32)
    (hl : msg.lockId < maxLocks) (seqNum : UInt32) :
    ToMaster.ofCall (msg.message seqNum).call = some msg := by
  have hid : (UInt32.ofNat msg.srcNode).toNat = msg.srcNode := UInt32.toNat_ofNat_of_lt' hsrc
  have hfield := field_lockId hl
  cases msg with
  | request srcNode l => exact congrArg some (congrArg₂ ToMaster.request hid hfield)
  | release srcNode l => exact congrArg some (congrArg₂ ToMaster.release hid hfield)

theorem grantOfCall_grantMessage (w : NodeId) {l : LockId} (hl : l < maxLocks) (seqNum : UInt32) :
    grantOfCall (grantMessage w seqNum l).call = some l := by
  change some (Bytes.field (Bytes.le l 4) 0 4) = _
  rw [field_lockId hl]

theorem ToMaster.ofCall_other {cl : Cluster} {m : Message} (h : (lockProtocol cl).Other m) :
    ToMaster.ofCall m.call = none := by
  rw [ToMaster.ofCall]
  split_ifs
  · split
    · rename_i htype
      exact absurd htype (h.2 .lockRequest List.mem_cons_self)
    · rename_i htype
      exact absurd htype (h.2 .lockRelease (by simp [lockProtocol]))
    · rfl
  · rfl

theorem grantOfCall_other {cl : Cluster} {m : Message} (h : (lockProtocol cl).Other m) :
    grantOfCall m.call = none :=
  if_neg fun hgrant => h.2 .lockGrant (by simp [lockProtocol]) hgrant.2

theorem lockProtocol_lawful {cl : Cluster} (hids : ∀ w ∈ cl.workers, w < 2 ^ 32) :
    (lockProtocol cl).Lawful where
  toMaster_setChannels _ _ _ := rfl
  toWorker_setChannels _ _ _ := rfl
  setChannels_self _ := rfl
  setChannels_idem _ _ _ _ _ := rfl
  quiet_start s hs := by
    rw [show s = .initial from hs]
    exact fun _ => ⟨rfl, rfl⟩
  step_behind hquiet hstep f g := LockState.step_behind f g hquiet hstep
  masterReceive _ hstep := by
    refine ⟨(LockState.receive_setChannels (fun _ => []) (fun _ => []) hstep).1, fun f g rest hfirst => ?_⟩
    exact (LockState.receive_setChannels f g hstep).2 rest hfirst
  workerReceive _ hstep := by
    refine ⟨(LockState.grant_setChannels (fun _ => []) (fun _ => []) hstep).1, fun f g rest hfirst => ?_⟩
    exact (LockState.grant_setChannels f g hstep).2 rest hfirst
  wellFormedToMaster w seqNum msg := by cases msg <;> exact lockMessage_wellFormed ..
  wellFormedToWorker w seqNum l := lockMessage_wellFormed ..
  ofCall_messageToMaster hreach hmsg seqNum := by
    obtain ⟨hw, hsrc, hl⟩ := (LockState.inRange_of_reachable hreach).toMaster _ _ hmsg
    exact ToMaster.ofCall_message (hsrc ▸ hids _ hw) hl seqNum
  ofCall_messageToWorker hreach hl seqNum :=
    grantOfCall_grantMessage _ ((LockState.inRange_of_reachable hreach).toWorker _ _ hl) seqNum
  otherToMaster := ToMaster.ofCall_other
  otherToWorker := grantOfCall_other

/-- Over connections that cut the messages up anywhere and carry others as well, the nodes go through
states of `LockMachine` only, and no two of them are inside the critical section of one lock. -/
theorem wire_lock_exclusion {cl : Cluster} (hids : ∀ w ∈ cl.workers, w < 2 ^ 32)
    {s : ProtocolWire LockState} (h : (lockWire cl).Reachable s) :
    (lockMachine cl).Reachable (s.abstract (lockProtocol cl)) ∧
      ∀ i j l, s.nodes.Inside cl i l → s.nodes.Inside cl j l → i = j := by
  have hreach := ((lockProtocol_lawful hids).wireInv h).reachable
  have hinv := LockInv.of_reachable hreach
  exact ⟨hreach, fun i j l hi hj => hinv.inside_unique hi hj⟩

/-- A message with a payload of `len` bytes, delivered in one piece. -/
def wholeMessage (len : Nat) : List Tcp.Action :=
  [.begin, .accept headerSize, .accept len, .deliver (headerSize + len), .call, .peek headerSize,
    .readHeader, .readPayload len]

/-- Worker 2 acquires lock 0 over a connection that also carries its `BARRIER_ENTER`; the bytes of its
request are cut up. -/
def acquireRun : List (ProtocolWireAction LockAction) :=
  [.otherToMaster 2 (NodeCtx.message (.fresh .worker 2 [] 0 1) .barrierEnter NodeCtx.masterIdField []),
    .thread (.worker 2 (.lock 0)) 0, .thread (.worker 2 .request) 1, .toMaster 2 .begin,
    .toMaster 2 (.accept 24), .toMaster 2 .begin, .toMaster 2 (.accept 11), .toMaster 2 (.deliver 30),
    .toMaster 2 .call, .toMaster 2 (.peek 24), .toMaster 2 .readHeader, .toMaster 2 (.peek 6),
    .toMaster 2 (.accept 13), .toMaster 2 (.accept 4), .toMaster 2 (.deliver 22), .toMaster 2 .call,
    .toMaster 2 (.peek 24), .toMaster 2 .readHeader, .toMaster 2 (.readPayload 4),
    .thread (.master .tcpGrant) 0] ++
  (wholeMessage 4).map (.toWorker 2) ++ [.thread (.worker 2 .test) 0]

theorem wire_lock_exclusion_acquired : ∃ s, (lockWire oneWorker).Reachable s ∧
    s.nodes.Inside oneWorker 2 0 ∧ (lockMachine oneWorker).Reachable (s.abstract (lockProtocol oneWorker)) ∧
      ∀ j, s.nodes.Inside oneWorker j 0 → 2 = j := by
  have hrun : ((lockWire oneWorker).exec (.opened .initial) acquireRun).any
      (fun s => (s.nodes.worker 2).inside 0) = true := by decide +kernel
  obtain ⟨s, hexec, hs⟩ := (Option.any_eq_true ..).mp hrun
  have hstart : (lockWire oneWorker).start (.opened .initial) := ⟨_, rfl, rfl⟩
  have hreach : (lockWire oneWorker).Reachable s := (Machine.Reachable.start hstart).exec hexec
  have hinside : s.nodes.Inside oneWorker 2 0 := .inr ⟨by decide, hs⟩
  obtain ⟨habstract, hexclusive⟩ := wire_lock_exclusion (by decide) hreach
  exact ⟨s, hreach, hinside, habstract, fun j hj => hexclusive 2 j 0 hinside hj⟩

end Dsm
