import Dsm.Tcp.BarrierWire
import Dsm.Tcp.LockWire
import Dsm.Tcp.ProtocolPair

/-!
# Locks and barriers over the same connections

The application threads call `dsm_lock`, `dsm_unlock` and `dsm_barrier` in any order, and what they send
shares the connection of their node with the answers of the master and with other messages. The two
protocols do not get in each other's way.
-/

namespace Dsm

/-- The locks and the barrier of a cluster, over the same connections. -/
def lockBarrierProtocol (cl : Cluster) :
    Protocol (ProtocolPair LockState BarrierState ToMaster NodeId LockId Unit)
      (ProtocolPairAction LockAction BarrierAction) (ToMaster ⊕ NodeId) (LockId ⊕ Unit) :=
  (lockProtocol cl).pair (barrierProtocol cl)

theorem other_barrierMessage (cl : Cluster) {type : MsgType}
    (htype : ∀ t ∈ [MsgType.lockRequest, .lockGrant, .lockRelease] ++ membershipTypes,
      MsgType.ofCode type.code ≠ some t) (srcNode dstNode : NodeId) (seqNum : UInt32) :
    (lockProtocol cl).Other (barrierMessage type srcNode dstNode seqNum) :=
  ⟨barrierMessage_wellFormed .., htype⟩

theorem lockProtocol_apart (cl : Cluster) : (lockProtocol cl).Apart (barrierProtocol cl) where
  toMaster _ _ _ := other_barrierMessage cl (by decide) ..
  toWorker _ _ _ := other_barrierMessage cl (by decide) ..

/-- Whatever the nodes send each other for locks and for barriers, in whichever order it arrives and
however it is cut up: no two nodes are inside the critical section of one lock, and no node has returned
from a barrier that another has yet to call. -/
theorem wire_locks_and_barriers {cl : Cluster} (hids : ∀ w ∈ cl.workers, w < 2 ^ 32)
    {s : ProtocolWire (ProtocolPair LockState BarrierState ToMaster NodeId LockId Unit)}
    (h : (lockBarrierProtocol cl).wire.Reachable s) :
    (∀ i j l, s.nodes.first.Inside cl i l → s.nodes.first.Inside cl j l → i = j) ∧
      ∀ i ∈ cl.nodes, ∀ j ∈ cl.nodes, s.nodes.second.rets i ≤ s.nodes.second.calls j := by
  have hpair := (lockProtocol_lawful hids).wirePairInv (barrierProtocol_lawful hids)
    (lockProtocol_apart cl) h
  have hlocks := LockInv.of_reachable hpair.first.reachable
  have hbarrier := BarrierInv.of_reachable hpair.second.reachable
  exact ⟨fun i j l hi hj => hlocks.inside_unique hi hj, fun i hi j hj => hbarrier.rets_le_calls hi hj⟩

/-- A message without payload, delivered in one piece. -/
def bareMessage : List Tcp.Action :=
  [.begin, .accept headerSize, .deliver headerSize, .call, .peek headerSize, .readHeader]

/-- Worker 2 acquires lock 0 and passes a barrier without giving the lock back. -/
def lockedBarrierRun : List (ProtocolWireAction (ProtocolPairAction LockAction BarrierAction)) :=
  [.thread (.first (.worker 2 (.lock 0))) 0, .thread (.first (.worker 2 .request)) 0] ++
  (wholeMessage 4).map (.toMaster 2) ++ [.thread (.first (.master .tcpGrant)) 0] ++
  (wholeMessage 4).map (.toWorker 2) ++
  [.thread (.first (.worker 2 .test)) 0, .toMaster 2 .peekAgain, .toWorker 2 .peekAgain,
    .thread (.second (.worker 2 .call)) 0, .thread (.second (.worker 2 .send)) 1] ++
  bareMessage.map (.toMaster 2) ++
  [.thread (.second (.worker 2 .wait)) 0, .thread (.second (.master .call)) 0,
    .thread (.second (.master .enter)) 0, .thread (.second (.master .visit)) 1] ++
  bareMessage.map (.toWorker 2) ++ [.thread (.second (.worker 2 .ret)) 0]

theorem wire_locks_and_barriers_locked : ∃ s, (lockBarrierProtocol oneWorker).wire.Reachable s ∧
    s.nodes.first.Inside oneWorker 2 0 ∧ s.nodes.second.rets 2 = 1 ∧
      (∀ j, s.nodes.first.Inside oneWorker j 0 → 2 = j) ∧ 1 ≤ s.nodes.second.calls 1 := by
  let nodes : ProtocolPair LockState BarrierState ToMaster NodeId LockId Unit :=
    { first := .initial, second := .initial, toMaster := fun _ => [], toWorker := fun _ => [] }
  have hrun : ((lockBarrierProtocol oneWorker).wire.exec (.opened nodes) lockedBarrierRun).any (fun s =>
      (s.nodes.first.worker 2).inside 0 && s.nodes.second.rets 2 == 1) = true := by decide +kernel
  obtain ⟨s, hexec, hs⟩ := (Option.any_eq_true ..).mp hrun
  rw [Bool.and_eq_true, beq_iff_eq] at hs
  obtain ⟨hlocked, hrets⟩ := hs
  have hstart : (lockBarrierProtocol oneWorker).wire.start (.opened nodes) :=
    ⟨nodes, ⟨rfl, rfl, fun _ => ⟨rfl, rfl⟩⟩, rfl⟩
  have hreach : (lockBarrierProtocol oneWorker).wire.Reachable s :=
    (Machine.Reachable.start hstart).exec hexec
  have hinside : s.nodes.first.Inside oneWorker 2 0 := .inr ⟨by decide, hlocked⟩
  obtain ⟨hexclusive, hcalled⟩ := wire_locks_and_barriers (by decide) hreach
  exact ⟨s, hreach, hinside, hrets, fun j hj => hexclusive 2 j 0 hinside hj,
    hrets.ge.trans (hcalled 2 (by decide) 1 (by decide))⟩

end Dsm
