import Dsm.Sync.BarrierProgress
import Dsm.Tcp.BarrierWire
import Dsm.Tcp.ProtocolRuns

/-!
# Every barrier opens over connections

Under a fair scheduler a run of the barrier over connections is a fair run of `BarrierMachine`
(`abstractRun_barrierFair`), and its waits begin in time exactly if those of the threads do
(`barriersInTime_iff`). So the bytes add no way of their own to keep a barrier closed.
-/

namespace Dsm

/-- Every thread that can go on does so, the release loop ends, and the bytes of the connections move
on. -/
structure BarrierWireFair (cl : Cluster) (r : (barrierWire cl).idling.Run) : Prop where
  worker : ∀ w ∈ cl.workers, ∀ n, ((r.state n).nodes.worker w).pc.runs = true →
    ∃ m, n ≤ m ∧ BarrierAction.movesWorker w (ProtocolWireAction.onThread (r.act m)) = true
  master : ∀ n, (r.state n).nodes.master.pc.runs = true →
    ∃ m, n ≤ m ∧ BarrierAction.movesMaster (ProtocolWireAction.onThread (r.act m)) = true
  handler : ∀ n, (r.state n).nodes.master.releasing.isSome = true →
    ∃ m, n ≤ m ∧ BarrierAction.releases (ProtocolWireAction.onThread (r.act m)) = true
  bytes : (barrierProtocol cl).BytesFair cl r

/-- Each wait of the run begins before it would be too late. A release is still on its way while its
bytes have not been handled. -/
def WireBarriersInTime (cl : Cluster) (r : (barrierWire cl).idling.Run) : Prop :=
  ∀ n, ∀ a ∈ ProtocolWireAction.onThread (r.act n),
    a.WaitsInTime ((r.state n).abstract (barrierProtocol cl)) ∧
      a.ReadsInTime ((r.state n).abstract (barrierProtocol cl))

section Run

variable {cl : Cluster} {r : (barrierWire cl).idling.Run}

/-- The run of `BarrierMachine` is fair: its messages are among the bytes of the connections. -/
theorem abstractRun_barrierFair (hids : ∀ w ∈ cl.workers, w < 2 ^ 32) (hfair : BarrierWireFair cl r) :
    BarrierFair cl ((barrierProtocol_lawful hids).abstractRun r) where
  worker w hw n hn := by
    obtain ⟨m, hnm, hm⟩ := hfair.worker w hw n hn
    exact ⟨m, hnm, (barrierProtocol_lawful hids).abstractRun_moves rfl hm⟩
  master n hn := by
    obtain ⟨m, hnm, hm⟩ := hfair.master n hn
    exact ⟨m, hnm, (barrierProtocol_lawful hids).abstractRun_moves rfl hm⟩
  handler n hn := by
    obtain ⟨m, hnm, hm⟩ := hfair.handler n hn
    exact ⟨m, hnm, (barrierProtocol_lawful hids).abstractRun_moves rfl hm⟩
  workerTcp w hw n hn := by
    refine (barrierProtocol_lawful hids).receives_toWorker hfair.bytes hw fun hnone => hn ?_
    exact (List.replicate_eq_nil_iff ()).mp hnone
  connection w hw n hn := (barrierProtocol_lawful hids).receives_toMaster hfair.bytes hw hn

theorem barriersInTime_iff (hids : ∀ w ∈ cl.workers, w < 2 ^ 32) :
    BarriersInTime cl ((barrierProtocol_lawful hids).abstractRun r) ↔ WireBarriersInTime cl r := by
  constructor
  · intro htime n a hact
    exact htime n a ((barrierProtocol_lawful hids).abstractRun_act hact)
  · intro htime n a hact
    obtain ⟨b, hb, habstract⟩ := Option.bind_eq_some_iff.mp hact
    cases b with
    | thread b seqNum =>
        obtain rfl : b = a := Option.some.inj habstract
        exact htime n b (by rw [hb]; rfl)
    | toMaster w b =>
        obtain ⟨-, -, rfl⟩ := Option.map_eq_some_iff.mp habstract
        exact ⟨trivial, trivial⟩
    | toWorker w b =>
        obtain ⟨-, -, rfl⟩ := Option.map_eq_some_iff.mp habstract
        exact ⟨trivial, trivial⟩
    | otherToMaster | otherToWorker => cases habstract

end Run

end Dsm
