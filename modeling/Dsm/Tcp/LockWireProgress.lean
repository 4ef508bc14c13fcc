import Dsm.Sync.LockProgress
import Dsm.Tcp.LockWire
import Dsm.Tcp.ProtocolRuns

/-!
# Every request is granted over connections

Under a fair scheduler a run of the locks over connections is a fair run of `LockMachine`
(`abstractRun_fair`). What holds of the lock protocol in every fair run therefore holds of the bytes, too:
every `dsm_lock` of a worker returns.
-/

namespace Dsm

/-! ### Fair runs -/

/-- Every thread that can go on does so, every decided grant is sent, and the bytes of the connections
move on. -/
structure LockWireFair (cl : Cluster) (r : (lockWire cl).idling.Run) : Prop where
  worker : ∀ w ∈ cl.workers, ∀ n, ((r.state n).nodes.worker w).pc.runs = true →
    ∃ m, n ≤ m ∧ LockAction.movesWorker w (ProtocolWireAction.onThread (r.act m)) = true
  master : ∀ n, (r.state n).nodes.master.pc.runs = true →
    ∃ m, n ≤ m ∧ LockAction.movesMaster (ProtocolWireAction.onThread (r.act m)) = true
  masterTcp : ∀ n, (r.state n).nodes.master.tcpGrant ≠ none →
    ∃ m, n ≤ m ∧ ProtocolWireAction.onThread (r.act m) = some (.master .tcpGrant)
  bytes : (lockProtocol cl).BytesFair cl r

/-- Whoever is inside the critical section of lock `l` calls `dsm_unlock(l)` some time. -/
def WireGivesBack (cl : Cluster) (r : (lockWire cl).idling.Run) (l : LockId) : Prop :=
  ∀ i n, (r.state n).nodes.Inside cl i l →
    ∃ m, n ≤ m ∧ ProtocolWireAction.onThread (r.act m) = some (.unlockBy i l)

section Run

variable {cl : Cluster} {r : (lockWire cl).idling.Run}

/-- The run of `LockMachine` is fair: its messages are among the bytes of the connections. -/
theorem abstractRun_fair (hids : ∀ w ∈ cl.workers, w < 2 ^ 32) (hfair : LockWireFair cl r) :
    LockFair cl ((lockProtocol_lawful hids).abstractRun r) where
  worker w hw n hn := by
    obtain ⟨m, hnm, hm⟩ := hfair.worker w hw n hn
    exact ⟨m, hnm, (lockProtocol_lawful hids).abstractRun_moves rfl hm⟩
  master n hn := by
    obtain ⟨m, hnm, hm⟩ := hfair.master n hn
    exact ⟨m, hnm, (lockProtocol_lawful hids).abstractRun_moves rfl hm⟩
  masterTcp n hn := by
    obtain ⟨m, hnm, hm⟩ := hfair.masterTcp n hn
    exact ⟨m, hnm, (lockProtocol_lawful hids).abstractRun_act hm⟩
  workerTcp w hw n hn := (lockProtocol_lawful hids).receives_toWorker hfair.bytes hw hn
  connection w hw n hn := (lockProtocol_lawful hids).receives_toMaster hfair.bytes hw hn

/-- Every `dsm_lock` of a worker returns, over connections that carry other messages as well and cut all
of them up: the bytes of the request arrive, the grants before it are given back, and the bytes of its
grant arrive. -/
theorem wire_lock_returns (hids : ∀ w ∈ cl.workers, w < 2 ^ 32) (hsize : cl.nodes.length ≤ maxNodes)
    (hfair : LockWireFair cl r) {l : LockId} (hback : WireGivesBack cl r l) {w : NodeId}
    (hw : w ∈ cl.workers) :
    r.LeadsTo (fun s => (s.nodes.worker w).pc = .request l)
      (fun s => (s.nodes.worker w).inside l = true) := by
  have hlocks : LockFair cl ((lockProtocol_lawful hids).abstractRun r) :=
    abstractRun_fair hids hfair
  have hgives : GivesBack cl ((lockProtocol_lawful hids).abstractRun r) l := by
    intro i n hinside
    obtain ⟨m, hnm, hm⟩ := hback i n hinside
    exact ⟨m, hnm, (lockProtocol_lawful hids).abstractRun_act hm⟩
  exact (leadsTo_sent_of_request hlocks hw).trans (leadsTo_inside_of_sent hsize hlocks hgives hw)

end Run

/-- As in `acquireRun`, and then worker 2 gives the lock back. -/
def giveBackRun : List (ProtocolWireAction LockAction) :=
  acquireRun ++
    [.toMaster 2 .peekAgain, .toWorker 2 .peekAgain, .thread (.worker 2 (.unlock 0)) 0,
      .thread (.worker 2 .release) 2, .thread (.worker 2 .clear) 0] ++
    (wholeMessage 4).map (.toMaster 2)

theorem wire_lock_returns_acquired : ∃ r : (lockWire oneWorker).idling.Run,
    LockWireFair oneWorker r ∧ WireGivesBack oneWorker r 0 ∧
      ((r.state 2).nodes.worker 2).pc = .request 0 ∧
        ∃ m, 2 ≤ m ∧ ((r.state m).nodes.worker 2).inside 0 = true := by
  let s : ProtocolWire LockState := .opened .initial
  let M := (lockWire oneWorker).idling
  have hstart : M.start s := ⟨_, rfl, rfl⟩
  have hrun : ((lockWire oneWorker).exec s giveBackRun).isSome := by decide +kernel
  obtain ⟨t, ht⟩ := Option.isSome_iff_exists.mp hrun
  have hexec : M.exec s (giveBackRun.map some) = some t := by
    rw [Machine.exec_idling]
    exact ht
  have hidle : M.step t none = some t := rfl
  let r : M.Run := Machine.Run.ofExec hstart hexec hidle
  have hserved : ∀ (waiting : ProtocolWire LockState → Bool) (serves : Option LockAction → Bool),
      M.answered waiting (fun x => serves (ProtocolWireAction.onThread x)) s (giveBackRun.map some) =
        true →
      ∀ n, waiting (r.state n) = true →
        ∃ m, n ≤ m ∧ serves (ProtocolWireAction.onThread (r.act m)) = true :=
    fun _ _ h => Machine.Run.ofExec_answered hstart hexec hidle h
  have hacts : ∀ (waiting : ProtocolWire LockState → Bool) (a : LockAction),
      M.answered waiting (fun x => ProtocolWireAction.onThread x == some a) s (giveBackRun.map some) =
        true →
      ∀ n, waiting (r.state n) = true → ∃ m, n ≤ m ∧ ProtocolWireAction.onThread (r.act m) = some a :=
    fun waiting a h n hn =>
      (hserved waiting (· == some a) h n hn).imp fun _ hm => ⟨hm.1, beq_iff_eq.mp hm.2⟩
  have hone : ∀ w ∈ oneWorker.workers, w = 2 := by decide
  have hbytes : (lockProtocol oneWorker).BytesFair oneWorker r :=
    Protocol.bytesFair_ofExec hstart hexec hidle (by decide +kernel) (by decide +kernel)
  have hfair : LockWireFair oneWorker r := by
    refine ⟨fun w hw => ?_, ?_, fun n hn => ?_, hbytes⟩
    · obtain rfl := hone w hw
      exact hserved (fun s => (s.nodes.worker 2).pc.runs) _ (by decide +kernel)
    · exact hserved (fun s => s.nodes.master.pc.runs) _ (by decide +kernel)
    · exact hacts (fun s => s.nodes.master.tcpGrant ≠ none) _ (by decide +kernel) n (decide_eq_true hn)
  have hback : WireGivesBack oneWorker r 0 := by
    rintro i n (⟨rfl, hinside⟩ | ⟨hi, hinside⟩)
    · exact hacts (fun s => s.nodes.master.inside 0) _ (by decide +kernel) n hinside
    · obtain rfl := hone i hi
      exact hacts (fun s => (s.nodes.worker 2).inside 0) _ (by decide +kernel) n hinside
  have hrequest : ((r.state 2).nodes.worker 2).pc = .request 0 := by
    have hpc : (M.exec s ((giveBackRun.map some).take 2)).map (fun s => (s.nodes.worker 2).pc) =
        some (.request 0) := by decide +kernel
    obtain ⟨u, hu, hpc⟩ := Option.map_eq_some_iff.mp hpc
    rw [show r.state 2 = u from Machine.Run.ofExec_state hstart hexec hidle hu, hpc]
  exact ⟨r, hfair, hback, hrequest,
    wire_lock_returns (l := 0) (by decide) (by decide) hfair hback (w := 2) (by decide) 2 hrequest⟩

end Dsm
