import Dsm.Tcp.Dispatch
import Dsm.Library.Machine

/-!
# The array of arrivals

`dsm_sync_handle_barrier_enter` stores the arrival before it looks at anything else: the index of the
store is `arrived_count`, and only the node count that is read afterwards resets it. Meanwhile other
threads add nodes, remove them and merge tables. An arrival that stays in the array has found fewer
arrivals than nodes, and a table never has more than 64 of them, so there is room for the next one
(`barrier_arrivals_in_bounds`).
-/

namespace Dsm

/-- Where the thread is that holds the barrier's mutex in the handler. -/
inductive ArrivalPc where
  /-- Has stored the arrival and is about to call `dsm_node_table_count`. -/
  | count
  /-- In the release loop, about to look at arrival `i`. -/
  | release (i : Nat)
deriving DecidableEq, Repr

structure ArrivalState where
  localNodeId : NodeId
  table : NodeTable
  barrierId : Nat
  arrivedCount : Nat
  /-- The array `barrier.arrived`, with the memory behind it. -/
  arrived : Nat → NodeId
  handler : Option ArrivalPc
  /-- The index of every store to the array. -/
  writes : List Nat
  /-- The nodes to which a `BARRIER_RELEASE` has been sent. -/
  sent : List NodeId

inductive ArrivalAction where
  /-- A thread calls `dsm_sync_handle_barrier_enter`, takes the mutex and stores the arrival. -/
  | enter (fromNode : NodeId)
  | count
  /-- The release loop looks at one arrival. -/
  | visit (sockOk : Bool)
  | reset
  | add (ip : List UInt8) (port chunks : Nat) (role : Role) (sockfd : Int) (now : Nat)
      (mutexOk : Bool)
  | remove (nodeId : NodeId)
  | deserialize (buf : List UInt8) (now : Nat)
deriving DecidableEq, Repr

namespace ArrivalState

/-- `ctx->barrier.arrived[ctx->barrier.arrived_count++] = from_node`. -/
def record (s : ArrivalState) (fromNode : NodeId) : ArrivalState :=
  { s with
    arrived := Function.update s.arrived s.arrivedCount fromNode
    arrivedCount := (s.arrivedCount + 1) % 2 ^ 32
    writes := s.writes ++ [s.arrivedCount]
    handler := some .count }

/-- The release loop at arrival `i`. -/
def visit (s : ArrivalState) (i : Nat) (sockOk : Bool) : ArrivalState :=
  let node := s.arrived i
  { s with
    handler := some (.release (i + 1))
    sent := if node ≠ s.localNodeId ∧ s.table.sends node sockOk then s.sent ++ [node] else s.sent }

def step (s : ArrivalState) : ArrivalAction → Option ArrivalState
  | .enter fromNode => if s.handler = none then some (s.record fromNode) else none
  | .count =>
      if s.handler = some .count then
        some { s with handler := if s.table.length ≤ s.arrivedCount then some (.release 0) else none }
      else none
  | .visit sockOk =>
      match s.handler with
      | some (.release i) => if i < s.arrivedCount then some (s.visit i sockOk) else none
      | _ => none
  | .reset =>
      match s.handler with
      | some (.release i) =>
          if i < s.arrivedCount then none
          else
            some { s with
              handler := none, arrivedCount := 0, barrierId := (s.barrierId + 1) % 2 ^ 32 }
      | _ => none
  | .add ip port chunks role sockfd now mutexOk =>
      some { s with table := (nodeTableAdd s.table ip port chunks role sockfd now mutexOk).2 }
  | .remove nodeId => some { s with table := (nodeTableRemove s.table nodeId).2 }
  | .deserialize buf now => some { s with table := (nodeTableDeserialize s.table buf now).2 }

/-- `barrier.arrived[0..arrived_count)`. -/
def barrier (s : ArrivalState) : Barrier :=
  { barrierId := s.barrierId, arrived := (List.range s.arrivedCount).map s.arrived }

end ArrivalState

/-- The barrier after `dsm_sync_init`, with any table that fits. -/
structure ArrivalStart (s : ArrivalState) : Prop where
  table : s.table.length ≤ maxNodes
  arrivedCount : s.arrivedCount = 0
  handler : s.handler = none
  writes : s.writes = []

def arrivalMachine : Machine ArrivalState ArrivalAction where
  start := ArrivalStart
  step := ArrivalState.step

/-- The table and the array are within their bounds. -/
structure ArrivalState.InBounds (s : ArrivalState) : Prop where
  table : s.table.length ≤ maxNodes
  writes : ∀ i ∈ s.writes, i < maxNodes
  /-- After every call of the handler. -/
  arrived : s.handler = none → s.arrivedCount < maxNodes

/-- Between the store and the look at the table the array may be full. -/
structure ArrivalInv (s : ArrivalState) : Prop extends s.InBounds where
  inHandler : s.arrivedCount ≤ maxNodes

theorem ArrivalInv.setTable {s : ArrivalState} (h : ArrivalInv s) {table : NodeTable}
    (htable : table.length ≤ maxNodes) : ArrivalInv { s with table := table } :=
  ⟨⟨htable, h.writes, h.arrived⟩, h.inHandler⟩

theorem ArrivalInv.record {s : ArrivalState} (h : ArrivalInv s) (hfree : s.handler = none)
    (fromNode : NodeId) : ArrivalInv (s.record fromNode) := by
  have hroom := h.arrived hfree
  refine ⟨⟨h.table, fun i hi => ?_, fun hnone => by cases hnone⟩, ?_⟩
  · rcases List.mem_append.mp hi with hi | hi
    · exact h.writes i hi
    · rw [List.mem_singleton.mp hi]
      exact hroom
  · show (s.arrivedCount + 1) % 2 ^ 32 ≤ maxNodes
    exact (Nat.mod_le _ _).trans hroom

/-- The step lemma. An arrival is left in the array only while there are more nodes than arrivals. -/
theorem ArrivalInv.step {s t : ArrivalState} {a : ArrivalAction} (h : ArrivalInv s)
    (hstep : s.step a = some t) : ArrivalInv t := by
  cases a with
  | enter fromNode =>
      rw [ArrivalState.step, Option.ite_none_right_eq_some] at hstep
      obtain ⟨hfree, hstep⟩ := hstep
      cases hstep
      exact h.record hfree fromNode
  | count =>
      rw [ArrivalState.step, Option.ite_none_right_eq_some] at hstep
      cases hstep.2
      refine ⟨⟨h.table, h.writes, fun hnone => ?_⟩, h.inHandler⟩
      split_ifs at hnone with hfull
      exact (Nat.lt_of_not_le hfull).trans_le h.table
  | visit sockOk =>
      simp only [ArrivalState.step] at hstep
      split at hstep
      · rw [Option.ite_none_right_eq_some] at hstep
        cases hstep.2
        exact ⟨⟨h.table, h.writes, fun hnone => by cases hnone⟩, h.inHandler⟩
      · cases hstep
  | reset =>
      simp only [ArrivalState.step] at hstep
      split at hstep
      · rw [Option.ite_none_left_eq_some] at hstep
        cases hstep.2
        exact ⟨⟨h.table, h.writes, fun _ => Nat.zero_lt_succ 63⟩, Nat.zero_le maxNodes⟩
      · cases hstep
  | add ip port chunks role sockfd now mutexOk =>
      cases hstep
      exact h.setTable (length_nodeTableAdd h.table ip port chunks role sockfd now mutexOk)
  | remove nodeId =>
      cases hstep
      exact h.setTable (length_nodeTableRemove h.table nodeId)
  | deserialize buf now =>
      cases hstep
      exact h.setTable (length_nodeTableDeserialize h.table buf now)

/-- For any arrivals from anywhere, and any joins, departures and merged tables between and during
them: the table has at most 64 nodes, every arrival is stored inside the array, and after every call of
the handler there is room for one more. -/
theorem barrier_arrivals_in_bounds {s : ArrivalState} (h : arrivalMachine.Reachable s) :
    s.InBounds := by
  have hinv : ArrivalInv s := by
    refine h.invariant (fun s hstart => ?_) fun s a t hinv hstep => hinv.step hstep
    refine ⟨⟨hstart.table, fun i hi => ?_, fun _ => ?_⟩, ?_⟩
    · rw [hstart.writes] at hi
      cases hi
    · rw [hstart.arrivedCount]
      exact Nat.zero_lt_succ 63
    · rw [hstart.arrivedCount]
      exact Nat.zero_le maxNodes
  exact hinv.toInBounds

/-- The master's table has its own entry. Node 9, which is in no table, arrives and is released; then
two nodes join, and 9 arrives twice while node 2 is leaving. -/
def arrivalsOfStranger : List ArrivalAction :=
  [.enter 9, .count, .visit true, .reset, .add [49] 5001 1 .worker 5 0 true,
    .add [50] 5002 1 .worker 6 0 true, .enter 9, .count, .enter 9, .remove 2, .count, .visit true,
    .visit true, .reset]

def arrivalsAtStart : ArrivalState :=
  { localNodeId := masterId, table := (nodeTableAdd [] [48] 5000 1 .master (-1) 0 true).2
    barrierId := 0, arrivedCount := 0, arrived := fun _ => 0, handler := none, writes := []
    sent := [] }

theorem arrivalStart_arrivalsAtStart : ArrivalStart arrivalsAtStart :=
  ⟨by decide +kernel, rfl, rfl, rfl⟩

theorem barrier_arrivals_in_bounds_stranger : ∃ t,
    arrivalMachine.exec arrivalsAtStart arrivalsOfStranger = some t ∧ t.writes = [0, 0, 1] ∧
      t.InBounds := by
  obtain ⟨t, hexec, hwrites⟩ : ∃ t,
      arrivalMachine.exec arrivalsAtStart arrivalsOfStranger = some t ∧ t.writes = [0, 0, 1] :=
    ⟨_, rfl, by decide +kernel⟩
  have hstart : arrivalMachine.Reachable arrivalsAtStart := .start arrivalStart_arrivalsAtStart
  exact ⟨t, hexec, hwrites, barrier_arrivals_in_bounds (hstart.exec hexec)⟩

/-! ### The handler without interruption -/

namespace ArrivalState

theorem barrier_record {s : ArrivalState} (hroom : s.arrivedCount < maxNodes) (fromNode : NodeId) :
    (s.record fromNode).barrier =
      { s.barrier with arrived := s.barrier.arrived ++ [fromNode] } := by
  have hcount : (s.arrivedCount + 1) % 2 ^ 32 = s.arrivedCount + 1 := by
    unfold maxNodes at hroom
    omega
  simp only [barrier, record, hcount, List.range_succ, List.map_append, List.map_cons, List.map_nil,
    Function.update_self]
  congr 2
  apply List.map_congr_left
  intro i hi
  exact Function.update_of_ne (List.mem_range.mp hi).ne _ _

/-- The loop looks at every arrival that is left, and touches nothing but the sockets. -/
theorem exec_visits {i k : Nat} {s : ArrivalState} (hpc : s.handler = some (.release i))
    (hk : i + k = s.arrivedCount) : ∃ sent,
      arrivalMachine.exec s (List.replicate k (.visit true)) =
        some { s with handler := some (.release s.arrivedCount), sent := sent } := by
  induction k generalizing s i with
  | zero =>
      have hend : s.handler = some (.release s.arrivedCount) := by rw [hpc, ← hk, Nat.add_zero]
      refine ⟨s.sent, ?_⟩
      rw [← hend]
      rfl
  | succ k ih =>
      have hlt : i < s.arrivedCount := by omega
      have hstep : arrivalMachine.step s (.visit true) = some (s.visit i true) := by
        show s.step (.visit true) = _
        simp only [step, hpc, if_pos hlt]
      have hrest : i + 1 + k = (s.visit i true).arrivedCount := by
        show i + 1 + k = s.arrivedCount
        omega
      obtain ⟨sent, hexec⟩ := ih rfl hrest
      refine ⟨sent, ?_⟩
      rw [List.replicate_succ, Machine.exec_cons, hstep, Option.bind_some]
      exact hexec

/-- The steps of one call of the handler. -/
def handlerSteps (s : ArrivalState) (fromNode : NodeId) : List ArrivalAction :=
  [.enter fromNode, .count] ++
    if s.table.length ≤ s.arrivedCount + 1 then
      List.replicate (s.arrivedCount + 1) (.visit true) ++ [.reset]
    else []

theorem exec_handlerSteps {s : ArrivalState} (hfree : s.handler = none)
    (hroom : s.arrivedCount < maxNodes) (fromNode : NodeId) : ∃ t,
      arrivalMachine.exec s (s.handlerSteps fromNode) = some t ∧ t.handler = none ∧
        t.table = s.table ∧
        t.barrier = (syncHandleBarrierEnter s.barrier s.table.length fromNode).1 := by
  have hcount : (s.record fromNode).arrivedCount = s.arrivedCount + 1 := by
    show (s.arrivedCount + 1) % 2 ^ 32 = s.arrivedCount + 1
    unfold maxNodes at hroom
    omega
  have hlength : (s.barrier.arrived ++ [fromNode]).length = s.arrivedCount + 1 := by
    simp [barrier]
  have hstore : arrivalMachine.step s (.enter fromNode) = some (s.record fromNode) := if_pos hfree
  have hlook : arrivalMachine.step (s.record fromNode) .count = some { s.record fromNode with
      handler := if s.table.length ≤ (s.record fromNode).arrivedCount then some (.release 0)
        else none } := rfl
  by_cases hfull : s.table.length ≤ s.arrivedCount + 1
  · rw [if_pos (hcount.symm ▸ hfull)] at hlook
    have hleft : 0 + (s.arrivedCount + 1) = (s.record fromNode).arrivedCount := by
      rw [hcount, Nat.zero_add]
    obtain ⟨sent, hvisits⟩ := @exec_visits _ _ { s.record fromNode with
      handler := some (.release 0) } rfl hleft
    refine ⟨{ s.record fromNode with
      handler := none, arrivedCount := 0, barrierId := (s.barrierId + 1) % 2 ^ 32, sent := sent },
      ?_, rfl, rfl, ?_⟩
    · rw [handlerSteps, if_pos hfull, Machine.exec_append, Machine.exec_cons, hstore,
        Option.bind_some, Machine.exec_cons, hlook, Option.bind_some, Machine.exec_nil,
        Option.bind_some, Machine.exec_append, hvisits, Option.bind_some, Machine.exec_cons]
      show (if _ < _ then none else some _).bind _ = _
      rw [if_neg (Nat.lt_irrefl _)]
      rfl
    · rw [syncHandleBarrierEnter, if_pos (hlength ▸ hfull)]
      rfl
  · rw [if_neg (hcount.symm ▸ hfull)] at hlook
    refine ⟨{ s.record fromNode with handler := none }, ?_, rfl, rfl, ?_⟩
    · rw [handlerSteps, if_neg hfull, List.append_nil, Machine.exec_cons, hstore, Option.bind_some,
        Machine.exec_cons, hlook]
      rfl
    · rw [syncHandleBarrierEnter, if_neg (hlength ▸ hfull)]
      exact barrier_record hroom fromNode

end ArrivalState

end Dsm
