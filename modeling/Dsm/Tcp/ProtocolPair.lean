import Dsm.Tcp.Protocol

/-!
# Two protocols over the same connections

A connection carries the messages of several protocols. Two of them whose messages do not get mixed up
(`Protocol.Apart`) are one protocol (`Protocol.pair`): its channels hold what both have sent in the order
in which they did, and it is lawful because they are (`Protocol.Lawful.pair`). Each of
the two goes through its own states only (`ProtocolPairInv`), so what holds of it alone holds of it beside
the other.
-/

namespace Dsm

/-- The nodes of two protocols with nothing in hand, and the channels that they share. -/
structure ProtocolPair (σ τ μ μ' ν ν' : Type*) where
  first : σ
  second : τ
  toMaster : NodeId → List (μ ⊕ μ')
  toWorker : NodeId → List (ν ⊕ ν')

inductive ProtocolPairAction (α β : Type*) where
  | first (a : α)
  | second (b : β)
  /-- The server thread of the master takes the first message of worker `w`, of whichever protocol. -/
  | masterReceive (w : NodeId)
  | workerReceive (w : NodeId)

variable {σ α μ ν τ β μ' ν' : Type*} (P : Protocol σ α μ ν) (Q : Protocol τ β μ' ν')

def ProtocolPair.step (s : ProtocolPair σ τ μ μ' ν ν') :
    ProtocolPairAction α β → Option (ProtocolPair σ τ μ μ' ν ν')
  | .first a =>
      (P.machine.step s.first a).map fun t =>
        { s with
          first := P.taken t
          toMaster := fun w => s.toMaster w ++ (P.toMaster t w).map .inl
          toWorker := fun w => s.toWorker w ++ (P.toWorker t w).map .inl }
  | .second b =>
      (Q.machine.step s.second b).map fun t =>
        { s with
          second := Q.taken t
          toMaster := fun w => s.toMaster w ++ (Q.toMaster t w).map .inr
          toWorker := fun w => s.toWorker w ++ (Q.toWorker t w).map .inr }
  | .masterReceive w =>
      match s.toMaster w with
      | .inl msg :: rest =>
          (P.machine.step (P.arrivedAtMaster s.first w msg) (P.masterReceive w)).map fun t =>
            { s with first := t, toMaster := Function.update s.toMaster w rest }
      | .inr msg :: rest =>
          (Q.machine.step (Q.arrivedAtMaster s.second w msg) (Q.masterReceive w)).map fun t =>
            { s with second := t, toMaster := Function.update s.toMaster w rest }
      | [] => none
  | .workerReceive w =>
      match s.toWorker w with
      | .inl msg :: rest =>
          (P.machine.step (P.arrivedAtWorker s.first w msg) (P.workerReceive w)).map fun t =>
            { s with first := t, toWorker := Function.update s.toWorker w rest }
      | .inr msg :: rest =>
          (Q.machine.step (Q.arrivedAtWorker s.second w msg) (Q.workerReceive w)).map fun t =>
            { s with second := t, toWorker := Function.update s.toWorker w rest }
      | [] => none

/-- A call is for the one protocol or for the other. -/
def eitherOfCall (ofCall : Tcp.Call → Option μ) (ofCall' : Tcp.Call → Option μ') (call : Tcp.Call) :
    Option (μ ⊕ μ') :=
  ((ofCall call).map .inl).or ((ofCall' call).map .inr)

namespace Protocol

/-- The two protocols at the same time, over the same channels. -/
def pair : Protocol (ProtocolPair σ τ μ μ' ν ν') (ProtocolPairAction α β) (μ ⊕ μ') (ν ⊕ ν') where
  machine :=
    { start := fun s => P.machine.start s.first ∧ Q.machine.start s.second ∧
        ∀ w, s.toMaster w = [] ∧ s.toWorker w = []
      step := ProtocolPair.step P Q }
  toMaster := ProtocolPair.toMaster
  toWorker := ProtocolPair.toWorker
  setChannels s toMaster toWorker := { s with toMaster := toMaster, toWorker := toWorker }
  masterReceive := .masterReceive
  workerReceive := .workerReceive
  messageToMaster w seqNum := Sum.elim (P.messageToMaster w seqNum) (Q.messageToMaster w seqNum)
  messageToWorker w seqNum := Sum.elim (P.messageToWorker w seqNum) (Q.messageToWorker w seqNum)
  ofCallToMaster := eitherOfCall P.ofCallToMaster Q.ofCallToMaster
  ofCallToWorker := eitherOfCall P.ofCallToWorker Q.ofCallToWorker
  types := P.types ++ Q.types

/-- The first takes the messages of the second for other traffic. -/
structure Apart : Prop where
  toMaster : ∀ w seqNum msg, P.Other (Q.messageToMaster w seqNum msg)
  toWorker : ∀ w seqNum msg, P.Other (Q.messageToWorker w seqNum msg)

/-- The nodes have nothing in hand, and with these channels they are in a state of the protocol. -/
structure Stands (n : σ) (toMaster : NodeId → List μ) (toWorker : NodeId → List ν) : Prop where
  quiet : P.Quiet n
  reachable : P.machine.Reachable (P.setChannels n toMaster toWorker)

end Protocol

/-! ### The channels of one of the two -/

/-- The messages of one kind, in their order. -/
def carried {κ : Type*} (pick : κ → Option μ) (channel : NodeId → List κ) (w : NodeId) : List μ :=
  (channel w).filterMap pick

section Carried

variable {κ : Type*} {pick : κ → Option μ} {channel : NodeId → List κ} {w : NodeId} {rest : List κ}

theorem carried_append {tag : μ → κ} (htag : ∀ msg, pick (tag msg) = some msg) (sent : NodeId → List μ) :
    carried pick (fun w => channel w ++ (sent w).map tag) = fun w => carried pick channel w ++ sent w := by
  funext w
  rw [carried, List.filterMap_append, List.filterMap_map, carried]
  simp [htag]

theorem carried_append_other {tag : μ' → κ} (htag : ∀ msg, pick (tag msg) = none)
    (sent : NodeId → List μ') :
    carried pick (fun w => channel w ++ (sent w).map tag) = carried pick channel := by
  funext w
  rw [carried, List.filterMap_append, List.filterMap_map, carried]
  simp [htag]

theorem carried_update :
    carried pick (Function.update channel w rest) =
      Function.update (carried pick channel) w (rest.filterMap pick) := by
  funext w'
  by_cases heq : w' = w
  · subst heq
    simp [carried]
  · simp [carried, heq]

theorem carried_update_other {x : κ} (hx : pick x = none) (hfirst : channel w = x :: rest) :
    carried pick (Function.update channel w rest) = carried pick channel := by
  have hsame : rest.filterMap pick = carried pick channel w := by
    rw [carried, hfirst, List.filterMap_cons_none hx]
  rw [carried_update, hsame, Function.update_eq_self]

end Carried

/-! ### The steps of one of the two -/

namespace Protocol.Lawful

variable {P} (hP : P.Lawful) {n t : σ} {f : NodeId → List μ} {g : NodeId → List ν} {w : NodeId}
include hP

theorem stands_thread (h : P.Stands n f g) {a : α} (hstep : P.machine.step n a = some t) :
    P.Stands (P.taken t) (fun w => f w ++ P.toMaster t w) (fun w => g w ++ P.toWorker t w) := by
  have hbehind := hP.step_behind h.quiet hstep f g
  rw [P.behind_of_quiet h.quiet] at hbehind
  refine ⟨hP.quiet_taken, ?_⟩
  rw [← P.behind_of_quiet hP.quiet_taken, hP.behind_taken]
  exact h.reachable.step a hbehind

theorem stands_masterReceive (h : P.Stands n f g) {msg : μ} {rest : List μ} (hfirst : f w = msg :: rest)
    (hstep : P.machine.step (P.arrivedAtMaster n w msg) (P.masterReceive w) = some t) :
    P.Stands t (Function.update f w rest) g := by
  obtain ⟨hquiet, hreceive⟩ := hP.masterReceive h.quiet hstep
  exact ⟨hquiet, h.reachable.step _ (hreceive f g rest hfirst)⟩

theorem stands_workerReceive (h : P.Stands n f g) {msg : ν} {rest : List ν} (hfirst : g w = msg :: rest)
    (hstep : P.machine.step (P.arrivedAtWorker n w msg) (P.workerReceive w) = some t) :
    P.Stands t f (Function.update g w rest) := by
  obtain ⟨hquiet, hreceive⟩ := hP.workerReceive h.quiet hstep
  exact ⟨hquiet, h.reachable.step _ (hreceive f g rest hfirst)⟩

end Protocol.Lawful

/-- Each of the two protocols is in a state of its own, with its messages among those of the channels. -/
structure ProtocolPairInv (s : ProtocolPair σ τ μ μ' ν ν') : Prop where
  first : P.Stands s.first (carried Sum.getLeft? s.toMaster) (carried Sum.getLeft? s.toWorker)
  second : Q.Stands s.second (carried Sum.getRight? s.toMaster) (carried Sum.getRight? s.toWorker)

variable {P Q} (hP : P.Lawful) (hQ : Q.Lawful) {s t : ProtocolPair σ τ μ μ' ν ν'}

section Inv

include hP hQ

/-- The step lemma: a step of one of the two protocols leaves the other alone. -/
theorem ProtocolPairInv.step (h : ProtocolPairInv P Q s) {a : ProtocolPairAction α β}
    (hstep : s.step P Q a = some t) : ProtocolPairInv P Q t := by
  cases a with
  | first a =>
      obtain ⟨n, hn, rfl⟩ := Option.map_eq_some_iff.mp hstep
      constructor
      · rw [carried_append fun _ => Sum.getLeft?_inl, carried_append fun _ => Sum.getLeft?_inl]
        exact hP.stands_thread h.first hn
      · rw [carried_append_other fun _ => Sum.getRight?_inl,
          carried_append_other fun _ => Sum.getRight?_inl]
        exact h.second
  | second b =>
      obtain ⟨n, hn, rfl⟩ := Option.map_eq_some_iff.mp hstep
      constructor
      · rw [carried_append_other fun _ => Sum.getLeft?_inr,
          carried_append_other fun _ => Sum.getLeft?_inr]
        exact h.first
      · rw [carried_append fun _ => Sum.getRight?_inr, carried_append fun _ => Sum.getRight?_inr]
        exact hQ.stands_thread h.second hn
  | masterReceive w =>
      rw [ProtocolPair.step] at hstep
      split at hstep
      · rename_i msg rest hfirst
        obtain ⟨n, hn, rfl⟩ := Option.map_eq_some_iff.mp hstep
        constructor
        · rw [carried_update]
          exact hP.stands_masterReceive h.first (by rw [carried, hfirst]; rfl) hn
        · rw [carried_update_other rfl hfirst]
          exact h.second
      · rename_i msg rest hfirst
        obtain ⟨n, hn, rfl⟩ := Option.map_eq_some_iff.mp hstep
        constructor
        · rw [carried_update_other rfl hfirst]
          exact h.first
        · rw [carried_update]
          exact hQ.stands_masterReceive h.second (by rw [carried, hfirst]; rfl) hn
      · cases hstep
  | workerReceive w =>
      rw [ProtocolPair.step] at hstep
      split at hstep
      · rename_i msg rest hfirst
        obtain ⟨n, hn, rfl⟩ := Option.map_eq_some_iff.mp hstep
        constructor
        · rw [carried_update]
          exact hP.stands_workerReceive h.first (by rw [carried, hfirst]; rfl) hn
        · rw [carried_update_other rfl hfirst]
          exact h.second
      · rename_i msg rest hfirst
        obtain ⟨n, hn, rfl⟩ := Option.map_eq_some_iff.mp hstep
        constructor
        · rw [carried_update_other rfl hfirst]
          exact h.first
        · rw [carried_update]
          exact hQ.stands_workerReceive h.second (by rw [carried, hfirst]; rfl) hn
      · cases hstep

theorem Protocol.Lawful.pairInv (h : (P.pair Q).machine.Reachable s) : ProtocolPairInv P Q s := by
  refine h.invariant (fun s hs => ?_) fun _ _ _ hinv hstep => hinv.step hP hQ hstep
  obtain ⟨hfirst, hsecond, hempty⟩ := hs
  have htoMaster : s.toMaster = fun _ => [] := funext fun w => (hempty w).1
  have htoWorker : s.toWorker = fun _ => [] := funext fun w => (hempty w).2
  have hPquiet := hP.quiet_start _ hfirst
  have hQquiet := hQ.quiet_start _ hsecond
  have hPsame := hP.setChannels_self s.first
  have hQsame := hQ.setChannels_self s.second
  rw [funext fun w => (hPquiet w).1, funext fun w => (hPquiet w).2] at hPsame
  rw [funext fun w => (hQquiet w).1, funext fun w => (hQquiet w).2] at hQsame
  rw [← hPsame] at hfirst
  rw [← hQsame] at hsecond
  constructor
  · rw [htoMaster, htoWorker]
    exact ⟨hPquiet, .start hfirst⟩
  · rw [htoMaster, htoWorker]
    exact ⟨hQquiet, .start hsecond⟩

end Inv

/-! ### The two are one protocol -/

theorem Protocol.Other.first {m : Message} (h : (P.pair Q).Other m) : P.Other m := by
  refine ⟨h.1, fun t ht => h.2 t ?_⟩
  rcases List.mem_append.mp ht with ht | ht
  · exact List.mem_append_left _ (List.mem_append_left _ ht)
  · exact List.mem_append_right _ ht

theorem Protocol.Other.second {m : Message} (h : (P.pair Q).Other m) : Q.Other m := by
  refine ⟨h.1, fun t ht => h.2 t ?_⟩
  rcases List.mem_append.mp ht with ht | ht
  · exact List.mem_append_left _ (List.mem_append_right _ ht)
  · exact List.mem_append_right _ ht

section EitherOfCall

variable {ofCall : Tcp.Call → Option μ} {ofCall' : Tcp.Call → Option μ'} {call : Tcp.Call}

theorem eitherOfCall_first {msg : μ} (h : ofCall call = some msg) :
    eitherOfCall ofCall ofCall' call = some (.inl msg) := by
  rw [eitherOfCall, h]
  rfl

theorem eitherOfCall_second {msg : μ'} (h : ofCall call = none) (h' : ofCall' call = some msg) :
    eitherOfCall ofCall ofCall' call = some (.inr msg) := by
  rw [eitherOfCall, h, h']
  rfl

theorem eitherOfCall_other (h : ofCall call = none) (h' : ofCall' call = none) :
    eitherOfCall ofCall ofCall' call = none := by
  rw [eitherOfCall, h, h']
  rfl

end EitherOfCall

namespace ProtocolPair

theorem step_behind {a : ProtocolPairAction α β} (hquiet : (P.pair Q).Quiet s)
    (hstep : s.step P Q a = some t) (f : NodeId → List (μ ⊕ μ')) (g : NodeId → List (ν ⊕ ν')) :
    ((P.pair Q).behind s f g).step P Q a = some ((P.pair Q).behind t f g) := by
  cases a with
  | first a =>
      obtain ⟨n, hn, rfl⟩ := Option.map_eq_some_iff.mp hstep
      refine Option.map_eq_some_iff.mpr ⟨n, hn, ?_⟩
      simp only [Protocol.behind, Protocol.pair, List.append_assoc]
  | second b =>
      obtain ⟨n, hn, rfl⟩ := Option.map_eq_some_iff.mp hstep
      refine Option.map_eq_some_iff.mpr ⟨n, hn, ?_⟩
      simp only [Protocol.behind, Protocol.pair, List.append_assoc]
  | masterReceive w =>
      have hempty : s.toMaster w = [] := (hquiet w).1
      rw [step, hempty] at hstep
      cases hstep
  | workerReceive w =>
      have hempty : s.toWorker w = [] := (hquiet w).2
      rw [step, hempty] at hstep
      cases hstep

theorem taken_one {κ : Type*} (w w' : NodeId) (x : κ) :
    Function.update (Function.update (fun _ => []) w [x]) w [] w' = [] := by
  rw [Function.update_idem]
  exact congrFun (Function.update_eq_self w (fun _ => ([] : List κ))) w'

theorem masterReceive_arrived {w : NodeId} {msg : μ ⊕ μ'}
    (hstep : ((P.pair Q).arrivedAtMaster s w msg).step P Q (.masterReceive w) = some t) :
    (P.pair Q).Quiet t ∧ ∀ f g rest, f w = msg :: rest →
      ((P.pair Q).setChannels s f g).step P Q (.masterReceive w) =
        some ((P.pair Q).setChannels t (Function.update f w rest) g) := by
  have hone : ((P.pair Q).arrivedAtMaster s w msg).toMaster w = [msg] := by
    simp [Protocol.arrivedAtMaster, Protocol.pair]
  rw [step, hone] at hstep
  cases msg with
  | inl msg =>
      obtain ⟨n, hn, rfl⟩ := Option.map_eq_some_iff.mp hstep
      refine ⟨fun w' => ⟨taken_one w w' _, rfl⟩, fun f g rest hfirst => ?_⟩
      have hfirst : ((P.pair Q).setChannels s f g).toMaster w = .inl msg :: rest := hfirst
      rw [step, hfirst]
      exact Option.map_eq_some_iff.mpr ⟨n, hn, rfl⟩
  | inr msg =>
      obtain ⟨n, hn, rfl⟩ := Option.map_eq_some_iff.mp hstep
      refine ⟨fun w' => ⟨taken_one w w' _, rfl⟩, fun f g rest hfirst => ?_⟩
      have hfirst : ((P.pair Q).setChannels s f g).toMaster w = .inr msg :: rest := hfirst
      rw [step, hfirst]
      exact Option.map_eq_some_iff.mpr ⟨n, hn, rfl⟩

theorem workerReceive_arrived {w : NodeId} {msg : ν ⊕ ν'}
    (hstep : ((P.pair Q).arrivedAtWorker s w msg).step P Q (.workerReceive w) = some t) :
    (P.pair Q).Quiet t ∧ ∀ f g rest, g w = msg :: rest →
      ((P.pair Q).setChannels s f g).step P Q (.workerReceive w) =
        some ((P.pair Q).setChannels t f (Function.update g w rest)) := by
  have hone : ((P.pair Q).arrivedAtWorker s w msg).toWorker w = [msg] := by
    simp [Protocol.arrivedAtWorker, Protocol.pair]
  rw [step, hone] at hstep
  cases msg with
  | inl msg =>
      obtain ⟨n, hn, rfl⟩ := Option.map_eq_some_iff.mp hstep
      refine ⟨fun w' => ⟨rfl, taken_one w w' _⟩, fun f g rest hfirst => ?_⟩
      have hfirst : ((P.pair Q).setChannels s f g).toWorker w = .inl msg :: rest := hfirst
      rw [step, hfirst]
      exact Option.map_eq_some_iff.mpr ⟨n, hn, rfl⟩
  | inr msg =>
      obtain ⟨n, hn, rfl⟩ := Option.map_eq_some_iff.mp hstep
      refine ⟨fun w' => ⟨rfl, taken_one w w' _⟩, fun f g rest hfirst => ?_⟩
      have hfirst : ((P.pair Q).setChannels s f g).toWorker w = .inr msg :: rest := hfirst
      rw [step, hfirst]
      exact Option.map_eq_some_iff.mpr ⟨n, hn, rfl⟩

end ProtocolPair

namespace Protocol.Stands

variable {n : σ} {κ : Type*} {w : NodeId} {x : κ}

/-- The other end takes a message that is picked from a shared channel for what it is. -/
theorem ofCall_toMaster (hP : P.Lawful) {pick : κ → Option μ} {channel : NodeId → List κ}
    {g : NodeId → List ν} (h : P.Stands n (carried pick channel) g) (hx : x ∈ channel w) {msg : μ}
    (hpick : pick x = some msg) (seqNum : UInt32) :
    P.ofCallToMaster (P.messageToMaster w seqNum msg).call = some msg := by
  refine hP.ofCall_messageToMaster h.reachable ?_ seqNum
  rw [hP.toMaster_setChannels]
  exact List.mem_filterMap.mpr ⟨x, hx, hpick⟩

theorem ofCall_toWorker (hP : P.Lawful) {pick : κ → Option ν} {channel : NodeId → List κ}
    {f : NodeId → List μ} (h : P.Stands n f (carried pick channel)) (hx : x ∈ channel w) {msg : ν}
    (hpick : pick x = some msg) (seqNum : UInt32) :
    P.ofCallToWorker (P.messageToWorker w seqNum msg).call = some msg := by
  refine hP.ofCall_messageToWorker h.reachable ?_ seqNum
  rw [hP.toWorker_setChannels]
  exact List.mem_filterMap.mpr ⟨x, hx, hpick⟩

end Protocol.Stands

theorem Protocol.Lawful.pair (hP : P.Lawful) (hQ : Q.Lawful) (hapart : P.Apart Q) :
    (P.pair Q).Lawful where
  toMaster_setChannels _ _ _ := rfl
  toWorker_setChannels _ _ _ := rfl
  setChannels_self _ := rfl
  setChannels_idem _ _ _ _ _ := rfl
  quiet_start _ hs := hs.2.2
  step_behind hquiet hstep f g := ProtocolPair.step_behind hquiet hstep f g
  masterReceive _ hstep := ProtocolPair.masterReceive_arrived hstep
  workerReceive _ hstep := ProtocolPair.workerReceive_arrived hstep
  wellFormedToMaster w seqNum msg := by
    cases msg with
    | inl msg => exact hP.wellFormedToMaster w seqNum msg
    | inr msg => exact hQ.wellFormedToMaster w seqNum msg
  wellFormedToWorker w seqNum msg := by
    cases msg with
    | inl msg => exact hP.wellFormedToWorker w seqNum msg
    | inr msg => exact hQ.wellFormedToWorker w seqNum msg
  ofCall_messageToMaster {_ w msg} hreach hmsg seqNum := by
    have hinv := hP.pairInv hQ hreach
    cases msg with
    | inl msg => exact eitherOfCall_first (hinv.first.ofCall_toMaster hP hmsg Sum.getLeft?_inl seqNum)
    | inr msg =>
        exact eitherOfCall_second (hP.otherToMaster (hapart.toMaster w seqNum msg))
          (hinv.second.ofCall_toMaster hQ hmsg Sum.getRight?_inr seqNum)
  ofCall_messageToWorker {_ w msg} hreach hmsg seqNum := by
    have hinv := hP.pairInv hQ hreach
    cases msg with
    | inl msg => exact eitherOfCall_first (hinv.first.ofCall_toWorker hP hmsg Sum.getLeft?_inl seqNum)
    | inr msg =>
        exact eitherOfCall_second (hP.otherToWorker (hapart.toWorker w seqNum msg))
          (hinv.second.ofCall_toWorker hQ hmsg Sum.getRight?_inr seqNum)
  otherToMaster h := eitherOfCall_other (hP.otherToMaster h.first) (hQ.otherToMaster h.second)
  otherToWorker h := eitherOfCall_other (hP.otherToWorker h.first) (hQ.otherToWorker h.second)

/-- Over connections that they share, each of the two protocols goes through its own states. -/
theorem Protocol.Lawful.wirePairInv (hP : P.Lawful) (hQ : Q.Lawful) (hapart : P.Apart Q)
    {s : ProtocolWire (ProtocolPair σ τ μ μ' ν ν')} (h : (P.pair Q).wire.Reachable s) :
    ProtocolPairInv P Q (s.abstract (P.pair Q)) :=
  hP.pairInv hQ ((hP.pair hQ hapart).wireInv h).reachable

end Dsm
