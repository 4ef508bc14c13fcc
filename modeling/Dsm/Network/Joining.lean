import Dsm.Network.DiscoveryMessage
import Dsm.Network.NodeTable

/-!
# Joins while the master starts

The main thread of the first node sets `local_role` and `local_node_id` and then adds its own entry to
the node table. Its UDP listener runs all the time, and serves a `DISCOVER_DSM` as soon as the role is
set: an id is the count of the table plus one, so a worker that is added before the master gets the
id 1. The id 1 is the master's alone exactly as long as the listener adds a worker only when the own
entry is there (`masterId_alone_iff`).
-/

namespace Dsm

/-- `local_ip`, `local_port` and `local_chunks`. -/
structure Self where
  localIp : List UInt8
  localPort : UInt16
  localChunks : UInt32
  length_localIp : localIp.length < maxIpLen

def Self.address (own : Self) : Address := (own.localIp, own.localPort.toNat)

/-- The test for an own broadcast, before the port is cut to 16 bits. -/
def Self.sent (own : Self) (a : Announcement) : Bool :=
  a.msgIp == own.localIp && a.msgPort.toInt == own.localPort.toNat

/-- Where the node that has sent a broadcast listens. -/
def Announcement.address (a : Announcement) : Address := (a.msgIp, a.port.toNat)

/-- `dsm_node_table_add` by the listener, once it is connected. -/
def Announcement.add (a : Announcement) (table : NodeTable) (sockfd : Int) (now : Nat)
    (mutexOk : Bool) : Int × NodeTable :=
  nodeTableAdd table a.msgIp a.port.toNat a.chunks.toNat .worker sockfd now mutexOk

/-- `dsm_node_table_add` by the main thread of a master. -/
def Self.add (own : Self) (table : NodeTable) (now : Nat) (mutexOk : Bool) : Int × NodeTable :=
  nodeTableAdd table own.localIp own.localPort.toNat own.localChunks.toNat .master (-1) now mutexOk

/-- Where the main thread is, once `dsm_udp_wait_discovery` has told it to be the master. -/
inductive RolePc where
  | setRole
  | setNodeId
  | addSelf
  /-- Behind the call, with what `pthread_mutex_init` made of it. -/
  | added (mutexOk : Bool)
deriving DecidableEq, Repr

/-- Where the listener is with a message. -/
inductive ListenerPc where
  | select
  /-- It has found itself on a master, and is about to connect and to add the node. -/
  | connect (a : Announcement)
deriving DecidableEq

structure JoinState where
  main : RolePc
  localRole : Role
  localNodeId : NodeId
  table : NodeTable
  listener : ListenerPc
  /-- The ids sent in `JOIN_RESPONSE`. -/
  assigned : List (Address × Int)

inductive JoinAction where
  | setRole
  | setNodeId
  | addSelf (now : Nat) (mutexOk : Bool)
  | receive (datagram : List UInt8)
  /-- `dsm_tcp_connect`, and with its descriptor the rest of the branch. -/
  | connect (sockfd : Int) (now : Nat) (mutexOk : Bool)

namespace JoinState

/-- The listener with a datagram of another node. -/
def receive (own : Self) (s : JoinState) (datagram : List UInt8) : Option JoinState :=
  match udpParse datagram with
  | .discover a =>
      if a.address = own.address then none
      else if own.sent a then some s
      else if s.localRole = .master then some { s with listener := .connect a }
      else some s
  | _ => some s

/-- The listener with the descriptor of its connection. -/
def connect (s : JoinState) (a : Announcement) (sockfd : Int) (now : Nat) (mutexOk : Bool) : JoinState :=
  if 0 ≤ sockfd then
    let out := a.add s.table sockfd now mutexOk
    { s with
      listener := .select, table := out.2
      assigned := if 0 < out.1 then s.assigned ++ [(a.address, out.1)] else s.assigned }
  else { s with listener := .select }

def step (own : Self) (s : JoinState) : JoinAction → Option JoinState
  | .setRole =>
      if s.main = .setRole then some { s with main := .setNodeId, localRole := .master } else none
  | .setNodeId =>
      if s.main = .setNodeId then some { s with main := .addSelf, localNodeId := masterId } else none
  | .addSelf now mutexOk =>
      if s.main = .addSelf then
        some { s with main := .added mutexOk, table := (own.add s.table now mutexOk).2 }
      else none
  | .receive datagram => if s.listener = .select then s.receive own datagram else none
  | .connect sockfd now mutexOk =>
      match s.listener with
      | .connect a => some (s.connect a sockfd now mutexOk)
      | .select => none

/-- The table is empty, and the listener has served nobody yet. -/
def initial : JoinState :=
  { main := .setRole, localRole := .unknown, localNodeId := 0, table := [], listener := .select
    assigned := [] }

/-- No worker has been told that it is node 1, and once the master has added itself there is one entry
with that id, its own. -/
structure MasterAlone (own : Self) (s : JoinState) : Prop where
  assigned : ∀ out ∈ s.assigned, out.2 ≠ masterId
  entry : s.main = .added true → ∃ node, s.table.filter (·.nodeId == masterId) = [node] ∧
    node.role = .master ∧ node.address = own.address

end JoinState

def joinMachine (own : Self) : Machine JoinState JoinAction where
  start s := s = .initial
  step := JoinState.step own

/-- The listener adds a worker only when the master has added itself. -/
def JoinAction.Ok (s : JoinState) : JoinAction → Prop
  | .connect sockfd _ mutexOk => 0 ≤ sockfd → mutexOk = true → s.main = .added true
  | _ => True

instance (s : JoinState) (a : JoinAction) : Decidable (a.Ok s) :=
  match a with
  | .connect sockfd _ mutexOk =>
      inferInstanceAs (Decidable (0 ≤ sockfd → mutexOk = true → s.main = .added true))
  | .setRole | .setNodeId | .addSelf .. | .receive _ => inferInstanceAs (Decidable True)

/-! ### What a join does to the table -/

/-- The master's entry is the first one, and all others have higher ids. -/
def NodeTable.MasterFirst (own : Self) (table : NodeTable) : Prop :=
  ∃ node rest, table = node :: rest ∧ node.nodeId = masterId ∧ node.role = .master ∧
    node.address = own.address ∧ ∀ other ∈ rest, masterId < other.nodeId

theorem NodeTable.MasterFirst.filter {own : Self} {table : NodeTable} (h : table.MasterFirst own) :
    ∃ node, table.filter (·.nodeId == masterId) = [node] ∧ node.role = .master ∧
      node.address = own.address := by
  obtain ⟨node, rest, rfl, hid, hrole, haddr, hrest⟩ := h
  refine ⟨node, ?_, hrole, haddr⟩
  have hnone : rest.filter (·.nodeId == masterId) = [] := by
    rw [List.filter_eq_nil_iff]
    intro other hother
    rw [beq_iff_eq]
    exact (hrest other hother).ne'
  rw [List.filter_cons_of_pos (by rw [hid, beq_self_eq_true]), hnone]

theorem Self.add_nil (own : Self) (now : Nat) : (own.add [] now true).2.MasterFirst own := by
  have hip : own.localIp.take (maxIpLen - 1) = own.localIp :=
    List.take_of_length_le (Nat.le_sub_one_of_lt own.length_localIp)
  refine ⟨_, [], rfl, rfl, rfl, ?_, nofun⟩
  rw [Node.address, hip]
  rfl

theorem Announcement.add_nil (a : Announcement) (sockfd : Int) (now : Nat) :
    (a.add [] sockfd now true).1 = masterId := rfl

theorem Announcement.add_nil_of_not (a : Announcement) (sockfd : Int) (now : Nat) :
    a.add [] sockfd now false = (-1, []) := rfl

theorem nodeTableAdd_fst {table : NodeTable} {ip : List UInt8} {port : Nat}
    (hfind : table.find? (·.isAt ip port) = none) (chunks : Nat) (role : Role) (sockfd : Int) (now : Nat)
    (mutexOk : Bool) :
    (nodeTableAdd table ip port chunks role sockfd now mutexOk).1 = -1 ∨
      (nodeTableAdd table ip port chunks role sockfd now mutexOk).1 =
        ((if role = .master then 1 else table.length + 1 : ℕ) : Int) := by
  simp only [nodeTableAdd, hfind]
  by_cases hfull : maxNodes ≤ table.length
  · rw [if_pos hfull]
    exact .inl rfl
  · rw [if_neg hfull]
    cases mutexOk with
    | false => exact .inl rfl
    | true => exact .inr rfl

/-- A worker that is added behind the master gets a higher id, and is found under one. -/
theorem Announcement.add_masterFirst {own : Self} {a : Announcement} {table : NodeTable}
    (haddr : a.address ≠ own.address) (h : table.MasterFirst own) (sockfd : Int) (now : Nat)
    (mutexOk : Bool) :
    (a.add table sockfd now mutexOk).2.MasterFirst own ∧
      (0 < (a.add table sockfd now mutexOk).1 → (masterId : Int) < (a.add table sockfd now mutexOk).1) := by
  obtain ⟨node, rest, rfl, hid, hrole, hnode, hrest⟩ := h
  have hhead : node.isAt a.msgIp a.port.toNat = false := by
    refine Bool.eq_false_iff.mpr fun hat => haddr ?_
    rw [Node.isAt, Bool.and_eq_true, beq_iff_eq, beq_iff_eq] at hat
    rw [← hnode, Node.address, hat.1, hat.2]
    rfl
  constructor
  · rcases nodeTableAdd_table (node :: rest) a.msgIp a.port.toNat a.chunks.toNat .worker sockfd now
      mutexOk with ⟨pre, old, post, hsplit, hold, hadd⟩ | ⟨-, -, hadd⟩ | ⟨-, -, -, new, hadd, hnew, -⟩
    · cases pre with
      | nil =>
          obtain ⟨rfl, -⟩ := List.cons.inj hsplit
          rw [hhead] at hold
          cases hold
      | cons first pre =>
          obtain ⟨rfl, rfl⟩ := List.cons.inj hsplit
          refine ⟨node, _, hadd, hid, hrole, hnode, fun other hother => ?_⟩
          rcases List.mem_append.mp hother with hpre | hpost
          · exact hrest other (List.mem_append_left _ hpre)
          · rcases List.mem_cons.mp hpost with rfl | hpost
            · exact hrest old (List.mem_append_right _ List.mem_cons_self)
            · exact hrest other (List.mem_append_right _ (List.mem_cons_of_mem _ hpost))
    · exact ⟨node, rest, hadd, hid, hrole, hnode, hrest⟩
    · refine ⟨node, rest ++ [new], hadd, hid, hrole, hnode, fun other hother => ?_⟩
      rcases List.mem_append.mp hother with hold | hother
      · exact hrest other hold
      · obtain rfl := List.mem_singleton.mp hother
        have hid : other.nodeId = rest.length + 2 := hnew
        rw [hid]
        exact Nat.succ_lt_succ (Nat.succ_pos _)
  · intro hpos
    cases hfind : (node :: rest).find? (·.isAt a.msgIp a.port.toNat) with
    | some old =>
        have hresult : (a.add (node :: rest) sockfd now mutexOk).1 = old.nodeId := by
          simp only [Announcement.add, nodeTableAdd, hfind]
        rw [List.find?_cons_of_neg (by simp [hhead])] at hfind
        rw [hresult]
        exact Int.ofNat_lt.mpr (hrest old (List.mem_of_find?_eq_some hfind))
    | none =>
        rcases nodeTableAdd_fst hfind a.chunks.toNat .worker sockfd now mutexOk with hfail | hnew
        · rw [Announcement.add, hfail] at hpos
          cases hpos
        · rw [Announcement.add, hnew]
          exact Int.ofNat_lt.mpr (Nat.succ_lt_succ (Nat.succ_pos rest.length))

/-! ### Runs -/

namespace JoinState

/-- Until the master has added itself the table is empty, and then it is the first entry. -/
structure Inv (own : Self) (s : JoinState) : Prop where
  early : s.main ≠ .added true → s.table = []
  late : s.main = .added true → s.table.MasterFirst own
  other : ∀ a, s.listener = .connect a → a.address ≠ own.address
  assigned : ∀ out ∈ s.assigned, (masterId : Int) < out.2

theorem Inv.masterAlone {own : Self} {s : JoinState} (h : s.Inv own) : s.MasterAlone own where
  assigned out hout := (h.assigned out hout).ne'
  entry hmain := (h.late hmain).filter

theorem Inv.connect {own : Self} {s : JoinState} (h : s.Inv own) {a : Announcement}
    (hlistener : s.listener = .connect a) {sockfd : Int} {now : Nat} {mutexOk : Bool}
    (hok : (JoinAction.connect sockfd now mutexOk).Ok s) :
    (s.connect a sockfd now mutexOk).Inv own := by
  rw [JoinState.connect]
  split_ifs with hsock
  · by_cases hmain : s.main = .added true
    · obtain ⟨hfirst, hhigh⟩ := Announcement.add_masterFirst (h.other a hlistener) (h.late hmain)
        sockfd now mutexOk
      refine ⟨fun hnot => absurd hmain hnot, fun _ => hfirst, nofun, fun out hout => ?_⟩
      simp only at hout
      split_ifs at hout with hpos
      · rcases List.mem_append.mp hout with hold | hnew
        · exact h.assigned out hold
        · obtain rfl := List.mem_singleton.mp hnew
          exact hhigh hpos
      · exact h.assigned out hout
    · -- the entry's mutex was not initialised, so nothing has been added
      have hmutex : mutexOk = false := Bool.eq_false_iff.mpr fun hm => hmain (hok hsock hm)
      rw [hmutex, h.early hmain, a.add_nil_of_not]
      exact ⟨fun _ => rfl, fun hmain' => absurd hmain' hmain, nofun, h.assigned⟩
  · exact ⟨h.early, h.late, nofun, h.assigned⟩

theorem Inv.not_masterAlone {own : Self} {s : JoinState} (h : s.Inv own) (a : Announcement)
    {sockfd : Int} {now : Nat} {mutexOk : Bool}
    (hnot : ¬ (JoinAction.connect sockfd now mutexOk).Ok s) :
    ¬ (s.connect a sockfd now mutexOk).MasterAlone own := by
  simp only [JoinAction.Ok, Classical.not_imp] at hnot
  obtain ⟨hsock, rfl, hmain⟩ := hnot
  intro halone
  have hmem : (a.address, (masterId : Int)) ∈ (s.connect a sockfd now true).assigned := by
    have hpos : 0 < (a.add [] sockfd now true).1 := by
      rw [a.add_nil]
      decide
    rw [JoinState.connect, if_pos hsock, h.early hmain]
    simp only [if_pos hpos]
    exact List.mem_append_right _ (List.mem_singleton_self _)
  exact halone.assigned _ hmem rfl

theorem Inv.receive {own : Self} {s t : JoinState} (h : s.Inv own) {datagram : List UInt8}
    (ht : s.receive own datagram = some t) : t.Inv own := by
  rw [JoinState.receive] at ht
  split at ht
  · rename_i a _
    split_ifs at ht with haddr
    · obtain rfl := Option.some.inj ht
      exact h
    · obtain rfl := Option.some.inj ht
      refine ⟨h.early, h.late, fun b hb => ?_, h.assigned⟩
      obtain rfl : a = b := ListenerPc.connect.inj hb
      exact haddr
    · obtain rfl := Option.some.inj ht
      exact h
  · obtain rfl := Option.some.inj ht
    exact h

theorem Inv.step {own : Self} {s t : JoinState} {a : JoinAction} (h : s.Inv own) (hok : a.Ok s)
    (ha : s.step own a = some t) : t.Inv own := by
  cases a with
  | setRole =>
      simp only [JoinState.step, Option.ite_none_right_eq_some, Option.some.injEq] at ha
      obtain ⟨hmain, rfl⟩ := ha
      exact ⟨fun _ => h.early (by rw [hmain]; decide), nofun, h.other, h.assigned⟩
  | setNodeId =>
      simp only [JoinState.step, Option.ite_none_right_eq_some, Option.some.injEq] at ha
      obtain ⟨hmain, rfl⟩ := ha
      exact ⟨fun _ => h.early (by rw [hmain]; decide), nofun, h.other, h.assigned⟩
  | addSelf now mutexOk =>
      simp only [JoinState.step, Option.ite_none_right_eq_some, Option.some.injEq] at ha
      obtain ⟨hmain, rfl⟩ := ha
      have htable := h.early (by rw [hmain]; decide)
      cases mutexOk with
      | false => exact ⟨fun _ => by rw [htable]; rfl, nofun, h.other, h.assigned⟩
      | true => exact ⟨fun hnot => absurd rfl hnot, fun _ => htable ▸ own.add_nil now, h.other,
          h.assigned⟩
  | receive datagram =>
      simp only [JoinState.step, Option.ite_none_right_eq_some] at ha
      obtain ⟨-, ha⟩ := ha
      exact h.receive ha
  | connect sockfd now mutexOk =>
      simp only [JoinState.step] at ha
      split at ha
      · rename_i a hlistener
        obtain rfl := Option.some.inj ha
        exact h.connect hlistener hok
      · cases ha

theorem Inv.initial (own : Self) : JoinState.initial.Inv own where
  early _ := rfl
  late := nofun
  other := nofun
  assigned := nofun

end JoinState

/-- Id 1 is the master's alone in every state of a run exactly when the listener adds every worker
after the master has added itself. -/
theorem masterId_alone_iff {own : Self} {as : List JoinAction} {t : JoinState}
    (hexec : (joinMachine own).exec .initial as = some t) :
    (joinMachine own).Always (·.MasterAlone own) .initial as ↔
      (joinMachine own).EachStep (fun s a => a.Ok s) .initial as := by
  refine Machine.always_iff_eachStep (fun _ h => JoinState.Inv.masterAlone h)
    (fun s a t h hok hstep => h.step hok hstep) (fun s a t h hnot hstep => ?_) (.initial own) hexec
  cases a with
  | connect sockfd now mutexOk =>
      simp only [joinMachine, JoinState.step] at hstep
      split at hstep
      · rename_i a _
        obtain rfl := Option.some.inj hstep
        exact h.not_masterAlone a hnot
      · cases hstep
  | setRole | setNodeId | addSelf | receive => exact absurd trivial hnot

/-- The host 10.0.0.1. -/
def firstHost : Self where
  localIp := Scan.ascii "10.0.0.1"
  localPort := 5000
  localChunks := 1
  length_localIp := by decide +kernel

/-- The broadcast of the host 10.0.0.2. -/
def secondHostBroadcast : List UInt8 := Scan.ascii "DISCOVER_DSM/10.0.0.2/5000/1"

theorem masterId_alone_iff_in_order : ∃ t,
    (joinMachine firstHost).exec .initial [.setRole, .setNodeId, .addSelf 0 true,
      .receive secondHostBroadcast, .connect 7 0 true] = some t ∧ t.MasterAlone firstHost := by
  have hsome : ((joinMachine firstHost).exec .initial [.setRole, .setNodeId, .addSelf 0 true,
      .receive secondHostBroadcast, .connect 7 0 true]).isSome = true := by decide +kernel
  obtain ⟨t, ht⟩ := Option.isSome_iff_exists.mp hsome
  have hok : (joinMachine firstHost).EachStep (fun s a => a.Ok s) .initial [.setRole, .setNodeId,
      .addSelf 0 true, .receive secondHostBroadcast, .connect 7 0 true] :=
    Machine.eachStep_of_checks (by decide +kernel)
  exact ⟨t, ht, ((masterId_alone_iff ht).mpr hok).last ht⟩

/-- The worker is added when the role is set and the master's own entry is not there yet. -/
theorem not_masterId_alone : ∃ t,
    (joinMachine firstHost).exec .initial [.setRole, .receive secondHostBroadcast, .connect 7 0 true,
      .setNodeId, .addSelf 0 true] = some t ∧
    t.assigned.map (·.2) = [1] ∧ t.table.map (fun node => (node.nodeId, node.role)) =
      [(1, .worker), (1, .master)] ∧ ¬ t.MasterAlone firstHost := by
  have hrun : (((joinMachine firstHost).exec .initial [.setRole, .receive secondHostBroadcast,
      .connect 7 0 true, .setNodeId, .addSelf 0 true]).map fun t =>
        (t.assigned.map (·.2), t.table.map fun node => (node.nodeId, node.role))) =
      some ([1], [(1, .worker), (1, .master)]) := by decide +kernel
  obtain ⟨t, ht, hout⟩ := Option.map_eq_some_iff.mp hrun
  obtain ⟨hassigned, htable⟩ := Prod.mk.inj hout
  refine ⟨t, ht, hassigned, htable, fun halone => ?_⟩
  obtain ⟨out, hmem, hid⟩ := List.mem_map.mp (hassigned ▸ List.mem_singleton_self (1 : Int))
  exact halone.assigned out hmem hid

end Dsm
