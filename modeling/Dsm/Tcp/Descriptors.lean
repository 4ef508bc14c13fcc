import Dsm.Network.NodeTable
import Dsm.Library.Machine

/-!
# Descriptors

The descriptors that a node keeps: the `tcp_fd` of every entry of its node table and, on a worker,
`master_fd`. The receiver closes a descriptor on end of file or on an error and tells neither of the
two, so the number may come back for another connection while it is still there. They all lead to the
nodes that they stand for in every state of a run exactly when the receiver closes no descriptor that
is still named, no connection is lost between `dsm_tcp_connect` and `dsm_node_table_add`, and it is
the master that connects to a worker first (`peersMatch_iff`).
-/

namespace Dsm

structure DescriptorState where
  role : Role
  table : NodeTable
  masterFd : Int
  /-- The node at the other end of every open descriptor. -/
  peer : Int → Option Address
  /-- The address that the listener thread has connected to, and `sockfd`, before it adds the node. -/
  pending : Option (Address × Int)

inductive DescriptorAction where
  /-- `dsm_init_with_params` sets `local_role`. -/
  | setRole (isMaster : Bool) (chunks now : Nat)
  /-- `dsm_tcp_connect` to this address returns `fd`. -/
  | connect (address : Address) (fd : Int)
  /-- `dsm_node_table_add` with the address and the descriptor of the last connect. -/
  | add (chunks now : Nat) (mutexOk : Bool)
  /-- `handle_new_connection` from this node. -/
  | accept (peer : Address) (fd : Int) (epollOk : Bool)
  /-- `handle_client_data` finds the end of the stream or an error. -/
  | close (fd : Int)
  /-- `dsm_tcp_disconnect`. -/
  | disconnect (nodeId : NodeId)
  /-- `SHUTDOWN` or `NODE_LEFT`. -/
  | remove (nodeId : NodeId)
deriving DecidableEq, Repr

namespace DescriptorState

/-- The system returns a descriptor that is not open. -/
def opens (s : DescriptorState) (fd : Int) (a : Address) : DescriptorState :=
  { s with peer := Function.update s.peer fd (some a) }

def closes (s : DescriptorState) (fd : Int) : DescriptorState :=
  { s with peer := Function.update s.peer fd none }

/-- `dsm_tcp_disconnect` -/
def tcpDisconnect (s : DescriptorState) (nodeId : NodeId) : DescriptorState :=
  match nodeTableGet s.table nodeId with
  | some node =>
      if 0 ≤ node.tcpFd then
        { s.closes node.tcpFd with
          table := (s.table.updateFirst (·.nodeId == nodeId)
            ({ · with tcpFd := -1, state := .disconnected })).getD s.table }
      else s
  | none => s

def step (self : Address) (s : DescriptorState) : DescriptorAction → Option DescriptorState
  | .setRole isMaster chunks now =>
      if s.role = .unknown then
        some (if isMaster then
          { s with
            role := .master
            table := (nodeTableAdd s.table self.1 self.2 chunks .master (-1) now true).2 }
        else { s with role := .worker })
      else none
  | .connect address fd =>
      -- only the master's listener connects, to an address of at most this length
      if s.role = .master ∧ s.pending = none ∧ address.1.length < maxIpLen ∧ 0 ≤ fd ∧
          s.peer fd = none then
        some { s.opens fd address with pending := some (address, fd) }
      else none
  | .add chunks now mutexOk =>
      match s.pending with
      | some (address, fd) =>
          some { s with
            table := (nodeTableAdd s.table address.1 address.2 chunks .worker fd now mutexOk).2
            pending := none }
      | none => none
  | .accept peer fd epollOk =>
      if 0 ≤ fd ∧ s.peer fd = none then
        if !epollOk then some s
        else
          some { s.opens fd peer with
            masterFd := if s.role = .worker ∧ s.masterFd < 0 then fd else s.masterFd }
      else none
  | .close fd => if s.peer fd ≠ none then some (s.closes fd) else none
  | .disconnect nodeId => some (s.tcpDisconnect nodeId)
  | .remove nodeId => some { s with table := (nodeTableRemove s.table nodeId).2 }

def initial : DescriptorState :=
  { role := .unknown, table := [], masterFd := -1, peer := fun _ => none, pending := none }

/-- The node that a message of `dsm_tcp_send` to `nodeId` goes to. -/
def tcpSendPeer (s : DescriptorState) (nodeId : NodeId) : Option Address :=
  match nodeTableGet s.table nodeId with
  | some node => if node.tcpFd < 0 then none else s.peer node.tcpFd
  | none => none

/-- Every descriptor that is kept leads to the node that it stands for, and so do the messages. -/
structure PeersMatch (master : Address) (s : DescriptorState) : Prop where
  table : ∀ node ∈ s.table, 0 ≤ node.tcpFd → s.peer node.tcpFd = some node.address
  master : s.role = .worker → 0 ≤ s.masterFd → s.peer s.masterFd = some master
  send : ∀ nodeId a, s.tcpSendPeer nodeId = some a →
    (nodeTableGet s.table nodeId).map Node.address = some a

end DescriptorState

/-- One node, at address `self`, in a cluster with this master. -/
def descriptorMachine (self : Address) : Machine DescriptorState DescriptorAction where
  start s := s = .initial
  step := DescriptorState.step self

/-- The receiver closes no descriptor that is named; a node is added over a connection that is still
open, unless it is not added at all; and the first node that connects to a worker is the master. -/
def DescriptorAction.Ok (master : Address) (s : DescriptorState) : DescriptorAction → Prop
  | .close fd => (∀ node ∈ s.table, node.tcpFd ≠ fd) ∧ (s.role = .worker → s.masterFd ≠ fd)
  | .add _ _ mutexOk => ∀ address fd, s.pending = some (address, fd) →
      (s.table.find? (·.isAt address.1 address.2) = none →
        s.table.length < maxNodes ∧ mutexOk = true) → s.peer fd = some address
  | .accept peer _ epollOk =>
      epollOk = true → s.role = .worker → s.masterFd < 0 → peer = master
  | _ => True

namespace DescriptorState

variable (s : DescriptorState) {fd fd' : Int}

@[simp] theorem opens_peer_self (a : Address) : (s.opens fd a).peer fd = some a :=
  Function.update_self ..

theorem opens_peer_of_ne (a : Address) (h : fd' ≠ fd) : (s.opens fd a).peer fd' = s.peer fd' :=
  Function.update_of_ne h ..

@[simp] theorem closes_peer_self : (s.closes fd).peer fd = none := Function.update_self ..

theorem closes_peer_of_ne (h : fd' ≠ fd) : (s.closes fd).peer fd' = s.peer fd' :=
  Function.update_of_ne h ..

end DescriptorState

/-! ### The invariant -/

structure DescriptorInv (master : Address) (s : DescriptorState) : Prop where
  table : ∀ node ∈ s.table, 0 ≤ node.tcpFd → s.peer node.tcpFd = some node.address
  master : s.role = .worker → 0 ≤ s.masterFd → s.peer s.masterFd = some master
  nodup : (s.table.map Node.address).Nodup
  unset : s.role ≠ .worker → s.masterFd < 0
  empty : s.role ≠ .master → s.table = [] ∧ s.pending = none
  pending : ∀ address fd, s.pending = some (address, fd) → address.1.length < maxIpLen ∧ 0 ≤ fd
  isOpen : ∀ fd, s.peer fd ≠ none → 0 ≤ fd

section Steps

variable {self master : Address} {s t : DescriptorState}

theorem DescriptorInv.initial : DescriptorInv master .initial where
  table := nofun
  master := nofun
  nodup := .nil
  unset _ := by decide
  empty _ := ⟨rfl, rfl⟩
  pending := nofun
  isOpen _ h := (h rfl).elim

theorem DescriptorInv.peersMatch (h : DescriptorInv master s) : s.PeersMatch master := by
  refine ⟨h.table, h.master, fun nodeId a hsend => ?_⟩
  simp only [DescriptorState.tcpSendPeer] at hsend
  split at hsend
  · rename_i node hget
    split_ifs at hsend with hneg
    rw [h.table node (List.mem_of_find?_eq_some hget) (by omega)] at hsend
    rw [hget]
    exact hsend
  · cases hsend

theorem DescriptorInv.opens (h : DescriptorInv master s) {fd : Int} (hfd : 0 ≤ fd)
    (hclosed : s.peer fd = none) (a : Address) : DescriptorInv master (s.opens fd a) := by
  have hother : ∀ fd' b, s.peer fd' = some b → (s.opens fd a).peer fd' = some b := by
    intro fd' b hpeer
    have hne : fd' ≠ fd := by
      rintro rfl
      rw [hclosed] at hpeer
      cases hpeer
    exact (s.opens_peer_of_ne a hne).trans hpeer
  refine ⟨fun node hnode hopen => hother _ _ (h.table node hnode hopen),
    fun hrole hopen => hother _ _ (h.master hrole hopen), h.nodup, h.unset, h.empty, h.pending,
    fun fd' hpeer => ?_⟩
  by_cases heq : fd' = fd
  · exact heq ▸ hfd
  · exact h.isOpen fd' (by rwa [s.opens_peer_of_ne a heq] at hpeer)

theorem DescriptorInv.closes (h : DescriptorInv master s) {fd : Int}
    (htable : ∀ node ∈ s.table, node.tcpFd ≠ fd) (hmaster : s.role = .worker → s.masterFd ≠ fd) :
    DescriptorInv master (s.closes fd) := by
  refine ⟨fun node hnode hopen => ?_, fun hrole hopen => ?_, h.nodup, h.unset, h.empty, h.pending,
    fun fd' hpeer => ?_⟩
  · exact (s.closes_peer_of_ne (htable node hnode)).trans (h.table node hnode hopen)
  · exact (s.closes_peer_of_ne (hmaster hrole)).trans (h.master hrole hopen)
  · by_cases heq : fd' = fd
    · subst heq
      exact (hpeer s.closes_peer_self).elim
    · exact h.isOpen fd' (by rwa [s.closes_peer_of_ne heq] at hpeer)

/-- Other entries for the same addresses, each with no descriptor or the one it had. -/
theorem DescriptorInv.setTable (h : DescriptorInv master s) (hrole : s.role = .master)
    {table : NodeTable} (htable : ∀ node ∈ table, 0 ≤ node.tcpFd →
      s.peer node.tcpFd = some node.address)
    (hnodup : (table.map Node.address).Nodup) : DescriptorInv master { s with table := table } :=
  ⟨htable, h.master, hnodup, h.unset, fun hne => (hne hrole).elim, h.pending, h.isOpen⟩

theorem DescriptorInv.add (h : DescriptorInv master s) {address : Address} {fd : Int}
    (hpending : s.pending = some (address, fd)) {chunks now : Nat} {mutexOk : Bool}
    (hok : (s.table.find? (·.isAt address.1 address.2) = none →
      s.table.length < maxNodes ∧ mutexOk = true) → s.peer fd = some address) :
    DescriptorInv master { s with
      table := (nodeTableAdd s.table address.1 address.2 chunks .worker fd now mutexOk).2
      pending := none } := by
  have hrole : s.role = .master := by
    by_contra hne
    rw [(h.empty hne).2] at hpending
    cases hpending
  obtain ⟨hip, -⟩ := h.pending address fd hpending
  have hinv : DescriptorInv master { s with
      table := (nodeTableAdd s.table address.1 address.2 chunks .worker fd now mutexOk).2 } := by
    rcases nodeTableAdd_table s.table address.1 address.2 chunks .worker fd now mutexOk with
      ⟨pre, old, post, hsplit, hold, heq⟩ | ⟨-, -, heq⟩ |
        ⟨hfind, hroom, hmutex, node, heq, -, hnodeFd, hnodeIp, hport⟩
    · have haddress : old.address = address := by simpa [Node.isAt, Node.address, Prod.ext_iff] using hold
      have hfound : s.table.find? (·.isAt address.1 address.2) ≠ none := fun hnone => by
        have hnot := List.find?_eq_none.mp hnone old (by rw [hsplit]; simp)
        exact hnot hold
      have hpeer := hok fun hnone => (hfound hnone).elim
      rw [heq]
      refine h.setTable hrole (fun node hnode hopen => ?_) ?_
      · rcases List.mem_append.mp hnode with hpre | hpost
        · exact h.table node (by rw [hsplit]; exact List.mem_append_left _ hpre) hopen
        · rcases List.mem_cons.mp hpost with rfl | hpost
          · exact hpeer.trans (congrArg some haddress.symm)
          · refine h.table node ?_ hopen
            rw [hsplit]
            exact List.mem_append_right _ (List.mem_cons_of_mem _ hpost)
      · have hnodup := h.nodup
        rw [hsplit, List.map_append, List.map_cons] at hnodup
        rw [List.map_append, List.map_cons]
        exact hnodup
    · rw [heq]
      exact h
    · have hpeer := hok fun _ => ⟨hroom, hmutex⟩
      have haddress : node.address = (address.1.take (maxIpLen - 1), address.2) := by
        rw [Node.address, hnodeIp, hport]
      rw [heq]
      refine h.setTable hrole (fun new hnew hopen => ?_) ?_
      · rcases List.mem_append.mp hnew with hold | hlast
        · exact h.table new hold hopen
        · rw [List.mem_singleton.mp hlast, hnodeFd, hpeer, haddress,
            List.take_of_length_le (by rw [maxIpLen] at hip ⊢; omega)]
      · rw [List.map_append]
        refine List.nodup_append.mpr ⟨h.nodup, List.nodup_singleton _, fun a ha b hb hab => ?_⟩
        rw [List.mem_singleton.mp hb, haddress] at hab
        exact NodeTable.address_fresh hip hfind (hab ▸ ha)
  refine ⟨hinv.table, hinv.master, hinv.nodup, hinv.unset, fun hne => (hne hrole).elim,
    fun _ _ hnone => ?_, hinv.isOpen⟩
  cases hnone

theorem DescriptorInv.remove (h : DescriptorInv master s) (nodeId : NodeId) :
    DescriptorInv master { s with table := (nodeTableRemove s.table nodeId).2 } := by
  have hsublist : (nodeTableRemove s.table nodeId).2.Sublist s.table := by
    rw [nodeTableRemove_table]
    exact List.eraseP_sublist
  refine ⟨fun node hnode => h.table node (hsublist.subset hnode), h.master,
    h.nodup.sublist (hsublist.map _), h.unset, fun hne => ⟨?_, (h.empty hne).2⟩, h.pending, h.isOpen⟩
  have hempty := (h.empty hne).1
  rw [hempty] at hsublist
  exact List.sublist_nil.mp (by simpa only [hempty] using hsublist)

theorem DescriptorInv.tcpFd_ne (h : DescriptorInv master s) {pre post : List Node} {node : Node}
    (hsplit : s.table = pre ++ node :: post) (hopen : 0 ≤ node.tcpFd) :
    ∀ other ∈ pre ++ post, other.tcpFd ≠ node.tcpFd := by
  intro other hother heq
  have hmem : other ∈ s.table := by
    rw [hsplit]
    rcases List.mem_append.mp hother with hpre | hpost
    · exact List.mem_append_left _ hpre
    · exact List.mem_append_right _ (List.mem_cons_of_mem _ hpost)
  have haddress : other.address = node.address := by
    have hpeer := h.table other hmem (heq ▸ hopen)
    rw [heq, h.table node (by simp [hsplit]) hopen] at hpeer
    exact (Option.some.inj hpeer).symm
  have hnodup := h.nodup
  rw [hsplit, List.map_append, List.map_cons] at hnodup
  obtain ⟨-, hcons, hdisjoint⟩ := List.nodup_append.mp hnodup
  rcases List.mem_append.mp hother with hpre | hpost
  · exact hdisjoint _ (List.mem_map_of_mem hpre) _ List.mem_cons_self haddress
  · exact (List.nodup_cons.mp hcons).1 (haddress ▸ List.mem_map_of_mem hpost)

/-- The descriptor that `dsm_tcp_disconnect` closes is taken out of its entry, and no other entry
has it. -/
theorem DescriptorInv.tcpDisconnect (h : DescriptorInv master s) (nodeId : NodeId) :
    DescriptorInv master (s.tcpDisconnect nodeId) := by
  simp only [DescriptorState.tcpDisconnect]
  split
  · rename_i node hget
    split_ifs with hopen
    · obtain ⟨pre, post, hsplit, hupdate⟩ := List.updateFirst_of_find?
        (fun node : Node => { node with tcpFd := -1, state := .disconnected }) hget
      rw [hupdate, Option.getD_some]
      have hrole : s.role = .master := by
        by_contra hne
        have hempty := (h.empty hne).1
        rw [hsplit] at hempty
        simp at hempty
      have hfd := h.tcpFd_ne hsplit hopen
      have hinv : DescriptorInv master { s with
          table := pre ++ { node with tcpFd := -1, state := .disconnected } :: post } := by
        refine h.setTable hrole (fun other hother hopen' => ?_) ?_
        · rcases List.mem_append.mp hother with hpre | hother
          · exact h.table other (by simp [hsplit, hpre]) hopen'
          · rcases List.mem_cons.mp hother with rfl | hpost
            · exact absurd hopen' (show ¬ (0 : Int) ≤ -1 by decide)
            · exact h.table other (by simp [hsplit, hpost]) hopen'
        · have hnodup := h.nodup
          rw [hsplit, List.map_append, List.map_cons] at hnodup
          rw [List.map_append, List.map_cons]
          exact hnodup
      refine hinv.closes (fun other hother => ?_) (fun hworker => ?_)
      · rcases List.mem_append.mp hother with hpre | hother
        · exact hfd other (List.mem_append_left _ hpre)
        · rcases List.mem_cons.mp hother with rfl | hpost
          · have hneg : (-1 : Int) ≠ node.tcpFd := by omega
            exact hneg
          · exact hfd other (List.mem_append_right _ hpost)
      · cases hrole.symm.trans hworker
    · exact h
  · exact h

theorem DescriptorInv.becomeMaster (h : DescriptorInv master s) (hrole : s.role = .unknown)
    (chunks now : Nat) :
    DescriptorInv master { s with
      role := .master
      table := (nodeTableAdd s.table self.1 self.2 chunks .master (-1) now true).2 } := by
  obtain ⟨htable, hpending⟩ := h.empty (by simp [hrole])
  have hone : (nodeTableAdd s.table self.1 self.2 chunks .master (-1) now true).2 =
      [{ nodeId := 1, role := .master, state := .discovering, ip := self.1.take (maxIpLen - 1)
         port := self.2, chunks := chunks, tcpFd := -1, lastHeartbeat := now }] := by
    rw [htable]
    rfl
  rw [hone]
  refine ⟨fun node hnode hopen => ?_, nofun, List.nodup_singleton _,
    fun _ => h.unset (by simp [hrole]), fun hne => (hne rfl).elim, h.pending, h.isOpen⟩
  rw [List.mem_singleton.mp hnode] at hopen
  exact absurd hopen (show ¬ (0 : Int) ≤ -1 by decide)

theorem DescriptorInv.step {a : DescriptorAction} (h : DescriptorInv master s) (hok : a.Ok master s)
    (ha : s.step self a = some t) : DescriptorInv master t := by
  cases a with
  | setRole isMaster chunks now =>
      simp only [DescriptorState.step, Option.ite_none_right_eq_some, Option.some.injEq] at ha
      obtain ⟨hrole, rfl⟩ := ha
      have hunset := h.unset (by simp [hrole])
      obtain ⟨htable, hpending⟩ := h.empty (by simp [hrole])
      cases isMaster with
      | false =>
          exact ⟨h.table, fun _ hopen => absurd hopen (Int.not_le.mpr hunset), h.nodup,
            fun hne => (hne rfl).elim, fun _ => ⟨htable, hpending⟩, h.pending, h.isOpen⟩
      | true => exact h.becomeMaster hrole chunks now
  | connect address fd =>
      simp only [DescriptorState.step, Option.ite_none_right_eq_some, Option.some.injEq] at ha
      obtain ⟨⟨hrole, -, hip, hfd, hclosed⟩, rfl⟩ := ha
      have hopens := h.opens hfd hclosed address
      refine ⟨hopens.table, hopens.master, hopens.nodup, hopens.unset, fun hne => (hne hrole).elim, ?_,
        hopens.isOpen⟩
      rintro a fd' ⟨⟩
      exact ⟨hip, hfd⟩
  | add chunks now mutexOk =>
      simp only [DescriptorState.step] at ha
      split at ha
      · rename_i address fd hpending
        obtain rfl := Option.some.inj ha
        exact h.add hpending (hok address fd hpending)
      · cases ha
  | accept peer fd epollOk =>
      simp only [DescriptorState.step, Option.ite_none_right_eq_some] at ha
      obtain ⟨⟨hfd, hclosed⟩, ha⟩ := ha
      cases epollOk with
      | false =>
          obtain rfl := Option.some.inj ha
          exact h
      | true =>
          obtain rfl := Option.some.inj ha
          have hopens := h.opens hfd hclosed peer
          refine ⟨hopens.table, fun hrole hopen => ?_, hopens.nodup, fun hne => ?_, hopens.empty,
            hopens.pending, hopens.isOpen⟩
          · have hrole' : s.role = .worker := hrole
            dsimp only at hopen ⊢
            by_cases hfirst : s.masterFd < 0
            · rw [if_pos ⟨hrole', hfirst⟩, hok rfl hrole' hfirst]
              exact s.opens_peer_self master
            · rw [if_neg fun hand => hfirst hand.2] at hopen ⊢
              exact hopens.master hrole' hopen
          · have hne' : s.role ≠ .worker := hne
            dsimp only
            rw [if_neg fun hand => hne' hand.1]
            exact h.unset hne'
  | close fd =>
      simp only [DescriptorState.step, Option.ite_none_right_eq_some, Option.some.injEq] at ha
      obtain ⟨-, rfl⟩ := ha
      exact h.closes hok.1 hok.2
  | disconnect nodeId =>
      obtain rfl := Option.some.inj ha
      exact h.tcpDisconnect nodeId
  | remove nodeId =>
      obtain rfl := Option.some.inj ha
      exact h.remove nodeId

/-- A step that does not meet the condition leaves a descriptor that leads elsewhere. -/
theorem DescriptorInv.not_peersMatch {a : DescriptorAction} (h : DescriptorInv master s)
    (hnot : ¬ a.Ok master s) (ha : s.step self a = some t) : ¬ t.PeersMatch master := by
  intro hmatch
  cases a with
  | close fd =>
      simp only [DescriptorState.step, Option.ite_none_right_eq_some, Option.some.injEq] at ha
      obtain ⟨hpeer, rfl⟩ := ha
      have hfd := h.isOpen fd hpeer
      refine hnot ⟨fun node hnode heq => ?_, fun hrole heq => ?_⟩
      · have hsome := hmatch.table node hnode (heq ▸ hfd)
        rw [heq, s.closes_peer_self] at hsome
        cases hsome
      · have hsome := hmatch.master hrole (heq ▸ hfd)
        rw [show (s.closes fd).masterFd = fd from heq, s.closes_peer_self] at hsome
        cases hsome
  | add chunks now mutexOk =>
      simp only [DescriptorState.step] at ha
      split at ha
      · rename_i address fd hpending
        obtain rfl := Option.some.inj ha
        obtain ⟨hip, hfd⟩ := h.pending address fd hpending
        refine hnot fun address' fd' hpending' hstored => ?_
        obtain ⟨rfl, rfl⟩ := Prod.mk.inj (Option.some.inj (hpending.symm.trans hpending'))
        rcases nodeTableAdd_table s.table address.1 address.2 chunks .worker fd now mutexOk with
          ⟨pre, old, post, -, hold, heq⟩ | ⟨hfind, hno, -⟩ | ⟨-, -, -, node, heq, -, hnodeFd, hnodeIp, hport⟩
        · have hpeer := hmatch.table _ (heq ▸ List.mem_append_right _ List.mem_cons_self) hfd
          have haddress : old.address = address := by
            simpa [Node.isAt, Node.address, Prod.ext_iff] using hold
          exact hpeer.trans (congrArg some haddress)
        · exact (hno (hstored hfind).1 (hstored hfind).2).elim
        · have hpeer := hmatch.table node (by rw [heq]; simp) (hnodeFd ▸ hfd)
          rw [hnodeFd, Node.address, hnodeIp, hport,
            List.take_of_length_le (by rw [maxIpLen] at hip ⊢; omega)] at hpeer
          exact hpeer
      · cases ha
  | accept peer fd epollOk =>
      simp only [DescriptorState.step, Option.ite_none_right_eq_some] at ha
      obtain ⟨⟨hfd, -⟩, ha⟩ := ha
      refine hnot fun hepoll hrole hfirst => ?_
      rw [hepoll] at ha
      obtain rfl := Option.some.inj ha
      have hpeer := hmatch.master hrole
      simp only [hrole, hfirst, and_self, if_true, s.opens_peer_self] at hpeer
      exact Option.some.inj (hpeer hfd)
  | setRole isMaster chunks now => exact hnot trivial
  | connect address fd => exact hnot trivial
  | disconnect nodeId => exact hnot trivial
  | remove nodeId => exact hnot trivial

end Steps

/-- Every descriptor in the node table, and `master_fd` on a worker, leads to the node that it stands
for in every state of a run exactly when no named descriptor is closed by the receiver, a node is
added over a connection that is still open, and the master is the first to connect to a worker. -/
theorem peersMatch_iff {self master : Address} {t : DescriptorState} {as : List DescriptorAction}
    (hexec : (descriptorMachine self).exec .initial as = some t) :
    (descriptorMachine self).Always (DescriptorState.PeersMatch master) .initial as ↔
      (descriptorMachine self).EachStep (fun s a => a.Ok master s) .initial as :=
  Machine.always_iff_eachStep (fun _ (h : DescriptorInv master _) => h.peersMatch)
    (fun _ _ _ h hok ha => h.step hok ha) (fun _ _ _ h hnot ha => h.not_peersMatch hnot ha) .initial
    hexec

private def hostAddress (port : Nat) : Address := ([49, 48], port)

/-- Worker 2 leaves with a message before its connection ends, and another node gets the number of
its descriptor. -/
theorem peersMatch_iff_leave : ∃ t,
    (descriptorMachine (hostAddress 5000)).exec .initial [.setRole true 1 0,
      .connect (hostAddress 5001) 7, .add 1 0 true, .remove 2, .close 7,
      .connect (hostAddress 5002) 7, .add 1 0 true] = some t ∧
    t.tcpSendPeer 2 = some (hostAddress 5002) ∧ t.PeersMatch (hostAddress 5000) := by
  have hok : (descriptorMachine (hostAddress 5000)).EachStep
      (fun s a => a.Ok (hostAddress 5000) s) .initial [.setRole true 1 0,
      .connect (hostAddress 5001) 7, .add 1 0 true, .remove 2, .close 7,
      .connect (hostAddress 5002) 7, .add 1 0 true] := by
    refine (Machine.eachStep_cons rfl).mpr ⟨trivial, (Machine.eachStep_cons rfl).mpr ⟨trivial, ?_⟩⟩
    refine (Machine.eachStep_cons rfl).mpr ⟨?_, (Machine.eachStep_cons rfl).mpr ⟨trivial, ?_⟩⟩
    · rintro address fd ⟨⟩ -
      rfl
    refine (Machine.eachStep_cons rfl).mpr ⟨⟨?_, nofun⟩, ?_⟩
    · intro node hnode
      obtain rfl := List.mem_singleton.mp hnode
      decide
    refine (Machine.eachStep_cons rfl).mpr ⟨trivial, (Machine.eachStep_cons rfl).mpr ⟨?_, ?_⟩⟩
    · rintro address fd ⟨⟩ -
      rfl
    exact Machine.eachStep_nil
  exact ⟨_, rfl, rfl, ((peersMatch_iff rfl).mpr hok).last rfl⟩

/-- The connection of worker 2 breaks, and the next node to join gets the number of its descriptor: a
message to worker 2 goes to that node. -/
theorem not_peersMatch_after_close : ∃ t,
    (descriptorMachine (hostAddress 5000)).exec .initial [.setRole true 1 0,
      .connect (hostAddress 5001) 7, .add 1 0 true, .close 7, .connect (hostAddress 5002) 7,
      .add 1 0 true] = some t ∧
    (nodeTableGet t.table 2).map Node.address = some (hostAddress 5001) ∧
    t.tcpSendPeer 2 = some (hostAddress 5002) ∧ ¬ t.PeersMatch (hostAddress 5000) := by
  refine ⟨_, rfl, rfl, rfl, fun hmatch => ?_⟩
  exact absurd (hmatch.send 2 (hostAddress 5002) rfl) (by decide)

end Dsm
