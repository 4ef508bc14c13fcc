import Dsm.Tcp.ClosedCluster
import Dsm.Tcp.Stream

/-!
# A cluster and the bytes between its nodes

The closed cluster delivers whole messages. Here every node has connections to the others, any number
of them, and a message is the bytes that `dsm_tcp_send` writes to one of them: it reaches the dispatcher
when the server thread has read its last byte, and nothing is checked of it that `handle_client_data`
does not check. This cluster refines the closed one (`WireInv.step`), so a frame is only ever handled
as what it was sent as, and every frame is one that its receiver can be trusted with.
-/

namespace Dsm

/-! ### The cluster -/

/-- The nodes with all that they have sent, and the directions of the connections, each a stream. -/
structure WireState (ι κ : Type*) where
  cluster : ClusterState ι
  stream : κ → Tcp.Stream

/-- `routes` says over which connection each of the messages of a step goes; there is none for a message
that the socket does not take. -/
inductive WireAction (ι κ : Type*) where
  /-- A step of a node in which it handles no message. -/
  | node (a : ClusterAction ι) (routes : List (Option κ))
  /-- A step of the bytes that completes no message. -/
  | bytes (k : κ) (a : Tcp.Action)
  /-- The server thread completes a message and calls `dsm_handle_message` with it. -/
  | handle (k : κ) (a : Tcp.Action) (r : Received) (routes : List (Option κ))

def ClusterAction.isDeliver {ι : Type*} : ClusterAction ι → Bool
  | .deliver .. => true
  | _ => false

namespace WireState

variable {ι κ : Type*} [DecidableEq ι] [DecidableEq κ]

/-- The nodes take a step, and what was sent in it is handed to the connections of its sender. -/
def advance (src : κ → ι) (s : WireState ι κ) (cluster : ClusterState ι) (routes : List (Option κ)) :
    Option (WireState ι κ) :=
  let routed := (cluster.sent.drop s.cluster.sent.length).zip routes
  if ∀ x ∈ routed, ∀ k ∈ x.2, src k = x.1.1 then
    some
      { cluster := cluster
        stream := fun k => (s.stream k).send ((routed.filter (·.2 = some k)).map (·.1.2)) }
  else none

def step (master : ι) (src dst : κ → ι) (s : WireState ι κ) : WireAction ι κ → Option (WireState ι κ)
  | .node a routes =>
      if a.isDeliver then none
      else (s.cluster.step master a).bind fun cluster => s.advance src cluster routes
  | .bytes k a =>
      ((s.stream k).step a).bind fun out =>
        if out.2 = none then some { s with stream := Function.update s.stream k out.1 } else none
  | .handle k a r routes =>
      ((s.stream k).step a).bind fun out =>
        if out.2.map (fun call => (call.1, call.2.getD [])) = some (r.header, r.payload) then
          (s.cluster.node (dst k)).bind fun c =>
            ({ s with stream := Function.update s.stream k out.1 } : WireState ι κ).advance src
              (s.cluster.put (dst k) (some (c.handleMessage r).ctx) (c.sends (.message r))) routes
        else none

end WireState

/-- The runs of a cluster whose connection `k` leads from `src k` to `dst k`. -/
def wireCluster {ι κ : Type*} [DecidableEq ι] [DecidableEq κ] (master : ι) (src dst : κ → ι) :
    Machine (WireState ι κ) (WireAction ι κ) where
  start s := s = { cluster := { node := fun _ => none, sent := [] }, stream := fun _ => .opened }
  step := WireState.step master src dst

/-! ### The refinement -/

variable {ι κ : Type*} [DecidableEq ι] [DecidableEq κ] {master : ι} {src dst : κ → ι}

/-- The nodes are in a state of the closed cluster, and a stream carries what its source has sent. -/
structure WireInv (master : ι) (src : κ → ι) (s : WireState ι κ) : Prop where
  reachable : (closedCluster master).Reachable s.cluster
  stream : ∀ k, (s.stream k).Inv
  handed : ∀ k, ∀ m ∈ (s.stream k).sent, (src k, m) ∈ s.cluster.sent

namespace WireInv

variable {s t : WireState ι κ} (h : WireInv master src s)
include h

theorem moved {k : κ} {a : Tcp.Action} {stream : Tcp.Stream} {call : Option Tcp.Call}
    (hstep : (s.stream k).step a = some (stream, call)) :
    WireInv master src { s with stream := Function.update s.stream k stream } := by
  obtain ⟨hinv, hsent, -⟩ := (h.stream k).step hstep
  refine ⟨h.reachable, Tcp.Stream.forall_inv_update h.stream k hinv, fun k' m hm => ?_⟩
  by_cases heq : k' = k
  · subst heq
    simp only [Function.update_self, hsent] at hm
    exact h.handed k' m hm
  · simp only [Function.update_of_ne heq] at hm
    exact h.handed k' m hm

theorem advance {cluster : ClusterState ι} {routes : List (Option κ)}
    (hreach : (closedCluster master).Reachable cluster) (hgrows : s.cluster.sent <+: cluster.sent)
    (hstep : s.advance src cluster routes = some t) : WireInv master src t := by
  rw [WireState.advance, Option.ite_none_right_eq_some] at hstep
  obtain ⟨hroutes, heq⟩ := hstep
  cases heq
  have hnew : ∀ k, ∀ m ∈ (((cluster.sent.drop s.cluster.sent.length).zip routes).filter
      (·.2 = some k)).map (·.1.2), (src k, m) ∈ cluster.sent := by
    intro k m hm
    obtain ⟨x, hx, rfl⟩ := List.mem_map.mp hm
    obtain ⟨hx, hroute⟩ := List.mem_filter.mp hx
    rw [hroutes x hx k (of_decide_eq_true hroute)]
    exact List.mem_of_mem_drop (List.of_mem_zip hx).1
  have hwell : ∀ k, ∀ m ∈ (((cluster.sent.drop s.cluster.sent.length).zip routes).filter
      (·.2 = some k)).map (·.1.2), m.WellFormed :=
    fun k m hm => (clusterInv_of_reachable hreach).wellFormed (hnew k m hm)
  refine ⟨hreach, fun k => ((h.stream k).send (hwell k)).1, fun k m hm => ?_⟩
  rcases List.mem_append.mp hm with hold | hm
  · exact hgrows.subset (h.handed k m hold)
  · exact hnew k m hm

omit [DecidableEq κ] in
theorem completes {k : κ} {a : Tcp.Action} {stream : Tcp.Stream} {call : Tcp.Call}
    (hstep : (s.stream k).step a = some (stream, some call)) :
    (src k, ⟨call.1, call.2.getD []⟩) ∈ s.cluster.sent := by
  obtain ⟨-, -, ⟨hnone, -⟩ | ⟨m, hcall, hpending⟩⟩ := (h.stream k).step hstep
  · cases hnone
  · cases hcall
    have hsent : m ∈ (s.stream k).sent :=
      Tcp.Stream.mem_sent_of_pending (by rw [hpending]; exact List.mem_cons_self)
    have hm := h.handed k m hsent
    rw [Tcp.payload_call ((clusterInv_of_reachable h.reachable).wellFormed hm)]
    exact hm

omit [DecidableEq κ] in
theorem delivers (hpeers : ∀ k, src k ≠ dst k) {k : κ} {c : NodeCtx} {r : Received}
    (hc : s.cluster.node (dst k) = some c) (hsent : (src k, ⟨r.header, r.payload⟩) ∈ s.cluster.sent) :
    s.cluster.step master (.deliver (dst k) (src k) r) =
      some (s.cluster.put (dst k) (some (c.handleMessage r).ctx) (c.sends (.message r))) := by
  obtain ⟨mem, t, hgenuine, -⟩ := (clusterInv_of_reachable h.reachable).genuine _ hsent
  have hok : r.Ok c := hgenuine.ok rfl rfl c
  rw [ClusterState.step, hc, Option.bind_some, if_pos ⟨(hpeers k).symm, hsent⟩, NodeCtx.step, if_pos hok,
    Option.map_some]

theorem step (hpeers : ∀ k, src k ≠ dst k) {a : WireAction ι κ}
    (hstep : s.step master src dst a = some t) : WireInv master src t := by
  cases a with
  | node a routes =>
      rw [WireState.step, Option.ite_none_left_eq_some] at hstep
      obtain ⟨cluster, hcluster, hstep⟩ := Option.bind_eq_some_iff.mp hstep.2
      exact h.advance (h.reachable.step a hcluster)
        ((clusterInv_of_reachable h.reachable).sent_grows hcluster) hstep
  | bytes k a =>
      obtain ⟨out, hout, hstep⟩ := Option.bind_eq_some_iff.mp hstep
      rw [Option.ite_none_right_eq_some] at hstep
      cases hstep.2
      exact h.moved hout
  | handle k a r routes =>
      obtain ⟨⟨stream, call⟩, hout, hstep⟩ := Option.bind_eq_some_iff.mp hstep
      rw [Option.ite_none_right_eq_some] at hstep
      obtain ⟨hcall, hstep⟩ := hstep
      obtain ⟨c, hc, hstep⟩ := Option.bind_eq_some_iff.mp hstep
      obtain ⟨call, rfl, hr⟩ := Option.map_eq_some_iff.mp hcall
      obtain ⟨hheader, hpayload⟩ := Prod.mk.inj hr
      have hsent := h.completes hout
      rw [hheader, hpayload] at hsent
      have hdeliver := h.delivers hpeers hc hsent
      exact (h.moved hout).advance (h.reachable.step (.deliver (dst k) (src k) r) hdeliver)
        ((clusterInv_of_reachable h.reachable).sent_grows hdeliver) hstep

end WireInv

theorem wireInv_of_reachable (hpeers : ∀ k, src k ≠ dst k) {s : WireState ι κ}
    (h : (wireCluster master src dst).Reachable s) : WireInv master src s := by
  refine h.invariant (fun s hs => ?_) fun s a t hinv hstep => hinv.step hpeers hstep
  cases hs
  exact ⟨.start rfl, fun _ => .opened, fun _ => List.forall_mem_nil _⟩

/-- The request of node 2 on its way to the master, sent in two parts and delivered in three. -/
def requestBytes : List (WireAction Bool Bool) :=
  [.node (.start true masterId [] 0 1) [], .node (.call true (.join [49] 5000 1 .master (-1) 0 true)) [],
    .node (.start false 2 [] 0 1) [], .node (.call false (.lock 0)) [some false],
    .bytes false .begin, .bytes false (.accept 24), .bytes false (.deliver 10), .bytes false .call,
    .bytes false (.peek 10), .bytes false (.deliver 14), .bytes false .call, .bytes false (.peek 24),
    .bytes false .readHeader, .bytes false (.accept 4), .bytes false (.deliver 4)]

end Dsm
