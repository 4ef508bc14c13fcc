import Dsm.PageFault.RemoteMachine
import Dsm.Memory.PageRange

/-!
# Who asks whom for pages

`dsm_map_remote` names the master as the owner of whatever it maps, and every other region belongs to
the node that creates it. So the records of the master all name the master, and its fault thread never
asks anybody; a worker asks the master, since its own node table has a socket for nobody. Requests go
from workers to the master, and pages from the master to workers (`RemoteInv.step`).
-/

namespace Dsm

/-- What holds of node `i` at any time. -/
structure RemoteNode.Sound (i : NodeId) (n : RemoteNode) : Prop where
  localNodeId : n.mem.ctx.localNodeId = i
  localRole : n.mem.ctx.localRole = if i = masterId then .master else .worker
  table : n.mem.ctx.pageTable.isSome = true
  aligned : ∀ p ∈ n.mem.pairs, pageSize ∣ p.2
  localApart : n.mem.ctx.regions.Pairwise Region.LocalApart
  found : ∀ addr, n.fault = .request addr ∨ n.fault = .wait addr →
    (pageLookupLocal n.mem.ctx.pageTable addr).isSome = true
  owner : i = masterId → ∀ pages ∈ n.mem.ctx.pageTable, ∀ page ∈ pages, page.ownerId = masterId
  fault : i = masterId → n.fault = .idle ∨ ∃ addr, n.fault = .check addr
  install : i = masterId → n.install = none

structure RemoteInv (cl : Cluster) (s : RemoteState) : Prop where
  node : ∀ i ∈ cl.nodes, (s.node i).Sound i
  request : ∀ i j g, .request g ∈ s.channel i j → i ≠ masterId ∧ j = masterId
  data : ∀ i j copy, .data copy ∈ s.channel i j → i = masterId ∧ j ∈ cl.workers

/-! ### Records that keep their addresses and owners -/

section

variable {m m' : NodeMem} (h : m.Same m')
include h

theorem NodeMem.Same.pairs : m'.pairs = m.pairs := by
  rw [NodeMem.pairs, NodeMem.pairs, h.addrs]

theorem NodeMem.Same.lookupLocal_isSome (addr : Nat) :
    (pageLookupLocal m'.ctx.pageTable addr).isSome =
      (pageLookupLocal m.ctx.pageTable addr).isSome := by
  have hmap := h.addrs
  cases hold : m.ctx.pageTable with
  | none =>
      rw [hold] at hmap
      rw [Option.map_eq_none_iff.mp hmap]
  | some pages =>
      rw [hold] at hmap
      have hnew := @pageLookupLocal_addrs _ (pages.map Page.addrs) hmap addr
      have hsame := @pageLookupLocal_addrs (some pages) (pages.map Page.addrs) rfl addr
      rw [← Option.isSome_map, hnew, ← hsame, Option.isSome_map]

theorem NodeMem.Same.owner {owner : NodeId}
    (howner : ∀ pages ∈ m.ctx.pageTable, ∀ page ∈ pages, page.ownerId = owner) :
    ∀ pages ∈ m'.ctx.pageTable, ∀ page ∈ pages, page.ownerId = owner := by
  intro pages' hpages' page' hpage'
  have hkeys : pages'.map Page.key ∈ m.ctx.pageTable.keys := by
    rw [← h.keys]
    exact Option.mem_map_of_mem _ hpages'
  obtain ⟨pages, hpages, hmap⟩ := Option.mem_map.mp hkeys
  have hmem : page'.key ∈ pages.map Page.key := hmap ▸ List.mem_map_of_mem hpage'
  obtain ⟨page, hpage, hkey⟩ := List.mem_map.mp hmem
  rw [← howner pages hpages page hpage]
  exact (congrArg Prod.snd hkey).symm

end

theorem RemoteNode.Sound.same {i : NodeId} {n n' : RemoteNode} (h : n.Sound i)
    (hmem : n.mem.Same n'.mem)
    (hfound : ∀ addr, n'.fault = .request addr ∨ n'.fault = .wait addr →
      (pageLookupLocal n.mem.ctx.pageTable addr).isSome = true)
    (hfault : i = masterId → n'.fault = .idle ∨ ∃ addr, n'.fault = .check addr)
    (hinstall : i = masterId → n'.install = none) : n'.Sound i := by
  refine ⟨hmem.localNodeId.trans h.localNodeId, hmem.localRole.trans h.localRole, ?_, ?_, ?_, ?_,
    ?_, hfault, hinstall⟩
  · have hkeys := congrArg Option.isSome hmem.keys
    rw [PageTable.keys, PageTable.keys, Option.isSome_map, Option.isSome_map] at hkeys
    rw [hkeys]
    exact h.table
  · rw [hmem.pairs]
    exact h.aligned
  · rw [hmem.regions]
    exact h.localApart
  · intro addr hpc
    rw [hmem.lookupLocal_isSome]
    exact hfound addr hpc
  · exact fun hi => hmem.owner (h.owner hi)

/-! ### A step of one node -/

theorem pageLookupLocal_call {m : NodeMem} {a : MappingAction} {addr : Nat}
    (h : (pageLookupLocal m.ctx.pageTable addr).isSome = true) :
    (pageLookupLocal (m.call a).ctx.pageTable addr).isSome = true := by
  obtain ⟨page, hpage⟩ := Option.isSome_iff_exists.mp h
  obtain ⟨new, hpairs, -⟩ := m.pairs_call a
  obtain ⟨hmem, hlocal⟩ := NodeMem.mem_pairs_of_lookupLocal hpage
  have hmem' : page.addrs ∈ (m.call a).pairs := by
    rw [hpairs]
    exact List.mem_append_left _ hmem
  obtain ⟨pages, hpages, page', hpage', haddrs⟩ := NodeMem.mem_pairs.mp hmem'
  rw [pageLookupLocal, show (m.call a).ctx.pageTable = some pages from hpages, Option.bind_some,
    List.find?_isSome]
  refine ⟨page', hpage', ?_⟩
  have heq : page'.localAddr = page.localAddr := congrArg Prod.snd haddrs
  rw [heq, hlocal]
  exact beq_self_eq_true _

theorem MappingAction.ownerId_creates {ctx : MemCtx} {a : MappingAction} {r : Region}
    (hr : r ∈ a.creates ctx) : r.ownerId = ctx.localNodeId ∨ r.ownerId = masterId := by
  cases a with
  | malloc size mapped =>
      simp only [MappingAction.creates, Option.mem_def, Option.ite_none_left_eq_some,
        Option.map_eq_some_iff] at hr
      obtain ⟨-, addr, -, rfl⟩ := hr
      exact .inl rfl
  | mallocAt globalAddr size mapped protectOk =>
      simp only [MappingAction.creates, Option.mem_def, Option.ite_none_left_eq_some,
        Option.map_eq_some_iff] at hr
      obtain ⟨-, addr, -, rfl⟩ := hr
      exact .inl rfl
  | mapRemote globalAddr size mapped =>
      simp only [MappingAction.creates, Option.mem_def, Option.ite_none_left_eq_some,
        Option.map_eq_some_iff] at hr
      obtain ⟨-, addr, -, rfl⟩ := hr
      exact .inr rfl
  | free addr => cases hr

theorem RemoteNode.Sound.call {i : NodeId} {n : RemoteNode} (h : n.Sound i) {a : MappingAction}
    (hmapped : ∀ r ∈ a.creates n.mem.ctx, r.Mapped n.mem.ctx) :
    RemoteNode.Sound i { n with mem := n.mem.call a } := by
  obtain ⟨hid, hrole⟩ := a.apply_ids n.mem.ctx
  refine ⟨hid.trans h.localNodeId, hrole.trans h.localRole, ?_, fun p hp => ?_,
    MappingAction.localApart_apply h.localApart hmapped,
    fun addr hpc => pageLookupLocal_call (h.found addr hpc), fun hi => ?_, h.fault, h.install⟩
  · obtain ⟨marks, htable, -⟩ := a.apply_pageTable n.mem.ctx
    have haddrs := congrArg Option.isSome (markPages_addrs
      (n.mem.ctx.pageTable.map (· ++ a.newPages n.mem.ctx)) marks)
    rw [PageTable.addrs, PageTable.addrs, Option.isSome_map, Option.isSome_map,
      Option.isSome_map] at haddrs
    show (a.apply n.mem.ctx).pageTable.isSome = true
    rw [htable, haddrs]
    exact h.table
  · obtain ⟨new, hpairs, hnew⟩ := n.mem.pairs_call a
    rw [hpairs] at hp
    rcases List.mem_append.mp hp with hp | hp
    · exact h.aligned p hp
    · obtain ⟨r, hr, j, -, rfl⟩ := hnew p hp
      exact Nat.dvd_add (hmapped r hr).2.1 ⟨j, Nat.mul_comm _ _⟩
  · obtain ⟨marks, htable, -⟩ := a.apply_pageTable n.mem.ctx
    show ∀ pages ∈ (a.apply n.mem.ctx).pageTable, ∀ page ∈ pages, page.ownerId = masterId
    rw [htable]
    refine ownerId_markPages fun pages hpages page hpage => ?_
    obtain ⟨old, hold, rfl⟩ := Option.mem_map.mp hpages
    rcases List.mem_append.mp hpage with hpage | hpage
    · exact h.owner hi old hold page hpage
    · obtain ⟨r, hr, hpage⟩ := List.mem_flatMap.mp hpage
      obtain ⟨j, -, rfl⟩ := List.mem_map.mp hpage
      show r.ownerId = masterId
      rcases MappingAction.ownerId_creates (Option.mem_toList.mp hr) with howner | howner
      · rw [howner, h.localNodeId, hi]
      · exact howner

theorem RemoteNode.Sound.ownerId_of_lookupLocal {i : NodeId} {n : RemoteNode} (h : n.Sound i)
    (hi : i = masterId) {addr : Nat} {page : Page}
    (hpage : pageLookupLocal n.mem.ctx.pageTable addr = some page) : page.ownerId = masterId := by
  obtain ⟨pages, hpages, hfind⟩ := Option.bind_eq_some_iff.mp hpage
  exact h.owner hi pages hpages page (List.mem_of_find?_eq_some hfind)

/-- A step that is no call leaves the records what they are, up to states and versions. -/
theorem RemoteNode.Effect.same {cl : Cluster} {i : NodeId} {n n' : RemoteNode}
    {incoming : Option PageMessage} {a : RemoteNodeAction} {out : Option (NodeId × PageMessage)}
    (heffect : n.Effect cl i incoming a n' out) (hcall : ∀ call, a ≠ .call call) :
    n.mem.Same n'.mem := by
  cases heffect with
  | call hmapped => exact (hcall _ rfl).elim
  | @checkRet addr value mem protectOk hcheck =>
      have hsame := n.mem.same_faultCheck addr protectOk
      rwa [hcheck] at hsame
  | @checkFetch addr page mem protectOk hcheck =>
      have hsame := n.mem.same_faultCheck addr protectOk
      rwa [hcheck] at hsame
  | giveUp hpc => exact n.mem.same_updatePageLocal _ fun _ => rfl
  | openPage hdata =>
      rw [RemoteNode.openPage]
      split
      · exact .refl _
      · split_ifs
        · exact n.mem.same_markInstalled _ _
        · exact ⟨rfl, rfl, rfl, rfl⟩
        · exact .refl _
  | @finish protectOk c page hinstall hpage hdone =>
      rw [RemoteNode.closePage]
      split_ifs
      · exact ⟨rfl, rfl, rfl, pageUpdate_map _ _ fun _ => rfl⟩
      · exact .refl _
  | store => exact ⟨rfl, rfl, rfl, rfl⟩
  | copy hinstall hpage hk => exact ⟨rfl, rfl, rfl, rfl⟩
  | _ => exact .refl _

theorem NodeMem.faultCheck_bytes (m : NodeMem) (faultAddr : Nat) (protectOk : Bool) (addr : Nat) :
    (m.faultCheck faultAddr protectOk).2.bytes addr = m.bytes addr := by
  rcases m.faultCheck_cases faultAddr protectOk with ⟨_, heq, -⟩ | ⟨page, -, -, heq⟩ |
    ⟨page, -, -, heq⟩
  · rw [heq]
  · rw [heq]
    rfl
  · rw [heq]
    rfl

theorem RemoteNode.Effect.bytes {cl : Cluster} {i : NodeId} {n n' : RemoteNode}
    {incoming : Option PageMessage} {a : RemoteNodeAction} {out : Option (NodeId × PageMessage)}
    (heffect : n.Effect cl i incoming a n' out) (hcall : ∀ call, a ≠ .call call)
    (hinstall : n.install = none) {addr : Nat} (hstore : ∀ byte, a ≠ .store addr byte) :
    n'.mem.bytes addr = n.mem.bytes addr := by
  cases heffect with
  | call hmapped => exact (hcall _ rfl).elim
  | @store addr' byte =>
      refine if_neg fun hin => ?_
      obtain rfl : addr' = addr := by omega
      exact hstore byte rfl
  | @checkRet addr' value mem protectOk hcheck =>
      rw [show mem = (n.mem.faultCheck addr' protectOk).2 by rw [hcheck]]
      exact n.mem.faultCheck_bytes addr' protectOk addr
  | @checkFetch addr' page mem protectOk hcheck =>
      rw [show mem = (n.mem.faultCheck addr' protectOk).2 by rw [hcheck]]
      exact n.mem.faultCheck_bytes addr' protectOk addr
  | openPage hdata =>
      rw [RemoteNode.openPage]
      split
      · rfl
      · split_ifs
        · rfl
        · rfl
        · rfl
  | copy hcopying hpage hk =>
      rw [hinstall] at hcopying
      cases hcopying
  | finish hcopying hpage hdone =>
      rw [hinstall] at hcopying
      cases hcopying
  | _ => rfl

theorem RemoteNode.Sound.effect {cl : Cluster} {i : NodeId} {n n' : RemoteNode} (h : n.Sound i)
    {incoming : Option PageMessage} (hin : ∀ copy, incoming = some (.data copy) → i ≠ masterId)
    {a : RemoteNodeAction} {out : Option (NodeId × PageMessage)}
    (heffect : n.Effect cl i incoming a n' out) : n'.Sound i := by
  have hnone : ∀ {addr : Nat} {pc : RemotePc}, pc = .idle ∨ pc = .giveUp addr →
      ∀ addr', pc = .request addr' ∨ pc = .wait addr' →
        (pageLookupLocal n.mem.ctx.pageTable addr').isSome = true := by
    rintro addr pc (rfl | rfl) addr' (hpc | hpc)
    · cases hpc
    · cases hpc
    · cases hpc
    · cases hpc
  have hmaster : ∀ addr, n.fault = .request addr ∨ n.fault = .wait addr ∨ n.fault = .giveUp addr →
      i ≠ masterId := by
    intro addr hpc hi
    rcases h.fault hi with hidle | ⟨addr', hcheck⟩
    · rw [hidle] at hpc
      rcases hpc with hpc | hpc | hpc <;> cases hpc
    · rw [hcheck] at hpc
      rcases hpc with hpc | hpc | hpc <;> cases hpc
  by_cases hcall : ∃ call, a = .call call
  · obtain ⟨call, rfl⟩ := hcall
    cases heffect with
    | call hmapped => exact h.call hmapped
  have hsame := heffect.same (not_exists.mp hcall)
  cases heffect with
  | call hmapped => exact (hcall ⟨_, rfl⟩).elim
  | store => exact h.same hsame h.found h.fault h.install
  | fault =>
      refine h.same hsame (fun addr hpc => ?_) (fun _ => .inr ⟨_, rfl⟩) h.install
      rcases hpc with hpc | hpc <;> cases hpc
  | @checkRet addr value mem protectOk hcheck =>
      exact h.same hsame (@hnone addr _ (.inl rfl)) (fun _ => .inl rfl) h.install
  | @checkFetch addr page mem protectOk hcheck =>
      rcases n.mem.faultCheck_cases addr protectOk with ⟨value, heq, -⟩ | ⟨page', -, -, heq⟩ |
        ⟨page', hpage, howner, -⟩
      · rw [heq] at hcheck
        cases hcheck
      · rw [heq] at hcheck
        cases hcheck
      · refine h.same hsame (fun addr' hpc => ?_) (fun hi => ?_) h.install
        · rcases hpc with hpc | hpc
          · cases hpc
            rw [hpage]
            rfl
          · cases hpc
        · rw [h.ownerId_of_lookupLocal hi hpage, h.localNodeId, hi] at howner
          exact (howner rfl).elim
  | request hpc hpage hroute =>
      refine h.same hsame (fun addr' hpc' => ?_)
        (fun hi => (hmaster _ (.inl hpc) hi).elim) h.install
      rcases hpc' with hpc' | hpc'
      · cases hpc'
      · cases hpc'
        exact h.found _ (.inl hpc)
  | unsent hpc =>
      exact h.same hsame (hnone (.inr rfl)) (fun hi => (hmaster _ (.inl hpc) hi).elim) h.install
  | leave hpc hstate =>
      exact h.same hsame (@hnone 0 _ (.inl rfl)) (fun _ => .inl rfl) h.install
  | timeout hpc =>
      exact h.same hsame (hnone (.inr rfl)) (fun hi => (hmaster _ (.inr (.inl hpc)) hi).elim)
        h.install
  | giveUp hpc => exact h.same hsame (@hnone 0 _ (.inl rfl)) (fun _ => .inl rfl) h.install
  | answer hreq hcopy hreach => exact h
  | ignore => exact h
  | @openPage src ok copy hdata =>
      have hi := hin _ hdata
      refine h.same hsame ?_ (fun heq => (hi heq).elim) fun heq => (hi heq).elim
      rw [RemoteNode.openPage]
      split
      · exact h.found
      · split_ifs
        · exact h.found
        · exact h.found
        · exact h.found
  | copy hinstall hpage hk =>
      refine h.same hsame h.found h.fault fun hi => ?_
      rw [h.install hi] at hinstall
      cases hinstall
  | finish hinstall hpage hdone => exact h.same hsame h.found h.fault fun _ => rfl

/-- A node sends requests only as a worker and to the master, and pages only as the master and to a
worker. -/
theorem RemoteNode.Sound.sends {cl : Cluster} {i : NodeId} {n n' : RemoteNode} (h : n.Sound i)
    {incoming : Option PageMessage} {a : RemoteNodeAction} {out : Option (NodeId × PageMessage)}
    (heffect : n.Effect cl i incoming a n' out) :
    (∀ dst g, out = some (dst, .request g) → i ≠ masterId ∧ dst = masterId) ∧
      ∀ dst copy, out = some (dst, .data copy) → i = masterId ∧ dst ∈ cl.workers := by
  cases heffect with
  | @request addr page owner sendOk hpc hpage hroute =>
      have hi : i ≠ masterId := by
        intro hi
        rcases h.fault hi with hidle | ⟨addr', hcheck⟩
        · rw [hidle] at hpc
          cases hpc
        · rw [hcheck] at hpc
          cases hpc
      constructor
      · intro dst g hout
        cases hout
        refine ⟨hi, ?_⟩
        rw [Cluster.faultRoute] at hroute
        split_ifs at hroute with hworker hreach
        · cases hroute
          rfl
        · rw [Cluster.tcpReaches, decide_eq_true_eq] at hreach
          exact (hi hreach.1).elim
      · intro dst copy hout
        cases hout
  | answer hreq hcopy hreach =>
      constructor
      · intro dst g hout
        cases hout
      · intro dst copy hout
        cases hout
        rwa [Cluster.tcpReaches, decide_eq_true_eq] at hreach
  | _ =>
      constructor
      · intro dst g hout
        cases hout
      · intro dst copy hout
        cases hout

theorem RemoteInv.step {cl : Cluster} {s t : RemoteState} {b : NodeId × RemoteNodeAction}
    (h : RemoteInv cl s) (hstep : s.step cl b = some t) : RemoteInv cl t := by
  have hactive : b.1 ∈ cl.nodes := (RemoteState.step_eq_some hstep).1
  refine ⟨fun j hj => ?_, fun j k g hg => ?_, fun j k copy hcopy => ?_⟩
  · refine RemoteState.step_node hstep (h.node j hj) fun n out _ heffect => ?_
    refine (h.node j hj).effect (fun copy hdata hmaster => ?_) heffect
    obtain ⟨src, hmem⟩ := RemoteState.exists_mem_channel hdata
    obtain ⟨-, hworker⟩ := h.data src j copy hmem
    exact Cluster.ne_masterId hworker hmaster
  · rcases RemoteState.step_channel hstep hg with hg | ⟨rfl, n, heffect⟩
    · exact h.request j k g hg
    · exact ((h.node b.1 hactive).sends heffect).1 k g rfl
  · rcases RemoteState.step_channel hstep hcopy with hcopy | ⟨rfl, n, heffect⟩
    · exact h.data j k copy hcopy
    · exact ((h.node b.1 hactive).sends heffect).2 k copy rfl

/-! ### The start -/

theorem MappingStart.ownerId {ctx : MemCtx} (h : MappingStart ctx) :
    ∀ pages ∈ ctx.pageTable, ∀ page ∈ pages, page.ownerId = ctx.localNodeId := by
  obtain ⟨node, role, chunks, addr, -, -, -, -, rfl⟩ := h
  obtain ⟨hid, -, -, -, htable⟩ := (MemCtx.initial node role).memInit_spec chunks (some addr)
  intro pages hpages page hpage
  rw [htable, Option.map_some, Option.mem_some_iff] at hpages
  subst hpages
  obtain ⟨i, -, rfl⟩ := List.mem_map.mp hpage
  exact hid.symm

theorem RemoteStart.inv {cl : Cluster} {s : RemoteState} (h : RemoteStart cl s) :
    RemoteInv cl s := by
  refine ⟨fun i hi => ?_, fun i j g hg => ?_, fun i j copy hcopy => ?_⟩
  · have hinv := (h.mem i hi).inv
    have hid := h.localNodeId i hi
    refine ⟨hid, h.localRole i hi, ?_, fun p hp => ?_, hinv.localApart, fun addr hpc => ?_,
      fun hmaster pages hpages page hpage => ?_, fun _ => .inl (h.fault i), fun _ => h.install i⟩
    · have htable := congrArg Option.isSome hinv.table
      rwa [Option.isSome_map] at htable
    · rw [NodeMem.pairs, PageTable.addrs, hinv.table, Option.getD_some] at hp
      obtain ⟨r, hr, hp⟩ := List.mem_flatMap.mp hp
      obtain ⟨k, -, rfl⟩ := mem_pagePairs.mp hp
      exact Nat.dvd_add (hinv.whole r hr).baseAddr ⟨k, Nat.mul_comm _ _⟩
    · rw [h.fault i] at hpc
      rcases hpc with hpc | hpc <;> cases hpc
    · rw [(h.mem i hi).ownerId pages hpages page hpage, hid, hmaster]
  · rw [h.channel i j] at hg
    cases hg
  · rw [h.channel i j] at hcopy
    cases hcopy

end Dsm
