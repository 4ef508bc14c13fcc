import Dsm.PageFault.RemoteCopy

/-!
# Mapping a remote range

A node allocates a range with `dsm_malloc_at`, and another node maps it with `dsm_map_remote`. Where
the master has allocated it, the mapping reads the owner's bytes: nothing of the range is on its way
to the node before it maps it (`RemoteState.Away`), and from then on the node holds what it is sent
(`RemoteRange.Held`). Where a worker has allocated it, the region is recorded in the name of the
master all the same.
-/

namespace Dsm

/-! ### Before the mapping -/

section

variable {base len : Nat} {cl : Cluster} {i : NodeId} {n n' : RemoteNode}
  {incoming : Option PageMessage} {a : RemoteNodeAction} {out : Option (NodeId × PageMessage)}

theorem NodeMem.Avoids.effect (h : n.mem.Avoids base len) (heffect : n.Effect cl i incoming a n' out)
    (hclear : ∀ call, a = .call call → call.Clear base len n.mem.ctx) : n'.mem.Avoids base len := by
  by_cases hcall : ∃ call, a = .call call
  · obtain ⟨call, rfl⟩ := hcall
    cases heffect with
    | call hmapped =>
        obtain ⟨new, hpairs, hnew⟩ := n.mem.pairs_call call
        intro p hp
        rw [hpairs] at hp
        rcases List.mem_append.mp hp with hp | hp
        · exact h p hp
        · obtain ⟨r, hr, k, hk, rfl⟩ := hnew p hp
          exact (hclear call rfl).new hr hk
  · intro p hp
    rw [(heffect.same (not_exists.mp hcall)).pairs] at hp
    exact h p hp

theorem MappingStart.avoids {m : NodeMem} (h : MappingStart m.ctx)
    (hclear : ∀ r ∈ m.ctx.regions, r.Clear base len) : m.Avoids base len := by
  have hinv := h.inv
  intro p hp
  rw [NodeMem.pairs, PageTable.addrs, hinv.table, Option.getD_some] at hp
  obtain ⟨r, hr, hp⟩ := List.mem_flatMap.mp hp
  obtain ⟨k, hk, rfl⟩ := mem_pagePairs.mp hp
  have hwhole := hinv.whole r hr
  have hmul : k * pageSize < r.pageCount * pageSize := Nat.mul_lt_mul_of_pos_right hk (by decide)
  have hend := hwhole.globalEnd
  have hsize := hwhole.size
  have hout := (hclear r hr).page hwhole.size hk
  rwa [Nat.mod_eq_of_lt (by omega)] at hout

/-- The page that is being installed after a step was so before, or has just arrived. -/
theorem RemoteNode.Effect.install (heffect : n.Effect cl i incoming a n' out) {c' : Copying}
    (hc' : n'.install = some c') :
    (∃ c, n.install = some c ∧ c'.copy = c.copy) ∨ incoming = some (.data c'.copy) := by
  cases heffect with
  | @openPage src ok copy hdata =>
      rw [RemoteNode.openPage] at hc'
      split at hc'
      · exact .inl ⟨c', hc', rfl⟩
      · split_ifs at hc'
        · exact .inl ⟨c', hc', rfl⟩
        · cases hc'
          exact .inr hdata
        · exact .inl ⟨c', hc', rfl⟩
  | copy hinstall hpage hk =>
      cases hc'
      exact .inl ⟨_, hinstall, rfl⟩
  | finish hinstall hpage hdone => cases hc'
  | _ => exact .inl ⟨c', hc', rfl⟩

theorem RemoteNode.Effect.sends_request (heffect : n.Effect cl i incoming a n' out) {dst : NodeId}
    {g : Nat} (hout : out = some (dst, .request g)) : ∃ p ∈ n.mem.pairs, p.1 = g := by
  cases heffect with
  | request hpc hpage hroute =>
      cases hout
      exact ⟨_, (NodeMem.mem_pairs_of_lookupLocal hpage).1, rfl⟩
  | _ => cases hout

theorem RemoteNode.Effect.sends_data (heffect : n.Effect cl i incoming a n' out) {dst : NodeId}
    {copy : PageCopy} (hout : out = some (dst, .data copy)) :
    (∃ ok, a = .receive dst ok) ∧ incoming = some (.request copy.globalAddr) ∧
      n.pageSend copy.globalAddr = some copy := by
  cases heffect with
  | @answer src ok g copy' hreq hcopy hreach =>
      cases hout
      have hglobal : copy.globalAddr = g := by
        rw [RemoteNode.pageSend] at hcopy
        split at hcopy
        · cases hcopy
        · rw [Option.ite_none_left_eq_some] at hcopy
          cases hcopy.2
          rfl
      rw [hglobal]
      exact ⟨⟨ok, rfl⟩, hreq, hcopy⟩
  | _ => cases hout

end

/-- Node `n` has nothing of the range, has not asked for it and is not sent it. -/
structure RemoteState.Away (base len : Nat) (n : NodeId) (s : RemoteState) : Prop where
  pages : (s.node n).mem.Avoids base len
  install : ∀ c, (s.node n).install = some c → ¬ InRange base len c.copy.globalAddr
  request : ∀ j g, .request g ∈ s.channel n j → ¬ InRange base len g
  data : ∀ j copy, .data copy ∈ s.channel j n → ¬ InRange base len copy.globalAddr

theorem RemoteState.mem_channel_of_receive {s : RemoteState} {i src : NodeId} {ok : Bool}
    {m : PageMessage} (h : s.incoming i (.receive src ok) = some m) : m ∈ s.channel src i :=
  List.mem_of_mem_head? h

theorem RemoteState.Away.step {base len : Nat} {cl : Cluster} {n : NodeId} {s t : RemoteState}
    {b : NodeId × RemoteNodeAction} (h : s.Away base len n) (hstep : s.step cl b = some t)
    (hclear : b.1 = n → ∀ call, b.2 = .call call → call.Clear base len (s.node n).mem.ctx) :
    t.Away base len n := by
  refine ⟨?_, ?_, fun j g hg => ?_, fun j copy hcopy => ?_⟩
  · refine @RemoteState.step_node s cl t b (fun m => m.mem.Avoids base len) n hstep h.pages ?_
    exact fun m out hb heffect => h.pages.effect heffect (hclear hb)
  · refine @RemoteState.step_node s cl t b
      (fun m => ∀ c, m.install = some c → ¬ InRange base len c.copy.globalAddr) n hstep h.install ?_
    intro m out _ heffect c hc
    rcases heffect.install hc with ⟨old, hold, hsame⟩ | hdata
    · rw [hsame]
      exact h.install old hold
    · obtain ⟨src, hmem⟩ := RemoteState.exists_mem_channel hdata
      exact h.data src c.copy hmem
  · rcases RemoteState.step_channel hstep hg with hg | ⟨-, m, heffect⟩
    · exact h.request j g hg
    · obtain ⟨p, hp, rfl⟩ := heffect.sends_request rfl
      exact h.pages p hp
  · rcases RemoteState.step_channel hstep hcopy with hcopy | ⟨-, m, heffect⟩
    · exact h.data j copy hcopy
    · -- the page answers a request of the node
      obtain ⟨⟨ok, hreceive⟩, hreq, -⟩ := heffect.sends_data rfl
      rw [hreceive] at hreq
      exact h.request _ _ (RemoteState.mem_channel_of_receive hreq)

/-! ### From the mapping on -/

/-- The owner has the content, the node holds what it has of it, and every page on its way to the
node carries it. -/
structure RemoteRange.Held (R : RemoteRange) (content : Nat → UInt8) (logged : Nat) (n : NodeId)
    (s : RemoteState) : Prop where
  owner : R.OwnerHolds content (s.node masterId).mem
  node : R.NodeHolds content logged (s.node n)
  data : ∀ j copy, .data copy ∈ s.channel j n → R.Carries content copy

/-- Nodes `o` and `n` make no call that meets the range. -/
def LeavesRange (base len : Nat) (o n : NodeId) (s : RemoteState)
    (b : NodeId × RemoteNodeAction) : Prop :=
  b.1 = o ∨ b.1 = n → ∀ call, b.2 = .call call → call.Clear base len (s.node b.1).mem.ctx

/-- Moreover, their programs store nothing in it. -/
def KeepsContent (base len ownerBase nodeBase : Nat) (o n : NodeId) (s : RemoteState)
    (b : NodeId × RemoteNodeAction) : Prop :=
  LeavesRange base len o n s b ∧ ∀ addr byte, b.2 = .store addr byte →
    (b.1 = o → ¬ InRange ownerBase len addr) ∧ (b.1 = n → ¬ InRange nodeBase len addr)

theorem RemoteRange.Held.step {R : RemoteRange} {content : Nat → UInt8} {logged : Nat} {cl : Cluster}
    {n : NodeId} {s t : RemoteState} {b : NodeId × RemoteNodeAction} (h : R.Held content logged n s)
    (hinv : RemoteInv cl s) (hn : n ≠ masterId) (hstep : s.step cl b = some t)
    (hkeeps : KeepsContent R.base R.len R.ownerBase R.nodeBase masterId n s b) :
    R.Held content logged n t := by
  obtain ⟨i, a⟩ := b
  have hsound := hinv.node i (RemoteState.step_eq_some hstep).1
  obtain ⟨hleaves, hquiet⟩ := hkeeps
  refine ⟨?_, ?_, fun j copy hcopy => ?_⟩
  · refine @RemoteState.step_node s cl t (i, a) (fun m => R.OwnerHolds content m.mem) masterId hstep
      h.owner ?_
    rintro m out rfl heffect
    exact RemoteRange.OwnerHolds.effect hsound heffect (hleaves (.inl rfl)) h.owner
      fun addr byte hstore => (hquiet addr byte hstore).1 rfl
  · refine RemoteState.step_node hstep h.node ?_
    rintro m out rfl heffect
    refine h.node.effect hsound hn heffect (hleaves (.inr rfl)) ?_ fun copy hdata => ?_
    · exact fun addr byte hstore => (hquiet addr byte hstore).2 rfl
    · obtain ⟨src, hmem⟩ := RemoteState.exists_mem_channel hdata
      exact h.data src copy hmem
  · rcases RemoteState.step_channel hstep hcopy with hcopy | ⟨rfl, m, heffect⟩
    · exact h.data j copy hcopy
    · -- only the master sends pages, and what it sends of the range is the content
      obtain ⟨-, -, hsend⟩ := heffect.sends_data rfl
      obtain ⟨hmaster, -⟩ := (hsound.sends heffect).2 n copy rfl
      have hmaster' : i = masterId := hmaster
      rw [hmaster'] at hsend
      exact h.owner.pageSend hsend

/-! ### The two calls -/

/-- The region of a successful `dsm_map_remote`. -/
def remoteRegion (g size nodeBase : Nat) : Region := .created (roundUpPage size) masterId g nodeBase

theorem creates_mapRemote {ctx : MemCtx} {g size nodeBase : Nat} (hsize : size ≠ 0) :
    (MappingAction.mapRemote g size (some nodeBase)).creates ctx =
      some (remoteRegion g size nodeBase) := by
  rw [MappingAction.creates, if_neg hsize]
  rfl

@[simp] theorem totalSize_remoteRegion (g size nodeBase : Nat) :
    (remoteRegion g size nodeBase).totalSize = roundUpPage size := roundUpPage_roundUpPage size

theorem RemoteRange.OwnerPages.mallocAt {R : RemoteRange} {m : NodeMem} {size : Nat}
    (hsize : size ≠ 0) (hlen : R.len = roundUpPage size) (hid : m.ctx.localNodeId = masterId)
    (htable : m.ctx.pageTable.isSome = true) (havoids : m.Avoids R.base R.len) :
    R.OwnerPages (m.call (.mallocAt R.base size (some R.ownerBase) true)) := by
  have hr : (MappingAction.mallocAt R.base size (some R.ownerBase) true).creates m.ctx =
      some (remoteRegion R.base size R.ownerBase) := by
    rw [MappingAction.creates, if_neg hsize, hid]
    rfl
  have htotal : (remoteRegion R.base size R.ownerBase).totalSize = R.len := by
    rw [totalSize_remoteRegion, hlen]
  obtain ⟨-, hpages⟩ := NodeMem.call_creates hr htable (htotal ▸ havoids) (htotal ▸ R.global_end)
  have hregion := MappingAction.hasRegion_apply hr
  rw [htotal] at hpages hregion
  exact ⟨hpages, hregion⟩

/-- No record of the node, not even of a region that it has freed, has an address in the mapping. -/
def NodeMem.Fresh (nodeBase len : Nat) (m : NodeMem) : Prop :=
  ∀ p ∈ m.pairs, ¬ InRange nodeBase len p.2

section

variable {R : RemoteRange} {m : NodeMem} {size : Nat} (hsize : size ≠ 0)
  (hlen : R.len = roundUpPage size) (havoids : m.Avoids R.base R.len)
include hsize hlen havoids

theorem RemoteRange.NodePages.mapRemote (htable : m.ctx.pageTable.isSome = true)
    (hfresh : m.Fresh R.nodeBase R.len) :
    R.NodePages (m.call (.mapRemote R.base size (some R.nodeBase))) := by
  have hr : _ ∈ (MappingAction.mapRemote R.base size (some R.nodeBase)).creates m.ctx :=
    creates_mapRemote hsize
  have htotal : (remoteRegion R.base size R.nodeBase).totalSize = R.len := by
    rw [totalSize_remoteRegion, hlen]
  obtain ⟨hpairs, hpages⟩ := NodeMem.call_creates hr htable (htotal ▸ havoids) (htotal ▸ R.global_end)
  have hregion := MappingAction.hasRegion_apply hr
  rw [htotal] at hpages hregion
  refine ⟨hpages, fun p hp hin => ?_, hregion⟩
  rw [hpairs] at hp
  rcases List.mem_append.mp hp with hp | hp
  · exact (hfresh p hp hin).elim
  · obtain ⟨page, hpage, rfl⟩ := List.mem_map.mp hp
    obtain ⟨k, hk, rfl⟩ := List.mem_map.mp hpage
    have hk' : k < (remoteRegion R.base size R.nodeBase).pageCount := List.mem_range.mp hk
    have hmul := Nat.mul_lt_mul_of_pos_right hk' (show 0 < pageSize by decide)
    have hcount := MappingAction.pageCount_of_creates hr
    have hend := R.global_end
    show InRange R.base R.len ((R.base + k * pageSize) % 2 ^ 64)
    rw [Nat.mod_eq_of_lt (by omega)]
    exact ⟨Nat.le_add_right _ _, by omega⟩

omit hlen in
theorem RemoteRange.record_mapRemote (hid : m.ctx.localNodeId ≠ masterId) {j : Nat} (hj : j < R.len)
    {page : Page} (hpage : pageLookup
      (m.call (.mapRemote R.base size (some R.nodeBase))).ctx.pageTable (R.base + j) = some page) :
    page.ownerId = masterId ∧ page.state = .invalid := by
  have hin : InRange R.base R.len page.globalAddr := by
    rw [(NodeMem.mem_pairs_of_lookup hpage).2, pageBase_add R.dvd_base]
    exact inRange_pageBase_add R.dvd_base R.dvd_len hj
  have htable : (m.call (.mapRemote R.base size (some R.nodeBase))).ctx.pageTable =
      m.ctx.pageTable.map (· ++
        (remoteRegion R.base size R.nodeBase).newPages m.ctx.localNodeId) := by
    simp [NodeMem.call, MappingAction.apply, MemCtx.mapRemote, hsize, MemCtx.registerOwnership,
      remoteRegion]
  obtain ⟨pages, hpages, hfind⟩ := Option.bind_eq_some_iff.mp hpage
  rw [htable] at hpages
  obtain ⟨old, hold, rfl⟩ := Option.map_eq_some_iff.mp hpages
  rcases List.mem_append.mp (List.mem_of_find?_eq_some hfind) with hmem | hmem
  · exact (havoids page.addrs (NodeMem.mem_pairs.mpr ⟨old, hold, page, hmem, rfl⟩) hin).elim
  · obtain ⟨k, -, rfl⟩ := List.mem_map.mp hmem
    exact ⟨rfl, if_neg (Ne.symm hid)⟩

end

theorem RemoteRange.NodeHolds.mapRemote {R : RemoteRange} {i : NodeId} {n : RemoteNode} {size : Nat}
    (content : Nat → UInt8) (hsize : size ≠ 0) (hlen : R.len = roundUpPage size)
    (hsound : n.Sound i) (hi : i ≠ masterId) (havoids : n.mem.Avoids R.base R.len)
    (hinstall : ∀ c, n.install = some c → ¬ InRange R.base R.len c.copy.globalAddr)
    (hfresh : n.mem.Fresh R.nodeBase R.len) :
    R.NodeHolds content n.handled.length
      { n with mem := n.mem.call (.mapRemote R.base size (some R.nodeBase)) } := by
  have hcarried : ∀ c, n.install = some c → ∀ j < R.len,
      pageBase c.copy.globalAddr ≠ R.base + pageBase j := by
    intro c hc j hj hg
    rw [← pageBase_add R.dvd_base] at hg
    exact hinstall c hc (inRange_of_pageBase_eq R.dvd_base R.dvd_len hj hg)
  refine ⟨.mapRemote hsize hlen havoids hsound.table hfresh, fun j hj page hpage => ?_,
    fun addr hpc j hj haddr page hpage => ?_, fun c hc j hj hg => ?_, fun c hc j hj hg => ?_,
    fun j hj hmem => ?_⟩
  · obtain ⟨howner, hstate⟩ :=
      record_mapRemote hsize havoids (hsound.localNodeId ▸ hi) hj hpage
    rw [hstate]
    exact ⟨howner, by decide, fun hshared => by cases hshared⟩
  · -- the fault thread waits for a record that was there before
    obtain ⟨old, hold⟩ := Option.isSome_iff_exists.mp (hsound.found addr hpc)
    obtain ⟨hmem, hlocal⟩ := NodeMem.mem_pairs_of_lookupLocal hold
    refine (hfresh old.addrs hmem ?_).elim
    show InRange R.nodeBase R.len old.localAddr
    rw [hlocal, haddr]
    exact inRange_pageBase_add R.dvd_nodeBase R.dvd_len hj
  · exact (hcarried c hc j hj hg).elim
  · exact (hcarried c hc j hj hg).elim
  · rw [List.drop_length] at hmem
    cases hmem

/-! ### The whole run -/

theorem remoteMachine_step {cl : Cluster} {s : RemoteState} {b : NodeId × RemoteNodeAction} :
    (remoteMachine cl).step s b = s.step cl b := rfl

/-- Node `o` has allocated the range with `dsm_malloc_at`, and neither it nor node `n` has made another
call that meets it. -/
inductive HasAllocated (cl : Cluster) (o n : NodeId) (g size ownerBase : Nat) : RemoteState → Prop where
  | intro {start s t u : RemoteState} {before since : List (NodeId × RemoteNodeAction)}
      (hstart : (remoteMachine cl).start start)
      (hclear : ∀ i, i = o ∨ i = n → ∀ r ∈ (start.node i).mem.ctx.regions,
        r.Clear g (roundUpPage size))
      (hbefore : (remoteMachine cl).exec start before = some s)
      (hleaves : (remoteMachine cl).EachStep (LeavesRange g (roundUpPage size) o n) start before)
      (halloc : (remoteMachine cl).step s (o, .call (.mallocAt g size (some ownerBase) true)) = some t)
      (hsince : (remoteMachine cl).exec t since = some u)
      (hleaves' : (remoteMachine cl).EachStep (LeavesRange g (roundUpPage size) o n) t since) :
      HasAllocated cl o n g size ownerBase u

/-- The region of node `n` is recorded with owner `o`, and every byte of it for which a fault was
handled with success since the mapping is the byte of `o`. -/
structure ReadsOwner (g len ownerBase nodeBase : Nat) (o n : NodeId) (logged : Nat) (s : RemoteState) :
    Prop where
  recorded : (s.node n).mem.ctx.HasRegion g nodeBase len o
  bytes : ∀ j < len, (nodeBase + j, 0) ∈ (s.node n).handled.drop logged →
    (s.node n).mem.prot (nodeBase + j) ≠ .none ∧
      (s.node n).mem.bytes (nodeBase + j) = (s.node o).mem.bytes (ownerBase + j)

theorem RemoteInv.exec {cl : Cluster} {s t : RemoteState} {as : List (NodeId × RemoteNodeAction)}
    (hinv : RemoteInv cl s) {P : RemoteState → Prop}
    {ok : RemoteState → NodeId × RemoteNodeAction → Prop}
    (hkeep : ∀ s b t, RemoteInv cl s → P s → ok s b → s.step cl b = some t → P t) (hs : P s)
    (hexec : (remoteMachine cl).exec s as = some t) (hok : (remoteMachine cl).EachStep ok s as) :
    RemoteInv cl t ∧ P t := by
  have halways := @Machine.always_of_eachStep _ _ (remoteMachine cl) (fun s => RemoteInv cl s ∧ P s)
    (fun s => RemoteInv cl s ∧ P s) ok (fun _ h => h)
    (fun s b t h hb hstep => ⟨h.1.step hstep, hkeep s b t h.1 h.2 hb hstep⟩) s t as ⟨hinv, hs⟩
    hexec hok
  exact halways.last hexec

theorem RemoteState.step_call {cl : Cluster} {s t : RemoteState} {i : NodeId} {a : MappingAction}
    (h : (remoteMachine cl).step s (i, .call a) = some t) : i ∈ cl.nodes ∧
      (∀ r ∈ a.creates (s.node i).mem.ctx, r.Mapped (s.node i).mem.ctx) ∧
        t.node = Function.update s.node i { s.node i with mem := (s.node i).mem.call a } ∧
          t.channel = s.channel := by
  obtain ⟨hi, n, out, hn, rfl⟩ := RemoteState.step_eq_some h
  cases RemoteNode.step_effect hn with
  | call hmapped =>
      refine ⟨hi, hmapped, rfl, ?_⟩
      funext j k
      exact List.append_nil _

theorem hasRegion_step {base len nodeBase : Nat} {o n : NodeId} (hpos : 0 < len)
    (hend : base + len ≤ 2 ^ 64) {cl : Cluster} {s t : RemoteState} {b : NodeId × RemoteNodeAction}
    (h : (s.node n).mem.ctx.HasRegion base nodeBase len masterId)
    (hleaves : LeavesRange base len o n s b) (hstep : s.step cl b = some t) :
    (t.node n).mem.ctx.HasRegion base nodeBase len masterId := by
  refine @RemoteState.step_node s cl t b
    (fun m => m.mem.ctx.HasRegion base nodeBase len masterId) n hstep h ?_
  rintro m out rfl heffect
  by_cases hcall : ∃ call, b.2 = .call call
  · obtain ⟨call, hcall⟩ := hcall
    rw [hcall] at heffect
    cases heffect with
    | call hmapped => exact h.call (hleaves (.inr rfl) call hcall) hpos hend
  · rw [MemCtx.HasRegion, (heffect.same (not_exists.mp hcall)).regions]
    exact h

theorem MemCtx.HasRegion.owner_unique {ctx : MemCtx} {base len nodeBase : Nat} {o o' : NodeId}
    (h : ctx.HasRegion base nodeBase len o) (h' : ctx.HasRegion base nodeBase len o')
    (hapart : ctx.regions.Pairwise Region.LocalApart) (hpos : 0 < len) : o = o' := by
  obtain ⟨r, hr, -, hlocal, hsize, rfl⟩ := h
  obtain ⟨r', hr', -, hlocal', hsize', rfl⟩ := h'
  by_cases heq : r = r'
  · rw [heq]
  · have hlt : nodeBase < nodeBase + len := Nat.lt_add_of_pos_right hpos
    refine (Region.not_localApart ⟨hlocal.le, ?_⟩ ⟨hlocal'.le, ?_⟩ (hapart.forall hr hr' heq)).elim
    · omega
    · omega

theorem roundUpPage_end {g size : Nat} (hdvd : pageSize ∣ g) (hend : g + size ≤ 2 ^ 64) :
    g + roundUpPage size ≤ 2 ^ 64 := by
  obtain ⟨k, rfl⟩ := hdvd
  unfold roundUpPage
  unfold pageSize at *
  omega

namespace HasAllocated

variable {cl : Cluster} {o n : NodeId} {g size ownerBase : Nat} {u : RemoteState}
  (h : HasAllocated cl o n g size ownerBase u)
include h

theorem inv : RemoteInv cl u := by
  obtain ⟨hstart, -, hbefore, hleaves, halloc, hsince, hleaves'⟩ := h
  have hinv := (hstart.inv.exec (fun _ _ _ _ _ _ _ => trivial) trivial hbefore hleaves).1.step halloc
  exact (hinv.exec (fun _ _ _ _ _ _ _ => trivial) trivial hsince hleaves').1

theorem ownerBase_dvd (hsize : size ≠ 0) : pageSize ∣ ownerBase := by
  obtain ⟨-, -, -, -, halloc, -, -⟩ := h
  obtain ⟨-, hmapped, -⟩ := RemoteState.step_call halloc
  rw [MappingAction.creates, if_neg hsize] at hmapped
  exact (hmapped _ rfl).2.1

end HasAllocated

theorem avoids_step {base len : Nat} {n : NodeId} {cl : Cluster} {s t : RemoteState}
    {b : NodeId × RemoteNodeAction} (h : (s.node masterId).mem.Avoids base len)
    (hleaves : LeavesRange base len masterId n s b) (hstep : s.step cl b = some t) :
    (t.node masterId).mem.Avoids base len := by
  refine @RemoteState.step_node s cl t b (fun m => m.mem.Avoids base len) masterId hstep h ?_
  intro m out hb heffect
  exact h.effect heffect (hb ▸ hleaves (.inl hb))

theorem ownerPages_step {R : RemoteRange} {n : NodeId} {cl : Cluster} {s t : RemoteState}
    {b : NodeId × RemoteNodeAction} (h : R.OwnerPages (s.node masterId).mem)
    (hleaves : LeavesRange R.base R.len masterId n s b) (hstep : s.step cl b = some t) :
    R.OwnerPages (t.node masterId).mem := by
  refine @RemoteState.step_node s cl t b (fun m => R.OwnerPages m.mem) masterId hstep h ?_
  intro m out hb heffect
  exact RemoteRange.OwnerPages.effect heffect (hb ▸ hleaves (.inl hb)) h

theorem RemoteStart.away {cl : Cluster} {s : RemoteState} (h : RemoteStart cl s) {n : NodeId}
    (hn : n ∈ cl.nodes) {base len : Nat}
    (hclear : ∀ r ∈ (s.node n).mem.ctx.regions, r.Clear base len) : s.Away base len n := by
  refine ⟨(h.mem n hn).avoids hclear, fun c hc => ?_, fun j g hg => ?_, fun j copy hcopy => ?_⟩
  · rw [h.install n] at hc
    cases hc
  · rw [h.channel n j] at hg
    cases hg
  · rw [h.channel j n] at hcopy
    cases hcopy

/-- The master has the range, and nothing of it is at node `n` or on its way to it. -/
theorem HasAllocated.ready {cl : Cluster} {n : NodeId} {R : RemoteRange} {size : Nat} {u : RemoteState}
    (h : HasAllocated cl masterId n R.base size R.ownerBase u) (hn : n ∈ cl.nodes)
    (hne : n ≠ masterId) (hsize : size ≠ 0) (hlen : R.len = roundUpPage size) :
    u.Away R.base R.len n ∧ R.OwnerPages (u.node masterId).mem := by
  obtain ⟨hstart, hclear, hbefore, hleaves, halloc, hsince, hleaves'⟩ := h
  rw [← hlen] at hclear hleaves hleaves'
  have haway : ∀ s b t, s.Away R.base R.len n → LeavesRange R.base R.len masterId n s b →
      s.step cl b = some t → t.Away R.base R.len n := by
    intro s b t haway hleave hstep
    refine haway.step hstep fun hb call hcall => ?_
    rw [← hb]
    exact hleave (.inr hb) call hcall
  obtain ⟨hmaster, -, hnode, -⟩ := RemoteState.step_call halloc
  rw [remoteMachine_step] at halloc
  obtain ⟨hinv, haway₁, havoids⟩ := hstart.inv.exec
    (fun s b t _ hs hleave hstep => And.intro (haway s b t hs.1 hleave hstep)
      (avoids_step hs.2 hleave hstep))
    ⟨hstart.away hn (hclear n (.inr rfl)),
      (hstart.mem masterId hmaster).avoids (hclear masterId (.inl rfl))⟩ hbefore hleaves
  have haway₂ := haway₁.step halloc fun hb => (hne hb.symm).elim
  refine ((hinv.step halloc).exec
    (fun s b t _ hs hleave hstep => And.intro (haway s b t hs.1 hleave hstep)
      (ownerPages_step hs.2 hleave hstep))
    ⟨haway₂, ?_⟩ hsince hleaves').2
  rw [hnode, Function.update_self]
  have hsound := hinv.node masterId hmaster
  exact .mallocAt hsize hlen hsound.localNodeId hsound.table havoids

theorem HasAllocated.held {cl : Cluster} {n : NodeId} {R : RemoteRange} {size : Nat}
    {s t : RemoteState} (h : HasAllocated cl masterId n R.base size R.ownerBase s)
    (hne : n ≠ masterId) (hsize : size ≠ 0) (hlen : R.len = roundUpPage size)
    (hmap : (remoteMachine cl).step s
      (n, .call (.mapRemote R.base size (some R.nodeBase))) = some t)
    (hfresh : (s.node n).mem.Fresh R.nodeBase R.len) :
    R.Held (fun j => (s.node masterId).mem.bytes (R.ownerBase + j)) (s.node n).handled.length n t := by
  obtain ⟨hn, -, hnode, hchannel⟩ := RemoteState.step_call hmap
  obtain ⟨haway, howner⟩ := h.ready hn hne hsize hlen
  refine ⟨?_, ?_, fun j copy hcopy k hk hg => ?_⟩
  · rw [hnode, Function.update_of_ne hne.symm]
    exact ⟨howner, fun _ _ => rfl⟩
  · rw [hnode, Function.update_self]
    exact .mapRemote _ hsize hlen (h.inv.node n hn) hne haway.pages haway.install hfresh
  · rw [hchannel] at hcopy
    refine (haway.data j copy hcopy (inRange_of_pageBase_eq R.dvd_base R.dvd_len hk ?_)).elim
    rw [hg, pageBase_add R.dvd_base]

/-- A node that maps a range which the master has allocated, where no record of it is left in the
addresses of the mapping, has the region in the name of the owner, and reads the owner's bytes wherever
it has handled a fault with success; a range that a worker has allocated is never recorded so. -/
theorem mapRemote_reads_owner {cl : Cluster} {o n : NodeId} {g size ownerBase nodeBase : Nat}
    {s t u : RemoteState} {after : List (NodeId × RemoteNodeAction)} (hne : n ≠ o)
    (hdvd : pageSize ∣ g) (hsize : 0 < size) (hend : g + size ≤ 2 ^ 64)
    (halloc : HasAllocated cl o n g size ownerBase s)
    (hmap : (remoteMachine cl).step s (n, .call (.mapRemote g size (some nodeBase))) = some t)
    (hexec : (remoteMachine cl).exec t after = some u)
    (hkeeps : (remoteMachine cl).EachStep
      (KeepsContent g (roundUpPage size) ownerBase nodeBase o n) t after) :
    (o = masterId ∧ (s.node n).mem.Fresh nodeBase (roundUpPage size) →
        ReadsOwner g (roundUpPage size) ownerBase nodeBase o n (s.node n).handled.length u) ∧
      (ReadsOwner g (roundUpPage size) ownerBase nodeBase o n (s.node n).handled.length u →
        o = masterId) := by
  obtain ⟨hn, hmapped, hnode, -⟩ := RemoteState.step_call hmap
  obtain ⟨hpos, hnodeDvd, hnodePos, -⟩ := hmapped _ (creates_mapRemote hsize.ne')
  rw [totalSize_remoteRegion] at hpos
  have hglobal := roundUpPage_end hdvd hend
  have hregion : (t.node n).mem.ctx.HasRegion g nodeBase (roundUpPage size) masterId := by
    have hregion := MappingAction.hasRegion_apply
      (@creates_mapRemote (s.node n).mem.ctx g size nodeBase hsize.ne')
    rw [totalSize_remoteRegion] at hregion
    rw [hnode, Function.update_self]
    exact hregion
  have hinv := halloc.inv.step hmap
  obtain ⟨hinvEnd, hregionEnd⟩ := hinv.exec
    (fun s b t _ hs hkeep hstep => hasRegion_step hpos hglobal hs hkeep.1 hstep) hregion hexec hkeeps
  constructor
  · rintro ⟨rfl, hfresh⟩
    let R : RemoteRange := ⟨g, roundUpPage size, ownerBase, nodeBase, hdvd, dvd_roundUpPage size,
      halloc.ownerBase_dvd hsize.ne', hnodeDvd, hpos, hnodePos, hglobal⟩
    have hheld := @HasAllocated.held cl n R size s t halloc hne hsize.ne' rfl hmap hfresh
    obtain ⟨-, hheldEnd⟩ := hinv.exec
      (fun s b t hs hheld hkeep hstep => RemoteRange.Held.step hheld hs hne hstep hkeep)
      hheld hexec hkeeps
    refine ⟨hregionEnd, fun j hj hmem => ?_⟩
    obtain ⟨hprot, hbytes⟩ := hheldEnd.node.handled j hj hmem
    exact ⟨hprot, hbytes.trans (hheldEnd.owner.bytes j hj).symm⟩
  · intro hreads
    exact hreads.recorded.owner_unique hregionEnd (hinvEnd.node n hn).localApart hpos

/-- A master and a worker after `dsm_mem_init` with one chunk. -/
def remoteBoot : RemoteState where
  node i :=
    { mem :=
        { ctx := ((MemCtx.initial i (if i = masterId then .master else .worker)).memInit 1
            (some 0x10000)).2
          prot := fun _ => .none
          bytes := fun _ => 0 }
      fault := .idle
      install := none
      handled := [] }
  channel _ _ := []

theorem start_remoteBoot : (remoteMachine oneWorker).start remoteBoot := by
  have hnode : ∀ i ∈ oneWorker.nodes, i < 2 ^ 32 ∧ ∀ r ∈ (remoteBoot.node i).mem.ctx.regions,
      r.Mapped (.initial i (if i = masterId then .master else .worker)) := by decide +kernel
  refine ⟨fun i hi => ?_, by decide, by decide, fun _ => rfl, fun _ => rfl, fun _ => rfl,
    fun _ _ => rfl⟩
  obtain ⟨hlt, hmapped⟩ := hnode i hi
  exact ⟨i, _, 1, 0x10000, hlt, by decide, by decide, hmapped, rfl⟩

theorem clear_remoteBoot {i : NodeId} (hi : i ∈ oneWorker.nodes) :
    ∀ r ∈ (remoteBoot.node i).mem.ctx.regions, r.Clear 0x2000000 (roundUpPage 4096) := by
  have hle : ∀ i ∈ oneWorker.nodes, ∀ r ∈ (remoteBoot.node i).mem.ctx.regions,
      r.globalBase + r.totalSize ≤ 0x2000000 := by decide +kernel
  intro r hr
  exact Region.clear_of_le (hle i hi r hr) (by decide)

/-- A node of the cluster allocates a page right after the start, and stores a byte in it. -/
theorem hasAllocated_remoteBoot {o n : NodeId} {ownerBase : Nat} {s t : RemoteState} (byte : UInt8)
    (ho : o ∈ oneWorker.nodes) (hn : n ∈ oneWorker.nodes)
    (halloc : (remoteMachine oneWorker).step remoteBoot
      (o, .call (.mallocAt 0x2000000 4096 (some ownerBase) true)) = some s)
    (hstore : (remoteMachine oneWorker).step s (o, .store (ownerBase + 5) byte) = some t) :
    HasAllocated oneWorker o n 0x2000000 4096 ownerBase t := by
  refine @HasAllocated.intro _ _ _ _ _ _ _ _ _ _ [] [(o, .store (ownerBase + 5) byte)]
    start_remoteBoot ?_ rfl Machine.eachStep_nil halloc ?_ ?_
  · rintro i (rfl | rfl)
    · exact clear_remoteBoot ho
    · exact clear_remoteBoot hn
  · rw [Machine.exec_cons, hstore]
    rfl
  · refine Machine.eachStep_of_forall fun u b hb _ call hcall => ?_
    rw [List.mem_singleton.mp hb] at hcall
    cases hcall

/-- The master allocates a page and stores `7` in it, the worker maps it and faults. -/
def ownerSteps : List (NodeId × RemoteNodeAction) :=
  [(1, .call (.mallocAt 0x2000000 4096 (some 0x30000) true)), (1, .store 0x30005 7)]

def fetchSteps : List (NodeId × RemoteNodeAction) :=
  [(2, .fault 0x40005), (2, .check true), (2, .request true), (1, .receive 2 true),
    (2, .receive 1 true), (2, .copy 4096), (2, .finish true), (2, .leave)]

/-- The worker reads the byte of the master. -/
theorem mapRemote_reads_owner_fetch : ∃ s t u,
    (remoteMachine oneWorker).exec remoteBoot ownerSteps = some s ∧
      (remoteMachine oneWorker).step s (2, .call (.mapRemote 0x2000000 4096 (some 0x40000))) = some t ∧
      (remoteMachine oneWorker).exec t fetchSteps = some u ∧
      (u.node 2).handled = [(0x40005, 0)] ∧ (u.node 2).mem.bytes 0x40005 = 7 ∧
      ReadsOwner 0x2000000 (roundUpPage 4096) 0x30000 0x40000 1 2 (s.node 2).handled.length u := by
  have hrun : ((remoteMachine oneWorker).exec remoteBoot (ownerSteps ++
      (2, .call (.mapRemote 0x2000000 4096 (some 0x40000))) :: fetchSteps)).map
        (fun u => ((u.node 2).handled, (u.node 2).mem.bytes 0x40005)) = some ([(0x40005, 0)], 7) := by
    decide +kernel
  have hpairs : ((remoteMachine oneWorker).exec remoteBoot ownerSteps).map
      (fun s => (s.node 2).mem.pairs) = some [(0x1002000, 0x10000)] := by decide +kernel
  obtain ⟨u, hexec, hresult⟩ := Option.map_eq_some_iff.mp hrun
  rw [Machine.exec_append] at hexec
  obtain ⟨s, hs, hexec⟩ := Option.bind_eq_some_iff.mp hexec
  obtain ⟨t, hmap, hfetch⟩ := Option.bind_eq_some_iff.mp hexec
  obtain ⟨s₁, halloc, hstore⟩ := Option.bind_eq_some_iff.mp hs
  obtain ⟨s₂, hstore, hlast⟩ := Option.bind_eq_some_iff.mp hstore
  cases hlast
  rw [hs, Option.map_some, Option.some.injEq] at hpairs
  refine ⟨s, t, u, hs, hmap, hfetch, congrArg Prod.fst hresult, congrArg Prod.snd hresult, ?_⟩
  refine (mapRemote_reads_owner (by decide) (by decide) (by decide) (by decide)
    (hasAllocated_remoteBoot 7 (by decide) (by decide) halloc hstore) hmap hfetch ?_).1 ⟨rfl, ?_⟩
  · refine Machine.eachStep_of_forall fun v b hb => ?_
    have hquiet : (∀ call, b.2 ≠ .call call) ∧ ∀ addr byte, b.2 ≠ .store addr byte := by
      simp only [fetchSteps, List.mem_cons, List.not_mem_nil, or_false] at hb
      rcases hb with rfl | rfl | rfl | rfl | rfl | rfl | rfl | rfl <;> simp
    exact ⟨fun _ call hcall => (hquiet.1 call hcall).elim,
      fun addr byte hbyte => (hquiet.2 addr byte hbyte).elim⟩
  · rw [NodeMem.Fresh, hpairs]
    decide

/-- The worker allocates a page and stores `7` in it, and the master maps it: the mapping is recorded
in the name of the master itself, whose fault opens it and reads `0`. -/
theorem mapRemote_not_reads_owner : ∃ s t u,
    HasAllocated oneWorker 2 1 0x2000000 4096 0x40000 s ∧
      (remoteMachine oneWorker).step s (1, .call (.mapRemote 0x2000000 4096 (some 0x30000))) = some t ∧
      (remoteMachine oneWorker).exec t [(1, .fault 0x30005), (1, .check true)] = some u ∧
      (u.node 1).handled = [(0x30005, 0)] ∧
      (u.node 2).mem.bytes 0x40005 = 7 ∧ (u.node 1).mem.bytes 0x30005 = 0 ∧
      (u.node 1).mem.ctx.regions.map (fun r => (r.globalBase, r.ownerId)) =
        [(0x1000000, 1), (0x2000000, 1)] ∧
      ¬ ReadsOwner 0x2000000 (roundUpPage 4096) 0x40000 0x30000 2 1 (s.node 1).handled.length u := by
  have hrun : ((remoteMachine oneWorker).exec remoteBoot
      [(2, .call (.mallocAt 0x2000000 4096 (some 0x40000) true)), (2, .store 0x40005 7),
        (1, .call (.mapRemote 0x2000000 4096 (some 0x30000))), (1, .fault 0x30005),
        (1, .check true)]).map
        (fun u => ((u.node 1).handled, (u.node 2).mem.bytes 0x40005, (u.node 1).mem.bytes 0x30005,
          (u.node 1).mem.ctx.regions.map fun r => (r.globalBase, r.ownerId))) =
      some ([(0x30005, 0)], 7, 0, [(0x1000000, 1), (0x2000000, 1)]) := by decide +kernel
  obtain ⟨u, hexec, hresult⟩ := Option.map_eq_some_iff.mp hrun
  obtain ⟨s₁, halloc, hexec⟩ := Option.bind_eq_some_iff.mp hexec
  obtain ⟨s, hstore, hexec⟩ := Option.bind_eq_some_iff.mp hexec
  obtain ⟨t, hmap, hfault⟩ := Option.bind_eq_some_iff.mp hexec
  simp only [Prod.mk.injEq] at hresult
  obtain ⟨hhandled, howner, hbyte, hregions⟩ := hresult
  refine ⟨s, t, u, hasAllocated_remoteBoot 7 (by decide) (by decide) halloc hstore, hmap, hfault,
    hhandled, howner, hbyte, hregions, fun hreads => ?_⟩
  obtain ⟨r, hr, hbase, -, -, hrecorded⟩ := hreads.recorded
  have hmem : (r.globalBase, r.ownerId) ∈
      (u.node 1).mem.ctx.regions.map (fun r => (r.globalBase, r.ownerId)) := List.mem_map_of_mem hr
  rw [hregions, hbase, hrecorded] at hmem
  revert hmem
  decide

end Dsm
