import Dsm.Library.Fairness
import Dsm.PageFault.RemoteRecords
import Dsm.PageFault.RemoteMapping

/-!
# Faults are served

A fault for a page that the master can send ends with the return of `dsm_page_fault_handle`: the
request goes through the channel to the master, the page through the channel to the node, the copy is
made byte by byte, and the fault thread finds the record shared and leaves the wait loop. In between all
nodes go on with whatever they do, and other pages are on their way, too.

What is assumed of a run is `RemoteFair`. Sends and calls of `mprotect` succeed and no time-out strikes;
a fault thread goes on as long as it is not in the wait loop of a pending page; messages that have
arrived are taken up, and a copy that has been begun goes on. The master frees nothing, since its
`dsm_page_send` reads the page wherever the record says it is.
-/

namespace Dsm

/-- A step of the fault thread in `dsm_page_fault_handle`. -/
def RemoteNodeAction.byFault : RemoteNodeAction → Bool
  | .check _ | .request _ | .leave | .timeout | .giveUp => true
  | _ => false

/-- A step of `dsm_page_install` after its first `mprotect`. -/
def RemoteNodeAction.byInstall : RemoteNodeAction → Bool
  | .copy _ | .finish _ => true
  | _ => false

/-- The calls of the step succeed, and it is no time-out. -/
def RemoteNodeAction.succeeds : RemoteNodeAction → Bool
  | .check ok | .request ok | .receive _ ok | .finish ok => ok
  | .timeout => false
  | _ => true

/-- The fault thread waits for nothing. -/
def RemoteNode.faultRuns (n : RemoteNode) : Bool :=
  match n.fault with
  | .idle => false
  | .wait addr => decide ((pageLookupLocal n.mem.ctx.pageTable addr).map (·.state) ≠ some .pending)
  | _ => true

structure RemoteFair (cl : Cluster) (r : (remoteMachine cl).idling.Run) : Prop where
  succeeds : ∀ n i a, r.act n = some (i, a) → a.succeeds = true
  fault : ∀ n, ∀ i ∈ cl.nodes, ((r.state n).node i).faultRuns = true →
    ∃ m, n ≤ m ∧ ∃ a, r.act m = some (i, a) ∧ a.byFault = true
  receive : ∀ n, ∀ src ∈ cl.nodes, ∀ i ∈ cl.nodes, (r.state n).channel src i ≠ [] →
    ∃ m, n ≤ m ∧ ∃ ok, r.act m = some (i, .receive src ok)
  install : ∀ n, ∀ i ∈ cl.nodes, ((r.state n).node i).install.isSome = true →
    ∃ m, n ≤ m ∧ ∃ a, r.act m = some (i, a) ∧ a.byInstall = true
  keeps : ∀ n addr, r.act n ≠ some (masterId, .call (.free addr))

/-- Both lookups of node `i` find the same record, of a page in the name of the master, and the master
has the page mapped. -/
structure RemoteState.Obtains (s : RemoteState) (i : NodeId) (addr : Nat) (page : Page) : Prop where
  found : pageLookupLocal (s.node i).mem.ctx.pageTable addr = some page
  first : pageLookup (s.node i).mem.ctx.pageTable page.globalAddr = some page
  owner : page.ownerId = masterId
  held : ∃ held ∈ pageLookup (s.node masterId).mem.ctx.pageTable page.globalAddr, held.localAddr ≠ 0

/-- The page of a fault is the node's own, or the master can send it. -/
def RemoteState.Obtainable (s : RemoteState) (i : NodeId) (addr : Nat) : Prop :=
  ∃ page, pageLookupLocal (s.node i).mem.ctx.pageTable addr = some page ∧
    (page.ownerId = i ∨ s.Obtains i addr page)

/-- The fault of the address has been handled with success, and the record is valid. -/
def RemoteState.Served (s : RemoteState) (i : NodeId) (addr : Nat) (handled : List (Nat × Int)) :
    Prop :=
  (s.node i).handled = handled ++ [(addr, 0)] ∧
    ∃ page, pageLookupLocal (s.node i).mem.ctx.pageTable addr = some page ∧
      (page.state = .shared ∨ page.state = .modified)

/-! ### The steps of the fault thread and of the install -/

theorem pageLookupLocal_pageUpdateLocal {f : Page → Page} (hf : ∀ page, (f page).localAddr = page.localAddr)
    (table : PageTable) (addr : Nat) : pageLookupLocal (pageUpdateLocal table addr f) addr =
      (pageLookupLocal table addr).map f := by
  cases table with
  | none => rfl
  | some pages =>
      simp only [pageUpdateLocal, pageLookupLocal, Option.map_some, Option.bind_some]
      cases hupdate : pages.updateFirst (·.localAddr == pageBase addr) f with
      | none =>
          rw [List.updateFirst_eq_none.mp hupdate]
          exact List.updateFirst_eq_none.mp hupdate
      | some pages' => exact List.find?_updateFirst_self (fun page _ => by rw [hf]) hupdate

/-- The first critical section of `dsm_page_fault_handle`, if `mprotect` succeeds. -/
theorem NodeMem.faultCheck_of_lookup {m : NodeMem} {addr : Nat} {page : Page}
    (hpage : pageLookupLocal m.ctx.pageTable addr = some page) :
    (m.faultCheck addr true = (.ret 0, m) ∧ (page.state = .shared ∨ page.state = .modified)) ∨
      (page.ownerId = m.ctx.localNodeId ∧ m.faultCheck addr true = (.ret 0,
        (m.protect page.localAddr pageSize .readWrite).updatePageLocal addr
          ({ · with state := .modified }))) ∨
      page.ownerId ≠ m.ctx.localNodeId ∧ m.faultCheck addr true = (.fetch page,
        m.updatePageLocal addr ({ · with state := .pending })) := by
  by_cases hown : page.ownerId = m.ctx.localNodeId
  · exact .inr (.inl ⟨hown, by simp [NodeMem.faultCheck, hpage, hown]⟩)
  · by_cases hvalid : page.state = .modified ∨ page.state = .shared
    · exact .inl ⟨by simp [NodeMem.faultCheck, hpage, hown, hvalid], hvalid.symm⟩
    · exact .inr (.inr ⟨hown, by simp [NodeMem.faultCheck, hpage, hown, hvalid]⟩)

theorem NodeMem.shared_markInstalled {m : NodeMem} {g : Nat} (version : Nat) {page : Page}
    (hpage : pageLookup m.ctx.pageTable g = some page) :
    (pageLookup (m.markInstalled g version).ctx.pageTable g).map (·.state) = some .shared := by
  have hlookup := @pageLookup_pageUpdate_self ({ · with state := .shared, version := version })
    (fun _ => rfl) m.ctx.pageTable g g rfl
  rw [hpage] at hlookup
  exact congrArg _ hlookup

namespace RemoteNode

variable {cl : Cluster} {i : NodeId} {n n' : RemoteNode} {incoming : Option PageMessage}
  {a : RemoteNodeAction} {out : Option (NodeId × PageMessage)}

theorem step_fault (h : n.step cl i incoming a = some (n', out)) (ha : a.byFault = false)
    (hpc : n.fault ≠ .idle) : n'.fault = n.fault ∧ n'.handled = n.handled := by
  cases step_effect h with
  | checkRet | checkFetch | request | unsent | leave | timeout | giveUp => cases ha
  | fault =>
      simp only [RemoteNode.step, Option.ite_none_right_eq_some] at h
      exact (hpc h.1).elim
  | openPage =>
      rw [RemoteNode.openPage]
      split
      · exact ⟨rfl, rfl⟩
      · split_ifs
        · exact ⟨rfl, rfl⟩
        · exact ⟨rfl, rfl⟩
        · exact ⟨rfl, rfl⟩
  | _ => exact ⟨rfl, rfl⟩

theorem step_install (h : n.step cl i incoming a = some (n', out)) (ha : a.byInstall = false)
    {c : Copying} (hinstall : n.install = some c) : n'.install = some c := by
  cases step_effect h with
  | copy | finish => cases ha
  | openPage hdata =>
      rw [hdata] at h
      simp [RemoteNode.step, hinstall] at h
  | _ => exact hinstall

theorem step_copy (h : n.step cl i incoming a = some (n', out)) (ha : a.byInstall = true)
    (hok : a.succeeds = true) {c : Copying} (hinstall : n.install = some c) :
    (∃ k, 0 < k ∧ c.copied + k ≤ pageSize ∧ n'.install = some { c with copied := c.copied + k }) ∨
      (pageLookup n'.mem.ctx.pageTable c.copy.globalAddr).map (·.state) = some .shared := by
  cases a with
  | copy k =>
      simp only [RemoteNode.step, hinstall] at h
      split at h
      · rw [Option.ite_none_right_eq_some] at h
        obtain ⟨⟨hpos, hle⟩, heq⟩ := h
        cases heq
        exact .inl ⟨k, hpos, hle, rfl⟩
      · cases h
  | finish protectOk =>
      obtain rfl : protectOk = true := hok
      simp only [RemoteNode.step, hinstall] at h
      split at h
      · rename_i page hpage
        rw [Option.ite_none_right_eq_some] at h
        obtain ⟨-, heq⟩ := h
        cases heq
        have hprotected : pageLookup (n.mem.protect page.localAddr pageSize .read).ctx.pageTable
            c.copy.globalAddr = some page := hpage
        exact .inr (NodeMem.shared_markInstalled c.copy.version hprotected)
      · cases h
  | _ => cases ha

theorem step_request (h : n.step cl i incoming a = some (n', out)) (ha : a.byFault = true)
    (hok : a.succeeds = true) {addr : Nat} (hpc : n.fault = .request addr) {page : Page}
    (hpage : pageLookupLocal n.mem.ctx.pageTable addr = some page) (howner : page.ownerId = masterId)
    (hrole : n.mem.ctx.localRole = .worker) :
    n' = { n with fault := .wait addr } ∧ out = some (masterId, .request page.globalAddr) := by
  cases a with
  | request sendOk =>
      obtain rfl : sendOk = true := hok
      have hroute : cl.faultRoute i n.mem.ctx.localRole (n.mem.faultOwner page) = some masterId := by
        simp [Cluster.faultRoute, NodeMem.faultOwner, hrole, howner]
      simp only [RemoteNode.step, hpc, hpage, hroute, if_true, Option.some.injEq, Prod.mk.injEq] at h
      exact ⟨h.1.symm, h.2.symm⟩
  | check | leave | timeout | giveUp => simp [RemoteNode.step, hpc] at h
  | _ => cases ha

theorem step_leave (h : n.step cl i incoming a = some (n', out)) (ha : a.byFault = true)
    (hok : a.succeeds = true) {addr : Nat} (hpc : n.fault = .wait addr) :
    n' = n.ret n.mem addr 0 ∧
      (pageLookupLocal n.mem.ctx.pageTable addr).map (·.state) ≠ some .pending := by
  cases a with
  | leave =>
      simp only [RemoteNode.step, hpc] at h
      rw [Option.ite_none_left_eq_some] at h
      cases h.2
      exact ⟨rfl, h.1⟩
  | timeout => cases hok
  | check | request | giveUp => simp [RemoteNode.step, hpc] at h
  | _ => cases ha

theorem step_answer {src : NodeId} {g : Nat} {held : Page}
    (h : n.step cl i (some (.request g)) (.receive src true) = some (n', out))
    (hheld : pageLookup n'.mem.ctx.pageTable g = some held) (hlocal : held.localAddr ≠ 0)
    (hreach : cl.tcpReaches i src = true) :
    ∃ copy, copy.globalAddr = g ∧ out = some (src, .data copy) := by
  cases hinstall : n.install with
  | some c => simp [RemoteNode.step, hinstall] at h
  | none =>
      simp only [RemoteNode.step, hinstall] at h
      have hsame : n' = n := by
        split at h
        · split_ifs at h
          · cases h
            rfl
          · cases h
            rfl
        · cases h
          rfl
      subst hsame
      simp only [RemoteNode.pageSend, hheld, hlocal, if_false, hreach, Bool.and_self, if_true,
        Option.some.injEq, Prod.mk.injEq] at h
      exact ⟨_, rfl, h.2.symm⟩

/-- A node takes up a page: it begins to copy it, or the record needs no copy. -/
theorem step_open {src : NodeId} {copy : PageCopy}
    (h : n.step cl i (some (.data copy)) (.receive src true) = some (n', out)) :
    n'.install = some ⟨copy, 0⟩ ∨
      (pageLookup n'.mem.ctx.pageTable copy.globalAddr).map (·.state) = some .shared ∨
      pageLookup n'.mem.ctx.pageTable copy.globalAddr = none := by
  cases hinstall : n.install with
  | some c => simp [RemoteNode.step, hinstall] at h
  | none =>
      simp only [RemoteNode.step, hinstall, Option.some.injEq, Prod.mk.injEq] at h
      obtain ⟨rfl, -⟩ := h
      cases hpage : pageLookup n.mem.ctx.pageTable copy.globalAddr with
      | none => exact .inr (.inr (by simp [RemoteNode.openPage, hpage]))
      | some page =>
          by_cases hlocal : page.localAddr = 0
          · right
            left
            simp only [RemoteNode.openPage, hpage, hlocal, if_true]
            exact NodeMem.shared_markInstalled copy.version hpage
          · exact .inl (by simp [RemoteNode.openPage, hpage, hlocal])

end RemoteNode

/-- A step takes the first message of a channel, or leaves what is in the channel there. -/
theorem RemoteState.channel_step {cl : Cluster} {s t : RemoteState} {b : NodeId × RemoteNodeAction}
    (h : s.step cl b = some t) {j k : NodeId} (hjk : j ≠ k) :
    (∃ new, t.channel j k = s.channel j k ++ new) ∧ (∀ ok, b ≠ (k, .receive j ok)) ∨
      ∃ ok first, b = (k, .receive j ok) ∧ s.channel j k = first :: t.channel j k ∧
        s.incoming k b.2 = some first := by
  obtain ⟨-, n, out, hn, rfl⟩ := RemoteState.step_eq_some h
  by_cases hb : ∃ ok, b = (k, .receive j ok)
  · obtain ⟨ok, rfl⟩ := hb
    right
    cases hchannel : s.channel j k with
    | nil => simp [RemoteNode.step, RemoteState.incoming, hchannel] at hn
    | cons first rest =>
        refine ⟨ok, first, rfl, ?_, by simp [RemoteState.incoming, hchannel]⟩
        have hsent : ((s.stepped k (.receive j ok) n out).channel j k) = rest := by
          simp only [RemoteState.stepped, RemoteState.taken, hchannel, and_self, if_true, hjk,
            false_and, if_false, List.tail_cons]
          cases out <;> simp
        rw [hsent]
  · left
    refine ⟨⟨_, congrArg (· ++ _) ?_⟩, fun ok heq => hb ⟨ok, heq⟩⟩
    obtain ⟨b₁, b₂⟩ := b
    cases b₂ with
    | receive src ok =>
        refine if_neg fun heq => hb ⟨ok, ?_⟩
        rw [heq.1, heq.2]
    | _ => rfl

/-! ### The steps of a run -/

section Run

variable {cl : Cluster} {r : (remoteMachine cl).idling.Run} {i : NodeId}

theorem remoteInv_of_run (r : (remoteMachine cl).idling.Run) (n : ℕ) : RemoteInv cl (r.state n) := by
  refine (Machine.reachable_of_idling (r.reachable n)).invariant (fun s hstart => ?_)
    fun s b t hinv hstep => ?_
  · exact RemoteStart.inv hstart
  · exact RemoteInv.step hinv hstep

theorem node_step (r : (remoteMachine cl).idling.Run) (i : NodeId) (n : ℕ) :
    (∃ a out, r.act n = some (i, a) ∧
        ((r.state n).node i).step cl i ((r.state n).incoming i a) a =
          some ((r.state (n + 1)).node i, out) ∧
        ∀ dst m, out = some (dst, m) → m ∈ (r.state (n + 1)).channel i dst) ∨
      (∀ a, r.act n ≠ some (i, a)) ∧ (r.state (n + 1)).node i = (r.state n).node i := by
  have hstep := r.step n
  cases hact : r.act n with
  | none =>
      rw [hact] at hstep
      have hsame : r.state n = r.state (n + 1) := Option.some.inj hstep
      exact .inr ⟨fun a ha => (by cases ha), by rw [hsame]⟩
  | some b =>
      rw [hact] at hstep
      obtain ⟨-, node, out, hnode, heq⟩ := RemoteState.step_eq_some hstep
      by_cases hb : b.1 = i
      · subst hb
        refine .inl ⟨b.2, out, rfl, ?_, fun dst m hout => ?_⟩
        · rw [hnode, heq, RemoteState.stepped_node_self]
        · rw [heq, hout]
          refine List.mem_append_right _ ?_
          simp
      · refine .inr ⟨fun a ha => ?_, ?_⟩
        · cases ha
          exact hb rfl
        · rw [heq, RemoteState.stepped_node_of_ne (Ne.symm hb)]

theorem grows_step (r : (remoteMachine cl).idling.Run) (i : NodeId) (n : ℕ) :
    ((r.state n).node i).mem.ctx.pageTable.Grows
      (Page.Becomes ((r.state n).node i).fault.Decides)
      ((r.state (n + 1)).node i).mem.ctx.pageTable := by
  rcases node_step r i n with ⟨a, out, -, hstep, -⟩ | ⟨-, hsame⟩
  · exact RemoteNode.step_grows hstep
  · rw [hsame]
    exact .refl Page.Becomes.refl _

theorem obtains_step {addr : Nat} {page : Page} {n : ℕ} (h : (r.state n).Obtains i addr page) :
    ∃ page', (r.state (n + 1)).Obtains i addr page' ∧
      page.Becomes ((r.state n).node i).fault.Decides page' := by
  obtain ⟨page', hfound, hpage'⟩ := (grows_step r i n).lookupLocal (fun _ _ h => h.localAddr) h.found
  obtain ⟨page'', hfirst, hpage''⟩ := (grows_step r i n).lookup (fun _ _ h => h.globalAddr) h.first
  obtain ⟨held, hheld, hlocal⟩ := h.held
  obtain ⟨held', hheld', hbecomes⟩ :=
    (grows_step r masterId n).lookup (fun _ _ h => h.globalAddr) hheld
  obtain rfl := eq_of_lookups hfirst hfound (hpage''.addrs.trans hpage'.addrs.symm)
  refine ⟨page'', ⟨hfound, ?_, hpage'.ownerId.trans h.owner, held', ?_, ?_⟩, hpage'⟩
  · rw [hpage'.globalAddr]
    exact hfirst
  · rw [hpage'.globalAddr]
    exact hheld'
  · rw [hbecomes.localAddr]
    exact hlocal

theorem stable_first (r : (remoteMachine cl).idling.Run) (i : NodeId) (g : Nat) :
    r.Stable fun s => ∃ page, pageLookup (s.node i).mem.ctx.pageTable g = some page := by
  rintro n ⟨page, hpage⟩
  obtain ⟨page', hpage', -⟩ := (grows_step r i n).lookup (fun _ _ h => h.globalAddr) hpage
  exact ⟨page', hpage'⟩

theorem stable_held (r : (remoteMachine cl).idling.Run) (i : NodeId) (g : Nat) :
    r.Stable fun s => ∃ held ∈ pageLookup (s.node i).mem.ctx.pageTable g, held.localAddr ≠ 0 := by
  rintro n ⟨held, hheld, hlocal⟩
  obtain ⟨held', hheld', hbecomes⟩ := (grows_step r i n).lookup (fun _ _ h => h.globalAddr) hheld
  refine ⟨held', hheld', ?_⟩
  rw [hbecomes.localAddr]
  exact hlocal

/-! ### The request and the page on their way -/

theorem channel_run (r : (remoteMachine cl).idling.Run) {j k : NodeId} (hjk : j ≠ k) (n : ℕ) :
    (∃ new, (r.state (n + 1)).channel j k = (r.state n).channel j k ++ new) ∧
        (∀ ok, r.act n ≠ some (k, .receive j ok)) ∨
      ∃ ok first, r.act n = some (k, .receive j ok) ∧
        (r.state n).channel j k = first :: (r.state (n + 1)).channel j k ∧
        (r.state n).incoming k (.receive j ok) = some first := by
  have hstep := r.step n
  cases hact : r.act n with
  | none =>
      rw [hact] at hstep
      have hsame : r.state n = r.state (n + 1) := Option.some.inj hstep
      exact .inl ⟨⟨[], by rw [hsame, List.append_nil]⟩, fun ok hok => by cases hok⟩
  | some b =>
      rw [hact] at hstep
      rcases RemoteState.channel_step hstep hjk with ⟨hnew, hother⟩ | ⟨ok, first, rfl, htake, hin⟩
      · exact .inl ⟨hnew, fun ok hok => hother ok (Option.some.inj hok)⟩
      · exact .inr ⟨ok, first, rfl, htake, hin⟩

theorem leadsTo_taken (hfair : RemoteFair cl r) {j k : NodeId} (hj : j ∈ cl.nodes)
    (hk : k ∈ cl.nodes) (hjk : j ≠ k) (msg : PageMessage) {Q : RemoteState → Prop}
    (h : ∀ n out, ((r.state n).node k).step cl k (some msg) (.receive j true) =
        some ((r.state (n + 1)).node k, out) →
      (∀ dst m, out = some (dst, m) → m ∈ (r.state (n + 1)).channel k dst) → Q (r.state (n + 1))) :
    r.LeadsTo (fun s => msg ∈ s.channel j k) Q := by
  classical
  refine Machine.Run.leadsTo_of_channel (fun s : RemoteState => s.channel j k) msg
    (fun a => ∃ ok, a = some (k, RemoteNodeAction.receive j ok)) (fun n => ?_) (fun n hhead => ?_)
    fun n hchannel => ?_
  · rcases channel_run r hjk n with ⟨hnew, hother⟩ | ⟨ok, first, -, htake, -⟩
    · exact .inl ⟨hnew, fun ⟨ok, hok⟩ => hother ok hok⟩
    · exact .inr ⟨first, htake⟩
  · rcases channel_run r hjk n with ⟨⟨new, hnew⟩, -⟩ | ⟨ok, first, hact, htake, hin⟩
    · -- the channel has become shorter
      have hlen := congrArg List.length hhead
      rw [hnew, List.length_cons, List.length_append] at hlen
      omega
    · obtain rfl : first = msg := (List.cons.inj (htake.symm.trans hhead)).1
      obtain rfl : ok = true := hfair.succeeds n k _ hact
      rcases node_step r k n with ⟨a, out, ha, hstep, hsent⟩ | ⟨hother, -⟩
      · cases hact.symm.trans ha
        rw [hin] at hstep
        exact h n out hstep hsent
      · exact (hother _ hact).elim
  · obtain ⟨m, hnm, ok, hok⟩ := hfair.receive n j hj k hk hchannel
    exact ⟨m, hnm, ok, hok⟩

theorem leadsTo_data (hfair : RemoteFair cl r) (hi : i ∈ cl.workers) (g : Nat) :
    r.LeadsTo (fun s => .request g ∈ s.channel i masterId ∧
        ∃ held ∈ pageLookup (s.node masterId).mem.ctx.pageTable g, held.localAddr ≠ 0)
      (fun s => ∃ copy, copy.globalAddr = g ∧ .data copy ∈ s.channel masterId i) := by
  have hreach : cl.tcpReaches masterId i = true := decide_eq_true ⟨rfl, hi⟩
  have htaken := leadsTo_taken hfair (List.mem_cons_of_mem _ hi) List.mem_cons_self (Cluster.ne_masterId hi)
    (.request g)
    (Q := fun s => (∃ held ∈ pageLookup (s.node masterId).mem.ctx.pageTable g, held.localAddr ≠ 0) →
      ∃ copy, copy.globalAddr = g ∧ .data copy ∈ s.channel masterId i)
    fun n out hstep hsent ⟨held, hheld, hlocal⟩ => by
      obtain ⟨copy, hcopy, rfl⟩ := RemoteNode.step_answer hstep hheld hlocal hreach
      exact ⟨copy, hcopy, hsent _ _ rfl⟩
  rintro n ⟨hrequest, hheld⟩
  obtain ⟨m, hnm, hdata⟩ := htaken n hrequest
  exact ⟨m, hnm, hdata ((stable_held r masterId g).lasts hheld hnm)⟩

/-- The record that node `i` finds by a global address is shared. -/
def RemoteState.SharedAt (s : RemoteState) (i : NodeId) (g : Nat) : Prop :=
  (pageLookup (s.node i).mem.ctx.pageTable g).map (·.state) = some .shared

theorem leadsTo_install (hfair : RemoteFair cl r) (hi : i ∈ cl.workers) (copy : PageCopy) :
    r.LeadsTo (fun s => .data copy ∈ s.channel masterId i ∧
        ∃ page, pageLookup (s.node i).mem.ctx.pageTable copy.globalAddr = some page)
      (fun s => (∃ copied, (s.node i).install = some ⟨copy, copied⟩) ∨
        s.SharedAt i copy.globalAddr) := by
  have htaken := leadsTo_taken hfair List.mem_cons_self (List.mem_cons_of_mem _ hi)
    (Cluster.ne_masterId hi).symm (.data copy)
    (Q := fun s => (∃ page, pageLookup (s.node i).mem.ctx.pageTable copy.globalAddr = some page) →
      (∃ copied, (s.node i).install = some ⟨copy, copied⟩) ∨ s.SharedAt i copy.globalAddr)
    fun n out hstep _ ⟨page, hpage⟩ => by
      rcases RemoteNode.step_open hstep with hopen | hshared | hnone
      · exact .inl ⟨0, hopen⟩
      · exact .inr hshared
      · rw [hnone] at hpage
        cases hpage
  rintro n ⟨hdata, hpage⟩
  obtain ⟨m, hnm, hopened⟩ := htaken n hdata
  exact ⟨m, hnm, hopened ((stable_first r i copy.globalAddr).lasts hpage hnm)⟩

theorem leadsTo_shared (hfair : RemoteFair cl r) (hi : i ∈ cl.nodes) (copy : PageCopy) :
    r.LeadsTo (fun s => ∃ copied, (s.node i).install = some ⟨copy, copied⟩)
      (fun s => s.SharedAt i copy.globalAddr) := by
  refine Machine.Run.LeadsTo.of_measure
    (fun s => pageSize - ((s.node i).install.map Copying.copied).getD 0) fun k => ?_
  refine Machine.Run.leadsTo_of_helpful
    (fun a => ∃ b, a = some (i, b) ∧ b.byInstall = true) (fun n hn hact => ?_) (fun n hn hact => ?_)
    fun n hn => ?_
  · obtain ⟨⟨copied, hinstall⟩, hk⟩ := hn
    have hsame : ((r.state (n + 1)).node i).install = some ⟨copy, copied⟩ := by
      rcases node_step r i n with ⟨a, out, ha, hstep, -⟩ | ⟨-, hnode⟩
      · have hbyInstall : a.byInstall = false := by
          rw [← Bool.not_eq_true]
          exact fun hby => hact ⟨a, ha, hby⟩
        exact RemoteNode.step_install hstep hbyInstall hinstall
      · rw [hnode, hinstall]
    refine ⟨⟨copied, hsame⟩, ?_⟩
    rw [hsame, ← hinstall]
    exact hk
  · obtain ⟨⟨copied, hinstall⟩, hk⟩ := hn
    obtain ⟨b, hb, hby⟩ := hact
    rcases node_step r i n with ⟨a, out, ha, hstep, -⟩ | ⟨hother, -⟩
    · cases hb.symm.trans ha
      rcases RemoteNode.step_copy hstep hby (hfair.succeeds n i _ ha) hinstall with
        ⟨moved, hpos, hle, hnew⟩ | hshared
      · refine .inl ⟨⟨_, hnew⟩, ?_⟩
        rw [hinstall] at hk
        rw [hnew]
        simp only [Option.map_some, Option.getD_some] at hk hle ⊢
        omega
      · exact .inr hshared
    · exact (hother _ hb).elim
  · obtain ⟨⟨copied, hinstall⟩, -⟩ := hn
    obtain ⟨m, hnm, a, ha, hby⟩ := hfair.install n i hi (by rw [hinstall]; rfl)
    exact ⟨m, hnm, a, ha, hby⟩

/-! ### The fault thread -/

/-- The fault thread is at `pc` for the fault of an address whose page node `i` obtains, and whose
global address is `g`; `states` holds of the state of the record. -/
def RemoteState.Fetching (i : NodeId) (addr g : Nat) (handled : List (Nat × Int)) (pc : RemotePc)
    (states : PageState → Prop) (s : RemoteState) : Prop :=
  (s.node i).fault = pc ∧ (s.node i).handled = handled ∧
    ∃ page, s.Obtains i addr page ∧ page.globalAddr = g ∧ states page.state

/-- The states of a record whose page has been asked for. -/
def PageState.Fetched (state : PageState) : Prop := state = .pending ∨ state = .shared

theorem fetching_step {addr g : Nat} {handled : List (Nat × Int)} {pc : RemotePc}
    {states : PageState → Prop} (hshared : states .shared) (hidle : pc ≠ .idle) (hpc : ¬ pc.Decides)
    {n : ℕ} (h : (r.state n).Fetching i addr g handled pc states)
    (hother : ∀ a, r.act n = some (i, a) → a.byFault = false) :
    (r.state (n + 1)).Fetching i addr g handled pc states := by
  obtain ⟨hfault, hhandled, page, hobtains, hglobal, hstate⟩ := h
  obtain ⟨page', hobtains', hbecomes⟩ := obtains_step hobtains
  have hpage' : ∃ page, (r.state (n + 1)).Obtains i addr page ∧ page.globalAddr = g ∧
      states page.state := by
    refine ⟨page', hobtains', hbecomes.globalAddr.trans hglobal, ?_⟩
    rcases hbecomes.2 with hsame | hnow | hdecides
    · rwa [hsame]
    · rwa [hnow]
    · rw [hfault] at hdecides
      exact (hpc hdecides).elim
  rcases node_step r i n with ⟨a, out, ha, hstep, -⟩ | ⟨-, hnode⟩
  · have hsame := RemoteNode.step_fault hstep (hother a ha) (by rwa [hfault])
    exact ⟨hsame.1.trans hfault, hsame.2.trans hhandled, hpage'⟩
  · exact ⟨by rw [hnode, hfault], by rw [hnode, hhandled], hpage'⟩

theorem not_decides_request (addr : Nat) : ¬ (RemotePc.request addr).Decides := by
  rintro (⟨_, h⟩ | ⟨_, h⟩) <;> cases h

theorem not_decides_wait (addr : Nat) : ¬ (RemotePc.wait addr).Decides := by
  rintro (⟨_, h⟩ | ⟨_, h⟩) <;> cases h

theorem leadsTo_requested (hfair : RemoteFair cl r) (hi : i ∈ cl.workers) (addr g : Nat)
    (handled : List (Nat × Int)) :
    r.LeadsTo (RemoteState.Fetching i addr g handled (.request addr) PageState.Fetched)
      (fun s => s.Fetching i addr g handled (.wait addr) PageState.Fetched ∧
        .request g ∈ s.channel i masterId) := by
  refine Machine.Run.leadsTo_of_helpful
    (fun a => ∃ b, a = some (i, b) ∧ b.byFault = true) (fun n hn hact => ?_) (fun n hn hact => ?_)
    fun n hn => ?_
  · refine fetching_step (.inr rfl) (fun h => by cases h) (not_decides_request addr) hn fun a ha => ?_
    rw [← Bool.not_eq_true]
    exact fun hby => hact ⟨a, ha, hby⟩
  · obtain ⟨hfault, hhandled, page, hobtains, hglobal, hstate⟩ := hn
    obtain ⟨b, hb, hby⟩ := hact
    have hrole : ((r.state n).node i).mem.ctx.localRole = .worker := by
      rw [((remoteInv_of_run r n).node i (List.mem_cons_of_mem _ hi)).localRole,
        if_neg (Cluster.ne_masterId hi)]
    obtain ⟨page', hobtains', hbecomes⟩ := obtains_step hobtains
    rcases node_step r i n with ⟨a, out, ha, hstep, hsent⟩ | ⟨hother, -⟩
    · cases hb.symm.trans ha
      obtain ⟨hnode, rfl⟩ := RemoteNode.step_request hstep hby (hfair.succeeds n i _ ha) hfault
        hobtains.found hobtains.owner hrole
      have hfound := hobtains'.found
      rw [hnode] at hfound
      obtain rfl : page = page' := Option.some.inj (hobtains.found.symm.trans hfound)
      refine ⟨⟨by rw [hnode], by rw [hnode, hhandled], page, hobtains', hglobal, hstate⟩, ?_⟩
      rw [← hglobal]
      exact hsent _ _ rfl
    · exact (hother _ hb).elim
  · obtain ⟨m, hnm, a, ha, hby⟩ := hfair.fault n i (List.mem_cons_of_mem _ hi)
      (by rw [RemoteNode.faultRuns, hn.1])
    exact ⟨m, hnm, a, ha, hby⟩

theorem wait_step (hfair : RemoteFair cl r) {addr g : Nat} {handled : List (Nat × Int)}
    {states : PageState → Prop} (hshared : states .shared)
    (hstates : ∀ state, states state → state.Fetched) {n : ℕ}
    (h : (r.state n).Fetching i addr g handled (.wait addr) states) :
    (∀ a, r.act n = some (i, a) → a.byFault = false) ∧
        (r.state (n + 1)).Fetching i addr g handled (.wait addr) states ∨
      (r.state (n + 1)).Served i addr handled := by
  by_cases hact : ∃ a, r.act n = some (i, a) ∧ a.byFault = true
  · obtain ⟨b, hb, hby⟩ := hact
    obtain ⟨hfault, hhandled, page, hobtains, -, hstate⟩ := h
    right
    rcases node_step r i n with ⟨a, out, ha, hstep, -⟩ | ⟨hother, -⟩
    · cases hb.symm.trans ha
      obtain ⟨hnode, hleft⟩ := RemoteNode.step_leave hstep hby (hfair.succeeds n i _ ha) hfault
      rw [hobtains.found] at hleft
      refine ⟨by rw [hnode, ← hhandled]; rfl, page, by rw [hnode]; exact hobtains.found, .inl ?_⟩
      exact (hstates _ hstate).resolve_left fun hpending => hleft (congrArg some hpending)
    · exact (hother _ hb).elim
  · have hother : ∀ a, r.act n = some (i, a) → a.byFault = false := by
      intro a ha
      rw [← Bool.not_eq_true]
      exact fun hby => hact ⟨a, ha, hby⟩
    exact .inl ⟨hother, fetching_step hshared (fun h => by cases h) (not_decides_wait addr) h hother⟩

theorem leadsTo_served (hfair : RemoteFair cl r) (hi : i ∈ cl.nodes) (addr g : Nat)
    (handled : List (Nat × Int)) :
    r.LeadsTo (RemoteState.Fetching i addr g handled (.wait addr) (· = .shared))
      (RemoteState.Served · i addr handled) := by
  have hstates : ∀ state, state = PageState.shared → state.Fetched := fun _ h => .inr h
  refine Machine.Run.leadsTo_of_unless (fun a => ∃ b, a = some (i, b) ∧ b.byFault = true)
    (fun n hn => (wait_step hfair (by rfl) hstates hn).imp_left And.right) (fun n hn hact => ?_)
    fun n hn => ?_
  · obtain ⟨b, hb, hby⟩ := hact
    refine (wait_step hfair (by rfl) hstates hn).resolve_left fun hno => ?_
    rw [hno.1 b hb] at hby
    cases hby
  · obtain ⟨hfault, -, page, hobtains, -, hstate⟩ := hn
    obtain ⟨m, hnm, a, ha, hby⟩ := hfair.fault n i hi (by
      rw [RemoteNode.faultRuns, hfault]
      simp [hobtains.found, hstate])
    exact ⟨m, hnm, a, ha, hby⟩

theorem leadsTo_served_of_wait (hfair : RemoteFair cl r) (hi : i ∈ cl.workers) (addr g : Nat)
    (handled : List (Nat × Int)) :
    r.LeadsTo (fun s => s.Fetching i addr g handled (.wait addr) PageState.Fetched ∧
        .request g ∈ s.channel i masterId) (RemoteState.Served · i addr handled) := by
  have hnode : i ∈ cl.nodes := List.mem_cons_of_mem _ hi
  rintro n ⟨hwait, hrequest⟩
  obtain ⟨page, hobtains, hglobal, -⟩ := hwait.2.2
  have hheld := hobtains.held
  have hfirst := hobtains.first
  rw [hglobal] at hheld hfirst
  obtain ⟨m, hnm, copy, hcopy, hdata⟩ := leadsTo_data hfair hi g n ⟨hrequest, hheld⟩
  have hfirst' := (stable_first r i g).lasts ⟨page, hfirst⟩ hnm
  rw [← hcopy] at hfirst'
  obtain ⟨m', hmm', hinstall⟩ := leadsTo_install hfair hi copy m ⟨hdata, hfirst'⟩
  have hshared : ∃ k, m' ≤ k ∧ (r.state k).SharedAt i g := by
    rw [← hcopy]
    rcases hinstall with hcopied | hshared
    · exact leadsTo_shared hfair hnode copy m' hcopied
    · exact ⟨m', Nat.le_refl _, hshared⟩
  obtain ⟨k, hmk, hshared⟩ := hshared
  have hunless : r.Unless (RemoteState.Fetching i addr g handled (.wait addr) PageState.Fetched)
      (RemoteState.Served · i addr handled) := fun n hn =>
    (wait_step hfair (.inr rfl) (fun _ h => h) hn).imp_left And.right
  rcases hunless.lasts hwait ((hnm.trans hmm').trans hmk) with hstill | ⟨j, hnj, -, hserved⟩
  · obtain ⟨hfault, hhandled, page', hobtains', hglobal', -⟩ := hstill
    have hstate : page'.state = .shared := by
      rw [RemoteState.SharedAt, ← hglobal', hobtains'.first] at hshared
      exact Option.some.inj hshared
    obtain ⟨j, hkj, hserved⟩ := leadsTo_served hfair hnode addr g handled k
      ⟨hfault, hhandled, page', hobtains', hglobal', hstate⟩
    exact ⟨j, ((hnm.trans hmm').trans hmk).trans hkj, hserved⟩
  · exact ⟨j, hnj, hserved⟩

theorem stable_obtainable (r : (remoteMachine cl).idling.Run) (i : NodeId) (addr : Nat) :
    r.Stable (RemoteState.Obtainable · i addr) := by
  rintro n ⟨page, hpage, hown | hobtains⟩
  · obtain ⟨page', hpage', hbecomes⟩ :=
      (grows_step r i n).lookupLocal (fun _ _ h => h.localAddr) hpage
    exact ⟨page', hpage', .inl (hbecomes.ownerId.trans hown)⟩
  · obtain ⟨page', hobtains', -⟩ := obtains_step hobtains
    exact ⟨page', hobtains'.found, .inr hobtains'⟩

theorem check_step (hfair : RemoteFair cl r) (hi : i ∈ cl.nodes) {addr : Nat}
    {handled : List (Nat × Int)} {n : ℕ} (hfault : ((r.state n).node i).fault = .check addr)
    (hhandled : ((r.state n).node i).handled = handled) (h : (r.state n).Obtainable i addr)
    {a : RemoteNodeAction} (ha : r.act n = some (i, a)) (hby : a.byFault = true) :
    (r.state (n + 1)).Served i addr handled ∨ i ∈ cl.workers ∧ ∃ g,
      (r.state (n + 1)).Fetching i addr g handled (.request addr) PageState.Fetched := by
  have hid := ((remoteInv_of_run r n).node i hi).localNodeId
  rcases node_step r i n with ⟨b, out, hb, hstep, -⟩ | ⟨hother, -⟩
  · cases ha.symm.trans hb
    cases a with
    | check protectOk =>
        obtain rfl : protectOk = true := hfair.succeeds n i _ ha
        obtain ⟨addr', hpc, -, hcases⟩ := RemoteNode.step_check hstep
        cases hfault.symm.trans hpc
        obtain ⟨page, hpage, howner⟩ := h
        have hset : ∀ state : PageState, pageLookupLocal (pageUpdateLocal
            ((r.state n).node i).mem.ctx.pageTable addr ({ · with state := state })) addr =
              some { page with state := state } := by
          intro state
          rw [pageLookupLocal_pageUpdateLocal (fun _ => by rfl), hpage]
          rfl
        rcases NodeMem.faultCheck_of_lookup hpage with ⟨heq, hvalid⟩ | ⟨-, heq⟩ | ⟨hnot, heq⟩
        · left
          rcases hcases with ⟨value, mem, hret, hnode⟩ | ⟨page', mem, hfetch, -⟩
          · cases heq.symm.trans hret
            exact ⟨by rw [hnode, ← hhandled]; rfl, page, by rw [hnode]; exact hpage, hvalid⟩
          · cases heq.symm.trans hfetch
        · left
          rcases hcases with ⟨value, mem, hret, hnode⟩ | ⟨page', mem, hfetch, -⟩
          · cases heq.symm.trans hret
            exact ⟨by rw [hnode, ← hhandled]; rfl, _, by rw [hnode]; exact hset .modified, .inr rfl⟩
          · cases heq.symm.trans hfetch
        · -- the page is another node's, so it is the master's
          rw [hid] at hnot
          have hobtains := howner.resolve_left hnot
          have hworker : i ∈ cl.workers := by
            refine (List.mem_cons.mp hi).resolve_left fun hmaster => hnot ?_
            rw [hobtains.owner, hmaster]
          rcases hcases with ⟨value, mem, hret, -⟩ | ⟨page', mem, hfetch, hnode⟩
          · cases heq.symm.trans hret
          · cases heq.symm.trans hfetch
            obtain ⟨page', hobtains', hbecomes⟩ := obtains_step hobtains
            have hfound := hobtains'.found
            rw [hnode] at hfound
            have hpending : page' = { page with state := .pending } :=
              Option.some.inj (hfound.symm.trans (hset .pending))
            refine .inr ⟨hworker, _, by rw [hnode], by rw [hnode, hhandled], page', hobtains', rfl, ?_⟩
            rw [hpending]
            exact .inl rfl
    | request | leave | timeout | giveUp => simp [RemoteNode.step, hfault] at hstep
    | _ => cases hby
  · exact (hother _ ha).elim

theorem leadsTo_served_of_check (hfair : RemoteFair cl r) (hi : i ∈ cl.nodes) (addr : Nat)
    (handled : List (Nat × Int)) :
    r.LeadsTo (fun s => (s.node i).fault = .check addr ∧ (s.node i).handled = handled ∧
        s.Obtainable i addr) (RemoteState.Served · i addr handled) := by
  have hchecked : r.LeadsTo (fun s => (s.node i).fault = .check addr ∧
      (s.node i).handled = handled ∧ s.Obtainable i addr) (fun s => s.Served i addr handled ∨
        i ∈ cl.workers ∧ ∃ g, s.Fetching i addr g handled (.request addr) PageState.Fetched) := by
    refine Machine.Run.leadsTo_of_helpful
      (fun a => ∃ b, a = some (i, b) ∧ b.byFault = true) (fun n hn hact => ?_)
      (fun n ⟨hfault, hhandled, hpage⟩ ⟨b, hb, hby⟩ => check_step hfair hi hfault hhandled hpage hb hby)
      fun n hn => ?_
    · refine and_assoc.mp ⟨?_, stable_obtainable r i addr n hn.2.2⟩
      rcases node_step r i n with ⟨a, out, ha, hstep, -⟩ | ⟨-, hnode⟩
      · have hby : a.byFault = false := by
          rw [← Bool.not_eq_true]
          exact fun hby => hact ⟨a, ha, hby⟩
        have hsame := RemoteNode.step_fault hstep hby (by rw [hn.1]; exact fun h => by cases h)
        exact ⟨hsame.1.trans hn.1, hsame.2.trans hn.2.1⟩
      · rw [hnode]
        exact ⟨hn.1, hn.2.1⟩
    · obtain ⟨m, hnm, a, ha, hby⟩ := hfair.fault n i hi (by rw [RemoteNode.faultRuns, hn.1])
      exact ⟨m, hnm, a, ha, hby⟩
  intro n hn
  obtain ⟨m, hnm, hserved | ⟨hworker, g, hfetching⟩⟩ := hchecked n hn
  · exact ⟨m, hnm, hserved⟩
  · obtain ⟨k, hmk, hrequested⟩ := leadsTo_requested hfair hworker addr g handled m hfetching
    obtain ⟨j, hkj, hserved⟩ := leadsTo_served_of_wait hfair hworker addr g handled k hrequested
    exact ⟨j, (hnm.trans hmk).trans hkj, hserved⟩

/-- Every fault for a page that is the node's own, or that the master can send, is served, whatever the
nodes do in between. -/
theorem faults_served (hfair : RemoteFair cl r) (hi : i ∈ cl.nodes) {addr : Nat} {n : ℕ}
    (hfault : ((r.state n).node i).fault = .check addr) (hpage : (r.state n).Obtainable i addr) :
    ∃ m, n ≤ m ∧ (r.state m).Served i addr ((r.state n).node i).handled :=
  leadsTo_served_of_check hfair hi addr _ n ⟨hfault, rfl, hpage⟩

end Run

/-! ### A run in which a page is fetched -/

/-- A step of node `i` with a property. -/
def stepOf (i : NodeId) (p : RemoteNodeAction → Bool) : Option (NodeId × RemoteNodeAction) → Bool
  | some (j, a) => j == i && p a
  | none => false

theorem exists_of_stepOf {i : NodeId} {p : RemoteNodeAction → Bool}
    {a : Option (NodeId × RemoteNodeAction)} (h : stepOf i p a = true) :
    ∃ b, a = some (i, b) ∧ p b = true := by
  cases a with
  | none => cases h
  | some a =>
      obtain ⟨j, b⟩ := a
      obtain ⟨hj, hb⟩ := Bool.and_eq_true_iff.mp h
      rw [beq_iff_eq] at hj
      exact ⟨b, by rw [hj], hb⟩

/-- The step takes up a message of node `src`. -/
def RemoteNodeAction.takes (src : NodeId) : RemoteNodeAction → Bool
  | .receive j _ => j == src
  | _ => false

/-- The master allocates a page and the worker maps it, faults and fetches it. -/
def mapAndFetch : List (NodeId × RemoteNodeAction) :=
  ownerSteps ++ (2, .call (.mapRemote 0x2000000 4096 (some 0x40000))) :: fetchSteps

theorem exists_mapAndFetch : ∃ r : (remoteMachine oneWorker).idling.Run, RemoteFair oneWorker r ∧
    (∀ n, r.act n = mapAndFetch[n]?) ∧
      ∀ n, (remoteMachine oneWorker).exec remoteBoot (mapAndFetch.take n) = some (r.state n) := by
  let M := (remoteMachine oneWorker).idling
  have hrun : ((remoteMachine oneWorker).exec remoteBoot mapAndFetch).isSome = true := by
    decide +kernel
  obtain ⟨t, ht⟩ := Option.isSome_iff_exists.mp hrun
  have hexec : M.exec remoteBoot (mapAndFetch.map some) = some t := by
    rw [Machine.exec_idling]
    exact ht
  have hstart : M.start remoteBoot := start_remoteBoot
  have hidle : M.step t none = some t := rfl
  let r : M.Run := Machine.Run.ofExec hstart hexec hidle
  have hact : ∀ n, r.act n = mapAndFetch[n]? := by
    intro n
    change (mapAndFetch.map some).getD n none = _
    rw [List.getD_eq_getElem?_getD, List.getElem?_map]
    cases mapAndFetch[n]? <;> rfl
  have hmem : ∀ n b, r.act n = some b → b ∈ mapAndFetch := by
    intro n b hb
    rw [hact] at hb
    exact List.mem_of_getElem? hb
  have hserved : ∀ (waiting : RemoteState → Bool) (i : NodeId) (p : RemoteNodeAction → Bool),
      M.answered waiting (stepOf i p) remoteBoot (mapAndFetch.map some) = true → ∀ n,
        waiting (r.state n) = true → ∃ m, n ≤ m ∧ ∃ b, r.act m = some (i, b) ∧ p b = true := by
    intro waiting i p hanswered n hwaiting
    obtain ⟨m, hnm, hm⟩ := Machine.Run.ofExec_answered hstart hexec hidle hanswered n hwaiting
    exact ⟨m, hnm, exists_of_stepOf hm⟩
  refine ⟨r, ⟨fun n i a ha => ?_, fun n i hi hruns => ?_, fun n src hsrc i hi hchannel => ?_,
    fun n i hi hinstall => ?_, fun n addr ha => ?_⟩, hact, fun n => ?_⟩
  · have hall : ∀ b ∈ mapAndFetch, b.2.succeeds = true := by decide
    exact hall _ (hmem n _ ha)
  · have hanswered : ∀ i ∈ oneWorker.nodes, M.answered (fun s => (s.node i).faultRuns)
        (stepOf i RemoteNodeAction.byFault) remoteBoot (mapAndFetch.map some) = true := by
      decide +kernel
    exact hserved _ i _ (hanswered i hi) n hruns
  · have hanswered : ∀ src ∈ oneWorker.nodes, ∀ i ∈ oneWorker.nodes,
        M.answered (fun s => !(s.channel src i).isEmpty) (stepOf i (RemoteNodeAction.takes src))
          remoteBoot (mapAndFetch.map some) = true := by
      decide +kernel
    obtain ⟨m, hnm, b, hb, htakes⟩ := hserved _ i _ (hanswered src hsrc i hi) n (by
      rw [Bool.not_eq_true', List.isEmpty_eq_false_iff]
      exact hchannel)
    cases b with
    | receive j ok =>
        rw [RemoteNodeAction.takes, beq_iff_eq] at htakes
        exact ⟨m, hnm, ok, by rw [hb, htakes]⟩
    | _ => cases htakes
  · have hanswered : ∀ i ∈ oneWorker.nodes, M.answered (fun s => (s.node i).install.isSome)
        (stepOf i RemoteNodeAction.byInstall) remoteBoot (mapAndFetch.map some) = true := by
      decide +kernel
    exact hserved _ i _ (hanswered i hi) n hinstall
  · have hfree : ∀ b ∈ mapAndFetch, ∀ addr, b ≠ (masterId, .call (.free addr)) := by
      simp [mapAndFetch, ownerSteps, fetchSteps]
    exact hfree _ (hmem n _ ha) addr rfl
  · have hsplit := ht
    rw [← List.take_append_drop n mapAndFetch, Machine.exec_append] at hsplit
    obtain ⟨u, hu, -⟩ := Option.bind_eq_some_iff.mp hsplit
    have hu' : M.exec remoteBoot ((mapAndFetch.map some).take n) = some u := by
      rw [← List.map_take, Machine.exec_idling]
      exact hu
    rw [hu, Machine.Run.ofExec_state hstart hexec hidle hu']

/-- The fault of the worker is served. -/
theorem faults_served_fetch : ∃ r : (remoteMachine oneWorker).idling.Run, RemoteFair oneWorker r ∧
    ∃ m, 4 ≤ m ∧ (r.state m).Served 2 0x40005 [] := by
  obtain ⟨r, hfair, -, hstates⟩ := exists_mapAndFetch
  have hstate : ((remoteMachine oneWorker).exec remoteBoot (mapAndFetch.take 4)).any (fun s =>
      decide ((s.node 2).fault = .check 0x40005) && decide ((s.node 2).handled = []) &&
        (pageLookupLocal (s.node 2).mem.ctx.pageTable 0x40005).any (fun page =>
          decide (pageLookup (s.node 2).mem.ctx.pageTable page.globalAddr = some page) &&
            decide (page.ownerId = masterId) &&
              (pageLookup (s.node masterId).mem.ctx.pageTable page.globalAddr).any
                (fun held => decide (held.localAddr ≠ 0)))) = true := by
    decide +kernel
  rw [hstates 4, Option.any_some, Bool.and_eq_true, Bool.and_eq_true, decide_eq_true_eq,
    decide_eq_true_eq] at hstate
  obtain ⟨⟨hfault, hhandled⟩, hpage⟩ := hstate
  obtain ⟨page, hfound, hpage⟩ := (Option.any_eq_true ..).mp hpage
  rw [Bool.and_eq_true, Bool.and_eq_true, decide_eq_true_eq, decide_eq_true_eq] at hpage
  obtain ⟨⟨hfirst, howner⟩, hheld⟩ := hpage
  obtain ⟨held, hheld, hlocal⟩ := (Option.any_eq_true ..).mp hheld
  have hserved := faults_served hfair (by decide) hfault ⟨page, hfound,
    .inr ⟨hfound, hfirst, howner, held, hheld, of_decide_eq_true hlocal⟩⟩
  rw [hhandled] at hserved
  exact ⟨r, hfair, hserved⟩

end Dsm
