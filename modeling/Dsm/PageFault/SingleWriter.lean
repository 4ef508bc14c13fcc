import Dsm.PageFault.SharingMachine

/-!
# Single writer or many readers

A page is writable on its owner from the moment it is registered, and nothing ever takes that access
away: `dsm_page_send` leaves the owner's record alone, and `dsm_page_invalidate` has no caller. So no
other node can have a readable copy, and the law holds exactly as long as no node installs a fetched
page and no page is registered by two nodes as their own (`singleWriter_iff`).
-/

namespace Dsm

def LocalPage.Writable (p : LocalPage) : Prop := p.state = .modified ∨ p.prot = .readWrite

def LocalPage.Readable (p : LocalPage) : Prop := p.state = .shared ∨ p.state = .modified

/-- A page that is writable on one node is readable on no other. -/
def FetchState.SingleWriter (cl : Cluster) (s : FetchState) : Prop :=
  ∀ i ∈ cl.nodes, ∀ j ∈ cl.nodes, i ≠ j → ∀ addr p q,
    s.pageOn i addr = some p → s.pageOn j addr = some q → p.Writable → ¬ q.Readable

/-- Node `i` has registered the page as its own. -/
def FetchState.Owns (s : FetchState) (i : NodeId) (addr : Nat) : Prop :=
  ∃ p, s.pageOn i addr = some p ∧ p.ownerId = i

/-- The page that an action registers as a node's own. -/
def SharingAction.registers : SharingAction → Option (NodeId × Nat)
  | .fetch (.alloc addr) => some (masterId, addr)
  | .alloc i addr _ => some (i, addr)
  | .mapMaster addr => some (masterId, addr)
  | _ => none

/-- The next `PAGE_DATA` of a worker is for a page that it has registered. -/
def FetchWorker.FindsPage (n : FetchWorker) : Prop :=
  ∃ d ∈ n.replies.head?, n.pages (pageBase d.globalAddr) ≠ none

/-- No page is registered by a second node as its own, and `dsm_page_install` opens no page. -/
def SharingAction.Ok (cl : Cluster) (s : FetchState) (a : SharingAction) : Prop :=
  (∀ i addr, a.registers = some (i, addr) → ∀ j ∈ cl.nodes, j ≠ i → ¬ s.Owns j addr) ∧
    ∀ w, a = .fetch (.worker w (.receive true)) → ¬ (s.worker w).FindsPage

/-! ### What the records look like while no copy is installed -/

/-- A record of a page on node `i`, which owns it. -/
structure LocalPage.OwnedBy (i : NodeId) (p : LocalPage) : Prop where
  owner : p.ownerId = i
  prot : p.prot = .readWrite
  readable : p.Readable

/-- A record of a mapped page that has not been fetched. -/
structure LocalPage.Awaited (p : LocalPage) : Prop where
  owner : p.ownerId = masterId
  prot : p.prot = .none
  state : p.state = .invalid ∨ p.state = .pending

theorem LocalPage.OwnedBy.writable {i : NodeId} {p : LocalPage} (h : p.OwnedBy i) : p.Writable :=
  .inr h.prot

theorem LocalPage.Awaited.not_writable {p : LocalPage} (h : p.Awaited) : ¬ p.Writable := by
  rintro (hstate | hprot)
  · rcases h.state with hinvalid | hpending
    · rw [hstate] at hinvalid
      cases hinvalid
    · rw [hstate] at hpending
      cases hpending
  · rw [h.prot] at hprot
    cases hprot

theorem LocalPage.Awaited.not_readable {p : LocalPage} (h : p.Awaited) : ¬ p.Readable := by
  rintro (hstate | hstate) <;> rcases h.state with hold | hold <;> rw [hstate] at hold <;> cases hold

theorem LocalPage.ownedBy_allocated (i : NodeId) (marked : Bool) :
    (LocalPage.allocated i marked).OwnedBy i := by
  refine ⟨rfl, rfl, ?_⟩
  cases marked with
  | false => exact .inr rfl
  | true => exact .inl rfl

theorem LocalPage.OwnedBy.onFault {i : NodeId} {p : LocalPage} (h : p.OwnedBy i) (mprotectOk : Bool) :
    (p.onFault i mprotectOk).1.OwnedBy i ∧ (p.onFault i mprotectOk).2 = false := by
  have hvalid : p.state = .modified ∨ p.state = .shared := Or.symm h.readable
  cases mprotectOk with
  | false => simpa [LocalPage.onFault, hvalid] using h
  | true =>
      simp only [LocalPage.onFault, hvalid, h.owner, and_self, if_true, and_true]
      exact ⟨rfl, rfl, .inr rfl⟩

theorem LocalPage.Awaited.onFault {w : NodeId} {p : LocalPage} (h : p.Awaited) (hw : w ≠ masterId)
    (mprotectOk : Bool) : (p.onFault w mprotectOk).1.Awaited ∧ (p.onFault w mprotectOk).2 = true := by
  have hvalid : ¬ (p.state = .modified ∨ p.state = .shared) := fun hread =>
    h.not_readable (Or.symm hread)
  have hne : p.ownerId ≠ w := fun heq => hw (heq ▸ h.owner)
  simp only [LocalPage.onFault, if_neg hvalid, if_neg hne, and_true]
  exact ⟨h.owner, h.prot, .inr rfl⟩

/-- The records of worker `w`: its own, and mapped ones that it has not fetched. -/
structure WorkerPages (w : NodeId) (n : FetchWorker) : Prop where
  pages : ∀ addr p, n.pages addr = some p → p.OwnedBy w ∨ p.Awaited
  install : n.install = none
  fault : ∀ addr, n.fault = .request addr ∨ n.fault = .wait addr ∨ n.fault = .giveUp addr →
    ∃ p, n.pages addr = some p ∧ p.Awaited

structure SharingInv (cl : Cluster) (s : FetchState) : Prop where
  master : ∀ addr p, s.master addr = some p → p.OwnedBy masterId
  worker : ∀ w ∈ cl.workers, WorkerPages w (s.worker w)
  unique : ∀ i ∈ cl.nodes, ∀ j ∈ cl.nodes, ∀ addr, s.Owns i addr → s.Owns j addr → i = j
  reply : ∀ w ∈ cl.workers, ∀ d ∈ (s.worker w).replies, s.master (pageBase d.globalAddr) ≠ none

theorem SharingInv.initial (cl : Cluster) : SharingInv cl .initial where
  master := nofun
  worker _ _ := ⟨nofun, rfl, by rintro addr (h | h | h) <;> cases h⟩
  unique := by
    rintro i - j - addr ⟨p, hp, -⟩
    by_cases hi : i = masterId <;> simp [FetchState.pageOn, FetchState.initial, hi,
      FetchWorker.initial] at hp
  reply := nofun

/-! ### One step of a worker -/

section Worker

variable {w : NodeId} {n n' : FetchWorker}

theorem WorkerPages.setPage (h : WorkerPages w n) (addr : Nat) {p : LocalPage}
    (hp : p.OwnedBy w ∨ p.Awaited) (hfault : ∀ q, n.pages addr = some q → q.Awaited → p.Awaited) :
    WorkerPages w (n.setPage addr p) where
  pages a r hr := by
    rcases FetchWorker.setPage_pages_eq_some hr with ⟨-, rfl⟩ | ⟨-, hr⟩
    · exact hp
    · exact h.pages a r hr
  install := h.install
  fault a ha := by
    obtain ⟨q, hq, hawaited⟩ := h.fault a ha
    by_cases haddr : a = addr
    · subst haddr
      exact ⟨p, FetchWorker.setPage_pages_self .., hfault q hq hawaited⟩
    · exact ⟨q, by rw [FetchWorker.setPage_pages_of_ne n p haddr, hq], hawaited⟩

theorem WorkerPages.setFault (h : WorkerPages w n) {fault : FaultPc} (requests : List Nat)
    (replies : List PageData)
    (hfault : ∀ addr, fault = .request addr ∨ fault = .wait addr ∨ fault = .giveUp addr →
      ∃ p, n.pages addr = some p ∧ p.Awaited) :
    WorkerPages w { n with fault := fault, requests := requests, replies := replies } :=
  ⟨h.pages, h.install, hfault⟩

/-- The records that a worker has as its own after a step were its own before it. -/
def OwnsNoMore (w : NodeId) (n n' : FetchWorker) : Prop :=
  ∀ addr p', n'.pages addr = some p' → p'.ownerId = w → ∃ p, n.pages addr = some p ∧ p.ownerId = w

theorem OwnsNoMore.setPage {addr : Nat} {p : LocalPage}
    (hp : p.ownerId = w → ∃ q, n.pages addr = some q ∧ q.ownerId = w) :
    OwnsNoMore w n (n.setPage addr p) := by
  intro a r hr howner
  rcases FetchWorker.setPage_pages_eq_some hr with ⟨rfl, rfl⟩ | ⟨-, hr⟩
  · exact hp howner
  · exact ⟨r, hr, howner⟩

/-- A fault at a page of the worker's own ends in the critical section; another one is sent for. -/
theorem WorkerPages.check (h : WorkerPages w n) (hw : w ≠ masterId) {addr : Nat} {p : LocalPage}
    (hp : n.pages addr = some p) (mprotectOk : Bool) :
    WorkerPages w { n.setPage addr (p.onFault w mprotectOk).1 with
      fault := if (p.onFault w mprotectOk).2 then .request addr else .idle } ∧
    (p.onFault w mprotectOk).1.ownerId = p.ownerId := by
  rcases h.pages addr p hp with howned | hawaited
  · obtain ⟨hkept, hdone⟩ := howned.onFault mprotectOk
    rw [hdone]
    have hset := h.setPage addr (.inl hkept) fun q hq hawaited => by
      obtain rfl := Option.some.inj (hp.symm.trans hq)
      exact (hawaited.not_writable howned.writable).elim
    exact ⟨hset.setFault _ _ (by rintro a (h | h | h) <;> cases h), hkept.owner.trans howned.owner.symm⟩
  · obtain ⟨hkept, hsent⟩ := hawaited.onFault hw mprotectOk
    rw [hsent]
    have hset := h.setPage addr (.inr hkept) fun _ _ _ => hkept
    refine ⟨hset.setFault _ _ ?_, hkept.owner.trans hawaited.owner.symm⟩
    rintro a (ha | ha | ha) <;> cases ha
    exact ⟨_, FetchWorker.setPage_pages_self .., hkept⟩

theorem WorkerPages.step {a : FetchWorkerAction} (h : WorkerPages w n) (hw : w ≠ masterId)
    (hok : a = .receive true → ¬ n.FindsPage) (ha : n.step w a = some n') :
    WorkerPages w n' ∧ OwnsNoMore w n n' ∧ ∀ d ∈ n'.replies, d ∈ n.replies := by
  have hsame : OwnsNoMore w n n := fun _ p hp howner => ⟨p, hp, howner⟩
  have hidle : WorkerPages w { n with fault := .idle } :=
    h.setFault _ _ (by rintro a (h | h | h) <;> cases h)
  cases FetchWorker.step_effect ha with
  | @map addr haligned hnew =>
      have hremote : LocalPage.remote.Awaited := ⟨rfl, rfl, .inl rfl⟩
      exact ⟨h.setPage addr (.inr hremote) fun _ _ _ => hremote,
        OwnsNoMore.setPage fun howner => (hw howner.symm).elim, fun _ hd => hd⟩
  | fault hpc =>
      exact ⟨h.setFault _ _ (by rintro a (h | h | h) <;> cases h), hsame, fun _ hd => hd⟩
  | checkNone | leave | giveUpNone => exact ⟨hidle, hsame, fun _ hd => hd⟩
  | @check addr mprotectOk p hpc hp hfree =>
      obtain ⟨hkept, howner⟩ := h.check hw hp mprotectOk
      exact ⟨hkept, OwnsNoMore.setPage fun heq => ⟨p, hp, howner ▸ heq⟩, fun _ hd => hd⟩
  | @request addr hpc | @unsent addr hpc =>
      refine ⟨h.setFault _ _ ?_, hsame, fun _ hd => hd⟩
      rintro a (ha | ha | ha) <;> cases ha
      exact h.fault addr (.inl hpc)
  | @timeout addr hpc =>
      refine ⟨h.setFault _ _ ?_, hsame, fun _ hd => hd⟩
      rintro a (ha | ha | ha) <;> cases ha
      exact h.fault addr (.inr (.inl hpc))
  | @giveUp addr p hpc hp hfree =>
      obtain ⟨q, hq, hawaited⟩ := h.fault addr (.inr (.inr hpc))
      obtain rfl := Option.some.inj (hp.symm.trans hq)
      have hkept : LocalPage.Awaited { p with state := .invalid } :=
        ⟨hawaited.owner, hawaited.prot, .inl rfl⟩
      have hset := h.setPage addr (.inr hkept) fun _ _ _ => hkept
      exact ⟨hset.setFault _ _ (by rintro a (h | h | h) <;> cases h),
        OwnsNoMore.setPage fun heq => ⟨p, hp, heq⟩, fun _ hd => hd⟩
  | @drop d rest mprotectOk hinstall hreplies hfail =>
      refine ⟨h.setFault _ _ h.fault, hsame, fun d' hd' => ?_⟩
      rw [hreplies]
      exact List.mem_cons_of_mem d hd'
  | @receive d rest p hinstall hreplies hp =>
      refine absurd ⟨d, ?_, ?_⟩ (hok rfl)
      · rw [hreplies]
        rfl
      · rw [hp]
        exact Option.some_ne_none p
  | copy hi | finish hi =>
      rw [h.install] at hi
      cases hi

end Worker

/-! ### One step of the cluster -/

section Steps

variable {cl : Cluster} {s t : FetchState}

theorem SharingInv.kind (h : SharingInv cl s) {i : NodeId} (hi : i ∈ cl.nodes) {addr : Nat}
    {p : LocalPage} (hp : s.pageOn i addr = some p) : p.OwnedBy i ∨ i ≠ masterId ∧ p.Awaited := by
  rcases List.mem_cons.mp hi with rfl | hw
  · rw [FetchState.pageOn_masterId] at hp
    exact .inl (h.master addr p hp)
  · have hne := Cluster.ne_masterId hw
    rw [s.pageOn_of_ne hne] at hp
    exact ((h.worker i hw).pages addr p hp).imp_right fun hawaited => ⟨hne, hawaited⟩

theorem SharingInv.ownedBy (h : SharingInv cl s) {i : NodeId} (hi : i ∈ cl.nodes) {addr : Nat}
    (hown : s.Owns i addr) : ∃ p, s.pageOn i addr = some p ∧ p.OwnedBy i := by
  obtain ⟨p, hp, howner⟩ := hown
  refine ⟨p, hp, (h.kind hi hp).resolve_right ?_⟩
  rintro ⟨hne, hawaited⟩
  exact hne (howner.symm.trans hawaited.owner)

theorem SharingInv.singleWriter (h : SharingInv cl s) : s.SingleWriter cl := by
  intro i hi j hj hne addr p q hp hq hwrite hread
  have howner : p.OwnedBy i :=
    (h.kind hi hp).resolve_right fun hawaited => hawaited.2.not_writable hwrite
  have hreader : q.OwnedBy j :=
    (h.kind hj hq).resolve_right fun hawaited => hawaited.2.not_readable hread
  exact hne (h.unique i hi j hj addr ⟨p, hp, howner.owner⟩ ⟨q, hq, hreader.owner⟩)

/-- A step after which no node has a page as its own that it did not have before. -/
theorem SharingInv.congr (h : SharingInv cl s)
    (hmaster : ∀ addr p, t.master addr = some p → p.OwnedBy masterId)
    (hworker : ∀ w ∈ cl.workers, WorkerPages w (t.worker w))
    (howns : ∀ i ∈ cl.nodes, ∀ addr, t.Owns i addr → s.Owns i addr)
    (hreply : ∀ w ∈ cl.workers, ∀ d ∈ (t.worker w).replies,
      t.master (pageBase d.globalAddr) ≠ none) : SharingInv cl t :=
  ⟨hmaster, hworker, fun i hi j hj addr hown hown' =>
    h.unique i hi j hj addr (howns i hi addr hown) (howns j hj addr hown'), hreply⟩

theorem SharingInv.setWorker (h : SharingInv cl s) {u : NodeId} {n : FetchWorker} (hu : u ∈ cl.workers)
    (hn : WorkerPages u n) (howns : OwnsNoMore u (s.worker u) n)
    (hreply : ∀ d ∈ n.replies, s.master (pageBase d.globalAddr) ≠ none) :
    SharingInv cl (s.setWorker u n) := by
  refine h.congr h.master (fun w hw => ?_) (fun i hi addr hown => ?_) (fun w hw d hd => ?_)
  · by_cases hwu : w = u
    · subst hwu
      rw [FetchState.setWorker_worker_self]
      exact hn
    · rw [FetchState.setWorker_worker_of_ne s n hwu]
      exact h.worker w hw
  · obtain ⟨p, hp, howner⟩ := hown
    by_cases hiu : i = u
    · subst hiu
      rw [FetchState.pageOn_of_ne _ (Cluster.ne_masterId hu), FetchState.setWorker_worker_self] at hp
      obtain ⟨q, hq, hqowner⟩ := howns addr p hp howner
      exact ⟨q, by rw [FetchState.pageOn_of_ne _ (Cluster.ne_masterId hu), hq], hqowner⟩
    · refine ⟨p, ?_, howner⟩
      rw [← hp, FetchState.pageOn, FetchState.pageOn, FetchState.setWorker_worker_of_ne s n hiu]
      rfl
  · by_cases hwu : w = u
    · subst hwu
      rw [FetchState.setWorker_worker_self] at hd
      exact hreply d hd
    · rw [FetchState.setWorker_worker_of_ne s n hwu] at hd
      exact h.reply w hw d hd

theorem SharingInv.setPageOn (h : SharingInv cl s) {i : NodeId} {addr : Nat} {p : LocalPage}
    (hi : i ∈ cl.nodes) (hp : p.OwnedBy i)
    (hnotAwaited : ∀ q, s.pageOn i addr = some q → ¬ q.Awaited)
    (halone : ∀ j ∈ cl.nodes, j ≠ i → ¬ s.Owns j addr) : SharingInv cl (s.setPageOn i addr p) := by
  have howns : ∀ j a, (s.setPageOn i addr p).Owns j a → j = i ∧ a = addr ∨ s.Owns j a := by
    rintro j a ⟨q, hq, howner⟩
    by_cases hja : j = i ∧ a = addr
    · exact .inl hja
    · rw [s.setPageOn_pageOn_of_ne p (not_and_or.mp hja)] at hq
      exact .inr ⟨q, hq, howner⟩
  have hunique : ∀ j ∈ cl.nodes, ∀ k ∈ cl.nodes, ∀ a, (s.setPageOn i addr p).Owns j a →
      (s.setPageOn i addr p).Owns k a → j = k := by
    intro j hj k hk a hown hown'
    rcases howns j a hown with ⟨rfl, rfl⟩ | hold
    · by_contra hne
      rcases howns k a hown' with ⟨heq, -⟩ | hold'
      · exact hne heq.symm
      · exact halone k hk (Ne.symm hne) hold'
    · rcases howns k a hown' with ⟨rfl, rfl⟩ | hold'
      · by_contra hne
        exact halone j hj hne hold
      · exact h.unique j hj k hk a hold hold'
  by_cases him : i = masterId
  · subst him
    have hset : s.setPageOn masterId addr p =
        { s with master := Function.update s.master addr (some p) } := if_pos rfl
    rw [hset] at hunique ⊢
    refine ⟨fun a q hq => ?_, h.worker, hunique, fun w hw d hd => ?_⟩
    · by_cases ha : a = addr
      · subst ha
        simp only [Function.update_self] at hq
        exact Option.some.inj hq ▸ hp
      · simp only [Function.update_of_ne ha] at hq
        exact h.master a q hq
    · by_cases ha : pageBase d.globalAddr = addr
      · simp [ha]
      · simp only [Function.update_of_ne ha]
        exact h.reply w hw d hd
  · have hset : s.setPageOn i addr p = s.setWorker i ((s.worker i).setPage addr p) := if_neg him
    have hworker : i ∈ cl.workers := (List.mem_cons.mp hi).resolve_left him
    rw [hset] at hunique ⊢
    have hn : WorkerPages i ((s.worker i).setPage addr p) :=
      (h.worker i hworker).setPage addr (.inl hp) fun q hq hawaited =>
        (hnotAwaited q (by rw [s.pageOn_of_ne him, hq]) hawaited).elim
    refine ⟨h.master, fun w hw => ?_, hunique, fun w hw d hd => ?_⟩
    · by_cases hwi : w = i
      · subst hwi
        rw [FetchState.setWorker_worker_self]
        exact hn
      · rw [FetchState.setWorker_worker_of_ne s _ hwi]
        exact h.worker w hw
    · by_cases hwi : w = i
      · subst hwi
        rw [FetchState.setWorker_worker_self] at hd
        exact h.reply w hw d hd
      · rw [FetchState.setWorker_worker_of_ne s _ hwi] at hd
        exact h.reply w hw d hd

theorem SharingInv.replace (h : SharingInv cl s) {i : NodeId} {addr : Nat} {p q : LocalPage}
    (hi : i ∈ cl.nodes) (hp : s.pageOn i addr = some p) (hold : p.OwnedBy i) (hq : q.OwnedBy i) :
    SharingInv cl (s.setPageOn i addr q) := by
  refine h.setPageOn hi hq (fun r hr hawaited => ?_) fun j hj hne hown => ?_
  · obtain rfl := Option.some.inj (hp.symm.trans hr)
    exact hawaited.not_writable hold.writable
  · exact hne (h.unique j hj i hi addr hown ⟨p, hp, hold.owner⟩)

theorem SharingInv.register (h : SharingInv cl s) {a : SharingAction} {i : NodeId} {addr : Nat}
    (hok : a.Ok cl s) (ha : a.registers = some (i, addr)) (hi : i ∈ cl.nodes) (marked : Bool)
    (hnew : s.pageOn i addr = none) : SharingInv cl (s.setPageOn i addr (.allocated i marked)) := by
  refine h.setPageOn hi (LocalPage.ownedBy_allocated i marked) ?_ (hok.1 i addr ha)
  intro q hq
  rw [hnew] at hq
  cases hq

theorem SharingInv.fetchStep (h : SharingInv cl s) {a : FetchAction}
    (hok : SharingAction.Ok cl s (.fetch a)) (ha : s.step cl a = some t) : SharingInv cl t := by
  cases FetchState.step_effect ha with
  | @alloc addr haligned hnew =>
      exact h.register hok rfl List.mem_cons_self true ((s.pageOn_masterId addr).trans hnew)
  | @write addr bytes p hp =>
      have hold := h.master addr p hp
      have hpage : s.pageOn masterId addr = some p := by rw [FetchState.pageOn_masterId, hp]
      exact h.replace List.mem_cons_self hpage hold ⟨hold.owner, hold.prot, hold.readable⟩
  | @unserved w addr rest hw hrequests hp =>
      have hworker := h.worker w hw
      exact h.setWorker hw (hworker.setFault _ _ hworker.fault)
        (fun _ p hp howner => ⟨p, hp, howner⟩) (h.reply w hw)
  | @serve w addr rest p hw hrequests hp =>
      have hworker := h.worker w hw
      refine h.setWorker hw ⟨hworker.pages, hworker.install, hworker.fault⟩
        (fun _ p hp howner => ⟨p, hp, howner⟩) ?_
      intro d hd
      rcases List.mem_append.mp hd with hd | hd
      · exact h.reply w hw d hd
      · rw [List.mem_singleton.mp hd, hp]
        exact Option.some_ne_none p
  | @worker w a n hw hstep =>
      obtain ⟨hn, howns, hreplies⟩ := (h.worker w hw).step (Cluster.ne_masterId hw)
        (fun heq => hok.2 w (by rw [heq])) hstep
      exact h.setWorker hw hn howns fun d hd => h.reply w hw d (hreplies d hd)

theorem SharingInv.step {a : SharingAction} (h : SharingInv cl s) (hok : a.Ok cl s)
    (ha : s.sharingStep cl a = some t) : SharingInv cl t := by
  cases a with
  | fetch a => exact h.fetchStep hok ha
  | alloc i addr marked =>
      simp only [FetchState.sharingStep, Option.ite_none_right_eq_some, Option.some.injEq] at ha
      obtain ⟨⟨hi, -, hnew⟩, rfl⟩ := ha
      exact h.register hok rfl hi marked (Option.isNone_iff_eq_none.mp hnew)
  | mapMaster addr =>
      simp only [FetchState.sharingStep, Option.ite_none_right_eq_some, Option.some.injEq] at ha
      obtain ⟨⟨-, hnew⟩, rfl⟩ := ha
      exact h.register hok rfl List.mem_cons_self false (Option.isNone_iff_eq_none.mp hnew)
  | faultMaster addr mprotectOk =>
      simp only [FetchState.sharingStep] at ha
      split at ha
      · cases ha
      · rename_i p hp
        obtain rfl := Option.some.inj ha
        have hold := h.master (pageBase addr) p (by rw [← hp, FetchState.pageOn_masterId])
        exact h.replace List.mem_cons_self hp hold (hold.onFault mprotectOk).1
  | writeWorker w addr bytes =>
      simp only [FetchState.sharingStep] at ha
      split at ha
      · cases ha
      · rename_i p hp
        rw [Option.ite_none_right_eq_some] at ha
        obtain ⟨⟨hw, howner, hprot⟩, ha⟩ := ha
        obtain rfl := Option.some.inj ha
        have hpage : s.pageOn w addr = some p := by rw [s.pageOn_of_ne (Cluster.ne_masterId hw), hp]
        have hold : p.OwnedBy w := ((h.worker w hw).pages addr p hp).resolve_right fun hawaited =>
          hawaited.not_writable (.inr hprot)
        exact h.replace (List.mem_cons_of_mem _ hw) hpage hold ⟨howner, hprot, hold.readable⟩

theorem SharingAction.registers_step {a : SharingAction} {i : NodeId} {addr : Nat}
    (ha : a.registers = some (i, addr)) (hstep : s.sharingStep cl a = some t) :
    i ∈ cl.nodes ∧ ∃ marked, t = s.setPageOn i addr (.allocated i marked) := by
  cases a with
  | fetch a =>
      cases a with
      | alloc addr' =>
          cases ha
          simp only [FetchState.sharingStep, FetchState.step, Option.ite_none_right_eq_some,
            Option.some.injEq] at hstep
          exact ⟨List.mem_cons_self, true, hstep.2.symm⟩
      | write | serve | worker => cases ha
  | alloc i' addr' marked =>
      cases ha
      simp only [FetchState.sharingStep, Option.ite_none_right_eq_some, Option.some.injEq] at hstep
      exact ⟨hstep.1.1, marked, hstep.2.symm⟩
  | mapMaster addr' =>
      cases ha
      simp only [FetchState.sharingStep, Option.ite_none_right_eq_some, Option.some.injEq] at hstep
      exact ⟨List.mem_cons_self, false, hstep.2.symm⟩
  | faultMaster | writeWorker => cases ha

theorem FetchWorker.receive_of_findsPage {w : NodeId} {n n' : FetchWorker} (h : n.FindsPage)
    (ha : n.step w (.receive true) = some n') :
    ∃ d ∈ n.replies, ∃ p, n'.pages (pageBase d.globalAddr) = some p ∧ p.prot = .readWrite := by
  obtain ⟨d, hhead, hfound⟩ := h
  obtain ⟨rest, hreplies⟩ := List.head?_eq_some_iff.mp hhead
  cases FetchWorker.step_effect ha with
  | @drop d' rest' mprotectOk hinstall hqueue hfail =>
      obtain ⟨rfl, rfl⟩ := List.cons.inj (hreplies.symm.trans hqueue)
      rcases hfail with hnone | hclosed
      · exact absurd hnone hfound
      · cases hclosed
  | @receive d' rest' p hinstall hqueue hp =>
      exact ⟨d', by rw [hqueue]; exact List.mem_cons_self, _, FetchWorker.setPage_pages_self .., rfl⟩

theorem SharingInv.not_singleWriter {a : SharingAction} (h : SharingInv cl s) (hnot : ¬ a.Ok cl s)
    (ha : s.sharingStep cl a = some t) : ¬ t.SingleWriter cl := by
  intro hsingle
  rcases not_and_or.mp hnot with hregister | hinstall
  · push Not at hregister
    obtain ⟨i, addr, hreg, j, hj, hne, hown⟩ := hregister
    obtain ⟨hi, marked, rfl⟩ := SharingAction.registers_step hreg ha
    obtain ⟨q, hq, hqowned⟩ := h.ownedBy hj hown
    refine hsingle i hi j hj hne.symm addr _ q (s.setPageOn_pageOn_self i addr _) ?_
      (LocalPage.ownedBy_allocated i marked).writable hqowned.readable
    rw [s.setPageOn_pageOn_of_ne _ (.inl hne), hq]
  · push Not at hinstall
    obtain ⟨w, rfl, hfinds⟩ := hinstall
    obtain ⟨hw, n, hstep, rfl⟩ := FetchState.worker_step_eq_some ha
    obtain ⟨d, hd, p, hp, hprot⟩ := FetchWorker.receive_of_findsPage hfinds hstep
    obtain ⟨q, hq⟩ := Option.ne_none_iff_exists'.mp (h.reply w hw d hd)
    have hne := Cluster.ne_masterId hw
    refine hsingle w (List.mem_cons_of_mem _ hw) masterId List.mem_cons_self hne
      (pageBase d.globalAddr) p q ?_ ?_ (.inr hprot) (h.master _ q hq).readable
    · rw [FetchState.pageOn_of_ne _ hne, FetchState.setWorker_worker_self, hp]
    · rw [FetchState.pageOn_masterId]
      exact hq

end Steps

/-- In every state of a run a page that is writable on one node is readable on no other, exactly when
no step of the run registers a page that another node has registered as its own, and none installs a
fetched page. -/
theorem singleWriter_iff {cl : Cluster} {t : FetchState} {as : List SharingAction}
    (hexec : (sharingMachine cl).exec .initial as = some t) :
    (sharingMachine cl).Always (FetchState.SingleWriter cl) .initial as ↔
      (sharingMachine cl).EachStep (fun s a => a.Ok cl s) .initial as :=
  Machine.always_iff_eachStep (fun _ (h : SharingInv cl _) => h.singleWriter)
    (fun _ _ _ h hok ha => h.step hok ha) (fun _ _ _ h hnot ha => h.not_singleWriter hnot ha)
    (.initial cl) hexec

/-- The master allocates a page, and worker 2 maps it, reads it and gets it. -/
private def sharedPageRun : List SharingAction :=
  [.alloc masterId 0x2000000 true, .fetch (.worker 2 (.map 0x2000000)),
    .fetch (.worker 2 (.fault 0x2000000)), .fetch (.worker 2 (.check true)),
    .fetch (.worker 2 (.request true)), .fetch (.serve 2), .fetch (.worker 2 (.receive true)),
    .fetch (.worker 2 (.copy 4096)), .fetch (.worker 2 (.finish true))]

/-- As long as the answer has not arrived, the master is the only node with access. -/
theorem singleWriter_iff_before_answer : ∃ t,
    (sharingMachine oneWorker).exec .initial (sharedPageRun.take 6) = some t ∧
      t.SingleWriter oneWorker := by
  have hok : (sharingMachine oneWorker).EachStep (fun s a => a.Ok oneWorker s) .initial
      (sharedPageRun.take 6) := by
    have hnone : ∀ (a : SharingAction) (s : FetchState), a.registers = none →
        (∀ w, a ≠ .fetch (.worker w (.receive true))) → a.Ok oneWorker s := by
      intro a s hreg hrec
      refine ⟨fun i addr hsome => ?_, fun w heq => (hrec w heq).elim⟩
      rw [hreg] at hsome
      cases hsome
    refine (Machine.eachStep_cons rfl).mpr ⟨⟨?_, nofun⟩, ?_⟩
    · rintro i addr ⟨⟩ j - hne ⟨p, hp, -⟩
      rw [FetchState.pageOn_of_ne _ hne] at hp
      cases hp
    · refine (Machine.eachStep_cons rfl).mpr ⟨hnone _ _ rfl nofun, ?_⟩
      refine (Machine.eachStep_cons rfl).mpr ⟨hnone _ _ rfl nofun, ?_⟩
      refine (Machine.eachStep_cons rfl).mpr ⟨hnone _ _ rfl nofun, ?_⟩
      refine (Machine.eachStep_cons rfl).mpr ⟨hnone _ _ rfl nofun, ?_⟩
      exact (Machine.eachStep_cons rfl).mpr ⟨hnone _ _ rfl nofun, Machine.eachStep_nil⟩
  exact ⟨_, rfl, ((singleWriter_iff rfl).mpr hok).last rfl⟩

/-- After the fetch the page is writable on the master and readable on the worker. -/
theorem not_singleWriter_after_fetch : ∃ t,
    (sharingMachine oneWorker).exec .initial sharedPageRun = some t ∧
      ¬ t.SingleWriter oneWorker := by
  have hrun : ∃ t p q, (sharingMachine oneWorker).exec .initial sharedPageRun = some t ∧
      t.pageOn masterId 0x2000000 = some p ∧ t.pageOn 2 0x2000000 = some q ∧
      p.prot = .readWrite ∧ q.state = .shared := ⟨_, _, _, rfl, rfl, rfl, rfl, rfl⟩
  obtain ⟨t, p, q, hexec, hp, hq, hprot, hshared⟩ := hrun
  refine ⟨t, hexec, fun hsingle => ?_⟩
  exact hsingle masterId (by decide) 2 (by decide) (by decide) 0x2000000 p q hp hq (.inr hprot)
    (.inl hshared)

end Dsm
