import Dsm.PageFault.FetchMachine

/-!
# What a fetched copy contains

The answers of the master to a worker for one page are numbered in the order of the copies that
`dsm_page_send` makes. Answers are not matched to requests, and after a time-out there may be several
on their way, but they travel on one channel in that order. So the moments of the completed installs,
of the install in progress and of the answers in flight form an increasing sequence, and the content
of a page is that of its last completed install wherever no copy is partway.

The lock of a record is what makes this a property of the record and not of every instant: while
`dsm_page_install` copies a second answer over the first one, the record still says
`DSM_PAGE_SHARED` and the page has bytes of both.
-/

namespace Dsm

namespace FetchWorker

/-- The message carries the content of its page at its moment. -/
def Genuine (n : FetchWorker) (d : PageData) : Prop :=
  d.size = pageSize ∧ (n.served (pageBase d.globalAddr))[d.moment]? = some d.data

/-- The copy of `dsm_page_install` into the page is partway. -/
def Copying (n : FetchWorker) (addr : Nat) : Prop :=
  ∃ i, n.install = some i ∧ i.addr = addr ∧ 0 < i.copied ∧ i.copied < i.msg.size

/-- The moment of the install in progress, until its copy is complete. -/
def current (n : FetchWorker) (addr : Nat) : List Nat :=
  match n.install with
  | some i => if i.addr = addr ∧ i.copied < i.msg.size then [i.msg.moment] else []
  | none => []

/-- The moments of the answers in flight. -/
def inFlight (n : FetchWorker) (addr : Nat) : List Nat :=
  (n.replies.filter fun d => pageBase d.globalAddr = addr).map (·.moment)

end FetchWorker

structure FetchInv (n : FetchWorker) : Prop where
  owner : ∀ addr p, n.pages addr = some p → p.ownerId = masterId
  reply : ∀ d ∈ n.replies, n.Genuine d
  install : ∀ i, n.install = some i → n.Genuine i.msg ∧ ∃ p, n.pages i.addr = some p ∧
    ∀ j, j.val < i.copied → p.bytes j = i.msg.data j
  complete : ∀ i, n.install = some i → i.copied = i.msg.size →
    (n.installed i.addr).getLast? = some i.msg.moment
  order : ∀ addr, (n.installed addr ++ (n.current addr ++ n.inFlight addr)).Pairwise (· < ·)
  past : ∀ addr, ∀ k ∈ n.installed addr, k < (n.served addr).length
  mapped : ∀ addr, n.pages addr = none → n.installed addr = []
  content : ∀ addr p k, n.pages addr = some p → ¬ n.Copying addr →
    (n.installed addr).getLast? = some k → (n.served addr)[k]? = some p.bytes
  shared : ∀ addr p, n.pages addr = some p → p.state = .shared → n.installed addr ≠ []
  readable : ∀ addr p, n.pages addr = some p → p.prot ≠ .none → n.locked addr = false →
    n.installed addr ≠ []

theorem FetchInv.initial : FetchInv .initial where
  owner := nofun
  reply := nofun
  install := nofun
  complete := nofun
  order _ := .nil
  past := nofun
  mapped _ _ := rfl
  content := nofun
  shared := nofun
  readable := nofun

section Steps

variable {n : FetchWorker}

/-! ### The fault thread -/

theorem FetchInv.setFault (h : FetchInv n) (fault : FaultPc) (requests : List Nat) :
    FetchInv { n with fault := fault, requests := requests } :=
  ⟨h.owner, h.reply, h.install, h.complete, h.order, h.past, h.mapped, h.content, h.shared, h.readable⟩

/-- A new record with the content of the old one, which no thread gains access by. -/
theorem FetchInv.repage (h : FetchInv n) {addr : Nat} {p q : LocalPage} (hp : n.pages addr = some p)
    (howner : q.ownerId = p.ownerId) (hbytes : q.bytes = p.bytes)
    (hshared : q.state = .shared → p.state = .shared) (hprot : q.prot = p.prot) :
    FetchInv (n.setPage addr q) := by
  refine ⟨?_, h.reply, ?_, h.complete, h.order, h.past, ?_, ?_, ?_, ?_⟩
  · intro a r hr
    rcases FetchWorker.setPage_pages_eq_some hr with ⟨rfl, rfl⟩ | ⟨-, hr⟩
    · exact howner.trans (h.owner a p hp)
    · exact h.owner a r hr
  · intro i hi
    obtain ⟨hgenuine, r, hr, hcopied⟩ := h.install i hi
    refine ⟨hgenuine, ?_⟩
    by_cases ha : i.addr = addr
    · refine ⟨q, by rw [ha, FetchWorker.setPage_pages_self], ?_⟩
      rw [ha, hp] at hr
      obtain rfl := Option.some.inj hr
      rw [hbytes]
      exact hcopied
    · exact ⟨r, by rw [FetchWorker.setPage_pages_of_ne n q ha, hr], hcopied⟩
  · intro a ha
    exact h.mapped a (FetchWorker.setPage_pages_eq_none ha)
  · intro a r k hr hcopying hlast
    rcases FetchWorker.setPage_pages_eq_some hr with ⟨rfl, rfl⟩ | ⟨-, hr⟩
    · rw [hbytes]
      exact h.content a p k hp hcopying hlast
    · exact h.content a r k hr hcopying hlast
  · intro a r hr hstate
    rcases FetchWorker.setPage_pages_eq_some hr with ⟨rfl, rfl⟩ | ⟨-, hr⟩
    · exact h.shared a p hp (hshared hstate)
    · exact h.shared a r hr hstate
  · intro a r hr hreadable hlock
    rcases FetchWorker.setPage_pages_eq_some hr with ⟨rfl, rfl⟩ | ⟨-, hr⟩
    · exact h.readable a p hp (hprot ▸ hreadable) hlock
    · exact h.readable a r hr hreadable hlock

theorem FetchInv.map (h : FetchInv n) {addr : Nat} (hnew : n.pages addr = none) :
    FetchInv (n.setPage addr .remote) := by
  have hinstalled : n.installed addr = [] := h.mapped addr hnew
  refine ⟨?_, h.reply, ?_, h.complete, h.order, h.past, ?_, ?_, ?_, ?_⟩
  · intro a r hr
    rcases FetchWorker.setPage_pages_eq_some hr with ⟨rfl, rfl⟩ | ⟨-, hr⟩
    · rfl
    · exact h.owner a r hr
  · intro i hi
    obtain ⟨hgenuine, r, hr, hcopied⟩ := h.install i hi
    have hne : i.addr ≠ addr := by
      intro heq
      rw [heq, hnew] at hr
      cases hr
    exact ⟨hgenuine, r, by rw [FetchWorker.setPage_pages_of_ne n _ hne, hr], hcopied⟩
  · intro a ha
    exact h.mapped a (FetchWorker.setPage_pages_eq_none ha)
  · intro a r k hr hcopying hlast
    rcases FetchWorker.setPage_pages_eq_some hr with ⟨rfl, rfl⟩ | ⟨-, hr⟩
    · change (n.installed a).getLast? = some k at hlast
      rw [hinstalled] at hlast
      cases hlast
    · exact h.content a r k hr hcopying hlast
  · intro a r hr hstate
    rcases FetchWorker.setPage_pages_eq_some hr with ⟨rfl, rfl⟩ | ⟨-, hr⟩
    · cases hstate
    · exact h.shared a r hr hstate
  · intro a r hr hreadable hlock
    rcases FetchWorker.setPage_pages_eq_some hr with ⟨rfl, rfl⟩ | ⟨-, hr⟩
    · exact absurd rfl hreadable
    · exact h.readable a r hr hreadable hlock

/-- The critical section of a fault on a worker, which does not own the page. -/
theorem LocalPage.onFault_worker {w : NodeId} {p : LocalPage} (hp : p.ownerId = masterId)
    (hw : w ≠ masterId) (mprotectOk : Bool) :
    (p.onFault w mprotectOk).1.ownerId = p.ownerId ∧ (p.onFault w mprotectOk).1.bytes = p.bytes ∧
      ((p.onFault w mprotectOk).1.state = .shared → p.state = .shared) ∧
      (p.onFault w mprotectOk).1.prot = p.prot := by
  have hne : p.ownerId ≠ w := fun heq => hw (heq ▸ hp)
  by_cases hvalid : p.state = .modified ∨ p.state = .shared
  · simp [LocalPage.onFault, hvalid, hne]
  · simp [LocalPage.onFault, hvalid, hne]

/-! ### The install -/

theorem current_of_install {i : Install} (hi : n.install = some i) (addr : Nat) :
    n.current addr = if i.addr = addr ∧ i.copied < i.msg.size then [i.msg.moment] else [] := by
  rw [FetchWorker.current, hi]

theorem locked_of_install {i : Install} (hi : n.install = some i) (addr : Nat) :
    n.locked addr = (i.addr == addr) := by
  rw [FetchWorker.locked, hi]

theorem FetchInv.drop (h : FetchInv n) {d : PageData} {rest : List PageData}
    (hreplies : n.replies = d :: rest) : FetchInv { n with replies := rest } where
  owner := h.owner
  reply d' hd := h.reply d' (by rw [hreplies]; exact List.mem_cons_of_mem d hd)
  install := h.install
  complete := h.complete
  order addr := by
    refine (h.order addr).sublist (List.Sublist.append_left (List.Sublist.append_left ?_ _) _)
    rw [FetchWorker.inFlight, FetchWorker.inFlight, hreplies]
    exact ((List.sublist_cons_self d rest).filter _).map _
  past := h.past
  mapped := h.mapped
  content := h.content
  shared := h.shared
  readable := h.readable

theorem FetchInv.receive (h : FetchInv n) {d : PageData} {rest : List PageData} {p : LocalPage}
    (hinstall : n.install = none) (hreplies : n.replies = d :: rest)
    (hp : n.pages (pageBase d.globalAddr) = some p) :
    FetchInv { n.setPage (pageBase d.globalAddr) { p with prot := .readWrite } with
      replies := rest, install := some { msg := d, copied := 0 } } := by
  have hd : n.Genuine d := h.reply d (by rw [hreplies]; exact List.mem_cons_self)
  have hnotCopying : ∀ a, ¬ n.Copying a := by
    rintro a ⟨i, hi, -⟩
    rw [hinstall] at hi
    cases hi
  refine ⟨?_, ?_, ?_, ?_, ?_, h.past, ?_, ?_, ?_, ?_⟩
  · intro a r hr
    rcases FetchWorker.setPage_pages_eq_some hr with ⟨rfl, rfl⟩ | ⟨-, hr⟩
    · exact h.owner _ p hp
    · exact h.owner a r hr
  · intro d' hd'
    exact h.reply d' (by rw [hreplies]; exact List.mem_cons_of_mem d hd')
  · rintro _ ⟨⟩
    exact ⟨hd, _, FetchWorker.setPage_pages_self .., fun j hj => absurd hj (Nat.not_lt_zero _)⟩
  · rintro _ ⟨⟩ hcopied
    rw [hd.1] at hcopied
    cases hcopied
  · -- the head of the channel becomes the install in progress
    intro a
    have hbefore := h.order a
    have hcurrent : n.current a = [] := by rw [FetchWorker.current, hinstall]
    rw [hcurrent, List.nil_append, FetchWorker.inFlight, hreplies] at hbefore
    rw [current_of_install rfl]
    by_cases ha : pageBase d.globalAddr = a
    · have hpos : 0 < d.size := by rw [hd.1]; decide
      rw [if_pos ⟨ha, hpos⟩]
      rw [List.filter_cons_of_pos (by simpa using ha)] at hbefore
      exact hbefore
    · rw [if_neg fun hboth => ha hboth.1]
      rw [List.filter_cons_of_neg (by simpa using ha)] at hbefore
      exact hbefore
  · intro a ha
    exact h.mapped a (FetchWorker.setPage_pages_eq_none ha)
  · intro a r k hr _ hlast
    rcases FetchWorker.setPage_pages_eq_some hr with ⟨rfl, rfl⟩ | ⟨-, hr⟩
    · exact h.content _ p k hp (hnotCopying _) hlast
    · exact h.content a r k hr (hnotCopying a) hlast
  · intro a r hr hstate
    rcases FetchWorker.setPage_pages_eq_some hr with ⟨rfl, rfl⟩ | ⟨-, hr⟩
    · exact h.shared _ p hp hstate
    · exact h.shared a r hr hstate
  · intro a r hr hreadable hlock
    rcases FetchWorker.setPage_pages_eq_some hr with ⟨rfl, rfl⟩ | ⟨-, hr⟩
    · rw [locked_of_install rfl] at hlock
      simp [Install.addr] at hlock
    · refine h.readable a r hr hreadable ?_
      rw [FetchWorker.locked, hinstall]

theorem logInstall_apply (i : Install) (copied addr : Nat) :
    n.logInstall i copied addr = n.installed addr ++
      if addr = i.addr ∧ copied = i.msg.size then [i.msg.moment] else [] := by
  by_cases hlast : copied = i.msg.size
  · by_cases ha : addr = i.addr
    · subst ha
      simp only [FetchWorker.logInstall, Function.update_self, hlast, and_self, if_true]
    · simp only [FetchWorker.logInstall, if_pos hlast, Function.update_of_ne ha, ha, false_and,
        if_false, List.append_nil]
  · simp only [FetchWorker.logInstall, hlast, and_false, if_false, List.append_nil]

/-- `memcpy` moves some bytes of the install in progress, and maybe the last ones. -/
theorem FetchInv.copyTo (h : FetchInv n) {i : Install} {p : LocalPage} {copied : Nat}
    (hi : n.install = some i) (hp : n.pages i.addr = some p) (hk : i.copied < copied)
    (hfits : copied ≤ i.msg.size) : FetchInv (n.copyTo i p copied) := by
  obtain ⟨hgenuine, hprefix⟩ := h.install i hi
  have hpast : i.msg.moment < (n.served i.addr).length :=
    (List.getElem?_eq_some_iff.mp hgenuine.2).1
  have hinstalled : ∀ a, (n.copyTo i p copied).installed a = n.installed a ++
      if a = i.addr ∧ copied = i.msg.size then [i.msg.moment] else [] := logInstall_apply i copied
  have hnew : (n.copyTo i p copied).install = some { i with copied := copied } := rfl
  have hgrows : ∀ a, n.installed a ≠ [] → (n.copyTo i p copied).installed a ≠ [] := by
    intro a hne
    rw [hinstalled]
    exact List.append_ne_nil_of_left_ne_nil hne _
  have hold : ∀ a r, (n.copyTo i p copied).pages a = some r →
      (a = i.addr ∧ r = { p with bytes := p.bytes.overwrite i.msg.data copied }) ∨
      (a ≠ i.addr ∧ n.pages a = some r) := fun _ _ hr => FetchWorker.setPage_pages_eq_some hr
  refine ⟨?_, h.reply, ?_, ?_, ?_, ?_, ?_, ?_, ?_, ?_⟩
  · intro a r hr
    rcases hold a r hr with ⟨rfl, rfl⟩ | ⟨-, hr⟩
    · exact h.owner i.addr p hp
    · exact h.owner a r hr
  · rintro _ ⟨⟩
    refine ⟨hgenuine, _, FetchWorker.setPage_pages_self .., fun j hj => ?_⟩
    exact if_pos hj
  · rintro _ ⟨⟩ hlast
    rw [hinstalled, if_pos ⟨rfl, hlast⟩, List.getLast?_concat]
  · -- the moment goes from the install in progress to the completed ones
    intro a
    have hbefore := h.order a
    rw [current_of_install hi] at hbefore
    rw [hinstalled, current_of_install hnew]
    by_cases ha : a = i.addr
    · subst ha
      rw [if_pos ⟨rfl, by omega⟩] at hbefore
      by_cases hlast : copied = i.msg.size
      · rw [if_pos ⟨rfl, hlast⟩, if_neg fun hboth => absurd hboth.2 (by simp only; omega),
          List.append_assoc]
        exact hbefore
      · rw [if_neg fun hboth => hlast hboth.2, if_pos ⟨rfl, by simp only; omega⟩, List.append_nil]
        exact hbefore
    · rw [if_neg fun hboth => ha hboth.1.symm] at hbefore
      rw [if_neg fun hboth => ha hboth.1, if_neg fun hboth => ha hboth.1.symm, List.append_nil]
      exact hbefore
  · intro a m hm
    rw [hinstalled] at hm
    rcases List.mem_append.mp hm with hm | hm
    · exact h.past a m hm
    · split_ifs at hm with hlast
      · rw [List.mem_singleton.mp hm, hlast.1]
        exact hpast
      · cases hm
  · intro a ha
    have hnone : n.pages a = none := FetchWorker.setPage_pages_eq_none ha
    have hne : ¬ (a = i.addr ∧ copied = i.msg.size) := by
      rintro ⟨rfl, -⟩
      rw [hp] at hnone
      cases hnone
    rw [hinstalled, if_neg hne, List.append_nil]
    exact h.mapped a hnone
  · intro a r m hr hcopying hm
    rw [hinstalled] at hm
    rcases hold a r hr with ⟨rfl, rfl⟩ | ⟨ha, hr⟩
    · -- no copy is partway, so this one is complete
      have hlast : copied = i.msg.size := by
        by_contra hnot
        exact hcopying ⟨_, hnew, rfl, by simp only; omega, by simp only; omega⟩
      rw [if_pos ⟨rfl, hlast⟩, List.getLast?_concat] at hm
      obtain rfl := Option.some.inj hm
      have hbytes : p.bytes.overwrite i.msg.data copied = i.msg.data := by
        rw [hlast, hgenuine.1, PageBytes.overwrite_all]
      simp only [hbytes]
      exact hgenuine.2
    · rw [if_neg fun hboth => ha hboth.1, List.append_nil] at hm
      refine h.content a r m hr ?_ hm
      rintro ⟨i', hi', hia, -⟩
      obtain rfl := Option.some.inj (hi.symm.trans hi')
      exact ha hia.symm
  · intro a r hr hstate
    rcases hold a r hr with ⟨rfl, rfl⟩ | ⟨-, hr⟩
    · exact hgrows i.addr (h.shared i.addr p hp hstate)
    · exact hgrows a (h.shared a r hr hstate)
  · intro a r hr hreadable hlock
    rw [locked_of_install hnew] at hlock
    rcases hold a r hr with ⟨rfl, rfl⟩ | ⟨ha, hr⟩
    · exact absurd hlock (by simp [Install.addr])
    · refine hgrows a (h.readable a r hr hreadable ?_)
      rw [locked_of_install hi]
      exact hlock

theorem FetchInv.finish (h : FetchInv n) {i : Install} {p : LocalPage} (hi : n.install = some i)
    (hp : n.pages i.addr = some p) (hall : i.copied = i.msg.size) (mprotectOk : Bool) :
    FetchInv { n.setPage i.addr (p.onInstalled i.msg.version mprotectOk) with install := none } := by
  have hinstalled : n.installed i.addr ≠ [] := by
    intro hnil
    have hlast := h.complete i hi hall
    rw [hnil] at hlast
    cases hlast
  have howner : (p.onInstalled i.msg.version mprotectOk).ownerId = p.ownerId := by
    cases mprotectOk <;> rfl
  have hbytes : (p.onInstalled i.msg.version mprotectOk).bytes = p.bytes := by
    cases mprotectOk <;> rfl
  have hnotCopying : ∀ a, ¬ n.Copying a := by
    rintro a ⟨i', hi', -, -, hlt⟩
    obtain rfl := Option.some.inj (hi.symm.trans hi')
    omega
  refine ⟨?_, h.reply, nofun, nofun, ?_, h.past, ?_, ?_, ?_, ?_⟩
  · intro a r hr
    rcases FetchWorker.setPage_pages_eq_some hr with ⟨rfl, rfl⟩ | ⟨-, hr⟩
    · exact howner.trans (h.owner _ p hp)
    · exact h.owner a r hr
  · intro a
    have hbefore := h.order a
    rw [current_of_install hi, if_neg (by omega)] at hbefore
    exact hbefore
  · intro a ha
    exact h.mapped a (FetchWorker.setPage_pages_eq_none ha)
  · intro a r k hr _ hlast
    rcases FetchWorker.setPage_pages_eq_some hr with ⟨rfl, rfl⟩ | ⟨-, hr⟩
    · rw [hbytes]
      exact h.content _ p k hp (hnotCopying _) hlast
    · exact h.content a r k hr (hnotCopying a) hlast
  · intro a r hr hstate
    rcases FetchWorker.setPage_pages_eq_some hr with ⟨rfl, rfl⟩ | ⟨-, hr⟩
    · exact hinstalled
    · exact h.shared a r hr hstate
  · intro a r hr hreadable _
    rcases FetchWorker.setPage_pages_eq_some hr with ⟨rfl, rfl⟩ | ⟨ha, hr⟩
    · exact hinstalled
    · refine h.readable a r hr hreadable ?_
      rw [locked_of_install hi, beq_eq_false_iff_ne]
      exact ha.symm

/-! ### The master's answer -/

theorem getElem?_append_of_eq_some {α : Type*} {xs ys : List α} {k : Nat} {x : α}
    (h : xs[k]? = some x) : (xs ++ ys)[k]? = some x := by
  rw [List.getElem?_append_left (List.getElem?_eq_some_iff.mp h).1, h]

theorem answer_served (addr : Nat) (p : LocalPage) {a k : Nat} {bytes : PageBytes}
    (h : (n.served a)[k]? = some bytes) : ((n.answer addr p).served a)[k]? = some bytes := by
  by_cases ha : a = pageBase addr
  · subst ha
    simp only [FetchWorker.answer, Function.update_self]
    exact getElem?_append_of_eq_some h
  · simp only [FetchWorker.answer, Function.update_of_ne ha]
    exact h

theorem FetchInv.moment_lt (h : FetchInv n) {addr k : Nat}
    (hk : k ∈ n.installed addr ++ (n.current addr ++ n.inFlight addr)) :
    k < (n.served addr).length := by
  have hgenuine : ∀ d, n.Genuine d → d.moment < (n.served (pageBase d.globalAddr)).length :=
    fun d hd => (List.getElem?_eq_some_iff.mp hd.2).1
  rcases List.mem_append.mp hk with hk | hk
  · exact h.past addr k hk
  · rcases List.mem_append.mp hk with hk | hk
    · cases hi : n.install with
      | none => simp [FetchWorker.current, hi] at hk
      | some i =>
          rw [current_of_install hi] at hk
          split_ifs at hk with hboth
          · rw [List.mem_singleton.mp hk, ← hboth.1]
            exact hgenuine i.msg (h.install i hi).1
          · cases hk
    · obtain ⟨d, hd, rfl⟩ := List.mem_map.mp hk
      obtain ⟨hmem, haddr⟩ := List.mem_filter.mp hd
      obtain rfl : pageBase d.globalAddr = addr := by simpa using haddr
      exact hgenuine d (h.reply d hmem)

theorem FetchInv.answer (h : FetchInv n) (addr : Nat) (p : LocalPage) : FetchInv (n.answer addr p) := by
  have hlength : ∀ a k, k < (n.served a).length → k < ((n.answer addr p).served a).length := by
    intro a k hk
    have hsome := answer_served addr p (List.getElem?_eq_getElem hk)
    exact (List.getElem?_eq_some_iff.mp hsome).1
  refine ⟨h.owner, ?_, ?_, h.complete, ?_, ?_, h.mapped, ?_, h.shared, h.readable⟩
  · intro d hd
    rcases List.mem_append.mp hd with hd | hd
    · exact ⟨(h.reply d hd).1, answer_served addr p (h.reply d hd).2⟩
    · rw [List.mem_singleton.mp hd]
      refine ⟨rfl, ?_⟩
      simp only [FetchWorker.answer, Function.update_self]
      exact List.getElem?_concat_length
  · intro i hi
    obtain ⟨hgenuine, hcopied⟩ := h.install i hi
    exact ⟨⟨hgenuine.1, answer_served addr p hgenuine.2⟩, hcopied⟩
  · -- the new moment is above all earlier ones
    intro a
    have hbefore := h.order a
    by_cases ha : pageBase addr = a
    · subst ha
      have hin : (n.answer addr p).inFlight (pageBase addr) =
          n.inFlight (pageBase addr) ++ [(n.served (pageBase addr)).length] := by
        simp [FetchWorker.inFlight, FetchWorker.answer, List.filter_append]
      have hlist : (n.answer addr p).installed (pageBase addr) ++
          ((n.answer addr p).current (pageBase addr) ++ (n.answer addr p).inFlight (pageBase addr)) =
          (n.installed (pageBase addr) ++
            (n.current (pageBase addr) ++ n.inFlight (pageBase addr))) ++
            [(n.served (pageBase addr)).length] := by
        rw [hin]
        simp only [← List.append_assoc]
        rfl
      rw [hlist, List.pairwise_concat]
      exact ⟨hbefore, fun k hk => h.moment_lt hk⟩
    · have hin : (n.answer addr p).inFlight a = n.inFlight a := by
        simp [FetchWorker.inFlight, FetchWorker.answer, List.filter_append, ha]
      rw [hin]
      exact hbefore
  · intro a k hk
    exact hlength a k (h.past a k hk)
  · intro a r k hr hcopying hlast
    exact answer_served addr p (h.content a r k hr hcopying hlast)

theorem FetchInv.step {w : NodeId} {a : FetchWorkerAction} {n' : FetchWorker} (h : FetchInv n)
    (hw : w ≠ masterId) (ha : n.step w a = some n') : FetchInv n' := by
  cases FetchWorker.step_effect ha with
  | map haligned hnew => exact h.map hnew
  | fault | checkNone | request | unsent | leave | timeout | giveUpNone => exact h.setFault _ _
  | @check addr mprotectOk p hpc hp hfree =>
      obtain ⟨howner, hbytes, hshared, hprot⟩ :=
        LocalPage.onFault_worker (h.owner addr p hp) hw mprotectOk
      exact (h.repage hp howner hbytes hshared hprot).setFault _ _
  | @giveUp addr p hpc hp hfree =>
      have hkept : FetchInv (n.setPage addr { p with state := .invalid }) :=
        h.repage hp rfl rfl (fun hshared => by cases hshared) rfl
      exact hkept.setFault _ _
  | drop hinstall hreplies hfail => exact h.drop hreplies
  | receive hinstall hreplies hp => exact h.receive hinstall hreplies hp
  | copy hi hp hk hfits => exact h.copyTo hi hp (by omega) hfits
  | @finish mprotectOk i p hi hp hall => exact h.finish hi hp hall mprotectOk

end Steps

/-! ### All runs -/

theorem FetchState.step_inv {cl : Cluster} {s t : FetchState} {a : FetchAction}
    (h : ∀ w, FetchInv (s.worker w)) (ha : s.step cl a = some t) (w : NodeId) :
    FetchInv (t.worker w) := by
  have hunserved : ∀ rest, FetchInv { s.worker w with requests := rest } :=
    fun rest => (h w).setFault _ _
  rcases FetchState.step_worker w ha with hsame | ⟨b, -, hw, hstep⟩ |
    ⟨-, addr, rest, -, hdropped | ⟨p, -, hanswered⟩⟩
  · rw [hsame]
    exact h w
  · exact (h w).step (Cluster.ne_masterId hw) hstep
  · rw [hdropped]
    exact hunserved rest
  · rw [hanswered]
    exact (hunserved rest).answer addr p

theorem FetchInv.of_reachable {cl : Cluster} {s : FetchState} (hs : (fetchMachine cl).Reachable s)
    (w : NodeId) : FetchInv (s.worker w) := by
  induction hs generalizing w with
  | start hstart =>
      rw [hstart]
      exact .initial
  | step a _ ha ih => exact FetchState.step_inv ih ha w

/-- In the run `as` the master serves a request of worker `w` for a page, after `moment` earlier ones,
at a time when the page has the content `bytes`. -/
def ServedAt (cl : Cluster) (as : List FetchAction) (w : NodeId) (addr moment : Nat)
    (bytes : PageBytes) : Prop :=
  ∃ pre t, pre ++ [.serve w] <+: as ∧ (fetchMachine cl).exec .initial pre = some t ∧
    (t.worker w).requests.head?.map pageBase = some addr ∧
    ((t.worker w).served addr).length = moment ∧ (t.master addr).map (·.bytes) = some bytes

theorem FetchWorker.step_served {w : NodeId} {n n' : FetchWorker} {a : FetchWorkerAction}
    (ha : n.step w a = some n') : n'.served = n.served := by
  cases FetchWorker.step_effect ha <;> rfl

/-- A step that is no answer to `w` leaves its log alone; an answer adds the content of the page. -/
theorem FetchState.step_served {cl : Cluster} {s t : FetchState} {a : FetchAction} (w : NodeId)
    (addr : Nat) (ha : s.step cl a = some t) :
    (t.worker w).served addr = (s.worker w).served addr ∨
    ∃ bytes, a = .serve w ∧ (s.worker w).requests.head?.map pageBase = some addr ∧
      (s.master addr).map (·.bytes) = some bytes ∧
      (t.worker w).served addr = (s.worker w).served addr ++ [bytes] := by
  rcases FetchState.step_worker w ha with hsame | ⟨b, -, -, hstep⟩ |
    ⟨hserve, addr', rest, hrequests, hdropped | ⟨p, hp, hanswered⟩⟩
  · exact .inl (by rw [hsame])
  · exact .inl (by rw [FetchWorker.step_served hstep])
  · exact .inl (by rw [hdropped])
  · rw [hanswered]
    by_cases haddr : addr = pageBase addr'
    · subst haddr
      refine .inr ⟨p.bytes, hserve, by rw [hrequests]; rfl, by rw [hp]; rfl, ?_⟩
      exact Function.update_self ..
    · exact .inl (Function.update_of_ne haddr ..)

theorem servedAt_of_served {cl : Cluster} {as : List FetchAction} {s : FetchState} {w : NodeId}
    {addr moment : Nat} {bytes : PageBytes}
    (hexec : (fetchMachine cl).exec .initial as = some s)
    (hlog : ((s.worker w).served addr)[moment]? = some bytes) :
    ServedAt cl as w addr moment bytes := by
  induction as using List.reverseRecOn generalizing s with
  | nil =>
      cases hexec
      cases hlog
  | append_singleton as a ih =>
      rw [Machine.exec_append, Option.bind_eq_some_iff] at hexec
      obtain ⟨t, hbefore, hlast⟩ := hexec
      rw [Machine.exec_cons, Option.bind_eq_some_iff] at hlast
      obtain ⟨s', hstep, hs⟩ := hlast
      obtain rfl := Option.some.inj hs
      have hearlier : ((t.worker w).served addr)[moment]? = some bytes →
          ServedAt cl (as ++ [a]) w addr moment bytes := by
        intro hlog
        obtain ⟨pre, u, hpre, hu⟩ := ih hbefore hlog
        exact ⟨pre, u, hpre.trans (List.prefix_append as [a]), hu⟩
      rcases FetchState.step_served w addr hstep with hsame | ⟨last, rfl, hhead, hmaster, hadd⟩
      · rw [hsame] at hlog
        exact hearlier hlog
      · rw [hadd] at hlog
        by_cases hlt : moment < ((t.worker w).served addr).length
        · rw [List.getElem?_append_left hlt] at hlog
          exact hearlier hlog
        · rw [List.getElem?_append_right (by omega), List.getElem?_singleton] at hlog
          split_ifs at hlog with hzero
          obtain rfl := Option.some.inj hlog
          exact ⟨as, t, List.prefix_refl _, hbefore, hhead, by omega, hmaster⟩

theorem FetchState.exec_served_prefix {cl : Cluster} {as : List FetchAction} {s t : FetchState}
    (w : NodeId) (addr : Nat) (hexec : (fetchMachine cl).exec s as = some t) :
    (s.worker w).served addr <+: (t.worker w).served addr := by
  induction as generalizing s with
  | nil =>
      cases hexec
      exact List.prefix_refl _
  | cons a as ih =>
      rw [Machine.exec_cons, Option.bind_eq_some_iff] at hexec
      obtain ⟨u, hstep, hrest⟩ := hexec
      rcases FetchState.step_served w addr hstep with hsame | ⟨bytes, -, -, -, hadd⟩
      · rw [← hsame]
        exact ih hrest
      · exact (hadd ▸ List.prefix_append _ [bytes]).trans (ih hrest)

theorem served_of_servedAt {cl : Cluster} {as : List FetchAction} {s : FetchState} {w : NodeId}
    {addr moment : Nat} {bytes : PageBytes} (hexec : (fetchMachine cl).exec .initial as = some s)
    (hserved : ServedAt cl as w addr moment bytes) :
    ((s.worker w).served addr)[moment]? = some bytes := by
  obtain ⟨pre, t, ⟨rest, rfl⟩, hpre, hhead, hmoment, hmaster⟩ := hserved
  rw [Machine.exec_append, Machine.exec_append, hpre, Option.bind_some, Option.bind_eq_some_iff] at hexec
  obtain ⟨u, hserve, hrest⟩ := hexec
  rw [Machine.exec_cons, Option.bind_eq_some_iff] at hserve
  obtain ⟨u', hstep, hu⟩ := hserve
  obtain rfl := Option.some.inj hu
  have hadd : (u'.worker w).served addr = (t.worker w).served addr ++ [bytes] := by
    simp only [fetchMachine, FetchState.step, Option.ite_none_right_eq_some] at hstep
    obtain ⟨-, hstep⟩ := hstep
    obtain ⟨addr', hfirst, rfl⟩ := Option.map_eq_some_iff.mp hhead
    obtain ⟨rest', hrequests⟩ := List.head?_eq_some_iff.mp hfirst
    obtain ⟨p, hp, rfl⟩ := Option.map_eq_some_iff.mp hmaster
    simp only [hrequests, hp, Option.some.injEq] at hstep
    rw [← hstep, FetchState.setWorker_worker_self]
    exact Function.update_self ..
  obtain ⟨more, hmore⟩ := FetchState.exec_served_prefix w addr hrest
  rw [← hmore, hadd, List.append_assoc, List.getElem?_append_right (by omega), hmoment, Nat.sub_self]
  rfl

/-- In every run, a shared page whose copy is not partway has the content that the page had on the
master when it served the last of the completed installs, and the installs on a worker complete in
the order in which the master served them. -/
theorem fetched_copy_genuine {cl : Cluster} {as : List FetchAction} {s : FetchState}
    (hexec : (fetchMachine cl).exec .initial as = some s) (w : NodeId) (addr : Nat) :
    ((s.worker w).installed addr).Pairwise (· < ·) ∧
    ∀ p, (s.worker w).pages addr = some p → p.state = .shared → ¬ (s.worker w).Copying addr →
      ∃ moment, ((s.worker w).installed addr).getLast? = some moment ∧
        ServedAt cl as w addr moment p.bytes := by
  have h := FetchInv.of_reachable (Machine.reachable_iff_exec.mpr ⟨_, as, rfl, hexec⟩) w
  refine ⟨(List.pairwise_append.mp (h.order addr)).1, fun p hp hshared hcopying => ?_⟩
  have hlast := List.getLast?_eq_some_getLast (h.shared addr p hp hshared)
  exact ⟨_, hlast, servedAt_of_served hexec (h.content addr p _ hp hcopying hlast)⟩

/-- A fetch that times out, a second request for the same page, and both answers; the master writes
the page between them, and the second answer is being copied when the run ends. -/
private def tornRun : List FetchAction :=
  [.alloc 0x2000000, .worker 2 (.map 0x2000000), .write 0x2000000 fun _ => 1,
    .worker 2 (.fault 0x2000000), .worker 2 (.check true), .worker 2 (.request true),
    .worker 2 .timeout, .worker 2 .giveUp,
    .worker 2 (.fault 0x2000000), .worker 2 (.check true), .worker 2 (.request true),
    .serve 2, .write 0x2000000 fun _ => 2, .serve 2,
    .worker 2 (.receive true), .worker 2 (.copy 4096), .worker 2 (.finish true), .worker 2 .leave,
    .worker 2 (.receive true), .worker 2 (.copy 1)]

theorem fetched_copy_genuine_two_answers :
    ∃ s, (fetchMachine oneWorker).exec .initial (tornRun.take 17) = some s ∧
      ((s.worker 2).installed 0x2000000).Pairwise (· < ·) ∧
      ∀ p, (s.worker 2).pages 0x2000000 = some p → p.state = .shared →
        ¬ (s.worker 2).Copying 0x2000000 →
        ∃ moment, ((s.worker 2).installed 0x2000000).getLast? = some moment ∧
          ServedAt oneWorker (tornRun.take 17) 2 0x2000000 moment p.bytes :=
  ⟨_, rfl, fetched_copy_genuine rfl 2 0x2000000⟩

/-- While the second answer is copied over the first one, the record says `DSM_PAGE_SHARED` and the
page has the content of no moment at which the master served the worker. -/
theorem torn_while_shared :
    ∃ s p, (fetchMachine oneWorker).exec .initial tornRun = some s ∧
      (s.worker 2).pages 0x2000000 = some p ∧ p.state = .shared ∧
      ∀ moment, ¬ ServedAt oneWorker tornRun 2 0x2000000 moment p.bytes := by
  have hrun : ∃ s p, (fetchMachine oneWorker).exec .initial tornRun = some s ∧
      (s.worker 2).pages 0x2000000 = some p ∧ p.state = .shared ∧
      (s.worker 2).served 0x2000000 = [fun _ => 1, fun _ => 2] ∧
      p.bytes = PageBytes.overwrite (PageBytes.overwrite (fun _ => 0) (fun _ => 1) 4096)
        (fun _ => 2) 1 := ⟨_, _, rfl, rfl, rfl, rfl, rfl⟩
  obtain ⟨s, p, hexec, hp, hshared, hlog, hbytes⟩ := hrun
  refine ⟨s, p, hexec, hp, hshared, fun moment hserved => ?_⟩
  have hentry := served_of_servedAt hexec hserved
  rw [hlog, hbytes] at hentry
  match moment with
  | 0 => simpa [PageBytes.overwrite] using congrFun (Option.some.inj hentry) ⟨0, by decide⟩
  | 1 => simpa [PageBytes.overwrite] using congrFun (Option.some.inj hentry) ⟨1, by decide⟩
  | _ + 2 => cases hentry

end Dsm
