import Dsm.Library.Machine
import Dsm.Memory.PageTable

/-!
# Fetching pages from the master

Pages that the master allocates with `dsm_malloc_at` and workers map with `dsm_map_remote`: the fault
thread of a worker in `dsm_page_fault_handle`, the TCP thread of the master in `dsm_page_send` and the
TCP thread of a worker in `dsm_page_install`. A page is registered once on a node, under a
page-aligned address, it stays mapped, and no other record of the node, such as `dsm_free` leaves
behind, has its global or its local address. So both lookups find its record, and a page table is a map
from these addresses to the records.

The fault thread may be told about any page at any time, and a time-out may strike whenever the thread
waits. The copy in `dsm_page_send` is one step; the copy in `dsm_page_install` is not, and it may be
observed after any number of bytes. The lock of a record is taken by the two threads of its node.
-/

namespace Dsm

abbrev PageBytes := Fin pageSize → UInt8

/-- A record of the page table, with the protection and the content of its local page. -/
structure LocalPage where
  state : PageState
  ownerId : NodeId
  version : Nat
  prot : Prot
  bytes : PageBytes

/-- A page that `dsm_malloc_at` has allocated on the master. -/
def LocalPage.owned : LocalPage :=
  { state := .shared, ownerId := masterId, version := 1, prot := .readWrite, bytes := fun _ => 0 }

/-- A page that `dsm_map_remote` has mapped on a worker; it names the master as the owner. -/
def LocalPage.remote : LocalPage :=
  { state := .invalid, ownerId := masterId, version := 1, prot := .none, bytes := fun _ => 0 }

/-- What fetching uses of a record of the page table. -/
def LocalPage.ofPage (p : Page) (prot : Prot) (bytes : PageBytes) : LocalPage :=
  { state := p.state, ownerId := p.ownerId, version := p.version, prot := prot, bytes := bytes }

theorem LocalPage.owned_eq (globalAddr localAddr : Nat) :
    LocalPage.owned = .ofPage { Page.new masterId globalAddr localAddr masterId with state := .shared }
      .readWrite fun _ => 0 := rfl

theorem LocalPage.remote_eq {w : NodeId} (hw : w ≠ masterId) (globalAddr localAddr : Nat) :
    LocalPage.remote = .ofPage (.new w globalAddr localAddr masterId) .none fun _ => 0 := by
  rw [LocalPage.ofPage, Page.new, if_neg hw.symm]
  rfl

/-- `PAGE_DATA`. `moment` is not in the message: it numbers the answers to one worker for one page in
the order in which `dsm_page_send` copied them. -/
structure PageData where
  globalAddr : Nat
  size : Nat
  version : Nat
  data : PageBytes
  moment : Nat

/-- Where the fault thread is in `dsm_page_fault_handle`, with the address of the page. -/
inductive FaultPc where
  | idle
  /-- About to look the page up and take its lock. -/
  | check (addr : Nat)
  /-- Has marked the record pending and is about to send `PAGE_REQUEST`. -/
  | request (addr : Nat)
  /-- In the loop on `fault_cond`. -/
  | wait (addr : Nat)
  /-- About to set the record to invalid and to fail. -/
  | giveUp (addr : Nat)
deriving DecidableEq, Repr

/-- A `dsm_page_install` that holds the lock of its record; `copied` bytes are in place. -/
structure Install where
  msg : PageData
  copied : Nat

/-- The page that the lookup of `dsm_page_install` finds. -/
def Install.addr (i : Install) : Nat := pageBase i.msg.globalAddr

/-- A worker with the two channels of its connection. -/
structure FetchWorker where
  pages : Nat → Option LocalPage
  fault : FaultPc
  install : Option Install
  requests : List Nat
  replies : List PageData
  /-- The content that each answer of the master to this worker carried, in the order of the copies. -/
  served : Nat → List PageBytes
  /-- The moments of the answers whose copy is complete, in the order in which that happened. -/
  installed : Nat → List Nat

structure FetchState where
  master : Nat → Option LocalPage
  worker : NodeId → FetchWorker

inductive FetchWorkerAction where
  /-- `dsm_map_remote` registers a page. -/
  | map (addr : Nat)
  /-- The fault thread calls `dsm_page_fault_handle`. -/
  | fault (addr : Nat)
  | check (mprotectOk : Bool)
  | request (sendOk : Bool)
  | leave
  | timeout
  | giveUp
  /-- The TCP thread takes the next `PAGE_DATA` and opens the page for writing. -/
  | receive (mprotectOk : Bool)
  | copy (k : Nat)
  | finish (mprotectOk : Bool)
deriving DecidableEq, Repr

inductive FetchAction where
  /-- `dsm_malloc_at` on the master registers a page. -/
  | alloc (addr : Nat)
  /-- The master gives a page new content. -/
  | write (addr : Nat) (bytes : PageBytes)
  /-- The TCP thread of the master answers the next `PAGE_REQUEST` of worker `w`. -/
  | serve (w : NodeId)
  | worker (w : NodeId) (a : FetchWorkerAction)

/-- The critical section of `dsm_page_fault_handle` on node `node`, and whether the page has to be
fetched. -/
def LocalPage.onFault (node : NodeId) (mprotectOk : Bool) (p : LocalPage) : LocalPage × Bool :=
  if p.state = .modified ∨ p.state = .shared then
    if p.ownerId = node ∧ mprotectOk then ({ p with prot := .readWrite, state := .modified }, false)
    else (p, false)
  else if p.ownerId = node then
    if mprotectOk then ({ p with prot := .readWrite, state := .modified }, false) else (p, false)
  else ({ p with state := .pending }, true)

/-- `memcpy` has moved the first `k` bytes of `data`. -/
def PageBytes.overwrite (old data : PageBytes) (k : Nat) : PageBytes :=
  fun j => if j.val < k then data j else old j

theorem PageBytes.overwrite_all (old data : PageBytes) : old.overwrite data pageSize = data := by
  funext j
  exact if_pos j.isLt

/-- The end of `dsm_page_install` after the copy. -/
def LocalPage.onInstalled (version : Nat) (mprotectOk : Bool) (p : LocalPage) : LocalPage :=
  if mprotectOk then { p with prot := .read, state := .shared, version := version } else p

namespace FetchWorker

def setPage (n : FetchWorker) (addr : Nat) (p : LocalPage) : FetchWorker :=
  { n with pages := Function.update n.pages addr (some p) }

@[simp] theorem setPage_pages_self (n : FetchWorker) (addr : Nat) (p : LocalPage) :
    (n.setPage addr p).pages addr = some p := Function.update_self ..

@[simp] theorem setPage_pages_of_ne (n : FetchWorker) {addr a : Nat} (p : LocalPage)
    (h : a ≠ addr) : (n.setPage addr p).pages a = n.pages a := Function.update_of_ne h ..

theorem setPage_pages_eq_some {n : FetchWorker} {addr a : Nat} {p r : LocalPage}
    (h : (n.setPage addr p).pages a = some r) :
    (a = addr ∧ r = p) ∨ (a ≠ addr ∧ n.pages a = some r) := by
  by_cases ha : a = addr
  · subst ha
    rw [setPage_pages_self] at h
    exact .inl ⟨rfl, (Option.some.inj h).symm⟩
  · rw [setPage_pages_of_ne n p ha] at h
    exact .inr ⟨ha, h⟩

theorem setPage_pages_eq_none {n : FetchWorker} {addr a : Nat} {p : LocalPage}
    (h : (n.setPage addr p).pages a = none) : n.pages a = none := by
  by_cases ha : a = addr
  · subst ha
    rw [setPage_pages_self] at h
    cases h
  · rwa [setPage_pages_of_ne n p ha] at h

/-- Whether `dsm_page_install` holds the lock of the record. -/
def locked (n : FetchWorker) (addr : Nat) : Bool :=
  match n.install with
  | some i => i.addr == addr
  | none => false

/-- The log of completed installs once `copied` bytes of an install are in place. -/
def logInstall (n : FetchWorker) (i : Install) (copied : Nat) : Nat → List Nat :=
  if copied = i.msg.size then
    Function.update n.installed i.addr (n.installed i.addr ++ [i.msg.moment])
  else n.installed

/-- `memcpy` has moved `copied` bytes of an install into the page, whose record is `p`. -/
def copyTo (n : FetchWorker) (i : Install) (p : LocalPage) (copied : Nat) : FetchWorker :=
  { n.setPage i.addr { p with bytes := p.bytes.overwrite i.msg.data copied } with
    install := some { i with copied := copied }
    installed := n.logInstall i copied }

/-- The steps of worker `w`. -/
def step (w : NodeId) (n : FetchWorker) : FetchWorkerAction → Option FetchWorker
  | .map addr =>
      if pageSize ∣ addr ∧ (n.pages addr).isNone then some (n.setPage addr .remote) else none
  | .fault addr => if n.fault = .idle then some { n with fault := .check (pageBase addr) } else none
  | .check mprotectOk =>
      match n.fault with
      | .check addr =>
          match n.pages addr with
          | none => some { n with fault := .idle }
          | some p =>
              if n.locked addr then none
              else
                let out := p.onFault w mprotectOk
                some { n.setPage addr out.1 with
                  fault := if out.2 then .request addr else .idle }
      | _ => none
  | .request sendOk =>
      match n.fault with
      | .request addr =>
          if sendOk then some { n with fault := .wait addr, requests := n.requests ++ [addr] }
          else some { n with fault := .giveUp addr }
      | _ => none
  | .leave =>
      match n.fault with
      | .wait addr =>
          if (n.pages addr).map (·.state) = some .pending then none
          else some { n with fault := .idle }
      | _ => none
  | .timeout =>
      match n.fault with
      | .wait addr => some { n with fault := .giveUp addr }
      | _ => none
  | .giveUp =>
      match n.fault with
      | .giveUp addr =>
          match n.pages addr with
          | none => some { n with fault := .idle }
          | some p =>
              if n.locked addr then none
              else some { n.setPage addr { p with state := .invalid } with fault := .idle }
      | _ => none
  | .receive mprotectOk =>
      match n.install, n.replies with
      | none, d :: rest =>
          match n.pages (pageBase d.globalAddr) with
          | none => some { n with replies := rest }
          | some p =>
              if mprotectOk then
                some { n.setPage (pageBase d.globalAddr) { p with prot := .readWrite } with
                  replies := rest, install := some { msg := d, copied := 0 } }
              else some { n with replies := rest }
      | _, _ => none
  | .copy k =>
      match n.install with
      | some i =>
          match n.pages i.addr with
          | none => none
          | some p =>
              if 0 < k ∧ i.copied + k ≤ i.msg.size then some (n.copyTo i p (i.copied + k)) else none
      | none => none
  | .finish mprotectOk =>
      match n.install with
      | some i =>
          match n.pages i.addr with
          | none => none
          | some p =>
              if i.copied = i.msg.size then
                some { n.setPage i.addr (p.onInstalled i.msg.version mprotectOk) with install := none }
              else none
      | none => none

/-- `dsm_page_send` of the record `p` of the master, in answer to a request for `addr`. -/
def answer (n : FetchWorker) (addr : Nat) (p : LocalPage) : FetchWorker :=
  let base := pageBase addr
  { n with
    replies := n.replies ++ [{
      globalAddr := addr
      size := pageSize
      version := p.version
      data := p.bytes
      moment := (n.served base).length }]
    served := Function.update n.served base (n.served base ++ [p.bytes]) }

end FetchWorker

namespace FetchState

def setWorker (s : FetchState) (w : NodeId) (n : FetchWorker) : FetchState :=
  { s with worker := Function.update s.worker w n }

@[simp] theorem setWorker_worker_self (s : FetchState) (w : NodeId) (n : FetchWorker) :
    (s.setWorker w n).worker w = n := Function.update_self ..

@[simp] theorem setWorker_worker_of_ne (s : FetchState) {w u : NodeId} (n : FetchWorker)
    (h : u ≠ w) : (s.setWorker w n).worker u = s.worker u := Function.update_of_ne h ..

def step (cl : Cluster) (s : FetchState) : FetchAction → Option FetchState
  | .alloc addr =>
      if pageSize ∣ addr ∧ (s.master addr).isNone then
        some { s with master := Function.update s.master addr (some .owned) }
      else none
  | .write addr bytes =>
      match s.master addr with
      | none => none
      | some p =>
          some { s with master := Function.update s.master addr (some { p with bytes := bytes }) }
  | .serve w =>
      if w ∈ cl.workers then
        match (s.worker w).requests with
        | [] => none
        | addr :: rest =>
            let n := { s.worker w with requests := rest }
            match s.master (pageBase addr) with
            | none => some (s.setWorker w n)
            | some p => some (s.setWorker w (n.answer addr p))
      else none
  | .worker w a => if w ∈ cl.workers then ((s.worker w).step w a).map (s.setWorker w) else none

end FetchState

def FetchWorker.initial : FetchWorker :=
  { pages := fun _ => none, fault := .idle, install := none, requests := [], replies := [],
    served := fun _ => [], installed := fun _ => [] }

def FetchState.initial : FetchState :=
  { master := fun _ => none, worker := fun _ => .initial }

def fetchMachine (cl : Cluster) : Machine FetchState FetchAction where
  start s := s = .initial
  step := FetchState.step cl

/-! ### What a step can do -/

/-- The effects of the steps of worker `w`. -/
inductive FetchWorker.Effect (w : NodeId) (n : FetchWorker) :
    FetchWorkerAction → FetchWorker → Prop where
  | map {addr : Nat} (haligned : pageSize ∣ addr) (hnew : n.pages addr = none) :
      Effect w n (.map addr) (n.setPage addr .remote)
  | fault {addr : Nat} (hpc : n.fault = .idle) :
      Effect w n (.fault addr) { n with fault := .check (pageBase addr) }
  | checkNone {addr : Nat} {mprotectOk : Bool} (hpc : n.fault = .check addr)
      (hp : n.pages addr = none) : Effect w n (.check mprotectOk) { n with fault := .idle }
  | check {addr : Nat} {mprotectOk : Bool} {p : LocalPage} (hpc : n.fault = .check addr)
      (hp : n.pages addr = some p) (hfree : ¬ n.locked addr) :
      Effect w n (.check mprotectOk)
        { n.setPage addr (p.onFault w mprotectOk).1 with
          fault := if (p.onFault w mprotectOk).2 then .request addr else .idle }
  | request {addr : Nat} (hpc : n.fault = .request addr) :
      Effect w n (.request true) { n with fault := .wait addr, requests := n.requests ++ [addr] }
  | unsent {addr : Nat} (hpc : n.fault = .request addr) :
      Effect w n (.request false) { n with fault := .giveUp addr }
  | leave {addr : Nat} (hpc : n.fault = .wait addr)
      (hstate : (n.pages addr).map (·.state) ≠ some .pending) :
      Effect w n .leave { n with fault := .idle }
  | timeout {addr : Nat} (hpc : n.fault = .wait addr) :
      Effect w n .timeout { n with fault := .giveUp addr }
  | giveUpNone {addr : Nat} (hpc : n.fault = .giveUp addr) (hp : n.pages addr = none) :
      Effect w n .giveUp { n with fault := .idle }
  | giveUp {addr : Nat} {p : LocalPage} (hpc : n.fault = .giveUp addr) (hp : n.pages addr = some p)
      (hfree : ¬ n.locked addr) :
      Effect w n .giveUp { n.setPage addr { p with state := .invalid } with fault := .idle }
  | drop {d : PageData} {rest : List PageData} {mprotectOk : Bool} (hinstall : n.install = none)
      (hreplies : n.replies = d :: rest)
      (hfail : n.pages (pageBase d.globalAddr) = none ∨ mprotectOk = false) :
      Effect w n (.receive mprotectOk) { n with replies := rest }
  | receive {d : PageData} {rest : List PageData} {p : LocalPage} (hinstall : n.install = none)
      (hreplies : n.replies = d :: rest) (hp : n.pages (pageBase d.globalAddr) = some p) :
      Effect w n (.receive true)
        { n.setPage (pageBase d.globalAddr) { p with prot := .readWrite } with
          replies := rest, install := some { msg := d, copied := 0 } }
  | copy {k : Nat} {i : Install} {p : LocalPage} (hi : n.install = some i)
      (hp : n.pages i.addr = some p) (hk : 0 < k) (hfits : i.copied + k ≤ i.msg.size) :
      Effect w n (.copy k) (n.copyTo i p (i.copied + k))
  | finish {mprotectOk : Bool} {i : Install} {p : LocalPage} (hi : n.install = some i)
      (hp : n.pages i.addr = some p) (hall : i.copied = i.msg.size) :
      Effect w n (.finish mprotectOk)
        { n.setPage i.addr (p.onInstalled i.msg.version mprotectOk) with install := none }

theorem FetchWorker.step_effect {w : NodeId} {n n' : FetchWorker} {a : FetchWorkerAction}
    (h : n.step w a = some n') : n.Effect w a n' := by
  cases a with
  | map addr =>
      rw [FetchWorker.step, Option.ite_none_right_eq_some] at h
      obtain ⟨⟨haligned, hnew⟩, heq⟩ := h
      cases heq
      exact .map haligned (Option.isNone_iff_eq_none.mp hnew)
  | fault addr =>
      rw [FetchWorker.step, Option.ite_none_right_eq_some] at h
      obtain ⟨hpc, heq⟩ := h
      cases heq
      exact .fault hpc
  | check mprotectOk =>
      simp only [FetchWorker.step] at h
      split at h
      · rename_i addr hpc
        split at h
        · rename_i hp
          cases h
          exact .checkNone hpc hp
        · rename_i p hp
          rw [Option.ite_none_left_eq_some] at h
          obtain ⟨hfree, heq⟩ := h
          cases heq
          exact .check hpc hp hfree
      · cases h
  | request sendOk =>
      simp only [FetchWorker.step] at h
      split at h
      · rename_i addr hpc
        cases sendOk with
        | true =>
            cases h
            exact .request hpc
        | false =>
            cases h
            exact .unsent hpc
      · cases h
  | leave =>
      simp only [FetchWorker.step] at h
      split at h
      · rename_i addr hpc
        rw [Option.ite_none_left_eq_some] at h
        obtain ⟨hstate, heq⟩ := h
        cases heq
        exact .leave hpc hstate
      · cases h
  | timeout =>
      simp only [FetchWorker.step] at h
      split at h
      · rename_i addr hpc
        cases h
        exact .timeout hpc
      · cases h
  | giveUp =>
      simp only [FetchWorker.step] at h
      split at h
      · rename_i addr hpc
        split at h
        · rename_i hp
          cases h
          exact .giveUpNone hpc hp
        · rename_i p hp
          rw [Option.ite_none_left_eq_some] at h
          obtain ⟨hfree, heq⟩ := h
          cases heq
          exact .giveUp hpc hp hfree
      · cases h
  | receive mprotectOk =>
      simp only [FetchWorker.step] at h
      split at h
      · rename_i d rest hinstall hreplies
        split at h
        · rename_i hp
          cases h
          exact .drop hinstall hreplies (.inl hp)
        · rename_i p hp
          cases mprotectOk with
          | true =>
              cases h
              exact .receive hinstall hreplies hp
          | false =>
              cases h
              exact .drop hinstall hreplies (.inr rfl)
      · cases h
  | copy k =>
      simp only [FetchWorker.step] at h
      split at h
      · rename_i i hi
        split at h
        · cases h
        · rename_i p hp
          rw [Option.ite_none_right_eq_some] at h
          obtain ⟨⟨hk, hfits⟩, heq⟩ := h
          cases heq
          exact .copy hi hp hk hfits
      · cases h
  | finish mprotectOk =>
      simp only [FetchWorker.step] at h
      split at h
      · rename_i i hi
        split at h
        · cases h
        · rename_i p hp
          rw [Option.ite_none_right_eq_some] at h
          obtain ⟨hall, heq⟩ := h
          cases heq
          exact .finish hi hp hall
      · cases h

/-- The effects of the steps of the cluster. -/
inductive FetchState.Effect (cl : Cluster) (s : FetchState) : FetchAction → FetchState → Prop where
  | alloc {addr : Nat} (haligned : pageSize ∣ addr) (hnew : s.master addr = none) :
      Effect cl s (.alloc addr) { s with master := Function.update s.master addr (some .owned) }
  | write {addr : Nat} {bytes : PageBytes} {p : LocalPage} (hp : s.master addr = some p) :
      Effect cl s (.write addr bytes)
        { s with master := Function.update s.master addr (some { p with bytes := bytes }) }
  | unserved {w : NodeId} {addr : Nat} {rest : List Nat} (hw : w ∈ cl.workers)
      (hrequests : (s.worker w).requests = addr :: rest) (hp : s.master (pageBase addr) = none) :
      Effect cl s (.serve w) (s.setWorker w { s.worker w with requests := rest })
  | serve {w : NodeId} {addr : Nat} {rest : List Nat} {p : LocalPage} (hw : w ∈ cl.workers)
      (hrequests : (s.worker w).requests = addr :: rest) (hp : s.master (pageBase addr) = some p) :
      Effect cl s (.serve w)
        (s.setWorker w (({ s.worker w with requests := rest } : FetchWorker).answer addr p))
  | worker {w : NodeId} {a : FetchWorkerAction} {n : FetchWorker} (hw : w ∈ cl.workers)
      (hstep : (s.worker w).step w a = some n) : Effect cl s (.worker w a) (s.setWorker w n)

theorem FetchState.step_effect {cl : Cluster} {s t : FetchState} {a : FetchAction}
    (h : s.step cl a = some t) : s.Effect cl a t := by
  cases a with
  | alloc addr =>
      rw [FetchState.step, Option.ite_none_right_eq_some] at h
      obtain ⟨⟨haligned, hnew⟩, heq⟩ := h
      cases heq
      exact .alloc haligned (Option.isNone_iff_eq_none.mp hnew)
  | write addr bytes =>
      simp only [FetchState.step] at h
      split at h
      · cases h
      · rename_i p hp
        cases h
        exact .write hp
  | serve w =>
      rw [FetchState.step, Option.ite_none_right_eq_some] at h
      obtain ⟨hw, h⟩ := h
      split at h
      · cases h
      · rename_i addr rest hrequests
        split at h
        · rename_i hp
          cases h
          exact .unserved hw hrequests hp
        · rename_i p hp
          cases h
          exact .serve hw hrequests hp
  | worker w a =>
      rw [FetchState.step, Option.ite_none_right_eq_some] at h
      obtain ⟨hw, h⟩ := h
      obtain ⟨n, hstep, rfl⟩ := Option.map_eq_some_iff.mp h
      exact .worker hw hstep

theorem FetchState.worker_step_eq_some {cl : Cluster} {s t : FetchState} {w : NodeId}
    {a : FetchWorkerAction} (h : s.step cl (.worker w a) = some t) :
    w ∈ cl.workers ∧ ∃ n, (s.worker w).step w a = some n ∧ t = s.setWorker w n := by
  cases FetchState.step_effect h with
  | worker hw hstep => exact ⟨hw, _, hstep, rfl⟩

/-- What a step makes of worker `w`: it is left alone, takes a step, or loses the request that the
master serves. -/
theorem FetchState.step_worker {cl : Cluster} {s t : FetchState} {a : FetchAction} (w : NodeId)
    (h : s.step cl a = some t) :
    t.worker w = s.worker w ∨
    (∃ b, a = .worker w b ∧ w ∈ cl.workers ∧ (s.worker w).step w b = some (t.worker w)) ∨
    a = .serve w ∧ ∃ addr rest, (s.worker w).requests = addr :: rest ∧
      (t.worker w = { s.worker w with requests := rest } ∨
      ∃ p, s.master (pageBase addr) = some p ∧
        t.worker w = ({ s.worker w with requests := rest } : FetchWorker).answer addr p) := by
  cases FetchState.step_effect h with
  | alloc | write => exact .inl rfl
  | @unserved u addr rest hu hrequests hp =>
      by_cases hwu : w = u
      · subst hwu
        rw [FetchState.setWorker_worker_self]
        exact .inr (.inr ⟨rfl, addr, rest, hrequests, .inl rfl⟩)
      · exact .inl (FetchState.setWorker_worker_of_ne s _ hwu)
  | @serve u addr rest p hu hrequests hp =>
      by_cases hwu : w = u
      · subst hwu
        rw [FetchState.setWorker_worker_self]
        exact .inr (.inr ⟨rfl, addr, rest, hrequests, .inr ⟨p, hp, rfl⟩⟩)
      · exact .inl (FetchState.setWorker_worker_of_ne s _ hwu)
  | @worker u b n hu hstep =>
      by_cases hwu : w = u
      · subst hwu
        rw [FetchState.setWorker_worker_self]
        exact .inr (.inl ⟨b, rfl, hu, hstep⟩)
      · exact .inl (FetchState.setWorker_worker_of_ne s n hwu)

end Dsm
