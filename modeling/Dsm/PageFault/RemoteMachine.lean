import Dsm.Memory.NodeMem

/-!
# Address spaces that share pages

A cluster in which every node has its own address space: the calls of the memory interface on each
node, the stores of its program, its fault thread in `dsm_page_fault_handle`, and its TCP thread in
`dsm_page_send` and `dsm_page_install`. The membership is fixed and every worker has joined: a worker
reaches the master over `master_fd`, the master reaches its workers over the sockets of its node
table, and the entries that a worker takes from `NODE_TABLE` have no socket.

The fault thread may be told about any address at any time, and a time-out may strike whenever it
waits. The copy in `dsm_page_install` may be observed after any number of bytes.
-/

namespace Dsm

/-- `PAGE_DATA` as `dsm_page_send` builds it; `data i` is byte `i` of the page. -/
structure PageCopy where
  globalAddr : Nat
  version : Nat
  data : Nat → UInt8

inductive PageMessage where
  | request (globalAddr : Nat)
  | data (copy : PageCopy)

/-- Where the fault thread is in `dsm_page_fault_handle`, with the address of the fault. -/
inductive RemotePc where
  | idle
  | check (addr : Nat)
  /-- Has marked the record pending and is about to look for the owner. -/
  | request (addr : Nat)
  /-- In the loop on `fault_cond`. -/
  | wait (addr : Nat)
  /-- About to set the record to invalid and to fail. -/
  | giveUp (addr : Nat)
deriving DecidableEq, Repr

/-- A `dsm_page_install` that holds the lock of its record; `copied` bytes are in place. -/
structure Copying where
  copy : PageCopy
  copied : Nat

structure RemoteNode where
  mem : NodeMem
  fault : RemotePc
  install : Option Copying
  /-- The addresses of the faults that `dsm_page_fault_handle` was called for, with what it returned. -/
  handled : List (Nat × Int)

/-- `channel i j` holds the messages on their way from node `i` to node `j`. -/
structure RemoteState where
  node : NodeId → RemoteNode
  channel : NodeId → NodeId → List PageMessage

inductive RemoteNodeAction where
  /-- `dsm_malloc`, `dsm_malloc_at`, `dsm_map_remote` or `dsm_free`. -/
  | call (a : MappingAction)
  | store (addr : Nat) (byte : UInt8)
  /-- The fault thread calls `dsm_page_fault_handle`. -/
  | fault (addr : Nat)
  | check (protectOk : Bool)
  | request (sendOk : Bool)
  | leave
  | timeout
  | giveUp
  /-- The TCP thread takes the next message of node `src`; `ok` is whether it can send the answer, or
  open the page for writing. -/
  | receive (src : NodeId) (ok : Bool)
  | copy (k : Nat)
  | finish (protectOk : Bool)
deriving DecidableEq, Repr

/-- The node that a node reaches over the node table. -/
def Cluster.tcpReaches (cl : Cluster) (i j : NodeId) : Bool := decide (i = masterId ∧ j ∈ cl.workers)

/-- The node that `dsm_page_fault_handle` sends its request to: the master over `master_fd`, any other
owner over the node table. -/
def Cluster.faultRoute (cl : Cluster) (i : NodeId) (role : Role) (owner : NodeId) : Option NodeId :=
  if role = .worker ∧ owner = masterId then some masterId
  else if cl.tcpReaches i owner then some owner
  else none

namespace RemoteNode

/-- Whether `dsm_page_install` holds the lock of the record. -/
def locked (n : RemoteNode) (page : Page) : Bool :=
  match n.install with
  | some i => (pageLookup n.mem.ctx.pageTable i.copy.globalAddr).map Page.addrs == some page.addrs
  | none => false

/-- The fault thread returns from `dsm_page_fault_handle`. -/
def ret (n : RemoteNode) (mem : NodeMem) (addr : Nat) (value : Int) : RemoteNode :=
  { n with mem := mem, fault := .idle, handled := n.handled ++ [(addr, value)] }

/-- The answer of `dsm_page_send` to a request for a page. -/
def pageSend (n : RemoteNode) (globalAddr : Nat) : Option PageCopy :=
  match pageLookup n.mem.ctx.pageTable globalAddr with
  | none => none
  | some page =>
      if page.localAddr = 0 then none
      else
        some { globalAddr := globalAddr, version := page.version
               data := fun i => n.mem.bytes (page.localAddr + i) }

/-- `dsm_page_install` up to its copy. -/
def openPage (n : RemoteNode) (copy : PageCopy) (protectOk : Bool) : RemoteNode :=
  match pageLookup n.mem.ctx.pageTable copy.globalAddr with
  | none => n
  | some page =>
      if page.localAddr = 0 then { n with mem := n.mem.markInstalled copy.globalAddr copy.version }
      else if protectOk then
        { n with
          mem := n.mem.protect page.localAddr pageSize .readWrite
          install := some { copy := copy, copied := 0 } }
      else n

/-- `memcpy` in `dsm_page_install` moves `k` further bytes. -/
def copyBytes (n : RemoteNode) (i : Copying) (page : Page) (k : Nat) : RemoteNode :=
  { n with
    mem := n.mem.store (page.localAddr + i.copied) (fun o => i.copy.data (i.copied + o)) k
    install := some { i with copied := i.copied + k } }

/-- `dsm_page_install` after its copy. -/
def closePage (n : RemoteNode) (i : Copying) (page : Page) (protectOk : Bool) : RemoteNode :=
  { n with
    mem := if protectOk then
        (n.mem.protect page.localAddr pageSize .read).markInstalled i.copy.globalAddr i.copy.version
      else n.mem
    install := none }

/-- The steps of node `i`: the state that it leaves, and the message that it sends. A step that
receives a message is given it as `incoming`. -/
def step (cl : Cluster) (i : NodeId) (n : RemoteNode) (incoming : Option PageMessage) :
    RemoteNodeAction → Option (RemoteNode × Option (NodeId × PageMessage))
  | .call a =>
      if ∀ r ∈ a.creates n.mem.ctx, r.Mapped n.mem.ctx then
        some ({ n with mem := n.mem.call a }, none)
      else none
  | .store addr byte =>
      if n.mem.prot addr = .readWrite then
        some ({ n with mem := n.mem.store addr (fun _ => byte) 1 }, none)
      else none
  | .fault addr => if n.fault = .idle then some ({ n with fault := .check addr }, none) else none
  | .check protectOk =>
      match n.fault with
      | .check addr =>
          if (pageLookupLocal n.mem.ctx.pageTable addr).any n.locked then none
          else
            match n.mem.faultCheck addr protectOk with
            | (.ret value, mem) => some (n.ret mem addr value, none)
            | (.fetch _, mem) => some ({ n with mem := mem, fault := .request addr }, none)
      | _ => none
  | .request sendOk =>
      match n.fault with
      | .request addr =>
          match pageLookupLocal n.mem.ctx.pageTable addr with
          | none => none
          | some page =>
              match cl.faultRoute i n.mem.ctx.localRole (n.mem.faultOwner page) with
              | some owner =>
                  if sendOk then
                    some ({ n with fault := .wait addr }, some (owner, .request page.globalAddr))
                  else some ({ n with fault := .giveUp addr }, none)
              | none => some ({ n with fault := .giveUp addr }, none)
      | _ => none
  | .leave =>
      match n.fault with
      | .wait addr =>
          if (pageLookupLocal n.mem.ctx.pageTable addr).map (·.state) = some .pending then none
          else some (n.ret n.mem addr 0, none)
      | _ => none
  | .timeout =>
      match n.fault with
      | .wait addr => some ({ n with fault := .giveUp addr }, none)
      | _ => none
  | .giveUp =>
      match n.fault with
      | .giveUp addr =>
          if (pageLookupLocal n.mem.ctx.pageTable addr).any n.locked then none
          else
            some (n.ret (n.mem.updatePageLocal addr ({ · with state := .invalid })) addr (-1), none)
      | _ => none
  | .receive src ok =>
      match n.install, incoming with
      | none, some (.request globalAddr) =>
          match n.pageSend globalAddr with
          | some copy =>
              if ok && cl.tcpReaches i src then some (n, some (src, .data copy)) else some (n, none)
          | none => some (n, none)
      | none, some (.data copy) => some (n.openPage copy ok, none)
      | _, _ => none
  | .copy k =>
      match n.install with
      | some i =>
          match pageLookup n.mem.ctx.pageTable i.copy.globalAddr with
          | some page =>
              if 0 < k ∧ i.copied + k ≤ pageSize then some (n.copyBytes i page k, none) else none
          | none => none
      | none => none
  | .finish protectOk =>
      match n.install with
      | some i =>
          match pageLookup n.mem.ctx.pageTable i.copy.globalAddr with
          | some page =>
              if i.copied = pageSize then some (n.closePage i page protectOk, none) else none
          | none => none
      | none => none

end RemoteNode

namespace RemoteState

/-- The message that a step of node `i` takes. -/
def incoming (s : RemoteState) (i : NodeId) : RemoteNodeAction → Option PageMessage
  | .receive src _ => (s.channel src i).head?
  | _ => none

/-- The channel without the message that a step of node `i` takes. -/
def taken (s : RemoteState) (i : NodeId) (a : RemoteNodeAction) (j k : NodeId) : List PageMessage :=
  match a with
  | .receive src _ => if j = src ∧ k = i then (s.channel j k).tail else s.channel j k
  | _ => s.channel j k

/-- Node `i` has taken a step to `n` and sent `out`. -/
def stepped (s : RemoteState) (i : NodeId) (a : RemoteNodeAction) (n : RemoteNode)
    (out : Option (NodeId × PageMessage)) : RemoteState :=
  { node := Function.update s.node i n
    channel := fun j k => s.taken i a j k ++
      match out with
      | some (dst, message) => if j = i ∧ k = dst then [message] else []
      | none => [] }

def step (cl : Cluster) (s : RemoteState) (a : NodeId × RemoteNodeAction) : Option RemoteState :=
  if a.1 ∈ cl.nodes then
    ((s.node a.1).step cl a.1 (s.incoming a.1 a.2) a.2).map fun out =>
      s.stepped a.1 a.2 out.1 out.2
  else none

end RemoteState

/-- Every node has been initialised, and the workers have joined. -/
structure RemoteStart (cl : Cluster) (s : RemoteState) : Prop where
  mem : ∀ i ∈ cl.nodes, MappingStart (s.node i).mem.ctx
  localNodeId : ∀ i ∈ cl.nodes, (s.node i).mem.ctx.localNodeId = i
  localRole : ∀ i ∈ cl.nodes,
    (s.node i).mem.ctx.localRole = if i = masterId then .master else .worker
  fault : ∀ i, (s.node i).fault = .idle
  install : ∀ i, (s.node i).install = none
  handled : ∀ i, (s.node i).handled = []
  channel : ∀ i j, s.channel i j = []

def remoteMachine (cl : Cluster) : Machine RemoteState (NodeId × RemoteNodeAction) where
  start := RemoteStart cl
  step := RemoteState.step cl

/-! ### The two halves of a transfer -/

theorem RemoteNode.pageData_eq (n : RemoteNode) (g : Nat) : n.mem.pageData g =
    (n.pageSend g).map fun copy => Bytes.le copy.globalAddr 8 ++ Bytes.le pageSize 4 ++
      Bytes.le copy.version 8 ++ (List.range pageSize).map copy.data := by
  cases hpage : pageLookup n.mem.ctx.pageTable g with
  | none => simp [NodeMem.pageData, RemoteNode.pageSend, hpage]
  | some page =>
      by_cases hlocal : page.localAddr = 0
      · simp [NodeMem.pageData, RemoteNode.pageSend, hpage, hlocal]
      · simp [NodeMem.pageData, RemoteNode.pageSend, hpage, hlocal]

theorem RemoteNode.mem_install (n : RemoteNode) {copy : PageCopy} {page : Page}
    (hpage : pageLookup n.mem.ctx.pageTable copy.globalAddr = some page)
    (hlocal : page.localAddr ≠ 0) (readOk : Bool) :
    (((n.openPage copy true).copyBytes ⟨copy, 0⟩ page pageSize).closePage ⟨copy, pageSize⟩ page
      readOk).mem =
        (n.mem.pageInstall copy.globalAddr copy.data pageSize copy.version true readOk).2 := by
  cases readOk <;>
    simp [RemoteNode.openPage, RemoteNode.copyBytes, RemoteNode.closePage, NodeMem.pageInstall, hpage,
      hlocal]

/-! ### What a step of a node can do -/

/-- The effects of the steps of node `i`. -/
inductive RemoteNode.Effect (cl : Cluster) (i : NodeId) (n : RemoteNode)
    (incoming : Option PageMessage) :
    RemoteNodeAction → RemoteNode → Option (NodeId × PageMessage) → Prop where
  | call {a : MappingAction} (hmapped : ∀ r ∈ a.creates n.mem.ctx, r.Mapped n.mem.ctx) :
      Effect cl i n incoming (.call a) { n with mem := n.mem.call a } none
  | store {addr : Nat} {byte : UInt8} :
      Effect cl i n incoming (.store addr byte)
        { n with mem := n.mem.store addr (fun _ => byte) 1 } none
  | fault {addr : Nat} : Effect cl i n incoming (.fault addr) { n with fault := .check addr } none
  | checkRet {addr : Nat} {value : Int} {mem : NodeMem} {protectOk : Bool}
      (hcheck : n.mem.faultCheck addr protectOk = (.ret value, mem)) :
      Effect cl i n incoming (.check protectOk) (n.ret mem addr value) none
  | checkFetch {addr : Nat} {page : Page} {mem : NodeMem} {protectOk : Bool}
      (hcheck : n.mem.faultCheck addr protectOk = (.fetch page, mem)) :
      Effect cl i n incoming (.check protectOk) { n with mem := mem, fault := .request addr } none
  | request {addr : Nat} {page : Page} {owner : NodeId} {sendOk : Bool}
      (hpc : n.fault = .request addr)
      (hpage : pageLookupLocal n.mem.ctx.pageTable addr = some page)
      (hroute : cl.faultRoute i n.mem.ctx.localRole (n.mem.faultOwner page) = some owner) :
      Effect cl i n incoming (.request sendOk) { n with fault := .wait addr }
        (some (owner, .request page.globalAddr))
  | unsent {addr : Nat} {sendOk : Bool} (hpc : n.fault = .request addr) :
      Effect cl i n incoming (.request sendOk) { n with fault := .giveUp addr } none
  | leave {addr : Nat} (hpc : n.fault = .wait addr)
      (hstate : (pageLookupLocal n.mem.ctx.pageTable addr).map (·.state) ≠ some .pending) :
      Effect cl i n incoming .leave (n.ret n.mem addr 0) none
  | timeout {addr : Nat} (hpc : n.fault = .wait addr) :
      Effect cl i n incoming .timeout { n with fault := .giveUp addr } none
  | giveUp {addr : Nat} (hpc : n.fault = .giveUp addr) :
      Effect cl i n incoming .giveUp
        (n.ret (n.mem.updatePageLocal addr ({ · with state := .invalid })) addr (-1)) none
  | answer {src : NodeId} {ok : Bool} {globalAddr : Nat} {copy : PageCopy}
      (hin : incoming = some (.request globalAddr)) (hcopy : n.pageSend globalAddr = some copy)
      (hreach : cl.tcpReaches i src = true) :
      Effect cl i n incoming (.receive src ok) n (some (src, .data copy))
  | ignore {src : NodeId} {ok : Bool} : Effect cl i n incoming (.receive src ok) n none
  | openPage {src : NodeId} {ok : Bool} {copy : PageCopy} (hin : incoming = some (.data copy)) :
      Effect cl i n incoming (.receive src ok) (n.openPage copy ok) none
  | copy {k : Nat} {c : Copying} {page : Page} (hinstall : n.install = some c)
      (hpage : pageLookup n.mem.ctx.pageTable c.copy.globalAddr = some page)
      (hk : c.copied + k ≤ pageSize) :
      Effect cl i n incoming (.copy k) (n.copyBytes c page k) none
  | finish {protectOk : Bool} {c : Copying} {page : Page} (hinstall : n.install = some c)
      (hpage : pageLookup n.mem.ctx.pageTable c.copy.globalAddr = some page)
      (hdone : c.copied = pageSize) :
      Effect cl i n incoming (.finish protectOk) (n.closePage c page protectOk) none

theorem RemoteNode.step_effect {cl : Cluster} {i : NodeId} {n n' : RemoteNode}
    {incoming : Option PageMessage} {a : RemoteNodeAction} {out : Option (NodeId × PageMessage)}
    (h : n.step cl i incoming a = some (n', out)) : n.Effect cl i incoming a n' out := by
  cases a with
  | call a =>
      rw [RemoteNode.step, Option.ite_none_right_eq_some] at h
      obtain ⟨hmapped, heq⟩ := h
      cases heq
      exact .call hmapped
  | store addr byte =>
      rw [RemoteNode.step, Option.ite_none_right_eq_some] at h
      cases h.2
      exact .store
  | fault addr =>
      rw [RemoteNode.step, Option.ite_none_right_eq_some] at h
      cases h.2
      exact .fault
  | check protectOk =>
      simp only [RemoteNode.step] at h
      split at h
      · rename_i addr hpc
        rw [Option.ite_none_left_eq_some] at h
        obtain ⟨-, h⟩ := h
        split at h
        · rename_i value mem hcheck
          cases h
          exact .checkRet hcheck
        · rename_i page mem hcheck
          cases h
          exact .checkFetch hcheck
      · cases h
  | request sendOk =>
      simp only [RemoteNode.step] at h
      split at h
      · rename_i addr hpc
        split at h
        · cases h
        · rename_i page hpage
          split at h
          · rename_i owner hroute
            split_ifs at h
            · cases h
              exact .request hpc hpage hroute
            · cases h
              exact .unsent hpc
          · cases h
            exact .unsent hpc
      · cases h
  | leave =>
      simp only [RemoteNode.step] at h
      split at h
      · rename_i addr hpc
        rw [Option.ite_none_left_eq_some] at h
        obtain ⟨hstate, heq⟩ := h
        cases heq
        exact .leave hpc hstate
      · cases h
  | timeout =>
      simp only [RemoteNode.step] at h
      split at h
      · rename_i addr hpc
        cases h
        exact .timeout hpc
      · cases h
  | giveUp =>
      simp only [RemoteNode.step] at h
      split at h
      · rename_i addr hpc
        rw [Option.ite_none_left_eq_some] at h
        cases h.2
        exact .giveUp hpc
      · cases h
  | receive src ok =>
      simp only [RemoteNode.step] at h
      split at h
      · split at h
        · rename_i copy hcopy
          split_ifs at h with hsend
          · cases h
            exact .answer rfl hcopy (Bool.and_eq_true_iff.mp hsend).2
          · cases h
            exact .ignore
        · cases h
          exact .ignore
      · cases h
        exact .openPage rfl
      · cases h
  | copy k =>
      simp only [RemoteNode.step] at h
      split at h
      · rename_i c hinstall
        split at h
        · rename_i page hpage
          rw [Option.ite_none_right_eq_some] at h
          obtain ⟨hk, heq⟩ := h
          cases heq
          exact .copy hinstall hpage hk.2
        · cases h
      · cases h
  | finish protectOk =>
      simp only [RemoteNode.step] at h
      split at h
      · rename_i c hinstall
        split at h
        · rename_i page hpage
          rw [Option.ite_none_right_eq_some] at h
          obtain ⟨hdone, heq⟩ := h
          cases heq
          exact .finish hinstall hpage hdone
        · cases h
      · cases h

/-! ### What a step does to the channels -/

namespace RemoteState

variable {s : RemoteState} {i : NodeId} {a : RemoteNodeAction} {n : RemoteNode}
  {out : Option (NodeId × PageMessage)}

@[simp] theorem stepped_node_self : (s.stepped i a n out).node i = n := Function.update_self ..

theorem stepped_node_of_ne {j : NodeId} (h : j ≠ i) : (s.stepped i a n out).node j = s.node j :=
  Function.update_of_ne h ..

theorem mem_taken {j k : NodeId} {m : PageMessage} (h : m ∈ s.taken i a j k) :
    m ∈ s.channel j k := by
  unfold taken at h
  split at h
  · split_ifs at h
    · exact List.mem_of_mem_tail h
    · exact h
  · exact h

theorem mem_stepped_channel {j k : NodeId} {m : PageMessage}
    (h : m ∈ (s.stepped i a n out).channel j k) :
    m ∈ s.channel j k ∨ j = i ∧ out = some (k, m) := by
  rcases List.mem_append.mp h with h | h
  · exact .inl (mem_taken h)
  · split at h
    · rename_i dst message
      split_ifs at h with hto
      · obtain ⟨rfl, rfl⟩ := hto
        rw [List.mem_singleton.mp h]
        exact .inr ⟨rfl, rfl⟩
      · cases h
    · cases h

theorem exists_mem_channel {m : PageMessage} (h : s.incoming i a = some m) :
    ∃ src, m ∈ s.channel src i := by
  unfold incoming at h
  split at h
  · exact ⟨_, List.mem_of_mem_head? h⟩
  · cases h

theorem step_eq_some {cl : Cluster} {t : RemoteState} {b : NodeId × RemoteNodeAction}
    (h : s.step cl b = some t) : b.1 ∈ cl.nodes ∧ ∃ n out,
      (s.node b.1).step cl b.1 (s.incoming b.1 b.2) b.2 = some (n, out) ∧
        t = s.stepped b.1 b.2 n out := by
  rw [step, Option.ite_none_right_eq_some] at h
  obtain ⟨hnode, hstep⟩ := h
  obtain ⟨⟨n, out⟩, hout, rfl⟩ := Option.map_eq_some_iff.mp hstep
  exact ⟨hnode, n, out, hout, rfl⟩

/-- What holds of a node before a step holds of it after the step, if its own steps keep it. -/
theorem step_node {cl : Cluster} {t : RemoteState} {b : NodeId × RemoteNodeAction}
    {P : RemoteNode → Prop} {j : NodeId} (h : s.step cl b = some t) (hs : P (s.node j))
    (hkeep : ∀ n out, b.1 = j → (s.node j).Effect cl j (s.incoming j b.2) b.2 n out → P n) :
    P (t.node j) := by
  obtain ⟨-, n, out, hn, rfl⟩ := step_eq_some h
  by_cases hj : j = b.1
  · subst hj
    rw [stepped_node_self]
    exact hkeep n out rfl (RemoteNode.step_effect hn)
  · rw [stepped_node_of_ne hj]
    exact hs

/-- A message in a channel after a step was there before, or has been sent in the step. -/
theorem step_channel {cl : Cluster} {t : RemoteState} {b : NodeId × RemoteNodeAction} {j k : NodeId}
    {m : PageMessage} (h : s.step cl b = some t) (hm : m ∈ t.channel j k) :
    m ∈ s.channel j k ∨ b.1 = j ∧ ∃ n,
      (s.node j).Effect cl j (s.incoming j b.2) b.2 n (some (k, m)) := by
  obtain ⟨-, n, out, hn, rfl⟩ := step_eq_some h
  rcases mem_stepped_channel hm with hold | ⟨rfl, rfl⟩
  · exact .inl hold
  · exact .inr ⟨rfl, n, RemoteNode.step_effect hn⟩

end RemoteState

end Dsm
