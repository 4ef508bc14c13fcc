import Dsm.Tcp.NodeMachine

/-!
# The traffic of a cluster

One master and any number of workers that run this program and nothing else. Every node is a node of
`Dsm.Tcp.NodeMachine`, from the moment when `dsm_init_with_params` has set its role, and the messages
are those that the nodes themselves hand to a socket. A message that was sent stays: it may arrive at
any other node, at any time, in any order and more than once, so the machine says nothing about which
connection leads where, and what holds in all of its runs does not depend on that.

A worker hands its requests to `master_fd`, whether or not that is the right socket. Everything else is
sent through the node table.
-/

namespace Dsm

/-! ### What a node hands to its sockets -/

namespace NodeCtx

/-- A message to `dst`, with the header that `dsm_create_header` makes. -/
def message (c : NodeCtx) (type : MsgType) (dst : NodeId) (payload : List UInt8) : Message :=
  { header := (c.createHeader type dst payload.length).1, payload := payload }

/-- `dsm_tcp_broadcast`, on sockets that take the bytes. -/
def tcpBroadcast (c : NodeCtx) (m : Message) : List Message :=
  (c.table.filter fun node => node.nodeId != c.localNodeId && decide (0 ≤ node.tcpFd)).map fun node =>
    { m with header := { m.header with dstNode := UInt32.ofNat node.nodeId } }

/-- The request that `dsm_page_fault_handle` sends for a page; a worker asks the master over
`master_fd`. -/
def requestPage (c : NodeCtx) (page : Page) : List Message :=
  let owner := c.mem.faultOwner page
  let request := c.message .pageRequest owner (Bytes.le page.globalAddr 8 ++ Bytes.le 0 4)
  if c.mem.ctx.localRole = .worker ∧ owner = masterId then [request]
  else (c.tcpSend owner request).map (·.2)

/-- The messages of an action of the node. -/
def sends (c : NodeCtx) : NodeAction → List Message
  | .message r => (c.handleMessage r).sent.map (·.2)
  | .fault addr protectOk =>
      match c.mem.faultCheck addr protectOk with
      | (.ret _, _) => []
      | (.fetch page, mem) => requestPage { c with mem := mem } page
  | .lock l =>
      if maxLocks ≤ l ∨ c.isMaster then []
      else [c.message .lockRequest masterIdField (Bytes.le l 4)]
  | .unlock l =>
      if maxLocks ≤ l then []
      else if c.isMaster then
        (c.sendGrant (syncHandleLockRelease c.locks c.localNodeId l) l []).sent.map (·.2)
      else [c.message .lockRelease masterIdField (Bytes.le l 4)]
  | .barrier =>
      if c.isMaster then (c.barrierEnter c.localNodeId).sent.map (·.2)
      else [c.message .barrierEnter masterIdField []]
  | .memory _ | .store _ _ | .giveUp _ | .setFaultHandled _ | .join .. | .disconnect _
  | .setLogLevel _ => []

/-- The UDP listener of the master, once it has connected to a new node: it adds the node, tells it its
id, and sends the table to all nodes. -/
def welcome (c : NodeCtx) (ip : List UInt8) (port chunks : Nat) (sockfd : Int) (now : Nat)
    (mutexOk : Bool) : NodeCtx × List Message :=
  let (nodeId, table) := nodeTableAdd c.table ip port chunks .worker sockfd now mutexOk
  let c := { c with table := table }
  if nodeId ≤ 0 then (c, [])
  else
    let response := c.message .joinResponse nodeId.toNat (Bytes.le nodeId.toNat 4)
    let c := (c.createHeader .joinResponse nodeId.toNat 4).2
    match nodeTableSerialize c.table maxMessageSize with
    | none => (c, [response])
    | some buf =>
        ((c.createHeader .nodeTable 0 buf.length).2,
          response :: c.tcpBroadcast (c.message .nodeTable 0 buf))

/-- `dsm_tcp_shutdown` says goodbye to all nodes. -/
def goodbye (c : NodeCtx) : List Message := c.tcpBroadcast (c.message .shutdown 0 [])

/-! ### The initialisation -/

/-- A node whose role has just been set: the fields that `dsm_context_init` has cleared, and what
messages may have brought since. -/
def fresh (role : Role) (nodeId : NodeId) (table : NodeTable) (seqNum logLevel : Nat) : NodeCtx :=
  { mem := { ctx := .initial nodeId role, prot := fun _ => .none, bytes := fun _ => 0 }
    table := table, locks := fun _ => .free, barrier := { barrierId := 0, arrived := [] }
    faultHandled := false, seqNum := seqNum, logLevel := logLevel }

/-- The region that `dsm_mem_init` creates. -/
def initRegion (c : NodeCtx) (chunks addr : Nat) : Region :=
  .created (initSize chunks) c.localNodeId (c.mem.ctx.initBase chunks) addr

/-- `dsm_mem_init`, when `mmap` returns `addr`. -/
def memInit (c : NodeCtx) (chunks addr : Nat) : NodeCtx :=
  { c with mem := { c.mem.mapRegion (c.initRegion chunks addr) with
      ctx := (c.mem.ctx.memInit chunks (some addr)).2 } }

/-- `dsm_sync_init`. -/
def syncInit (c : NodeCtx) : NodeCtx :=
  { c with locks := fun _ => .free, barrier := { barrierId := 0, arrived := [] } }

end NodeCtx

/-! ### The cluster -/

/-- The nodes that run, and all messages that were sent, each with its sender. -/
structure ClusterState (ι : Type*) where
  node : ι → Option NodeCtx
  sent : List (ι × Message)

inductive ClusterAction (ι : Type*) where
  /-- The main thread of node `i` sets its role. -/
  | start (i : ι) (nodeId : NodeId) (table : NodeTable) (seqNum logLevel : Nat)
  | memInit (i : ι) (chunks addr : Nat)
  | syncInit (i : ι)
  /-- The threads of node `i` between messages; on the master this is also the call of
  `dsm_node_table_add` by which it adds itself. -/
  | call (i : ι) (a : NodeAction)
  | welcome (i : ι) (ip : List UInt8) (port chunks : Nat) (sockfd : Int) (now : Nat) (mutexOk : Bool)
  /-- Node `i` handles a message of node `j`. -/
  | deliver (i j : ι) (r : Received)
  /-- `dsm_finalize`, or the end of an initialisation that fails. -/
  | finalize (i : ι)

def NodeAction.isMessage : NodeAction → Bool
  | .message _ => true
  | _ => false

def NodeAction.isJoin : NodeAction → Bool
  | .join .. => true
  | _ => false

namespace ClusterState

variable {ι : Type*} [DecidableEq ι]

/-- Node `i` takes a step in which it sends messages. -/
def put (s : ClusterState ι) (i : ι) (c : Option NodeCtx) (messages : List Message) :
    ClusterState ι :=
  { node := Function.update s.node i c, sent := s.sent ++ messages.map (i, ·) }

def step (master : ι) (s : ClusterState ι) : ClusterAction ι → Option (ClusterState ι)
  | .start i nodeId table seqNum logLevel =>
      if (s.node i).isNone ∧ table.length ≤ maxNodes ∧ (∀ node ∈ table, node.tcpFd = -1) ∧
          (i = master → nodeId = masterId) then
        some (s.put i (some (.fresh (if i = master then .master else .worker) nodeId table seqNum
          logLevel)) [])
      else none
  | .memInit i chunks addr =>
      (s.node i).bind fun c =>
        if (c.initRegion chunks addr).Mapped c.mem.ctx then
          some (s.put i (some (c.memInit chunks addr)) [])
        else none
  | .syncInit i => (s.node i).map fun c => s.put i (some c.syncInit) []
  | .call i a =>
      (s.node i).bind fun c =>
        if a.isMessage ∨ (a.isJoin ∧ i ≠ master) then none
        else (c.step a).map fun c' => s.put i (some c') (c.sends a)
  | .welcome i ip port chunks sockfd now mutexOk =>
      (s.node i).bind fun c =>
        if c.isMaster ∧ 0 ≤ sockfd then
          let (c', messages) := c.welcome ip port chunks sockfd now mutexOk
          some (s.put i (some c') messages)
        else none
  | .deliver i j r =>
      (s.node i).bind fun c =>
        if i ≠ j ∧ (j, ⟨r.header, r.payload⟩) ∈ s.sent then
          (c.step (.message r)).map fun c' => s.put i (some c') (c.sends (.message r))
        else none
  | .finalize i => (s.node i).map fun c => s.put i none c.goodbye

end ClusterState

/-- The runs of a cluster whose master is `master`, in which no node has started yet. -/
def closedCluster {ι : Type*} [DecidableEq ι] (master : ι) : Machine (ClusterState ι) (ClusterAction ι) where
  start s := s = { node := fun _ => none, sent := [] }
  step := ClusterState.step master

end Dsm
