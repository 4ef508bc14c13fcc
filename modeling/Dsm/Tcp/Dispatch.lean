import Dsm.Memory.NodeMem
import Dsm.Network.TableMessage
import Dsm.Sync.Lock
import Dsm.Sync.BarrierMachine
import Dsm.Tcp.Message

/-!
# The dispatcher

`dsm_handle_message` on the whole context of a node, with the handlers that it calls. A handler
returns the context that it leaves and the messages that it hands to a socket, and beside them it
lists what it touches: the bytes of the payload, and the elements of the fixed arrays of the context.
What it reads behind the end of the payload is whatever memory holds there.
-/

namespace Dsm

/-- The values of `dsm_msg_type_t` that the dispatcher has a case for. -/
inductive MsgType where
  | joinResponse
  | nodeTable
  | newNode
  | nodeLeft
  | pageRequest
  | pageData
  | allocRequest
  | allocResponse
  | lockRequest
  | lockGrant
  | lockRelease
  | barrierEnter
  | barrierRelease
  | heartbeat
  | heartbeatAck
  | shutdown
deriving DecidableEq, Repr

namespace MsgType

def code : MsgType → UInt32
  | .joinResponse => 0x04
  | .nodeTable => 0x05
  | .newNode => 0x06
  | .nodeLeft => 0x07
  | .pageRequest => 0x10
  | .pageData => 0x11
  | .allocRequest => 0x20
  | .allocResponse => 0x21
  | .lockRequest => 0x30
  | .lockGrant => 0x31
  | .lockRelease => 0x32
  | .barrierEnter => 0x34
  | .barrierRelease => 0x35
  | .heartbeat => 0x40
  | .heartbeatAck => 0x41
  | .shutdown => 0x42

def all : List MsgType :=
  [.joinResponse, .nodeTable, .newNode, .nodeLeft, .pageRequest, .pageData, .allocRequest,
    .allocResponse, .lockRequest, .lockGrant, .lockRelease, .barrierEnter, .barrierRelease,
    .heartbeat, .heartbeatAck, .shutdown]

/-- The case of the switch that a value selects; `none` is the default. -/
def ofCode (code : UInt32) : Option MsgType := all.find? (·.code == code)

theorem ofCode_code (t : MsgType) : ofCode t.code = some t := by
  cases t <;> decide

end MsgType

/-- `LOG_LEVEL_DEBUG` and `LOG_LEVEL_INFO`. -/
def logLevelDebug : Nat := 0

def logLevelInfo : Nat := 1

/-- The parts of `dsm_context_t` that messages can read or change. -/
structure NodeCtx where
  mem : NodeMem
  table : NodeTable
  locks : LockTable
  barrier : Barrier
  faultHandled : Bool
  seqNum : Nat
  logLevel : Nat

/-- One call of `dsm_handle_message`: the header, the payload buffer (empty where the pointer is
`NULL`), and what the rest of memory and the operating system have to say. -/
structure Received where
  header : Header
  payload : List UInt8
  length : payload.length = header.payloadLen.toNat
  /-- The bytes that memory holds behind the payload. -/
  beyond : Nat → UInt8
  now : Nat
  /-- Whether the buffer of `dsm_page_send` is allocated. -/
  bufOk : Bool
  /-- Whether the two `mprotect` of `dsm_page_install` succeed. -/
  writeOk : Bool
  readOk : Bool

namespace Received

def len (r : Received) : Nat := r.header.payloadLen.toNat

def src (r : Received) : NodeId := r.header.srcNode.toNat

def type (r : Received) : Option MsgType := MsgType.ofCode r.header.type

def byte (r : Received) (i : Nat) : UInt8 := (r.payload[i]?).getD (r.beyond i)

/-- The unsigned integer of `k` bytes at an offset. -/
def field (r : Received) (offset k : Nat) : Nat :=
  Bytes.ofLe ((List.range k).map fun i => r.byte (offset + i))

end Received

/-- Something that a handler touches. -/
inductive Access where
  | payload (offset size : Nat)
  | lock (i : Nat)
  | waiter (i : Nat)
  | arrived (i : Nat)
  | node (i : Nat)
deriving DecidableEq, Repr

/-- Inside the payload of `len` bytes, and inside the fixed arrays. -/
def Access.InBounds (len : Nat) : Access → Prop
  | .payload offset size => size = 0 ∨ offset + size ≤ len
  | .lock i => i < maxLocks
  | .waiter i => i < maxNodes
  | .arrived i => i < maxNodes
  | .node i => i < maxNodes

structure Handled where
  ctx : NodeCtx
  accesses : List Access
  sent : List (NodeId × Message)

/-! ### What the functions below the dispatcher touch -/

/-- The entries that a scan for the first match reads. -/
def NodeTable.scan (table : NodeTable) (p : Node → Bool) : List Access :=
  (List.range (min (table.findIdx p + 1) table.length)).map .node

/-- `dsm_node_table_get`. -/
def NodeTable.getAccesses (table : NodeTable) (nodeId : NodeId) : List Access :=
  table.scan (·.nodeId == nodeId)

/-- `dsm_node_table_remove`: the scan, and the shift behind the entry. -/
def NodeTable.removeAccesses (table : NodeTable) (nodeId : NodeId) : List Access :=
  table.getAccesses nodeId ++
    if table.any (·.nodeId == nodeId) then
      (List.range (table.length - table.findIdx (·.nodeId == nodeId))).map fun i =>
        .node (table.findIdx (·.nodeId == nodeId) + i)
    else []

/-- The loop of `dsm_node_table_deserialize` from entry `i` of the message on. -/
def NodeTable.mergeAccesses (now : Nat) (table : NodeTable) (i : Nat) : List NodeInfo → List Access
  | [] => []
  | info :: infos =>
      (.payload (nodeTableHeaderSize + i * nodeInfoSize) nodeInfoSize ::
          table.getAccesses info.nodeId.toNat) ++
        (if !table.any (·.nodeId == info.nodeId.toNat) && table.length < maxNodes then
          [.node table.length] else []) ++
        mergeAccesses now (nodeTableMerge now table info) (i + 1) infos

def nodeTableDeserializeAccesses (table : NodeTable) (buf : List UInt8) (now : Nat) : List Access :=
  if buf.length < nodeTableHeaderSize then []
  else
    let count := Bytes.field buf 0 4
    .payload 0 4 ::
      if buf.length < nodeTableHeaderSize + count * nodeInfoSize then []
      else table.mergeAccesses now 0 (nodeInfos (buf.drop nodeTableHeaderSize) count)

/-- `dsm_node_table_heartbeat` at time `now`. -/
def nodeTableHeartbeat (table : NodeTable) (nodeId : NodeId) (now : Nat) : NodeTable :=
  (table.updateFirst (·.nodeId == nodeId) ({ · with lastHeartbeat := now })).getD table

def syncHandleLockRequestAccesses (locks : LockTable) (lockId : LockId) : List Access :=
  if maxLocks ≤ lockId then []
  else
    .lock lockId ::
      if (locks lockId).locked && (locks lockId).waiters.length < maxNodes then
        [.waiter (locks lockId).waiters.length]
      else []

def syncHandleLockReleaseAccesses (locks : LockTable) (fromNode : NodeId) (lockId : LockId) :
    List Access :=
  if maxLocks ≤ lockId then []
  else
    .lock lockId ::
      if (locks lockId).heldBy fromNode then
        (List.range (locks lockId).waiters.length).map .waiter
      else []

/-- `dsm_sync_handle_barrier_enter`, which keeps the mutex from its start to its end, with
`dsm_node_table_count()` being `total`; the nodes are those of the release loop. -/
def syncHandleBarrierEnter (barrier : Barrier) (total : Nat) (fromNode : NodeId) :
    Barrier × Option (List NodeId) :=
  let arrived := barrier.arrived ++ [fromNode]
  if total ≤ arrived.length then
    ({ barrierId := (barrier.barrierId + 1) % 2 ^ 32, arrived := [] }, some arrived)
  else ({ barrier with arrived := arrived }, none)

def syncHandleBarrierEnterAccesses (barrier : Barrier) (total : Nat) : List Access :=
  .arrived barrier.arrived.length ::
    if total ≤ barrier.arrived.length + 1 then
      (List.range (barrier.arrived.length + 1)).map .arrived
    else []

namespace NodeCtx

def localNodeId (c : NodeCtx) : NodeId := c.mem.ctx.localNodeId

def isMaster (c : NodeCtx) : Bool := c.mem.ctx.localRole = .master

/-- `dsm_create_header`. -/
def createHeader (c : NodeCtx) (type : MsgType) (dst : NodeId) (payloadLen : Nat) :
    Header × NodeCtx :=
  ({ magic := magic, type := type.code, srcNode := UInt32.ofNat c.localNodeId
     dstNode := UInt32.ofNat dst, seqNum := UInt32.ofNat c.seqNum
     payloadLen := UInt32.ofNat payloadLen },
    { c with seqNum := (c.seqNum + 1) % 2 ^ 32 })

/-- `dsm_tcp_send` of a message to node `dst`, if that node is connected. -/
def tcpSend (c : NodeCtx) (dst : NodeId) (m : Message) : List (NodeId × Message) :=
  if c.table.sends dst true then [(dst, m)] else []

/-! ### The cases of the switch -/

/-- Nothing changes, and only `accesses` are made. -/
def keep (c : NodeCtx) (accesses : List Access) : Handled :=
  { ctx := c, accesses := accesses, sent := [] }

def handleJoinResponse (c : NodeCtx) (r : Received) : Handled :=
  if 4 ≤ r.len then
    { ctx := { c with mem := { c.mem with ctx := { c.mem.ctx with localNodeId := r.field 0 4 } } }
      accesses := [.payload 0 4], sent := [] }
  else c.keep []

def handleNodeTable (c : NodeCtx) (r : Received) : Handled :=
  { ctx := { c with table := (nodeTableDeserialize c.table r.payload r.now).2 }
    accesses := nodeTableDeserializeAccesses c.table r.payload r.now, sent := [] }

/-- The bytes that `printf` reads of a string at an offset; where the payload does not end the string,
the last of them is the first byte behind the payload. -/
def stringAccess (r : Received) (offset : Nat) : Access :=
  .payload offset ((cString (r.payload.drop offset)).length + 1)

def handleNewNode (c : NodeCtx) (r : Received) : Handled :=
  if nodeInfoSize ≤ r.len ∧ c.logLevel ≤ logLevelInfo then
    c.keep [.payload 0 4, stringAccess r 4, .payload 20 2]
  else c.keep []

def handleNodeLeft (c : NodeCtx) (r : Received) : Handled :=
  if 4 ≤ r.len then
    { ctx := { c with table := (nodeTableRemove c.table (r.field 0 4)).2 }
      accesses := .payload 0 4 :: c.table.removeAccesses (r.field 0 4), sent := [] }
  else c.keep []

/-- `PAGE_REQUEST`, and `dsm_page_send`. -/
def handlePageRequest (c : NodeCtx) (r : Received) : Handled :=
  if 12 ≤ r.len then
    match c.mem.pageData (r.field 0 8) with
    | none => c.keep [.payload 0 8]
    | some payload =>
        if !r.bufOk then c.keep [.payload 0 8]
        else
          let (header, c') := c.createHeader .pageData r.src payload.length
          { ctx := c', accesses := .payload 0 8 :: c.table.getAccesses r.src
            sent := c.tcpSend r.src { header := header, payload := payload } }
  else c.keep []

/-- The bytes of the payload that `dsm_page_install` copies. -/
def installAccesses (c : NodeCtx) (r : Received) : List Access :=
  match pageLookup c.mem.ctx.pageTable (r.field 0 8) with
  | some page => if page.localAddr ≠ 0 ∧ r.writeOk = true then [.payload 20 (r.field 8 4)] else []
  | none => []

def handlePageData (c : NodeCtx) (r : Received) : Handled :=
  if 20 ≤ r.len then
    let (ret, mem) := c.mem.pageInstall (r.field 0 8) (fun i => r.byte (20 + i)) (r.field 8 4)
      (r.field 12 8) r.writeOk r.readOk
    { ctx := { c with mem := mem, faultHandled := c.faultHandled || ret == 0 }
      accesses := [.payload 0 8, .payload 8 4, .payload 12 8] ++ c.installAccesses r, sent := [] }
  else c.keep []

/-- `ALLOC_REQUEST` is the one case that reads the payload without a look at its length. -/
def handleAllocRequest (c : NodeCtx) (r : Received) : Handled :=
  if c.isMaster then
    let addr := c.mem.ctx.nextGlobalAddr
    let alignedSize := roundUpPage (r.field 0 8)
    let ctx := (c.mem.ctx.bump alignedSize).registerOwnership addr alignedSize r.src
    let resp := Bytes.le addr 8 ++ Bytes.le alignedSize 8 ++ Bytes.le r.src 4 ++
      Bytes.le (r.field 8 4) 4
    let (header, c') := c.createHeader .allocResponse r.src resp.length
    { ctx := { c' with mem := { c.mem with ctx := ctx } }
      accesses := .payload 0 8 :: .payload 8 4 :: c.table.getAccesses r.src
      sent := c.tcpSend r.src { header := header, payload := resp } }
  else c.keep []

def handleAllocResponse (c : NodeCtx) (r : Received) : Handled :=
  if 24 ≤ r.len ∧ c.logLevel ≤ logLevelDebug then c.keep [.payload 0 8, .payload 8 8]
  else c.keep []

/-- The `LOCK_GRANT` that a handler of `dsm_sync.c` sends after it has released the mutex. -/
def sendGrant (c : NodeCtx) (out : LockOutcome) (lockId : LockId) (accesses : List Access) :
    Handled :=
  match out.grant with
  | none => { ctx := { c with locks := out.locks }, accesses := accesses, sent := [] }
  | some node =>
      let (header, c') := c.createHeader .lockGrant node 4
      { ctx := { c' with locks := out.locks }, accesses := accesses ++ c.table.getAccesses node
        sent := c.tcpSend node { header := header, payload := Bytes.le lockId 4 } }

def handleLockRequest (c : NodeCtx) (r : Received) : Handled :=
  if c.isMaster ∧ 4 ≤ r.len then
    c.sendGrant (syncHandleLockRequest c.locks r.src (r.field 0 4)) (r.field 0 4)
      (.payload 0 4 :: syncHandleLockRequestAccesses c.locks (r.field 0 4))
  else c.keep []

/-- The record of a lock id from 256 on stands for the memory behind the array. -/
def handleLockGrant (c : NodeCtx) (r : Received) : Handled :=
  if 4 ≤ r.len then
    let lockId := r.field 0 4
    let lock := { c.locks lockId with locked := true, holderId := c.localNodeId }
    { ctx := { c with locks := Function.update c.locks lockId lock }
      accesses := [.payload 0 4, .lock lockId], sent := [] }
  else c.keep []

def handleLockRelease (c : NodeCtx) (r : Received) : Handled :=
  if c.isMaster ∧ 4 ≤ r.len then
    c.sendGrant (syncHandleLockRelease c.locks r.src (r.field 0 4)) (r.field 0 4)
      (.payload 0 4 :: syncHandleLockReleaseAccesses c.locks r.src (r.field 0 4))
  else c.keep []

/-- `dsm_sync_handle_barrier_enter` with its sends; the one header is sent to every node in turn. -/
def barrierEnter (c : NodeCtx) (fromNode : NodeId) : Handled :=
  let accesses := syncHandleBarrierEnterAccesses c.barrier c.table.length
  match syncHandleBarrierEnter c.barrier c.table.length fromNode with
  | (barrier, none) => { ctx := { c with barrier := barrier }, accesses := accesses, sent := [] }
  | (barrier, some arrived) =>
      let (header, c') := c.createHeader .barrierRelease 0 0
      let others := arrived.filter (· != c.localNodeId)
      { ctx := { c' with barrier := barrier }
        accesses := accesses ++ others.flatMap c.table.getAccesses
        sent := others.flatMap fun node =>
          c.tcpSend node { header := { header with dstNode := UInt32.ofNat node }, payload := [] } }

def handleBarrierEnter (c : NodeCtx) (r : Received) : Handled :=
  if c.isMaster then c.barrierEnter r.src else c.keep []

def handleHeartbeat (c : NodeCtx) (r : Received) : Handled :=
  let c' := { c with table := nodeTableHeartbeat c.table r.src r.now }
  let (header, c'') := c'.createHeader .heartbeatAck r.src 0
  { ctx := c'', accesses := c.table.getAccesses r.src ++ c'.table.getAccesses r.src
    sent := c'.tcpSend r.src { header := header, payload := [] } }

def handleHeartbeatAck (c : NodeCtx) (r : Received) : Handled :=
  { ctx := { c with table := nodeTableHeartbeat c.table r.src r.now }
    accesses := c.table.getAccesses r.src, sent := [] }

def handleShutdown (c : NodeCtx) (r : Received) : Handled :=
  { ctx := { c with table := (nodeTableRemove c.table r.src).2 }
    accesses := c.table.removeAccesses r.src, sent := [] }

/-- `dsm_handle_message`. -/
def handleMessage (c : NodeCtx) (r : Received) : Handled :=
  match r.type with
  | some .joinResponse => c.handleJoinResponse r
  | some .nodeTable => c.handleNodeTable r
  | some .newNode => c.handleNewNode r
  | some .nodeLeft => c.handleNodeLeft r
  | some .pageRequest => c.handlePageRequest r
  | some .pageData => c.handlePageData r
  | some .allocRequest => c.handleAllocRequest r
  | some .allocResponse => c.handleAllocResponse r
  | some .lockRequest => c.handleLockRequest r
  | some .lockGrant => c.handleLockGrant r
  | some .lockRelease => c.handleLockRelease r
  | some .barrierEnter => c.handleBarrierEnter r
  | some .barrierRelease => c.keep []
  | some .heartbeat => c.handleHeartbeat r
  | some .heartbeatAck => c.handleHeartbeatAck r
  | some .shutdown => c.handleShutdown r
  | none => c.keep []

end NodeCtx

end Dsm
