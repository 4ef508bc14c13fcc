import Dsm.Memory.Region
import Dsm.Network.TableMessage
import Dsm.Library.Machine

/-!
# The start of a worker

`dsm_init_with_params` of a node that joins, beside its UDP listener and its TCP server thread, with
the listener thread of the master at the other end. The two threads of the node run before its main
thread has a role and an id: the connection that the master opens right after its reply may be
accepted while `local_role` is still unknown, and `handle_new_connection` then does not keep it as
`master_fd` (`startup_masterFd_iff`).

A datagram may be lost, and the wait may end at any time.
-/

namespace Dsm

/-- Where the main thread is in `dsm_init_with_params`. -/
inductive StartupPc where
  | broadcast
  /-- In `dsm_udp_wait_discovery`. -/
  | wait
  /-- That function has returned a role, and `local_role` is not set yet. -/
  | decide (role : Role)
  /-- In `dsm_mem_init`, before it chooses the base address. -/
  | memInit
  /-- About to read `local_node_id` for the owner of the region. -/
  | owner (globalBase : Nat)
  /-- In `dsm_region_create`, before `mmap`. -/
  | create (globalBase : Nat) (ownerId : NodeId)
  /-- In its loop, about to register page `i`. -/
  | register (r : Region) (i : Nat)
  | done
  | failed
deriving DecidableEq, Repr

/-- Where the listener thread of the master is with the `DISCOVER_DSM` of the node. -/
inductive JoinPc where
  | listen
  | connect
  | add
  /-- About to send `JOIN_RESPONSE`. -/
  | respond (nodeId : NodeId)
  | done
deriving DecidableEq, Repr

structure StartupState where
  pc : StartupPc
  masterFound : Bool
  /-- With `local_role` and `local_node_id`. -/
  mem : MemCtx
  localRegion : Option Region
  masterFd : Int
  /-- The connection that the TCP server has accepted and watches. -/
  connection : Option Int
  /-- The id in the `JOIN_RESPONSE` that has been handled. -/
  joined : Option NodeId
  master : JoinPc
  /-- `DISCOVER_DSM` is on its way. -/
  discover : Bool
  /-- `DISCOVER_REPLY` is on its way. -/
  reply : Bool
  /-- The connection is open and not accepted. -/
  backlog : Bool
  /-- The `JOIN_RESPONSE` on its way over the connection. -/
  joinResponse : Option NodeId

inductive StartupAction where
  | broadcast
  /-- The master's listener takes `DISCOVER_DSM` and sends its reply. -/
  | masterReply
  | masterConnect (ok : Bool)
  /-- `dsm_node_table_add` on the table of the master at that time. -/
  | masterAdd (table : NodeTable) (sockfd : Int) (now : Nat) (mutexOk : Bool)
  | masterRespond
  /-- The UDP listener handles `DISCOVER_REPLY`. -/
  | reply
  /-- The wait ends with `master_found`. -/
  | found
  | timeout
  | setRole
  | accept (fd : Int) (epollOk : Bool)
  /-- The TCP server thread handles `JOIN_RESPONSE`. -/
  | joinResponse
  | chooseBase
  | readOwner
  /-- `mmap` and what else can fail in `dsm_region_create`. -/
  | create (mapped : Option Nat)
  | registerPage
  | finish
deriving DecidableEq

namespace StartupState

instance (i : NodeId) : Decidable (Assignable i) := inferInstanceAs (Decidable (_ ∧ _))

def step (self : Address) (chunks : Nat) (s : StartupState) : StartupAction → Option StartupState
  -- the listener thread of the master, and the two threads of the node that receive
  | .masterReply =>
      if s.discover = true ∧ s.master = .listen then
        some { s with discover := false, reply := true, master := .connect }
      else none
  | .masterConnect ok =>
      if s.master = .connect then
        some (if ok then { s with backlog := true, master := .add } else { s with master := .done })
      else none
  | .masterAdd table sockfd now mutexOk =>
      if s.master = .add ∧ table.length ≤ maxNodes ∧ ∀ i ∈ table.ids, Assignable i then
        let nodeId := (nodeTableAdd table self.1 self.2 chunks .worker sockfd now mutexOk).1
        some { s with master := if 0 < nodeId then .respond nodeId.toNat else .done }
      else none
  | .masterRespond =>
      match s.master with
      | .respond nodeId => some { s with joinResponse := some nodeId, master := .done }
      | _ => none
  | .reply => if s.reply then some { s with reply := false, masterFound := true } else none
  | .accept fd epollOk =>
      if s.backlog = true ∧ 0 ≤ fd then
        if !epollOk then some { s with backlog := false }
        else
          some { s with
            backlog := false
            connection := some fd
            masterFd := if s.mem.localRole = .worker ∧ s.masterFd < 0 then fd else s.masterFd }
      else none
  | .joinResponse =>
      match s.connection, s.joinResponse with
      | some _, some assignedId =>
          some { s with
            mem := { s.mem with localNodeId := assignedId }
            joined := some assignedId
            joinResponse := none }
      | _, _ => none
  -- the main thread
  | .broadcast =>
      if s.pc = .broadcast then some { s with pc := .wait, discover := true } else none
  | .found =>
      if s.pc = .wait ∧ s.masterFound = true then some { s with pc := .decide .worker } else none
  | .timeout =>
      if s.pc = .wait then
        some { s with pc := .decide (if s.masterFound then .worker else .master) }
      else none
  | .setRole =>
      match s.pc with
      | .decide .master =>
          some { s with pc := .memInit, mem := { s.mem with localRole := .master, localNodeId := 1 } }
      | .decide _ => some { s with pc := .memInit, mem := { s.mem with localRole := .worker } }
      | _ => none
  | .chooseBase =>
      if s.pc = .memInit then
        let mem := { s.mem with pageTable := some [], ownership := fun _ => [] }
        some { s with
          pc := .owner (s.mem.initBase chunks)
          mem := if mem.localRole = .master then mem.bump (initSize chunks) else mem }
      else none
  | .readOwner =>
      match s.pc with
      | .owner globalBase => some { s with pc := .create globalBase s.mem.localNodeId }
      | _ => none
  | .create mapped =>
      match s.pc with
      | .create globalBase ownerId =>
          match mapped with
          | none => some { s with pc := .failed, mem := { s.mem with pageTable := none } }
          | some addr =>
              -- `mmap` of no bytes fails
              if initSize chunks = 0 then none
              else
                let r := Region.created (initSize chunks) ownerId globalBase addr
                some { s with
                  pc := .register r 0
                  mem := { s.mem with regions := s.mem.regions ++ [r] } }
      | _ => none
  | .registerPage =>
      match s.pc with
      | .register r i =>
          if i < r.pageCount then
            some { s with
              pc := .register r (i + 1)
              mem := { s.mem with
                pageTable := (pageRegister s.mem.localNodeId s.mem.pageTable
                  ((r.globalBase + i * pageSize) % 2 ^ 64) (r.baseAddr + i * pageSize)
                  r.ownerId).2 } }
          else none
      | _ => none
  | .finish =>
      match s.pc with
      | .register r i =>
          if i = r.pageCount then
            some { s with
              pc := .done
              localRegion := some r
              mem :=
                if s.mem.localRole = .master then
                  s.mem.registerOwnership r.globalBase (initSize chunks) s.mem.localNodeId
                else s.mem }
          else none
      | _ => none

end StartupState

/-- The node after `dsm_context_init`, with its listener and its server started. -/
def StartupState.initial : StartupState :=
  { pc := .broadcast, masterFound := false, mem := .initial 0 .unknown, localRegion := none
    masterFd := -1, connection := none, joined := none, master := .listen, discover := false
    reply := false, backlog := false, joinResponse := none }

/-- The node at address `self`, which donates `chunks` pages, and its master. -/
def startupMachine (self : Address) (chunks : Nat) : Machine StartupState StartupAction where
  start s := s = .initial
  step := StartupState.step self chunks

/-! ### What a step can do -/

namespace StartupState

/-- The effects of the steps. -/
inductive Effect (self : Address) (chunks : Nat) (s : StartupState) :
    StartupAction → StartupState → Prop where
  | broadcast (hpc : s.pc = .broadcast) :
      Effect self chunks s .broadcast { s with pc := .wait, discover := true }
  | masterReply (hdiscover : s.discover = true) (hmaster : s.master = .listen) :
      Effect self chunks s .masterReply
        { s with discover := false, reply := true, master := .connect }
  | masterConnect {ok : Bool} (hmaster : s.master = .connect) :
      Effect self chunks s (.masterConnect ok)
        { s with backlog := ok || s.backlog, master := if ok then .add else .done }
  | masterAdd {table : NodeTable} {sockfd : Int} {now : Nat} {mutexOk : Bool} {master : JoinPc}
      (hmaster : s.master = .add) (hassigned : ∀ i, master = .respond i → Assignable i)
      (hmoved : ¬ (master = .listen ∨ master = .connect)) :
      Effect self chunks s (.masterAdd table sockfd now mutexOk) { s with master := master }
  | masterRespond {nodeId : NodeId} (hmaster : s.master = .respond nodeId) :
      Effect self chunks s .masterRespond { s with joinResponse := some nodeId, master := .done }
  | reply (hreply : s.reply = true) :
      Effect self chunks s .reply { s with reply := false, masterFound := true }
  | woken {a : StartupAction} {role : Role} (ha : a = .found ∨ a = .timeout) (hpc : s.pc = .wait)
      (hrole : role ≠ .unknown) : Effect self chunks s a { s with pc := .decide role }
  | setMaster (hpc : s.pc = .decide .master) :
      Effect self chunks s .setRole
        { s with pc := .memInit, mem := { s.mem with localRole := .master, localNodeId := 1 } }
  | setWorker {role : Role} (hpc : s.pc = .decide role) :
      Effect self chunks s .setRole
        { s with pc := .memInit, mem := { s.mem with localRole := .worker } }
  | dropped {fd : Int} (hbacklog : s.backlog = true) :
      Effect self chunks s (.accept fd false) { s with backlog := false }
  | accept {fd : Int} (hbacklog : s.backlog = true) (hfd : 0 ≤ fd) :
      Effect self chunks s (.accept fd true) { s with
        backlog := false
        connection := some fd
        masterFd := if s.mem.localRole = .worker ∧ s.masterFd < 0 then fd else s.masterFd }
  | joinResponse {fd : Int} {assignedId : NodeId} (hconnection : s.connection = some fd)
      (hresponse : s.joinResponse = some assignedId) :
      Effect self chunks s .joinResponse { s with
        mem := { s.mem with localNodeId := assignedId }
        joined := some assignedId
        joinResponse := none }
  | chooseBase (hpc : s.pc = .memInit) {mem : MemCtx} (hid : mem.localNodeId = s.mem.localNodeId)
      (hrole : mem.localRole = s.mem.localRole) (htable : mem.pageTable = some [])
      (hnext : s.mem.localRole ≠ .master → mem.nextGlobalAddr = s.mem.nextGlobalAddr) :
      Effect self chunks s .chooseBase { s with pc := .owner (s.mem.initBase chunks), mem := mem }
  | readOwner {globalBase : Nat} (hpc : s.pc = .owner globalBase) :
      Effect self chunks s .readOwner { s with pc := .create globalBase s.mem.localNodeId }
  | createFailed {globalBase : Nat} {ownerId : NodeId} (hpc : s.pc = .create globalBase ownerId) :
      Effect self chunks s (.create none)
        { s with pc := .failed, mem := { s.mem with pageTable := none } }
  | create {globalBase addr : Nat} {ownerId : NodeId} (hpc : s.pc = .create globalBase ownerId)
      (hsize : initSize chunks ≠ 0) :
      Effect self chunks s (.create (some addr)) { s with
        pc := .register (.created (initSize chunks) ownerId globalBase addr) 0
        mem := { s.mem with
          regions := s.mem.regions ++ [.created (initSize chunks) ownerId globalBase addr] } }
  | registerPage {r : Region} {i : Nat} (hpc : s.pc = .register r i) (hi : i < r.pageCount) :
      Effect self chunks s .registerPage { s with
        pc := .register r (i + 1)
        mem := { s.mem with
          pageTable := (pageRegister s.mem.localNodeId s.mem.pageTable
            ((r.globalBase + i * pageSize) % 2 ^ 64) (r.baseAddr + i * pageSize) r.ownerId).2 } }
  | finish {r : Region} (hpc : s.pc = .register r r.pageCount) {mem : MemCtx}
      (hid : mem.localNodeId = s.mem.localNodeId) (hrole : mem.localRole = s.mem.localRole)
      (htable : mem.pageTable = s.mem.pageTable)
      (hnext : mem.nextGlobalAddr = s.mem.nextGlobalAddr) :
      Effect self chunks s .finish { s with pc := .done, localRegion := some r, mem := mem }

/-- What `dsm_node_table_add` returns for a worker is a valid id or negative. -/
theorem assignable_of_nodeTableAdd {table : NodeTable} {ip : List UInt8} {port chunks : Nat}
    {sockfd : Int} {now : Nat} {mutexOk : Bool} (hids : ∀ i ∈ table.ids, Assignable i)
    (hpos : 0 < (nodeTableAdd table ip port chunks .worker sockfd now mutexOk).1) :
    Assignable (nodeTableAdd table ip port chunks .worker sockfd now mutexOk).1.toNat := by
  cases hfind : table.find? (·.isAt ip port) with
  | some node =>
      simp only [nodeTableAdd, hfind, Int.toNat_natCast]
      exact hids _ (List.mem_map_of_mem (List.mem_of_find?_eq_some hfind))
  | none =>
      simp only [nodeTableAdd, hfind] at hpos ⊢
      by_cases hfull : maxNodes ≤ table.length
      · simp [hfull] at hpos
      · cases mutexOk with
        | false => simp [hfull] at hpos
        | true =>
            have hroom : table.length + 1 ≤ maxNodes := Nat.lt_of_not_le hfull
            simpa [hfull, Assignable] using hroom

theorem step_effect {self : Address} {chunks : Nat} {s t : StartupState} {a : StartupAction}
    (h : s.step self chunks a = some t) : s.Effect self chunks a t := by
  cases a with
  | broadcast =>
      rw [step, Option.ite_none_right_eq_some] at h
      obtain ⟨hpc, heq⟩ := h
      cases heq
      exact .broadcast hpc
  | masterReply =>
      rw [step, Option.ite_none_right_eq_some] at h
      obtain ⟨⟨hdiscover, hmaster⟩, heq⟩ := h
      cases heq
      exact .masterReply hdiscover hmaster
  | masterConnect ok =>
      rw [step, Option.ite_none_right_eq_some] at h
      obtain ⟨hmaster, heq⟩ := h
      cases heq
      cases ok <;> exact .masterConnect hmaster
  | masterAdd table sockfd now mutexOk =>
      rw [step, Option.ite_none_right_eq_some] at h
      obtain ⟨⟨hmaster, -, hids⟩, heq⟩ := h
      cases heq
      refine .masterAdd hmaster (fun i hi => ?_) ?_
      · split_ifs at hi with hpos
        cases hi
        exact assignable_of_nodeTableAdd hids hpos
      · split_ifs <;> simp
  | masterRespond =>
      simp only [step] at h
      split at h
      · rename_i nodeId hmaster
        cases h
        exact .masterRespond hmaster
      · cases h
  | reply =>
      rw [step, Option.ite_none_right_eq_some] at h
      obtain ⟨hreply, heq⟩ := h
      cases heq
      exact .reply hreply
  | found =>
      rw [step, Option.ite_none_right_eq_some] at h
      obtain ⟨⟨hpc, -⟩, heq⟩ := h
      cases heq
      exact .woken (.inl rfl) hpc nofun
  | timeout =>
      rw [step, Option.ite_none_right_eq_some] at h
      obtain ⟨hpc, heq⟩ := h
      cases heq
      exact .woken (.inr rfl) hpc (by split_ifs <;> exact nofun)
  | setRole =>
      simp only [step] at h
      split at h
      · rename_i hpc
        cases h
        exact .setMaster hpc
      · rename_i role hnot hpc
        cases h
        exact .setWorker hpc
      · cases h
  | accept fd epollOk =>
      rw [step, Option.ite_none_right_eq_some] at h
      obtain ⟨⟨hbacklog, hfd⟩, heq⟩ := h
      cases epollOk <;> cases heq
      · exact .dropped hbacklog
      · exact .accept hbacklog hfd
  | joinResponse =>
      simp only [step] at h
      split at h
      · rename_i fd assignedId hconnection hresponse
        cases h
        exact .joinResponse hconnection hresponse
      · cases h
  | chooseBase =>
      rw [step, Option.ite_none_right_eq_some] at h
      obtain ⟨hpc, heq⟩ := h
      cases heq
      by_cases hrole : s.mem.localRole = .master
      · simp only [hrole, if_true]
        exact .chooseBase hpc rfl hrole.symm rfl fun hnot => absurd hrole hnot
      · simp only [hrole, if_false]
        exact .chooseBase hpc rfl rfl rfl fun _ => rfl
  | readOwner =>
      simp only [step] at h
      split at h
      · rename_i globalBase hpc
        cases h
        exact .readOwner hpc
      · cases h
  | create mapped =>
      simp only [step] at h
      split at h
      · rename_i globalBase ownerId hpc
        cases mapped with
        | none =>
            cases h
            exact .createFailed hpc
        | some addr =>
            rw [Option.ite_none_left_eq_some] at h
            obtain ⟨hsize, heq⟩ := h
            cases heq
            exact .create hpc hsize
      · cases h
  | registerPage =>
      simp only [step] at h
      split at h
      · rename_i r i hpc
        rw [Option.ite_none_right_eq_some] at h
        obtain ⟨hi, heq⟩ := h
        cases heq
        exact .registerPage hpc hi
      · cases h
  | finish =>
      simp only [step] at h
      split at h
      · rename_i r i hpc
        rw [Option.ite_none_right_eq_some] at h
        obtain ⟨rfl, heq⟩ := h
        cases heq
        by_cases hrole : s.mem.localRole = .master
        · simp only [hrole, if_true]
          exact .finish hpc rfl rfl rfl rfl
        · simp only [hrole, if_false]
          exact .finish hpc rfl rfl rfl rfl
      · cases h

end StartupState

/-! ### The master's connection -/

/-- A connection that the node keeps is accepted when `local_role` is set to worker. -/
def StartupAction.AcceptsAsWorker (s : StartupState) : StartupAction → Prop
  | .accept _ epollOk => epollOk = true → s.mem.localRole = .worker
  | _ => True

/-- The connection that the node has accepted, if it has accepted one, is its `master_fd`. -/
def StartupState.LearnsMaster (s : StartupState) : Prop :=
  ∀ fd, s.connection = some fd → s.masterFd = fd

def StartupState.Missed (s : StartupState) : Prop := s.connection ≠ none ∧ s.masterFd = -1

/-- The master opens one connection, and `master_fd` is not set without it. -/
structure ConnectionInv (s : StartupState) : Prop where
  once : s.master = .listen ∨ s.master = .connect → s.backlog = false ∧ s.connection = none
  pending : s.backlog = true → s.connection = none
  unset : s.connection = none → s.masterFd = -1

namespace ConnectionInv

variable {self : Address} {chunks : Nat} {s t : StartupState} {a : StartupAction}

theorem initial : ConnectionInv .initial := ⟨fun _ => ⟨rfl, rfl⟩, nofun, fun _ => rfl⟩

theorem step (h : ConnectionInv s) (hstep : s.step self chunks a = some t) : ConnectionInv t := by
  cases StartupState.step_effect hstep with
  | masterReply hdiscover hmaster =>
      exact ⟨fun _ => h.once (.inl hmaster), h.pending, h.unset⟩
  | @masterConnect ok hmaster =>
      obtain ⟨hbacklog, hnone⟩ := h.once (.inr hmaster)
      exact ⟨by cases ok <;> simp, fun _ => hnone, h.unset⟩
  | masterAdd hmaster hassigned hmoved =>
      exact ⟨fun hpcs => absurd hpcs hmoved, h.pending, h.unset⟩
  | masterRespond => exact ⟨by simp, h.pending, h.unset⟩
  | dropped hbacklog =>
      exact ⟨fun hpcs => ⟨rfl, (h.once hpcs).2⟩, nofun, h.unset⟩
  | accept hbacklog =>
      refine ⟨fun hpcs => ?_, nofun, nofun⟩
      rw [(h.once hpcs).1] at hbacklog
      cases hbacklog
  | broadcast | reply | woken | setMaster | setWorker | joinResponse | chooseBase | readOwner
  | createFailed | create | registerPage | finish => exact ⟨h.once, h.pending, h.unset⟩

theorem learned (h : ConnectionInv s) (hgood : s.LearnsMaster) (hok : a.AcceptsAsWorker s)
    (hstep : s.step self chunks a = some t) : t.LearnsMaster := by
  intro fd hfd
  cases StartupState.step_effect hstep with
  | accept hbacklog =>
      cases hfd
      have hunset : s.masterFd = -1 := h.unset (h.pending hbacklog)
      simp [hok rfl, hunset]
  | broadcast | masterReply | masterConnect | masterAdd | masterRespond | reply | woken | setMaster
  | setWorker | dropped | joinResponse | chooseBase | readOwner | createFailed | create
  | registerPage | finish => exact hgood fd hfd

theorem missed (h : ConnectionInv s) (hnot : ¬ a.AcceptsAsWorker s)
    (hstep : s.step self chunks a = some t) : t.Missed := by
  cases StartupState.step_effect hstep with
  | accept hbacklog =>
      have hrole : s.mem.localRole ≠ .worker := fun hworker => hnot fun _ => hworker
      have hunset : s.masterFd = -1 := h.unset (h.pending hbacklog)
      exact ⟨nofun, by simp [hrole, hunset]⟩
  | dropped => exact absurd nofun hnot
  | woken ha => rcases ha with rfl | rfl <;> exact absurd trivial hnot
  | broadcast | masterReply | masterConnect | masterAdd | masterRespond | reply | setMaster
  | setWorker | joinResponse | chooseBase | readOwner | createFailed | create | registerPage
  | finish => exact absurd trivial hnot

/-- Nothing but an accepted connection sets `master_fd`, and there is only one. -/
theorem stays_missed (h : ConnectionInv s) (hmissed : s.Missed)
    (hstep : s.step self chunks a = some t) : t.Missed := by
  cases StartupState.step_effect hstep with
  | accept hbacklog => exact absurd (h.pending hbacklog) hmissed.1
  | broadcast | masterReply | masterConnect | masterAdd | masterRespond | reply | woken | setMaster
  | setWorker | dropped | joinResponse | chooseBase | readOwner | createFailed | create
  | registerPage | finish => exact hmissed

theorem connection_nonneg {as : List StartupAction}
    (hexec : (startupMachine self chunks).exec .initial as = some t) :
    ∀ fd, t.connection = some fd → 0 ≤ fd := by
  refine (startupMachine self chunks).exec_invariant
    (fun u => ∀ fd, u.connection = some fd → 0 ≤ fd) hexec ?_ nofun
  intro a _ u v hvalid hstep fd hfd
  cases StartupState.step_effect hstep with
  | accept hbacklog hnonneg =>
      cases hfd
      exact hnonneg
  | broadcast | masterReply | masterConnect | masterAdd | masterRespond | reply | woken | setMaster
  | setWorker | dropped | joinResponse | chooseBase | readOwner | createFailed | create
  | registerPage | finish => exact hvalid fd hfd

end ConnectionInv

/-- After every run, the connection that the node has accepted is its `master_fd` exactly if it was
accepted when `local_role` was worker. -/
theorem startup_masterFd_iff {self : Address} {chunks : Nat} {as : List StartupAction}
    {t : StartupState} {fd : Int} (hexec : (startupMachine self chunks).exec .initial as = some t)
    (haccepted : t.connection = some fd) :
    t.masterFd = fd ↔
      (startupMachine self chunks).EachStep (fun s a => a.AcceptsAsWorker s) .initial as := by
  have hstart : StartupState.initial.LearnsMaster := nofun
  obtain ⟨hgood, hbad⟩ := Machine.good_or_bad_of_exec hexec ConnectionInv.initial hstart
    (fun _ _ _ hinv hstep => hinv.step hstep)
    (fun _ _ _ hinv hgood hok hstep => hinv.learned hgood hok hstep)
    (fun _ _ _ hinv hnot hstep => hinv.missed hnot hstep)
    (fun _ _ _ hinv hbad hstep => hinv.stays_missed hbad hstep)
  constructor
  · intro heq
    by_contra hnot
    have hnonneg := ConnectionInv.connection_nonneg hexec fd haccepted
    have hunset := (hbad hnot).2
    omega
  · exact fun hok => hgood hok fd haccepted

/-- The node that joins in the runs below. -/
def joiner : Address := ([49, 48, 46, 48, 46, 48, 46, 50], 5000)

/-- The table of a master alone. -/
def loneMaster : NodeTable :=
  [{ nodeId := 1, role := .master, state := .discovering, ip := [49, 48, 46, 48, 46, 48, 46, 49]
     port := 5000, chunks := 4, tcpFd := -1, lastHeartbeat := 0 }]

/-- The node has its role before it accepts, and its id before it donates its page. -/
def joinedRun : List StartupAction :=
  [.broadcast, .masterReply, .masterConnect true, .masterAdd loneMaster 7 0 true, .masterRespond,
    .reply, .found, .setRole, .accept 5 true, .joinResponse, .chooseBase, .readOwner,
    .create (some 0x7000), .registerPage, .finish]

theorem startup_masterFd_iff_joined : ∃ t,
    (startupMachine joiner 1).exec .initial joinedRun = some t ∧ t.pc = .done ∧
      t.connection = some 5 ∧ t.masterFd = 5 := by
  obtain ⟨s, u, hbefore, hrole, haccept⟩ : ∃ s u,
      (startupMachine joiner 1).exec .initial (joinedRun.take 8) = some s ∧
        s.mem.localRole = .worker ∧ s.step joiner 1 (.accept 5 true) = some u :=
    ⟨_, _, rfl, rfl, rfl⟩
  have hok : (startupMachine joiner 1).EachStep (fun s a => a.AcceptsAsWorker s) .initial
      joinedRun := by
    refine (Machine.eachStep_append hbefore).mpr ⟨?_, (Machine.eachStep_cons haccept).mpr ⟨?_, ?_⟩⟩
    · exact Machine.eachStep_of_forall (by simp [joinedRun, StartupAction.AcceptsAsWorker])
    · exact fun _ => hrole
    · exact Machine.eachStep_of_forall (by simp [StartupAction.AcceptsAsWorker])
  obtain ⟨t, hexec, hdone, haccepted⟩ : ∃ t,
      (startupMachine joiner 1).exec .initial joinedRun = some t ∧ t.pc = .done ∧
        t.connection = some 5 := ⟨_, rfl, rfl, rfl⟩
  exact ⟨t, hexec, hdone, haccepted, (startup_masterFd_iff hexec haccepted).mpr hok⟩

/-- The connection is accepted while the main thread is still waiting. -/
theorem startup_masterFd_missed : ∃ t, (startupMachine joiner 1).exec .initial
    [.broadcast, .masterReply, .masterConnect true, .accept 5 true, .reply, .found, .setRole,
      .masterAdd loneMaster 7 0 true, .masterRespond, .joinResponse, .chooseBase, .readOwner,
      .create (some 0x7000), .registerPage, .finish] = some t ∧
    t.pc = .done ∧ t.mem.localRole = .worker ∧ t.connection = some 5 ∧ t.masterFd = -1 :=
  ⟨_, rfl, rfl, rfl, rfl, rfl⟩

end Dsm
