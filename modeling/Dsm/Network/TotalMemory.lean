import Dsm.Network.Joining
import Dsm.Network.TableMessage
import Mathlib.Algebra.Group.Action.Defs
import Mathlib.Algebra.Order.BigOperators.Group.List

/-!
# The total memory

`dsm_get_total_memory` adds the chunk counts of the table and multiplies the sum by the page size, both
as 32-bit numbers, and only then widens the product. So the result is exact as long as the nodes have
fewer than `2 ^ 20` chunks together (`getTotalMemory_exact_iff`). `dsm_init` refuses more than
`DSM_MAX_CHUNKS` on the command line, with which 64 nodes stay below that bound
(`getTotalMemory_of_maxChunks`); the counts that come over the network are not checked.
-/

namespace Dsm

def maxChunks : Nat := 1024

def NodeTable.totalChunks (table : NodeTable) : Nat := (table.map (·.chunks)).sum

/-- `dsm_get_total_memory`. -/
def getTotalMemory (table : NodeTable) : Nat :=
  (table.foldl (fun total node => total + UInt32.ofNat node.chunks) 0 * UInt32.ofNat pageSize).toNat

/-- What reaches the table of a node over the network. -/
inductive TableInput where
  /-- A datagram, with the result of the connection to the node that sent it. -/
  | datagram (bytes : List UInt8) (sockfd : Int) (now : Nat) (mutexOk : Bool)
  /-- The payload of a `NODE_TABLE` message. -/
  | nodeTable (payload : List UInt8) (now : Nat)

section

variable (own : Self) (role : Role)

/-- The table when the role is set: a master has added itself. -/
def Self.initialTable (now : Nat) : NodeTable :=
  if role = .master then (own.add [] now true).2 else []

/-- The listener and the handler of `NODE_TABLE`. -/
def TableInput.apply (table : NodeTable) : TableInput → NodeTable
  | .datagram bytes sockfd now mutexOk =>
      match udpParse bytes with
      | .discover a =>
          if own.sent a then table
          else if role = .master then
            if 0 ≤ sockfd then (a.add table sockfd now mutexOk).2 else table
          else table
      | _ => table
  | .nodeTable payload now => (nodeTableDeserialize table payload now).2

def tableMachine : Machine NodeTable TableInput where
  start table := ∃ now, table = own.initialTable role now
  step table input := some (input.apply own role table)

/-- The datagram makes a further entry. -/
structure Announcement.Joins (a : Announcement) (table : NodeTable) (sockfd : Int) (mutexOk : Bool) :
    Prop where
  other : own.sent a = false
  master : role = .master
  connected : 0 ≤ sockfd
  new : table.find? (·.isAt a.msgIp a.port.toNat) = none
  room : table.length < maxNodes
  mutexOk : mutexOk = true

/-- The nodes have fewer than `2 ^ 20` chunks together when the input has reached the table. -/
def TableInput.Ok (table : NodeTable) : TableInput → Prop
  | .datagram bytes sockfd _ mutexOk => ∀ a, udpParse bytes = .discover a →
      a.Joins own role table sockfd mutexOk → table.totalChunks + a.chunks.toNat < 2 ^ 20
  | .nodeTable payload now => (nodeTableDeserialize table payload now).2.totalChunks < 2 ^ 20

end

/-- `dsm_get_total_memory` returns the size of all chunks. -/
def NodeTable.Exact (table : NodeTable) : Prop := getTotalMemory table = table.totalChunks * pageSize

/-! ### The sum -/

theorem toNat_foldl_chunks (table : NodeTable) (total : UInt32) :
    (table.foldl (fun total node => total + UInt32.ofNat node.chunks) total).toNat =
      (total.toNat + table.totalChunks) % 2 ^ 32 := by
  induction table generalizing total with
  | nil => exact (Nat.mod_eq_of_lt total.toNat_lt).symm
  | cons node table ih =>
      rw [List.foldl_cons, ih, UInt32.toNat_add, UInt32.toNat_ofNat', NodeTable.totalChunks,
        NodeTable.totalChunks, List.map_cons, List.sum_cons]
      omega

theorem NodeTable.exact_iff (table : NodeTable) : table.Exact ↔ table.totalChunks < 2 ^ 20 := by
  rw [NodeTable.Exact, getTotalMemory, UInt32.toNat_mul, toNat_foldl_chunks, UInt32.toNat_ofNat',
    UInt32.toNat_zero, pageSize]
  omega

theorem totalChunks_append (table : NodeTable) (node : Node) :
    NodeTable.totalChunks (table ++ [node]) = table.totalChunks + node.chunks := by
  rw [NodeTable.totalChunks, List.map_append, List.sum_append, List.map_singleton, List.sum_singleton,
    NodeTable.totalChunks]

theorem totalChunks_nodeTableAdd (table : NodeTable) (ip : List UInt8) (port chunks : Nat) (role : Role)
    (sockfd : Int) (now : Nat) (mutexOk : Bool) :
    (nodeTableAdd table ip port chunks role sockfd now mutexOk).2.totalChunks =
      table.totalChunks +
        if table.find? (·.isAt ip port) = none ∧ table.length < maxNodes ∧ mutexOk = true then chunks
        else 0 := by
  cases hfind : table.find? (·.isAt ip port) with
  | some found =>
      rw [if_neg fun h => nomatch h.1]
      rcases nodeTableAdd_table table ip port chunks role sockfd now mutexOk with
        ⟨pre, node, post, rfl, -, hadd⟩ | ⟨hnone, -⟩ | ⟨hnone, -⟩
      · rw [hadd]
        simp [NodeTable.totalChunks]
      · cases hnone.symm.trans hfind
      · cases hnone.symm.trans hfind
  | none =>
      simp only [nodeTableAdd, hfind, true_and]
      by_cases hfull : maxNodes ≤ table.length
      · rw [if_pos hfull, if_neg fun h => absurd h.1 (Nat.not_lt.mpr hfull)]
        rfl
      · rw [if_neg hfull]
        cases mutexOk with
        | false =>
            simp only [Bool.not_false, if_true, Bool.false_eq_true, and_false, if_false, Nat.add_zero]
        | true =>
            simp only [Bool.not_true, Bool.false_eq_true, if_false, and_true,
              if_pos (Nat.lt_of_not_le hfull)]
            exact totalChunks_append ..

section

variable {own : Self} {role : Role}

theorem totalChunks_initialTable (now : Nat) : (own.initialTable role now).totalChunks < 2 ^ 20 ↔
    (role = .master → own.localChunks.toNat < 2 ^ 20) := by
  rw [Self.initialTable]
  split_ifs with hrole
  · rw [Self.add, totalChunks_nodeTableAdd, if_pos ⟨rfl, by decide, rfl⟩]
    simp [NodeTable.totalChunks, hrole]
  · exact iff_of_true (by decide) fun h => absurd h hrole

theorem TableInput.apply_datagram (table : NodeTable) (bytes : List UInt8) (sockfd : Int) (now : Nat)
    (mutexOk : Bool) :
    (∃ a, udpParse bytes = .discover a ∧ a.Joins own role table sockfd mutexOk ∧
      ((TableInput.datagram bytes sockfd now mutexOk).apply own role table).totalChunks =
        table.totalChunks + a.chunks.toNat) ∨
    ((∀ a, udpParse bytes = .discover a → ¬ a.Joins own role table sockfd mutexOk) ∧
      ((TableInput.datagram bytes sockfd now mutexOk).apply own role table).totalChunks =
        table.totalChunks) := by
  simp only [TableInput.apply]
  cases hparse : udpParse bytes with
  | discover a =>
      dsimp only
      by_cases hjoins : a.Joins own role table sockfd mutexOk
      · refine .inl ⟨a, rfl, hjoins, ?_⟩
        rw [if_neg (by rw [hjoins.other]; decide), if_pos hjoins.master, if_pos hjoins.connected,
          Announcement.add, totalChunks_nodeTableAdd, if_pos ⟨hjoins.new, hjoins.room, hjoins.mutexOk⟩]
      · refine .inr ⟨fun b hb => ?_, ?_⟩
        · obtain rfl := UdpParsed.discover.inj hb
          exact hjoins
        · split_ifs with hown hrole hsock
          · rfl
          · rw [Announcement.add, totalChunks_nodeTableAdd, if_neg, Nat.add_zero]
            rintro ⟨hnew, hroom, hmutex⟩
            exact hjoins ⟨Bool.eq_false_iff.mpr hown, hrole, hsock, hnew, hroom, hmutex⟩
          · rfl
          · rfl
  | reply a =>
      refine .inr ⟨fun b hb => ?_, rfl⟩
      cases hb
  | ignored =>
      refine .inr ⟨fun b hb => ?_, rfl⟩
      cases hb

theorem TableInput.exact_apply_iff {table : NodeTable} (h : table.Exact) (input : TableInput) :
    (input.apply own role table).Exact ↔ input.Ok own role table := by
  rw [NodeTable.exact_iff] at h ⊢
  cases input with
  | datagram bytes sockfd now mutexOk =>
      rcases TableInput.apply_datagram table bytes sockfd now mutexOk with
        ⟨a, ha, hjoins, htotal⟩ | ⟨hnone, htotal⟩
      · rw [htotal]
        constructor
        · intro hlt b hb _
          obtain rfl := UdpParsed.discover.inj (ha.symm.trans hb)
          exact hlt
        · intro hok
          exact hok a ha hjoins
      · rw [htotal]
        exact iff_of_true h fun a ha hjoins => absurd hjoins (hnone a ha)
  | nodeTable payload now => rfl

end

/-- In every run the total memory is exact in all states just in case the nodes have fewer than
`2 ^ 20` chunks together, at the start and behind every input. -/
theorem getTotalMemory_exact_iff {own : Self} {role : Role} {now : Nat} {as : List TableInput}
    {t : NodeTable}
    (hexec : (tableMachine own role).exec (own.initialTable role now) as = some t) :
    (tableMachine own role).Always NodeTable.Exact (own.initialTable role now) as ↔
      (role = .master → own.localChunks.toNat < 2 ^ 20) ∧
        (tableMachine own role).EachStep (fun table input => input.Ok own role table)
          (own.initialTable role now) as := by
  rw [← totalChunks_initialTable now, ← NodeTable.exact_iff]
  have hsteps : (own.initialTable role now).Exact →
      ((tableMachine own role).Always NodeTable.Exact (own.initialTable role now) as ↔
        (tableMachine own role).EachStep (fun table input => input.Ok own role table)
          (own.initialTable role now) as) := by
    intro hstart
    refine Machine.always_iff_eachStep (fun _ h => h) (fun s a t h hok hstep => ?_)
      (fun s a t h hnot hstep => ?_) hstart hexec
    · obtain rfl := Option.some.inj hstep
      exact (a.exact_apply_iff h).mpr hok
    · obtain rfl := Option.some.inj hstep
      exact fun hexact => hnot ((a.exact_apply_iff h).mp hexact)
  constructor
  · intro halways
    have hstart := halways [] _ (List.nil_prefix) rfl
    exact ⟨hstart, (hsteps hstart).mp halways⟩
  · rintro ⟨hstart, hok⟩
    exact (hsteps hstart).mpr hok

/-! ### Counts within the limit -/

/-- The counts in the message are ones that `dsm_init` takes. -/
def TableInput.WithinMax : TableInput → Prop
  | .datagram bytes .. => ∀ a, udpParse bytes = .discover a → a.chunks.toNat ≤ maxChunks
  | .nodeTable payload _ => ∀ info ∈ nodeInfos (payload.drop nodeTableHeaderSize)
      (Bytes.field payload 0 4), info.chunks.toNat ≤ maxChunks

structure NodeTable.WithinMax (table : NodeTable) : Prop where
  length : table.length ≤ maxNodes
  chunks : ∀ node ∈ table, node.chunks ≤ maxChunks

theorem NodeTable.WithinMax.exact {table : NodeTable} (h : table.WithinMax) : table.Exact := by
  rw [NodeTable.exact_iff, NodeTable.totalChunks]
  have hsum := List.sum_le_card_nsmul (table.map (·.chunks)) maxChunks fun chunks hchunks => by
    obtain ⟨node, hnode, rfl⟩ := List.mem_map.mp hchunks
    exact h.chunks node hnode
  have hlength := h.length
  rw [List.length_map, smul_eq_mul, maxChunks] at hsum
  rw [maxNodes] at hlength
  omega

theorem chunks_nodeTableAdd {table : NodeTable} (h : ∀ node ∈ table, node.chunks ≤ maxChunks)
    (ip : List UInt8) (port : Nat) {chunks : Nat} (hchunks : chunks ≤ maxChunks) (role : Role)
    (sockfd : Int) (now : Nat) (mutexOk : Bool) :
    ∀ node ∈ (nodeTableAdd table ip port chunks role sockfd now mutexOk).2, node.chunks ≤ maxChunks := by
  rw [nodeTableAdd]
  split
  · rename_i found hfind
    have hsome := List.updateFirst_isSome (l := table) (p := (·.isAt ip port))
      (f := ({ · with tcpFd := sockfd, state := .connected, lastHeartbeat := now }))
    rw [hfind] at hsome
    obtain ⟨table', hupdate⟩ := Option.isSome_iff_exists.mp hsome
    simp only [hupdate, Option.getD_some]
    intro node hnode
    rcases List.mem_of_mem_updateFirst hupdate hnode with hold | ⟨old, hold, rfl⟩
    · exact h node hold
    · exact h old hold
  · dsimp only
    by_cases hfull : maxNodes ≤ table.length
    · rw [if_pos hfull]
      exact h
    · rw [if_neg hfull]
      cases mutexOk with
      | false => exact h
      | true =>
          intro node hnode
          rcases List.mem_append.mp hnode with hold | hnew
          · exact h node hold
          · obtain rfl := List.mem_singleton.mp hnew
            exact hchunks

theorem chunks_nodeTableMerge {table : NodeTable} (h : ∀ node ∈ table, node.chunks ≤ maxChunks)
    {info : NodeInfo} (hinfo : info.chunks.toNat ≤ maxChunks) (now : Nat) :
    ∀ node ∈ nodeTableMerge now table info, node.chunks ≤ maxChunks := by
  simp only [nodeTableMerge]
  split
  · rename_i table' hupdate
    intro node hnode
    rcases List.mem_of_mem_updateFirst hupdate hnode with hold | ⟨old, hold, rfl⟩
    · exact h node hold
    · exact hinfo
  · split_ifs with hroom
    · intro node hnode
      rcases List.mem_append.mp hnode with hold | hnew
      · exact h node hold
      · obtain rfl := List.mem_singleton.mp hnew
        exact hinfo
    · exact h

theorem chunks_foldl_merge {table : NodeTable} (h : ∀ node ∈ table, node.chunks ≤ maxChunks)
    {infos : List NodeInfo} (hinfos : ∀ info ∈ infos, info.chunks.toNat ≤ maxChunks) (now : Nat) :
    ∀ node ∈ infos.foldl (nodeTableMerge now) table, node.chunks ≤ maxChunks := by
  induction infos generalizing table with
  | nil => exact h
  | cons info infos ih =>
      exact ih (chunks_nodeTableMerge h (hinfos info List.mem_cons_self) now)
        fun other hother => hinfos other (List.mem_cons_of_mem _ hother)

theorem NodeTable.WithinMax.apply {own : Self} {role : Role} {table : NodeTable} (h : table.WithinMax)
    {input : TableInput} (hinput : input.WithinMax) : (input.apply own role table).WithinMax := by
  cases input with
  | datagram bytes sockfd now mutexOk =>
      rw [TableInput.apply]
      split
      · rename_i a ha
        split_ifs
        · exact h
        · exact ⟨length_nodeTableAdd h.length .., chunks_nodeTableAdd h.chunks _ _ (hinput a ha) _ _ _ _⟩
        · exact h
        · exact h
      · exact h
  | nodeTable payload now =>
      refine ⟨length_nodeTableDeserialize h.length payload now, ?_⟩
      rw [TableInput.apply]
      simp only [nodeTableDeserialize]
      split_ifs
      · exact h.chunks
      · exact h.chunks
      · exact chunks_foldl_merge h.chunks hinput now

theorem NodeTable.WithinMax.initialTable {own : Self} (hown : own.localChunks.toNat ≤ maxChunks)
    (role : Role) (now : Nat) : (own.initialTable role now).WithinMax := by
  rw [Self.initialTable]
  split_ifs
  · exact ⟨length_nodeTableAdd (Nat.zero_le _) .., chunks_nodeTableAdd (by simp) _ _ hown _ _ _ _⟩
  · exact ⟨Nat.zero_le _, nofun⟩

/-- As long as no node offers more chunks than `dsm_init` takes, the total memory is exact. -/
theorem getTotalMemory_of_maxChunks {own : Self} (hown : own.localChunks.toNat ≤ maxChunks) {role : Role}
    {now : Nat} {as : List TableInput} {t : NodeTable}
    (hexec : (tableMachine own role).exec (own.initialTable role now) as = some t)
    (has : ∀ input ∈ as, input.WithinMax) :
    (tableMachine own role).Always NodeTable.Exact (own.initialTable role now) as := by
  refine Machine.always_of_eachStep (fun _ h => NodeTable.WithinMax.exact h) (fun s a t h hok hstep => ?_)
    (.initialTable hown role now) hexec (Machine.eachStep_of_forall fun _ => has)
  obtain rfl := Option.some.inj hstep
  exact h.apply hok

/-- A broadcast of a host with so many chunks that the master has `2 ^ 20` with its own. -/
def manyChunks : List UInt8 := Scan.ascii "DISCOVER_DSM/10.0.0.2/5000/1048575"

theorem getTotalMemory_exact_iff_one_join : ∃ t,
    (tableMachine firstHost .master).exec (firstHost.initialTable .master 0)
      [.datagram secondHostBroadcast 7 0 true] = some t ∧ t.Exact := by
  have hok : (tableMachine firstHost .master).Always NodeTable.Exact (firstHost.initialTable .master 0)
      [.datagram secondHostBroadcast 7 0 true] := by
    refine (getTotalMemory_exact_iff rfl).mpr ⟨fun _ => by decide, ?_⟩
    refine (Machine.eachStep_cons rfl).mpr ⟨fun a ha _ => ?_, Machine.eachStep_nil⟩
    have hparse : udpParse secondHostBroadcast = .discover
        { msgIp := Scan.ascii "10.0.0.2", msgPort := 5000, msgChunks := 1 } := by decide +kernel
    obtain rfl := UdpParsed.discover.inj (hparse.symm.trans ha)
    decide +kernel
  exact ⟨_, rfl, hok.last rfl⟩

/-- With the worker's chunks the sum is `2 ^ 20`, and the product wraps to zero. -/
theorem not_getTotalMemory_exact : ∃ t,
    (tableMachine firstHost .master).exec (firstHost.initialTable .master 0)
      [.datagram manyChunks 7 0 true] = some t ∧
    getTotalMemory t = 0 ∧ t.totalChunks * pageSize = 2 ^ 32 ∧ ¬ t.Exact := by
  have hrun : (((tableMachine firstHost .master).exec (firstHost.initialTable .master 0)
      [.datagram manyChunks 7 0 true]).map fun t => (getTotalMemory t, t.totalChunks * pageSize)) =
      some (0, 2 ^ 32) := by decide +kernel
  obtain ⟨t, ht, hout⟩ := Option.map_eq_some_iff.mp hrun
  obtain ⟨hmemory, htotal⟩ := Prod.mk.inj hout
  refine ⟨t, ht, hmemory, htotal, fun hexact => ?_⟩
  rw [NodeTable.Exact, hmemory, htotal] at hexact
  cases hexact

end Dsm
