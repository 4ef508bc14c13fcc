import Dsm.Memory.Region
import Dsm.Library.Machine
import Mathlib.Data.List.Induction

/-!
# The global address space of a cluster

Every node runs `dsm_mem_init` once and then any `dsm_malloc` calls, without talking to the others.
All nodes start their bump pointer at the same address, and a worker's own range starts at an offset
from it, so the ranges of a cluster are disjoint exactly when at most one node allocates from its
bump pointer, what it takes stays below every worker's own range, and these ranges do not overlap
(`globalSpace_disjoint_iff`).
-/

namespace Dsm

/-- A cluster and the chunks that each node donates, as `dsm_init` checks them. -/
structure DonatingCluster extends Cluster where
  chunks : NodeId → Nat
  chunks_pos : ∀ n, 1 ≤ chunks n
  chunks_le : ∀ n, chunks n ≤ 1024

abbrev SpaceState := NodeId → MemCtx

inductive SpaceAction where
  /-- `dsm_mem_init`, with the address that `mmap` returns. -/
  | init (node : NodeId) (mapped : Option Nat)
  /-- `dsm_malloc`, with the address that `mmap` returns. -/
  | malloc (node : NodeId) (size : Nat) (mapped : Option Nat)
deriving DecidableEq, Repr

namespace SpaceAction

def node : SpaceAction → NodeId
  | .init node _ => node
  | .malloc node _ _ => node

/-- How far the action moves the bump pointer of node `n`. -/
def reserves (cl : DonatingCluster) (n : NodeId) : SpaceAction → Nat
  | .init node _ => if node = n ∧ n = masterId then cl.chunks n * pageSize else 0
  | .malloc node size _ => if node = n then roundUpPage size else 0

/-- The action is a `dsm_mem_init` of node `n` that gets its memory. -/
def inits (n : NodeId) : SpaceAction → Bool
  | .init node mapped => node == n && mapped.isSome
  | .malloc _ _ _ => false

/-- `mmap` returns memory. -/
def Succeeds : SpaceAction → Prop
  | .init _ mapped => mapped.isSome
  | .malloc _ _ mapped => mapped.isSome

end SpaceAction

/-- The bytes that node `n` takes from its bump pointer in a run. -/
def reserved (cl : DonatingCluster) (as : List SpaceAction) (n : NodeId) : Nat :=
  (as.map (·.reserves cl n)).sum

/-- Node `n` is initialised in a run. -/
def inited (as : List SpaceAction) (n : NodeId) : Bool := as.any (·.inits n)

def spaceStep (cl : DonatingCluster) (s : SpaceState) (a : SpaceAction) : Option SpaceState :=
  match a with
  | .init node mapped =>
      if node ∈ cl.nodes ∧ (s node).pageTable = none then
        some (Function.update s node ((s node).memInit (cl.chunks node) mapped).2)
      else none
  | .malloc node size mapped =>
      if node ∈ cl.nodes ∧ (s node).pageTable ≠ none ∧ size ≠ 0 then
        some (Function.update s node ((s node).memAlloc size mapped).2)
      else none

def SpaceState.initial : SpaceState := fun n =>
  .initial n (if n = masterId then .master else .worker)

def spaceMachine (cl : DonatingCluster) : Machine SpaceState SpaceAction where
  start s := s = .initial
  step := spaceStep cl

/-- No two live regions of the cluster meet. -/
structure SpaceState.Disjoint (cl : DonatingCluster) (s : SpaceState) : Prop where
  same : ∀ n ∈ cl.nodes, (s n).regions.Pairwise Region.Apart
  other : ∀ n ∈ cl.nodes, ∀ m ∈ cl.nodes, n ≠ m → ∀ r ∈ (s n).regions, ∀ r' ∈ (s m).regions,
    r.Apart r'

/-- No sum that the run computes leaves 64 bits. -/
structure NoWrap (cl : DonatingCluster) (as : List SpaceAction) : Prop where
  bump : ∀ n ∈ cl.nodes, globalStart + reserved cl as n < 2 ^ 64
  own : ∀ w ∈ cl.workers, globalStart + (w + 1) * (cl.chunks w * pageSize) < 2 ^ 64
  size : ∀ node size mapped, .malloc node size mapped ∈ as → size + (pageSize - 1) < 2 ^ 64

/-- The condition under which the three allocation rules do not collide. -/
structure SpaceCondition (cl : DonatingCluster) (as : List SpaceAction) : Prop where
  /-- The own ranges of the initialised workers do not overlap. -/
  workers : ∀ i ∈ cl.workers, ∀ j ∈ cl.workers, i ≠ j → inited as i = true → inited as j = true →
    (i + 1) * cl.chunks i ≤ j * cl.chunks j ∨ (j + 1) * cl.chunks j ≤ i * cl.chunks i
  /-- No node allocates up to the own range of a worker. -/
  below : ∀ n ∈ cl.nodes, ∀ w ∈ cl.workers, inited as w = true →
    reserved cl as n ≤ w * (cl.chunks w * pageSize)
  /-- At most one node allocates from its bump pointer. -/
  single : ∀ n ∈ cl.nodes, ∀ m ∈ cl.nodes, n ≠ m → reserved cl as n = 0 ∨ reserved cl as m = 0

/-! ### What a node has after a run -/

/-- The own range of worker `w`, if the region is its first one. -/
def Region.IsOwn (cl : DonatingCluster) (w : NodeId) (r : Region) : Prop :=
  r.globalBase = globalStart + w * (cl.chunks w * pageSize) ∧
    r.totalSize = cl.chunks w * pageSize

/-- A region that lies between the start of the address space and `next`. -/
structure Region.Bumped (next : Nat) (r : Region) : Prop where
  low : globalStart ≤ r.globalBase
  high : r.globalBase + r.totalSize ≤ next
  pos : 0 < r.totalSize

/-- The regions that node `n` has taken from its bump pointer, after its own range. -/
structure NodeInv (cl : DonatingCluster) (as : List SpaceAction) (n : NodeId) (ctx : MemCtx)
    (own bumped : List Region) : Prop where
  node : ctx.localNodeId = n
  role : ctx.localRole = if n = masterId then .master else .worker
  next : ctx.nextGlobalAddr = globalStart + reserved cl as n
  isInited : ctx.pageTable.isSome = inited as n
  regions : ctx.regions = own ++ bumped
  isOwn : ∀ r ∈ own, r.IsOwn cl n
  ownLength : own.length = if n ≠ masterId ∧ inited as n = true then 1 else 0
  isBumped : ∀ r ∈ bumped, r.Bumped ctx.nextGlobalAddr
  apart : bumped.Pairwise Region.Apart
  fresh : n ≠ masterId → inited as n = false → reserved cl as n = 0 ∧ bumped = []
  tile : (∀ a ∈ as, a.Succeeds) → ∀ x, globalStart ≤ x → x < ctx.nextGlobalAddr →
    ∃ r ∈ bumped, r.globalBase ≤ x ∧ x < r.globalBase + r.totalSize

theorem reserved_concat (cl : DonatingCluster) (as : List SpaceAction) (a : SpaceAction)
    (n : NodeId) : reserved cl (as ++ [a]) n = reserved cl as n + a.reserves cl n := by
  simp [reserved]

theorem inited_concat (as : List SpaceAction) (a : SpaceAction) (n : NodeId) :
    inited (as ++ [a]) n = (inited as n || a.inits n) := by
  simp [inited]

theorem NodeInv.initial (cl : DonatingCluster) (n : NodeId) :
    NodeInv cl [] n (SpaceState.initial n) [] [] := by
  refine ⟨rfl, rfl, rfl, rfl, rfl, by simp, by simp [inited], by simp, .nil, by simp [reserved],
    fun _ x hlow hhigh => ?_⟩
  exact absurd (Nat.lt_of_le_of_lt hlow hhigh) (lt_irrefl _)

theorem SpaceAction.reserves_of_ne (cl : DonatingCluster) {a : SpaceAction} {n : NodeId}
    (hne : a.node ≠ n) : a.reserves cl n = 0 := by
  cases a with
  | init node mapped => rw [SpaceAction.reserves, if_neg fun h => hne h.1]
  | malloc node size mapped => exact if_neg hne

theorem SpaceAction.inits_of_ne {a : SpaceAction} {n : NodeId} (hne : a.node ≠ n) :
    a.inits n = false := by
  cases a with
  | init node mapped =>
      have hbeq : (node == n) = false := beq_false_of_ne hne
      rw [SpaceAction.inits, hbeq, Bool.false_and]
  | malloc node size mapped => rfl

theorem NodeInv.other {cl : DonatingCluster} {as : List SpaceAction} {n : NodeId} {ctx : MemCtx}
    {own bumped : List Region} (h : NodeInv cl as n ctx own bumped) {a : SpaceAction}
    (hne : a.node ≠ n) : NodeInv cl (as ++ [a]) n ctx own bumped := by
  have hreserved : reserved cl (as ++ [a]) n = reserved cl as n := by
    rw [reserved_concat, SpaceAction.reserves_of_ne cl hne, Nat.add_zero]
  have hinited : inited (as ++ [a]) n = inited as n := by
    rw [inited_concat, SpaceAction.inits_of_ne hne, Bool.or_false]
  obtain ⟨hnode, hrole, hnext, hinit, hregions, hown, hlength, hbumped, hapart, hfresh, htile⟩ := h
  rw [← hinited] at hinit hlength hfresh
  rw [← hreserved] at hnext hfresh
  exact ⟨hnode, hrole, hnext, hinit, hregions, hown, hlength, hbumped, hapart, hfresh,
    fun hall => htile fun b hb => hall b (List.mem_append_left _ hb)⟩

theorem initSize_chunks (cl : DonatingCluster) (n : NodeId) :
    initSize (cl.chunks n) = cl.chunks n * pageSize := by
  have hle := cl.chunks_le n
  rw [initSize, Nat.mod_eq_of_lt]
  unfold pageSize
  omega

theorem roundUpPage_chunks (cl : DonatingCluster) (n : NodeId) :
    roundUpPage (cl.chunks n * pageSize) = cl.chunks n * pageSize := by
  have hle := cl.chunks_le n
  refine roundUpPage_of_dvd ⟨_, Nat.mul_comm _ _⟩ ?_
  unfold pageSize
  omega

/-- A region taken at the bump pointer extends the tiling of the addresses taken so far. -/
theorem bumped_append {bumped : List Region} {next size : Nat} (r : Region) (hpos : 0 < size)
    (hbumped : ∀ r ∈ bumped, r.Bumped next) (hapart : bumped.Pairwise Region.Apart)
    (hlow : globalStart ≤ next) (hbase : r.globalBase = next) (hsize : r.totalSize = size) :
    (∀ r' ∈ bumped ++ [r], r'.Bumped (next + size)) ∧ (bumped ++ [r]).Pairwise Region.Apart := by
  constructor
  · intro r' hr'
    rcases List.mem_append.mp hr' with hr' | hr'
    · have hold := hbumped r' hr'
      exact ⟨hold.low, Nat.le_add_right_of_le hold.high, hold.pos⟩
    · rw [List.mem_singleton.mp hr']
      exact ⟨hbase ▸ hlow, by rw [hbase, hsize], hsize ▸ hpos⟩
  · refine List.pairwise_concat.mpr ⟨hapart, fun a ha => ?_⟩
    exact .inl (hbase ▸ (hbumped a ha).high)

/-- A further region at the bump pointer keeps the invariant; without memory there is none. -/
theorem NodeInv.bump {cl : DonatingCluster} {as : List SpaceAction} {n : NodeId} {ctx ctx' : MemCtx}
    {own bumped : List Region} (h : NodeInv cl as n ctx own bumped) {a : SpaceAction} {size : Nat}
    {mapped : Option Nat} (hpos : 0 < size) (hreserves : a.reserves cl n = size)
    (hsucceeds : a.Succeeds → mapped.isSome) (hnode : ctx'.localNodeId = ctx.localNodeId)
    (hrole : ctx'.localRole = ctx.localRole) (hnext : ctx'.nextGlobalAddr = ctx.nextGlobalAddr + size)
    (hsize : roundUpPage size = size) (hinit : ctx'.pageTable.isSome = inited (as ++ [a]) n)
    (hlength : own.length = if n ≠ masterId ∧ inited (as ++ [a]) n = true then 1 else 0)
    (hregions : ctx'.regions = ctx.regions ++
      (mapped.map (Region.created size ctx.localNodeId ctx.nextGlobalAddr)).toList)
    (hfresh : n ≠ masterId → inited (as ++ [a]) n = true) :
    ∃ bumped', NodeInv cl (as ++ [a]) n ctx' own bumped' := by
  have hlow : globalStart ≤ ctx.nextGlobalAddr := h.next ▸ Nat.le_add_right _ _
  have hnext' : ctx'.nextGlobalAddr = globalStart + reserved cl (as ++ [a]) n := by
    rw [hnext, h.next, reserved_concat, hreserves, Nat.add_assoc]
  have hnever : n ≠ masterId → inited (as ++ [a]) n = false →
      reserved cl (as ++ [a]) n = 0 ∧ (bumped = []) := by
    intro hworker hnot
    rw [hfresh hworker] at hnot
    cases hnot
  cases mapped with
  | none =>
      refine ⟨bumped, hnode.trans h.node, hrole.trans h.role, hnext', hinit, ?_, h.isOwn, hlength,
        fun r hr => ?_, h.apart, hnever, fun hall => ?_⟩
      · rw [hregions, h.regions]
        simp
      · have hold := h.isBumped r hr
        exact ⟨hold.low, by rw [hnext]; exact Nat.le_add_right_of_le hold.high, hold.pos⟩
      · have hsome := hsucceeds (hall a (List.mem_append_right _ (List.mem_singleton_self _)))
        cases hsome
  | some addr =>
      obtain ⟨hbumped, hapart⟩ := bumped_append (.created size ctx.localNodeId
        ctx.nextGlobalAddr addr) hpos h.isBumped h.apart hlow rfl hsize
      refine ⟨_, hnode.trans h.node, hrole.trans h.role, hnext', hinit, ?_, h.isOwn, hlength,
        hnext ▸ hbumped, hapart, fun hworker hnot => ?_, fun hall x hx hx' => ?_⟩
      · rw [hregions, h.regions, List.append_assoc]
        rfl
      · rw [hfresh hworker] at hnot
        cases hnot
      · by_cases hold : x < ctx.nextGlobalAddr
        · obtain ⟨r, hr, hin⟩ := h.tile (fun b hb => hall b (List.mem_append_left _ hb)) x hx hold
          exact ⟨r, List.mem_append_left _ hr, hin⟩
        · refine ⟨_, List.mem_append_right _ (List.mem_singleton_self _), Nat.le_of_not_lt hold, ?_⟩
          simp only [Region.created, hsize]
          omega

theorem NodeInv.malloc {cl : DonatingCluster} {as : List SpaceAction} {n : NodeId} {ctx : MemCtx}
    {own bumped : List Region} (h : NodeInv cl as n ctx own bumped) {size : Nat}
    {mapped : Option Nat} (hsize : size ≠ 0) (htable : ctx.pageTable ≠ none)
    (hbump : globalStart + reserved cl (as ++ [.malloc n size mapped]) n < 2 ^ 64)
    (hwrap : size + (pageSize - 1) < 2 ^ 64) :
    ∃ bumped', NodeInv cl (as ++ [.malloc n size mapped]) n (ctx.memAlloc size mapped).2 own
      bumped' := by
  obtain ⟨hnode, hrole, hnext, hregions, htable'⟩ := ctx.memAlloc_spec size mapped hsize
  have hreserves : (SpaceAction.malloc n size mapped).reserves cl n = roundUpPage size := if_pos rfl
  have hinited : inited (as ++ [.malloc n size mapped]) n = inited as n := by
    rw [inited_concat]
    exact Bool.or_false _
  have hsome : inited as n = true := by
    rw [← h.isInited, Option.isSome_iff_ne_none]
    exact htable
  rw [reserved_concat, hreserves] at hbump
  refine h.bump ?_ hreserves (fun hsucc => hsucc) hnode hrole ?_ (roundUpPage_roundUpPage size) ?_ ?_
    hregions (fun _ => hinited.trans hsome)
  · exact Nat.lt_of_lt_of_le (Nat.pos_of_ne_zero hsize) (le_roundUpPage hwrap)
  · rw [hnext, Nat.mod_eq_of_lt]
    rw [h.next]
    omega
  · rw [htable', Option.isSome_map, hinited, h.isInited]
  · rw [hinited]
    exact h.ownLength

theorem NodeInv.init {cl : DonatingCluster} {as : List SpaceAction} {n : NodeId} {ctx : MemCtx}
    {own bumped : List Region} (h : NodeInv cl as n ctx own bumped) {mapped : Option Nat}
    (hn : n ∈ cl.nodes) (htable : ctx.pageTable = none)
    (hbump : globalStart + reserved cl (as ++ [.init n mapped]) n < 2 ^ 64)
    (hown : n ∈ cl.workers → globalStart + (n + 1) * (cl.chunks n * pageSize) < 2 ^ 64) :
    ∃ own' bumped', NodeInv cl (as ++ [.init n mapped]) n (ctx.memInit (cl.chunks n) mapped).2 own'
      bumped' := by
  obtain ⟨hnode, hrole, hnext, hregions, htable'⟩ := ctx.memInit_spec (cl.chunks n) mapped
  rw [initSize_chunks] at hnext hregions htable'
  have hnot : inited as n = false := by
    rw [← h.isInited, htable]
    rfl
  have hinited : inited (as ++ [.init n mapped]) n = mapped.isSome := by
    rw [inited_concat, hnot]
    simp [SpaceAction.inits]
  have hsize := roundUpPage_chunks cl n
  have hlength : own = [] := by
    have hold := h.ownLength
    rw [hnot] at hold
    exact List.length_eq_zero_iff.mp (by simpa using hold)
  have hinit : (ctx.memInit (cl.chunks n) mapped).2.pageTable.isSome = mapped.isSome := by
    rw [htable', Option.isSome_map]
  have hpos : 0 < cl.chunks n * pageSize := Nat.mul_pos (cl.chunks_pos n) (by decide)
  by_cases hmaster : n = masterId
  · have hreserves : (SpaceAction.init n mapped).reserves cl n = cl.chunks n * pageSize :=
      if_pos ⟨rfl, hmaster⟩
    have hctxRole : ctx.localRole = .master := by rw [h.role, if_pos hmaster]
    rw [reserved_concat, hreserves] at hbump
    rw [if_pos hctxRole, Nat.mod_eq_of_lt (by rw [h.next]; omega)] at hnext
    rw [MemCtx.initBase, if_pos hctxRole] at hregions
    exact ⟨own, h.bump hpos hreserves (fun hsucc => hsucc) hnode hrole hnext hsize
      (hinit.trans hinited.symm) (by simp [hlength, hmaster]) hregions
      (fun hworker => absurd hmaster hworker)⟩
  · have hreserves : (SpaceAction.init n mapped).reserves cl n = 0 := if_neg fun hand => hmaster hand.2
    have hctxRole : ctx.localRole ≠ .master := by
      rw [h.role, if_neg hmaster]
      simp
    have hworker : n ∈ cl.workers := (List.mem_cons.mp hn).resolve_left hmaster
    have hwrap := hown hworker
    obtain ⟨hzero, hempty⟩ := h.fresh hmaster hnot
    have hreserved : reserved cl (as ++ [.init n mapped]) n = 0 := by
      rw [reserved_concat, hzero, hreserves]
    rw [if_neg hctxRole] at hnext
    have hstart : ctx.nextGlobalAddr = globalStart := by rw [h.next, hzero, Nat.add_zero]
    have hbase : ctx.initBase (cl.chunks n) = globalStart + n * (cl.chunks n * pageSize) := by
      rw [MemCtx.initBase, if_neg hctxRole, h.node, initSize_chunks, hstart, Nat.mod_eq_of_lt]
      rw [Nat.add_one_mul] at hwrap
      omega
    refine ⟨(mapped.map (Region.created (cl.chunks n * pageSize) ctx.localNodeId
      (ctx.initBase (cl.chunks n)))).toList, [], hnode.trans h.node, hrole.trans h.role, ?_,
      hinit.trans hinited.symm,
      ?_, fun r hr => ?_, ?_, by simp, .nil, fun _ _ => ⟨hreserved, rfl⟩, fun _ x hlow hhigh => ?_⟩
    · rw [hnext, hstart, hreserved, Nat.add_zero]
    · rw [hregions, h.regions, hlength, hempty, List.append_nil, List.nil_append, List.append_nil]
    · obtain ⟨addr, -, rfl⟩ := Option.map_eq_some_iff.mp (Option.mem_toList.mp hr)
      exact ⟨hbase, hsize⟩
    · cases mapped <;> simp [hinited, hmaster]
    · rw [hnext, hstart] at hhigh
      exact absurd (Nat.lt_of_le_of_lt hlow hhigh) (lt_irrefl _)

/-! ### What the cluster has after a run -/

theorem NoWrap.of_concat {cl : DonatingCluster} {as : List SpaceAction} {a : SpaceAction}
    (h : NoWrap cl (as ++ [a])) : NoWrap cl as := by
  refine ⟨fun n hn => ?_, h.own, fun node size mapped hmem => ?_⟩
  · have hle := h.bump n hn
    rw [reserved_concat] at hle
    omega
  · exact h.size node size mapped (List.mem_append_left _ hmem)

/-- The run lemma: after any run every node has its own range and its bumped regions. -/
theorem nodeInv_of_exec {cl : DonatingCluster} {as : List SpaceAction} {s : SpaceState}
    (hexec : (spaceMachine cl).exec .initial as = some s) (hwrap : NoWrap cl as) :
    ∀ n ∈ cl.nodes, ∃ own bumped, NodeInv cl as n (s n) own bumped := by
  induction as using List.reverseRecOn generalizing s with
  | nil =>
      cases hexec
      exact fun n _ => ⟨[], [], NodeInv.initial cl n⟩
  | append_singleton as a ih =>
      rw [Machine.exec_append, Option.bind_eq_some_iff] at hexec
      obtain ⟨u, hu, hstep⟩ := hexec
      rw [Machine.exec_cons, Option.bind_eq_some_iff] at hstep
      obtain ⟨t, hstep, ht⟩ := hstep
      obtain rfl : t = s := Option.some.inj ht
      intro n hn
      obtain ⟨own, bumped, hinv⟩ := ih hu hwrap.of_concat n hn
      cases a with
      | init node mapped =>
          simp only [spaceMachine, spaceStep, Option.ite_none_right_eq_some,
            Option.some.injEq] at hstep
          obtain ⟨⟨-, htable⟩, rfl⟩ := hstep
          by_cases heq : n = node
          · subst heq
            rw [Function.update_self]
            exact hinv.init hn htable (hwrap.bump n hn) (hwrap.own n)
          · rw [Function.update_of_ne heq]
            exact ⟨own, bumped, hinv.other (Ne.symm heq)⟩
      | malloc node size mapped =>
          simp only [spaceMachine, spaceStep, Option.ite_none_right_eq_some,
            Option.some.injEq] at hstep
          obtain ⟨⟨-, htable, hsize⟩, rfl⟩ := hstep
          by_cases heq : n = node
          · subst heq
            rw [Function.update_self]
            exact ⟨own, hinv.malloc hsize htable (hwrap.bump n hn)
              (hwrap.size n size mapped (List.mem_append_right _ (List.mem_singleton_self _)))⟩
          · rw [Function.update_of_ne heq]
            exact ⟨own, bumped, hinv.other (Ne.symm heq)⟩

theorem NodeInv.worker_of_own {cl : DonatingCluster} {as : List SpaceAction} {n : NodeId}
    {ctx : MemCtx} {own bumped : List Region} (h : NodeInv cl as n ctx own bumped)
    (hn : n ∈ cl.nodes) {r : Region} (hr : r ∈ own) : n ∈ cl.workers ∧ inited as n = true := by
  have hlength := h.ownLength
  have hpos : own.length ≠ 0 := List.length_pos_of_mem hr |>.ne'
  by_cases hand : n ≠ masterId ∧ inited as n = true
  · exact ⟨(List.mem_cons.mp hn).resolve_left hand.1, hand.2⟩
  · rw [if_neg hand] at hlength
    exact absurd hlength hpos

theorem NodeInv.exists_own {cl : DonatingCluster} {as : List SpaceAction} {w : NodeId}
    {ctx : MemCtx} {own bumped : List Region} (h : NodeInv cl as w ctx own bumped)
    (hw : w ∈ cl.workers) (hinited : inited as w = true) : ∃ r ∈ own, r.IsOwn cl w := by
  have hlength := h.ownLength
  rw [if_pos ⟨Cluster.ne_masterId hw, hinited⟩] at hlength
  obtain ⟨r, hr⟩ := List.length_eq_one_iff.mp hlength
  have hmem : r ∈ own := by
    rw [hr]
    exact List.mem_singleton_self _
  exact ⟨r, hmem, h.isOwn r hmem⟩

/-- The own range of a worker lies above every address taken from a bump pointer. -/
theorem SpaceCondition.apart_own {cl : DonatingCluster} {as : List SpaceAction}
    (h : SpaceCondition cl as) {n w : NodeId} (hn : n ∈ cl.nodes) (hw : w ∈ cl.workers)
    (hinited : inited as w = true) {r r' : Region} (hr : r.IsOwn cl w)
    (hr' : r'.Bumped (globalStart + reserved cl as n)) : r'.Apart r := by
  have hbelow := h.below n hn w hw hinited
  have hhigh := hr'.high
  refine .inl ?_
  rw [hr.1]
  omega

theorem SpaceCondition.apart_owns {cl : DonatingCluster} {as : List SpaceAction}
    (h : SpaceCondition cl as) {i j : NodeId} (hi : i ∈ cl.workers) (hj : j ∈ cl.workers)
    (hne : i ≠ j) (hiInit : inited as i = true) (hjInit : inited as j = true) {r r' : Region}
    (hr : r.IsOwn cl i) (hr' : r'.IsOwn cl j) : r.Apart r' := by
  rcases h.workers i hi j hj hne hiInit hjInit with hle | hle
  · have hmul := Nat.mul_le_mul_right pageSize hle
    rw [Nat.add_one_mul, Nat.add_mul, Nat.mul_assoc, Nat.mul_assoc] at hmul
    refine .inl ?_
    rw [hr.1, hr.2, hr'.1]
    omega
  · have hmul := Nat.mul_le_mul_right pageSize hle
    rw [Nat.add_one_mul, Nat.add_mul, Nat.mul_assoc, Nat.mul_assoc] at hmul
    refine .inr ?_
    rw [hr.1, hr'.2, hr'.1]
    omega

theorem disjoint_of_spaceCondition {cl : DonatingCluster} {as : List SpaceAction} {s : SpaceState}
    (hexec : (spaceMachine cl).exec .initial as = some s) (hwrap : NoWrap cl as)
    (hcond : SpaceCondition cl as) : s.Disjoint cl := by
  have hinv := nodeInv_of_exec hexec hwrap
  refine ⟨fun n hn => ?_, fun n hn m hm hne r hr r' hr' => ?_⟩
  · obtain ⟨own, bumped, h⟩ := hinv n hn
    rw [h.regions]
    refine List.pairwise_append.mpr ⟨?_, h.apart, fun r hr r' hr' => ?_⟩
    · have hlength := h.ownLength
      rcases own with _ | ⟨r, _ | ⟨r', rest⟩⟩
      · exact .nil
      · exact List.pairwise_singleton _ _
      · split at hlength <;> simp at hlength
    · obtain ⟨hw, hinited⟩ := h.worker_of_own hn hr
      exact (hcond.apart_own hn hw hinited (h.isOwn r hr) (h.next ▸ h.isBumped r' hr')).symm
  · obtain ⟨own, bumped, h⟩ := hinv n hn
    obtain ⟨own', bumped', h'⟩ := hinv m hm
    rw [h.regions] at hr
    rw [h'.regions] at hr'
    rcases List.mem_append.mp hr with hr | hr <;> rcases List.mem_append.mp hr' with hr' | hr'
    · obtain ⟨hnWorker, hnInit⟩ := h.worker_of_own hn hr
      obtain ⟨hmWorker, hmInit⟩ := h'.worker_of_own hm hr'
      exact hcond.apart_owns hnWorker hmWorker hne hnInit hmInit (h.isOwn r hr) (h'.isOwn r' hr')
    · obtain ⟨hw, hinited⟩ := h.worker_of_own hn hr
      exact (hcond.apart_own hm hw hinited (h.isOwn r hr) (h'.next ▸ h'.isBumped r' hr')).symm
    · obtain ⟨hw, hinited⟩ := h'.worker_of_own hm hr'
      exact hcond.apart_own hn hw hinited (h'.isOwn r' hr') (h.next ▸ h.isBumped r hr)
    · -- one of the two bump pointers has not moved, so it has given no region
      have hb := h.isBumped r hr
      have hb' := h'.isBumped r' hr'
      have hlow := hb.low
      have hhigh := hb.high
      have hpos := hb.pos
      have hlow' := hb'.low
      have hhigh' := hb'.high
      have hpos' := hb'.pos
      rw [h.next] at hhigh
      rw [h'.next] at hhigh'
      rcases hcond.single n hn m hm hne with hzero | hzero <;> omega

theorem spaceCondition_of_disjoint {cl : DonatingCluster} {as : List SpaceAction} {s : SpaceState}
    (hexec : (spaceMachine cl).exec .initial as = some s) (hwrap : NoWrap cl as)
    (hall : ∀ a ∈ as, a.Succeeds) (hdisjoint : s.Disjoint cl) : SpaceCondition cl as := by
  have hinv := nodeInv_of_exec hexec hwrap
  refine ⟨fun i hi j hj hne hiInit hjInit => ?_, fun n hn w hw hinited => ?_,
    fun n hn m hm hne => ?_⟩
  · obtain ⟨own, bumped, h⟩ := hinv i (List.mem_cons_of_mem _ hi)
    obtain ⟨own', bumped', h'⟩ := hinv j (List.mem_cons_of_mem _ hj)
    obtain ⟨r, hr, hown⟩ := h.exists_own hi hiInit
    obtain ⟨r', hr', hown'⟩ := h'.exists_own hj hjInit
    have hapart := hdisjoint.other i (List.mem_cons_of_mem _ hi) j (List.mem_cons_of_mem _ hj) hne r
      (by rw [h.regions]; exact List.mem_append_left _ hr) r'
      (by rw [h'.regions]; exact List.mem_append_left _ hr')
    rcases hapart with hle | hle
    · refine .inl (Nat.le_of_mul_le_mul_right ?_ (by decide : 0 < pageSize))
      rw [Nat.add_one_mul, Nat.add_mul, Nat.mul_assoc, Nat.mul_assoc]
      rw [hown.1, hown.2, hown'.1] at hle
      omega
    · refine .inr (Nat.le_of_mul_le_mul_right ?_ (by decide : 0 < pageSize))
      rw [Nat.add_one_mul, Nat.add_mul, Nat.mul_assoc, Nat.mul_assoc]
      rw [hown'.1, hown'.2, hown.1] at hle
      omega
  · by_contra hnot
    have hwNode : w ∈ cl.nodes := List.mem_cons_of_mem _ hw
    have hpos : 0 < cl.chunks w * pageSize := Nat.mul_pos (cl.chunks_pos w) (by decide)
    obtain ⟨own, bumped, h⟩ := hinv n hn
    obtain ⟨r, hr, hlow, hhigh⟩ := h.tile hall (globalStart + w * (cl.chunks w * pageSize))
      (Nat.le_add_right _ _) (by rw [h.next]; omega)
    by_cases heq : n = w
    · subst heq
      obtain ⟨r', hr', hown⟩ := h.exists_own hw hinited
      have hsame := hdisjoint.same n hn
      rw [h.regions] at hsame
      refine Region.not_apart ⟨?_, ?_⟩ ⟨hlow, hhigh⟩
        ((List.pairwise_append.mp hsame).2.2 r' hr' r hr)
      · rw [hown.1]
      · rw [hown.1, hown.2]
        omega
    · obtain ⟨own', bumped', h'⟩ := hinv w hwNode
      obtain ⟨r', hr', hown⟩ := h'.exists_own hw hinited
      refine Region.not_apart ⟨hlow, hhigh⟩ ⟨?_, ?_⟩ (hdisjoint.other n hn w hwNode heq r
        (by rw [h.regions]; exact List.mem_append_right _ hr) r'
        (by rw [h'.regions]; exact List.mem_append_left _ hr'))
      · rw [hown.1]
      · rw [hown.1, hown.2]
        omega
  · by_contra hnot
    obtain ⟨own, bumped, h⟩ := hinv n hn
    obtain ⟨own', bumped', h'⟩ := hinv m hm
    obtain ⟨r, hr, hlow, hhigh⟩ := h.tile hall globalStart le_rfl (by rw [h.next]; omega)
    obtain ⟨r', hr', hlow', hhigh'⟩ := h'.tile hall globalStart le_rfl (by rw [h'.next]; omega)
    exact Region.not_apart ⟨hlow, hhigh⟩ ⟨hlow', hhigh'⟩ (hdisjoint.other n hn m hm hne r
      (by rw [h.regions]; exact List.mem_append_right _ hr) r'
      (by rw [h'.regions]; exact List.mem_append_right _ hr'))

/-- The live regions of a cluster are disjoint when the allocation rules do not collide, and, where
every call gets its memory, only then. -/
theorem globalSpace_disjoint_iff {cl : DonatingCluster} {as : List SpaceAction} {s : SpaceState}
    (hexec : (spaceMachine cl).exec .initial as = some s) (hwrap : NoWrap cl as) :
    (SpaceCondition cl as → s.Disjoint cl) ∧
      ((∀ a ∈ as, a.Succeeds) → (s.Disjoint cl ↔ SpaceCondition cl as)) :=
  ⟨disjoint_of_spaceCondition hexec hwrap, fun hall =>
    ⟨spaceCondition_of_disjoint hexec hwrap hall, disjoint_of_spaceCondition hexec hwrap⟩⟩

/-- A master and a worker with id 5 that donate one chunk each. -/
def twoDonors : DonatingCluster where
  workers := [5]
  nodup := by decide
  masterId_lt := by decide
  chunks := fun _ => 1
  chunks_pos _ := le_rfl
  chunks_le _ := by decide

/-- Both nodes start, and the master allocates a page. -/
def masterAllocates : List SpaceAction :=
  [.init 1 (some 0x10000), .init 5 (some 0x20000), .malloc 1 4096 (some 0x30000)]

theorem globalSpace_disjoint_iff_masterAllocates :
    ∃ s, (spaceMachine twoDonors).exec .initial masterAllocates = some s ∧ s.Disjoint twoDonors := by
  have hrun : ((spaceMachine twoDonors).exec .initial masterAllocates).isSome = true := by
    decide +kernel
  obtain ⟨s, hexec⟩ := Option.isSome_iff_exists.mp hrun
  have hwrap : NoWrap twoDonors masterAllocates := by
    refine ⟨by decide +kernel, by decide +kernel, fun node size mapped hmem => ?_⟩
    simp [masterAllocates] at hmem
    obtain ⟨-, rfl, -⟩ := hmem
    decide
  refine ⟨s, hexec, (globalSpace_disjoint_iff hexec hwrap).1 ⟨?_, ?_, ?_⟩⟩ <;> decide +kernel

/-- Both nodes start, and the worker allocates a page: it gets the master's first address. -/
def workerAllocates : List SpaceAction :=
  [.init 1 (some 0x10000), .init 5 (some 0x20000), .malloc 5 1 (some 0x30000)]

theorem worker_malloc_not_disjoint : NoWrap twoDonors workerAllocates ∧
    ∃ s, (spaceMachine twoDonors).exec .initial workerAllocates = some s ∧ ¬ s.Disjoint twoDonors := by
  refine ⟨⟨by decide +kernel, by decide +kernel, fun node size mapped hmem => ?_⟩, ?_⟩
  · simp [workerAllocates] at hmem
    obtain ⟨-, rfl, -⟩ := hmem
    decide
  · have hrun : ((spaceMachine twoDonors).exec .initial workerAllocates).map
        (fun s => decide (∀ r ∈ (s 1).regions, ∀ r' ∈ (s 5).regions, r.Apart r')) = some false := by
      decide +kernel
    obtain ⟨s, hexec, hmeet⟩ := Option.map_eq_some_iff.mp hrun
    refine ⟨s, hexec, fun hdisjoint => of_decide_eq_false hmeet ?_⟩
    exact hdisjoint.other 1 (by decide) 5 (by decide) (by decide)

end Dsm
