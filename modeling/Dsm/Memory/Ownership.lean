import Dsm.Types
import Dsm.Library.FirstMatch
import Mathlib.Algebra.Ring.Int.Defs
import Mathlib.Data.List.Find
import Mathlib.Data.List.Induction
import Mathlib.Logic.Function.Basic

/-!
# The ownership table

The master's hash table of owned ranges, and the map from pages to owners that its interface
describes. A range is chained in the bucket of its first page, while a query looks in the bucket of
the page it asks about, so only the first page of a range can be found (`ownership_refines_iff`).
-/

namespace Dsm

/-- `ownership_entry_t`, without its link. -/
structure OwnershipEntry where
  globalAddr : Nat
  size : Nat
  ownerId : Nat
deriving DecidableEq, Repr

def ownershipTableSize : Nat := 4096

/-- `g_ownership_table`: the chain of every bucket. -/
abbrev OwnershipTable := Nat → List OwnershipEntry

def ownershipHash (addr : Nat) : Nat := (addr >>> 12) % ownershipTableSize

/-- The range test of the chain walks; the sum is a `uint64_t`. -/
def OwnershipEntry.covers (entry : OwnershipEntry) (addr : Nat) : Bool :=
  decide (entry.globalAddr ≤ addr) && decide (addr < (entry.globalAddr + entry.size) % 2 ^ 64)

/-- The conversion of a `uint32_t` to an `int`. -/
def intOfUint32 (n : Nat) : Int := if n < 2 ^ 31 then n else n - 2 ^ 32

theorem intOfUint32_of_lt {n : Nat} (h : n < 2 ^ 31) : intOfUint32 n = n := if_pos h

/-- `dsm_ownership_register` with memory for the entry; without, it returns -1 and adds nothing. -/
def ownershipRegister (table : OwnershipTable) (globalAddr size ownerId : Nat) :
    Int × OwnershipTable :=
  let entry : OwnershipEntry := { globalAddr := globalAddr, size := size, ownerId := ownerId }
  let hash := ownershipHash globalAddr
  (0, Function.update table hash (entry :: table hash))

def ownershipGet (table : OwnershipTable) (globalAddr : Nat) : Int :=
  match (table (ownershipHash globalAddr)).find? (·.covers globalAddr) with
  | some entry => intOfUint32 entry.ownerId
  | none => -1

def ownershipSet (table : OwnershipTable) (globalAddr ownerId : Nat) : Int × OwnershipTable :=
  let hash := ownershipHash globalAddr
  match (table hash).updateFirst (·.covers globalAddr) ({ · with ownerId := ownerId }) with
  | some chain => (0, Function.update table hash chain)
  | none => (-1, table)

/-! ### Sequences of calls, and what they say about a page -/

inductive OwnershipCall where
  | register (globalAddr size ownerId : Nat)
  | set (globalAddr ownerId : Nat)
deriving DecidableEq, Repr

namespace OwnershipCall

def ownerId : OwnershipCall → Nat
  | .register _ _ ownerId => ownerId
  | .set _ ownerId => ownerId

/-- The same call for another owner. -/
def withOwner (ownerId : Nat) : OwnershipCall → OwnershipCall
  | .register globalAddr size _ => .register globalAddr size ownerId
  | .set globalAddr _ => .set globalAddr ownerId

/-- The call is a registration whose range covers page `p`. -/
def registers (p : Nat) : OwnershipCall → Bool
  | .register globalAddr size _ =>
      decide (globalAddr ≤ p * pageSize) && decide (p * pageSize < globalAddr + size)
  | .set _ _ => false

/-- The call names the owner of page `p`. -/
def assigns (p : Nat) : OwnershipCall → Bool
  | .register globalAddr size ownerId => registers p (.register globalAddr size ownerId)
  | .set globalAddr _ => globalAddr / pageSize == p

def Valid : OwnershipCall → Prop
  | .register globalAddr size ownerId =>
      pageSize ∣ globalAddr ∧ pageSize ∣ size ∧ 0 < size ∧ globalAddr + size < 2 ^ 64 ∧
        1 ≤ ownerId ∧ ownerId ≤ maxNodes
  | .set globalAddr ownerId => globalAddr < 2 ^ 64 ∧ ownerId < 2 ^ 31

def OnePage : OwnershipCall → Prop
  | .register _ size _ => size = pageSize
  | .set _ _ => True

end OwnershipCall

/-- The table after some calls, with the successful ones, the latest first. -/
structure OwnershipRun where
  table : OwnershipTable
  log : List OwnershipCall

namespace OwnershipRun

def initial : OwnershipRun := { table := fun _ => [], log := [] }

def step (s : OwnershipRun) (call : OwnershipCall) : OwnershipRun :=
  let out : Int × OwnershipTable := match call with
    | .register globalAddr size ownerId => ownershipRegister s.table globalAddr size ownerId
    | .set globalAddr ownerId => ownershipSet s.table globalAddr ownerId
  { table := out.2, log := if out.1 = 0 then call :: s.log else s.log }

/-- The owner that the latest successful call about page `p` names. -/
def latestOwner (s : OwnershipRun) (p : Nat) : Option Nat :=
  (s.log.find? (·.assigns p)).map (·.ownerId)

def Registered (s : OwnershipRun) (p : Nat) : Prop := ∃ call ∈ s.log, call.registers p = true

/-- `dsm_ownership_get` reads the map from pages to owners, and fails exactly on the pages that no
registration covers. -/
def Refines (s : OwnershipRun) : Prop :=
  ∀ a < 2 ^ 64,
    (∀ owner, s.latestOwner (a / pageSize) = some owner → ownershipGet s.table a = owner) ∧
      (ownershipGet s.table a = -1 ↔ ¬ s.Registered (a / pageSize))

end OwnershipRun

def ownershipRun (calls : List OwnershipCall) : OwnershipRun :=
  calls.foldl OwnershipRun.step .initial

theorem ownershipRun_concat (calls : List OwnershipCall) (call : OwnershipCall) :
    ownershipRun (calls ++ [call]) = (ownershipRun calls).step call := by
  rw [ownershipRun, List.foldl_concat]
  rfl

/-! ### Ranges of one page -/

theorem ownershipHash_eq (a : Nat) : ownershipHash a = a / pageSize % ownershipTableSize := by
  rw [ownershipHash, Nat.shiftRight_eq_div_pow]
  rfl

/-- An entry for one whole page, in the bucket of that page. -/
structure OwnershipEntry.OnePage (entry : OwnershipEntry) : Prop where
  aligned : pageSize ∣ entry.globalAddr
  size : entry.size = pageSize
  noWrap : entry.globalAddr + pageSize < 2 ^ 64
  owner : entry.ownerId < 2 ^ 31

theorem OwnershipEntry.OnePage.covers_iff {entry : OwnershipEntry} (h : entry.OnePage) (a : Nat) :
    entry.covers a = true ↔ entry.globalAddr / pageSize = a / pageSize := by
  obtain ⟨⟨k, hk⟩, hsize, hnowrap, -⟩ := h
  have hmod : (entry.globalAddr + entry.size) % 2 ^ 64 = entry.globalAddr + pageSize := by
    rw [hsize, Nat.mod_eq_of_lt hnowrap]
  rw [OwnershipEntry.covers, hmod, hk]
  simp only [Bool.and_eq_true, decide_eq_true_eq]
  unfold pageSize
  omega

theorem OwnershipEntry.OnePage.withOwner {entry : OwnershipEntry} (h : entry.OnePage) {owner : Nat}
    (howner : owner < 2 ^ 31) : OwnershipEntry.OnePage { entry with ownerId := owner } :=
  ⟨h.aligned, h.size, h.noWrap, howner⟩

/-- The table when every registered range is one page: each chain reads as the map restricted to the
pages of its bucket. -/
structure OwnershipRun.OnePageInv (s : OwnershipRun) : Prop where
  entries : ∀ hash, ∀ entry ∈ s.table hash, entry.OnePage
  owners : ∀ p, ((s.table (p % ownershipTableSize)).find?
    fun entry => entry.globalAddr / pageSize == p).map (·.ownerId) = s.latestOwner p
  registered : ∀ p, (s.latestOwner p).isSome ↔ s.Registered p

theorem OwnershipRun.OnePageInv.initial : OwnershipRun.OnePageInv .initial := by
  refine ⟨?_, ?_, ?_⟩ <;>
    simp [OwnershipRun.initial, OwnershipRun.latestOwner, OwnershipRun.Registered]

theorem OwnershipRun.OnePageInv.find_covers {s : OwnershipRun} (h : s.OnePageInv) (hash a : Nat) :
    (s.table hash).find? (·.covers a) =
      (s.table hash).find? fun entry => entry.globalAddr / pageSize == a / pageSize := by
  refine List.find?_congr fun entry hmem => ?_
  rw [Bool.eq_iff_iff, (h.entries hash entry hmem).covers_iff, beq_iff_eq]

theorem OwnershipRun.OnePageInv.refines {s : OwnershipRun} (h : s.OnePageInv) : s.Refines := by
  intro a _
  have howners := h.owners (a / pageSize)
  rw [← ownershipHash_eq, ← h.find_covers] at howners
  rw [← h.registered, ← howners]
  cases hfind : (s.table (ownershipHash a)).find? (·.covers a) with
  | none => simp [ownershipGet, hfind]
  | some entry =>
      have hone := h.entries _ entry (List.mem_of_find?_eq_some hfind)
      have hint : intOfUint32 entry.ownerId = entry.ownerId := intOfUint32_of_lt hone.owner
      have hne : (entry.ownerId : Int) ≠ -1 := by omega
      simp [ownershipGet, hfind, hint, hne]

theorem OwnershipRun.latestOwner_cons (table : OwnershipTable) (log : List OwnershipCall)
    (call : OwnershipCall) (p : Nat) :
    OwnershipRun.latestOwner { table := table, log := call :: log } p =
      if call.assigns p = true then some call.ownerId
      else OwnershipRun.latestOwner { table := table, log := log } p := by
  cases hassigns : call.assigns p <;> simp [OwnershipRun.latestOwner, hassigns]

theorem OwnershipRun.registered_cons (table : OwnershipTable) (log : List OwnershipCall)
    (call : OwnershipCall) (p : Nat) :
    OwnershipRun.Registered { table := table, log := call :: log } p ↔
      call.registers p = true ∨ OwnershipRun.Registered { table := table, log := log } p := by
  simp [OwnershipRun.Registered]

theorem OwnershipRun.OnePageInv.register {s : OwnershipRun} (h : s.OnePageInv)
    {globalAddr ownerId : Nat} (hvalid : (OwnershipCall.register globalAddr pageSize ownerId).Valid) :
    (s.step (.register globalAddr pageSize ownerId)).OnePageInv := by
  obtain ⟨haligned, -, -, hnowrap, hlow, hhigh⟩ := hvalid
  have hassigns : ∀ p, (OwnershipCall.register globalAddr pageSize ownerId).assigns p = true ↔
      globalAddr / pageSize = p := by
    intro p
    obtain ⟨k, rfl⟩ := haligned
    simp only [OwnershipCall.assigns, OwnershipCall.registers, Bool.and_eq_true, decide_eq_true_eq]
    unfold pageSize
    omega
  have howner : ownerId < 2 ^ 31 := Nat.lt_of_le_of_lt hhigh (by decide)
  have hentry : OwnershipEntry.OnePage
      { globalAddr := globalAddr, size := pageSize, ownerId := ownerId } :=
    ⟨haligned, rfl, hnowrap, howner⟩
  refine ⟨fun hash entry hmem => ?_, fun p => ?_, fun p => ?_⟩
  · by_cases heq : hash = ownershipHash globalAddr
    · subst heq
      simp only [OwnershipRun.step, ownershipRegister, Function.update_self, List.mem_cons] at hmem
      rcases hmem with rfl | hmem
      · exact hentry
      · exact h.entries _ entry hmem
    · simp only [OwnershipRun.step, ownershipRegister, Function.update_of_ne heq] at hmem
      exact h.entries _ entry hmem
  · have hold := h.owners p
    simp only [OwnershipRun.step, ownershipRegister, if_true, OwnershipRun.latestOwner_cons, hassigns]
    by_cases hp : globalAddr / pageSize = p
    · subst hp
      rw [← ownershipHash_eq, Function.update_self, List.find?_cons_of_pos (by simp), if_pos rfl]
      rfl
    · rw [if_neg hp]
      by_cases heq : p % ownershipTableSize = ownershipHash globalAddr
      · rw [heq] at hold ⊢
        rw [Function.update_self, List.find?_cons_of_neg (by simpa using hp)]
        exact hold
      · rw [Function.update_of_ne heq]
        exact hold
  · have hold := h.registered p
    have hregisters : (OwnershipCall.register globalAddr pageSize ownerId).registers p = true ↔
        globalAddr / pageSize = p := hassigns p
    simp only [OwnershipRun.step, ownershipRegister, if_true, OwnershipRun.latestOwner_cons, hassigns,
      OwnershipRun.registered_cons, hregisters]
    by_cases hp : globalAddr / pageSize = p
    · simp [hp]
    · rw [if_neg hp, or_iff_right hp]
      exact hold

theorem OwnershipRun.OnePageInv.set {s : OwnershipRun} (h : s.OnePageInv) {globalAddr ownerId : Nat}
    (howner : ownerId < 2 ^ 31) : (s.step (.set globalAddr ownerId)).OnePageInv := by
  cases hupdate : (s.table (ownershipHash globalAddr)).updateFirst (·.covers globalAddr)
      ({ · with ownerId := ownerId }) with
  | none =>
      have hsame : s.step (.set globalAddr ownerId) = s := by
        simp [OwnershipRun.step, ownershipSet, hupdate]
      rw [hsame]
      exact h
  | some chain =>
      have hstep : s.step (.set globalAddr ownerId) =
          { table := Function.update s.table (ownershipHash globalAddr) chain
            log := .set globalAddr ownerId :: s.log } := by
        simp [OwnershipRun.step, ownershipSet, hupdate]
      have hassigns : ∀ p, (OwnershipCall.set globalAddr ownerId).assigns p = true ↔
          globalAddr / pageSize = p := by simp [OwnershipCall.assigns]
      have hentries := h.entries (ownershipHash globalAddr)
      have hchain : ∀ entry ∈ chain, entry.OnePage := by
        intro entry hmem
        rcases List.mem_of_mem_updateFirst hupdate hmem with hsame | ⟨old, hold, rfl⟩
        · exact hentries entry hsame
        · exact (hentries old hold).withOwner howner
      obtain ⟨found, hfound⟩ : ∃ found,
          (s.table (ownershipHash globalAddr)).find? (·.covers globalAddr) = some found := by
        rw [← Option.isSome_iff_exists, ← List.updateFirst_isSome, hupdate]
        rfl
      have hself : chain.find? (fun entry => entry.globalAddr / pageSize == globalAddr / pageSize) =
          some { found with ownerId := ownerId } := by
        have hread := List.find?_updateFirst_self (fun _ _ => by rfl) hupdate
        rw [hfound, Option.map_some] at hread
        rw [← hread]
        refine List.find?_congr fun entry hmem => ?_
        rw [Bool.eq_iff_iff, (hchain entry hmem).covers_iff, beq_iff_eq]
      have hother : ∀ p, globalAddr / pageSize ≠ p →
          chain.find? (fun entry => entry.globalAddr / pageSize == p) =
            (s.table (ownershipHash globalAddr)).find?
              (fun entry => entry.globalAddr / pageSize == p) := by
        intro p hne
        refine List.find?_updateFirst_of_disjoint (fun entry hmem hcovers => ?_) hupdate
        rw [(hentries entry hmem).covers_iff] at hcovers
        simp [hcovers, hne]
      rw [hstep]
      refine ⟨fun hash entry hmem => ?_, fun p => ?_, fun p => ?_⟩
      · by_cases heq : hash = ownershipHash globalAddr
        · simp only [heq, Function.update_self] at hmem
          exact hchain entry hmem
        · simp only [Function.update_of_ne heq] at hmem
          exact h.entries hash entry hmem
      · have hold := h.owners p
        rw [OwnershipRun.latestOwner_cons]
        simp only [hassigns]
        by_cases hp : globalAddr / pageSize = p
        · subst hp
          rw [← ownershipHash_eq, Function.update_self, hself, if_pos rfl]
          rfl
        · rw [if_neg hp]
          by_cases heq : p % ownershipTableSize = ownershipHash globalAddr
          · rw [heq] at hold ⊢
            rw [Function.update_self, hother p hp]
            exact hold
          · rw [Function.update_of_ne heq]
            exact hold
      · have hold := h.registered p
        rw [OwnershipRun.latestOwner_cons, OwnershipRun.registered_cons]
        simp only [hassigns, OwnershipCall.registers, Bool.false_eq_true, false_or]
        by_cases hp : globalAddr / pageSize = p
        · subst hp
          have howners := h.owners (globalAddr / pageSize)
          rw [← ownershipHash_eq, ← h.find_covers, hfound] at howners
          rw [if_pos rfl]
          refine iff_of_true rfl (hold.mp ?_)
          rw [← howners]
          rfl
        · rw [if_neg hp]
          exact hold

theorem OwnershipRun.OnePageInv.step {s : OwnershipRun} (h : s.OnePageInv) {call : OwnershipCall}
    (hvalid : call.Valid) (hone : call.OnePage) : (s.step call).OnePageInv := by
  cases call with
  | register globalAddr size ownerId =>
      obtain rfl : size = pageSize := hone
      exact h.register hvalid
  | set globalAddr ownerId => exact h.set hvalid.2

theorem ownershipRun_onePageInv {calls : List OwnershipCall} (hvalid : ∀ call ∈ calls, call.Valid)
    (hone : ∀ call ∈ calls, call.OnePage) : (ownershipRun calls).OnePageInv := by
  induction calls using List.reverseRecOn with
  | nil => exact OwnershipRun.OnePageInv.initial
  | append_singleton calls call ih =>
      rw [ownershipRun_concat]
      refine (ih (fun c hc => hvalid c ?_) (fun c hc => hone c ?_)).step (hvalid call ?_) (hone call ?_)
      · exact List.mem_append_left _ hc
      · exact List.mem_append_left _ hc
      · exact List.mem_append_right _ (List.mem_singleton_self _)
      · exact List.mem_append_right _ (List.mem_singleton_self _)

/-! ### Ranges of several pages -/

theorem ownershipRun_owner {calls : List OwnershipCall} {owner : Nat}
    (howner : ∀ call ∈ calls, call.ownerId = owner) :
    ∀ hash, ∀ entry ∈ (ownershipRun calls).table hash, entry.ownerId = owner := by
  induction calls using List.reverseRecOn with
  | nil => simp [ownershipRun, OwnershipRun.initial]
  | append_singleton calls call ih =>
      have hold := ih fun c hc => howner c (List.mem_append_left _ hc)
      have hcall := howner call (List.mem_append_right _ (List.mem_singleton_self _))
      intro hash entry hmem
      rw [ownershipRun_concat] at hmem
      cases call with
      | register globalAddr size ownerId =>
          by_cases heq : hash = ownershipHash globalAddr
          · subst heq
            simp only [OwnershipRun.step, ownershipRegister, Function.update_self,
              List.mem_cons] at hmem
            rcases hmem with rfl | hmem
            · exact hcall
            · exact hold _ entry hmem
          · simp only [OwnershipRun.step, ownershipRegister, Function.update_of_ne heq] at hmem
            exact hold _ entry hmem
      | set globalAddr ownerId =>
          simp only [OwnershipRun.step, ownershipSet] at hmem
          split at hmem
          · rename_i chain hupdate
            by_cases heq : hash = ownershipHash globalAddr
            · simp only [heq, Function.update_self] at hmem
              rcases List.mem_of_mem_updateFirst hupdate hmem with hmem | ⟨old, -, rfl⟩
              · exact hold _ entry hmem
              · exact hcall
            · simp only [Function.update_of_ne heq] at hmem
              exact hold _ entry hmem
          · exact hold _ entry hmem

/-- The second page of a range hashes to the next bucket, where the range is not chained. -/
theorem ownershipHash_next (a : Nat) : ownershipHash (a + pageSize) ≠ ownershipHash a := by
  rw [ownershipHash_eq, ownershipHash_eq, pageSize, ownershipTableSize]
  omega

/-- After calls for owner 1, a range of several pages registered for owner 2 is not found at its
second page. -/
theorem not_refines_of_register {calls : List OwnershipCall} {globalAddr size : Nat}
    (hvalid : (OwnershipCall.register globalAddr size 2).Valid) (hsize : size ≠ pageSize)
    (howner : ∀ call ∈ calls, call.ownerId = 1) :
    ¬ (ownershipRun (calls ++ [.register globalAddr size 2])).Refines := by
  obtain ⟨haligned, hpages, hpos, hnowrap, -, -⟩ := hvalid
  have hlarge : 2 * pageSize ≤ size := by
    obtain ⟨k, rfl⟩ := hpages
    unfold pageSize at *
    omega
  intro hrefines
  have hassigns : (OwnershipCall.register globalAddr size 2).assigns
      ((globalAddr + pageSize) / pageSize) = true := by
    obtain ⟨k, rfl⟩ := haligned
    simp only [OwnershipCall.assigns, OwnershipCall.registers, Bool.and_eq_true, decide_eq_true_eq]
    unfold pageSize at *
    omega
  have hread := (hrefines (globalAddr + pageSize) (by omega)).1 2 (by
    rw [ownershipRun_concat]
    simp only [OwnershipRun.step, ownershipRegister, if_true]
    rw [OwnershipRun.latestOwner_cons, if_pos hassigns]
    rfl)
  rw [ownershipRun_concat] at hread
  simp only [OwnershipRun.step, ownershipRegister, ownershipGet,
    Function.update_of_ne (ownershipHash_next globalAddr)] at hread
  split at hread
  · rename_i entry hfind
    have hone := ownershipRun_owner howner _ entry (List.mem_of_find?_eq_some hfind)
    rw [hone] at hread
    exact absurd hread (by decide)
  · exact absurd hread (by decide)

/-! ### When the table is a map from pages to owners -/

theorem OwnershipCall.withOwner_withOwner (call : OwnershipCall) (i j : Nat) :
    (call.withOwner i).withOwner j = call.withOwner j := by
  cases call <;> rfl

theorem OwnershipCall.onePage_withOwner (call : OwnershipCall) (i : Nat) :
    (call.withOwner i).OnePage ↔ call.OnePage := by
  cases call <;> rfl

theorem OwnershipCall.Valid.withOwner_one {call : OwnershipCall} (h : call.Valid) :
    (call.withOwner 1).Valid := by
  cases call with
  | register globalAddr size ownerId =>
      obtain ⟨haligned, hpages, hpos, hnowrap, -, -⟩ := h
      exact ⟨haligned, hpages, hpos, hnowrap, by decide, by decide⟩
  | set globalAddr ownerId => exact ⟨h.1, by decide⟩

/-- The table answers like the map from pages to owners, for every choice of the owners in every
initial part of the calls, exactly when every registered range is one page. -/
theorem ownership_refines_iff {calls : List OwnershipCall} (hvalid : ∀ call ∈ calls, call.Valid) :
    (∀ calls', (∀ call ∈ calls', call.Valid) →
      calls'.map (·.withOwner 0) <+: calls.map (·.withOwner 0) → (ownershipRun calls').Refines) ↔
      ∀ call ∈ calls, call.OnePage := by
  constructor
  · intro hall call hmem
    cases call with
    | set globalAddr ownerId => trivial
    | register globalAddr size ownerId =>
        obtain ⟨earlier, later, rfl⟩ := List.append_of_mem hmem
        have hregister : (OwnershipCall.register globalAddr size 2).Valid := by
          obtain ⟨haligned, hpages, hpos, hnowrap, -, -⟩ := hvalid _ hmem
          exact ⟨haligned, hpages, hpos, hnowrap, by decide, by decide⟩
        have howner : ∀ call ∈ earlier.map (·.withOwner 1), call.ownerId = 1 := by
          intro call hcall
          obtain ⟨old, -, rfl⟩ := List.mem_map.mp hcall
          cases old <;> rfl
        by_contra hsize
        refine not_refines_of_register hregister hsize howner (hall _ (fun call hcall => ?_) ?_)
        · rcases List.mem_append.mp hcall with hcall | hcall
          · obtain ⟨old, hold, rfl⟩ := List.mem_map.mp hcall
            exact (hvalid old (List.mem_append_left _ hold)).withOwner_one
          · rw [List.mem_singleton.mp hcall]
            exact hregister
        · refine ⟨later.map (·.withOwner 0), ?_⟩
          have hmap : (earlier.map (·.withOwner 1)).map (·.withOwner 0) =
              earlier.map (·.withOwner 0) := by
            simp only [List.map_map, Function.comp_def, OwnershipCall.withOwner_withOwner]
          rw [List.map_append, List.map_append, hmap, List.append_assoc]
          rfl
  · intro hone calls' hvalid' hshape
    refine (ownershipRun_onePageInv hvalid' fun call hcall => ?_).refines
    obtain ⟨old, hold, heq⟩ := List.mem_map.mp (hshape.subset (List.mem_map_of_mem hcall))
    rw [← OwnershipCall.onePage_withOwner call 0, ← heq, OwnershipCall.onePage_withOwner]
    exact hone old hold

/-- One allocation of two pages, as a worker's `ALLOC` of 8192 bytes registers it. -/
theorem ownership_refines_iff_two_pages :
    ¬ ∀ calls', (∀ call ∈ calls', call.Valid) →
      calls'.map (·.withOwner 0) <+: [OwnershipCall.register 0x1000000 8192 0] →
        (ownershipRun calls').Refines := by
  have hvalid : ∀ call ∈ [OwnershipCall.register 0x1000000 8192 1], call.Valid := by
    simp [OwnershipCall.Valid, pageSize, maxNodes]
  intro hall
  have hone := (ownership_refines_iff hvalid).mp hall
  have hsize : (8192 : Nat) = pageSize := hone _ (List.mem_singleton_self _)
  exact absurd hsize (by decide)

/-- The second page of the only registered range has no owner. -/
theorem ownershipGet_second_page :
    (∀ call ∈ [OwnershipCall.register 0x1000000 8192 1], call.Valid) ∧
      (ownershipRun [.register 0x1000000 8192 1]).latestOwner (0x1001000 / pageSize) = some 1 ∧
      ownershipGet (ownershipRun [.register 0x1000000 8192 1]).table 0x1001000 = -1 ∧
      ¬ (ownershipRun [.register 0x1000000 8192 1]).Refines := by
  have howner : (ownershipRun [.register 0x1000000 8192 1]).latestOwner (0x1001000 / pageSize) =
      some 1 := by decide
  have hget : ownershipGet (ownershipRun [.register 0x1000000 8192 1]).table 0x1001000 = -1 := by
    decide
  refine ⟨by simp [OwnershipCall.Valid, pageSize, maxNodes], howner, hget, fun hrefines => ?_⟩
  have hread := (hrefines 0x1001000 (by decide)).1 1 howner
  rw [hget] at hread
  exact absurd hread (by decide)

end Dsm
