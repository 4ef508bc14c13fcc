import Dsm.Types
import Dsm.Library.Machine
import Dsm.Library.FirstMatch
import Mathlib.Data.List.Basic
import Mathlib.Logic.Function.Basic

/-!
# Discovery

How a node finds its role: it starts its UDP listener, broadcasts `DISCOVER_DSM` once, waits for a
`DISCOVER_REPLY`, and becomes the master if none has come when the time is up. Only a node whose role
is already set to master answers a broadcast, so nodes whose windows between broadcast and role
overlap do not see each other. There is one master as long as such a window begins only after a
master is there, or while no other one is open (`one_master_of_ok`).

A node is its address. A message may be delivered in any order, and no time-out strikes while one is
on its way.
-/

namespace Dsm

inductive UdpMessage where
  | discover (sender : Address)
  | reply (master : Address)
deriving DecidableEq, Repr

/-- Where the main thread is in `dsm_init_with_params`. -/
inductive DiscoveryPc where
  /-- Before `dsm_udp_start_listener`. -/
  | off
  | broadcast
  /-- In `dsm_udp_wait_discovery`. -/
  | wait
  /-- That function has returned a role, and `local_role` is not set yet. -/
  | decide (role : Role)
  | done
deriving DecidableEq, Repr

structure DiscoveryNode where
  pc : DiscoveryPc
  localRole : Role
  masterFound : Bool
  masterAddr : Option Address
deriving DecidableEq, Repr

structure DiscoveryState where
  node : Address → DiscoveryNode
  listeners : List Address
  /-- The messages on their way, each with the listener that it goes to. -/
  inFlight : List (Address × UdpMessage)

inductive DiscoveryAction where
  | start (a : Address)
  | broadcast (a : Address)
  | deliver (i : Nat)
  /-- The wait ends with `master_found`. -/
  | found (a : Address)
  | timeout (a : Address)
  | setRole (a : Address)
deriving DecidableEq, Repr

namespace DiscoveryState

def setNode (s : DiscoveryState) (a : Address) (n : DiscoveryNode) : DiscoveryState :=
  { s with node := Function.update s.node a n }

def setPc (s : DiscoveryState) (a : Address) (pc : DiscoveryPc) : DiscoveryState :=
  s.setNode a { s.node a with pc := pc }

def send (s : DiscoveryState) (listeners : List Address) (msg : UdpMessage) : DiscoveryState :=
  { s with inFlight := s.inFlight ++ listeners.map fun a => (a, msg) }

/-- `udp_listener_thread_func` of node `a` with a message. A reply goes to the address in the
message, where every listener takes it. -/
def handle (s : DiscoveryState) (a : Address) : UdpMessage → DiscoveryState
  | .discover sender =>
      if sender = a then s
      else if (s.node a).localRole = .master then
        s.send (s.listeners.filter fun b => b.1 = sender.1) (.reply a)
      else s
  | .reply master => s.setNode a { s.node a with masterFound := true, masterAddr := some master }

def step (s : DiscoveryState) : DiscoveryAction → Option DiscoveryState
  | .start a =>
      if (s.node a).pc = .off then
        some { s.setPc a .broadcast with listeners := s.listeners ++ [a] }
      else none
  | .broadcast a =>
      if (s.node a).pc = .broadcast then some ((s.setPc a .wait).send s.listeners (.discover a))
      else none
  | .deliver i =>
      match s.inFlight[i]? with
      | some (a, msg) => some (({ s with inFlight := s.inFlight.eraseIdx i }).handle a msg)
      | none => none
  | .found a =>
      if (s.node a).pc = .wait ∧ (s.node a).masterFound = true then
        some (s.setPc a (.decide .worker))
      else none
  | .timeout a =>
      if (s.node a).pc = .wait ∧ s.inFlight = [] then
        some (s.setPc a (.decide (if (s.node a).masterFound then .worker else .master)))
      else none
  | .setRole a =>
      match (s.node a).pc with
      | .decide role => some (s.setNode a { s.node a with pc := .done, localRole := role })
      | _ => none

def initial : DiscoveryState :=
  { node := fun _ => { pc := .off, localRole := .unknown, masterFound := false, masterAddr := none }
    listeners := [], inFlight := [] }

def IsMaster (s : DiscoveryState) (a : Address) : Prop := (s.node a).localRole = .master

/-- The node has sent its broadcast, and may still become the master. -/
def Undecided (s : DiscoveryState) (a : Address) : Prop :=
  (s.node a).pc = .wait ∨ (s.node a).pc = .decide .master

end DiscoveryState

def discoveryMachine : Machine DiscoveryState DiscoveryAction where
  start s := s = .initial
  step := DiscoveryState.step

def OneMaster (s : DiscoveryState) : Prop := ∀ a b, s.IsMaster a → s.IsMaster b → a = b

/-- A node broadcasts only when there is a master, or when no other node is undecided. -/
def DiscoveryAction.Ok (s : DiscoveryState) : DiscoveryAction → Prop
  | .broadcast a => (∃ m, s.IsMaster m) ∨ ∀ b, b ≠ a → ¬ s.Undecided b
  | _ => True

/-- Node `a` has been told of a master, or will be before its time is up. -/
def DiscoveryState.Answered (s : DiscoveryState) (m a : Address) : Prop :=
  (s.node a).masterFound = true ∨ (m, .discover a) ∈ s.inFlight ∨ ∃ b, (a, .reply b) ∈ s.inFlight

structure DiscoveryInv (s : DiscoveryState) : Prop where
  listening : ∀ a, (s.node a).pc ≠ .off → a ∈ s.listeners
  set : ∀ a, s.IsMaster a → (s.node a).pc = .done
  alone : (∀ m, ¬ s.IsMaster m) → ∀ a b, s.Undecided a → s.Undecided b → a = b
  settled : ∀ m, s.IsMaster m → ∀ a, (s.node a).pc ≠ .decide .master
  unique : OneMaster s
  answered : ∀ m, s.IsMaster m → ∀ a, (s.node a).pc = .wait → s.Answered m a
  found : ∀ a, (s.node a).masterFound = true ∨ (∃ b, (a, .reply b) ∈ s.inFlight) →
    ∃ m, s.IsMaster m

namespace DiscoveryState

variable {s : DiscoveryState} {a b : Address}

@[simp] theorem setNode_node_self (n : DiscoveryNode) : (s.setNode a n).node a = n :=
  Function.update_self ..

theorem setNode_node_of_ne (n : DiscoveryNode) (h : b ≠ a) : (s.setNode a n).node b = s.node b :=
  Function.update_of_ne h ..

@[simp] theorem setPc_localRole (pc : DiscoveryPc) (b : Address) :
    ((s.setPc a pc).node b).localRole = (s.node b).localRole := by
  by_cases h : b = a
  · subst h
    simp [setPc]
  · rw [setPc, setNode_node_of_ne _ h]

@[simp] theorem setPc_masterFound (pc : DiscoveryPc) (b : Address) :
    ((s.setPc a pc).node b).masterFound = (s.node b).masterFound := by
  by_cases h : b = a
  · subst h
    simp [setPc]
  · rw [setPc, setNode_node_of_ne _ h]

@[simp] theorem setPc_pc_self (pc : DiscoveryPc) : ((s.setPc a pc).node a).pc = pc := by
  simp [setPc]

theorem setPc_pc_of_ne (pc : DiscoveryPc) (h : b ≠ a) :
    ((s.setPc a pc).node b).pc = (s.node b).pc := by
  rw [setPc, setNode_node_of_ne _ h]

theorem mem_send {listeners : List Address} {msg : UdpMessage} {x : Address × UdpMessage} :
    x ∈ (s.send listeners msg).inFlight ↔ x ∈ s.inFlight ∨ x.1 ∈ listeners ∧ x.2 = msg := by
  rw [send, List.mem_append, List.mem_map]
  constructor
  · rintro (h | ⟨c, hc, rfl⟩)
    · exact .inl h
    · exact .inr ⟨hc, rfl⟩
  · rintro (h | ⟨hc, rfl⟩)
    · exact .inl h
    · exact .inr ⟨x.1, hc, rfl⟩

end DiscoveryState

theorem DiscoveryInv.initial : DiscoveryInv .initial where
  listening _ h := (h rfl).elim
  set := nofun
  alone := by
    rintro - a b (h | h) <;> cases h
  settled := nofun
  unique := nofun
  answered := nofun
  found := by
    rintro a (h | ⟨b, h⟩) <;> cases h

section Steps

variable {s t : DiscoveryState}

theorem DiscoveryInv.setPc (h : DiscoveryInv s) {a : Address} {pc : DiscoveryPc}
    (listeners : List Address) (inFlight : List (Address × UdpMessage))
    (hdone : (s.node a).pc ≠ .done) (hlisteners : ∀ b ∈ s.listeners, b ∈ listeners)
    (ha : a ∈ listeners) (hflight : ∀ x ∈ s.inFlight, x ∈ inFlight)
    (hreply : ∀ b c, (b, .reply c) ∈ inFlight → (b, .reply c) ∈ s.inFlight)
    (halone : pc = .wait ∨ pc = .decide .master → (∀ m, ¬ s.IsMaster m) →
      ∀ b, b ≠ a → ¬ s.Undecided b)
    (hsettled : pc = .decide .master → ∀ m, ¬ s.IsMaster m)
    (hanswered : pc = .wait → ∀ m, s.IsMaster m → (m, .discover a) ∈ inFlight) :
    DiscoveryInv { s.setPc a pc with listeners := listeners, inFlight := inFlight } := by
  have hpc : ∀ b, ((s.setPc a pc).node b).pc = if b = a then pc else (s.node b).pc := by
    intro b
    by_cases hba : b = a
    · rw [if_pos hba, hba, DiscoveryState.setPc_pc_self]
    · rw [if_neg hba, DiscoveryState.setPc_pc_of_ne _ hba]
  have hmaster : ∀ m, DiscoveryState.IsMaster
      { s.setPc a pc with listeners := listeners, inFlight := inFlight } m ↔ s.IsMaster m := fun m =>
    iff_of_eq (congrArg (· = Role.master) (DiscoveryState.setPc_localRole pc m))
  have hundecided : ∀ b, DiscoveryState.Undecided
      { s.setPc a pc with listeners := listeners, inFlight := inFlight } b →
        b = a ∧ (pc = .wait ∨ pc = .decide .master) ∨ b ≠ a ∧ s.Undecided b := by
    intro b hb
    simp only [DiscoveryState.Undecided, hpc] at hb
    by_cases hba : b = a
    · rw [if_pos hba] at hb
      exact .inl ⟨hba, hb⟩
    · rw [if_neg hba] at hb
      exact .inr ⟨hba, hb⟩
  refine ⟨fun b hb => ?_, fun b hb => ?_, fun hnone b c hb hc => ?_, fun m hm b hb => ?_,
    fun b c hb hc => h.unique b c ((hmaster b).mp hb) ((hmaster c).mp hc), fun m hm b hb => ?_,
    fun b hb => ?_⟩
  · by_cases hba : b = a
    · exact hba ▸ ha
    · simp only [hpc, if_neg hba] at hb
      exact hlisteners b (h.listening b hb)
  · have hbdone := h.set b ((hmaster b).mp hb)
    have hba : b ≠ a := fun heq => hdone (heq ▸ hbdone)
    simp only [hpc, if_neg hba, hbdone]
  · have hnone' : ∀ m, ¬ s.IsMaster m := fun m hm => hnone m ((hmaster m).mpr hm)
    rcases hundecided b hb with ⟨rfl, hnew⟩ | ⟨hba, hold⟩
    · rcases hundecided c hc with ⟨rfl, -⟩ | ⟨hca, hold'⟩
      · rfl
      · exact (halone hnew hnone' c hca hold').elim
    · rcases hundecided c hc with ⟨rfl, hnew⟩ | ⟨-, hold'⟩
      · exact (halone hnew hnone' b hba hold).elim
      · exact h.alone hnone' b c hold hold'
  · simp only [hpc] at hb
    split_ifs at hb
    · exact hsettled hb m ((hmaster m).mp hm)
    · exact h.settled m ((hmaster m).mp hm) b hb
  · simp only [hpc] at hb
    split_ifs at hb with hba
    · exact .inr (.inl (hba ▸ hanswered hb m ((hmaster m).mp hm)))
    · rcases h.answered m ((hmaster m).mp hm) b hb with hfound | hsent | ⟨c, hc⟩
      · exact .inl ((DiscoveryState.setPc_masterFound pc b).trans hfound)
      · exact .inr (.inl (hflight _ hsent))
      · exact .inr (.inr ⟨c, hflight _ hc⟩)
  · obtain ⟨m, hm⟩ := h.found b (hb.imp (fun hfound =>
      (DiscoveryState.setPc_masterFound pc b).symm.trans hfound) fun ⟨c, hc⟩ => ⟨c, hreply b c hc⟩)
    exact ⟨m, (hmaster m).mpr hm⟩

theorem DiscoveryInv.setRole (h : DiscoveryInv s) {a : Address} {role : Role}
    (hpc : (s.node a).pc = .decide role) :
    DiscoveryInv (s.setNode a { s.node a with pc := .done, localRole := role }) := by
  set t := s.setNode a { s.node a with pc := .done, localRole := role } with ht
  have hself : t.node a = { s.node a with pc := .done, localRole := role } :=
    DiscoveryState.setNode_node_self _
  have hother : ∀ b, b ≠ a → t.node b = s.node b := fun b hb =>
    DiscoveryState.setNode_node_of_ne _ hb
  have hnot : ¬ s.IsMaster a := fun hm => by
    have := h.set a hm
    rw [hpc] at this
    cases this
  have hmaster : ∀ b, t.IsMaster b → b = a ∧ role = .master ∨ b ≠ a ∧ s.IsMaster b := by
    intro b hb
    by_cases hba : b = a
    · subst hba
      exact .inl ⟨rfl, by simpa only [DiscoveryState.IsMaster, hself] using hb⟩
    · exact .inr ⟨hba, by simpa only [DiscoveryState.IsMaster, hother b hba] using hb⟩
  have hkept : ∀ b, s.IsMaster b → t.IsMaster b := by
    intro b hb
    have hba : b ≠ a := fun heq => hnot (heq ▸ hb)
    simpa only [DiscoveryState.IsMaster, hother b hba] using hb
  have hpcs : ∀ b, (t.node b).pc = .done ∧ b = a ∨ b ≠ a ∧ (t.node b).pc = (s.node b).pc := by
    intro b
    by_cases hba : b = a
    · exact .inl ⟨by rw [hba, hself], hba⟩
    · exact .inr ⟨hba, by rw [hother b hba]⟩
  have hfound : ∀ b, (t.node b).masterFound = (s.node b).masterFound := by
    intro b
    by_cases hba : b = a
    · rw [hba, hself]
    · rw [hother b hba]
  have hfresh : role = .master → (∀ m, ¬ s.IsMaster m) ∧ ∀ b, b ≠ a → ¬ s.Undecided b := by
    rintro rfl
    have hnone : ∀ m, ¬ s.IsMaster m := fun m hm => h.settled m hm a hpc
    exact ⟨hnone, fun b hba hb => hba (h.alone hnone b a hb (.inr hpc))⟩
  have hundecided : ∀ b, t.Undecided b → s.Undecided b := by
    intro b hb
    rcases hpcs b with ⟨hdone, -⟩ | ⟨-, heq⟩
    · rcases hb with hb | hb <;> rw [hdone] at hb <;> cases hb
    · simpa only [DiscoveryState.Undecided, heq] using hb
  have hundecided_ne : ∀ b, t.Undecided b → b ≠ a := by
    rintro b hb rfl
    simp [DiscoveryState.Undecided, hself] at hb
  refine ⟨fun b hb => ?_, fun b hb => ?_, fun hnone b c hb hc => ?_, fun m hm b hb => ?_,
    fun b c hb hc => ?_, fun m hm b hb => ?_, fun b hb => ?_⟩
  · rcases hpcs b with ⟨-, rfl⟩ | ⟨-, heq⟩
    · exact h.listening b (by simp [hpc])
    · exact h.listening b (heq ▸ hb)
  · rcases hpcs b with ⟨hdone, -⟩ | ⟨hba, heq⟩
    · exact hdone
    · exact heq.trans (h.set b ((hmaster b hb).resolve_left fun hb => hba hb.1).2)
  · exact h.alone (fun m hm => hnone m (hkept m hm)) b c (hundecided b hb) (hundecided c hc)
  · have hb' := hundecided b (.inr hb)
    rcases hmaster m hm with ⟨rfl, hr⟩ | ⟨-, hm'⟩
    · exact (hfresh hr).2 b (hundecided_ne b (.inr hb)) hb'
    · rcases hpcs b with ⟨hdone, -⟩ | ⟨-, heq⟩
      · rw [hdone] at hb
        cases hb
      · exact h.settled m hm' b (heq ▸ hb)
  · rcases hmaster b hb with ⟨rfl, hr⟩ | ⟨-, hb'⟩
    · exact ((hmaster c hc).resolve_right fun hc' => (hfresh hr).1 c hc'.2).1.symm
    · rcases hmaster c hc with ⟨rfl, hr⟩ | ⟨-, hc'⟩
      · exact ((hfresh hr).1 b hb').elim
      · exact h.unique b c hb' hc'
  · rcases hmaster m hm with ⟨rfl, hr⟩ | ⟨-, hm'⟩
    · exact ((hfresh hr).2 b (hundecided_ne b (.inl hb)) (hundecided b (.inl hb))).elim
    · have hba := hundecided_ne b (.inl hb)
      rw [hother b hba] at hb
      rcases h.answered m hm' b hb with hf | hsent
      · exact .inl ((hfound b).trans hf)
      · exact .inr hsent
  · obtain ⟨m, hm⟩ := h.found b (hb.imp_left fun hf => (hfound b).symm.trans hf)
    exact ⟨m, hkept m hm⟩

/-- A change of the messages on their way that keeps what the invariant needs of them. -/
theorem DiscoveryInv.setInFlight (h : DiscoveryInv s) (inFlight : List (Address × UdpMessage))
    (hanswered : ∀ m, s.IsMaster m → ∀ a, (s.node a).pc = .wait →
      DiscoveryState.Answered { s with inFlight := inFlight } m a)
    (hreply : ∀ a b, (a, .reply b) ∈ inFlight → ∃ m, s.IsMaster m) :
    DiscoveryInv { s with inFlight := inFlight } where
  listening := h.listening
  set := h.set
  alone := h.alone
  settled := h.settled
  unique := h.unique
  answered := hanswered
  found a ha := by
    rcases ha with hf | ⟨b, hb⟩
    · exact h.found a (.inl hf)
    · exact hreply a b hb

theorem DiscoveryInv.discover (h : DiscoveryInv s) {i : Nat} {a sender : Address}
    (hi : s.inFlight[i]? = some (a, .discover sender)) :
    DiscoveryInv (({ s with inFlight := s.inFlight.eraseIdx i }).handle a (.discover sender)) := by
  have hrest : ∀ b c, (b, .reply c) ∈ s.inFlight → (b, .reply c) ∈ s.inFlight.eraseIdx i :=
    fun b c hc => (List.eq_or_mem_eraseIdx hi hc).resolve_left nofun
  have hsent : ∀ b c, (b, UdpMessage.reply c) ∈ s.inFlight.eraseIdx i → ∃ m, s.IsMaster m :=
    fun b c hc => h.found b (.inr ⟨c, List.mem_of_mem_eraseIdx hc⟩)
  have hdropped : (sender = a ∨ ¬ s.IsMaster a) →
      DiscoveryInv { s with inFlight := s.inFlight.eraseIdx i } := by
    intro hdrop
    refine h.setInFlight _ (fun m hm b hb => ?_) hsent
    rcases h.answered m hm b hb with hf | hmsg | ⟨c, hc⟩
    · exact .inl hf
    · rcases List.eq_or_mem_eraseIdx hi hmsg with heq | hmem
      · obtain ⟨rfl, hsender⟩ := Prod.mk.inj heq
        obtain rfl := UdpMessage.discover.inj hsender
        rcases hdrop with rfl | hnot
        · rw [h.set _ hm] at hb
          cases hb
        · exact (hnot hm).elim
      · exact .inr (.inl hmem)
    · exact .inr (.inr ⟨c, hrest b c hc⟩)
  rw [DiscoveryState.handle]
  split_ifs with hself hmaster
  · exact hdropped (.inl hself)
  · refine h.setInFlight _ (fun m hm b hb => ?_) (fun b c hc => ?_)
    · rcases h.answered m hm b hb with hf | hmsg | ⟨c, hc⟩
      · exact .inl hf
      · rcases List.eq_or_mem_eraseIdx hi hmsg with heq | hmem
        · obtain rfl := UdpMessage.discover.inj (Prod.mk.inj heq).2
          refine .inr (.inr ⟨a, DiscoveryState.mem_send.mpr (.inr ⟨List.mem_filter.mpr ?_, rfl⟩)⟩)
          exact ⟨h.listening b (by simp [hb]), by simp⟩
        · exact .inr (.inl (DiscoveryState.mem_send.mpr (.inl hmem)))
      · exact .inr (.inr ⟨c, DiscoveryState.mem_send.mpr (.inl (hrest b c hc))⟩)
    · rcases DiscoveryState.mem_send.mp hc with hold | -
      · exact hsent b c hold
      · exact ⟨a, hmaster⟩
  · exact hdropped (.inr hmaster)

theorem DiscoveryInv.reply (h : DiscoveryInv s) {i : Nat} {a master : Address}
    (hi : s.inFlight[i]? = some (a, .reply master)) :
    DiscoveryInv (({ s with inFlight := s.inFlight.eraseIdx i }).handle a (.reply master)) := by
  rw [DiscoveryState.handle]
  set t := DiscoveryState.setNode { s with inFlight := s.inFlight.eraseIdx i } a
    { s.node a with masterFound := true, masterAddr := some master } with ht
  have hself : t.node a = { s.node a with masterFound := true, masterAddr := some master } :=
    DiscoveryState.setNode_node_self _
  have hother : ∀ b, b ≠ a → t.node b = s.node b := fun b hb =>
    DiscoveryState.setNode_node_of_ne _ hb
  have hnode : ∀ b, (t.node b).pc = (s.node b).pc ∧ (t.node b).localRole = (s.node b).localRole := by
    intro b
    by_cases hba : b = a
    · rw [hba, hself]
      exact ⟨rfl, rfl⟩
    · rw [hother b hba]
      exact ⟨rfl, rfl⟩
  have hmaster : ∀ b, t.IsMaster b ↔ s.IsMaster b := fun b => by
    rw [DiscoveryState.IsMaster, (hnode b).2, DiscoveryState.IsMaster]
  have hundecided : ∀ b, t.Undecided b ↔ s.Undecided b := fun b => by
    rw [DiscoveryState.Undecided, (hnode b).1, DiscoveryState.Undecided]
  obtain ⟨m, hm⟩ := h.found a (.inr ⟨master, List.mem_of_getElem? hi⟩)
  refine ⟨fun b hb => ?_, fun b hb => ?_, fun hnone => ?_, fun m hm b hb => ?_,
    fun b c hb hc => h.unique b c ((hmaster b).mp hb) ((hmaster c).mp hc), fun m hm b hb => ?_,
    fun _ _ => ⟨m, (hmaster m).mpr hm⟩⟩
  · exact h.listening b ((hnode b).1 ▸ hb)
  · exact (hnode b).1.trans (h.set b ((hmaster b).mp hb))
  · exact (hnone m ((hmaster m).mpr hm)).elim
  · exact h.settled m ((hmaster m).mp hm) b ((hnode b).1.symm.trans hb)
  · by_cases hba : b = a
    · exact .inl (by rw [hba, hself])
    · rcases h.answered m ((hmaster m).mp hm) b ((hnode b).1.symm.trans hb) with hf | hmsg | ⟨c, hc⟩
      · exact .inl (by rw [hother b hba, hf])
      · exact .inr (.inl ((List.eq_or_mem_eraseIdx hi hmsg).resolve_left nofun))
      · refine .inr (.inr ⟨c, (List.eq_or_mem_eraseIdx hi hc).resolve_left fun heq => ?_⟩)
        exact hba (congrArg Prod.fst heq)

theorem DiscoveryInv.deliver (h : DiscoveryInv s) {i : Nat} {a : Address} {msg : UdpMessage}
    (hi : s.inFlight[i]? = some (a, msg)) :
    DiscoveryInv (({ s with inFlight := s.inFlight.eraseIdx i }).handle a msg) := by
  cases msg with
  | discover sender => exact h.discover hi
  | reply master => exact h.reply hi

theorem DiscoveryInv.step {a : DiscoveryAction} (h : DiscoveryInv s) (hok : a.Ok s)
    (ha : s.step a = some t) : DiscoveryInv t := by
  cases a with
  | start a =>
      simp only [DiscoveryState.step, Option.ite_none_right_eq_some, Option.some.injEq] at ha
      obtain ⟨hpc, rfl⟩ := ha
      exact h.setPc (s.listeners ++ [a]) s.inFlight (by simp [hpc])
        (fun b hb => List.mem_append_left _ hb) (by simp) (fun _ hx => hx) (fun _ _ hx => hx) (by simp)
        nofun nofun
  | broadcast a =>
      simp only [DiscoveryState.step, Option.ite_none_right_eq_some, Option.some.injEq] at ha
      obtain ⟨hpc, rfl⟩ := ha
      have hlistening : ∀ b, (s.node b).pc ≠ .off → b ∈ s.listeners := h.listening
      refine h.setPc s.listeners (s.send s.listeners (.discover a)).inFlight (by simp [hpc])
        (fun _ hb => hb) (hlistening a (by simp [hpc]))
        (fun x hx => DiscoveryState.mem_send.mpr (.inl hx)) (fun b c hx => ?_) (fun _ hnone => ?_) nofun
        (fun _ m hm => ?_)
      · exact (DiscoveryState.mem_send.mp hx).resolve_right fun hnew => by cases hnew.2
      · exact hok.resolve_left fun ⟨m, hm⟩ => hnone m hm
      · exact DiscoveryState.mem_send.mpr (.inr ⟨hlistening m (by simp [h.set m hm]), rfl⟩)
  | deliver i =>
      simp only [DiscoveryState.step] at ha
      split at ha
      · rename_i a msg hi
        obtain rfl := Option.some.inj ha
        exact h.deliver hi
      · cases ha
  | found a =>
      simp only [DiscoveryState.step, Option.ite_none_right_eq_some, Option.some.injEq] at ha
      obtain ⟨⟨hpc, -⟩, rfl⟩ := ha
      exact h.setPc s.listeners s.inFlight (by simp [hpc])
        (fun _ hb => hb) (h.listening a (by simp [hpc])) (fun _ hx => hx) (fun _ _ hx => hx) (by simp)
        nofun nofun
  | timeout a =>
      simp only [DiscoveryState.step, Option.ite_none_right_eq_some, Option.some.injEq] at ha
      obtain ⟨⟨hpc, hempty⟩, rfl⟩ := ha
      refine h.setPc s.listeners s.inFlight (by simp [hpc])
        (fun _ hb => hb) (h.listening a (by simp [hpc])) (fun _ hx => hx) (fun _ _ hx => hx) ?_ ?_
        (fun hwait => ?_)
      · intro _ hnone b hba hb
        exact hba (h.alone hnone b a hb (.inl hpc))
      · -- a master would have been heard of
        intro hdecide m hm
        rcases h.answered m hm a hpc with hfound | hsent | ⟨b, hb⟩
        · simp [hfound] at hdecide
        · simp [hempty] at hsent
        · simp [hempty] at hb
      · split_ifs at hwait
  | setRole a =>
      simp only [DiscoveryState.step] at ha
      split at ha
      · rename_i role hpc
        obtain rfl := Option.some.inj ha
        exact h.setRole hpc
      · cases ha

end Steps

/-- There is one master in every state of a run in which each broadcast is sent either when there is
a master already, or while no other node that has sent its own is undecided. -/
theorem one_master_of_ok {as : List DiscoveryAction} {t : DiscoveryState}
    (hexec : discoveryMachine.exec .initial as = some t)
    (hok : discoveryMachine.EachStep DiscoveryAction.Ok .initial as) :
    discoveryMachine.Always OneMaster .initial as :=
  Machine.always_of_eachStep (fun _ (h : DiscoveryInv _) => h.unique)
    (fun _ _ _ h hstep ha => h.step hstep ha) .initial hexec hok

private def firstNode : Address := ([10, 0, 0, 1], 5000)

private def secondNode : Address := ([10, 0, 0, 2], 5000)

/-- The second node starts when the first one is the master. -/
private def startsInTurn : List DiscoveryAction :=
  [.start firstNode, .broadcast firstNode, .deliver 0, .timeout firstNode, .setRole firstNode,
    .start secondNode, .broadcast secondNode, .deliver 1, .deliver 0, .deliver 0, .found secondNode,
    .setRole secondNode]

theorem one_master_of_ok_in_turn : ∃ t,
    discoveryMachine.exec .initial startsInTurn = some t ∧ OneMaster t := by
  have halone : ∀ b, b ≠ firstNode →
      ¬ DiscoveryState.Undecided { DiscoveryState.initial.setPc firstNode .broadcast with
        listeners := [firstNode] } b := by
    intro b hb
    have hoff : ((DiscoveryState.initial.setPc firstNode .broadcast).node b).pc = .off :=
      DiscoveryState.setPc_pc_of_ne _ hb
    rintro (hwait | hdecide)
    · cases hoff.symm.trans hwait
    · cases hoff.symm.trans hdecide
  have hok : discoveryMachine.EachStep DiscoveryAction.Ok .initial startsInTurn := by
    refine (Machine.eachStep_cons rfl).mpr ⟨trivial, ?_⟩
    refine (Machine.eachStep_cons rfl).mpr ⟨.inr halone, ?_⟩
    refine (Machine.eachStep_cons rfl).mpr ⟨trivial, (Machine.eachStep_cons rfl).mpr ⟨trivial, ?_⟩⟩
    refine (Machine.eachStep_cons rfl).mpr ⟨trivial, (Machine.eachStep_cons rfl).mpr ⟨trivial, ?_⟩⟩
    refine (Machine.eachStep_cons rfl).mpr ⟨.inl ⟨firstNode, rfl⟩, ?_⟩
    refine (Machine.eachStep_cons rfl).mpr ⟨trivial, (Machine.eachStep_cons rfl).mpr ⟨trivial, ?_⟩⟩
    refine (Machine.eachStep_cons rfl).mpr ⟨trivial, (Machine.eachStep_cons rfl).mpr ⟨trivial, ?_⟩⟩
    exact (Machine.eachStep_cons rfl).mpr ⟨trivial, Machine.eachStep_nil⟩
  exact ⟨_, rfl, (one_master_of_ok rfl hok).last rfl⟩

/-- Both nodes broadcast before either of them has a role. -/
theorem not_one_master_of_two_starts : ∃ t,
    discoveryMachine.exec .initial [.start firstNode, .start secondNode, .broadcast firstNode,
      .broadcast secondNode, .deliver 0, .deliver 0, .deliver 0, .deliver 0, .timeout firstNode,
      .timeout secondNode, .setRole firstNode, .setRole secondNode] = some t ∧
    ¬ OneMaster t := by
  refine ⟨_, rfl, fun hone => ?_⟩
  have heq : firstNode = secondNode := hone _ _ rfl rfl
  exact absurd heq (by decide)

end Dsm
