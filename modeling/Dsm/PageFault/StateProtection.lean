import Dsm.PageFault.PageOps

/-!
# Page states and page protections

`dsm_types.h` says what a state is for: a shared page is a read-only local copy, a modified one has
write access, and an invalid or a pending one has no local copy. Each of the operations sets the state
and the protection in separate steps. What every step keeps is that a page fits once the holder of its
lock is through, and four steps need a condition for it: the two that `dsm_malloc_at` takes without a
lock, `dsm_page_mark_modified`, which sets no protection, and the failure paths of
`dsm_page_fault_handle`, which do not look at the state again.
-/

namespace Dsm

/-- The protection that a state stands for. -/
def PageState.prot : PageState → Prot
  | .invalid => .none
  | .shared => .read
  | .modified => .readWrite
  | .pending => .none

def GuardedPage.Matches (p : GuardedPage) : Prop := p.prot = p.page.state.prot

instance (p : GuardedPage) : Decidable p.Matches := inferInstanceAs (Decidable (_ = _))

def PageStmt.setsProt : PageStmt → Bool
  | .protect _ _ => true
  | _ => false

def PageStmt.setsState : PageStmt → Bool
  | .setState _ => true
  | _ => false

/-- The next step of the thread is an `mprotect`. -/
def OpPc.protects : OpPc → Bool
  | .openRegion _ => true
  | .locked _ (stmt :: _) _ => stmt.setsProt
  | _ => false

/-- An `mprotect` of this step succeeds. -/
def PageOpAction.ProtectSucceeds (s : PageOps) : PageOpAction → Prop
  | .step t ok => (s.pc t).protects = true → ok = true
  | _ => True

instance (s : PageOps) : (a : PageOpAction) → Decidable (a.ProtectSucceeds s)
  | .step _ _ => inferInstanceAs (Decidable (_ → _))
  | .create .. | .install .. | .invalidate .. | .markModified .. | .fault .. | .timeout
  | .clearRunning => inferInstanceAs (Decidable True)

/-- The state in which an operation that takes its lock has to find the record. -/
def LockedOp.Finds (state : PageState) : LockedOp → Prop
  | .markModified => state = .modified
  | .giveUp => state = .pending ∨ state = .invalid
  | .install _ | .invalidate | .check _ => True

instance (state : PageState) : (op : LockedOp) → Decidable (op.Finds state)
  | .markModified => inferInstanceAs (Decidable (_ = _))
  | .giveUp => inferInstanceAs (Decidable (_ ∨ _))
  | .install _ | .invalidate | .check _ => inferInstanceAs (Decidable True)

/-- The condition on the next step of a thread. The `mprotect` of `dsm_malloc_at` finds the pages open
or about to be protected anew, its marks find records that are shared or about to get a new state, and
the operations that take a lock find the states that they have to. -/
def OpPc.KeepsMatch (s : PageOps) : OpPc → Prop
  | .openRegion r => ∀ p ∈ s.pages, p.In r → p.prot = .readWrite ∨ (s.rest p).any PageStmt.setsProt
  | .mark r k => k < r.pageCount →
      ∀ i ∈ s.lookup ((r.globalBase + k * pageSize) % 2 ^ 64), ∀ p ∈ s.pages[i]?,
        p.page.state = .shared ∨ (s.rest p).any PageStmt.setsState
  | .lock i op => ∀ p ∈ s.pages[i]?, op.Finds p.page.state
  | .idle | .register .. | .locked .. | .request .. | .test .. | .sleep .. | .ret .. => True

instance (s : PageOps) : (pc : OpPc) → Decidable (pc.KeepsMatch s)
  | .openRegion r => inferInstanceAs (Decidable (∀ p ∈ s.pages, p.In r → _ ∨ _))
  | .mark r k => inferInstanceAs (Decidable (k < r.pageCount → _))
  | .lock i op => inferInstanceAs (Decidable (∀ p ∈ s.pages[i]?, op.Finds p.page.state))
  | .idle | .register .. | .locked .. | .request .. | .test .. | .sleep .. | .ret .. =>
      inferInstanceAs (Decidable True)

def PageOpAction.KeepsMatch (s : PageOps) : PageOpAction → Prop
  | .step t _ => (s.pc t).KeepsMatch s
  | _ => True

instance (s : PageOps) : (a : PageOpAction) → Decidable (a.KeepsMatch s)
  | .step t _ => inferInstanceAs (Decidable ((s.pc t).KeepsMatch s))
  | .create .. | .install .. | .invalidate .. | .markModified .. | .fault .. | .timeout
  | .clearRunning => inferInstanceAs (Decidable True)

/-! ### What a critical section leaves -/

namespace GuardedPage

/-- The protection that statements leave does not depend on the state, nor on the protection before
them if one of them sets it. -/
theorem foldl_prot_congr {todo : List PageStmt} {p q : GuardedPage}
    (h : p.prot = q.prot ∨ todo.any PageStmt.setsProt) :
    (todo.foldl exec p).prot = (todo.foldl exec q).prot := by
  induction todo generalizing p q with
  | nil => simpa using h
  | cons stmt todo ih =>
      apply ih
      cases stmt with
      | protect prot checked => exact .inl rfl
      | _ => simpa [PageStmt.setsProt, exec] using h

theorem foldl_state_congr {todo : List PageStmt} {p q : GuardedPage}
    (h : p.page.state = q.page.state ∨ todo.any PageStmt.setsState) :
    (todo.foldl exec p).page.state = (todo.foldl exec q).page.state := by
  induction todo generalizing p q with
  | nil => simpa using h
  | cons stmt todo ih =>
      apply ih
      cases stmt with
      | setState state => exact .inl rfl
      | _ => simpa [PageStmt.setsState, exec] using h

theorem foldl_matches_congr {todo : List PageStmt} {p q : GuardedPage}
    (hprot : p.prot = q.prot ∨ todo.any PageStmt.setsProt)
    (hstate : p.page.state = q.page.state ∨ todo.any PageStmt.setsState) :
    (todo.foldl exec p).Matches ↔ (todo.foldl exec q).Matches := by
  rw [Matches, Matches, foldl_prot_congr hprot, foldl_state_congr hstate]

theorem new_matches (node : NodeId) (r : Region) (k : Nat) : (new node r k).Matches := by
  unfold Matches new Page.new
  dsimp only
  split <;> rfl

end GuardedPage

/-- An operation that finds the state that it has to leaves a page that fits. -/
theorem LockedOp.plan_matches (node : NodeId) {op : LockedOp} {p : GuardedPage}
    (hfinds : op.Finds p.page.state) (hp : p.Matches) :
    ((op.plan node p.page).1.foldl GuardedPage.exec p).Matches := by
  cases op with
  | install version => rfl
  | invalidate => rfl
  | markModified =>
      have hmodified : p.page.state = .modified := hfinds
      rw [GuardedPage.Matches, hmodified] at hp
      exact hp
  | giveUp =>
      have hnone : p.page.state.prot = .none := by
        rcases hfinds with hstate | hstate <;> rw [hstate] <;> rfl
      rw [GuardedPage.Matches, hnone] at hp
      exact hp
  | check access =>
      unfold plan
      dsimp only
      split
      · split
        · rfl
        · exact hp
      · split
        · rfl
        · have hnone : p.page.state.prot = .none := by
            cases hstate : p.page.state <;> simp [hstate, PageState.prot] at *
          rw [GuardedPage.Matches, hnone] at hp
          exact hp

namespace PageOps

/-- The lock discipline, and the pages fit once the holders of their locks are through. -/
structure MatchInv (s : PageOps) : Prop where
  locked : s.Locked
  settled : CriticalSection.Settled GuardedPage.exec GuardedPage.holder GuardedPage.Matches s.pages
    s.inside

theorem MatchInv.start {s : PageOps} (h : pageOpsMachine.start s) : s.MatchInv := by
  obtain ⟨hpages, hquiet⟩ := h
  have hinside : ∀ t, s.inside t = none := fun t => inside_of_pc (hquiet t)
  constructor
  · constructor
    · intro i p t hp
      simp [hpages] at hp
    · intro t i todo ht
      rw [hinside t] at ht
      cases ht
  · intro i p hp
    simp [hpages] at hp

theorem MatchInv.setPc {s : PageOps} {t : OpThread} {pc : OpPc} (h : s.MatchInv)
    (ht : s.inside t = none) (hpc : pc.inside = none) : (s.setPc t pc).MatchInv := by
  refine ⟨(locked_setPc_of_none ht hpc).mpr h.locked, ?_⟩
  rw [inside_setPc_of_none ht hpc]
  exact h.settled

/-- The `mprotect` of `dsm_malloc_at` over pages that are open or about to be protected anew. -/
theorem MatchInv.openRegion {s : PageOps} {r : Region} (h : s.MatchInv)
    (hopen : OpPc.KeepsMatch s (.openRegion r)) : (s.openRegion r).MatchInv := by
  refine ⟨h.locked.openRegion r, h.settled.map (GuardedPage.openedWith_holder r) ?_⟩
  intro p hp hmatch
  have hprot : p.prot = (p.openedWith r).prot ∨ (s.rest p).any PageStmt.setsProt := by
    by_cases hin : p.In r
    · rw [GuardedPage.openedWith, if_pos hin]
      exact hopen p hp hin
    · exact .inl (by rw [GuardedPage.openedWith, if_neg hin])
  have hstate : p.page.state = (p.openedWith r).page.state := by rw [GuardedPage.openedWith_page]
  exact (GuardedPage.foldl_matches_congr hprot (.inl hstate)).mp hmatch

/-- A mark of `dsm_malloc_at` on a record that is shared or about to get a new state. -/
theorem MatchInv.mark {s : PageOps} {r : Region} {k : Nat} (h : s.MatchInv)
    (hmark : OpPc.KeepsMatch s (.mark r k)) (hk : k < r.pageCount) : (s.mark r k).MatchInv := by
  refine ⟨h.locked.mark r k, ?_⟩
  cases hlookup : s.lookup ((r.globalBase + k * pageSize) % 2 ^ 64) with
  | none =>
      have hsame : s.mark r k = s := by rw [PageOps.mark, hlookup]
      rw [hsame]
      exact h.settled
  | some i =>
      have hsame : s.mark r k = s.modify i (·.exec (.setState .shared)) := by
        rw [PageOps.mark, hlookup]
      rw [hsame]
      apply h.settled.modify (fun p => p.exec_holder _)
      intro p hp hmatch
      have hprot : p.prot = (p.exec (.setState .shared)).prot := rfl
      have hstate : p.page.state = .shared ∨ (s.rest p).any PageStmt.setsState :=
        hmark hk i hlookup p hp
      exact (GuardedPage.foldl_matches_congr (.inl hprot) hstate).mp hmatch

theorem MatchInv.effect {s s' : PageOps} {t : OpThread} {ok : Bool} (h : s.MatchInv)
    (hprotect : PageOpAction.ProtectSucceeds s (.step t ok))
    (hkeep : PageOpAction.KeepsMatch s (.step t ok)) (heffect : s.Effect t ok s') : s'.MatchInv := by
  have hlocked := h.locked.effect heffect
  have hsettled := h.settled
  cases heffect with
  | move hmove => exact h.setPc hmove.inside.1 hmove.inside.2
  | @register fixed r k hpc hk =>
      have hpc' : (s.append (.new s.node r k)).pc t = .register fixed r k := hpc
      refine ⟨hlocked, ?_⟩
      rw [inside_setPc_of_none (inside_of_pc hpc') rfl]
      exact hsettled.concat (GuardedPage.new_holder ..) (GuardedPage.new_matches ..)
  | @openRegion r hpc hok =>
      have hpc' : (s.openRegion r).pc t = .openRegion r := hpc
      have hopen : OpPc.KeepsMatch s (.openRegion r) := hpc ▸ hkeep
      exact (h.openRegion hopen).setPc (inside_of_pc hpc') rfl
  | @mark r k hpc hk =>
      have hpc' : (s.mark r k).pc t = .mark r k := by rw [mark_pc, hpc]
      have hmark : OpPc.KeepsMatch s (.mark r k) := hpc ▸ hkeep
      exact (h.mark hmark hk).setPc (inside_of_pc hpc') rfl
  | @lock i op p hpc hp hfree =>
      refine ⟨hlocked, ?_⟩
      rw [inside_setPc]
      have hfinds : OpPc.KeepsMatch s (.lock i op) := hpc ▸ hkeep
      have hmatch : p.Matches := hsettled.of_free hp hfree
      have hheld : ({ p with holder := some t } : GuardedPage).Matches := hmatch
      apply hsettled.lock h.locked hp (inside_of_pc hpc) rfl
      exact LockedOp.plan_matches s.node (hfinds p hp) hheld
  | @unlock i after hpc =>
      refine ⟨hlocked, ?_⟩
      rw [inside_setPc, after.pc_inside]
      exact hsettled.unlock h.locked (inside_of_pc hpc) (fun _ => rfl) fun _ hp => hp
  | @run i stmt todo after hpc hok =>
      refine ⟨hlocked, ?_⟩
      rw [inside_setPc]
      exact hsettled.stmt_run h.locked (inside_of_pc hpc) fun p => p.exec_holder stmt
  | fail hpc hok | skip hpc hok =>
      have htrue := hprotect (by rw [hpc]; rfl)
      rw [hok] at htrue
      cases htrue

theorem MatchInv.step {s s' : PageOps} {a : PageOpAction} (h : s.MatchInv)
    (hprotect : a.ProtectSucceeds s) (hkeep : a.KeepsMatch s) (ha : s.step a = some s') :
    s'.MatchInv := by
  rcases step_effect ha with ⟨t, ok, rfl, heffect⟩ | hcall
  · exact h.effect hprotect hkeep heffect
  · obtain ⟨-, hpages, hinside⟩ := hcall.frame
    refine ⟨h.locked.step ha, ?_⟩
    rw [hpages, hinside]
    exact h.settled

theorem MatchInv.matches {s : PageOps} (h : s.MatchInv) (hquiet : s.Quiet) :
    ∀ p ∈ s.pages, p.Matches := by
  intro p hp
  obtain ⟨i, hi⟩ := List.getElem?_of_mem hp
  have hfree : p.holder = none := by
    cases hholder : p.holder with
    | none => rfl
    | some t => exact absurd hholder (h.locked.holder_ne_of_outside (inside_of_pc (hquiet t)) hi)
  exact h.settled.of_free hi hfree

end PageOps

/-- As long as the steps meet their condition, the protections fit the states whenever no operation is
in progress. -/
theorem state_matches_protection {s s' : PageOps} {acts : List PageOpAction}
    (hstart : pageOpsMachine.start s) (hexec : pageOpsMachine.exec s acts = some s')
    (hprotect : pageOpsMachine.EachStep (fun u a => a.ProtectSucceeds u) s acts)
    (hkeep : pageOpsMachine.EachStep (fun u a => a.KeepsMatch u) s acts) :
    pageOpsMachine.Always (fun u => u.Quiet → ∀ p ∈ u.pages, p.Matches) s acts := by
  have hok : pageOpsMachine.EachStep (fun u a => a.ProtectSucceeds u ∧ a.KeepsMatch u) s acts :=
    fun pre a u hpre hu => ⟨hprotect pre a u hpre hu, hkeep pre a u hpre hu⟩
  have hmatches : ∀ u : PageOps, u.MatchInv → u.Quiet → ∀ p ∈ u.pages, p.Matches :=
    fun u hu => hu.matches
  exact Machine.always_of_eachStep hmatches (fun u a v hu hstep ha => hu.step hstep.1 hstep.2 ha)
    (PageOps.MatchInv.start hstart) hexec hok

/-- A node without regions. -/
private def noPages (node : NodeId) : PageOps :=
  { node := node, pages := [], pc := fun _ => .idle, running := true }

/-- `dsm_map_remote` of one page on node 2, a read fault, and the install that answers it. -/
private def readFault : List PageOpAction :=
  [.create 0 false pageSize masterId 0x2000000 0x20000, .step (.other 0) true, .step (.other 0) true,
    .fault 0x20010 .read, .step .fault true, .step .fault true, .step .fault true, .step .fault true,
    .step .fault true, .install 1 0x2000000 1] ++ List.replicate 6 (.step (.other 1) true) ++
  [.step .fault true, .step .fault true, .step .fault true]

theorem state_matches_protection_readFault : pageOpsMachine.Always
    (fun u => u.Quiet → ∀ p ∈ u.pages, p.Matches) (noPages 2) readFault := by
  have hexec : ((pageOpsMachine.exec (noPages 2) readFault).isSome) = true := by decide +kernel
  obtain ⟨s', hs'⟩ := Option.isSome_iff_exists.mp hexec
  exact state_matches_protection ⟨rfl, fun _ => rfl⟩ hs'
    (Machine.eachStep_of_checks (by decide +kernel)) (Machine.eachStep_of_checks (by decide +kernel))

/-- `dsm_malloc_at` of one page on the master. -/
private def mallocAtRun : List PageOpAction :=
  .create 0 true pageSize masterId 0x2000000 0x20000 :: List.replicate 5 (.step (.other 0) true)

/-- The page of `dsm_malloc_at` is open for writing and says that it is shared. -/
theorem state_not_matching : ¬ ∀ s acts, pageOpsMachine.start s →
    pageOpsMachine.EachStep (fun u a => a.ProtectSucceeds u) s acts →
    pageOpsMachine.Always (fun u => u.Quiet → ∀ p ∈ u.pages, p.Matches) s acts := by
  intro h
  have halways := h (noPages masterId) mallocAtRun ⟨rfl, fun _ => rfl⟩
    (Machine.eachStep_of_checks (by decide +kernel))
  refine absurd (halways.last rfl fun t => ?_) (by decide +kernel)
  by_cases ht : t = .other 0
  · subst ht
    rfl
  · simp only [PageOps.setPc_pc_of_ne _ _ ht, PageOps.append_pc, PageOps.openRegion_pc, PageOps.mark_pc]
    rfl

end Dsm
