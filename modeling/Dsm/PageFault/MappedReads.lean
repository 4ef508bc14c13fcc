import Dsm.PageFault.FetchProgress

/-!
# Reading a mapped range

The whole way of a remote read. A worker maps a range that the master has allocated, and from then on
nobody stores in it or makes a call that meets it. Then each fault in the range is served, and when it
is, the worker can read the byte and reads the master's. That every page of the range can be fetched
follows from what the node holds of it (`RemoteRange.Held`): its two lookups agree on the range, since no
other record has an address in the mapping.
-/

namespace Dsm

section Run

variable {cl : Cluster} {r : (remoteMachine cl).idling.Run} {n : NodeId}

theorem RemoteNode.step_handled {i : NodeId} {n n' : RemoteNode} {incoming : Option PageMessage}
    {a : RemoteNodeAction} {out : Option (NodeId × PageMessage)}
    (h : n.step cl i incoming a = some (n', out)) : n.handled <+: n'.handled := by
  cases step_effect h with
  | checkRet | leave | giveUp => exact List.prefix_append _ _
  | openPage =>
      rw [RemoteNode.openPage]
      split
      · exact List.prefix_refl _
      · split_ifs
        · exact List.prefix_refl _
        · exact List.prefix_refl _
        · exact List.prefix_refl _
  | _ => exact List.prefix_refl _

theorem stable_handled (r : (remoteMachine cl).idling.Run) (i : NodeId) (handled : List (Nat × Int)) :
    r.Stable fun s => handled <+: (s.node i).handled := by
  intro k hk
  rcases node_step r i k with ⟨a, out, -, hstep, -⟩ | ⟨-, hsame⟩
  · exact hk.trans (RemoteNode.step_handled hstep)
  · rwa [hsame]

theorem RemoteRange.Held.obtainable {R : RemoteRange} {content : Nat → UInt8} {logged : Nat}
    {s : RemoteState} (h : R.Held content logged n s) (hpos : 0 < R.ownerBase) {j : Nat}
    (hj : j < R.len) : s.Obtainable n (R.nodeBase + j) := by
  have hpages := h.node.pages
  obtain ⟨page, hpage, hglobal, -⟩ := hpages.pages.lookup R.dvd_base R.dvd_len hj
  obtain ⟨held, hheld, -, hlocal⟩ := h.owner.pages.pages.lookup R.dvd_base R.dvd_len hj
  have hfound : pageLookupLocal (s.node n).mem.ctx.pageTable (R.nodeBase + j) = some page := by
    rw [hpages.lookupLocal hj (pageBase_add R.dvd_nodeBase j), hpage]
  have hsame : ∀ table : PageTable, pageLookup table page.globalAddr = pageLookup table (R.base + j) := by
    intro table
    rw [pageLookup, pageLookup, hglobal, ← pageBase_add R.dvd_base, pageBase_pageBase]
  refine ⟨page, hfound, .inr ⟨hfound, (hsame _).trans hpage, (h.node.record j hj page hpage).1, held,
    (hsame _).trans hheld, ?_⟩⟩
  rw [hlocal]
  exact (Nat.add_pos_left hpos _).ne'

theorem HasAllocated.ownerBase_pos {o : NodeId} {g size ownerBase : Nat} {u : RemoteState}
    (h : HasAllocated cl o n g size ownerBase u) (hsize : size ≠ 0) : 0 < ownerBase := by
  obtain ⟨-, -, -, -, halloc, -, -⟩ := h
  obtain ⟨-, hmapped, -⟩ := RemoteState.step_call halloc
  rw [MappingAction.creates, if_neg hsize] at hmapped
  exact (hmapped _ rfl).2.2.1

/-- What the node holds of the range it holds as long as the content is kept. -/
theorem held_of_run {R : RemoteRange} {content : Nat → UInt8} {logged k : ℕ} (hne : n ≠ masterId)
    (h : R.Held content logged n (r.state k))
    (hkeeps : ∀ m, k ≤ m → ∀ b, r.act m = some b →
      KeepsContent R.base R.len R.ownerBase R.nodeBase masterId n (r.state m) b) {m : ℕ} (hm : k ≤ m) :
    R.Held content logged n (r.state m) := by
  induction m, hm using Nat.le_induction with
  | base => exact h
  | succ m hm ih =>
      have hstep := r.step m
      cases hact : r.act m with
      | none =>
          rw [hact] at hstep
          rwa [← Option.some.inj hstep]
      | some b =>
          rw [hact] at hstep
          exact ih.step (remoteInv_of_run r m) hne hstep (hkeeps m hm b hact)

/-- A worker maps a range that the master has allocated. From then on, while nothing is stored in the
range and no call meets it, every fault in the range is served, and the worker then reads the byte that
the master has. -/
theorem mapped_range_read (hfair : RemoteFair cl r) (hne : n ≠ masterId) {g size ownerBase nodeBase : Nat}
    (hdvd : pageSize ∣ g) (hsize : 0 < size) (hend : g + size ≤ 2 ^ 64) {k : ℕ}
    (halloc : HasAllocated cl masterId n g size ownerBase (r.state k))
    (hmap : r.act k = some (n, .call (.mapRemote g size (some nodeBase))))
    (hfresh : ((r.state k).node n).mem.Fresh nodeBase (roundUpPage size))
    (hkeeps : ∀ m, k < m → ∀ b, r.act m = some b →
      KeepsContent g (roundUpPage size) ownerBase nodeBase masterId n (r.state m) b)
    {j : Nat} (hj : j < roundUpPage size) {m : ℕ} (hm : k < m)
    (hfault : ((r.state m).node n).fault = .check (nodeBase + j)) :
    ∃ m', m ≤ m' ∧
      ((r.state m').node n).handled = ((r.state m).node n).handled ++ [(nodeBase + j, 0)] ∧
      ((r.state m').node n).mem.prot (nodeBase + j) ≠ .none ∧
      ((r.state m').node n).mem.bytes (nodeBase + j) =
        ((r.state m').node masterId).mem.bytes (ownerBase + j) := by
  have hstep := r.step k
  rw [hmap] at hstep
  have hmapStep : (remoteMachine cl).step (r.state k)
      (n, .call (.mapRemote g size (some nodeBase))) = some (r.state (k + 1)) := hstep
  obtain ⟨hn, hmapped, -, -⟩ := RemoteState.step_call hmapStep
  obtain ⟨-, hnodeDvd, hnodePos, -⟩ := hmapped _ (creates_mapRemote hsize.ne')
  have hpos : 0 < roundUpPage size := Nat.zero_lt_of_lt hj
  let R : RemoteRange := ⟨g, roundUpPage size, ownerBase, nodeBase, hdvd, dvd_roundUpPage size,
    halloc.ownerBase_dvd hsize.ne', hnodeDvd, hpos, hnodePos, roundUpPage_end hdvd hend⟩
  have hheld := @HasAllocated.held cl n R size _ _ halloc hne hsize.ne' rfl hmapStep hfresh
  obtain ⟨m', hmm', hhandled, -⟩ := leadsTo_served_of_check hfair hn (nodeBase + j) _ m
    ⟨hfault, rfl, (held_of_run hne hheld hkeeps hm).obtainable (halloc.ownerBase_pos hsize.ne') hj⟩
  have hheld' := held_of_run hne hheld hkeeps (Nat.le_trans hm hmm')
  have hlogged : ((r.state k).node n).handled.length ≤ ((r.state m).node n).handled.length :=
    ((stable_handled r n _).lasts (List.prefix_refl _) hm.le).length_le
  have hmem : (nodeBase + j, (0 : Int)) ∈
      ((r.state m').node n).handled.drop ((r.state k).node n).handled.length := by
    rw [hhandled, List.drop_append_of_le_length hlogged]
    exact List.mem_append_right _ (List.mem_singleton.mpr rfl)
  obtain ⟨hprot, hbytes⟩ := hheld'.node.handled j hj hmem
  exact ⟨m', hmm', hhandled, hprot, hbytes.trans (hheld'.owner.bytes j hj).symm⟩

end Run

/-- The worker reads the byte that the master has stored. -/
theorem mapped_range_read_fetch : ∃ r : (remoteMachine oneWorker).idling.Run,
    RemoteFair oneWorker r ∧ ∃ m, 4 ≤ m ∧
      ((r.state m).node 2).handled = ((r.state 4).node 2).handled ++ [(0x40000 + 5, 0)] ∧
      ((r.state m).node 2).mem.prot (0x40000 + 5) ≠ .none ∧
      ((r.state m).node 2).mem.bytes (0x40000 + 5) =
        ((r.state m).node masterId).mem.bytes (0x30000 + 5) := by
  obtain ⟨r, hfair, hacts, hstates⟩ := exists_mapAndFetch
  have hpairs : ((remoteMachine oneWorker).exec remoteBoot (mapAndFetch.take 2)).map
      (fun s => (s.node 2).mem.pairs) = some [(0x1002000, 0x10000)] := by decide +kernel
  have hfault : ((remoteMachine oneWorker).exec remoteBoot (mapAndFetch.take 4)).map
      (fun s => (s.node 2).fault) = some (.check 0x40005) := by decide +kernel
  rw [hstates, Option.map_some, Option.some.injEq] at hpairs hfault
  have hbefore := hstates 2
  obtain ⟨s₁, halloc, hrest⟩ := Option.bind_eq_some_iff.mp hbefore
  obtain ⟨s₂, hstore, hlast⟩ := Option.bind_eq_some_iff.mp hrest
  cases hlast
  refine ⟨r, hfair, mapped_range_read hfair (by decide) (by decide) (by decide) (by decide) (k := 2)
    (hasAllocated_remoteBoot 7 (by decide) (by decide) halloc hstore) ((hacts 2).trans rfl) ?_
    (fun m hm b hb => ?_) (by decide) (by decide) hfault⟩
  · rw [NodeMem.Fresh, hpairs]
    decide
  · have hquiet : ∀ b ∈ fetchSteps, (∀ call, b.2 ≠ .call call) ∧
        ∀ addr byte, b.2 ≠ .store addr byte := by
      simp [fetchSteps]
    have hlater : (mapAndFetch.drop 3)[m - 3]? = some b := by
      rw [List.getElem?_drop, Nat.add_sub_cancel' hm, ← hacts]
      exact hb
    obtain ⟨hcall, hbyte⟩ := hquiet b (List.mem_of_getElem? hlater)
    exact ⟨fun _ call h => (hcall call h).elim, fun addr byte h => (hbyte addr byte h).elim⟩

end Dsm
