import Dsm.Tcp.ClosedCluster

/-!
# A page on its way through the cluster

`dsm_page_send` copies a page of the master into a message, and `dsm_page_install` copies the message
into a page of a worker. Whatever happens between the two, what arrives in the worker's memory are the
bytes that the master's page had when the message was built.
-/

namespace Dsm

variable {ι : Type*} [DecidableEq ι]

/-! ### When a message was built -/

/-- Every message was built by its sender, in a state that the run went through. -/
theorem built_earlier {master : ι} {first s : ClusterState ι} {as : List (ClusterAction ι)}
    (hfirst : (closedCluster master).start first)
    (hexec : (closedCluster master).exec first as = some s) :
    ∀ x ∈ s.sent, ∃ bs cs s₀, as = bs ++ cs ∧ (closedCluster master).exec first bs = some s₀ ∧
      ∃ c₀ ∈ s₀.node x.1, ∃ t : MsgType, x.2.Genuine c₀.mem t := by
  induction as using List.reverseRecOn generalizing s with
  | nil =>
      cases hfirst
      cases hexec
      exact nofun
  | append_singleton as a ih =>
      rw [Machine.exec_append, Option.bind_eq_some_iff] at hexec
      obtain ⟨u, hu, hsnoc⟩ := hexec
      obtain ⟨v, hlast, hv⟩ := Option.bind_eq_some_iff.mp hsnoc
      cases hv
      have hreach : (closedCluster master).Reachable u := (Machine.Reachable.start hfirst).exec hu
      intro x hx
      obtain ⟨i, c, messages, rfl, hmoves⟩ := (clusterInv_of_reachable hreach).moves hlast
      rcases List.mem_append.mp hx with hold | hnew
      · obtain ⟨bs, cs, s₀, rfl, hbs, hbuilt⟩ := ih hu x hold
        exact ⟨bs, cs ++ [a], s₀, List.append_assoc .., hbs, hbuilt⟩
      · obtain ⟨m, hm, rfl⟩ := List.mem_map.mp hnew
        rcases hmoves.messages with rfl | ⟨c₀, hc₀, hgenuine⟩
        · cases hm
        · obtain ⟨t, ht, -⟩ := hgenuine m hm
          exact ⟨as, [a], u, rfl, hu, c₀, hc₀, t, ht⟩

/-! ### What the installation reads -/

/-- The fields of the payload that `dsm_page_send` builds, as the receiver of the message reads them. -/
theorem Received.fields_of_pageData {mem : NodeMem} {r : Received}
    (h : MsgType.Builds mem .pageData r.payload) :
    ∃ source, pageLookup mem.ctx.pageTable (r.field 0 8) = some source ∧ 20 ≤ r.len ∧
      r.field 8 4 = pageSize ∧ r.field 12 8 = source.version % 2 ^ 64 ∧
      ∀ k < pageSize, r.byte (20 + k) = mem.bytes (source.localAddr + k) := by
  have hlong := h.of_pageData.1
  have hlen : r.payload.length = r.len := r.length
  generalize hpayload : r.payload = payload at h
  cases h with
  | lock ht => simp at ht
  | empty ht => simp at ht
  | @pageData g payload haddr hdata =>
      rw [NodeMem.pageData] at hdata
      split at hdata
      · cases hdata
      · rename_i source hlookup
        rw [Option.ite_none_left_eq_some] at hdata
        have hbytes := Option.some.inj hdata.2
        have hfirst : r.field 0 8 = g := by
          have hfield := Bytes.field_append_le [] (Bytes.le pageSize 4 ++ (Bytes.le source.version 8 ++
            (List.range pageSize).map fun i => mem.bytes (source.localAddr + i))) g 8
          rw [r.field_eq (by omega), hpayload, ← hbytes, List.append_assoc, List.append_assoc]
          exact hfield.trans (Nat.mod_eq_of_lt haddr)
        have hsecond : r.field 8 4 = pageSize := by
          have hfield := Bytes.field_append_le (Bytes.le g 8) (Bytes.le source.version 8 ++
            (List.range pageSize).map fun i => mem.bytes (source.localAddr + i)) pageSize 4
          rw [Bytes.length_le] at hfield
          rw [r.field_eq (by omega), hpayload, ← hbytes, List.append_assoc, List.append_assoc]
          exact hfield
        have hthird : r.field 12 8 = source.version % 2 ^ 64 := by
          have hfield := Bytes.field_append_le (Bytes.le g 8 ++ Bytes.le pageSize 4)
            ((List.range pageSize).map fun i => mem.bytes (source.localAddr + i)) source.version 8
          rw [List.length_append, Bytes.length_le, Bytes.length_le] at hfield
          rw [r.field_eq (by omega), hpayload, ← hbytes, List.append_assoc]
          exact hfield
        refine ⟨source, hfirst ▸ hlookup, by omega, hsecond, hthird, fun k hk => ?_⟩
        rw [Received.byte, hpayload, ← hbytes, List.getElem?_append_right (by simp)]
        simp [hk]

/-- The record and the protection of a page after an installation that gets to its end. -/
theorem NodeMem.pageInstall_done (m : NodeMem) {globalAddr : Nat} {page : Page}
    (hpage : m.installTarget globalAddr true = some page) (data : Nat → UInt8) (size version : Nat) :
    pageLookup (m.pageInstall globalAddr data size version true true).2.ctx.pageTable globalAddr =
        some { page with state := .shared, version := version } ∧
      ∀ k < pageSize, (m.pageInstall globalAddr data size version true true).2.prot
        (page.localAddr + k) = .read := by
  obtain ⟨hlookup, hnull, -⟩ := (m.installTarget_eq_some _ _).mp hpage
  have hinstall : (m.pageInstall globalAddr data size version true true).2 =
      ((((m.protect page.localAddr pageSize .readWrite).store page.localAddr data size).protect
        page.localAddr pageSize .read).markInstalled globalAddr version) := by
    rw [NodeMem.pageInstall]
    simp [hlookup, hnull]
  rw [hinstall]
  refine ⟨(pageLookup_pageUpdate_self ?_ _ rfl).trans ?_, fun k hk => ?_⟩
  · exact fun _ => rfl
  · exact congrArg _ hlookup
  · exact if_pos ⟨Nat.le_add_right _ _, Nat.add_lt_add_left hk _⟩

/-! ### The transfer -/

/-- The request of node 2 for the page at `0x2000000`, when it has sent nothing else. -/
def pageRequestOf2 : Message :=
  NodeCtx.message (.fresh .worker 2 [] 0 1) .pageRequest masterId
    (Bytes.le 0x2000000 8 ++ Bytes.le 0 4)

/-- The master writes 7 to a page that a worker has mapped, and the worker faults on it. -/
def fetchOnce : List (ClusterAction Bool) :=
  [.start true masterId [] 0 1, .call true (.join [49] 5000 1 .master (-1) 0 true),
    .memInit true 1 0x80000, .start false 2 [] 0 1, .memInit false 1 0x90000,
    .welcome true [50] 5001 1 7 0 true,
    .call true (.memory (.mallocAt 0x2000000 4096 (some 0x100000) true)), .call true (.store 0x100000 7),
    .call false (.memory (.mapRemote 0x2000000 4096 (some 0x200000))), .call false (.fault 0x200000 true),
    .deliver true false (pageRequestOf2.received (by decide))]

end Dsm
