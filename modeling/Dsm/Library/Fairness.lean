import Dsm.Library.Machine

/-!
# Infinite runs

An infinite run of a machine, and what it leads to: `r.LeadsTo P Q` says that a state of the run in
which `P` holds is followed by one in which `Q` does. Progress comes from actions that the scheduler
takes again and again: `leadsTo_of_helpful` is the rule for one such action, and longer arguments are
put together from it by `LeadsTo.trans`, `LeadsTo.or` and `LeadsTo.of_measure`. `LeadsTo.psp` carries a
property that lasts along a progress result, and `leadsTo_of_channel` is progress through a channel that
keeps its messages in order. What the scheduler is assumed to do is a hypothesis of the theorem that
needs it, never part of the machine.
-/

namespace Machine

variable {σ α β : Type*}

structure Run (M : Machine σ α) where
  state : ℕ → σ
  act : ℕ → α
  start : M.start (state 0)
  step : ∀ n, M.step (state n) (act n) = some (state (n + 1))

/-- The machine that may stand still at any time: its infinite runs are the finite runs, too. -/
def idling (M : Machine σ α) : Machine σ (Option α) where
  start := M.start
  step s
    | some a => M.step s a
    | none => some s

theorem reachable_of_idling {M : Machine σ α} {s : σ} (h : M.idling.Reachable s) : M.Reachable s := by
  refine h.invariant (fun _ hs => .start hs) fun s a t hs ht => ?_
  cases a with
  | none =>
      cases ht
      exact hs
  | some a => exact hs.step a ht

theorem exec_idling (M : Machine σ α) (s : σ) (as : List α) :
    M.idling.exec s (as.map some) = M.exec s as := by
  induction as generalizing s with
  | nil => rfl
  | cons a as ih =>
      rw [List.map_cons, exec_cons, exec_cons]
      exact congrArg _ (funext ih)

/-- Evaluate along a run whether every state that waits is followed by an action that serves it. -/
def answered (M : Machine σ α) (waiting : σ → Bool) (serves : α → Bool) (s : σ) : List α → Bool
  | [] => !waiting s
  | a :: as =>
      (!waiting s || (a :: as).any serves) &&
        (M.step s a).all fun t => answered M waiting serves t as

theorem exists_of_answered {M : Machine σ α} {waiting : σ → Bool} {serves : α → Bool} {s t : σ}
    {pre post : List α} (h : M.answered waiting serves s (pre ++ post) = true)
    (hpre : M.exec s pre = some t) (ht : waiting t = true) : ∃ a ∈ post, serves a = true := by
  induction pre generalizing s with
  | nil =>
      cases hpre
      cases post with
      | nil => simp [answered, ht] at h
      | cons a post =>
          rw [List.nil_append, answered, ht, Bool.not_true, Bool.false_or, Bool.and_eq_true] at h
          exact List.any_eq_true.mp h.1
  | cons b pre ih =>
      obtain ⟨u, hu, hexec⟩ := Option.bind_eq_some_iff.mp hpre
      rw [List.cons_append, answered, hu, Bool.and_eq_true] at h
      exact ih h.2 hexec

namespace Run

variable {M : Machine σ α} (r : M.Run)

theorem reachable (n : ℕ) : M.Reachable (r.state n) := by
  induction n with
  | zero => exact .start r.start
  | succ n ih => exact .step (r.act n) ih (r.step n)

def LeadsTo (P Q : σ → Prop) : Prop := ∀ n, P (r.state n) → ∃ m, n ≤ m ∧ Q (r.state m)

variable {r} {P Q R : σ → Prop}

theorem LeadsTo.of_imp (h : ∀ n, P (r.state n) → Q (r.state n)) : r.LeadsTo P Q :=
  fun n hP => ⟨n, Nat.le_refl n, h n hP⟩

theorem LeadsTo.trans (hPQ : r.LeadsTo P Q) (hQR : r.LeadsTo Q R) : r.LeadsTo P R := by
  intro n hP
  obtain ⟨m, hnm, hQ⟩ := hPQ n hP
  obtain ⟨k, hmk, hR⟩ := hQR m hQ
  exact ⟨k, hnm.trans hmk, hR⟩

theorem LeadsTo.or (hP : r.LeadsTo P R) (hQ : r.LeadsTo Q R) : r.LeadsTo (fun s => P s ∨ Q s) R := by
  rintro n (h | h)
  · exact hP n h
  · exact hQ n h

/-- As long as the helpful action is not taken `P` stays, and when it is taken it brings about `Q`. -/
theorem leadsTo_of_helpful (helpful : α → Prop)
    (hkeep : ∀ n, P (r.state n) → ¬ helpful (r.act n) → P (r.state (n + 1)))
    (hstep : ∀ n, P (r.state n) → helpful (r.act n) → Q (r.state (n + 1)))
    (hfair : ∀ n, P (r.state n) → ∃ m, n ≤ m ∧ helpful (r.act m)) : r.LeadsTo P Q := by
  intro n hP
  obtain ⟨m, hnm, hm⟩ := hfair n hP
  induction hnm using Nat.decreasingInduction with
  | self => exact ⟨m + 1, Nat.le_succ m, hstep m hP hm⟩
  | of_succ k hk ih =>
      by_cases hhelpful : helpful (r.act k)
      · exact ⟨k + 1, Nat.le_succ k, hstep k hP hhelpful⟩
      · obtain ⟨j, hj, hQ⟩ := ih (hkeep k hP hhelpful)
        exact ⟨j, (Nat.le_succ k).trans hj, hQ⟩

/-- Every state with `P` leads to one in which a measure is smaller, until `Q` holds. -/
theorem LeadsTo.of_measure (measure : σ → ℕ)
    (h : ∀ k, r.LeadsTo (fun s => P s ∧ measure s = k) (fun s => P s ∧ measure s < k ∨ Q s)) :
    r.LeadsTo P Q := by
  intro n hP
  induction hk : measure (r.state n) using Nat.strong_induction_on generalizing n with
  | _ k ih =>
      obtain ⟨m, hnm, ⟨hPm, hlt⟩ | hQ⟩ := h k n ⟨hP, hk⟩
      · obtain ⟨j, hmj, hQ⟩ := ih _ hlt m hPm rfl
        exact ⟨j, hnm.trans hmj, hQ⟩
      · exact ⟨m, hnm, hQ⟩

/-- `P` lasts until `Q` holds, or for ever. -/
def Unless (r : M.Run) (P Q : σ → Prop) : Prop :=
  ∀ n, P (r.state n) → P (r.state (n + 1)) ∨ Q (r.state (n + 1))

theorem Unless.lasts (h : r.Unless P Q) {n m : ℕ} (hP : P (r.state n)) (hnm : n ≤ m) :
    P (r.state m) ∨ ∃ j, n ≤ j ∧ j ≤ m ∧ Q (r.state j) := by
  induction m, hnm using Nat.le_induction with
  | base => exact .inl hP
  | succ m hnm ih =>
      rcases ih with hm | ⟨j, hnj, hjm, hQ⟩
      · rcases h m hm with hnext | hQ
        · exact .inl hnext
        · exact .inr ⟨m + 1, Nat.le_succ_of_le hnm, Nat.le_refl _, hQ⟩
      · exact .inr ⟨j, hnj, Nat.le_succ_of_le hjm, hQ⟩

theorem LeadsTo.psp {S : σ → Prop} (hPQ : r.LeadsTo P Q) (hR : r.Unless R S) :
    r.LeadsTo (fun s => P s ∧ R s) (fun s => Q s ∧ R s ∨ S s) := by
  rintro n ⟨hP, hRn⟩
  obtain ⟨m, hnm, hQ⟩ := hPQ n hP
  rcases hR.lasts hRn hnm with hRm | ⟨j, hnj, -, hS⟩
  · exact ⟨m, hnm, .inl ⟨hQ, hRm⟩⟩
  · exact ⟨j, hnj, .inr hS⟩

/-- `P` lasts for ever. -/
def Stable (r : M.Run) (P : σ → Prop) : Prop := ∀ n, P (r.state n) → P (r.state (n + 1))

theorem Stable.lasts (h : r.Stable P) {n m : ℕ} (hP : P (r.state n)) (hnm : n ≤ m) : P (r.state m) := by
  induction m, hnm using Nat.le_induction with
  | base => exact hP
  | succ m _ ih => exact h m ih

/-- What every step of the machine keeps lasts in a run that may stand still. -/
theorem stable_of_step {M : Machine σ α} {r : M.idling.Run} {P : σ → Prop}
    (h : ∀ s a t, M.Reachable s → M.step s a = some t → P s → P t) : r.Stable P := by
  intro n hP
  have hstep := r.step n
  cases hact : r.act n with
  | none =>
      rw [hact] at hstep
      rwa [← Option.some.inj hstep]
  | some a =>
      rw [hact] at hstep
      exact h _ a _ (reachable_of_idling (r.reachable n)) hstep hP

theorem LeadsTo.and_stable (hPQ : r.LeadsTo P Q) (hR : r.Stable R) :
    r.LeadsTo (fun s => P s ∧ R s) (fun s => Q s ∧ R s) := by
  rintro n ⟨hP, hRn⟩
  obtain ⟨m, hnm, hQ⟩ := hPQ n hP
  exact ⟨m, hnm, hQ, hR.lasts hRn hnm⟩

theorem LeadsTo.forall_mem {ι : Type*} {G : ι → σ → Prop} {l : List ι}
    (h : ∀ i ∈ l, r.LeadsTo P (G i)) (hG : ∀ i ∈ l, r.Stable (G i)) :
    r.LeadsTo P (fun s => ∀ i ∈ l, G i s) := by
  intro n hP
  induction l with
  | nil => exact ⟨n, Nat.le_refl n, nofun⟩
  | cons i l ih =>
      obtain ⟨hi, hl⟩ := List.forall_mem_cons.mp h
      obtain ⟨hGi, hGl⟩ := List.forall_mem_cons.mp hG
      obtain ⟨m, hnm, hm⟩ := hi n hP
      obtain ⟨k, hnk, hk⟩ := ih hl hGl
      refine ⟨max m k, hnm.trans (Nat.le_max_left m k), List.forall_mem_cons.mpr ⟨?_, fun j hj => ?_⟩⟩
      · exact hGi.lasts hm (Nat.le_max_left m k)
      · exact (hGl j hj).lasts (hk j hj) (Nat.le_max_right m k)

/-- As `leadsTo_of_helpful`, where other actions may bring about `Q` as well. -/
theorem leadsTo_of_unless (helpful : α → Prop) (hkeep : r.Unless P Q)
    (hstep : ∀ n, P (r.state n) → helpful (r.act n) → Q (r.state (n + 1)))
    (hfair : ∀ n, P (r.state n) → ∃ m, n ≤ m ∧ helpful (r.act m)) : r.LeadsTo P Q := by
  intro n hP
  obtain ⟨m, hnm, hm⟩ := hfair n hP
  rcases hkeep.lasts hP hnm with hPm | ⟨j, hnj, -, hQ⟩
  · exact ⟨m + 1, Nat.le_succ_of_le hnm, hstep m hPm hm⟩
  · exact ⟨j, hnj, hQ⟩

/-- A message in a channel is taken at last: every step appends to the channel or takes its first
message, the channel is served for ever, and `Q` holds once this message has been taken. -/
theorem leadsTo_of_channel [DecidableEq β] (channel : σ → List β) (msg : β) (takes : α → Prop)
    (hstep : ∀ n, (∃ new, channel (r.state (n + 1)) = channel (r.state n) ++ new) ∧ ¬ takes (r.act n) ∨
      ∃ first, channel (r.state n) = first :: channel (r.state (n + 1)))
    (htaken : ∀ n, channel (r.state n) = msg :: channel (r.state (n + 1)) → Q (r.state (n + 1)))
    (hfair : ∀ n, channel (r.state n) ≠ [] → ∃ m, n ≤ m ∧ takes (r.act m)) :
    r.LeadsTo (msg ∈ channel ·) Q := by
  refine LeadsTo.of_measure (fun s => (channel s).idxOf msg) fun k => ?_
  have hforward : ∀ n, msg ∈ channel (r.state n) → (channel (r.state n)).idxOf msg = k →
      (∃ first, channel (r.state n) = first :: channel (r.state (n + 1))) →
      (msg ∈ channel (r.state (n + 1)) ∧ (channel (r.state (n + 1))).idxOf msg < k) ∨
        Q (r.state (n + 1)) := by
    rintro n hmem hk ⟨first, htake⟩
    by_cases hfirst : first = msg
    · exact .inr (htaken n (hfirst ▸ htake))
    · have hrest : msg ∈ channel (r.state (n + 1)) := by
        rw [htake] at hmem
        exact (List.mem_cons.mp hmem).resolve_left (Ne.symm hfirst)
      rw [htake, List.idxOf_cons_ne _ hfirst] at hk
      exact .inl ⟨hrest, hk ▸ Nat.lt_succ_self _⟩
  refine leadsTo_of_unless takes (fun n hn => ?_) (fun n hn hact => ?_) fun n hn => ?_
  · rcases hstep n with ⟨⟨new, hnew⟩, -⟩ | htake
    · refine .inl ⟨hnew ▸ List.mem_append_left new hn.1, ?_⟩
      rw [hnew, List.idxOf_append_of_mem hn.1]
      exact hn.2
    · exact .inr (hforward n hn.1 hn.2 htake)
  · exact hforward n hn.1 hn.2 ((hstep n).resolve_left fun h => h.2 hact)
  · exact hfair n (List.ne_nil_of_mem hn.1)

/-- A finite run goes on for ever where an action changes nothing at its end. -/
def ofExec {s t : σ} {as : List α} {idle : α} (hs : M.start s) (has : M.exec s as = some t)
    (hidle : M.step t idle = some t) : M.Run where
  state n := (M.exec s (as.take n)).getD t
  act n := as.getD n idle
  start := hs
  step n := by
    by_cases hn : n < as.length
    · have hsplit : as = as.take n ++ as[n] :: as.drop (n + 1) := by
        rw [← List.drop_eq_getElem_cons hn, List.take_append_drop]
      rw [hsplit, exec_append, Option.bind_eq_some_iff] at has
      obtain ⟨u, hu, hrest⟩ := has
      obtain ⟨v, hv, -⟩ := Option.bind_eq_some_iff.mp hrest
      rw [List.getD_eq_getElem?_getD, List.getElem?_eq_getElem hn, Option.getD_some, hu,
        Option.getD_some, List.take_succ_eq_append_getElem hn, M.exec_snoc hu hv, Option.getD_some]
      exact hv
    · have hle := Nat.le_of_not_lt hn
      rw [List.getD_eq_getElem?_getD, List.getElem?_eq_none hle, Option.getD_none,
        List.take_of_length_le hle, List.take_of_length_le (hle.trans (Nat.le_succ n)), has]
      exact hidle

theorem ofExec_state {s t u : σ} {as : List α} {idle : α} (hs : M.start s)
    (has : M.exec s as = some t) (hidle : M.step t idle = some t) {n : ℕ}
    (hu : M.exec s (as.take n) = some u) : (ofExec hs has hidle).state n = u := by
  change (M.exec s (as.take n)).getD t = u
  rw [hu]
  rfl

theorem ofExec_state_of_le {s t : σ} {as : List α} {idle : α} (hs : M.start s)
    (has : M.exec s as = some t) (hidle : M.step t idle = some t) {n : ℕ} (hn : as.length ≤ n) :
    (ofExec hs has hidle).state n = t :=
  ofExec_state hs has hidle (by rw [List.take_of_length_le hn, has])

theorem ofExec_act_of_le {s t : σ} {as : List α} {idle : α} (hs : M.start s)
    (has : M.exec s as = some t) (hidle : M.step t idle = some t) {n : ℕ} (hn : as.length ≤ n) :
    (ofExec hs has hidle).act n = idle := by
  change as.getD n idle = idle
  rw [List.getD_eq_getElem?_getD, List.getElem?_eq_none hn, Option.getD_none]

theorem ofExec_each {s t : σ} {as : List α} {idle : α} {ok : σ → α → Prop} (hs : M.start s)
    (has : M.exec s as = some t) (hidle : M.step t idle = some t) (hok : M.EachStep ok s as)
    (hlast : ok t idle) (n : ℕ) : ok ((ofExec hs has hidle).state n) ((ofExec hs has hidle).act n) := by
  by_cases hn : n < as.length
  · have hsplit := has
    rw [← List.take_append_drop n as, exec_append] at hsplit
    obtain ⟨u, hu, -⟩ := Option.bind_eq_some_iff.mp hsplit
    have hact : (ofExec hs has hidle).act n = as[n] := by
      change as.getD n idle = as[n]
      rw [List.getD_eq_getElem?_getD, List.getElem?_eq_getElem hn, Option.getD_some]
    rw [ofExec_state hs has hidle hu, hact]
    refine hok _ _ u ?_ hu
    rw [← List.take_succ_eq_append_getElem hn]
    exact List.take_prefix _ _
  · have hle := Nat.le_of_not_lt hn
    rw [ofExec_state_of_le hs has hidle hle, ofExec_act_of_le hs has hidle hle]
    exact hlast

theorem ofExec_answered {s t : σ} {as : List α} {idle : α} {waiting : σ → Bool} {serves : α → Bool}
    (hs : M.start s) (has : M.exec s as = some t) (hidle : M.step t idle = some t)
    (hanswered : M.answered waiting serves s as = true) (n : ℕ)
    (hwaiting : waiting ((ofExec hs has hidle).state n) = true) :
    ∃ m, n ≤ m ∧ serves ((ofExec hs has hidle).act m) = true := by
  have hsplit := List.take_append_drop n as
  rw [← hsplit] at hanswered
  obtain ⟨u, hu, -⟩ := Option.bind_eq_some_iff.mp ((exec_append M s _ _).symm.trans (hsplit ▸ has))
  rw [ofExec_state hs has hidle hu] at hwaiting
  obtain ⟨a, ha, hserves⟩ := exists_of_answered hanswered hu hwaiting
  obtain ⟨i, hi, rfl⟩ := List.getElem_of_mem ha
  refine ⟨n + i, Nat.le_add_right n i, ?_⟩
  change serves (as.getD (n + i) idle) = true
  rwa [List.getD_eq_getElem?_getD, ← List.getElem?_drop, List.getElem?_eq_getElem hi, Option.getD_some]

end Run

end Machine
