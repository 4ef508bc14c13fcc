import Mathlib.Data.List.Infix

/-!
# Machines with a partial step function

A machine is a set of start states and a step function that is undefined where an action is not
enabled. Everything a scheduler, a network or an operating system may choose is part of the action,
so a machine is deterministic in its action and a run is the list of its actions.

Three rules are used throughout. `Reachable.invariant` is induction over the reachable states.
`Reachable.map` transports reachability along a projection under which every step is a step or a
stutter. `always_iff_eachStep` is for a property that holds exactly as long as every step is taken
under some condition: one lemma about a single step decides the property for a whole run.
-/

/-- A labelled transition system; `step s a = none` where `a` is not enabled in `s`. -/
structure Machine (σ α : Type*) where
  start : σ → Prop
  step : σ → α → Option σ

namespace Machine

variable {σ τ α β : Type*} (M : Machine σ α)

/-- The state after a list of actions, if each of them is enabled when its turn comes. -/
def exec (s : σ) : List α → Option σ
  | [] => some s
  | a :: as => (M.step s a).bind fun t => exec t as

@[simp] theorem exec_nil (s : σ) : M.exec s [] = some s := rfl

@[simp] theorem exec_cons (s : σ) (a : α) (as : List α) :
    M.exec s (a :: as) = (M.step s a).bind fun t => M.exec t as := rfl

theorem exec_append (s : σ) (as bs : List α) :
    M.exec s (as ++ bs) = (M.exec s as).bind fun t => M.exec t bs := by
  induction as generalizing s with
  | nil => rfl
  | cons a as ih => simp only [List.cons_append, exec_cons, Option.bind_assoc, ih]

theorem exec_snoc {s t u : σ} {as : List α} {a : α} (has : M.exec s as = some t)
    (ha : M.step t a = some u) : M.exec s (as ++ [a]) = some u := by
  rw [exec_append, has, Option.bind_some, exec_cons, ha]
  rfl

theorem exec_invariant (P : σ → Prop) {s t : σ} {as : List α} (hexec : M.exec s as = some t)
    (hkeep : ∀ a ∈ as, ∀ u v, P u → M.step u a = some v → P v) (hs : P s) : P t := by
  induction as generalizing s with
  | nil =>
      cases hexec
      exact hs
  | cons a as ih =>
      obtain ⟨u, ha, hu⟩ := Option.bind_eq_some_iff.mp hexec
      have hrest : ∀ b ∈ as, ∀ u v, P u → M.step u b = some v → P v :=
        fun b hb => hkeep b (List.mem_cons_of_mem _ hb)
      exact ih hu hrest (hkeep a List.mem_cons_self s u hs ha)

inductive Reachable : σ → Prop where
  | start {s : σ} : M.start s → Reachable s
  | step {s t : σ} (a : α) : Reachable s → M.step s a = some t → Reachable t

variable {M}

theorem Reachable.invariant {P : σ → Prop} (hstart : ∀ s, M.start s → P s)
    (hstep : ∀ s a t, P s → M.step s a = some t → P t) {s : σ} (h : M.Reachable s) : P s := by
  induction h with
  | start h => exact hstart _ h
  | step a _ ha ih => exact hstep _ a _ ih ha

theorem Reachable.exec {s t : σ} {as : List α} (h : M.Reachable s) (has : M.exec s as = some t) :
    M.Reachable t := by
  induction as generalizing s with
  | nil =>
      cases has
      exact h
  | cons a as ih =>
      obtain ⟨u, ha, hu⟩ := Option.bind_eq_some_iff.mp has
      exact ih (h.step a ha) hu

theorem reachable_iff_exec {t : σ} : M.Reachable t ↔ ∃ s as, M.start s ∧ M.exec s as = some t := by
  constructor
  · intro h
    induction h with
    | start h => exact ⟨_, [], h, rfl⟩
    | step a _ ha ih =>
        obtain ⟨s, as, hs, has⟩ := ih
        exact ⟨s, as ++ [a], hs, M.exec_snoc has ha⟩
  · rintro ⟨s, as, hs, has⟩
    exact (Reachable.start hs).exec has

/-- A projection under which every step is a step of the other machine or changes nothing. -/
theorem Reachable.map {N : Machine τ β} (f : σ → τ) (hstart : ∀ s, M.start s → N.start (f s))
    (hstep : ∀ s a t, M.step s a = some t → f t = f s ∨ ∃ b, N.step (f s) b = some (f t))
    {s : σ} (h : M.Reachable s) : N.Reachable (f s) := by
  induction h with
  | start h => exact .start (hstart _ h)
  | step a _ ha ih =>
      rcases hstep _ a _ ha with heq | ⟨b, hb⟩
      · rw [heq]
        exact ih
      · exact ih.step b hb

/-! ### Properties of a whole run -/

variable (M)

/-- `P` holds in every state that the run `as` from `s` goes through. -/
def Always (P : σ → Prop) (s : σ) (as : List α) : Prop :=
  ∀ pre t, pre <+: as → M.exec s pre = some t → P t

/-- Every step of the run `as` from `s` meets the condition `ok` on the state before it. -/
def EachStep (ok : σ → α → Prop) (s : σ) (as : List α) : Prop :=
  ∀ pre a t, pre ++ [a] <+: as → M.exec s pre = some t → ok t a

variable {M}

theorem always_nil {P : σ → Prop} {s : σ} : M.Always P s [] ↔ P s := by
  constructor
  · intro h
    exact h [] s (List.prefix_refl _) rfl
  · intro h pre t hpre ht
    rw [List.prefix_nil.mp hpre] at ht
    cases ht
    exact h

theorem always_cons {P : σ → Prop} {s t : σ} {a : α} {as : List α} (ha : M.step s a = some t) :
    M.Always P s (a :: as) ↔ P s ∧ M.Always P t as := by
  constructor
  · intro h
    refine ⟨h [] s (List.nil_prefix) rfl, fun pre u hpre hu => ?_⟩
    refine h (a :: pre) u (List.prefix_cons_inj a |>.mpr hpre) ?_
    rw [exec_cons, ha]
    exact hu
  · rintro ⟨hs, hrest⟩ pre u hpre hu
    cases pre with
    | nil =>
        cases hu
        exact hs
    | cons b pre =>
        obtain ⟨rfl, htail⟩ := List.cons_prefix_cons.mp hpre
        rw [exec_cons, ha] at hu
        exact hrest pre u htail hu

theorem eachStep_nil {ok : σ → α → Prop} {s : σ} : M.EachStep ok s [] := by
  intro pre a t hpre
  simp at hpre

theorem eachStep_cons {ok : σ → α → Prop} {s t : σ} {a : α} {as : List α}
    (ha : M.step s a = some t) : M.EachStep ok s (a :: as) ↔ ok s a ∧ M.EachStep ok t as := by
  constructor
  · intro h
    refine ⟨h [] a s (by simp) rfl, fun pre b u hpre hu => ?_⟩
    refine h (a :: pre) b u (List.prefix_cons_inj a |>.mpr hpre) ?_
    rw [exec_cons, ha]
    exact hu
  · rintro ⟨hs, hrest⟩ pre b u hpre hu
    cases pre with
    | nil =>
        cases hu
        obtain ⟨rfl, -⟩ := List.cons_prefix_cons.mp hpre
        exact hs
    | cons c pre =>
        obtain ⟨rfl, htail⟩ := List.cons_prefix_cons.mp hpre
        rw [exec_cons, ha] at hu
        exact hrest pre b u htail hu

theorem eachStep_append {ok : σ → α → Prop} {s t : σ} {as bs : List α}
    (has : M.exec s as = some t) :
    M.EachStep ok s (as ++ bs) ↔ M.EachStep ok s as ∧ M.EachStep ok t bs := by
  induction as generalizing s with
  | nil =>
      cases has
      exact (and_iff_right eachStep_nil).symm
  | cons a as ih =>
      obtain ⟨u, ha, hu⟩ := Option.bind_eq_some_iff.mp has
      rw [List.cons_append, eachStep_cons ha, ih hu, eachStep_cons ha, and_assoc]

theorem eachStep_of_forall {ok : σ → α → Prop} {s : σ} {as : List α}
    (h : ∀ t, ∀ a ∈ as, ok t a) : M.EachStep ok s as := by
  intro pre a t hpre _
  exact h t a (hpre.subset (List.mem_append_right _ List.mem_cons_self))

variable (M) in
/-- Evaluate a decidable condition along a run. -/
def checks (ok : σ → α → Prop) [∀ s a, Decidable (ok s a)] (s : σ) : List α → Bool
  | [] => true
  | a :: as => decide (ok s a) && (M.step s a).all fun t => checks ok t as

theorem eachStep_of_checks {ok : σ → α → Prop} [∀ s a, Decidable (ok s a)] {s : σ} {as : List α}
    (h : M.checks ok s as = true) : M.EachStep ok s as := by
  induction as generalizing s with
  | nil => exact eachStep_nil
  | cons a as ih =>
      rw [checks, Bool.and_eq_true, decide_eq_true_eq] at h
      obtain ⟨hfirst, hrest⟩ := h
      intro pre b u hpre hu
      cases pre with
      | nil =>
          obtain ⟨rfl, -⟩ := List.cons_prefix_cons.mp hpre
          cases hu
          exact hfirst
      | cons c pre =>
          obtain ⟨rfl, htail⟩ := List.cons_prefix_cons.mp hpre
          obtain ⟨t, ht, hexec⟩ := Option.bind_eq_some_iff.mp hu
          rw [ht] at hrest
          exact ih hrest pre b u htail hexec

theorem Always.last {P : σ → Prop} {s t : σ} {as : List α} (h : M.Always P s as)
    (has : M.exec s as = some t) : P t :=
  h as t (List.prefix_refl _) has

/-- A step lemma that gives a property of whole runs: the steps that meet `ok` keep an invariant that
implies `P`. -/
theorem always_of_eachStep {P Inv : σ → Prop} {ok : σ → α → Prop} (hP : ∀ s, Inv s → P s)
    (hkeep : ∀ s a t, Inv s → ok s a → M.step s a = some t → Inv t)
    {s t : σ} {as : List α} (hs : Inv s) (has : M.exec s as = some t)
    (hok : M.EachStep ok s as) : M.Always P s as := by
  induction as generalizing s with
  | nil => exact always_nil.mpr (hP s hs)
  | cons a as ih =>
      obtain ⟨u, ha, hu⟩ := Option.bind_eq_some_iff.mp has
      obtain ⟨hfirst, hrest⟩ := (eachStep_cons ha).mp hok
      exact (always_cons ha).mpr ⟨hP s hs, ih (hkeep s a u hs hfirst ha) hu hrest⟩

/-- The converse: a step within `side` that does not meet `ok` leaves the states where `P` holds. -/
theorem eachStep_of_always {P Inv : σ → Prop} {ok side : σ → α → Prop}
    (hkeep : ∀ s a t, Inv s → ok s a → M.step s a = some t → Inv t)
    (hbreak : ∀ s a t, Inv s → side s a → ¬ ok s a → M.step s a = some t → ¬ P t)
    {s t : σ} {as : List α} (hs : Inv s) (has : M.exec s as = some t)
    (hside : M.EachStep side s as) (halways : M.Always P s as) : M.EachStep ok s as := by
  induction as generalizing s with
  | nil => exact eachStep_nil
  | cons a as ih =>
      obtain ⟨u, ha, hu⟩ := Option.bind_eq_some_iff.mp has
      obtain ⟨-, hrest⟩ := (always_cons ha).mp halways
      obtain ⟨hsideFirst, hsideRest⟩ := (eachStep_cons ha).mp hside
      have hfirst : ok s a := by
        by_contra hnot
        exact hbreak s a u hs hsideFirst hnot ha (hrest [] u (List.nil_prefix) rfl)
      exact (eachStep_cons ha).mpr ⟨hfirst, ih (hkeep s a u hs hfirst ha) hu hsideRest hrest⟩

/-- A step lemma that decides a property of whole runs: an invariant that implies `P` is kept by the
steps that meet `ok`, and a step that does not meet `ok` leaves the states where `P` holds. -/
theorem always_iff_eachStep {P Inv : σ → Prop} {ok : σ → α → Prop} (hP : ∀ s, Inv s → P s)
    (hkeep : ∀ s a t, Inv s → ok s a → M.step s a = some t → Inv t)
    (hbreak : ∀ s a t, Inv s → ¬ ok s a → M.step s a = some t → ¬ P t)
    {s t : σ} {as : List α} (hs : Inv s) (has : M.exec s as = some t) :
    M.Always P s as ↔ M.EachStep ok s as := by
  have hside : M.EachStep (fun _ _ => True) s as := fun _ _ _ _ _ => trivial
  exact ⟨eachStep_of_always hkeep (fun s a t hInv _ => hbreak s a t hInv) hs has hside,
    always_of_eachStep hP hkeep hs has⟩

/-- A choice that a run makes for good: as long as every step meets `ok` the states are good, and a
step that does not meet it leaves a bad state, after which all are. -/
theorem good_or_bad_of_exec {Inv Good Bad : σ → Prop} {ok : σ → α → Prop} {s t : σ} {as : List α}
    (has : M.exec s as = some t) (hs : Inv s) (hstart : Good s)
    (hInv : ∀ s a t, Inv s → M.step s a = some t → Inv t)
    (hgood : ∀ s a t, Inv s → Good s → ok s a → M.step s a = some t → Good t)
    (hbreak : ∀ s a t, Inv s → ¬ ok s a → M.step s a = some t → Bad t)
    (hbad : ∀ s a t, Inv s → Bad s → M.step s a = some t → Bad t) :
    (M.EachStep ok s as → Good t) ∧ (¬ M.EachStep ok s as → Bad t) := by
  induction as generalizing s with
  | nil =>
      cases has
      exact ⟨fun _ => hstart, fun hnot => absurd eachStep_nil hnot⟩
  | cons a as ih =>
      obtain ⟨u, ha, hu⟩ := Option.bind_eq_some_iff.mp has
      have huInv := hInv s a u hs ha
      rw [eachStep_cons ha]
      by_cases hok : ok s a
      · obtain ⟨hall, hsome⟩ := ih hu huInv (hgood s a u hs hstart hok ha)
        exact ⟨fun hand => hall hand.2, fun hnot => hsome fun hrest => hnot ⟨hok, hrest⟩⟩
      · refine ⟨fun hand => absurd hand.1 hok, fun _ => ?_⟩
        have hboth := M.exec_invariant (fun v => Inv v ∧ Bad v) hu
          (fun b _ v w hand hb => ⟨hInv v b w hand.1 hb, hbad v b w hand.1 hand.2 hb⟩)
          ⟨huInv, hbreak s a u hs hok ha⟩
        exact hboth.2

end Machine
