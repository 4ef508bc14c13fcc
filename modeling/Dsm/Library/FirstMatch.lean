import Mathlib.Data.List.Basic

/-!
# Lists read by their first match

A C program often keeps records in an array or a chain and answers a query with the first record
that matches it. Reading is `List.find?`, and removal is `List.eraseP`; this module adds the update
of the first match, and how the three interact. A query is a predicate, so two queries need not ask
about the same field: an update leaves a query alone that no matching record answers.
-/

namespace List

variable {α : Type*}

/-- Replace the first element that satisfies `p`, if there is one. -/
def updateFirst (p : α → Bool) (f : α → α) : List α → Option (List α)
  | [] => none
  | a :: as => if p a then some (f a :: as) else (updateFirst p f as).map (a :: ·)

variable {p q : α → Bool} {f : α → α}

theorem updateFirst_eq_none {l : List α} : l.updateFirst p f = none ↔ l.find? p = none := by
  induction l with
  | nil => simp [updateFirst]
  | cons a as ih => cases ha : p a <;> simp [updateFirst, ha, ih]

theorem updateFirst_isSome {l : List α} : (l.updateFirst p f).isSome = (l.find? p).isSome := by
  cases hfind : l.find? p with
  | none => rw [updateFirst_eq_none.mpr hfind]; rfl
  | some a =>
      cases hupdate : l.updateFirst p f with
      | none =>
          rw [updateFirst_eq_none.mp hupdate] at hfind
          cases hfind
      | some l' => rfl

theorem updateFirst_eq_some {l l' : List α} (hupdate : l.updateFirst p f = some l') :
    ∃ as a bs, l = as ++ a :: bs ∧ (∀ b ∈ as, p b = false) ∧ p a = true ∧ l' = as ++ f a :: bs := by
  induction l generalizing l' with
  | nil => cases hupdate
  | cons a as ih =>
      cases ha : p a with
      | true =>
          simp only [updateFirst, ha, if_true, Option.some.injEq] at hupdate
          exact ⟨[], a, as, rfl, nofun, ha, hupdate.symm⟩
      | false =>
          simp only [updateFirst, ha, Bool.false_eq_true, if_false, Option.map_eq_some_iff] at hupdate
          obtain ⟨rest, hrest, rfl⟩ := hupdate
          obtain ⟨pre, b, post, rfl, hpre, hb, rfl⟩ := ih hrest
          exact ⟨a :: pre, b, post, rfl, List.forall_mem_cons.mpr ⟨ha, hpre⟩, hb, rfl⟩

theorem updateFirst_of_find? (f : α → α) {l : List α} {a : α} (hfind : l.find? p = some a) :
    ∃ as bs, l = as ++ a :: bs ∧ l.updateFirst p f = some (as ++ f a :: bs) := by
  cases hupdate : l.updateFirst p f with
  | none =>
      rw [updateFirst_eq_none.mp hupdate] at hfind
      cases hfind
  | some l' =>
      obtain ⟨as, b, bs, rfl, has, hb, rfl⟩ := updateFirst_eq_some hupdate
      have hfirst : (as ++ b :: bs).find? p = some b :=
        find?_eq_some_iff_append.mpr ⟨hb, as, bs, rfl, by simpa using has⟩
      obtain rfl := Option.some.inj (hfirst.symm.trans hfind)
      exact ⟨as, bs, rfl, rfl⟩

theorem find?_updateFirst_self {l l' : List α} (hf : ∀ a ∈ l, p (f a) = p a)
    (hupdate : l.updateFirst p f = some l') : l'.find? p = (l.find? p).map f := by
  induction l generalizing l' with
  | nil => cases hupdate
  | cons a as ih =>
      cases ha : p a with
      | true =>
          simp only [updateFirst, ha, if_true, Option.some.injEq] at hupdate
          rw [← hupdate, find?_cons_of_pos (by rw [hf a mem_cons_self, ha]), find?_cons_of_pos ha]
          rfl
      | false =>
          simp only [updateFirst, ha, Bool.false_eq_true, if_false, Option.map_eq_some_iff] at hupdate
          obtain ⟨rest, hrest, rfl⟩ := hupdate
          rw [find?_cons_of_neg (by simp [ha]), find?_cons_of_neg (by simp [ha]),
            ih (fun b hb => hf b (mem_cons_of_mem _ hb)) hrest]

/-- A query that neither the replaced element nor its replacement answers reads what it read. -/
theorem find?_updateFirst_of_disjoint {l l' : List α}
    (hold : ∀ a ∈ l, p a = true → q a = false ∧ q (f a) = false)
    (hupdate : l.updateFirst p f = some l') : l'.find? q = l.find? q := by
  induction l generalizing l' with
  | nil => cases hupdate
  | cons a as ih =>
      cases ha : p a with
      | true =>
          simp only [updateFirst, ha, if_true, Option.some.injEq] at hupdate
          obtain ⟨hqa, hqfa⟩ := hold a mem_cons_self ha
          simp only [← hupdate, find?_cons, hqa, hqfa]
      | false =>
          simp only [updateFirst, ha, Bool.false_eq_true, if_false, Option.map_eq_some_iff] at hupdate
          obtain ⟨rest, hrest, rfl⟩ := hupdate
          simp only [find?_cons, ih (fun b hb => hold b (mem_cons_of_mem _ hb)) hrest]

theorem map_updateFirst {β : Type*} {g : α → β} {l l' : List α} (hg : ∀ a, g (f a) = g a)
    (hupdate : l.updateFirst p f = some l') : l'.map g = l.map g := by
  induction l generalizing l' with
  | nil => cases hupdate
  | cons a as ih =>
      cases ha : p a with
      | true =>
          simp only [updateFirst, ha, if_true, Option.some.injEq] at hupdate
          rw [← hupdate, map_cons, map_cons, hg]
      | false =>
          simp only [updateFirst, ha, Bool.false_eq_true, if_false, Option.map_eq_some_iff] at hupdate
          obtain ⟨rest, hrest, rfl⟩ := hupdate
          rw [map_cons, map_cons, ih hrest]

theorem length_updateFirst {l l' : List α} (hupdate : l.updateFirst p f = some l') :
    l'.length = l.length := by
  obtain ⟨as, a, bs, rfl, -, -, rfl⟩ := updateFirst_eq_some hupdate
  simp

theorem getElem?_updateFirst_of_ne {l l' : List α} {i : Nat} (hi : i ≠ l.findIdx p)
    (hupdate : l.updateFirst p f = some l') : l'[i]? = l[i]? := by
  induction l generalizing l' i with
  | nil => cases hupdate
  | cons a as ih =>
      cases ha : p a with
      | true =>
          simp only [updateFirst, ha, if_true, Option.some.injEq] at hupdate
          rw [findIdx_cons, ha] at hi
          obtain ⟨j, rfl⟩ := Nat.exists_eq_succ_of_ne_zero hi
          rw [← hupdate]
          rfl
      | false =>
          simp only [updateFirst, ha, Bool.false_eq_true, if_false, Option.map_eq_some_iff] at hupdate
          obtain ⟨rest, hrest, rfl⟩ := hupdate
          rw [findIdx_cons, ha] at hi
          cases i with
          | zero => rfl
          | succ i => exact ih (fun heq => hi (by rw [heq]; rfl)) hrest

theorem mem_of_mem_updateFirst {l l' : List α} {b : α} (hupdate : l.updateFirst p f = some l')
    (hb : b ∈ l') : b ∈ l ∨ ∃ a ∈ l, b = f a := by
  obtain ⟨as, a, bs, rfl, -, -, rfl⟩ := updateFirst_eq_some hupdate
  rcases mem_append.mp hb with hb | hb
  · exact .inl (mem_append_left _ hb)
  · rcases mem_cons.mp hb with rfl | hb
    · exact .inr ⟨a, mem_append_right _ mem_cons_self, rfl⟩
    · exact .inl (mem_append_right _ (mem_cons_of_mem _ hb))

theorem updateFirst_congr {l : List α} (hpq : ∀ a ∈ l, p a = q a) :
    l.updateFirst p f = l.updateFirst q f := by
  induction l with
  | nil => rfl
  | cons a as ih =>
      rw [updateFirst, updateFirst, hpq a mem_cons_self, ih fun b hb => hpq b (mem_cons_of_mem _ hb)]

theorem find?_eraseP_of_disjoint {l : List α} (hold : ∀ a ∈ l, p a = true → q a = false) :
    (l.eraseP p).find? q = l.find? q := by
  induction l with
  | nil => rfl
  | cons a as ih =>
      cases ha : p a with
      | true =>
          rw [eraseP_cons_of_pos ha, find?_cons_of_neg (by simp [hold a mem_cons_self ha])]
      | false =>
          rw [eraseP_cons_of_neg (by simp [ha]), find?_cons, find?_cons,
            ih fun b hb => hold b (mem_cons_of_mem _ hb)]

/-- Without another element than the one that the query reads, it reads what it read. -/
theorem find?_erase_of_ne [DecidableEq α] {l : List α} {a b : α} (hfind : l.find? q = some b)
    (hne : b ≠ a) : (l.erase a).find? q = some b := by
  induction l with
  | nil => cases hfind
  | cons c cs ih =>
      by_cases hc : c = a
      · subst hc
        cases hq : q c with
        | true =>
            rw [find?_cons_of_pos hq, Option.some.injEq] at hfind
            exact absurd hfind.symm hne
        | false =>
            rw [find?_cons_of_neg (by simp [hq])] at hfind
            rw [erase_cons_head, hfind]
      · rw [erase_cons_tail (by simpa using hc), find?_cons]
        rw [find?_cons] at hfind
        cases hq : q c with
        | true => simpa [hq] using hfind
        | false => exact ih (by simpa [hq] using hfind)

/-- Where keys are unique, no element with the key of the removed one is left. -/
theorem find?_eraseP_key {κ : Type*} [BEq κ] [LawfulBEq κ] {key : α → κ} {k : κ} {l : List α}
    (hnodup : (l.map key).Nodup) : (l.eraseP (key · == k)).find? (key · == k) = none := by
  induction l with
  | nil => rfl
  | cons a as ih =>
      rw [map_cons, nodup_cons] at hnodup
      by_cases ha : key a = k
      · rw [eraseP_cons_of_pos (by simpa using ha), find?_eq_none]
        intro b hb hkey
        rw [beq_iff_eq, ← ha] at hkey
        exact hnodup.1 (hkey ▸ mem_map_of_mem hb)
      · rw [eraseP_cons_of_neg (by simpa using ha), find?_cons_of_neg (by simpa using ha),
          ih hnodup.2]

/-- Where at most one element matches, the query finds every element that does. -/
theorem find?_eq_some_iff_of_pairwise {l : List α} {a : α}
    (hunique : l.Pairwise fun a b => p a = true → p b = false) :
    l.find? p = some a ↔ a ∈ l ∧ p a = true := by
  constructor
  · intro hfind
    exact ⟨mem_of_find?_eq_some hfind, find?_some hfind⟩
  · rintro ⟨hmem, ha⟩
    induction l with
    | nil => cases hmem
    | cons b bs ih =>
        obtain ⟨hfirst, hrest⟩ := pairwise_cons.mp hunique
        rcases mem_cons.mp hmem with rfl | hmem
        · exact find?_cons_of_pos ha
        · cases hb : p b with
          | true => rw [hfirst a hmem hb] at ha; cases ha
          | false => rw [find?_cons_of_neg (by simp [hb]), ih hrest hmem]

theorem eq_or_mem_eraseIdx {l : List α} {i : Nat} {a b : α} (ha : l[i]? = some a) (hb : b ∈ l) :
    b = a ∨ b ∈ l.eraseIdx i := by
  obtain ⟨j, hj⟩ := mem_iff_getElem?.mp hb
  by_cases hji : j = i
  · subst hji
    exact .inl (Option.some.inj (hj.symm.trans ha))
  · exact .inr (mem_eraseIdx_iff_getElem?.mpr ⟨j, hji, hj⟩)

theorem pairwise_concat {R : α → α → Prop} {l : List α} {a : α} :
    (l ++ [a]).Pairwise R ↔ l.Pairwise R ∧ ∀ b ∈ l, R b a := by
  simp [pairwise_append]

theorem updateFirst_eq_modify (p : α → Bool) (f : α → α) (l : List α) :
    l.updateFirst p f = (l.findIdx? p).map (l.modify · f) := by
  induction l with
  | nil => rfl
  | cons a as ih =>
      rw [updateFirst, findIdx?_cons]
      cases p a with
      | true => rfl
      | false =>
          simp only [Bool.false_eq_true, if_false, ih, Option.map_map]
          rfl

theorem map_modify_comm {β : Type*} {g : α → α} {v : α → β} {h : β → β} (hv : ∀ a, v (g a) = h (v a))
    (l : List α) (i : ℕ) : (l.modify i g).map v = (l.map v).modify i h := by
  induction l generalizing i with
  | nil => rw [List.modify_nil, List.map_nil, List.modify_nil]
  | cons a as ih =>
      cases i with
      | zero => exact congrArg (· :: as.map v) (hv a)
      | succ i => exact congrArg (v a :: ·) (ih i)

theorem updateFirst_map {β : Type*} {v : α → β} {q : β → Bool} {g : β → β} {l : List α}
    (hq : ∀ a ∈ l, q (v a) = p a) (hg : ∀ a ∈ l, g (v a) = v (f a)) :
    (l.map v).updateFirst q g = (l.updateFirst p f).map (map v) := by
  induction l with
  | nil => rfl
  | cons a as ih =>
      rw [map_cons, updateFirst, updateFirst, hq a mem_cons_self, hg a mem_cons_self,
        ih (fun b hb => hq b (mem_cons_of_mem _ hb)) fun b hb => hg b (mem_cons_of_mem _ hb)]
      cases p a with
      | true => rfl
      | false =>
          simp only [Bool.false_eq_true, if_false, Option.map_map]
          rfl

/-! ### Lists whose elements keep their places -/

/-- The elements of `l` are still in their places, each as `R` allows; others may follow them. -/
def Grows (R : α → α → Prop) (l l' : List α) : Prop :=
  ∀ (i : Nat) (a : α), l[i]? = some a → ∃ b, l'[i]? = some b ∧ R a b

section Grows

variable {R : α → α → Prop} {l l' l'' : List α}

theorem Grows.trans (hR : ∀ a b c, R a b → R b c → R a c) (h : l.Grows R l') (h' : l'.Grows R l'') :
    l.Grows R l'' := by
  intro i a ha
  obtain ⟨b, hb, hab⟩ := h i a ha
  obtain ⟨c, hc, hbc⟩ := h' i b hb
  exact ⟨c, hc, hR a b c hab hbc⟩

theorem grows_append (hrefl : ∀ a, R a a) (l new : List α) : l.Grows R (l ++ new) := by
  intro i a ha
  obtain ⟨hi, -⟩ := getElem?_eq_some_iff.mp ha
  refine ⟨a, ?_, hrefl a⟩
  rw [getElem?_append_left hi, ha]

theorem grows_updateFirst (hrefl : ∀ a, R a a) (hf : ∀ a, R a (f a))
    (hupdate : l.updateFirst p f = some l') : l.Grows R l' := by
  rw [updateFirst_eq_modify, Option.map_eq_some_iff] at hupdate
  obtain ⟨k, -, rfl⟩ := hupdate
  intro i a ha
  rw [getElem?_modify, ha]
  split
  · exact ⟨f a, rfl, hf a⟩
  · exact ⟨a, rfl, hrefl a⟩

/-- A query that does not see what `R` allows finds the element that it has found before. -/
theorem Grows.find? {a : α} (h : l.Grows R l') (hR : ∀ a b, R a b → p b = p a)
    (hfind : l.find? p = some a) : ∃ b, l'.find? p = some b ∧ R a b := by
  obtain ⟨ha, i, hi, rfl, hbefore⟩ := find?_eq_some_iff_getElem.mp hfind
  obtain ⟨b, hb, hab⟩ := h i l[i] (getElem?_eq_getElem hi)
  obtain ⟨hi', rfl⟩ := getElem?_eq_some_iff.mp hb
  refine ⟨l'[i], find?_eq_some_iff_getElem.mpr ⟨?_, i, hi', rfl, fun j hj => ?_⟩, hab⟩
  · rw [hR _ _ hab]
    exact ha
  · obtain ⟨c, hc, hjc⟩ := h j l[j] (getElem?_eq_getElem (Nat.lt_trans hj hi))
    obtain ⟨hj', rfl⟩ := getElem?_eq_some_iff.mp hc
    rw [hR _ _ hjc]
    exact hbefore j hj

end Grows

end List
