import Dsm.Library.FirstMatch
import Mathlib.Data.Finset.Card
import Mathlib.Data.Finset.Dedup

/-!
# Tables that are filled by key

A table of bounded size takes records one after the other: a record whose key is there updates the
entry with that key, and any other record becomes a further entry as long as there is room. No entry
moves and none is taken out, so the keys stay distinct, and an entry shows nothing but what it was and
the latest record for its key (`getElem?_putAll_of_getElem?`, `eq_create_of_getElem?_putAll`).
-/

/-- How entries `α` of a table are made and updated from records `β`, by keys `κ`. -/
structure Upsert (α β κ : Type*) where
  key : α → κ
  keyOf : β → κ
  update : α → β → α
  create : β → α
  capacity : ℕ
  key_update : ∀ a b, key (update a b) = key a
  key_create : ∀ b, key (create b) = keyOf b

namespace Upsert

variable {α β κ : Type*} (U : Upsert α β κ)

def keys (l : List α) : List κ := l.map U.key

/-- The record that reaches an entry later leaves nothing of the one before. -/
structure Overwrites : Prop where
  update_update : ∀ a b c, U.keyOf b = U.keyOf c → U.update (U.update a b) c = U.update a c
  update_create : ∀ b c, U.keyOf b = U.keyOf c → U.update (U.create b) c = U.create c

variable [DecidableEq κ]

def put (l : List α) (b : β) : List α :=
  match l.findIdx? (U.key · == U.keyOf b) with
  | some i => l.modify i (U.update · b)
  | none => if l.length < U.capacity then l ++ [U.create b] else l

def putAll (l : List α) (bs : List β) : List α := bs.foldl U.put l

/-- The last of the records for a key. -/
def latest (bs : List β) (k : κ) : Option β := bs.reverse.find? (U.keyOf · == k)

variable {U}

/-- A record updates the entry with its key, becomes a further entry, or finds the table full. -/
theorem put_cases (U : Upsert α β κ) (l : List α) (b : β) :
    (∃ i a, l[i]? = some a ∧ U.key a = U.keyOf b ∧ U.put l b = l.modify i (U.update · b)) ∨
    (U.keyOf b ∉ U.keys l ∧ l.length < U.capacity ∧ U.put l b = l ++ [U.create b]) ∨
    (U.keyOf b ∉ U.keys l ∧ U.capacity ≤ l.length ∧ U.put l b = l) := by
  rw [put]
  cases hfind : l.findIdx? (U.key · == U.keyOf b) with
  | some i =>
      obtain ⟨hi, hkey, -⟩ := List.findIdx?_eq_some_iff_getElem.mp hfind
      exact .inl ⟨i, l[i], List.getElem?_eq_getElem hi, beq_iff_eq.mp hkey, rfl⟩
  | none =>
      have hnew : U.keyOf b ∉ U.keys l := by
        intro hmem
        obtain ⟨a, ha, hkey⟩ := List.mem_map.mp hmem
        have hnot := List.findIdx?_eq_none_iff.mp hfind a ha
        rw [hkey, beq_self_eq_true] at hnot
        cases hnot
      by_cases hroom : l.length < U.capacity
      · exact .inr (.inl ⟨hnew, hroom, if_pos hroom⟩)
      · exact .inr (.inr ⟨hnew, Nat.le_of_not_lt hroom, if_neg hroom⟩)

theorem mem_put {l : List α} {b : β} {c : α} (hc : c ∈ U.put l b) :
    c ∈ l ∨ (∃ a ∈ l, c = U.update a b) ∨ c = U.create b := by
  rcases put_cases U l b with ⟨i, a, hi, -, hput⟩ | ⟨-, -, hput⟩ | ⟨-, -, hput⟩
  · obtain ⟨j, hj⟩ := List.mem_iff_getElem?.mp (hput ▸ hc)
    rw [List.getElem?_modify, Option.map_eq_map, Option.map_eq_some_iff] at hj
    obtain ⟨d, hd, hcd⟩ := hj
    have hmem := List.mem_of_getElem? hd
    split_ifs at hcd with hij
    · exact .inr (.inl ⟨d, hmem, hcd.symm⟩)
    · exact .inl (hcd ▸ hmem)
  · rcases List.mem_append.mp (hput ▸ hc) with hold | hnew
    · exact .inl hold
    · exact .inr (.inr (List.mem_singleton.mp hnew))
  · exact .inl (hput ▸ hc)

/-! ### Keys -/

omit [DecidableEq κ] in
theorem keys_modify (l : List α) (i : ℕ) (b : β) : U.keys (l.modify i (U.update · b)) = U.keys l := by
  rw [keys, List.map_modify_comm (h := id) fun a => U.key_update a b, List.modify_id, keys]

theorem keys_put (U : Upsert α β κ) (l : List α) (b : β) :
    U.keys (U.put l b) = U.keys l ∨
      U.keyOf b ∉ U.keys l ∧ U.keys (U.put l b) = U.keys l ++ [U.keyOf b] := by
  rcases put_cases U l b with ⟨i, a, -, -, hput⟩ | ⟨hnew, -, hput⟩ | ⟨-, -, hput⟩
  · rw [hput, keys_modify]
    exact .inl rfl
  · rw [hput, keys, List.map_append, List.map_singleton, U.key_create]
    exact .inr ⟨hnew, rfl⟩
  · rw [hput]
    exact .inl rfl

theorem nodup_keys_put {l : List α} (hnodup : (U.keys l).Nodup) (b : β) :
    (U.keys (U.put l b)).Nodup := by
  rcases keys_put U l b with hkeys | ⟨hnew, hkeys⟩
  · rw [hkeys]
    exact hnodup
  · rw [hkeys]
    rw [← List.concat_eq_append]
    exact hnodup.concat hnew

theorem nodup_keys_putAll {l : List α} (hnodup : (U.keys l).Nodup) (bs : List β) :
    (U.keys (U.putAll l bs)).Nodup := by
  induction bs generalizing l with
  | nil => exact hnodup
  | cons b bs ih => exact ih (nodup_keys_put hnodup b)

theorem length_put_le {l : List α} (hsize : l.length ≤ U.capacity) (b : β) :
    (U.put l b).length ≤ U.capacity := by
  rcases put_cases U l b with ⟨i, a, -, -, hput⟩ | ⟨-, hroom, hput⟩ | ⟨-, -, hput⟩
  · rw [hput, List.length_modify]
    exact hsize
  · rw [hput, List.length_append]
    exact hroom
  · rw [hput]
    exact hsize

theorem length_putAll_le {l : List α} (hsize : l.length ≤ U.capacity) (bs : List β) :
    (U.putAll l bs).length ≤ U.capacity := by
  induction bs generalizing l with
  | nil => exact hsize
  | cons b bs ih => exact ih (length_put_le hsize b)

theorem mem_keys_put {l : List α} {b : β} (hroom : U.keyOf b ∉ U.keys l → l.length < U.capacity)
    {k : κ} : k ∈ U.keys (U.put l b) ↔ k ∈ U.keys l ∨ k = U.keyOf b := by
  rcases put_cases U l b with ⟨i, a, hi, hkey, hput⟩ | ⟨-, -, hput⟩ | ⟨hnew, hfull, -⟩
  · have hmem : U.keyOf b ∈ U.keys l := hkey ▸ List.mem_map_of_mem (List.mem_of_getElem? hi)
    rw [hput, keys_modify]
    constructor
    · exact .inl
    · rintro (hk | rfl)
      · exact hk
      · exact hmem
  · rw [hput, keys, List.map_append, List.map_singleton, U.key_create, List.mem_append,
      List.mem_singleton, keys]
  · exact absurd (hroom hnew) (Nat.not_lt.mpr hfull)

/-- Where there is room for all keys together, they are all in the table afterwards. -/
theorem mem_keys_putAll {l : List α} {bs : List β} (hnodup : (U.keys l).Nodup)
    (hroom : (U.keys l ++ bs.map U.keyOf).toFinset.card ≤ U.capacity) {k : κ} :
    k ∈ U.keys (U.putAll l bs) ↔ k ∈ U.keys l ∨ k ∈ bs.map U.keyOf := by
  induction bs generalizing l with
  | nil => simp [putAll]
  | cons b bs ih =>
      have hfirst : U.keyOf b ∉ U.keys l → l.length < U.capacity := by
        intro hnew
        have hsub : (U.keyOf b :: U.keys l).toFinset ⊆
            (U.keys l ++ (b :: bs).map U.keyOf).toFinset := by
          intro j hj
          rw [List.mem_toFinset, List.mem_cons] at hj
          rw [List.mem_toFinset, List.mem_append, List.map_cons, List.mem_cons]
          exact hj.elim (fun hb => .inr (.inl hb)) .inl
        have hcard := (Finset.card_le_card hsub).trans hroom
        rw [List.toFinset_card_of_nodup (List.nodup_cons.mpr ⟨hnew, hnodup⟩), List.length_cons, keys,
          List.length_map] at hcard
        exact hcard
      have hkeys : ∀ j, j ∈ U.keys (U.put l b) ↔ j ∈ U.keys l ∨ j = U.keyOf b :=
        fun j => mem_keys_put hfirst
      have hsame : (U.keys (U.put l b) ++ bs.map U.keyOf).toFinset =
          (U.keys l ++ (b :: bs).map U.keyOf).toFinset := by
        ext j
        rw [List.mem_toFinset, List.mem_toFinset, List.mem_append, List.mem_append, hkeys,
          List.map_cons, List.mem_cons, or_assoc]
      have hrest := ih (nodup_keys_put hnodup b) (hsame ▸ hroom)
      rw [putAll, List.foldl_cons]
      rw [putAll] at hrest
      rw [hrest, hkeys, List.map_cons, List.mem_cons, or_assoc]

/-! ### Entries -/

@[simp] theorem latest_nil (k : κ) : U.latest [] k = none := rfl

theorem latest_concat (bs : List β) (b : β) (k : κ) :
    U.latest (bs ++ [b]) k = if U.keyOf b = k then some b else U.latest bs k := by
  rw [latest, List.reverse_concat, List.find?_cons]
  by_cases hk : U.keyOf b = k
  · rw [beq_iff_eq.mpr hk, if_pos hk]
  · rw [beq_eq_false_iff_ne.mpr hk, if_neg hk]
    rfl

theorem keyOf_latest {bs : List β} {k : κ} {b : β} (hlatest : U.latest bs k = some b) :
    b ∈ bs ∧ U.keyOf b = k := by
  refine ⟨List.mem_reverse.mp (List.mem_of_find?_eq_some hlatest), ?_⟩
  have hkey := List.find?_some hlatest
  exact beq_iff_eq.mp hkey

theorem latest_of_nodup {bs : List β} (hnodup : (bs.map U.keyOf).Nodup) {b : β} (hb : b ∈ bs) :
    U.latest bs (U.keyOf b) = some b := by
  have hdistinct : bs.reverse.Pairwise fun c d => U.keyOf d ≠ U.keyOf c :=
    List.pairwise_reverse.mpr (List.pairwise_map.mp hnodup)
  refine (List.find?_eq_some_iff_of_pairwise ?_).mpr ⟨List.mem_reverse.mpr hb, beq_self_eq_true _⟩
  refine hdistinct.imp fun {c d} hne hc => beq_eq_false_iff_ne.mpr fun hd => ?_
  exact hne (hd.trans (beq_iff_eq.mp hc).symm)

theorem getElem?_put {l : List α} (hnodup : (U.keys l).Nodup) {i : ℕ} {a : α} (hi : l[i]? = some a)
    (b : β) : (U.put l b)[i]? = some (if U.keyOf b = U.key a then U.update a b else a) := by
  have hlt : i < l.length := (List.getElem?_eq_some_iff.mp hi).1
  rcases put_cases U l b with ⟨j, c, hj, hkey, hput⟩ | ⟨hnew, -, hput⟩ | ⟨hnew, -, hput⟩
  · rw [hput, List.getElem?_modify, hi, Option.map_eq_map, Option.map_some]
    by_cases hji : j = i
    · subst hji
      obtain rfl : c = a := Option.some.inj (hj.symm.trans hi)
      rw [if_pos rfl, if_pos hkey.symm]
    · have hne : U.keyOf b ≠ U.key a := by
        rw [← hkey]
        intro heq
        have hjlt : j < (U.keys l).length := by
          rw [keys, List.length_map]
          exact (List.getElem?_eq_some_iff.mp hj).1
        have hplace : (U.keys l)[j]? = (U.keys l)[i]? := by
          rw [keys, List.getElem?_map, List.getElem?_map, hj, hi, Option.map_some, Option.map_some, heq]
        exact hji ((List.getElem?_inj hjlt hnodup).mp hplace)
      rw [if_neg hji, if_neg hne]
  all_goals
    have hne : U.keyOf b ≠ U.key a :=
      fun heq => hnew (heq ▸ List.mem_map_of_mem (List.mem_of_getElem? hi))
    rw [if_neg hne, hput]
  · rw [List.getElem?_append_left hlt, hi]
  · exact hi

theorem putAll_concat (l : List α) (bs : List β) (b : β) :
    U.putAll l (bs ++ [b]) = U.put (U.putAll l bs) b := List.foldl_concat ..

/-- An entry of the table is afterwards what the latest record for its key makes of it. -/
theorem getElem?_putAll_of_getElem? (hU : U.Overwrites) {l : List α} (hnodup : (U.keys l).Nodup)
    {i : ℕ} {a : α} (hi : l[i]? = some a) (bs : List β) :
    (U.putAll l bs)[i]? = some (((U.latest bs (U.key a)).map (U.update a)).getD a) := by
  induction bs using List.reverseRecOn with
  | nil => exact hi
  | append_singleton bs b ih =>
      rw [putAll_concat, getElem?_put (nodup_keys_putAll hnodup bs) ih, latest_concat]
      cases hlatest : U.latest bs (U.key a) with
      | none =>
          rw [Option.map_none, Option.getD_none]
          by_cases hb : U.keyOf b = U.key a
          · rw [if_pos hb, if_pos hb]
            rfl
          · rw [if_neg hb, if_neg hb]
            rfl
      | some c =>
          rw [Option.map_some, Option.getD_some, U.key_update]
          by_cases hb : U.keyOf b = U.key a
          · have hc : U.keyOf c = U.keyOf b := (keyOf_latest hlatest).2.trans hb.symm
            rw [if_pos hb, if_pos hb, hU.update_update a c b hc]
            rfl
          · rw [if_neg hb, if_neg hb]
            rfl

/-- An entry that was not in the table before is afterwards what the latest record for its key makes
of nothing. -/
theorem eq_create_of_getElem?_putAll (hU : U.Overwrites) {l : List α} (hnodup : (U.keys l).Nodup)
    {bs : List β} {i : ℕ} {a : α} (hnew : l.length ≤ i) (hi : (U.putAll l bs)[i]? = some a) :
    ∃ b, U.latest bs (U.key a) = some b ∧ a = U.create b := by
  induction bs using List.reverseRecOn generalizing a with
  | nil =>
      rw [putAll, List.foldl_nil, List.getElem?_eq_none hnew] at hi
      cases hi
  | append_singleton bs b ih =>
      rw [putAll_concat] at hi
      cases hbefore : (U.putAll l bs)[i]? with
      | some c =>
          obtain ⟨d, hlatest, rfl⟩ := ih hbefore
          rw [getElem?_put (nodup_keys_putAll hnodup bs) hbefore, Option.some.injEq] at hi
          subst hi
          have hd : U.keyOf d = U.key (U.create d) := (U.key_create d).symm
          by_cases hb : U.keyOf b = U.key (U.create d)
          · refine ⟨b, ?_, ?_⟩
            · rw [if_pos hb, U.key_update, latest_concat, if_pos hb]
            · rw [if_pos hb, hU.update_create d b (hd.trans hb.symm)]
          · refine ⟨d, ?_, if_neg hb⟩
            rw [if_neg hb, latest_concat, if_neg hb, hlatest]
      | none =>
          rcases put_cases U (U.putAll l bs) b with ⟨j, c, -, -, hput⟩ | ⟨-, -, hput⟩ | ⟨-, -, hput⟩
          · rw [hput, List.getElem?_modify, hbefore] at hi
            cases hi
          · rw [hput, List.getElem?_append_right (List.getElem?_eq_none_iff.mp hbefore)] at hi
            have hmem := List.mem_of_getElem? hi
            rw [List.mem_singleton] at hmem
            subst hmem
            exact ⟨b, by rw [latest_concat, U.key_create, if_pos rfl], rfl⟩
          · rw [hput, hbefore] at hi
            cases hi

/-- What an entry is after the records: what it was, that with the latest record for its key, or the
latest record alone. -/
theorem getElem?_putAll_cases (hU : U.Overwrites) {l : List α} (hnodup : (U.keys l).Nodup)
    {bs : List β} {i : ℕ} {c : α} (hi : (U.putAll l bs)[i]? = some c) :
    (l[i]? = some c ∧ U.latest bs (U.key c) = none) ∨
    (∃ a b, l[i]? = some a ∧ U.latest bs (U.key a) = some b ∧ c = U.update a b) ∨
    (l[i]? = none ∧ ∃ b, U.latest bs (U.key c) = some b ∧ c = U.create b) := by
  cases hold : l[i]? with
  | none => exact .inr (.inr ⟨rfl, eq_create_of_getElem?_putAll hU hnodup
      (List.getElem?_eq_none_iff.mp hold) hi⟩)
  | some a =>
      rw [getElem?_putAll_of_getElem? hU hnodup hold, Option.some.injEq] at hi
      cases hlatest : U.latest bs (U.key a) with
      | none =>
          rw [hlatest] at hi
          obtain rfl : a = c := hi
          exact .inl ⟨rfl, hlatest⟩
      | some b =>
          rw [hlatest] at hi
          exact .inr (.inl ⟨a, b, rfl, hlatest, hi.symm⟩)

end Upsert
