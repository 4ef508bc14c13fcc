import Mathlib.Data.List.Infix
import Mathlib.Logic.Function.Basic

/-!
# Critical sections

Objects in a list, each with a lock, and threads of which some are inside a critical section: such a
thread has locked one object and has a list of statements left that it runs on this object. Nothing
says that an object has a property while its lock is held. What carries over from step to step is that
it has the property once the holder has run its statements, and that is the property itself where no
thread holds the lock.
-/

namespace CriticalSection

variable {α σ θ : Type*} {holder : α → Option θ} {objects : List α} {inside : θ → Option (ℕ × List σ)}

theorem of_getElem?_modify {l : List α} {i j : ℕ} {f : α → α} {y : α}
    (h : (l.modify i f)[j]? = some y) : ∃ x, l[j]? = some x ∧ y = if i = j then f x else x := by
  rw [List.getElem?_modify, Option.map_eq_map, Option.map_eq_some_iff] at h
  obtain ⟨x, hx, rfl⟩ := h
  exact ⟨x, hx, rfl⟩

theorem getElem?_modify_of_some {l : List α} {i : ℕ} {x : α} (f : α → α) (hx : l[i]? = some x) :
    (l.modify i f)[i]? = some (f x) := by
  rw [List.getElem?_modify_eq, hx]
  rfl

theorem of_getElem?_concat {l : List α} {i : ℕ} {a y : α} (h : (l ++ [a])[i]? = some y) :
    l[i]? = some y ∨ y = a := by
  rw [List.getElem?_append] at h
  split at h
  · exact .inl h
  · rw [List.getElem?_singleton] at h
    split at h
    · exact .inr (Option.some.inj h).symm
    · cases h

/-- A thread holds the lock of an object exactly while it is inside a critical section on it. -/
structure Locked (holder : α → Option θ) (objects : List α) (inside : θ → Option (ℕ × List σ)) :
    Prop where
  inside_of_holder : ∀ i x t, objects[i]? = some x → holder x = some t →
    ∃ todo, inside t = some (i, todo)
  holder_of_inside : ∀ t i todo, inside t = some (i, todo) →
    ∃ x, objects[i]? = some x ∧ holder x = some t

/-- The statements that the holder of a lock has left. -/
def rest (inside : θ → Option (ℕ × List σ)) (h : Option θ) : List σ :=
  ((h.bind inside).map Prod.snd).getD []

@[simp] theorem rest_none : rest inside none = [] := rfl

theorem rest_some {t : θ} {i : ℕ} {todo : List σ} (ht : inside t = some (i, todo)) :
    rest inside (some t) = todo := by
  rw [rest, Option.bind_some, ht]
  rfl

/-- Every object has the property once the holder of its lock has run its statements. -/
def Settled (exec : α → σ → α) (holder : α → Option θ) (P : α → Prop) (objects : List α)
    (inside : θ → Option (ℕ × List σ)) : Prop :=
  ∀ (i : ℕ) x, objects[i]? = some x → P ((rest inside (holder x)).foldl exec x)

/-- The property holds of an object now and after each of the statements. -/
def Throughout (exec : α → σ → α) (P : α → Prop) (x : α) (todo : List σ) : Prop :=
  ∀ pre, pre <+: todo → P (pre.foldl exec x)

section Throughout

variable {exec : α → σ → α} {P : α → Prop} {x : α} {stmt : σ} {todo : List σ}

theorem throughout_nil : Throughout exec P x [] ↔ P x := by
  constructor
  · intro h
    exact h [] (List.prefix_refl _)
  · intro h pre hpre
    rw [List.prefix_nil.mp hpre]
    exact h

theorem throughout_cons :
    Throughout exec P x (stmt :: todo) ↔ P x ∧ Throughout exec P (exec x stmt) todo := by
  constructor
  · intro h
    exact ⟨h [] List.nil_prefix, fun pre hpre => h (stmt :: pre) (List.cons_prefix_cons.mpr ⟨rfl, hpre⟩)⟩
  · rintro ⟨hx, hrest⟩ pre hpre
    cases pre with
    | nil => exact hx
    | cons first pre =>
        obtain ⟨rfl, htail⟩ := List.cons_prefix_cons.mp hpre
        exact hrest pre htail

theorem Throughout.now (h : Throughout exec P x todo) : P x := h [] List.nil_prefix

end Throughout

namespace Locked

variable (h : Locked holder objects inside)
include h

theorem congr {objects' : List α}
    (hsame : ∀ i : ℕ, objects'[i]?.map holder = objects[i]?.map holder) :
    Locked holder objects' inside where
  inside_of_holder i y t hy hholder := by
    have hmap := hsame i
    rw [hy, Option.map_some, hholder, eq_comm, Option.map_eq_some_iff] at hmap
    obtain ⟨x, hx, hxt⟩ := hmap
    exact h.inside_of_holder i x t hx hxt
  holder_of_inside t i todo ht := by
    obtain ⟨x, hx, hxt⟩ := h.holder_of_inside t i todo ht
    have hmap := hsame i
    rw [hx, Option.map_some, hxt, Option.map_eq_some_iff] at hmap
    exact hmap

theorem map {f : α → α} (hf : ∀ x, holder (f x) = holder x) : Locked holder (objects.map f) inside := by
  apply h.congr
  intro i
  rw [List.getElem?_map, Option.map_map]
  exact congrArg (fun g => objects[i]?.map g) (funext hf)

theorem modify {f : α → α} (i : ℕ) (hf : ∀ x, holder (f x) = holder x) :
    Locked holder (objects.modify i f) inside := by
  apply h.congr
  intro j
  by_cases hij : i = j
  · subst hij
    rw [List.getElem?_modify_eq, Option.map_eq_map, Option.map_map]
    exact congrArg (fun g => objects[i]?.map g) (funext hf)
  · rw [List.getElem?_modify_ne f objects hij]

theorem concat {x : α} (hx : holder x = none) : Locked holder (objects ++ [x]) inside where
  inside_of_holder i y t hy hholder := by
    rcases of_getElem?_concat hy with hold | rfl
    · exact h.inside_of_holder i y t hold hholder
    · rw [hx] at hholder
      cases hholder
  holder_of_inside t i todo ht := by
    obtain ⟨y, hy, hyt⟩ := h.holder_of_inside t i todo ht
    refine ⟨y, ?_, hyt⟩
    rwa [List.getElem?_append_left (List.getElem?_eq_some_iff.mp hy).1]

theorem eq_of_holder {i j : ℕ} {x : α} {t : θ} {todo : List σ} (ht : inside t = some (i, todo))
    (hx : objects[j]? = some x) (hholder : holder x = some t) : j = i := by
  obtain ⟨todo', ht'⟩ := h.inside_of_holder j x t hx hholder
  rw [ht] at ht'
  cases ht'
  rfl

theorem holder_eq {i : ℕ} {x : α} {t : θ} {todo : List σ} (ht : inside t = some (i, todo))
    (hx : objects[i]? = some x) : holder x = some t := by
  obtain ⟨y, hy, hyt⟩ := h.holder_of_inside t i todo ht
  rw [hx] at hy
  cases hy
  exact hyt

theorem holder_ne {i j : ℕ} {x : α} {t : θ} {todo : List σ} (ht : inside t = some (i, todo))
    (hij : i ≠ j) (hx : objects[j]? = some x) : holder x ≠ some t :=
  fun hholder => hij (h.eq_of_holder ht hx hholder).symm

theorem holder_ne_of_outside {j : ℕ} {x : α} {t : θ} (ht : inside t = none)
    (hx : objects[j]? = some x) : holder x ≠ some t := by
  intro hholder
  obtain ⟨todo, ht'⟩ := h.inside_of_holder j x t hx hholder
  rw [ht] at ht'
  cases ht'

variable [DecidableEq θ]

theorem advance {t : θ} {i : ℕ} {todo todo' : List σ} (ht : inside t = some (i, todo)) :
    Locked holder objects (Function.update inside t (some (i, todo'))) where
  inside_of_holder j x u hx hholder := by
    by_cases hut : u = t
    · subst hut
      rw [h.eq_of_holder ht hx hholder, Function.update_self]
      exact ⟨todo', rfl⟩
    · rw [Function.update_of_ne hut]
      exact h.inside_of_holder j x u hx hholder
  holder_of_inside u j left hu := by
    by_cases hut : u = t
    · subst hut
      rw [Function.update_self] at hu
      cases hu
      exact h.holder_of_inside u i todo ht
    · rw [Function.update_of_ne hut] at hu
      exact h.holder_of_inside u j left hu

theorem lock {t : θ} {i : ℕ} {x : α} {f : α → α} {todo : List σ} (hx : objects[i]? = some x)
    (hfree : holder x = none) (ht : inside t = none) (hf : holder (f x) = some t) :
    Locked holder (objects.modify i f) (Function.update inside t (some (i, todo))) where
  inside_of_holder j y u hy hholder := by
    obtain ⟨z, hz, rfl⟩ := of_getElem?_modify hy
    by_cases hij : i = j
    · subst hij
      rw [hx] at hz
      cases hz
      rw [if_pos rfl, hf] at hholder
      cases hholder
      exact ⟨todo, Function.update_self ..⟩
    · rw [if_neg hij] at hholder
      obtain ⟨left, hu⟩ := h.inside_of_holder j z u hz hholder
      have hut : u ≠ t := fun heq => h.holder_ne_of_outside ht hz (heq ▸ hholder)
      exact ⟨left, by rw [Function.update_of_ne hut, hu]⟩
  holder_of_inside u j left hu := by
    by_cases hut : u = t
    · subst hut
      rw [Function.update_self] at hu
      cases hu
      exact ⟨f x, getElem?_modify_of_some f hx, hf⟩
    · rw [Function.update_of_ne hut] at hu
      obtain ⟨y, hy, hyu⟩ := h.holder_of_inside u j left hu
      have hij : i ≠ j := by
        intro heq
        subst heq
        rw [hx] at hy
        cases hy
        rw [hfree] at hyu
        cases hyu
      exact ⟨y, by rw [List.getElem?_modify_ne f objects hij, hy], hyu⟩

theorem unlock {t : θ} {i : ℕ} {f : α → α} {todo : List σ} (ht : inside t = some (i, todo))
    (hf : ∀ x, holder (f x) = none) :
    Locked holder (objects.modify i f) (Function.update inside t none) where
  inside_of_holder j y u hy hholder := by
    obtain ⟨x, hx, rfl⟩ := of_getElem?_modify hy
    by_cases hij : i = j
    · rw [if_pos hij, hf] at hholder
      cases hholder
    · rw [if_neg hij] at hholder
      have hut : u ≠ t := fun heq => h.holder_ne ht hij hx (heq ▸ hholder)
      rw [Function.update_of_ne hut]
      exact h.inside_of_holder j x u hx hholder
  holder_of_inside u j left hu := by
    by_cases hut : u = t
    · subst hut
      rw [Function.update_self] at hu
      cases hu
    · rw [Function.update_of_ne hut] at hu
      obtain ⟨x, hx, hxu⟩ := h.holder_of_inside u j left hu
      have hij : i ≠ j := by
        intro heq
        subst heq
        rw [h.holder_eq ht hx] at hxu
        exact hut (Option.some.inj hxu).symm
      exact ⟨x, by rw [List.getElem?_modify_ne f objects hij, hx], hxu⟩

end Locked

/-! ### What holds once the critical sections are over -/

theorem rest_update_of_ne [DecidableEq θ] {t : θ} {v : Option (ℕ × List σ)} {h : Option θ}
    (hne : h ≠ some t) : rest (Function.update inside t v) h = rest inside h := by
  cases h with
  | none => rfl
  | some u =>
      have hut : u ≠ t := fun heq => hne (congrArg some heq)
      rw [rest, rest, Option.bind_some, Option.bind_some, Function.update_of_ne hut]

namespace Settled

variable {exec : α → σ → α} {P : α → Prop} (h : Settled exec holder P objects inside)
include h

theorem of_free {i : ℕ} {x : α} (hx : objects[i]? = some x) (hfree : holder x = none) : P x := by
  have hP := h i x hx
  rwa [hfree] at hP

theorem concat {x : α} (hx : holder x = none) (hP : P x) :
    Settled exec holder P (objects ++ [x]) inside := by
  intro i y hy
  rcases of_getElem?_concat hy with hold | rfl
  · exact h i y hold
  · rwa [hx]

theorem map {f : α → α} (hf : ∀ x, holder (f x) = holder x)
    (hkeep : ∀ x ∈ objects, P ((rest inside (holder x)).foldl exec x) →
      P ((rest inside (holder x)).foldl exec (f x))) :
    Settled exec holder P (objects.map f) inside := by
  intro i y hy
  rw [List.getElem?_map, Option.map_eq_some_iff] at hy
  obtain ⟨x, hx, rfl⟩ := hy
  rw [hf]
  exact hkeep x (List.mem_of_getElem? hx) (h i x hx)

theorem modify {f : α → α} {i : ℕ} (hf : ∀ x, holder (f x) = holder x)
    (hkeep : ∀ x, objects[i]? = some x → P ((rest inside (holder x)).foldl exec x) →
      P ((rest inside (holder x)).foldl exec (f x))) :
    Settled exec holder P (objects.modify i f) inside := by
  intro j y hy
  obtain ⟨x, hx, rfl⟩ := of_getElem?_modify hy
  by_cases hij : i = j
  · subst hij
    rw [if_pos rfl, hf]
    exact hkeep x hx (h i x hx)
  · rw [if_neg hij]
    exact h j x hx

variable [DecidableEq θ] (hlocked : Locked holder objects inside)
include hlocked

theorem stmt_run {t : θ} {i : ℕ} {stmt : σ} {todo : List σ} (ht : inside t = some (i, stmt :: todo))
    (hexec : ∀ x, holder (exec x stmt) = holder x) :
    Settled exec holder P (objects.modify i (exec · stmt))
      (Function.update inside t (some (i, todo))) := by
  intro j y hy
  obtain ⟨x, hx, rfl⟩ := of_getElem?_modify hy
  by_cases hij : i = j
  · subst hij
    have hP := h i x hx
    rw [hlocked.holder_eq ht hx, rest_some ht] at hP
    rw [if_pos rfl, hexec, hlocked.holder_eq ht hx, rest_some (Function.update_self ..)]
    exact hP
  · rw [if_neg hij, rest_update_of_ne (hlocked.holder_ne ht hij hx)]
    exact h j x hx

theorem lock {t : θ} {i : ℕ} {x : α} {f : α → α} {todo : List σ} (hx : objects[i]? = some x)
    (ht : inside t = none) (hf : holder (f x) = some t) (hP : P (todo.foldl exec (f x))) :
    Settled exec holder P (objects.modify i f) (Function.update inside t (some (i, todo))) := by
  intro j y hy
  obtain ⟨z, hz, rfl⟩ := of_getElem?_modify hy
  by_cases hij : i = j
  · subst hij
    rw [hx] at hz
    cases hz
    rwa [if_pos rfl, hf, rest_some (Function.update_self ..)]
  · rw [if_neg hij, rest_update_of_ne (hlocked.holder_ne_of_outside ht hz)]
    exact h j z hz

theorem unlock {t : θ} {i : ℕ} {f : α → α} (ht : inside t = some (i, []))
    (hf : ∀ x, holder (f x) = none) (hP : ∀ x, P x → P (f x)) :
    Settled exec holder P (objects.modify i f) (Function.update inside t none) := by
  intro j y hy
  obtain ⟨x, hx, rfl⟩ := of_getElem?_modify hy
  by_cases hij : i = j
  · subst hij
    have hx' := h i x hx
    rw [hlocked.holder_eq ht hx, rest_some ht] at hx'
    rw [if_pos rfl, hf]
    exact hP x hx'
  · rw [if_neg hij, rest_update_of_ne (hlocked.holder_ne ht hij hx)]
    exact h j x hx

end Settled

end CriticalSection
