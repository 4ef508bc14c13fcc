import Mathlib.Data.List.Nodup

/-!
# Condition variables

A condition variable is the list of the threads that are blocked on it. A wait appends the thread, and
a signal takes out one thread of the scheduler's choice and is lost if there is none. A thread that is
in its wait and no longer in the list has been signalled, and runs on when it gets the mutex again.
-/

namespace CondVar

variable {θ : Type*} [DecidableEq θ]

/-- `signal blocked woken` is what a signal leaves blocked when it wakes `woken`. -/
def signal (blocked : List θ) : Option θ → Option (List θ)
  | some t => if t ∈ blocked then some (blocked.erase t) else none
  | none => if blocked = [] then some [] else none

theorem signal_some {blocked left : List θ} {t : θ} (h : signal blocked (some t) = some left) :
    t ∈ blocked ∧ left = blocked.erase t := by
  rw [signal, Option.ite_none_right_eq_some] at h
  exact ⟨h.1, (Option.some.inj h.2).symm⟩

theorem signal_none {blocked left : List θ} (h : signal blocked none = some left) :
    blocked = [] ∧ left = [] := by
  rw [signal, Option.ite_none_right_eq_some] at h
  exact ⟨h.1, (Option.some.inj h.2).symm⟩

theorem signal_sublist {blocked left : List θ} {woken : Option θ}
    (h : signal blocked woken = some left) : left.Sublist blocked := by
  cases woken with
  | some t =>
      rw [(signal_some h).2]
      exact List.erase_sublist
  | none =>
      rw [(signal_none h).2]
      exact List.nil_sublist _

/-- A signal on a condition variable with a blocked thread wakes one of them. -/
theorem exists_woken {blocked left : List θ} {woken : Option θ}
    (h : signal blocked woken = some left) (hnodup : blocked.Nodup) (hblocked : blocked ≠ []) :
    ∃ t ∈ blocked, t ∉ left := by
  cases woken with
  | some t =>
      obtain ⟨hmem, rfl⟩ := signal_some h
      exact ⟨t, hmem, hnodup.not_mem_erase⟩
  | none => exact absurd (signal_none h).1 hblocked

end CondVar
