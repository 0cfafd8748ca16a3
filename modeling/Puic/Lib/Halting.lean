/-
  Iterations that may go on forever.

  A loop is a function that is iterated; it halts when a state is reached that counts as done.
  Every step either lowers a measure or is idle.  So a loop that never halts is idle from some step
  on.
-/
import Mathlib.Logic.Function.Iterate
import Mathlib.Algebra.Order.Ring.Nat

namespace Halting

variable {α : Type*} {f : α → α} {P : α → Prop}

theorem iterate_inv (hstep : ∀ a, P a → P (f a)) {a : α} (ha : P a) (k : ℕ) : P (f^[k] a) := by
  induction k with
  | zero => exact ha
  | succ k ih =>
    rw [Function.iterate_succ_apply']
    exact hstep _ ih

/-- Two properties that persist and exclude each other are not met in one run. -/
theorem not_both {Q : α → Prop} (hP : ∀ a, P a → P (f a)) (hQ : ∀ a, Q a → Q (f a))
    (hne : ∀ a, P a → ¬Q a) {a : α} {k m : ℕ}
    (hk : P (f^[k] a)) : ¬Q (f^[m] a) := by
  intro hm
  rcases Nat.le_total k m with hle | hle
  · obtain ⟨j, rfl⟩ := Nat.exists_eq_add_of_le' hle
    rw [Function.iterate_add_apply] at hm
    exact hne _ (iterate_inv hP hk j) hm
  · obtain ⟨j, rfl⟩ := Nat.exists_eq_add_of_le' hle
    rw [Function.iterate_add_apply] at hk
    exact hne _ hk (iterate_inv hQ hm j)

section Progress

variable (done idle : α → Prop) (measure : α → ℕ) (hP : ∀ a, P a → ¬done a → P (f a))
  (hstep : ∀ a, P a → ¬done a → measure (f a) < measure a ∨ idle a ∧ measure (f a) ≤ measure a)
include hP hstep

theorem measure_le {a : α} (ha : P a) (hnever : ∀ k, ¬done (f^[k] a)) (k : ℕ) :
    P (f^[k] a) ∧ measure (f^[k] a) ≤ measure a := by
  induction k with
  | zero => exact ⟨ha, le_rfl⟩
  | succ k ih =>
    obtain ⟨hk, hle⟩ := ih
    rw [Function.iterate_succ_apply']
    refine ⟨hP _ hk (hnever k), ?_⟩
    rcases hstep _ hk (hnever k) with hlt | ⟨-, hle'⟩
    · exact (hlt.trans_le hle).le
    · exact hle'.trans hle

theorem exists_idle {a : α} (ha : P a) (hnever : ∀ k, ¬done (f^[k] a)) :
    ∃ n, P (f^[n] a) ∧ ∀ k, idle (f^[k] (f^[n] a)) := by
  induction hm : measure a using Nat.strong_induction_on generalizing a with
  | _ m ih =>
    by_cases hall : ∀ k, idle (f^[k] a)
    · exact ⟨0, ha, hall⟩
    obtain ⟨k, hk⟩ := not_forall.1 hall
    obtain ⟨hPk, hle⟩ := measure_le done idle measure hP hstep ha hnever k
    have hlt : measure (f^[k + 1] a) < m := by
      rw [Function.iterate_succ_apply']
      rcases hstep _ hPk (hnever k) with hlt | ⟨hidle, -⟩
      · exact hm ▸ hlt.trans_le hle
      · exact absurd hidle hk
    obtain ⟨n, hn, hidle⟩ := ih _ hlt (measure_le done idle measure hP hstep ha hnever (k + 1)).1
      (fun j => by rw [← Function.iterate_add_apply]; exact hnever _) rfl
    refine ⟨n + (k + 1), ?_, fun j => ?_⟩
    · rw [Function.iterate_add_apply]
      exact hn
    · rw [Function.iterate_add_apply f n]
      exact hidle j

end Progress

end Halting
