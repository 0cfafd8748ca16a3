/-
  Runs of a machine whose actions may be disabled, and what holds along them.

  A machine is a function `step : S → A → Option S`; `none` says that the action
  cannot happen in that state.  `run` performs a list of actions, and `Along C`
  says that every action of the list is performed in a state where `C` allows it.
  The rules below turn a lemma about one step into one about a whole run.
-/
import Mathlib.Data.List.Basic
import Mathlib.Data.Option.Basic
import Mathlib.Order.RelClasses

namespace Machine

universe u v w
variable {S : Type u} {A : Type v} (step : S → A → Option S)

/-- The state after the actions `as`, if each of them was enabled. -/
def run : S → List A → Option S
  | s, [] => some s
  | s, a :: as => (step s a).bind fun s' => run s' as

/-- Every action of the run is performed in a state where `C` allows it. -/
def Along (C : S → A → Prop) : S → List A → Prop
  | _, [] => True
  | s, a :: as => C s a ∧ ∀ s', step s a = some s' → Along C s' as

variable {step}

@[simp] theorem run_nil (s : S) : run step s [] = some s := rfl

variable {s t : S} {a : A} {as : List A} {C : S → A → Prop} {I : S → Prop}

theorem run_cons :
    run step s (a :: as) = some t ↔ ∃ s', step s a = some s' ∧ run step s' as = some t := by
  simp only [run, Option.bind_eq_some_iff]

theorem run_append {bs : List A} :
    run step s (as ++ bs) = some t ↔ ∃ u, run step s as = some u ∧ run step u bs = some t := by
  induction as generalizing s with
  | nil => simp
  | cons a as ih =>
    simp only [List.cons_append, run_cons, ih]
    constructor
    · rintro ⟨s', h, u, hu, ht⟩; exact ⟨u, ⟨s', h, hu⟩, ht⟩
    · rintro ⟨u, ⟨s', h, hu⟩, ht⟩; exact ⟨s', h, u, hu, ht⟩

/-- The condition is only asked of the actions that are really performed. -/
theorem along_cons {s' : S} (h : step s a = some s') :
    Along step C s (a :: as) ↔ C s a ∧ Along step C s' as := by
  refine and_congr_right fun _ => ⟨fun hall => hall s' h, fun hs t ht => ?_⟩
  rw [h] at ht; cases ht; exact hs

instance decidableAlong {C : S → A → Prop} [∀ s a, Decidable (C s a)] :
    ∀ (s : S) (as : List A), Decidable (Along step C s as)
  | _, [] => .isTrue trivial
  | s, a :: as =>
    match h : step s a with
    | none => decidable_of_iff (C s a) ⟨fun hC => ⟨hC, fun s' hs => by rw [h] at hs; cases hs⟩, And.left⟩
    | some s' =>
      have := decidableAlong (C := C) s' as
      decidable_of_iff (C s a ∧ Along step C s' as) (along_cons h).symm

theorem Along.mono {C' : S → A → Prop} (h : ∀ s a, C s a → C' s a) :
    ∀ {s : S} {as : List A}, Along step C s as → Along step C' s as
  | _, [], _ => trivial
  | _, _ :: _, ⟨hC, hr⟩ => ⟨h _ _ hC, fun s' hs => Along.mono h (hr s' hs)⟩

theorem Along.of_append :
    ∀ {as bs : List A} {s t : S}, Along step C s (as ++ bs) → run step s as = some t → Along step C t bs
  | [], _, _, _, hC, h => by cases h; exact hC
  | _ :: _, _, _, _, hC, h => by
    obtain ⟨s', hs, ht⟩ := run_cons.1 h
    exact Along.of_append (hC.2 s' hs) ht

theorem Along.left :
    ∀ {as bs : List A} {s : S}, Along step C s (as ++ bs) → Along step C s as
  | [], _, _, _ => trivial
  | _ :: _, _, _, ⟨hC, hr⟩ => ⟨hC, fun s' hs => (hr s' hs).left⟩

theorem Along.of_forall {C : A → Prop} :
    ∀ {as : List A} {s : S}, (∀ a ∈ as, C a) → Along step (fun _ a => C a) s as
  | [], _, _ => trivial
  | _ :: _, _, h => ⟨h _ (.head _), fun _ _ => Along.of_forall fun a ha => h a (.tail _ ha)⟩

theorem Along.and {D : S → A → Prop} :
    ∀ {s : S} {as : List A}, Along step C s as → Along step D s as →
      Along step (fun s a => C s a ∧ D s a) s as
  | _, [], _, _ => trivial
  | _, _ :: _, ⟨hC, hr⟩, ⟨hD, hr'⟩ =>
    ⟨⟨hC, hD⟩, fun s' hs => Along.and (hr s' hs) (hr' s' hs)⟩

/-- An action that is repeated. -/
theorem Along.replicate (hC : ∀ s, I s → C s a)
    (hstep : ∀ s s', I s → step s a = some s' → I s') :
    ∀ (n : ℕ) {s : S}, I s → Along step C s (List.replicate n a)
  | 0, _, _ => trivial
  | n + 1, s, hI => ⟨hC s hI, fun s' hs => Along.replicate hC hstep n (hstep s s' hI hs)⟩

/-- **The invariant rule**, for runs whose actions all meet `C`. -/
theorem run_inv_along
    (hstep : ∀ s a s', I s → C s a → step s a = some s' → I s') :
    ∀ {as : List A} {s t : S}, I s → Along step C s as → run step s as = some t → I t
  | [], s, t, hI, _, h => by cases h; exact hI
  | a :: as, s, t, hI, hC, h => by
    obtain ⟨s', hs, ht⟩ := run_cons.1 h
    obtain ⟨hCa, hC⟩ := (along_cons hs).1 hC
    exact run_inv_along hstep (hstep s a s' hI hCa hs) hC ht

/-- **The invariant rule.** -/
theorem run_inv (hstep : ∀ s a s', I s → step s a = some s' → I s')
    (hI : I s) (h : run step s as = some t) : I t := by
  have hC : Along step (fun _ _ => True) s as := .of_forall fun _ _ => trivial
  exact run_inv_along (fun s a s' hs _ => hstep s a s' hs) hI hC h

/-- A quantity that no step raises is kept by a run exactly if every step keeps it. -/
theorem run_const_iff {m : S → ℕ} (hstep : ∀ s a s', I s → step s a = some s' →
      I s' ∧ m s' ≤ m s ∧ (m s' = m s ↔ C s a)) :
    ∀ {as : List A} {s t : S}, I s → run step s as = some t →
      m t ≤ m s ∧ (m t = m s ↔ Along step C s as)
  | [], s, t, _, h => by
    cases h
    exact ⟨Nat.le_refl _, iff_of_true rfl trivial⟩
  | a :: as, s, t, hI, h => by
    obtain ⟨s', hs, ht⟩ := run_cons.1 h
    obtain ⟨hI', hle, hC⟩ := hstep s a s' hI hs
    obtain ⟨hle', hAlong⟩ := run_const_iff hstep hI' ht
    rw [along_cons hs, ← hC, ← hAlong]
    omega

/-- **The rule for loops.**  An action that lowers a measure wherever `P` is not yet true gets there when
    it is repeated. -/
theorem run_until {M : Type w} [LT M] [WellFoundedLT M] {P : S → Prop}
    (m : S → M)
    (hstep : ∀ s, I s → C s a → ¬ P s → ∃ s', step s a = some s' ∧ I s' ∧ m s' < m s)
    (hI : I s) (hC : ∀ n, Along step C s (List.replicate n a)) :
    ∃ n t, run step s (List.replicate n a) = some t ∧ I t ∧ P t := by
  induction hm : m s using WellFoundedLT.induction generalizing s with
  | ind x ih =>
    subst hm
    by_cases hP : P s
    · exact ⟨0, s, rfl, hI, hP⟩
    obtain ⟨s', hs, hI', hlt⟩ := hstep s hI (hC 1).1 hP
    obtain ⟨n, t, hn, ht⟩ := ih (m s') hlt hI' (fun n => (hC (n + 1)).2 s' hs) rfl
    exact ⟨n + 1, t, run_cons.2 ⟨s', hs, hn⟩, ht⟩

end Machine
