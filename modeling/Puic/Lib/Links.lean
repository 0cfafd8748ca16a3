/-
  Chains of links between numbered nodes.

  `next p` is the node that `p` links to, and `0` says that `p` links to none.
  `Leads next p t` says that the links from `p` end at `t`; when links go to larger
  numbers below a bound, every chain ends, and `follow` finds its end.  Links change in
  two ways: some nodes of one chain lose their links (`Cut`), or the end of a chain gets
  one (`Leads.extend`).
-/
import Mathlib.Algebra.Order.Ring.Nat
import Mathlib.Tactic.Common

namespace Links

variable {next next' : ℕ → ℕ} {p q s t n o b : ℕ}

inductive Leads (next : ℕ → ℕ) : ℕ → ℕ → Prop
  | tail {p : ℕ} : next p = 0 → Leads next p p
  | step {p t : ℕ} : next p ≠ 0 → Leads next (next p) t → Leads next p t

/-- The end of the chain that begins at a node, at most `fuel` links away. -/
def follow (next : ℕ → ℕ) : ℕ → ℕ → ℕ
  | 0, p => p
  | fuel + 1, p => if next p = 0 then p else follow next fuel (next p)

/-- Links go to larger numbers, up to `b`. -/
def Rising (next : ℕ → ℕ) (b : ℕ) : Prop := ∀ p, next p ≠ 0 → p < next p ∧ next p ≤ b

theorem Leads.unique (hs : Leads next p s) (ht : Leads next p t) : s = t := by
  induction hs with
  | tail h =>
    cases ht with
    | tail => rfl
    | step h' => exact absurd h h'
  | step h _ ih =>
    cases ht with
    | tail h' => exact absurd h' h
    | step _ ht => exact ih ht

theorem Leads.end_eq (h : Leads next p t) : next t = 0 := by
  induction h with
  | tail h => exact h
  | step _ _ ih => exact ih

theorem Leads.eq_of_end (h : Leads next p t) (hp : next p = 0) : t = p := by
  cases h with
  | tail => rfl
  | step h => exact absurd hp h

theorem Leads.le (hr : Rising next b) (h : Leads next p t) : p ≤ t := by
  induction h with
  | tail => exact le_rfl
  | step hne _ ih => exact (hr _ hne).1.le.trans ih

theorem Leads.le_bound (hr : Rising next b) (hp : p ≤ b) (h : Leads next p t) : t ≤ b := by
  induction h with
  | tail => exact hp
  | step hne _ ih => exact ih (hr _ hne).2

theorem leads_follow (hr : Rising next b) {fuel : ℕ} (hf : b < p + fuel) :
    Leads next p (follow next fuel p) := by
  induction fuel generalizing p with
  | zero =>
    refine .tail ?_
    by_contra hne
    have := hr p hne
    omega
  | succ fuel ih =>
    unfold follow
    split
    · next h => exact .tail h
    · next h =>
      have := hr p h
      exact .step h (ih (by omega))

/-! ## Changing links -/

theorem Leads.congr (hr : Rising next b) (h : Leads next p t) (he : ∀ q, p ≤ q → next' q = next q) :
    Leads next' p t := by
  induction h with
  | tail h => exact .tail ((he _ le_rfl).trans h)
  | step hne _ ih =>
    have hlt := (hr _ hne).1
    have hp := he _ le_rfl
    refine .step (hp ▸ hne) ?_
    rw [hp]
    exact ih fun q hq => he q (hlt.le.trans hq)

/-- Nodes that lead to `t` have lost their links. -/
def Cut (next next' : ℕ → ℕ) (t : ℕ) : Prop := ∀ q, next' q = next q ∨ (next' q = 0 ∧ Leads next q t)

theorem Cut.refl : Cut next next t := fun _ => .inl rfl

theorem Cut.leads (hc : Cut next next' t) (h : Leads next p s) (hne : s ≠ t) : Leads next' p s := by
  induction h with
  | @tail p h =>
    rcases hc p with hp | ⟨hp, -⟩
    · exact .tail (hp.trans h)
    · exact .tail hp
  | @step p s hp h ih =>
    rcases hc p with he | ⟨-, ht⟩
    · exact .step (he ▸ hp) (he ▸ ih hne)
    · exact absurd ((Leads.step hp h).unique ht) hne

theorem Cut.cons (hr : Rising next b) (hp : next p ≠ 0) (ht : Leads next p t)
    (hc : Cut (fun q => if q = p then 0 else next q) next' t) : Cut next next' t := by
  have hpt : p < t := by
    cases ht with
    | tail h => exact absurd h hp
    | step _ h => exact (hr p hp).1.trans_le (h.le hr)
  -- after the first link is cut, `p` is an end, so what leads to `t` does not go through it
  have hback : ∀ q, Leads (fun q => if q = p then 0 else next q) q t → Leads next q t := by
    intro q h
    induction h with
    | @tail q h =>
      by_cases hq : q = p
      · omega
      · exact .tail (by simpa [hq] using h)
    | @step q t hne h ih =>
      by_cases hq : q = p
      · simp [hq] at hne
      · rw [if_neg hq] at hne h ih
        exact .step hne (ih ht hc hpt)
  intro q
  by_cases hq : q = p
  · subst hq
    rcases hc q with h | ⟨h, -⟩
    · exact .inr ⟨by simpa using h, ht⟩
    · exact .inr ⟨h, ht⟩
  · rcases hc q with h | ⟨h, hl⟩
    · exact .inl (by simpa [hq] using h)
    · exact .inr ⟨h, hback q hl⟩

theorem Leads.keep (hr : Rising next b) (h : Leads next p t)
    (he : ∀ q, p ≤ q → next q ≠ 0 → next' q = next q)
    (ht : next' t = 0) : Leads next' p t := by
  induction h with
  | tail => exact .tail ht
  | step hne _ ih =>
    have hp := he _ le_rfl hne
    refine .step (hp ▸ hne) ?_
    rw [hp]
    exact ih (fun q hq => he q ((hr _ hne).1.le.trans hq)) ht

theorem Leads.extend (hr : Rising next b) (h : Leads next p t)
    (he : ∀ q, p ≤ q → next q ≠ 0 → next' q = next q)
    (ht : next' t = n) (hn : n ≠ 0) (hend : next' n = 0) : Leads next' p n := by
  induction h with
  | tail =>
    refine .step (ht ▸ hn) ?_
    rw [ht]
    exact .tail hend
  | step hne _ ih =>
    have hp := he _ le_rfl hne
    refine .step (hp ▸ hne) ?_
    rw [hp]
    exact ih (fun q hq => he q ((hr _ hne).1.le.trans hq)) ht

end Links
