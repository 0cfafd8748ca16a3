/-
  Lists of gaps: which offsets below a bound have not arrived yet.

  A gap is a half-open interval.  A list of gaps is kept in ascending order, with
  at least one offset between two gaps, so it is the complement of a set of
  received intervals.  `locate` finds the first gap that does not end before an
  offset, `cut` takes an interval out of a gap; `first` and `last` are where the
  first and the last gap begin (`top` when there is no gap).
-/
import Mathlib.Data.List.Basic
import Mathlib.Order.Lattice
import Mathlib.Tactic.Common

namespace GapList

structure Gap where
  lo : ℕ
  hi : ℕ
deriving Repr, DecidableEq

def Missing (gs : List Gap) (x : ℕ) : Prop := ∃ g ∈ gs, g.lo ≤ x ∧ x < g.hi

instance (gs : List Gap) (x : ℕ) : Decidable (Missing gs x) := by unfold Missing; infer_instance

/-- Ascending from `a`, with non-empty gaps that do not touch. -/
def Sorted : ℕ → List Gap → Prop
  | _, [] => True
  | a, g :: gs => a ≤ g.lo ∧ g.lo < g.hi ∧ Sorted (g.hi + 1) gs

def first (top : ℕ) (gs : List Gap) : ℕ := (gs.head?.map Gap.lo).getD top

def last (top : ℕ) (gs : List Gap) : ℕ := (gs.getLast?.map Gap.lo).getD top

/-- The first gap that does not end before `x`, with the gaps before and after it. -/
def locate : List Gap → ℕ → Option (List Gap × Gap × List Gap)
  | [], _ => none
  | g :: gs, x =>
    if g.hi ≤ x then (locate gs x).map fun r => (g :: r.1, r.2.1, r.2.2) else some ([], g, gs)

/-- What is left of a gap when `[a, a + n)` arrives. -/
def cut (g : Gap) (a n : ℕ) : List Gap :=
  if g.lo = a ∧ a + n < g.hi then [⟨a + n, g.hi⟩]
  else if g.lo < a ∧ g.hi = a + n then [⟨g.lo, a⟩]
  else if g.lo < a ∧ a + n < g.hi then [⟨g.lo, a⟩, ⟨a + n, g.hi⟩]
  else if g.lo = a ∧ g.hi = a + n then []
  else [g]

variable {gs p q : List Gap} {g : Gap} {a b n x t : ℕ}

theorem missing_append : Missing (p ++ q) x ↔ Missing p x ∨ Missing q x := by
  simp only [Missing, List.mem_append]
  constructor
  · rintro ⟨g, hg | hg, h⟩
    · exact .inl ⟨g, hg, h⟩
    · exact .inr ⟨g, hg, h⟩
  · rintro (⟨g, hg, h⟩ | ⟨g, hg, h⟩)
    · exact ⟨g, .inl hg, h⟩
    · exact ⟨g, .inr hg, h⟩

@[simp] theorem missing_nil : ¬ Missing [] x := by simp [Missing]

theorem missing_cons : Missing (g :: gs) x ↔ (g.lo ≤ x ∧ x < g.hi) ∨ Missing gs x := by
  simp [Missing]

theorem Sorted.mono (hab : b ≤ a) : ∀ {gs}, Sorted a gs → Sorted b gs
  | [], _ => trivial
  | _ :: _, ⟨h, h'⟩ => ⟨hab.trans h, h'⟩

theorem Sorted.le_lo : ∀ {gs a}, Sorted a gs → ∀ g ∈ gs, a ≤ g.lo
  | g :: gs, a, ⟨h1, h2, h3⟩, h, hh => by
    rcases List.mem_cons.1 hh with rfl | hh
    · exact h1
    · have := h3.le_lo h hh; omega

theorem Sorted.lt_hi : ∀ {gs a}, Sorted a gs → ∀ g ∈ gs, g.lo < g.hi
  | g :: gs, a, ⟨_, h2, h3⟩, h, hh => by
    rcases List.mem_cons.1 hh with rfl | hh
    · exact h2
    · exact h3.lt_hi h hh

theorem Sorted.missing_ge (h : Sorted a gs) (hm : Missing gs x) : a ≤ x := by
  obtain ⟨g, hg, hx, -⟩ := hm
  exact (h.le_lo g hg).trans hx

/-- In a sorted list, what stands before a gap ends before it and what stands after begins
    after it. -/
theorem Sorted.split : ∀ {p a}, Sorted a (p ++ g :: q) →
    Sorted a p ∧ (∀ h ∈ p, h.hi < g.lo) ∧ a ≤ g.lo ∧ g.lo < g.hi ∧ Sorted (g.hi + 1) q
  | [], _, h => ⟨trivial, by simp, h.1, h.2.1, h.2.2⟩
  | h :: _, _, ⟨h1, h2, h3⟩ => by
    obtain ⟨hp, hlt, hle, hg, hq⟩ := Sorted.split h3
    refine ⟨⟨h1, h2, hp⟩, ?_, by omega, hg, hq⟩
    intro k hk
    rcases List.mem_cons.1 hk with rfl | hk
    · omega
    · exact hlt k hk

theorem Sorted.join : ∀ {p a}, Sorted a p → (∀ h ∈ p, h.hi < b) → a ≤ b → Sorted b q →
    Sorted a (p ++ q)
  | [], _, _, _, hab, hq => hq.mono hab
  | h :: _, _, ⟨h1, h2, h3⟩, hlt, _, hq =>
    ⟨h1, h2, h3.join (fun k hk => hlt k (.tail _ hk)) (hlt h (.head _)) hq⟩

theorem locate_some : ∀ {gs p g q}, locate gs x = some (p, g, q) →
    gs = p ++ g :: q ∧ (∀ h ∈ p, h.hi ≤ x) ∧ x < g.hi
  | k :: gs, p, g, q, h => by
    unfold locate at h
    split at h
    · next hk =>
      obtain ⟨⟨p', g', q'⟩, h', he⟩ := Option.map_eq_some_iff.1 h
      obtain ⟨rfl, hp, hx⟩ := locate_some h'
      simp only [Prod.mk.injEq] at he
      obtain ⟨rfl, rfl, rfl⟩ := he
      exact ⟨rfl, fun h hh => (List.mem_cons.1 hh).elim (fun e => e ▸ hk) (hp h), hx⟩
    · next hk =>
      simp only [Option.some.injEq, Prod.mk.injEq] at h
      obtain ⟨rfl, rfl, rfl⟩ := h
      exact ⟨rfl, by simp, by omega⟩

theorem locate_none : ∀ {gs}, locate gs x = none → ∀ g ∈ gs, g.hi ≤ x
  | k :: gs, h, g, hg => by
    unfold locate at h
    split at h
    · next hk =>
      rcases List.mem_cons.1 hg with rfl | hg
      · exact hk
      · exact locate_none (Option.map_eq_none_iff.1 h) g hg
    · cases h

/-! ## Cutting -/

theorem missing_cut (hlo : g.lo ≤ a) (hhi : a + n ≤ g.hi) :
    Missing (cut g a n) x ↔ (g.lo ≤ x ∧ x < g.hi) ∧ ¬ (a ≤ x ∧ x < a + n) := by
  unfold cut
  split_ifs <;> simp only [missing_cons, missing_nil, or_false, false_iff] <;> omega

/-- The offsets that arrive are the ones that are no longer missing. -/
theorem missing_replace (hs : Sorted b (p ++ g :: q)) (hlo : g.lo ≤ a) (hhi : a + n ≤ g.hi) :
    Missing (p ++ cut g a n ++ q) x ↔ Missing (p ++ g :: q) x ∧ ¬ (a ≤ x ∧ x < a + n) := by
  obtain ⟨-, hp, -, -, hq⟩ := hs.split
  simp only [missing_append, missing_cut hlo hhi, missing_cons]
  have h1 : Missing p x → x < a := fun ⟨h, hh, _, hx⟩ => by have := hp h hh; omega
  have h2 : Missing q x → a + n < x := fun hm => by have := hq.missing_ge hm; omega
  constructor
  · rintro ((h | ⟨h, h'⟩) | h)
    · exact ⟨.inl h, by have := h1 h; omega⟩
    · exact ⟨.inr (.inl h), h'⟩
    · exact ⟨.inr (.inr h), by have := h2 h; omega⟩
  · rintro ⟨h | h | h, h'⟩
    · exact .inl (.inl h)
    · exact .inl (.inr ⟨h, h'⟩)
    · exact .inr h

theorem sorted_cut (hg : g.lo < g.hi) (hn : 0 < n) (hq : Sorted (g.hi + 1) q) :
    Sorted g.lo (cut g a n ++ q) := by
  unfold cut
  split_ifs
  · exact ⟨by simp; omega, by simp; omega, hq⟩
  · exact ⟨le_rfl, by simp; omega, hq.mono (by simp; omega)⟩
  · exact ⟨le_rfl, by simp; omega, by simp; omega, by simp; omega, hq⟩
  · exact hq.mono (by omega)
  · exact ⟨le_rfl, hg, hq⟩

theorem sorted_replace (hs : Sorted b (p ++ g :: q)) (hn : 0 < n) : Sorted b (p ++ cut g a n ++ q) := by
  obtain ⟨hp, hlt, hle, hg, hq⟩ := hs.split
  rw [List.append_assoc]
  exact hp.join hlt hle (sorted_cut hg hn hq)

/-! ## Where the gaps begin -/

theorem first_le (h : Sorted a gs) (hm : Missing gs x) : first t gs ≤ x := by
  obtain ⟨g, hg, hx, -⟩ := hm
  cases gs with
  | nil => simp at hg
  | cons k gs =>
    obtain ⟨-, h2, h3⟩ := h
    rcases List.mem_cons.1 hg with rfl | hg
    · exact hx
    · have := h3.le_lo g hg
      simp only [first, List.head?_cons, Option.map_some, Option.getD_some]; omega

theorem missing_first (h : Sorted a gs) (hf : first t gs < t) : Missing gs (first t gs) := by
  cases gs with
  | nil => simp [first] at hf
  | cons k gs => exact ⟨k, .head _, le_rfl, h.2.1⟩

theorem le_first (h : Sorted a gs) (hat : a ≤ t) : a ≤ first t gs := by
  cases gs with
  | nil => exact hat
  | cons k gs => exact h.1

theorem first_replace (hlo : g.lo ≤ a) (h : first t (p ++ g :: q) ≠ a) :
    first t (p ++ cut g a n ++ q) = first t (p ++ g :: q) := by
  cases p with
  | cons k p => rfl
  | nil =>
    have hlt : g.lo < a := lt_of_le_of_ne hlo (by simpa [first] using h)
    unfold cut
    split_ifs with h1 h2 h3 h4
    · omega
    · rfl
    · rfl
    · omega
    · rfl

theorem lt_first_replace (hs : Sorted b (p ++ g :: q)) (hlo : g.lo ≤ a) (hhi : a + n ≤ g.hi)
    (hn : 0 < n) (ht : a + n ≤ t) (h : first t (p ++ g :: q) = a) :
    a < first t (p ++ cut g a n ++ q) := by
  by_cases hf : first t (p ++ cut g a n ++ q) < t
  · have hm := missing_first (sorted_replace hs hn) hf
    obtain ⟨hm, hout⟩ := (missing_replace hs hlo hhi).1 hm
    have := first_le (t := t) hs hm
    omega
  · omega

/-- The last gap reaches up to `top`. -/
def Closed (top : ℕ) (gs : List Gap) : Prop := ∃ p lo, gs = p ++ [⟨lo, top⟩]

theorem last_append_singleton : last t (p ++ [g]) = g.lo := by simp [last]

theorem Closed.missing (hc : Closed t gs) (hl : last t gs ≤ x) (hx : x < t) : Missing gs x := by
  obtain ⟨p, lo, rfl⟩ := hc
  rw [last_append_singleton] at hl
  exact ⟨⟨lo, t⟩, by simp, hl, hx⟩

theorem Closed.ne_nil (hc : Closed t gs) : gs ≠ [] := by
  obtain ⟨p, lo, rfl⟩ := hc
  simp

theorem first_le_last (hs : Sorted a gs) : first t gs ≤ last t gs := by
  rcases List.eq_nil_or_concat gs with rfl | ⟨p, g, rfl⟩
  · exact le_rfl
  · rw [List.concat_eq_append] at *
    rw [last_append_singleton]
    exact first_le hs ⟨g, by simp, le_rfl, hs.split.2.2.2.1⟩

theorem not_missing_last (hs : Sorted a gs) (hne : gs ≠ []) (h : 0 < last t gs) :
    ¬ Missing gs (last t gs - 1) := by
  rcases List.eq_nil_or_concat gs with rfl | ⟨p, k, rfl⟩
  · exact absurd rfl hne
  rw [List.concat_eq_append] at *
  rw [last_append_singleton] at *
  obtain ⟨-, hp, -, -, -⟩ := hs.split
  rintro ⟨g, hg, hlo, hhi⟩
  rcases List.mem_append.1 hg with hg | hg
  · have := hp g hg
    omega
  · rw [List.mem_singleton.1 hg] at hlo
    omega

theorem cut_of_lt (hlo : g.lo ≤ a) (hhi : a + n < g.hi) : ∃ l, cut g a n = l ++ [⟨a + n, g.hi⟩] := by
  by_cases h : g.lo = a
  · exact ⟨[], by simp [cut, h, hhi]⟩
  · have hlt : g.lo < a := by omega
    exact ⟨[⟨g.lo, a⟩], by simp [cut, h, hlt, hhi, hhi.ne']⟩

theorem Closed.replace (hc : Closed t (p ++ g :: q)) (hlo : g.lo ≤ a) (ht : a + n < t) :
    Closed t (p ++ cut g a n ++ q) := by
  obtain ⟨l, lo, he⟩ := hc
  rcases List.eq_nil_or_concat q with rfl | ⟨q, k, rfl⟩
  · obtain ⟨rfl, hg⟩ := List.append_inj' he rfl
    simp only [List.cons.injEq, and_true] at hg
    subst hg
    obtain ⟨l', hl'⟩ := cut_of_lt hlo ht
    exact ⟨p ++ l', a + n, by simp [hl']⟩
  · have he' : (p ++ g :: q) ++ [k] = l ++ [⟨lo, t⟩] := by simpa using he
    obtain ⟨-, hk⟩ := List.append_inj' he' rfl
    exact ⟨p ++ cut g a n ++ q, lo, by simpa using hk⟩

end GapList
