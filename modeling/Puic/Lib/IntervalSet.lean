/-
  Sets of numbers kept as intervals.

  The intervals of an `IntervalSet` are half-open, not empty, in ascending order and do
  not touch (`GapList.Sorted`).  `add` joins an interval and everything it overlaps or
  touches, `remove` and `diff` take an interval or a set away.  What the operations do is
  said by membership: `mem_add`, `mem_remove`, `mem_diff`, `contains_iff`.
-/
import Mathlib.Algebra.Order.Ring.Nat
import Mathlib.Data.List.Basic
import Puic.Lib.GapList

structure IntervalSet where
  intervals : List GapList.Gap
  sorted : GapList.Sorted 0 intervals

namespace IntervalSet

open GapList

/-! ## Lists of intervals -/

/-- Joins `[a, b)` with the intervals it overlaps or touches. -/
def insertGap (a b : ℕ) : List Gap → List Gap
  | [] => [⟨a, b⟩]
  | g :: gs =>
    if b < g.lo then ⟨a, b⟩ :: g :: gs
    else if g.hi < a then g :: insertGap a b gs
    else insertGap (min a g.lo) (max b g.hi) gs

/-- Takes `[a, b)` out of every interval. -/
def removeGap (a b : ℕ) : List Gap → List Gap
  | [] => []
  | g :: gs =>
    (if g.lo < a then [⟨g.lo, min g.hi a⟩] else []) ++
      ((if b < g.hi then [⟨max g.lo b, g.hi⟩] else []) ++ removeGap a b gs)

variable {gs : List Gap} {a b c x : ℕ}

theorem sorted_insertGap (h : Sorted c gs) (hc : c ≤ a) (hab : a < b) : Sorted c (insertGap a b gs) := by
  induction gs generalizing a b c with
  | nil => exact ⟨hc, hab, trivial⟩
  | cons g gs ih =>
    obtain ⟨h1, h2, h3⟩ := h
    unfold insertGap
    split_ifs with hlt hgt
    · exact ⟨hc, hab, hlt, h2, h3⟩
    · exact ⟨h1, h2, ih h3 hgt hab⟩
    · exact ih (h3.mono (by omega)) (by omega) (by omega)

theorem missing_insertGap (hab : a < b) :
    Missing (insertGap a b gs) x ↔ (a ≤ x ∧ x < b) ∨ Missing gs x := by
  induction gs generalizing a b with
  | nil => simp [insertGap, missing_cons]
  | cons g gs ih =>
    unfold insertGap
    split_ifs with hlt hgt
    · rw [missing_cons]
    · rw [missing_cons, ih hab, missing_cons, or_left_comm]
    · rw [ih (by omega), missing_cons]
      by_cases hm : Missing gs x
      · simp [hm]
      · simp only [hm, or_false]
        omega

theorem sorted_removeGap (h : Sorted c gs) (hab : a < b) : Sorted c (removeGap a b gs) := by
  induction gs generalizing c with
  | nil => exact h
  | cons g gs ih =>
    obtain ⟨h1, h2, h3⟩ := h
    have hrest := ih h3
    unfold removeGap
    split_ifs with hlo hhi hhi
    · exact ⟨h1, by dsimp only; omega, by dsimp only; omega, by dsimp only; omega, hrest⟩
    · exact ⟨h1, by dsimp only; omega, hrest.mono (by dsimp only; omega)⟩
    · exact ⟨by dsimp only; omega, by dsimp only; omega, hrest⟩
    · exact hrest.mono (by omega)

theorem missing_removeGap (hab : a < b) :
    Missing (removeGap a b gs) x ↔ ¬(a ≤ x ∧ x < b) ∧ Missing gs x := by
  induction gs with
  | nil => simp [removeGap]
  | cons g gs ih =>
    unfold removeGap
    rw [missing_append, missing_append, ih, missing_cons]
    by_cases hm : Missing gs x
    · simp only [hm, or_true, and_true]
      split_ifs <;> simp only [missing_cons, missing_nil, or_false, false_or] <;> omega
    · simp only [hm, or_false, and_false]
      split_ifs <;> simp only [missing_cons, missing_nil, or_false, false_or, false_iff] <;> omega

theorem removeGap_eq_self (h : Sorted c gs) (hab : a < b) (hx : ∀ x, Missing gs x → ¬(a ≤ x ∧ x < b)) :
    removeGap a b gs = gs := by
  induction gs generalizing c with
  | nil => rfl
  | cons g gs ih =>
    obtain ⟨-, h2, h3⟩ := h
    have hrest := ih h3 fun x hm => hx x (missing_cons.2 (.inr hm))
    have hlo := hx g.lo (missing_cons.2 (.inl ⟨le_rfl, h2⟩))
    have hhi : ¬(g.lo ≤ a ∧ a < g.hi) := fun hg => hx a (missing_cons.2 (.inl hg)) ⟨le_rfl, hab⟩
    rw [removeGap, hrest]
    rcases le_or_gt g.hi a with hle | hgt
    · rw [if_pos (by omega), if_neg (by omega), min_eq_left hle]
      rfl
    · rw [if_neg (by omega), if_pos (by omega), max_eq_left (by omega)]
      rfl

/-! ## The operations -/

variable {s t : IntervalSet}

instance : Membership ℕ IntervalSet := ⟨fun s x => Missing s.intervals x⟩

instance (s : IntervalSet) (x : ℕ) : Decidable (x ∈ s) :=
  inferInstanceAs (Decidable (Missing s.intervals x))

def empty : IntervalSet := ⟨[], trivial⟩

def isEmpty (s : IntervalSet) : Bool := s.intervals.isEmpty

/-- Empty intervals are not added. -/
def add (s : IntervalSet) (a b : ℕ) : IntervalSet :=
  if hab : a < b then ⟨insertGap a b s.intervals, sorted_insertGap s.sorted (Nat.zero_le a) hab⟩ else s

def remove (s : IntervalSet) (a b : ℕ) : IntervalSet :=
  if hab : a < b then ⟨removeGap a b s.intervals, sorted_removeGap s.sorted hab⟩ else s

def diff (s t : IntervalSet) : IntervalSet := t.intervals.foldl (fun s g => s.remove g.lo g.hi) s

/-- Adds all intervals of another set. -/
def addAll (s t : IntervalSet) : IntervalSet := t.intervals.foldl (fun s g => s.add g.lo g.hi) s

/-- One interval holds all of `[a, b)`. -/
def contains (s : IntervalSet) (a b : ℕ) : Bool :=
  decide (a < b) && s.intervals.any fun g => decide (g.lo ≤ a ∧ b ≤ g.hi)

/-- How many numbers there are. -/
def length (s : IntervalSet) : ℕ := (s.intervals.map fun g => g.hi - g.lo).sum

theorem mem_def : x ∈ s ↔ Missing s.intervals x := Iff.rfl

@[simp] theorem not_mem_empty : x ∉ empty := missing_nil

@[simp] theorem mem_add : x ∈ s.add a b ↔ (a ≤ x ∧ x < b) ∨ x ∈ s := by
  unfold add
  split
  · next hab => exact missing_insertGap hab
  · next hab => exact ⟨.inr, fun hx => hx.resolve_left fun hx => by omega⟩

@[simp] theorem mem_remove : x ∈ s.remove a b ↔ ¬(a ≤ x ∧ x < b) ∧ x ∈ s := by
  unfold remove
  split
  · next hab => exact missing_removeGap hab
  · next hab => exact ⟨fun hx => ⟨fun h => by omega, hx⟩, And.right⟩

theorem mem_foldl_remove (l : List Gap) : x ∈ l.foldl (fun s g => s.remove g.lo g.hi) s ↔
    ¬ Missing l x ∧ x ∈ s := by
  induction l generalizing s with
  | nil => simp
  | cons g l ih => rw [List.foldl_cons, ih, mem_remove, missing_cons, not_or]; tauto

@[simp] theorem mem_diff : x ∈ s.diff t ↔ x ∉ t ∧ x ∈ s := mem_foldl_remove t.intervals

theorem mem_foldl_add (l : List Gap) : x ∈ l.foldl (fun s g => s.add g.lo g.hi) s ↔
    Missing l x ∨ x ∈ s := by
  induction l generalizing s with
  | nil => simp
  | cons g l ih => rw [List.foldl_cons, ih, mem_add, missing_cons]; tauto

@[simp] theorem mem_addAll : x ∈ s.addAll t ↔ x ∈ t ∨ x ∈ s := mem_foldl_add t.intervals

theorem remove_eq_self (hx : ∀ x ∈ s, ¬(a ≤ x ∧ x < b)) : s.remove a b = s := by
  unfold remove
  split
  · next hab =>
    rcases s with ⟨gs, hs⟩
    simp only [mk.injEq]
    exact removeGap_eq_self hs hab hx
  · rfl

theorem diff_eq_self (h : ∀ x ∈ s, x ∉ t) : s.diff t = s := by
  have hfold : ∀ l : List Gap, (∀ x ∈ s, ¬ Missing l x) →
      l.foldl (fun s g => s.remove g.lo g.hi) s = s := by
    intro l
    induction l with
    | nil => exact fun _ => rfl
    | cons g l ih =>
      intro hl
      rw [List.foldl_cons, remove_eq_self fun x hx hg => hl x hx (missing_cons.2 (.inl hg))]
      exact ih fun x hx hm => hl x hx (missing_cons.2 (.inr hm))
  exact hfold t.intervals h

theorem hi_not_mem {g : Gap} (hg : g ∈ s.intervals) : g.hi ∉ s := by
  obtain ⟨p, q, hpq⟩ := List.append_of_mem hg
  have hs := hpq ▸ s.sorted
  obtain ⟨-, hp, -, hlt, hq⟩ := hs.split
  rintro ⟨k, hk, hlo, hhi⟩
  rw [hpq] at hk
  rcases List.mem_append.1 hk with hk | hk
  · have := hp k hk
    omega
  rcases List.mem_cons.1 hk with rfl | hk
  · omega
  · have := hq.le_lo k hk
    omega

theorem contains_iff : s.contains a b = true ↔ a < b ∧ ∀ x, a ≤ x → x < b → x ∈ s := by
  unfold contains
  rw [Bool.and_eq_true, decide_eq_true_iff, List.any_eq_true]
  refine and_congr_right fun hab => ?_
  constructor
  · rintro ⟨g, hg, hsub⟩ x hax hxb
    have hsub' := of_decide_eq_true hsub
    exact ⟨g, hg, by omega, by omega⟩
  · intro h
    obtain ⟨g, hg, hlo, hhi⟩ := h a le_rfl hab
    refine ⟨g, hg, decide_eq_true ⟨hlo, ?_⟩⟩
    -- otherwise the end of the interval would be a number of the set
    by_contra hlt
    exact hi_not_mem hg (h g.hi (by omega) (by omega))

theorem isEmpty_eq_false : s.isEmpty = false ↔ ∃ g gs, s.intervals = g :: gs := by
  unfold isEmpty
  cases s.intervals with
  | nil => simp
  | cons g gs => simp

end IntervalSet
