/-
  The windowed filter of BBR (windowed_filter.h): the best sample of a window of time,
  with a second and a third best that take its place when it is too old.

  `Update` replaces, promotes and ages the estimates, with early returns in between.
  `estimates_sound`: whatever the gaps between the samples, each estimate is a sample of
  its time that is better than every later one, and the best is never older than the
  window.
-/
import Mathlib.Data.List.Induction
import Mathlib.Order.Lattice

namespace Puic

/-- `MinFilter` or `MaxFilter`. -/
inductive FilterKind where
  | minFilter
  | maxFilter

/-- `Compare`: the first is as good as the second. -/
def FilterKind.compare {T : Type*} [LE T] : FilterKind → T → T → Prop
  | .minFilter, lhs, rhs => lhs ≤ rhs
  | .maxFilter, lhs, rhs => lhs ≥ rhs

instance {T : Type*} [LinearOrder T] (kind : FilterKind) (lhs rhs : T) :
    Decidable (kind.compare lhs rhs) :=
  match kind with
  | .minFilter => inferInstanceAs (Decidable (lhs ≤ rhs))
  | .maxFilter => inferInstanceAs (Decidable (rhs ≤ lhs))

structure Sample (T : Type*) where
  sample : T
  time : ℕ

structure WindowedFilter (T : Type*) where
  windowLength : ℕ
  zeroValue : T
  best : Sample T
  second : Sample T
  third : Sample T

namespace WindowedFilter

variable {T : Type*} [LinearOrder T] (kind : FilterKind)

def new (windowLength : ℕ) (zeroValue : T) (zeroTime : ℕ) : WindowedFilter T :=
  ⟨windowLength, zeroValue, ⟨zeroValue, zeroTime⟩, ⟨zeroValue, zeroTime⟩, ⟨zeroValue, zeroTime⟩⟩

variable (f : WindowedFilter T) (x : Sample T)

def reset : WindowedFilter T := { f with best := x, second := x, third := x }

/-- The second and the third estimate give way to a sample that is as good. -/
def replace : WindowedFilter T :=
  if kind.compare x.sample f.second.sample then { f with second := x, third := x }
  else if kind.compare x.sample f.third.sample then { f with third := x }
  else f

/-- What is too old gives way to the next best, or to the new sample. -/
def expire : WindowedFilter T :=
  if x.time - f.best.time > f.windowLength then
    let f := { f with best := f.second, second := f.third, third := x }
    if x.time - f.best.time > f.windowLength then { f with best := f.second, second := f.third } else f
  else if f.second.sample = f.best.sample ∧ x.time - f.second.time > f.windowLength / 4 then
    { f with second := x, third := x }
  else if f.third.sample = f.second.sample ∧ x.time - f.third.time > f.windowLength / 2 then
    { f with third := x }
  else f

def update : WindowedFilter T :=
  if f.best.sample = f.zeroValue ∨ kind.compare x.sample f.best.sample ∨
      x.time - f.third.time > f.windowLength then f.reset x
  else (f.replace kind x).expire x

/-! ## What the estimates are -/

variable {kind} {f : WindowedFilter T} {xs : List (Sample T)} {x y : Sample T}

theorem compare_refl (a : T) : kind.compare a a := by
  cases kind <;> exact le_rfl

theorem compare_trans {a b c : T} (hab : kind.compare a b) (hbc : kind.compare b c) :
    kind.compare a c := by
  cases kind
  · exact le_trans hab hbc
  · exact le_trans hbc hab

theorem compare_of_not {a b : T} (h : ¬ kind.compare a b) : kind.compare b a := by
  cases kind
  · exact (lt_of_not_ge h).le
  · exact (lt_of_not_ge h).le

/-- A sample that was supplied, and is strictly better than every later one. -/
def Dominates (kind : FilterKind) (xs : List (Sample T)) (e : Sample T) : Prop :=
  e ∈ xs ∧ ∀ x ∈ xs, e.time < x.time → ¬ kind.compare x.sample e.sample

structure Ranked (kind : FilterKind) (xs : List (Sample T)) (f : WindowedFilter T) (now : ℕ) : Prop where
  best : Dominates kind xs f.best
  second : Dominates kind xs f.second
  third : Dominates kind xs f.third
  times : f.best.time ≤ f.second.time ∧ f.second.time ≤ f.third.time ∧ f.third.time ≤ now
  values : kind.compare f.best.sample f.second.sample ∧ kind.compare f.second.sample f.third.sample

/-- `Ranked`, and the best is of this window. -/
structure Sound (kind : FilterKind) (xs : List (Sample T)) (f : WindowedFilter T) (now : ℕ) : Prop extends
    Ranked kind xs f now where
  window : now - f.best.time ≤ f.windowLength

theorem Dominates.append {e : Sample T} (h : Dominates kind xs e)
    (hx : ¬ kind.compare x.sample e.sample) :
    Dominates kind (xs ++ [x]) e := by
  refine ⟨List.mem_append_left _ h.1, fun y hy hlt => ?_⟩
  rcases List.mem_append.1 hy with hy | hy
  · exact h.2 y hy hlt
  · rwa [List.mem_singleton.1 hy]

theorem dominates_last (h : ∀ y ∈ xs, y.time ≤ x.time) : Dominates kind (xs ++ [x]) x := by
  refine ⟨List.mem_append_right _ (.head _), fun y hy hlt => ?_⟩
  rcases List.mem_append.1 hy with hy | hy
  · exact absurd (h y hy) (Nat.not_le.2 hlt)
  · exact absurd hlt (by rw [List.mem_singleton.1 hy]; exact Nat.lt_irrefl _)

theorem sound_reset (h : ∀ y ∈ xs, y.time ≤ x.time) : Sound kind (xs ++ [x]) (f.reset x) x.time :=
  have hx := dominates_last h
  ⟨⟨hx, hx, hx, ⟨le_rfl, le_rfl, le_rfl⟩, compare_refl _, compare_refl _⟩, by simp [reset]⟩

theorem Ranked.replace (h : Ranked kind xs f y.time) (hy : y ∈ xs) (hxs : ∀ y ∈ xs, y.time ≤ x.time)
    (hbest : ¬ kind.compare x.sample f.best.sample) :
    Ranked kind (xs ++ [x]) (f.replace kind x) x.time ∧
    kind.compare (f.replace kind x).third.sample x.sample ∧
      f.third.time ≤ (f.replace kind x).third.time := by
  have hx : Dominates kind (xs ++ [x]) x := dominates_last hxs
  have hb := h.best.append hbest
  obtain ⟨h₁, h₂, h₃⟩ := h.times
  have hthird := h₃.trans (hxs y hy)
  unfold WindowedFilter.replace
  split
  · exact ⟨⟨hb, hx, hx, ⟨(h₁.trans h₂).trans hthird, le_rfl, le_rfl⟩, compare_of_not hbest,
      compare_refl _⟩,
      compare_refl _, hthird⟩
  · next hsecond =>
    have hs := h.second.append hsecond
    split
    · exact ⟨⟨hb, hs, hx, ⟨h₁, h₂.trans hthird, le_rfl⟩, h.values.1, compare_of_not hsecond⟩,
        compare_refl _, hthird⟩
    · next hthird' =>
      exact ⟨⟨hb, hs, h.third.append hthird', ⟨h₁, h₂, hthird⟩, h.values⟩, compare_of_not hthird', le_rfl⟩

theorem Ranked.expire (h : Ranked kind xs f x.time) (hx : Dominates kind xs x)
    (hthird : kind.compare f.third.sample x.sample) (hwindow : x.time - f.third.time ≤ f.windowLength) :
    Sound kind xs (f.expire x) x.time := by
  obtain ⟨h₁, h₂, h₃⟩ := h.times
  obtain ⟨hv₁, hv₂⟩ := h.values
  have hsecond := compare_trans hv₂ hthird
  unfold WindowedFilter.expire
  dsimp only
  split_ifs with hbest hnext hquarter hhalf
  · exact ⟨⟨h.third, hx, hx, ⟨h₃, le_rfl, le_rfl⟩, hthird, compare_refl _⟩, hwindow⟩
  · exact ⟨⟨h.second, h.third, hx, ⟨h₂, h₃, le_rfl⟩, hv₂, hthird⟩, Nat.le_of_not_gt hnext⟩
  · exact ⟨⟨h.best, hx, hx, ⟨(h₁.trans h₂).trans h₃, le_rfl, le_rfl⟩, compare_trans hv₁ hsecond,
      compare_refl _⟩, Nat.le_of_not_gt hbest⟩
  · exact ⟨⟨h.best, h.second, hx, ⟨h₁, h₂.trans h₃, le_rfl⟩, hv₁, hsecond⟩, Nat.le_of_not_gt hbest⟩
  · exact ⟨h, Nat.le_of_not_gt hbest⟩

theorem Sound.update (h : Sound kind xs f y.time) (hy : y ∈ xs) (hxs : ∀ y ∈ xs, y.time ≤ x.time) :
    Sound kind (xs ++ [x]) (f.update kind x) x.time := by
  unfold WindowedFilter.update
  split
  · exact sound_reset hxs
  · next hkeep =>
    simp only [not_or, Nat.not_lt] at hkeep
    obtain ⟨-, hbest, hold⟩ := hkeep
    obtain ⟨hranked, hthird, htime⟩ := h.toRanked.replace hy hxs hbest
    have hlength : (f.replace kind x).windowLength = f.windowLength := by
      unfold WindowedFilter.replace
      split_ifs <;> rfl
    exact hranked.expire (dominates_last hxs) hthird (by omega)

/-- **The filter is a sliding maximum, or minimum**: after every sequence of samples at non-decreasing
    times, each estimate is a sample supplied at its time and better than every later one, the times
    ascend, the values go from the best to the worst, and the best is not older than the window. -/
theorem estimates_sound (kind : FilterKind) (windowLength : ℕ) (zeroValue : T) (zeroTime : ℕ)
    (xs : List (Sample T))
    (x : Sample T) (htimes : (xs ++ [x]).Pairwise fun y z => y.time ≤ z.time) :
    Sound kind (xs ++ [x])
    ((xs ++ [x]).foldl (update kind) (new windowLength zeroValue zeroTime)) x.time := by
  induction xs using List.reverseRecOn generalizing x with
  | nil =>
    have hfirst : (new windowLength zeroValue zeroTime).update kind x =
        (new windowLength zeroValue zeroTime).reset x :=
      if_pos (.inl rfl)
    rw [List.nil_append, List.foldl_cons, hfirst]
    exact sound_reset (nofun : ∀ y ∈ ([] : List (Sample T)), y.time ≤ x.time)
  | append_singleton xs y ih =>
    obtain ⟨hxs, -, hlast⟩ := List.pairwise_append.1 htimes
    rw [List.foldl_append]
    exact (ih y hxs).update (List.mem_append_right _ (.head _)) fun z hz => hlast z hz x (.head _)

/-- A maximum that expires: after a pause the estimate that was behind it has taken its place. -/
theorem estimates_sound_pause :
    ([⟨9, 0⟩, ⟨5, 4⟩, ⟨3, 8⟩, ⟨1, 11⟩].foldl (update .maxFilter) (new 10 0 0)).best.sample = 5 ∧
    Sound .maxFilter [⟨9, 0⟩, ⟨5, 4⟩, ⟨3, 8⟩, ⟨1, 11⟩]
      ([⟨9, 0⟩, ⟨5, 4⟩, ⟨3, 8⟩, ⟨1, 11⟩].foldl (update .maxFilter) (new 10 (0 : ℕ) 0)) 11 :=
  ⟨by decide, estimates_sound .maxFilter 10 0 0 [⟨9, 0⟩, ⟨5, 4⟩, ⟨3, 8⟩] ⟨1, 11⟩ (by simp)⟩

end WindowedFilter

end Puic
