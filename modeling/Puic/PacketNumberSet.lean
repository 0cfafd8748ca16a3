/-
  `PacketNumberQueue` as a finite set of packet numbers (quic_ack_frame.cc).

  A run applies the operations of the queue and, beside them, the operations on sets
  they stand for: `Add` inserts a number, `AddRange` joins an interval that is above or
  below all numbers, `RemoveUpTo` drops what is smaller, `RemoveSmallestInterval` drops
  what has no hole below it.  In every state that is reached the queue holds the numbers
  of the set (`Refines`), and all its answers are those of the set.
-/
import Mathlib.Algebra.Order.Ring.Nat
import Mathlib.Order.Interval.Finset.Nat
import Puic.Lib.Run
import Puic.PacketNumberQueue

namespace Puic

open GapList Finset

namespace PacketNumberQueue

open PacketNumbers

inductive QueueOp where
  | add (packetNumber : ℕ)
  | addRange (lower higher : ℕ)
  | removeUpTo (higher : ℕ)
  | removeSmallestInterval
deriving Repr, DecidableEq

def apply (q : PacketNumberQueue) : QueueOp → PacketNumberQueue
  | .add n => q.add n
  | .addRange lower higher => q.addRange lower higher
  | .removeUpTo higher => (q.removeUpTo higher).1
  | .removeSmallestInterval => q.removeSmallestInterval

/-! ## The operations on sets -/

/-- A number that is not there lies between a member and `x`. -/
def AboveHole (S : Finset ℕ) (x : ℕ) : Prop := ∃ m ∈ S, ∃ y ∈ Finset.Ioo m x, y ∉ S

instance (S : Finset ℕ) : DecidablePred (AboveHole S) := fun x =>
  inferInstanceAs (Decidable (∃ m ∈ S, ∃ y ∈ Finset.Ioo m x, y ∉ S))

def applySet (S : Finset ℕ) : QueueOp → Finset ℕ
  | .add n => insert n S
  | .addRange lower higher => S ∪ Finset.Ico lower higher
  | .removeUpTo higher => S.filter (higher ≤ ·)
  | .removeSmallestInterval => S.filter (AboveHole S)

/-- The number of maximal intervals of a set: each has one number whose predecessor is not there. -/
def numRuns (S : Finset ℕ) : ℕ := (S.filter fun x => x = 0 ∨ x - 1 ∉ S).card

/-- What the callers keep to. -/
def Allowed (q : PacketNumberQueue) (S : Finset ℕ) : QueueOp → Prop
  | .add n => n < 2 ^ 64 - 1
  | .addRange lower higher => higher < 2 ^ 64 ∧
      ((∀ x ∈ S, ∀ y ∈ Finset.Ico lower higher, x < y) ∨ ∀ x ∈ S, ∀ y ∈ Finset.Ico lower higher, y < x)
  | .removeUpTo higher => higher < 2 ^ 64
  | .removeSmallestInterval => 2 ≤ q.numIntervals

instance (q : PacketNumberQueue) (S : Finset ℕ) : DecidablePred (Allowed q S)
  | .add n => inferInstanceAs (Decidable (n < 2 ^ 64 - 1))
  | .addRange lower higher => inferInstanceAs (Decidable (higher < 2 ^ 64 ∧
      ((∀ x ∈ S, ∀ y ∈ Finset.Ico lower higher, x < y) ∨ ∀ x ∈ S, ∀ y ∈ Finset.Ico lower higher, y < x)))
  | .removeUpTo higher => inferInstanceAs (Decidable (higher < 2 ^ 64))
  | .removeSmallestInterval => inferInstanceAs (Decidable (2 ≤ q.numIntervals))

/-- The queue and the set take the same operation. -/
def queueStep (s : PacketNumberQueue × Finset ℕ) (op : QueueOp) : Option (PacketNumberQueue × Finset ℕ) :=
  if Allowed s.1 s.2 op then some (s.1.apply op, applySet s.2 op) else none

/-! ## One operation -/

variable {q : PacketNumberQueue} {S : Finset ℕ} {x : ℕ}

/-- The queue holds the numbers of the set, and no interval ends beyond a 64-bit number. -/
structure Holds (q : PacketNumberQueue) (S : Finset ℕ) : Prop where
  mem : ∀ x, x ∈ q ↔ x ∈ S
  bounded : ∀ x ∈ S, x < 2 ^ 64 - 1

theorem mem_addRange {lower higher : ℕ}
    (h : (∀ x ∈ q, ∀ y, lower ≤ y → y < higher → x < y) ∨ ∀ x ∈ q, ∀ y, lower ≤ y → y < higher → y < x) :
    x ∈ q.addRange lower higher ↔ (lower ≤ x ∧ x < higher) ∨ x ∈ q := by
  by_cases hlt : lower < higher
  · rcases h with h | h
    · exact missing_addRange q.sorted hlt (.inr fun y hy => h y hy lower le_rfl hlt)
    · refine missing_addRange q.sorted hlt (.inl fun y hy => ?_)
      have := h y hy (higher - 1) (by omega) (by omega)
      omega
  · have hq : PacketNumbers.addRange q.intervals lower higher = q.intervals := if_pos (by omega)
    show Missing (PacketNumbers.addRange q.intervals lower higher) x ↔ _
    rw [hq]
    exact ⟨.inr, fun hx => hx.resolve_left fun hx => by omega⟩

/-- The numbers above the first hole are those outside the first interval. -/
theorem mem_removeSmallestInterval_iff (h : ∀ x, x ∈ q ↔ x ∈ S) :
    x ∈ q.removeSmallestInterval ↔ x ∈ S ∧ AboveHole S x := by
  rcases q with ⟨_ | ⟨g, gs⟩, hlo, hlt, hgs⟩
  · simp [← h, mem_iff, removeSmallestInterval]
  have hmem : ∀ x, x ∈ S ↔ (g.lo ≤ x ∧ x < g.hi) ∨ Missing gs x := fun x => (h x).symm.trans missing_cons
  have hrest : ∀ x, Missing gs x → g.hi + 1 ≤ x := fun x => hgs.missing_ge
  have hhole : g.hi ∉ S := by
    rw [hmem]
    rintro (hg | hg)
    · omega
    · have := hrest _ hg
      omega
  constructor
  · intro hx
    have := hrest x hx
    exact ⟨(hmem x).2 (.inr hx), g.lo, (hmem _).2 (.inl ⟨le_rfl, hlt⟩), g.hi,
      mem_Ioo.2 ⟨hlt, by omega⟩, hhole⟩
  · rintro ⟨hx, m, hm, y, hy, hy'⟩
    refine ((hmem x).1 hx).resolve_left fun hg => hy' ((hmem y).2 (.inl ?_))
    rw [mem_Ioo] at hy
    rcases (hmem m).1 hm with hm | hm
    · omega
    · have := hrest m hm
      omega

theorem Holds.apply {op : QueueOp} (h : Holds q S) (hop : Allowed q S op) :
    Holds (q.apply op) (applySet S op) := by
  cases op with
  | add n =>
    constructor
    · intro x
      simp [PacketNumberQueue.apply, applySet, h.mem]
    · intro x hx
      rcases mem_insert.1 hx with rfl | hx
      · exact hop
      · exact h.bounded x hx
  | addRange lower higher =>
    obtain ⟨hhigh, hrange⟩ := hop
    constructor
    · intro x
      rw [PacketNumberQueue.apply, mem_addRange, applySet, mem_union, mem_Ico, h.mem, or_comm]
      simp only [h.mem]
      simp only [mem_Ico, and_imp] at hrange
      exact hrange
    · intro x hx
      rcases mem_union.1 hx with hx | hx
      · exact h.bounded x hx
      · rw [mem_Ico] at hx
        omega
  | removeUpTo higher =>
    constructor
    · intro x
      simp [PacketNumberQueue.apply, applySet, h.mem, and_comm]
    · exact fun x hx => h.bounded x (mem_filter.1 hx).1
  | removeSmallestInterval =>
    constructor
    · intro x
      rw [PacketNumberQueue.apply, mem_removeSmallestInterval_iff h.mem, applySet, mem_filter]
    · exact fun x hx => h.bounded x (mem_filter.1 hx).1

/-! ## The answers of the queue -/

theorem min_mem (h : q.isEmpty = false) : q.min ∈ q := by
  rcases q with ⟨_ | ⟨g, gs⟩, hlo, hlt, -⟩
  · cases h
  · exact ⟨g, .head _, le_rfl, hlt⟩

theorem min_le (h : x ∈ q) : q.min ≤ x := by
  rcases q with ⟨_ | ⟨g, gs⟩, hs⟩
  · exact absurd h missing_nil
  · have hsorted : Sorted g.lo (g :: gs) := ⟨le_rfl, hs.2⟩
    exact hsorted.missing_ge h

theorem isEmpty_iff : q.isEmpty = true ↔ ∀ x, x ∉ q := by
  constructor
  · intro h x hx
    rw [isEmpty_false hx] at h
    cases h
  · intro h
    by_contra hne
    rw [Bool.not_eq_true] at hne
    exact h _ (min_mem hne)

theorem isLeast_min (h : ∀ x, x ∈ q ↔ x ∈ S) (hne : q.isEmpty = false) : IsLeast (S : Set ℕ) q.min :=
  ⟨(h _).1 (min_mem hne), fun _ hx => min_le ((h _).2 hx)⟩

theorem isGreatest_max (h : ∀ x, x ∈ q ↔ x ∈ S) (hne : q.isEmpty = false) :
    IsGreatest (S : Set ℕ) q.max :=
  ⟨(h _).1 (max_mem hne), fun _ hx => le_max ((h _).2 hx)⟩

theorem isEmpty_iff_eq_empty (h : ∀ x, x ∈ q ↔ x ∈ S) : q.isEmpty = true ↔ S = ∅ := by
  rw [isEmpty_iff, eq_empty_iff_forall_notMem]
  exact forall_congr' fun x => not_congr (h x)

/-- The left ends are the numbers whose predecessor is missing. -/
theorem exists_lo_iff {gs : List Gap} {a : ℕ} (h : Sorted a gs) :
    (∃ g ∈ gs, g.lo = x) ↔ Missing gs x ∧ (x = 0 ∨ ¬ Missing gs (x - 1)) := by
  constructor
  · rintro ⟨g, hg, rfl⟩
    have hlt := h.lt_hi g hg
    refine ⟨⟨g, hg, le_rfl, hlt⟩, ?_⟩
    obtain ⟨p, r, rfl⟩ := List.append_of_mem hg
    obtain ⟨-, hp, -, -, hr⟩ := h.split
    rcases Nat.eq_zero_or_pos g.lo with h0 | hpos
    · exact .inl h0
    -- a neighbour with the number before `g` would touch it
    refine .inr ?_
    rintro ⟨k, hk, hklo, hkhi⟩
    rcases List.mem_append.1 hk with hk | hk
    · have := hp k hk
      omega
    rcases List.mem_cons.1 hk with rfl | hk
    · omega
    · have := hr.le_lo k hk
      omega
  · rintro ⟨⟨g, hg, hlo, hhi⟩, hx⟩
    refine ⟨g, hg, ?_⟩
    by_contra hne
    rcases hx with rfl | hx
    · omega
    · exact hx ⟨g, hg, by omega, by omega⟩

theorem pairwise_lt {gs : List Gap} {a : ℕ} (h : Sorted a gs) : gs.Pairwise fun g k => g.hi < k.lo := by
  induction gs generalizing a with
  | nil => exact .nil
  | cons g gs ih => exact .cons (fun k hk => h.2.2.le_lo k hk) (ih h.2.2)

theorem numIntervals_eq (h : ∀ x, x ∈ q ↔ x ∈ S) : q.numIntervals = numRuns S := by
  have hnodup : (q.intervals.map Gap.lo).Nodup := by
    refine List.pairwise_map.2 (List.Pairwise.imp_of_mem ?_ (pairwise_lt q.sorted))
    intro g k hg _ hlt
    have := q.sorted.lt_hi g hg
    omega
  have hset : (q.intervals.map Gap.lo).toFinset = S.filter fun x => x = 0 ∨ x - 1 ∉ S := by
    ext x
    rw [List.mem_toFinset, List.mem_map, exists_lo_iff q.sorted, mem_filter, ← h, ← h]
    rfl
  rw [numIntervals, numRuns, ← hset, List.toFinset_card_of_nodup hnodup, List.length_map]

theorem removeUpTo_snd (h : ∀ x, x ∈ q ↔ x ∈ S) (higher : ℕ) :
    (q.removeUpTo higher).2 = true ↔ (S.Nonempty ∧ applySet S (.removeUpTo higher) = ∅) ∨
      ∃ m m', IsLeast (S : Set ℕ) m ∧ IsLeast (applySet S (.removeUpTo higher) : Set ℕ) m' ∧ m ≠ m' := by
  set q' := (q.removeUpTo higher).1 with hq'
  have h' : ∀ x, x ∈ q' ↔ x ∈ applySet S (.removeUpTo higher) := by
    intro x
    simp [q', applySet, h, and_comm]
  by_cases he : q.isEmpty = true
  · have hS := (isEmpty_iff_eq_empty h).1 he
    have hno : (q.removeUpTo higher).2 = false := by rw [removeUpTo, if_pos he]
    simp [hno, hS, IsLeast]
  · have hS : S.Nonempty := nonempty_iff_ne_empty.2 fun hS => he ((isEmpty_iff_eq_empty h).2 hS)
    have hres : (q.removeUpTo higher).2 = (q'.isEmpty || q.min != q'.min) := by
      rw [hq', removeUpTo, if_neg he]
    rw [hres, Bool.or_eq_true, isEmpty_iff_eq_empty h', bne_iff_ne]
    have hmin := isLeast_min h (Bool.not_eq_true _ ▸ he)
    by_cases he' : q'.isEmpty = true
    · simp [hS, (isEmpty_iff_eq_empty h').1 he']
    · have hmin' := isLeast_min h' (Bool.not_eq_true _ ▸ he')
      have hS' : applySet S (.removeUpTo higher) ≠ ∅ := fun hS => he' ((isEmpty_iff_eq_empty h').2 hS)
      simp only [hS', and_false, false_or]
      constructor
      · exact fun hne => ⟨_, _, hmin, hmin', hne⟩
      · rintro ⟨m, m', hm, hm', hne⟩
        rwa [hmin.unique hm, hmin'.unique hm']

/-! ## Runs -/

/-- The queue is in canonical form, its union is the set, and its answers are those of the set. -/
structure Refines (q : PacketNumberQueue) (S : Finset ℕ) : Prop where
  nonempty : ∀ g ∈ q.intervals, g.lo < g.hi ∧ g.hi < 2 ^ 64
  apart : q.intervals.Pairwise fun g k => g.hi < k.lo
  union : ∀ x, x ∈ S ↔ ∃ g ∈ q.intervals, g.lo ≤ x ∧ x < g.hi
  contains : ∀ x, q.contains x = decide (x ∈ S)
  empty : q.isEmpty = true ↔ S = ∅
  min : q.isEmpty = false → IsLeast (S : Set ℕ) q.min
  max : q.isEmpty = false → IsGreatest (S : Set ℕ) q.max
  numIntervals : q.numIntervals = numRuns S
  removed : ∀ higher, (q.removeUpTo higher).2 = true ↔
    (S.Nonempty ∧ applySet S (.removeUpTo higher) = ∅) ∨
    ∃ m m', IsLeast (S : Set ℕ) m ∧ IsLeast (applySet S (.removeUpTo higher) : Set ℕ) m' ∧ m ≠ m'

theorem Holds.refines (h : Holds q S) : Refines q S where
  nonempty g hg := by
    have hlt := q.sorted.lt_hi g hg
    have hlast := h.bounded (g.hi - 1) ((h.mem _).1 ⟨g, hg, by omega, by omega⟩)
    exact ⟨hlt, by omega⟩
  apart := pairwise_lt q.sorted
  union x := (h.mem x).symm
  contains x := by rw [Bool.eq_iff_iff, contains_iff, h.mem, decide_eq_true_iff]
  empty := isEmpty_iff_eq_empty h.mem
  min := isLeast_min h.mem
  max := isGreatest_max h.mem
  numIntervals := numIntervals_eq h.mem
  removed := removeUpTo_snd h.mem

theorem holds_run {ops : List QueueOp} {s : PacketNumberQueue × Finset ℕ}
    (h : Machine.run queueStep (empty, ∅) ops = some s) : Holds s.1 s.2 := by
  refine Machine.run_inv (I := fun s => Holds s.1 s.2) ?_ ⟨?_, ?_⟩ h
  · rintro ⟨q, S⟩ op s' hs hstep
    unfold queueStep at hstep
    split at hstep
    · next hop =>
      cases hstep
      exact hs.apply hop
    · cases hstep
  · simp
  · simp

/-- **Received packet numbers refine a finite set**, after every sequence of operations. -/
theorem queue_refines_set {ops : List QueueOp} {q : PacketNumberQueue} {S : Finset ℕ}
    (h : Machine.run queueStep (empty, ∅) ops = some (q, S)) : Refines q S :=
  (holds_run h).refines

/-- Out of order, with a merge, a range below, and both removals. -/
theorem queue_refines_set_mixed : ∃ s, Machine.run queueStep (empty, ∅)
    [.add 15, .add 13, .add 14, .add 20, .addRange 3 7, .removeUpTo 5, .removeSmallestInterval] = some s ∧
    Refines s.1 s.2 := by
  obtain ⟨s, hs⟩ := Option.isSome_iff_exists.1 (by decide +kernel : (Machine.run queueStep (empty, ∅)
    [.add 15, .add 13, .add 14, .add 20, .addRange 3 7, .removeUpTo 5,
      .removeSmallestInterval]).isSome = true)
  exact ⟨s, hs, queue_refines_set hs⟩

end PacketNumberQueue

end Puic
