/-
  The packet numbers an endpoint has received (`PacketNumberQueue` of
  quic_ack_frame.cc).

  The numbers are kept as half-open intervals in ascending order that do not touch,
  oldest first; these are the lists of `GapList`, read as what has arrived instead of
  what is missing.  The functions on plain lists follow the source, and
  `PacketNumberQueue` carries the order with them.
-/
import Puic.Lib.GapList

namespace Puic

open GapList List

namespace PacketNumbers

/-- The loop of `Add`, which goes through the intervals from the newest one. -/
def addBackwards (n : ℕ) : List Gap → List Gap
  | [] => []
  | g :: gs =>
    if g.lo ≤ n ∧ n < g.hi then g :: gs
    else if g.hi = n then ⟨g.lo, n + 1⟩ :: gs
    else if g.lo = n + 1 then
      match gs with
      | k :: ks => if n = k.hi then ⟨k.lo, g.hi⟩ :: ks else ⟨n, g.hi⟩ :: gs
      | [] => [⟨n, g.hi⟩]
    else if g.hi < n + 1 then ⟨n, n + 1⟩ :: g :: gs
    else g :: addBackwards n gs

/-- `Add`. -/
def add (q : List Gap) (n : ℕ) : List Gap :=
  match q.getLast?, q.head? with
  | some back, some front =>
    if back.hi = n then q.dropLast ++ [⟨back.lo, n + 1⟩]
    else if back.hi < n then q ++ [⟨n, n + 1⟩]
    else if n + 1 < front.lo then ⟨n, n + 1⟩ :: q
    else if front.lo = n + 1 then ⟨n, front.hi⟩ :: q.tail
    else (addBackwards n q.reverse).reverse
  | _, _ => [⟨n, n + 1⟩]

/-- `AddRange`, which only takes ranges above or below everything that is there. -/
def addRange (q : List Gap) (lower higher : ℕ) : List Gap :=
  if higher ≤ lower then q
  else match q.getLast?, q.head? with
    | some back, some front =>
      if back.hi = lower then q.dropLast ++ [⟨back.lo, higher⟩]
      else if back.hi < lower then q ++ [⟨lower, higher⟩]
      else if front.lo = higher then ⟨lower, front.hi⟩ :: q.tail
      else if higher < front.lo then ⟨lower, higher⟩ :: q
      else q
    | _, _ => [⟨lower, higher⟩]

/-- The loop of `RemoveUpTo`. -/
def removeUpTo (higher : ℕ) : List Gap → List Gap
  | [] => []
  | g :: gs =>
    if g.hi < higher then removeUpTo higher gs
    else if g.lo < higher ∧ higher ≤ g.hi then
      if g.hi = higher then gs else ⟨higher, g.hi⟩ :: gs
    else g :: gs

def contains (q : List Gap) (n : ℕ) : Bool :=
  match q.head?, q.getLast? with
  | some front, some back =>
    if n < front.lo ∨ back.hi ≤ n then false else q.any fun g => decide (g.lo ≤ n ∧ n < g.hi)
  | _, _ => false

variable {q gs : List Gap} {n x a b : ℕ}

theorem exists_back (h : Sorted a q) (hne : q ≠ []) :
    ∃ p back, q = p ++ [back] ∧ back.lo < back.hi ∧ ∀ g ∈ q, g.hi ≤ back.hi := by
  rcases eq_nil_or_concat q with rfl | ⟨p, back, rfl⟩
  · exact absurd rfl hne
  rw [concat_eq_append] at *
  obtain ⟨-, hlt, -, hb, -⟩ := h.split
  refine ⟨p, back, rfl, hb, fun g hg => ?_⟩
  rcases mem_append.1 hg with hg | hg
  · have := hlt g hg
    omega
  · rw [mem_singleton.1 hg]

/-- Both ends of a list that is not empty. -/
theorem exists_ends (h : Sorted 0 q) (hne : q ≠ []) :
    ∃ front rest p back, q = front :: rest ∧ q = p ++ [back] ∧
    q.head? = some front ∧ q.getLast? = some back ∧ front.lo < front.hi ∧ back.lo < back.hi ∧
      ∀ g ∈ q, front.lo ≤ g.lo ∧ g.hi ≤ back.hi := by
  obtain ⟨p, back, hp, hb, hback⟩ := exists_back h hne
  obtain ⟨front, rest, hq⟩ := exists_cons_of_ne_nil hne
  have hsorted : Sorted front.lo q := hq ▸ ⟨le_rfl, (hq ▸ h).2⟩
  refine ⟨front, rest, p, back, hq, hp, by simp [hq], by simp [hp], h.lt_hi front (by simp [hq]), hb, ?_⟩
  exact fun g hg => ⟨hsorted.le_lo g hg, hback g hg⟩

theorem missing_reverse : Missing q.reverse x ↔ Missing q x := by simp [Missing]

theorem missing_concat {g : Gap} : Missing (q ++ [g]) x ↔ Missing q x ∨ (g.lo ≤ x ∧ x < g.hi) := by
  rw [missing_append, missing_cons]
  simp

/-! ## `Add` -/

/-- What `Add` puts into the list ends at the new number or where an interval ended before. -/
theorem addBackwards_hi (hb : n + 1 < b) (h : ∀ g ∈ gs, g.hi < b) :
    ∀ g ∈ addBackwards n gs, g.hi < b := by
  induction gs with
  | nil => simp [addBackwards]
  | cons g gs ih =>
    obtain ⟨hg, hgs⟩ := forall_mem_cons.1 h
    unfold addBackwards
    split_ifs with h1 h2 h3 h4
    · exact h
    · exact forall_mem_cons.2 ⟨hb, hgs⟩
    · cases gs with
      | nil => simpa using hg
      | cons m ms =>
        dsimp only
        split_ifs
        · exact forall_mem_cons.2 ⟨hg, (forall_mem_cons.1 hgs).2⟩
        · exact forall_mem_cons.2 ⟨hg, hgs⟩
    · exact forall_mem_cons.2 ⟨hb, h⟩
    · exact forall_mem_cons.2 ⟨hg, ih hgs⟩

/-- The last interval grows upwards. -/
theorem sorted_concat {g : Gap} (h : Sorted a (gs ++ [g])) (hlt : g.lo < b) :
    Sorted a (gs ++ [⟨g.lo, b⟩]) := by
  obtain ⟨h1, h2, h3, -, -⟩ := h.split
  exact h1.join h2 h3 ⟨le_rfl, hlt, trivial⟩

/-- The first interval grows downwards. -/
theorem sorted_front {g : Gap} (h : Sorted 0 (g :: gs)) (hlt : b < g.hi) : Sorted 0 (⟨b, g.hi⟩ :: gs) :=
  ⟨Nat.zero_le _, hlt, h.2.2⟩

/-- An interval behind all others. -/
theorem sorted_behind (h : Sorted a gs) (ha : a ≤ n) (hn : ∀ g ∈ gs, g.hi < n) (hlt : n < b) :
    Sorted a (gs ++ [⟨n, b⟩]) :=
  h.join hn ha ⟨le_rfl, hlt, trivial⟩

theorem sorted_addBackwards (h : Sorted a gs.reverse) (ha : a ≤ n) :
    Sorted a (addBackwards n gs).reverse := by
  induction gs with
  | nil => exact h
  | cons g gs ih =>
    rw [reverse_cons] at h
    obtain ⟨hgs, hlt, hle, hg, -⟩ := h.split
    simp only [mem_reverse] at hlt
    unfold addBackwards
    split_ifs with h1 h2 h3 h4
    · rwa [reverse_cons]
    · rw [reverse_cons]
      exact sorted_concat h (by omega)
    · cases gs with
      | nil => exact ⟨ha, by dsimp only; omega, trivial⟩
      | cons k ks =>
        have hk : k.hi < g.lo := hlt k (.head _)
        rw [reverse_cons] at hgs
        obtain ⟨hks, hlt', -, hlo, -⟩ := hgs.split
        dsimp only
        split_ifs with h5
        · rw [reverse_cons]
          exact sorted_concat hgs (by omega)
        · rw [reverse_cons, reverse_cons]
          refine sorted_behind hgs ha (fun m hm => ?_) (by omega)
          rcases mem_append.1 hm with hm | hm
          · have := hlt' m hm
            omega
          · rw [mem_singleton.1 hm]
            omega
    · rw [reverse_cons, reverse_cons]
      refine sorted_behind h ha (fun m hm => ?_) (Nat.lt_succ_self n)
      simp only [mem_append, mem_reverse, mem_singleton] at hm
      rcases hm with hm | rfl
      · have := hlt m hm
        omega
      · omega
    · rw [reverse_cons]
      refine sorted_behind (ih hgs) hle (fun m hm => ?_) hg
      exact addBackwards_hi (by omega) hlt m (mem_reverse.1 hm)

/-- The loop finds a place for every number that is not below the first interval. -/
theorem missing_addBackwards (h : Sorted a gs.reverse) (hn : ∃ g ∈ gs, g.lo ≤ n + 1) :
    Missing (addBackwards n gs) x ↔ x = n ∨ Missing gs x := by
  induction gs with
  | nil => simp at hn
  | cons g gs ih =>
    rw [reverse_cons] at h
    obtain ⟨hgs, hlt, hle, hg, -⟩ := h.split
    unfold addBackwards
    split_ifs with h1 h2 h3 h4
    · grind [missing_cons]
    · grind [missing_cons]
    · cases gs with
      | nil => grind [missing_cons, missing_nil]
      | cons k ks =>
        have hlo : k.lo < k.hi := hgs.lt_hi k (by simp)
        dsimp only
        split_ifs with h5 <;> grind [missing_cons]
    · grind [missing_cons]
    · have hrest : ∃ k ∈ gs, k.lo ≤ n + 1 := by
        obtain ⟨k, hk, hkn⟩ := hn
        rcases mem_cons.1 hk with rfl | hk
        · omega
        · exact ⟨k, hk, hkn⟩
      rw [missing_cons, missing_cons, ih hgs hrest]
      exact or_left_comm

theorem sorted_add (h : Sorted 0 q) : Sorted 0 (add q n) := by
  unfold add
  by_cases hne : q = []
  · subst hne
    exact ⟨Nat.zero_le _, Nat.lt_succ_self n, trivial⟩
  obtain ⟨front, rest, p, back, hq, hp, hhead, hlast, hf, hb, hends⟩ := exists_ends h hne
  rw [hlast, hhead]
  dsimp only
  split_ifs with h1 h2 h3 h4
  · rw [hp, dropLast_concat]
    exact sorted_concat (hp ▸ h) (by omega)
  · exact sorted_behind h (Nat.zero_le n) (fun g hg => (hends g hg).2.trans_lt h2) (Nat.lt_succ_self n)
  · rw [hq] at h ⊢
    exact ⟨Nat.zero_le _, Nat.lt_succ_self n, h3, h.2⟩
  · rw [hq] at h ⊢
    exact sorted_front h (by omega)
  · exact sorted_addBackwards (by rwa [reverse_reverse]) (Nat.zero_le n)

theorem missing_add (h : Sorted 0 q) : Missing (add q n) x ↔ x = n ∨ Missing q x := by
  unfold add
  by_cases hne : q = []
  · subst hne
    grind [missing_cons, missing_nil]
  obtain ⟨front, rest, p, back, hq, hp, hhead, hlast, hf, hb, hends⟩ := exists_ends h hne
  rw [hlast, hhead]
  dsimp only
  split_ifs with h1 h2 h3 h4
  · rw [hp, dropLast_concat, missing_concat, missing_concat]
    grind
  · grind [missing_concat]
  · grind [missing_cons]
  · rw [hq, tail_cons, missing_cons, missing_cons]
    grind
  · rw [missing_reverse, missing_addBackwards (by rwa [reverse_reverse]) ⟨front, by simp [hq], by omega⟩,
      missing_reverse]

/-! ## `AddRange` -/

theorem sorted_addRange (h : Sorted 0 q) : Sorted 0 (addRange q a b) := by
  unfold addRange
  split
  · exact h
  next hab =>
  rw [not_le] at hab
  by_cases hne : q = []
  · subst hne
    exact ⟨Nat.zero_le _, hab, trivial⟩
  obtain ⟨front, rest, p, back, hq, hp, hhead, hlast, hf, hb, hends⟩ := exists_ends h hne
  rw [hlast, hhead]
  dsimp only
  split_ifs with h1 h2 h3 h4
  · rw [hp, dropLast_concat]
    exact sorted_concat (hp ▸ h) (by omega)
  · exact sorted_behind h (Nat.zero_le a) (fun g hg => (hends g hg).2.trans_lt h2) hab
  · rw [hq] at h ⊢
    exact sorted_front h (by omega)
  · rw [hq] at h ⊢
    exact ⟨Nat.zero_le _, hab, h4, h.2⟩
  · exact h

/-- A range below everything that is there, or above it. -/
theorem missing_addRange (h : Sorted 0 q) (hab : a < b)
    (hq : (∀ y, Missing q y → b ≤ y) ∨ ∀ y, Missing q y → y < a) :
    Missing (addRange q a b) x ↔ (a ≤ x ∧ x < b) ∨ Missing q x := by
  unfold addRange
  rw [if_neg (not_le.2 hab)]
  by_cases hne : q = []
  · subst hne
    grind [missing_cons]
  obtain ⟨front, rest, p, back, hcons, hp, hhead, hlast, hf, hb, hends⟩ := exists_ends h hne
  have hin : b ≤ front.lo ∨ back.hi ≤ a := by
    rcases hq with hq | hq
    · exact .inl (hq _ ⟨front, by simp [hcons], le_rfl, hf⟩)
    · have := hq (back.hi - 1) ⟨back, by simp [hp], by omega, by omega⟩
      omega
  rw [hlast, hhead]
  dsimp only
  split_ifs with h1 h2 h3 h4
  · rw [hp, dropLast_concat, missing_concat, missing_concat]
    grind
  · rw [missing_concat, or_comm]
  · rw [hcons, tail_cons, missing_cons, missing_cons]
    grind
  · rw [missing_cons]
  · omega

theorem missing_addRange_of_missing (h : Sorted 0 q) (hx : Missing q x) : Missing (addRange q a b) x := by
  unfold addRange
  split
  · exact hx
  by_cases hne : q = []
  · exact absurd (hne ▸ hx) missing_nil
  obtain ⟨front, rest, p, back, hq, hp, hhead, hlast, hf, hb, hends⟩ := exists_ends h hne
  rw [hlast, hhead]
  dsimp only
  split_ifs with h1 h2 h3 h4
  · rw [hp, dropLast_concat, missing_concat]
    rw [hp, missing_concat] at hx
    exact hx.imp_right fun hx => ⟨hx.1, by dsimp only; omega⟩
  · exact missing_append.2 (.inl hx)
  · rw [hq, missing_cons] at hx
    rw [hq, tail_cons, missing_cons]
    exact hx.imp_left fun hx => ⟨by dsimp only; omega, hx.2⟩
  · exact missing_cons.2 (.inr hx)
  · exact hx

/-- A range that is neither above nor below what is there is not added. -/
theorem addRange_inside (h : Sorted 0 q) {y z : ℕ} (hy : Missing q y) (hyb : y < b)
    (hz : Missing q z) (haz : a ≤ z) :
    addRange q a b = q := by
  unfold addRange
  split
  · rfl
  by_cases hne : q = []
  · exact absurd (hne ▸ hy) missing_nil
  obtain ⟨front, rest, p, back, hq, hp, hhead, hlast, hf, hb, hends⟩ := exists_ends h hne
  obtain ⟨k, hk, hky, -⟩ := hy
  obtain ⟨g, hg, -, hzg⟩ := hz
  have hlow := (hends k hk).1
  have hhigh := (hends g hg).2
  rw [hlast, hhead]
  dsimp only
  rw [if_neg (by omega), if_neg (by omega), if_neg (by omega), if_neg (by omega)]

/-! ## `RemoveUpTo` and `Contains` -/

theorem sorted_removeUpTo (h : Sorted a q) : Sorted a (removeUpTo n q) := by
  induction q generalizing a with
  | nil => exact h
  | cons g gs ih =>
    obtain ⟨h1, h2, h3⟩ := h
    unfold removeUpTo
    split_ifs with h4 h5 h6
    · exact (ih h3).mono (by omega)
    · exact h3.mono (by omega)
    · exact ⟨by dsimp only; omega, by dsimp only; omega, h3⟩
    · exact ⟨h1, h2, h3⟩

theorem missing_removeUpTo (h : Sorted a q) : Missing (removeUpTo n q) x ↔ n ≤ x ∧ Missing q x := by
  induction q generalizing a with
  | nil => simp [removeUpTo]
  | cons g gs ih =>
    obtain ⟨h1, h2, h3⟩ := h
    have hgs : Missing gs x → g.hi + 1 ≤ x := h3.missing_ge
    unfold removeUpTo
    split_ifs with h4 h5 h6
    · rw [ih h3, missing_cons]
      grind
    all_goals grind [missing_cons]

theorem contains_eq_true (h : Sorted 0 q) : contains q n = true ↔ Missing q n := by
  by_cases hne : q = []
  · simp [hne, contains]
  obtain ⟨front, rest, p, back, -, -, hhead, hlast, -, -, hends⟩ := exists_ends h hne
  unfold contains
  rw [hhead, hlast]
  dsimp only
  split_ifs with hout
  · refine ⟨(nomatch ·), ?_⟩
    rintro ⟨g, hg, hlo, hhi⟩
    have := hends g hg
    omega
  · simp [Missing]

end PacketNumbers

/-- `PacketNumberQueue`: the intervals are ascending and do not touch. -/
structure PacketNumberQueue where
  intervals : List Gap
  sorted : Sorted 0 intervals
deriving DecidableEq

namespace PacketNumberQueue

open PacketNumbers

def empty : PacketNumberQueue := ⟨[], trivial⟩

instance : Membership ℕ PacketNumberQueue := ⟨fun q n => Missing q.intervals n⟩

variable (q : PacketNumberQueue)

def add (n : ℕ) : PacketNumberQueue := ⟨PacketNumbers.add q.intervals n, sorted_add q.sorted⟩

def addRange (lower higher : ℕ) : PacketNumberQueue :=
  ⟨PacketNumbers.addRange q.intervals lower higher, sorted_addRange q.sorted⟩

def isEmpty : Bool := q.intervals.isEmpty

def min : ℕ := (q.intervals.head?.map Gap.lo).getD 0

def max : ℕ := (q.intervals.getLast?.map fun g => g.hi - 1).getD 0

def numIntervals : ℕ := q.intervals.length

def contains (n : ℕ) : Bool := PacketNumbers.contains q.intervals n

/-- `RemoveUpTo` says whether something was removed. -/
def removeUpTo (higher : ℕ) : PacketNumberQueue × Bool :=
  if q.isEmpty then (q, false)
  else
    let q' : PacketNumberQueue :=
      ⟨PacketNumbers.removeUpTo higher q.intervals, sorted_removeUpTo q.sorted⟩
    (q', q'.isEmpty || q.min != q'.min)

theorem sorted_tail {gs : List Gap} (h : Sorted 0 gs) : Sorted 0 gs.tail := by
  cases gs with
  | nil => exact h
  | cons g gs => exact h.2.2.mono (Nat.zero_le _)

def removeSmallestInterval : PacketNumberQueue := ⟨q.intervals.tail, sorted_tail q.sorted⟩

variable {q : PacketNumberQueue} {n x : ℕ}

theorem mem_iff : x ∈ q ↔ Missing q.intervals x := Iff.rfl

instance : Decidable (n ∈ q) := inferInstanceAs (Decidable (Missing q.intervals n))

@[simp] theorem not_mem_empty : x ∉ empty := missing_nil

@[simp] theorem mem_add : x ∈ q.add n ↔ x = n ∨ x ∈ q := missing_add q.sorted

@[simp] theorem contains_iff : q.contains n = true ↔ n ∈ q := contains_eq_true q.sorted

@[simp] theorem mem_removeUpTo : x ∈ (q.removeUpTo n).1 ↔ n ≤ x ∧ x ∈ q := by
  unfold removeUpTo
  split_ifs with he
  · have hnil : q.intervals = [] := isEmpty_iff.1 he
    simp [mem_iff, hnil]
  · exact missing_removeUpTo q.sorted

theorem mem_removeSmallestInterval :
    x ∈ q ↔ (∃ g, q.intervals.head? = some g ∧ g.lo ≤ x ∧ x < g.hi) ∨ x ∈ q.removeSmallestInterval := by
  rcases q with ⟨_ | ⟨g, gs⟩, h⟩
  · simp [mem_iff, removeSmallestInterval]
  · simp [mem_iff, removeSmallestInterval, missing_cons]

/-! ## The largest number -/

theorem max_eq (h : q.isEmpty = false) :
    ∃ back ∈ q.intervals, q.max = back.hi - 1 ∧ back.lo < back.hi ∧
      ∀ g ∈ q.intervals, g.hi ≤ back.hi := by
  have hne : q.intervals ≠ [] := fun hn => by simp [isEmpty, hn] at h
  obtain ⟨p, back, hq, hb, hback⟩ := exists_back q.sorted hne
  exact ⟨back, by simp [hq], by simp [max, hq], hb, hback⟩

theorem isEmpty_false (h : x ∈ q) : q.isEmpty = false := by
  obtain ⟨g, hg, -⟩ := h
  rw [isEmpty, isEmpty_eq_false_iff]
  exact ne_nil_of_mem hg

theorem max_mem (h : q.isEmpty = false) : q.max ∈ q := by
  obtain ⟨back, hb, hmax, hlt, -⟩ := max_eq h
  exact ⟨back, hb, by omega, by omega⟩

theorem le_max (h : x ∈ q) : x ≤ q.max := by
  obtain ⟨back, -, hmax, -, hback⟩ := max_eq (isEmpty_false h)
  obtain ⟨g, hg, -, hx⟩ := h
  have := hback g hg
  omega

end PacketNumberQueue

end Puic
