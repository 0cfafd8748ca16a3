/-
  Queues whose entries keep their numbers.

  The entries of an `Indexed` queue are numbered from `base` on.  New entries come at
  the end, entries leave at the front and take their numbers with them, and every
  entry can be changed under its number.  `total f` adds up a quantity of all
  entries, in any commutative monoid.
-/
import Mathlib.Algebra.BigOperators.Group.List.Basic
import Mathlib.Algebra.Order.BigOperators.Group.List
import Mathlib.Algebra.Order.Ring.Nat
import Mathlib.Data.List.Range

universe u v

structure Indexed (α : Type u) where
  base : ℕ
  items : List α

namespace Indexed

variable {α : Type u} {M : Type v} {β : Type v}

variable (d : Indexed α)

def get? (p : ℕ) : Option α := if p < d.base then none else d.items[p - d.base]?

/-- The number the next entry gets. -/
def top : ℕ := d.base + d.items.length

def numbers : List ℕ := List.range' d.base d.items.length

def push (x : α) : Indexed α := { d with items := d.items ++ [x] }

/-- `k` new entries. -/
def pad (d : Indexed α) (x : α) : ℕ → Indexed α
  | 0 => d
  | k + 1 => (d.pad x k).push x

def modify (p : ℕ) (f : α → α) : Indexed α :=
  if p < d.base then d else { d with items := d.items.modify (p - d.base) f }

def map (f : α → α) : Indexed α := { d with items := d.items.map f }

/-- Entries leave at the front as long as `u` says so. -/
def popWhile (u : ℕ → α → Bool) (base : ℕ) : List α → Indexed α
  | [] => ⟨base, []⟩
  | x :: xs => if u base x then popWhile u (base + 1) xs else ⟨base, x :: xs⟩

def total [AddCommMonoid M] (f : α → M) (d : Indexed α) : M := (d.items.map f).sum

variable {d : Indexed α} {p q : ℕ} {x y : α} {f : α → α} {z : β} {r : α → β}

theorem get?_eq_some : d.get? p = some x ↔ d.base ≤ p ∧ d.items[p - d.base]? = some x := by
  unfold get?
  split
  · next h => simp; omega
  · next h => simp [Nat.le_of_not_lt h]

theorem get?_cons {xs : List α} :
    (⟨p, x :: xs⟩ : Indexed α).get? q = if q = p then some x else (⟨p + 1, xs⟩ : Indexed α).get? q := by
  unfold get?
  dsimp only
  rcases Nat.lt_trichotomy q p with h | rfl | h
  · rw [if_pos h, if_neg (by omega), if_pos (by omega)]
  · simp
  · rw [if_neg (by omega), if_neg (by omega), if_neg (by omega), show q - p = q - (p + 1) + 1 by omega,
      List.getElem?_cons_succ]

theorem lt_top (h : d.get? p = some x) : d.base ≤ p ∧ p < d.top := by
  obtain ⟨h1, h2⟩ := get?_eq_some.1 h
  obtain ⟨h3, -⟩ := List.getElem?_eq_some_iff.1 h2
  unfold top
  omega

theorem exists_get? (h1 : d.base ≤ p) (h2 : p < d.top) : ∃ x, d.get? p = some x := by
  unfold top at h2
  have hlt : p - d.base < d.items.length := by omega
  exact ⟨_, get?_eq_some.2 ⟨h1, List.getElem?_eq_getElem hlt⟩⟩

theorem get?_eq_none (h : p < d.base ∨ d.top ≤ p) : d.get? p = none := by
  cases hg : d.get? p with
  | none => rfl
  | some x =>
    have := lt_top hg
    omega

theorem mem_numbers : p ∈ d.numbers ↔ d.base ≤ p ∧ p < d.top := by
  unfold numbers top
  rw [List.mem_range'_1]

theorem mem_items : x ∈ d.items ↔ ∃ p, d.get? p = some x := by
  constructor
  · intro h
    obtain ⟨k, hk, he⟩ := List.getElem_of_mem h
    refine ⟨d.base + k, get?_eq_some.2 ⟨by omega, ?_⟩⟩
    rw [Nat.add_sub_cancel_left, List.getElem?_eq_getElem hk, he]
  · rintro ⟨p, h⟩
    exact List.mem_of_getElem? (get?_eq_some.1 h).2

/-! ## Changing an entry -/

@[simp] theorem modify_base : (d.modify p f).base = d.base := by
  unfold modify
  split <;> rfl

@[simp] theorem modify_top : (d.modify p f).top = d.top := by
  unfold modify
  split
  · rfl
  · simp [top]

theorem get?_modify : (d.modify p f).get? q = if q = p then (d.get? q).map f else d.get? q := by
  unfold modify
  split_ifs with h1 h2 h2
  · subst h2
    simp [get?, h1]
  · rfl
  · subst h2
    simp [get?, h1]
  · unfold get?
    dsimp only
    split_ifs with h3
    · rfl
    · have hne : p - d.base ≠ q - d.base := by omega
      simp [hne]

theorem get?_modify_self (h : d.get? p = some x) : (d.modify p f).get? p = some (f x) := by
  rw [get?_modify, if_pos rfl, h, Option.map_some]

theorem elim_modify (h : ∀ x, r (f x) = r x) : ((d.modify p f).get? q).elim z r =
    (d.get? q).elim z r := by
  rw [get?_modify]
  split
  · rw [Option.elim_map]
    exact congrArg (Option.elim _ _) (funext h)
  · rfl

theorem sum_modify [AddCommMonoid M] (g : α → M) : ∀ {l : List α} {k : ℕ}, l[k]? = some x →
    ((l.modify k f).map g).sum + g x = (l.map g).sum + g (f x)
  | y :: l, 0, h => by
    cases h
    simp only [List.modify_zero_cons, List.map_cons, List.sum_cons]
    rw [add_right_comm, add_comm (g (f x)), add_right_comm]
  | y :: l, k + 1, h => by
    have ih := sum_modify g (l := l) h
    simp only [List.modify_succ_cons, List.map_cons, List.sum_cons]
    rw [add_assoc, ih, add_assoc]

theorem total_modify [AddCommMonoid M] (g : α → M) (h : d.get? p = some x) :
    total g (d.modify p f) + g x = total g d + g (f x) := by
  obtain ⟨h1, h2⟩ := get?_eq_some.1 h
  unfold modify
  rw [if_neg (by omega)]
  exact sum_modify g h2

theorem le_total (g : α → ℕ) (h : d.get? p = some x) : g x ≤ total g d :=
  List.single_le_sum (fun _ _ => Nat.zero_le _) _ (List.mem_map_of_mem (mem_items.2 ⟨p, h⟩))

/-! ## All entries -/

@[simp] theorem map_top : (d.map f).top = d.top := by simp [map, top]

theorem get?_map : (d.map f).get? p = (d.get? p).map f := by
  unfold map get?
  split
  · rfl
  · rw [List.getElem?_map]

theorem total_map [AddCommMonoid M] (g : α → M) (h : ∀ x, g (f x) = g x) : total g
    (d.map f) = total g d := by
  unfold total map
  simp only [List.map_map]
  congr 1
  exact List.map_congr_left fun x _ => h x

/-- A quantity that is split between the new entry and the rest. -/
theorem total_map_add [AddCommMonoid M] {g h k : α → M} (he : ∀ x, g (f x) + h x = k x) :
    total g (d.map f) + total h d = total k d := by
  rcases d with ⟨base, items⟩
  unfold total map
  induction items with
  | nil => exact add_zero 0
  | cons x xs ih =>
    simp only [List.map_cons, List.sum_cons] at ih ⊢
    rw [add_add_add_comm, he, ih]

theorem get?_foldl_modify {ps : List ℕ} (hp : ps.Nodup) :
    (ps.foldl (fun d p => d.modify p f) d).get? q = if q ∈ ps then (d.get? q).map f else d.get? q := by
  induction ps generalizing d with
  | nil => simp
  | cons p ps ih =>
    obtain ⟨hout, hp⟩ := List.nodup_cons.1 hp
    rw [List.foldl_cons, ih hp, get?_modify]
    by_cases hq : q = p
    · subst hq
      simp [hout]
    · simp [hq]

theorem ext_get? {e : Indexed α} (hb : e.base = d.base) (ht : e.top = d.top)
    (h : ∀ p, e.get? p = d.get? p) : e = d := by
  rcases d with ⟨base, items⟩
  rcases e with ⟨base', items'⟩
  subst hb
  congr 1
  refine List.ext_getElem? fun k => ?_
  have hk := h (base' + k)
  simpa [get?] using hk

theorem modify_congr {g : α → α} (h : ∀ x, d.get? p = some x → f x = g x) :
    d.modify p f = d.modify p g := by
  refine ext_get? (by simp) (by simp) fun q => ?_
  rw [get?_modify, get?_modify]
  split
  · next hq =>
    subst hq
    exact Option.map_congr h
  · rfl

theorem modify_self (h : ∀ x, d.get? p = some x → f x = x) : d.modify p f = d :=
  (modify_congr h).trans (ext_get? modify_base modify_top fun q => by simp [get?_modify])

theorem foldl_modify_top (ps : List ℕ) :
    (ps.foldl (fun d p => d.modify p f) d).base = d.base ∧
      (ps.foldl (fun d p => d.modify p f) d).top = d.top := by
  induction ps generalizing d with
  | nil => exact ⟨rfl, rfl⟩
  | cons p ps ih => exact ⟨ih.1.trans modify_base, ih.2.trans modify_top⟩

theorem foldl_modify_numbers : d.numbers.foldl (fun d p => d.modify p f) d = d.map f := by
  obtain ⟨hb, ht⟩ := foldl_modify_top d.numbers
  refine ext_get? hb (ht.trans map_top.symm) fun p => ?_
  have hnodup : d.numbers.Nodup := List.nodup_range'
  rw [get?_foldl_modify hnodup, get?_map]
  split
  · rfl
  · next hp =>
    rw [get?_eq_none]
    · rfl
    · rw [mem_numbers] at hp
      omega

/-! ## The end of the queue -/

@[simp] theorem push_top : (d.push x).top = d.top + 1 := by simp [push, top]; omega

theorem get?_push : (d.push x).get? q = if q = d.top then some x else d.get? q := by
  unfold push get? top
  dsimp only
  split_ifs with h1 h2 h2
  · omega
  · rfl
  · subst h2
    simp
  · by_cases h : q - d.base < d.items.length
    · rw [List.getElem?_append_left h]
    · rw [List.getElem?_eq_none (by simp; omega), List.getElem?_eq_none (by omega)]

theorem total_push [AddCommMonoid M] (g : α → M) : total g (d.push x) = total g d + g x := by
  simp [total, push]

@[simp] theorem pad_base (k : ℕ) : (d.pad x k).base = d.base := by
  induction k with
  | zero => rfl
  | succ k ih => exact ih

@[simp] theorem pad_top (k : ℕ) : (d.pad x k).top = d.top + k := by
  induction k with
  | zero => rfl
  | succ k ih => rw [pad, push_top, ih, Nat.add_assoc]

theorem get?_pad_of_lt (k : ℕ) (h : q < d.top) : (d.pad x k).get? q = d.get? q := by
  induction k with
  | zero => rfl
  | succ k ih => rw [pad, get?_push, if_neg (by rw [pad_top]; omega), ih]

theorem get?_pad (k : ℕ) (h : (d.pad x k).get? q = some y) : d.get? q = some y ∨ y = x := by
  induction k with
  | zero => exact .inl h
  | succ k ih =>
    rw [pad, get?_push] at h
    split at h
    · exact .inr (Option.some.inj h).symm
    · exact ih h

theorem elim_pad (k : ℕ) (h : r x = z) : ((d.pad x k).get? q).elim z r = (d.get? q).elim z r := by
  induction k with
  | zero => rfl
  | succ k ih =>
    rw [pad, get?_push]
    split
    · next hq =>
      rw [get?_eq_none (.inr (by rw [hq, pad_top]; omega))]
      exact h
    · exact ih

theorem total_pad [AddCommMonoid M] (g : α → M) (k : ℕ) (h : g x = 0) :
    total g (d.pad x k) = total g d := by
  induction k with
  | zero => rfl
  | succ k ih => rw [pad, total_push, ih, h, add_zero]

/-! ## The front of the queue -/

variable {u : ℕ → α → Bool}

theorem popWhile_top (base : ℕ) (l : List α) : (popWhile u base l).top = base + l.length := by
  induction l generalizing base with
  | nil => rfl
  | cons x xs ih =>
    unfold popWhile
    split
    · rw [ih]; simp; omega
    · rfl

theorem le_popWhile_base (base : ℕ) (l : List α) : base ≤ (popWhile u base l).base := by
  induction l generalizing base with
  | nil => exact le_rfl
  | cons x xs ih =>
    unfold popWhile
    split
    · exact (Nat.le_succ _).trans (ih _)
    · exact le_rfl

theorem get?_popWhile (base : ℕ) (l : List α) (h : (popWhile u base l).base ≤ p) :
    (popWhile u base l).get? p = (⟨base, l⟩ : Indexed α).get? p := by
  induction l generalizing base with
  | nil => rfl
  | cons x xs ih =>
    unfold popWhile at h ⊢
    split
    · next hu =>
      rw [if_pos hu] at h
      have hb := le_popWhile_base (u := u) (base + 1) xs
      rw [ih (base + 1) h]
      unfold get?
      dsimp only
      rw [if_neg (by omega), if_neg (by omega),
        show p - base = p - (base + 1) + 1 by omega, List.getElem?_cons_succ]
    · rfl

theorem popWhile_gone (base : ℕ) (l : List α) (h : (⟨base, l⟩ : Indexed α).get? p = some x)
    (hp : p < (popWhile u base l).base) : u p x = true := by
  induction l generalizing base with
  | nil => simp [get?] at h
  | cons y ys ih =>
    unfold popWhile at hp
    split at hp
    · next hu =>
      obtain ⟨h1, h2⟩ := get?_eq_some.1 h
      dsimp only at h1 h2
      by_cases he : p = base
      · subst he
        simp only [Nat.sub_self, List.getElem?_cons_zero, Option.some.injEq] at h2
        exact h2 ▸ hu
      · refine ih (base + 1) (get?_eq_some.2 ⟨by dsimp only; omega, ?_⟩) hp
        rw [show p - base = p - (base + 1) + 1 by omega, List.getElem?_cons_succ] at h2
        exact h2
    · obtain ⟨h1, -⟩ := get?_eq_some.1 h
      omega

theorem elim_popWhile (hz : ∀ p x, u p x = true → r x = z) (base : ℕ) (l : List α) :
    ((popWhile u base l).get? p).elim z r = ((⟨base, l⟩ : Indexed α).get? p).elim z r := by
  by_cases hp : (popWhile u base l).base ≤ p
  · rw [get?_popWhile _ _ hp]
  · rw [get?_eq_none (.inl (not_le.1 hp))]
    cases hx : (⟨base, l⟩ : Indexed α).get? p with
    | none => rfl
    | some x => exact (hz p x (popWhile_gone _ _ hx (not_le.1 hp))).symm

theorem total_popWhile [AddCommMonoid M] (g : α → M) (hz : ∀ p x, u p x = true → g x = 0) (base : ℕ)
    (l : List α) :
    total g (popWhile u base l) = (l.map g).sum := by
  induction l generalizing base with
  | nil => rfl
  | cons x xs ih =>
    unfold popWhile
    split
    · next hu => rw [ih, List.map_cons, List.sum_cons, hz _ _ hu, zero_add]
    · rfl

end Indexed
