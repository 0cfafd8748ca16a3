/-
  Maps that are kept in the order of their keys.

  A `SortedMap` is a list of pairs with strictly ascending keys, as an iteration over a
  tree map sees it.  `set` puts a value under its key, replacing the old one.
-/
import Mathlib.Data.List.Pairwise
import Mathlib.Order.Lattice

universe u v

variable {K : Type u} {V : Type v}

/-- The keys ascend. -/
abbrev Ascending [LT K] (l : List (K × V)) : Prop := l.Pairwise fun a b => a.1 < b.1

@[ext]
structure SortedMap (K : Type u) (V : Type v) [LT K] where
  entries : List (K × V)
  sorted : Ascending entries

namespace SortedMap

variable [LinearOrder K]

def empty : SortedMap K V := ⟨[], .nil⟩

/-- The pair goes to its place, or in the place of the pair with its key. -/
def place (k : K) (v : V) : List (K × V) → List (K × V)
  | [] => [(k, v)]
  | e :: l => if k < e.1 then (k, v) :: e :: l else if k = e.1 then (k, v) :: l else e :: place k v l

variable {k : K} {v : V} {l : List (K × V)} {e : K × V}

theorem mem_place (h : e ∈ place k v l) : e = (k, v) ∨ e ∈ l := by
  induction l with
  | nil => exact .inl (List.mem_singleton.1 h)
  | cons d l ih =>
    unfold place at h
    split_ifs at h
    · exact (List.mem_cons.1 h).imp_right id
    · exact (List.mem_cons.1 h).imp_right (.tail _)
    · rcases List.mem_cons.1 h with rfl | h
      · exact .inr (.head _)
      · exact (ih h).imp_right (.tail _)

theorem ascending_place (h : Ascending l) : Ascending (place k v l) := by
  induction l with
  | nil => exact List.pairwise_singleton _ _
  | cons d l ih =>
    obtain ⟨hd, hl⟩ := List.pairwise_cons.1 h
    unfold place
    split_ifs with hlt heq
    · refine List.pairwise_cons.2 ⟨fun e he => ?_, h⟩
      rcases List.mem_cons.1 he with rfl | he
      · exact hlt
      · exact hlt.trans (hd e he)
    · exact List.pairwise_cons.2 ⟨fun e he => heq ▸ hd e he, hl⟩
    · refine List.pairwise_cons.2 ⟨fun e he => ?_, ih hl⟩
      rcases mem_place he with rfl | he
      · exact lt_of_le_of_ne (not_lt.1 hlt) (Ne.symm heq)
      · exact hd e he

def set (m : SortedMap K V) (k : K) (v : V) : SortedMap K V :=
  ⟨place k v m.entries, ascending_place m.sorted⟩

theorem place_above (h : ∀ e ∈ l, e.1 < k) : place k v l = l ++ [(k, v)] := by
  induction l with
  | nil => rfl
  | cons d l ih =>
    have hd := h d (.head _)
    rw [place, if_neg hd.not_gt, if_neg hd.ne', ih fun e he => h e (.tail _ he), List.cons_append]

theorem length_place (h : ∀ e ∈ l, e.1 ≠ k) : (place k v l).length = l.length + 1 := by
  induction l with
  | nil => rfl
  | cons d l ih =>
    unfold place
    rw [if_neg (Ne.symm (h d (.head _)))]
    split_ifs
    · rfl
    · rw [List.length_cons, ih fun e he => h e (.tail _ he), List.length_cons]

end SortedMap
