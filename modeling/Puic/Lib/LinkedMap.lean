/-
  Maps that keep their keys in the order of insertion.

  A `LinkedMap` is a list of entries with distinct keys.  `set` replaces the value of a
  key in place and appends a new key, `erase` takes a key out, `popFront` the oldest
  one.
-/
import Mathlib.Data.List.Nodup
import Mathlib.Data.List.Perm.Subperm

universe u v

structure LinkedMap (κ : Type u) (ν : Type v) where
  entries : List (κ × ν)
  nodup : (entries.map Prod.fst).Nodup
deriving DecidableEq

namespace LinkedMap

variable {κ : Type u} {ν : Type v}

def empty : LinkedMap κ ν := ⟨[], List.nodup_nil⟩

variable (m : LinkedMap κ ν)

def keys : List κ := m.entries.map Prod.fst

def size : ℕ := m.entries.length

instance : Membership κ (LinkedMap κ ν) := ⟨fun m k => k ∈ m.keys⟩

def head? : Option (κ × ν) := m.entries.head?

def popFront : LinkedMap κ ν :=
  ⟨m.entries.tail, by rw [List.map_tail]; exact m.nodup.tail⟩

@[simp] theorem popFront_entries {m : LinkedMap κ ν} : m.popFront.entries = m.entries.tail := rfl

variable [DecidableEq κ]

instance (m : LinkedMap κ ν) (k : κ) : Decidable (k ∈ m) := inferInstanceAs (Decidable (k ∈ m.keys))

def get? (m : LinkedMap κ ν) (k : κ) : Option ν :=
  (m.entries.find? fun e => decide (e.1 = k)).map Prod.snd

theorem nodup_set (m : LinkedMap κ ν) (k : κ) (v : ν) :
    ((if k ∈ m then m.entries.map fun e => if e.1 = k then (k, v) else e
      else m.entries ++ [(k, v)]).map Prod.fst).Nodup := by
  split
  · have hkeys : Prod.fst ∘ (fun e : κ × ν => if e.1 = k then (k, v) else e) = Prod.fst := by
      ext e
      rw [Function.comp_apply]
      split
      · next h => exact h.symm
      · rfl
    rw [List.map_map, hkeys]
    exact m.nodup
  · next hk =>
    rw [List.map_append]
    refine List.nodup_append.2 ⟨m.nodup, List.nodup_singleton _, ?_⟩
    intro a ha b hb
    rw [List.mem_singleton.1 hb]
    rintro rfl
    exact hk ha

def set (m : LinkedMap κ ν) (k : κ) (v : ν) : LinkedMap κ ν := ⟨_, m.nodup_set k v⟩

def erase (m : LinkedMap κ ν) (k : κ) : LinkedMap κ ν :=
  ⟨m.entries.filter fun e => decide (e.1 ≠ k), (List.filter_sublist.map Prod.fst).nodup m.nodup⟩

variable {m a b : LinkedMap κ ν} {k l : κ} {v w : ν}

theorem get?_eq_some : m.get? k = some v ↔ (k, v) ∈ m.entries := by
  constructor
  · intro h
    obtain ⟨e, he, rfl⟩ := Option.map_eq_some_iff.1 h
    have hk : e.1 = k := by simpa using List.find?_some he
    subst hk
    exact List.mem_of_find?_eq_some he
  · intro h
    have hsome : (m.entries.find? fun e => decide (e.1 = k)).isSome = true :=
      List.find?_isSome.2 ⟨(k, v), h, decide_eq_true rfl⟩
    obtain ⟨e, he⟩ := Option.isSome_iff_exists.1 hsome
    have hk : e.1 = k := by simpa using List.find?_some he
    have hev : e = (k, v) := List.inj_on_of_nodup_map m.nodup (List.mem_of_find?_eq_some he) h hk
    rw [get?, he, hev, Option.map_some]

omit [DecidableEq κ] in
theorem mem_iff : k ∈ m ↔ ∃ v, (k, v) ∈ m.entries := by
  show k ∈ m.entries.map Prod.fst ↔ _
  simp

theorem mem_iff_get? : k ∈ m ↔ ∃ v, m.get? k = some v := by simp only [mem_iff, get?_eq_some]

omit [DecidableEq κ] in
@[simp] theorem not_mem_empty : k ∉ (empty : LinkedMap κ ν) := List.not_mem_nil

/-! ## Setting -/

theorem mem_entries_set : (l, w) ∈ (m.set k v).entries ↔
    (l = k ∧ w = v) ∨ (l ≠ k ∧ (l, w) ∈ m.entries) := by
  by_cases hk : k ∈ m
  · have hset : (m.set k v).entries = m.entries.map fun e => if e.1 = k then (k, v) else e := if_pos hk
    rw [hset, List.mem_map]
    constructor
    · rintro ⟨e, he, heq⟩
      split at heq
      · cases heq
        exact .inl ⟨rfl, rfl⟩
      · next hne =>
        subst heq
        exact .inr ⟨hne, he⟩
    · rintro (⟨rfl, rfl⟩ | ⟨hne, he⟩)
      · obtain ⟨v', hv'⟩ := mem_iff.1 hk
        exact ⟨(l, v'), hv', if_pos rfl⟩
      · exact ⟨(l, w), he, if_neg hne⟩
  · have hset : (m.set k v).entries = m.entries ++ [(k, v)] := if_neg hk
    rw [hset, List.mem_append, List.mem_singleton, Prod.mk.injEq]
    constructor
    · rintro (he | he)
      · refine .inr ⟨?_, he⟩
        rintro rfl
        exact hk (mem_iff.2 ⟨w, he⟩)
      · exact .inl he
    · rintro (he | ⟨-, he⟩)
      · exact .inr he
      · exact .inl he

@[simp] theorem get?_set : (m.set k v).get? l = if l = k then some v else m.get? l := by
  ext w
  rw [get?_eq_some, mem_entries_set]
  split
  · next h => simp [h, eq_comm]
  · next h => simp [h, get?_eq_some]

@[simp] theorem mem_set : l ∈ m.set k v ↔ l = k ∨ l ∈ m := by
  rw [mem_iff_get?, mem_iff_get?, get?_set]
  split
  · next h => simp [h]
  · next h => simp [h]

theorem size_set : (m.set k v).size = if k ∈ m then m.size else m.size + 1 := by
  by_cases hk : k ∈ m
  · have hset : (m.set k v).entries = m.entries.map fun e => if e.1 = k then (k, v) else e := if_pos hk
    rw [size, hset, List.length_map, if_pos hk, size]
  · have hset : (m.set k v).entries = m.entries ++ [(k, v)] := if_neg hk
    rw [size, hset, List.length_append, List.length_singleton, if_neg hk, size]

/-! ## Erasing -/

theorem mem_entries_erase : (l, w) ∈ (m.erase k).entries ↔ l ≠ k ∧ (l, w) ∈ m.entries := by
  show (l, w) ∈ m.entries.filter _ ↔ _
  rw [List.mem_filter, and_comm, decide_eq_true_iff]

@[simp] theorem get?_erase : (m.erase k).get? l = if l = k then none else m.get? l := by
  ext w
  rw [get?_eq_some, mem_entries_erase]
  split
  · next h => simp [h]
  · next h => simp [h, get?_eq_some]

@[simp] theorem mem_erase : l ∈ m.erase k ↔ l ≠ k ∧ l ∈ m := by
  simp only [mem_iff, mem_entries_erase, exists_and_left]

theorem erase_of_not_mem (hk : k ∉ m) : m.erase k = m := by
  have hentries : (m.erase k).entries = m.entries := by
    refine List.filter_eq_self.2 fun e he => decide_eq_true ?_
    rintro rfl
    exact hk (mem_iff.2 ⟨e.2, he⟩)
  rcases m with ⟨entries, hn⟩
  simpa [erase] using hentries

theorem size_erase (hk : k ∈ m) : (m.erase k).size + 1 = m.size := by
  obtain ⟨p, q, hpq⟩ : ∃ p q, m.keys = p ++ k :: q := List.append_of_mem hk
  have hnodup : (p ++ k :: q).Nodup := hpq ▸ m.nodup
  have hcount : m.keys.countP (fun l => decide (l ≠ k)) + 1 = m.keys.length := by
    have hp : ∀ l ∈ p, l ≠ k := fun l hl he => (List.nodup_append.1 hnodup).2.2 l hl k (.head _) he
    have hq : ∀ l ∈ q, l ≠ k :=
      fun l hl he => (List.nodup_cons.1 (List.nodup_append.1 hnodup).2.1).1 (he ▸ hl)
    rw [hpq, List.countP_append, List.countP_cons, List.countP_eq_length.2 (by simpa using hp),
      List.countP_eq_length.2 (by simpa using hq)]
    simp
    omega
  have hsize : (m.erase k).size = m.keys.countP (fun l => decide (l ≠ k)) := by
    show (m.entries.filter _).length = (m.entries.map Prod.fst).countP _
    rw [List.countP_map, List.countP_eq_length_filter]
    rfl
  rw [hsize, hcount, keys, List.length_map, size]

theorem popFront_eq_erase (h : m.head? = some (k, v)) : m.popFront = m.erase k := by
  rcases m with ⟨_ | ⟨e, rest⟩, hn⟩
  · cases h
  cases h
  have hne : ∀ e ∈ rest, e.1 ≠ k := by
    intro e he heq
    exact (List.nodup_cons.1 hn).1 (List.mem_map.2 ⟨e, he, heq⟩)
  have hrest : rest.filter (fun e => decide (e.1 ≠ k)) = rest :=
    List.filter_eq_self.2 fun e he => decide_eq_true (hne e he)
  simp only [popFront, erase, List.tail_cons, mk.injEq]
  rw [List.filter_cons_of_neg (by simp), hrest]

/-! ## Maps whose keys are keys of another map -/

variable {ν' : Type v} {c : LinkedMap κ ν'}

/-- The keys of `m` that are not in `c`. -/
def without (m : LinkedMap κ ν) (c : LinkedMap κ ν') : List κ := m.keys.filter fun k => decide (k ∉ c)

theorem length_without (h : ∀ k ∈ c, k ∈ m) : (m.without c).length + c.size = m.size := by
  have hperm : (m.keys.filter fun k => decide (k ∈ c)).Perm c.keys := by
    refine (List.perm_ext_iff_of_nodup (m.nodup.filter _) c.nodup).2 fun k => ?_
    rw [List.mem_filter, decide_eq_true_iff]
    exact ⟨And.right, fun hk => ⟨h k hk, hk⟩⟩
  have hsplit := List.length_eq_length_filter_add (l := m.keys) (fun k => decide (k ∈ c))
  have hkeys : m.keys.length = m.size := List.length_map ..
  have hc : c.keys.length = c.size := List.length_map ..
  rw [hperm.length_eq, hkeys, hc] at hsplit
  have hnot : (m.keys.filter fun k => !decide (k ∈ c)) = m.without c := by
    refine List.filter_congr fun k _ => ?_
    simp
  rw [hnot] at hsplit
  omega

end LinkedMap
