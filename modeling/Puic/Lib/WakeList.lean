/-
  Writers that share one transport, and the list of those that wait for it.

  A writer that finds the transport full is remembered in a list in insertion
  order.  When the transport has room again, a wake-up pass takes writers off the
  front of the list until the list is empty or the transport is full again; in
  between, the woken writers may write, block again, come and go.

  `Move` lists what such a system can do, at the level of sets of writers; `Inv`
  is what every sequence of moves keeps: nobody waits without being listed, nobody
  is listed who is gone, and outside a pass the list is empty unless the transport
  is full.
-/
import Mathlib.Data.List.Nodup
import Mathlib.Data.Set.Insert
import Mathlib.Logic.Relation

namespace WakeList

universe u
variable {W : Type u} [DecidableEq W]

/-- Insertion into a linked hash map: a key that is there stays where it is. -/
def pushNew (l : List W) (w : W) : List W := if w ∈ l then l else l ++ [w]

@[simp] theorem mem_pushNew {l : List W} {w v : W} : v ∈ pushNew l w ↔ v ∈ l ∨ v = w := by
  unfold pushNew
  split
  · exact ⟨.inl, fun h => h.elim id fun h => h ▸ ‹_›⟩
  · simp

theorem pushNew_of_mem {l : List W} {w : W} (h : w ∈ l) : pushNew l w = l := if_pos h

/-- The writers that exist, those of them that wait, the list, whether the transport is full
    and whether a wake-up pass is going on. -/
structure State (W : Type u) where
  live : Set W
  blocked : Set W
  list : List W
  shared : Bool
  waking : Bool

inductive Move : State W → State W → Prop
  /-- a writer appears -/
  | enter {s : State W} (w : W) : Move s { s with live := insert w s.live }
  /-- the transport is full -/
  | fill {s : State W} : Move s { s with shared := true }
  /-- a writer finds the transport full -/
  | block {s : State W} (w : W) : w ∈ s.live → s.shared = true →
      Move s { s with blocked := insert w s.blocked, list := pushNew s.list w }
  /-- a writer has nothing left to wait for -/
  | relax {s : State W} (w : W) : Move s { s with blocked := s.blocked \ {w} }
  /-- a writer is gone -/
  | leave {s : State W} (w : W) :
      Move s { s with live := s.live \ {w}, blocked := s.blocked \ {w}, list := s.list.erase w }
  /-- the transport is opened when nobody waits for it -/
  | openNew {s : State W} : s.list = [] → Move s { s with shared := false }
  /-- the transport has room again -/
  | drain {s : State W} : Move s { s with shared := false, waking := true }
  /-- the pass takes the first writer off the list -/
  | next {s : State W} (w : W) (rest : List W) : s.list = w :: rest → s.waking = true →
      Move s { s with blocked := s.blocked \ {w}, list := rest }
  /-- the pass ends -/
  | done {s : State W} : s.list = [] ∨ s.shared = true → Move s { s with waking := false }

structure Inv (s : State W) : Prop where
  /-- nobody waits without being listed -/
  listed : ∀ w ∈ s.blocked, w ∈ s.list
  /-- nobody is listed who is gone -/
  alive : ∀ w ∈ s.list, w ∈ s.live
  /-- outside a pass, somebody is listed only while the transport is full -/
  full : s.waking = false → s.list ≠ [] → s.shared = true
  nodup : s.list.Nodup

theorem nodup_pushNew {l : List W} (h : l.Nodup) (w : W) : (pushNew l w).Nodup := by
  unfold pushNew
  split
  · exact h
  · simp only [List.nodup_append, h, List.nodup_singleton, List.mem_singleton, true_and]
    rintro a ha _ rfl rfl; contradiction

theorem Inv.move {s s' : State W} (hi : Inv s) (hm : Move s s') : Inv s' := by
  cases hm with
  | enter w => exact { hi with alive := fun v hv => .inr (hi.alive v hv) }
  | fill => exact { hi with full := fun _ _ => rfl }
  | block w hw hs =>
    refine ⟨fun v hv => mem_pushNew.2 ?_, fun v hv => ?_, fun _ _ => hs, nodup_pushNew hi.nodup w⟩
    · exact hv.elim .inr fun hv => .inl (hi.listed v hv)
    · exact (mem_pushNew.1 hv).elim (hi.alive v) fun h => h ▸ hw
  | relax w => exact { hi with listed := fun v hv => hi.listed v hv.1 }
  | leave w =>
    refine ⟨fun v hv => ?_, fun v hv => ?_, fun hw hl => ?_, hi.nodup.erase w⟩
    · exact (List.mem_erase_of_ne hv.2).2 (hi.listed v hv.1)
    · have hne : v ≠ w := fun h => by
        subst h; exact hi.nodup.not_mem_erase hv
      exact ⟨hi.alive v (List.mem_of_mem_erase hv), hne⟩
    · exact hi.full hw fun h => hl (by simp [h])
  | openNew he => exact { hi with full := fun _ h => absurd he h }
  | drain => exact { hi with full := fun h => by simp at h }
  | next w rest he hw =>
    have hnd : w ∉ rest ∧ rest.Nodup := List.nodup_cons.1 (he ▸ hi.nodup)
    refine ⟨fun v hv => ?_, fun v hv => hi.alive v (he ▸ .tail _ hv), fun h => ?_, hnd.2⟩
    · exact (List.mem_cons.1 (he ▸ hi.listed v hv.1)).resolve_left hv.2
    · simp [hw] at h
  | done h => exact { hi with full := fun _ hl => h.resolve_left hl }

theorem Inv.moves {s s' : State W} (hi : Inv s) (hm : Relation.ReflTransGen Move s s') : Inv s' := by
  induction hm with
  | refl => exact hi
  | tail _ h ih => exact ih.move h

/-- The transport fills up, or it is opened when nobody waits. -/
theorem moves_shared {s : State W} {b : Bool} (h : b = s.shared ∨ b = true ∨ s.list = []) :
    Relation.ReflTransGen Move s { s with shared := b } := by
  rcases h with rfl | rfl | hl
  · exact .refl
  · exact .single .fill
  · cases b
    · exact .single (.openNew hl)
    · exact .single .fill

/-- A pass begins, or nothing changes. -/
theorem moves_pass {s : State W} {b w : Bool} (h : b = s.shared ∧ w = s.waking ∨ b = false ∧ w = true) :
    Relation.ReflTransGen Move s { s with shared := b, waking := w } := by
  rcases h with ⟨rfl, rfl⟩ | ⟨rfl, rfl⟩
  · exact .refl
  · exact .single .drain

end WakeList
