/-
  The order in which `PriorityWriteScheduler` serves its streams
  (priority_write_scheduler.h).

  Beside the scheduler a run keeps a ticket for every stream: a stream that is put at the
  front of a ready list gets a ticket below all that were given before, one that is put at
  the back a ticket above them.  In every state that is reached the flags, the lists and
  the number of ready streams agree, the stream popped next has the best priority and
  among the ready streams of its priority the smallest ticket, pops one after another go
  through all ready streams in this order, and `ShouldYield` says whether another stream
  goes first.
-/
import Mathlib.Algebra.BigOperators.Fin
import Mathlib.Algebra.Order.BigOperators.Group.Finset
import Puic.Lib.Run
import Puic.WriteScheduler

namespace Puic

open List Function

namespace PriorityWriteScheduler

inductive SchedulerOp (ι : Type) where
  | registerStream (id : ι) (priority : Fin 8)
  | unregisterStream (id : ι)
  | updateStreamPrecedence (id : ι) (priority : Fin 8)
  | markStreamReady (id : ι) (addToFront : Bool)
  | markStreamNotReady (id : ι)
  | popNextReadyStream
  | shouldYield (id : ι)
deriving Repr, DecidableEq

variable {ι : Type} [DecidableEq ι]

def apply [Zero ι] (s : PriorityWriteScheduler ι) : SchedulerOp ι → PriorityWriteScheduler ι
  | .registerStream id priority => s.registerStream id priority
  | .unregisterStream id => s.unregisterStream id
  | .updateStreamPrecedence id priority => s.updateStreamPrecedence id priority
  | .markStreamReady id addToFront => s.markStreamReady id addToFront
  | .markStreamNotReady id => s.markStreamNotReady id
  | .popNextReadyStream => s.popNextReadyStream.2.2
  | .shouldYield _ => s

/-- The stream that an operation puts into a list, and whether at the front. -/
def insertion (s : PriorityWriteScheduler ι) : SchedulerOp ι → Option (ι × Bool)
  | .markStreamReady id addToFront =>
    match s.streamInfos id with
    | some i => if i.ready then none else some (id, addToFront)
    | none => none
  | .updateStreamPrecedence id priority =>
    match s.streamInfos id with
    | some i => if i.ready ∧ i.priority ≠ priority then some (id, false) else none
    | none => none
  | _ => none

/-- The tickets given so far lie strictly between `first` and `last`. -/
structure Tickets (ι : Type) where
  ticket : ι → ℤ
  first : ℤ
  last : ℤ

namespace Tickets

def initial : Tickets ι := ⟨fun _ => 0, -1, 0⟩

def give (t : Tickets ι) (id : ι) (front : Bool) : Tickets ι :=
  if front then ⟨Function.update t.ticket id t.first, t.first - 1, t.last⟩
  else ⟨Function.update t.ticket id t.last, t.first, t.last + 1⟩

end Tickets

structure TicketedScheduler (ι : Type) where
  scheduler : PriorityWriteScheduler ι
  tickets : Tickets ι

def schedulerStep [Zero ι] (s : TicketedScheduler ι) (op : SchedulerOp ι) :
    Option (TicketedScheduler ι) :=
  some ⟨s.scheduler.apply op,
    match s.scheduler.insertion op with
    | some (id, front) => s.tickets.give id front
    | none => s.tickets⟩

/-! ## Lists, tickets and the number of ready streams -/

def totalReady (s : PriorityWriteScheduler ι) : ℕ := ∑ p, (s.readyList p).length

/-- The number of ready streams is right, and every list is in the order of the tickets. -/
structure Tidy (s : PriorityWriteScheduler ι) (t : Tickets ι) : Prop where
  counted : s.numReadyStreams = s.totalReady
  ordered : ∀ p, (s.readyList p).Pairwise fun a b => t.ticket a < t.ticket b
  given : ∀ p, ∀ id ∈ s.readyList p, t.first < t.ticket id ∧ t.ticket id < t.last
  unused : t.first < t.last

variable {s : PriorityWriteScheduler ι} {t : Tickets ι} {id k : ι} {i : StreamInfo} {p : Fin 8}

omit [DecidableEq ι] in
/-- Replacing one list changes the total by the difference of the lengths. -/
theorem sum_length_update (f : Fin 8 → List ι) (p : Fin 8) (l : List ι) :
    ∑ q, (update f p l q).length + (f p).length = ∑ q, (f q).length + l.length := by
  have hl : (fun q => (update f p l q).length) = update (fun q => (f q).length) p l.length := by
    ext q
    rcases eq_or_ne q p with rfl | hne
    · simp
    · simp [hne]
  have hf : ∑ q, (f q).length = (f p).length + ∑ q ∈ Finset.univ \ {p}, (f q).length := by
    rw [← Finset.sum_sdiff (Finset.subset_univ {p}), Finset.sum_singleton, add_comm]
  rw [hl, Finset.sum_update_of_mem (Finset.mem_univ p), hf]
  omega

omit [DecidableEq ι] in
theorem tidy_empty : (empty : PriorityWriteScheduler ι).Tidy Tickets.initial where
  counted := by simp [empty, totalReady]
  ordered _ := .nil
  given _ _ h := absurd h not_mem_nil
  unused := by simp [Tickets.initial]

omit [DecidableEq ι] in
theorem length_le_totalReady : (s.readyList p).length ≤ s.totalReady :=
  Finset.single_le_sum (f := fun q => (s.readyList q).length) (fun _ _ => Nat.zero_le _)
    (Finset.mem_univ p)

omit [DecidableEq ι] in
theorem Tidy.shrink (h : s.Tidy t) {s' : PriorityWriteScheduler ι} {l : List ι}
    (hlist : s'.readyList = update s.readyList p l) (hl : l.Sublist (s.readyList p))
    (hnum : s'.numReadyStreams + (s.readyList p).length = s.numReadyStreams + l.length) : s'.Tidy t := by
  have hsub : ∀ q, (s'.readyList q).Sublist (s.readyList q) := by
    intro q
    rw [hlist]
    rcases eq_or_ne q p with rfl | hne
    · rwa [update_self]
    · rw [update_of_ne hne]
  constructor
  · have hsum := sum_length_update s.readyList p l
    have hcount := h.counted
    rw [totalReady] at hcount ⊢
    rw [hlist]
    omega
  · exact fun q => (h.ordered q).sublist (hsub q)
  · exact fun q id hid => h.given q id ((hsub q).subset hid)
  · exact h.unused

theorem Tidy.setInfo (h : s.Tidy t) {o : Option StreamInfo} : (s.setInfo id o).Tidy t :=
  ⟨h.counted, h.ordered, h.given, h.unused⟩

theorem Tidy.eraseReady (h : s.Tidy t) : (s.eraseReady p id).Tidy t := by
  refine h.shrink eraseReady_readyList erase_sublist ?_
  unfold PriorityWriteScheduler.eraseReady
  split
  · next hid =>
    have hlen := length_erase_of_mem hid
    have hpos := length_pos_of_mem hid
    have hle := length_le_totalReady (s := s) (p := p)
    have hcount := h.counted
    dsimp only
    omega
  · next hid => rw [erase_of_not_mem hid]

omit [DecidableEq ι] in
theorem Tidy.popReady (h : s.Tidy t) (hne : s.readyList p ≠ []) : (s.popReady p).Tidy t := by
  refine h.shrink rfl (tail_sublist _) ?_
  have hpos := length_pos_iff.2 hne
  have hle := length_le_totalReady (s := s) (p := p)
  have hcount := h.counted
  rw [length_tail]
  show s.numReadyStreams - 1 + _ = _
  omega

/-- A stream that is in no list goes to one end of a list, with a new ticket. -/
theorem Tidy.pushReady (h : s.Tidy t) (hout : ∀ p, id ∉ s.readyList p) (front : Bool) :
    (s.pushReady p id front).Tidy (t.give id front) := by
  -- the streams that were there keep their tickets
  have hold : ∀ q, ∀ k ∈ s.readyList q, (t.give id front).ticket k = t.ticket k := by
    intro q k hk
    have hne : k ≠ id := fun he => hout q (he ▸ hk)
    cases front <;> simp [Tickets.give, hne]
  have hrest : ∀ q, (s.readyList q).Pairwise fun a b =>
      (t.give id front).ticket a < (t.give id front).ticket b := by
    intro q
    refine (h.ordered q).imp_of_mem ?_
    intro a b ha hb hab
    rwa [hold q a ha, hold q b hb]
  constructor
  · have hsum := sum_length_update s.readyList p
      (if front then id :: s.readyList p else s.readyList p ++ [id])
    have hlen : (if front then id :: s.readyList p else s.readyList p ++ [id]).length =
        (s.readyList p).length + 1 := by
      cases front <;> simp
    have hcount := h.counted
    rw [totalReady] at hcount ⊢
    show s.numReadyStreams + 1 = ∑ q, (update s.readyList p _ q).length
    omega
  · intro q
    show (update s.readyList p _ q).Pairwise _
    rcases eq_or_ne q p with rfl | hne
    · rw [update_self]
      cases front with
      | true =>
        refine .cons (fun k hk => ?_) (hrest q)
        rw [hold q k hk]
        simpa [Tickets.give] using (h.given q k hk).1
      | false =>
        refine pairwise_append.2 ⟨hrest q, pairwise_singleton _ _, fun k hk b hb => ?_⟩
        rw [mem_singleton.1 hb, hold q k hk]
        simpa [Tickets.give] using (h.given q k hk).2
    · rw [update_of_ne hne]
      exact hrest q
  · intro q k hk
    rcases mem_pushReady.1 hk with ⟨-, rfl⟩ | hk
    · have hroom := h.unused
      cases front <;> simp [Tickets.give, hroom]
    · obtain ⟨hfirst, hlast⟩ := h.given q k hk
      rw [hold q k hk]
      cases front with
      | true => exact ⟨(Int.sub_one_lt_of_le le_rfl).trans hfirst, hlast⟩
      | false => exact ⟨hfirst, hlast.trans (Int.lt_succ _)⟩
  · have hroom := h.unused
    cases front with
    | true => exact (Int.sub_one_lt_of_le le_rfl).trans hroom
    | false => exact hroom.trans (Int.lt_succ _)

/-! ## The operations -/

theorem Tidy.registerStream [Zero ι] (h : s.Tidy t) {priority : Fin 8} :
    (s.registerStream id priority).Tidy t := by
  unfold PriorityWriteScheduler.registerStream
  split
  · exact h
  split
  · exact h
  · exact h.setInfo

theorem Tidy.unregisterStream (h : s.Tidy t) : (s.unregisterStream id).Tidy t := by
  unfold PriorityWriteScheduler.unregisterStream
  split
  · exact h
  split
  · exact h.eraseReady.setInfo
  · exact h.setInfo

theorem Tidy.markStreamNotReady (h : s.Tidy t) : (s.markStreamNotReady id).Tidy t := by
  unfold PriorityWriteScheduler.markStreamNotReady
  split
  · exact h
  split
  · exact h.eraseReady.setInfo
  · exact h

theorem Tidy.popNextReadyStream [Zero ι] (hc : s.Consistent) (h : s.Tidy t) :
    s.popNextReadyStream.2.2.Tidy t := by
  rcases hc.popNextReadyStream_cases with hp | ⟨id, i, rest, -, hlist, hp⟩
  · rw [hp]
    exact h
  · rw [hp]
    exact (h.popReady (by rw [hlist]; exact cons_ne_nil _ _)).setInfo

/-- The scheduler after an operation, with the tickets the operation gives. -/
theorem Tidy.apply [Zero ι] (hc : s.Consistent) (h : s.Tidy t) (op : SchedulerOp ι) :
    (s.apply op).Tidy (match s.insertion op with
      | some (id, front) => t.give id front
      | none => t) := by
  cases op with
  | registerStream id priority => exact h.registerStream
  | unregisterStream id => exact h.unregisterStream
  | markStreamNotReady id => exact h.markStreamNotReady
  | popNextReadyStream => exact h.popNextReadyStream hc
  | shouldYield id => exact h
  | markStreamReady id front =>
    simp only [PriorityWriteScheduler.apply, markStreamReady, insertion]
    rcases hi : s.streamInfos id with _ | i
    · exact h
    dsimp only
    split
    · exact h
    · next hr => exact (h.pushReady (hc.detached_of_unready hi hr).out front).setInfo
  | updateStreamPrecedence id priority =>
    simp only [PriorityWriteScheduler.apply, updateStreamPrecedence, insertion]
    rcases hi : s.streamInfos id with _ | i
    · exact h
    dsimp only
    split
    · next hp =>
      rw [if_neg fun hand => hand.2 hp]
      exact h
    next hp =>
    split
    · next hr =>
      rw [if_pos ⟨hr, hp⟩]
      exact (h.eraseReady.pushReady (hc.eraseReady hi).out false).setInfo
    · next hr =>
      rw [if_neg fun hand => hr hand.1]
      exact h.setInfo

theorem Consistent.apply [Zero ι] (h : s.Consistent) (op : SchedulerOp ι) : (s.apply op).Consistent := by
  cases op with
  | registerStream id priority => exact h.registerStream priority
  | unregisterStream id => exact h.unregisterStream
  | updateStreamPrecedence id priority => exact h.updateStreamPrecedence priority
  | markStreamReady id front => exact h.markStreamReady front
  | markStreamNotReady id => exact h.markStreamNotReady
  | popNextReadyStream => exact h.popNextReadyStream
  | shouldYield id => exact h

omit [DecidableEq ι] in
theorem hasReadyStreams_iff (h : s.Tidy t) : s.hasReadyStreams = true ↔ ∃ p, s.readyList p ≠ [] := by
  rw [hasReadyStreams, decide_eq_true_iff, h.counted, totalReady, Finset.sum_pos_iff]
  simp [length_pos_iff]

omit [DecidableEq ι] in
theorem Consistent.own_unique (hc : s.Consistent) {q : Fin 8} (hq : id ∈ s.readyList q)
    (hp : id ∈ s.readyList p) : q = p := by
  obtain ⟨i, hi, rfl⟩ := hc.own id p hp
  obtain ⟨i', hi', rfl⟩ := hc.own id q hq
  rw [hi] at hi'
  cases hi'
  rfl

/-! ## Who is next -/

omit [DecidableEq ι] in
theorem firstReady_eq_some (h : s.readyList p ≠ []) :
    ∃ q, s.firstReady = some q ∧ s.readyList q ≠ [] ∧ ∀ p, s.readyList p ≠ [] → q ≤ p := by
  have hsome : s.firstReady.isSome = true := by
    rw [firstReady, find?_isSome]
    exact ⟨p, mem_finRange p, by simpa using h⟩
  obtain ⟨q, hq⟩ := Option.isSome_iff_exists.1 hsome
  refine ⟨q, hq, by simpa using find?_some hq, fun p hp => ?_⟩
  obtain ⟨-, n, hn, rfl, hbefore⟩ := find?_eq_some_iff_getElem.1 hq
  by_contra hlt
  rw [getElem_finRange, not_le, Fin.lt_def] at hlt
  have hp' := hbefore p.val (by simpa using hlt)
  simp [hp] at hp'

/-- The stream that is popped next is at the head of the list of the best priority. -/
theorem Consistent.exists_next [Zero ι] (hc : s.Consistent) (hp : s.readyList p ≠ []) :
    ∃ id i rest, s.firstReady = some i.priority ∧ s.streamInfos id = some i ∧ i.ready = true ∧
      s.readyList i.priority = id :: rest ∧ (∀ q, s.readyList q ≠ [] → i.priority ≤ q) ∧
      s.popNextReadyStream =
        (id, i.priority, (s.popReady i.priority).setInfo id (some { i with ready := false })) := by
  obtain ⟨q, hq, hne, hbest⟩ := firstReady_eq_some hp
  obtain ⟨id, rest, hlist⟩ := exists_cons_of_ne_nil hne
  obtain ⟨i, hi, rfl⟩ := hc.own id q (by rw [hlist]; exact .head _)
  refine ⟨id, i, rest, hq, hi, (hc.flag id i hi).2 (by rw [hlist]; exact .head _), hlist, hbest, ?_⟩
  rw [PriorityWriteScheduler.popNextReadyStream, hq]
  dsimp only
  rw [popAt, hlist]
  dsimp only
  rw [hi]

/-- One stream is taken out of the lists, and all others stay where they are. -/
structure Without (s s' : PriorityWriteScheduler ι) (id : ι) (o : Option StreamInfo) : Prop where
  lists : ∀ p, s'.readyList p = (s.readyList p).erase id
  infos : s'.streamInfos = update s.streamInfos id o

/-- A stream that is not ready is in no list. -/
theorem Consistent.without (hc : s.Consistent)
    (hid : ∀ i, s.streamInfos id = some i → ¬i.ready = true) {o : Option StreamInfo} :
    s.Without (s.setInfo id o) id o :=
  ⟨fun p => (erase_of_not_mem ((hc.detached hid).out p)).symm, rfl⟩

theorem Consistent.without_of_update (hc : s.Consistent) (hi : s.streamInfos id = some i)
    {s' : PriorityWriteScheduler ι} {o : Option StreamInfo}
    (hlist : s'.readyList = update s.readyList i.priority ((s.readyList i.priority).erase id))
    (hinfos : s'.streamInfos = s.streamInfos) : s.Without (s'.setInfo id o) id o where
  lists p := by
    rw [setInfo_readyList, hlist]
    rcases eq_or_ne p i.priority with rfl | hne
    · rw [update_self]
    · rw [update_of_ne hne, erase_of_not_mem]
      intro hp
      obtain ⟨i', hi', rfl⟩ := hc.own id p hp
      rw [hi] at hi'
      cases hi'
      exact hne rfl
  infos := by
    unfold PriorityWriteScheduler.setInfo
    rw [hinfos]

theorem Consistent.without_markStreamNotReady (hc : s.Consistent) (id : ι) :
    s.Without (s.markStreamNotReady id) id
      ((s.streamInfos id).map fun i => { i with ready := false }) := by
  unfold PriorityWriteScheduler.markStreamNotReady
  -- nothing changes for a stream that is not ready
  have hsame : (∀ i, s.streamInfos id = some i → ¬i.ready = true) →
      (s.streamInfos id).map (fun i => { i with ready := false }) = s.streamInfos id →
      s.Without s id ((s.streamInfos id).map fun i => { i with ready := false }) := by
    intro hid heq
    refine ⟨(hc.without (o := none) hid).lists, ?_⟩
    rw [heq, update_eq_self]
  rcases hi : s.streamInfos id with _ | i
  · rw [hi] at hsame
    exact hsame (fun i h => by cases h) rfl
  dsimp only
  split
  · exact hc.without_of_update hi eraseReady_readyList eraseReady_streamInfos
  · next hr =>
    rw [hi] at hsame
    refine hsame (fun i' h => ?_) ?_
    · cases h
      exact hr
    · simp only [Bool.not_eq_true] at hr
      rw [Option.map_some, ← hr]

theorem Consistent.without_unregisterStream (hc : s.Consistent) (id : ι) :
    s.Without (s.unregisterStream id) id none := by
  unfold PriorityWriteScheduler.unregisterStream
  rcases hi : s.streamInfos id with _ | i
  · refine ⟨(hc.without (o := none) fun i h => ?_).lists, ?_⟩
    · rw [hi] at h
      cases h
    · have hsame := update_eq_self id s.streamInfos
      rw [hi] at hsame
      exact hsame.symm
  dsimp only
  split
  · exact hc.without_of_update hi eraseReady_readyList eraseReady_streamInfos
  · next hr =>
    refine hc.without fun i' h => ?_
    rw [hi] at h
    cases h
    exact hr

/-- The next stream is the one with the best priority and the smallest ticket, and the others stay
    ready. -/
theorem popNextReadyStream_spec [Zero ι] (hc : s.Consistent) (h : s.Tidy t)
    (hp : s.readyList p ≠ []) :
    ∃ id i s', s.popNextReadyStream = (id, i.priority, s') ∧ s.streamInfos id = some i ∧
      i.ready = true ∧ (∀ k j, s.streamInfos k = some j → j.ready = true → i.priority ≤ j.priority ∧
        (j.priority = i.priority → k ≠ id → t.ticket id < t.ticket k)) ∧
      s.Without s' id (some { i with ready := false }) := by
  obtain ⟨id, i, rest, -, hi, hready, hlist, hbest, hpop⟩ := hc.exists_next hp
  refine ⟨id, i, _, hpop, hi, hready, ?_, hc.without_of_update hi ?_ rfl⟩
  · intro k j hj hready
    have hmem := (hc.flag k j hj).1 hready
    refine ⟨hbest _ (ne_nil_of_mem hmem), fun hsame hne => ?_⟩
    have hord := h.ordered i.priority
    rw [hsame, hlist] at hmem
    rw [hlist] at hord
    exact rel_of_pairwise_cons hord ((mem_cons.1 hmem).resolve_left hne)
  · show update s.readyList i.priority (s.readyList i.priority).tail = _
    rw [hlist, tail_cons, erase_cons_head]

/-- The streams that `n` calls of `PopNextReadyStream` return, as long as there are ready ones. -/
def served [Zero ι] : ℕ → PriorityWriteScheduler ι → List ι
  | 0, _ => []
  | n + 1, s =>
    if s.hasReadyStreams then s.popNextReadyStream.1 :: served n s.popNextReadyStream.2.2 else []

omit [DecidableEq ι] in
/-- The first stream of all lists is the head of the first list that is not empty. -/
theorem flatMap_eq_cons {f : Fin 8 → List ι} {l : List (Fin 8)} {rest : List ι} (hl : l.Nodup)
    (hp : l.find? (fun p => !(f p).isEmpty) = some p) (hf : f p = id :: rest) :
    l.flatMap f = id :: l.flatMap (update f p rest) := by
  induction l with
  | nil => cases hp
  | cons q l ih =>
    obtain ⟨hq, hl⟩ := nodup_cons.1 hl
    rw [flatMap_cons, flatMap_cons]
    rcases eq_or_ne q p with rfl | hne
    · have hrest : l.flatMap (update f q rest) = l.flatMap f :=
        flatMap_congr fun r hr => update_of_ne (show r ≠ q from fun he => hq (he ▸ hr)) ..
      rw [hf, update_self, hrest, cons_append]
    · rw [find?_cons] at hp
      split at hp
      · exact absurd (Option.some.inj hp) hne
      · next hempty =>
        have hnil : f q = [] := by simpa using hempty
        rw [update_of_ne hne, hnil, nil_append, nil_append, ih hl hp]

/-- One pop after another goes through the lists. -/
theorem served_eq_take [Zero ι] (hc : s.Consistent) (h : s.Tidy t) (n : ℕ) :
    s.served n = ((finRange 8).flatMap s.readyList).take n := by
  induction n generalizing s with
  | zero => rfl
  | succ n ih =>
    rw [served]
    split
    · next hready =>
      obtain ⟨p, hp⟩ := (hasReadyStreams_iff h).1 hready
      obtain ⟨id, i, rest, hfirst, -, -, hlist, -, hpop⟩ := hc.exists_next hp
      have hnext := ih hc.popNextReadyStream (h.popNextReadyStream hc)
      rw [flatMap_eq_cons (nodup_finRange 8) hfirst hlist, take_succ_cons, hnext, hpop]
      show id :: take n ((finRange 8).flatMap (update s.readyList i.priority _)) = _
      rw [hlist, tail_cons]
    · next hready =>
      have hnil : (finRange 8).flatMap s.readyList = [] := by
        rw [flatMap_eq_nil_iff]
        intro p _
        by_contra hp
        exact hready ((hasReadyStreams_iff h).2 ⟨p, hp⟩)
      rw [hnil, take_nil]

theorem shouldYield_iff (hc : s.Consistent) (hi : s.streamInfos id = some i) :
    s.shouldYield id = true ↔
      (∃ k j, s.streamInfos k = some j ∧ j.ready = true ∧ j.priority < i.priority) ∨
      ∃ k, (s.readyList i.priority).head? = some k ∧ k ≠ id := by
  rw [shouldYield, hi]
  rw [Bool.or_eq_true]
  refine or_congr ?_ ?_
  · rw [any_eq_true]
    constructor
    · rintro ⟨p, -, hp⟩
      simp only [Bool.and_eq_true, decide_eq_true_eq, Bool.not_eq_true', isEmpty_eq_false_iff] at hp
      obtain ⟨k, rest, hlist⟩ := exists_cons_of_ne_nil hp.2
      obtain ⟨j, hj, rfl⟩ := hc.own k p (by rw [hlist]; exact .head _)
      exact ⟨k, j, hj, (hc.flag k j hj).2 (by rw [hlist]; exact .head _), hp.1⟩
    · rintro ⟨k, j, hj, hready, hlt⟩
      refine ⟨j.priority, mem_finRange _, ?_⟩
      have hne := ne_nil_of_mem ((hc.flag k j hj).1 hready)
      simp [hlt, hne]
  · rw [Option.any_eq_true]
    simp

/-! ## Runs -/

structure Sound (s : TicketedScheduler ι) : Prop where
  consistent : s.scheduler.Consistent
  tidy : s.scheduler.Tidy s.tickets

theorem Sound.step [Zero ι] {s s' : TicketedScheduler ι} {op : SchedulerOp ι} (hs : Sound s)
    (h : schedulerStep s op = some s') : Sound s' := by
  cases h
  exact ⟨hs.consistent.apply op, hs.tidy.apply hs.consistent op⟩

theorem sound_run [Zero ι] {ops : List (SchedulerOp ι)} {s : TicketedScheduler ι}
    (h : Machine.run schedulerStep ⟨empty, .initial⟩ ops = some s) : Sound s :=
  Machine.run_inv (fun _ _ _ hs => hs.step) ⟨consistent_empty, tidy_empty⟩ h

/-- **The scheduler is consistent**, after every sequence of operations. -/
theorem scheduler_consistent [Zero ι] {ops : List (SchedulerOp ι)} {s : PriorityWriteScheduler ι}
    {t : Tickets ι} (h : Machine.run schedulerStep ⟨empty, .initial⟩ ops = some ⟨s, t⟩) :
    s.numReadyStreams = ∑ p, (s.readyList p).length ∧
    (∀ id i, s.streamInfos id = some i → (i.ready = true ↔ id ∈ s.readyList i.priority)) ∧
    (∀ id p, id ∈ s.readyList p → (s.readyList p).count id = 1 ∧
      (∀ q, q ≠ p → id ∉ s.readyList q) ∧ ∃ i, s.streamInfos id = some i ∧ i.priority = p) ∧
    ((∃ p, s.readyList p ≠ []) → ∃ id i s', s.popNextReadyStream = (id, i.priority, s') ∧
      s.streamInfos id = some i ∧ i.ready = true ∧
      (∀ k j, s.streamInfos k = some j → j.ready = true → i.priority ≤ j.priority ∧
        (j.priority = i.priority → k ≠ id → t.ticket id < t.ticket k)) ∧
      s.Without s' id (some { i with ready := false })) ∧
    (∀ n, s.served n = ((finRange 8).flatMap s.readyList).take n) ∧
    (∀ p, (s.readyList p).Pairwise fun a b => t.ticket a < t.ticket b) ∧
    (∀ id, s.Without (s.markStreamNotReady id) id
      ((s.streamInfos id).map fun i => { i with ready := false })) ∧
    (∀ id, s.Without (s.unregisterStream id) id none) ∧
    ∀ id i, s.streamInfos id = some i → (s.shouldYield id = true ↔
      (∃ k j, s.streamInfos k = some j ∧ j.ready = true ∧ j.priority < i.priority) ∨
      ∃ k, (s.readyList i.priority).head? = some k ∧ k ≠ id) := by
  obtain ⟨hc, ht⟩ := sound_run h
  refine ⟨ht.counted, hc.flag, ?_, fun ⟨p, hp⟩ => popNextReadyStream_spec hc ht hp,
    served_eq_take hc ht, ht.ordered, hc.without_markStreamNotReady, hc.without_unregisterStream,
    fun id i hi => shouldYield_iff hc hi⟩
  intro id p hp
  exact ⟨count_eq_one_of_mem (hc.nodup p) hp, fun q hq hmem => hq (hc.own_unique hmem hp),
    hc.own id p hp⟩

/-- Stream 7 is ready at a worse priority, and stream 5 was put before the streams 3 and 9.  It is
    popped, and stream 9 is no longer ready. -/
def someOps : List (SchedulerOp ℕ) :=
  [.registerStream 3 kHighestPriority, .registerStream 5 kHighestPriority,
    .registerStream 7 kDefaultPriority, .registerStream 9 kHighestPriority,
    .markStreamReady 7 false, .markStreamReady 3 false, .markStreamReady 9 false,
    .markStreamReady 5 true, .popNextReadyStream, .markStreamNotReady 9]

theorem scheduler_consistent_someOps :
    ∃ s t s', Machine.run schedulerStep ⟨empty, .initial⟩ someOps = some ⟨s, t⟩ ∧
      s.numReadyStreams = ∑ p, (s.readyList p).length ∧ s.served 3 = [3, 7] ∧
      s.popNextReadyStream = (3, kHighestPriority, s') ∧
      s.Without s' 3 (some ⟨kHighestPriority, false⟩) ∧ s'.popNextReadyStream.1 = 7 := by
  obtain ⟨⟨s, t⟩, hrun, hlists⟩ := Option.map_eq_some_iff.1 (by decide +kernel :
    (Machine.run schedulerStep ⟨empty, .initial⟩ someOps).map (fun s =>
      ((finRange 8).flatMap s.scheduler.readyList, s.scheduler.popNextReadyStream.1,
        s.scheduler.streamInfos 3, s.scheduler.popNextReadyStream.2.2.popNextReadyStream.1)) =
      some ([3, 7], 3, some ⟨kHighestPriority, true⟩, 7))
  simp only [Prod.mk.injEq] at hlists
  obtain ⟨hall, hpop, hinfo, hnext⟩ := hlists
  obtain ⟨hcount, -, -, hpops, hserved, -⟩ := scheduler_consistent hrun
  have hready : ∃ p, s.readyList p ≠ [] := by
    by_contra hnone
    have hnil : (finRange 8).flatMap s.readyList = [] := flatMap_eq_nil_iff.2 fun p _ =>
      by_contra fun hp => hnone ⟨p, hp⟩
    rw [hnil] at hall
    cases hall
  obtain ⟨id, i, s', heq, hi, -, -, hwithout⟩ := hpops hready
  rw [heq] at hpop hnext
  obtain rfl : id = 3 := hpop
  rw [hinfo] at hi
  cases hi
  exact ⟨s, t, s', hrun, hcount, by rw [hserved, hall]; rfl, heq, hwithout, hnext⟩

end PriorityWriteScheduler

end Puic
