/-
  Which stream writes next: the ready lists of `PriorityWriteScheduler`
  (priority_write_scheduler.h) and the `QuicWriteBlockedList` built on it
  (quic_write_blocked_list.h).

  A registered stream has a priority and a flag that says whether it is ready;
  every priority has a list of its ready streams.  `QuicWriteBlockedList` adds
  the crypto stream, which goes before all others, and lets the stream popped
  last at a priority go on until it has written 16000 bytes.
-/
import Mathlib.Algebra.Order.Ring.Nat
import Mathlib.Data.List.Nodup
import Mathlib.Data.List.FinRange
import Mathlib.Logic.Function.Basic

namespace Puic

open Function

/-- `StreamInfo`; the stream id is the key it is stored under. -/
structure StreamInfo where
  priority : Fin 8
  ready : Bool
deriving Repr, DecidableEq

/-- `0` is `kHttp2RootStreamId`, which is never registered. -/
structure PriorityWriteScheduler (ι : Type) where
  streamInfos : ι → Option StreamInfo
  readyList : Fin 8 → List ι
  numReadyStreams : ℕ

namespace PriorityWriteScheduler

variable {ι : Type} [DecidableEq ι]

def empty : PriorityWriteScheduler ι := ⟨fun _ => none, fun _ => [], 0⟩

variable (s : PriorityWriteScheduler ι) (id : ι)

def setInfo (i : Option StreamInfo) :
    PriorityWriteScheduler ι := { s with streamInfos := Function.update s.streamInfos id i }

/-- `Erase`. -/
def eraseReady (p : Fin 8) (id : ι) : PriorityWriteScheduler ι :=
  if id ∈ s.readyList p then
    { s with
      readyList := Function.update s.readyList p ((s.readyList p).erase id)
      numReadyStreams := s.numReadyStreams - 1 }
  else s

/-- A stream goes to the front or to the back of a list. -/
def pushReady (p : Fin 8) (id : ι) (front : Bool) :
    PriorityWriteScheduler ι :=
  { s with
    readyList := Function.update s.readyList p
      (if front then id :: s.readyList p else s.readyList p ++ [id])
    numReadyStreams := s.numReadyStreams + 1 }

def registerStream [Zero ι] (s : PriorityWriteScheduler ι) (id : ι) (priority : Fin 8) :
    PriorityWriteScheduler ι :=
  if id = 0 then s
  else if (s.streamInfos id).isSome then s
  else s.setInfo id (some ⟨priority, false⟩)

def unregisterStream : PriorityWriteScheduler ι :=
  match s.streamInfos id with
  | none => s
  | some i => (if i.ready then s.eraseReady i.priority id else s).setInfo id none

def updateStreamPrecedence (priority : Fin 8) :
    PriorityWriteScheduler ι :=
  match s.streamInfos id with
  | none => s
  | some i =>
    if i.priority = priority then s
    else (if i.ready then (s.eraseReady i.priority id).pushReady priority id false
      else s).setInfo id (some { i with priority := priority })

def markStreamReady (addToFront : Bool) :
    PriorityWriteScheduler ι :=
  match s.streamInfos id with
  | none => s
  | some i =>
    if i.ready then s
    else (s.pushReady i.priority id addToFront).setInfo id (some { i with ready := true })

def markStreamNotReady : PriorityWriteScheduler ι :=
  match s.streamInfos id with
  | none => s
  | some i =>
    if i.ready then (s.eraseReady i.priority id).setInfo id (some { i with ready := false }) else s

/-- The best priority with a ready stream. -/
def firstReady : Option (Fin 8) :=
  (List.finRange 8).find? fun p => !(s.readyList p).isEmpty

def hasReadyStreams : Bool := decide (0 < s.numReadyStreams)

/-- `pop_front` of the list at `p`. -/
def popReady (p : Fin 8) : PriorityWriteScheduler ι :=
  { s with
    readyList := Function.update s.readyList p (s.readyList p).tail
    numReadyStreams := s.numReadyStreams - 1 }

/-- The head of the list at `p` is taken off and no longer flagged. -/
def popAt [Zero ι] (s : PriorityWriteScheduler ι) (p : Fin 8) :
    ι × Fin 8 × PriorityWriteScheduler ι :=
  match s.readyList p with
  | [] => (0, 7, s)
  | id :: _ =>
    match s.streamInfos id with
    | none => (id, 7, s.popReady p)
    | some i => (id, i.priority, (s.popReady p).setInfo id (some { i with ready := false }))

/-- `PopNextReadyStreamAndPrecedence`: the stream, its priority, and the scheduler without it. -/
def popNextReadyStream [Zero ι] (s : PriorityWriteScheduler ι) :
    ι × Fin 8 × PriorityWriteScheduler ι :=
  match s.firstReady with
  | none => (0, 7, s)
  | some p => s.popAt p

def shouldYield : Bool :=
  match s.streamInfos id with
  | none => false
  | some i =>
    (List.finRange 8).any (fun p => decide (p < i.priority) && !(s.readyList p).isEmpty) ||
      (s.readyList i.priority).head?.any fun h => decide (h ≠ id)

/-! ## Flags and lists agree -/

/-- A stream is flagged ready exactly when it is in the list of its priority; it is there once, and
    in no other list. -/
structure Consistent (s : PriorityWriteScheduler ι) : Prop where
  flag : ∀ id i, s.streamInfos id = some i → (i.ready = true ↔ id ∈ s.readyList i.priority)
  own : ∀ id p, id ∈ s.readyList p → ∃ i, s.streamInfos id = some i ∧ i.priority = p
  nodup : ∀ p, (s.readyList p).Nodup

def Registered : Prop := (s.streamInfos id).isSome = true

/-- The stream is in some ready list. -/
def Ready : Prop := ∃ p, id ∈ s.readyList p

variable {s : PriorityWriteScheduler ι} {id k : ι} {i : StreamInfo} {p : Fin 8}

omit [DecidableEq ι] in
theorem consistent_empty : (empty : PriorityWriteScheduler ι).Consistent where
  flag _ _ h := absurd h (by simp [empty])
  own _ _ h := absurd h (by simp [empty])
  nodup _ := List.nodup_nil

variable {o : Option StreamInfo} {front : Bool} {q : Fin 8} {s' : PriorityWriteScheduler ι}

@[simp] theorem setInfo_readyList :
    (s.setInfo id o).readyList = s.readyList := rfl

@[simp] theorem setInfo_self : (s.setInfo id o).streamInfos id = o :=
  update_self ..

theorem setInfo_of_ne (h : k ≠ id) :
    (s.setInfo id o).streamInfos k = s.streamInfos k := update_of_ne h ..

omit [DecidableEq ι] in
@[simp] theorem pushReady_streamInfos :
    (s.pushReady p id front).streamInfos = s.streamInfos := rfl

@[simp] theorem eraseReady_streamInfos : (s.eraseReady p id).streamInfos = s.streamInfos := by
  unfold eraseReady
  split <;> rfl

theorem eraseReady_readyList :
    (s.eraseReady p id).readyList = update s.readyList p ((s.readyList p).erase id) := by
  unfold eraseReady
  split
  · rfl
  · next h => rw [List.erase_of_not_mem h, update_eq_self]

omit [DecidableEq ι] in
theorem mem_pushReady :
    k ∈ (s.pushReady p id front).readyList q ↔ (q = p ∧ k = id) ∨ k ∈ s.readyList q := by
  rcases eq_or_ne q p with rfl | hne
  · simp only [pushReady, update_self]
    cases front <;> simp [or_comm]
  · simp [pushReady, hne]

/-- The stream is in no list, and the flags of all others agree with the lists.  Every operation
    takes a stream out, changes what is recorded of it, and may put it in again. -/
structure Detached (s : PriorityWriteScheduler ι) (id : ι) : Prop where
  flag : ∀ k i, k ≠ id → s.streamInfos k = some i → (i.ready = true ↔ k ∈ s.readyList i.priority)
  own : ∀ k p, k ∈ s.readyList p → ∃ i, s.streamInfos k = some i ∧ i.priority = p
  nodup : ∀ p, (s.readyList p).Nodup
  out : ∀ p, id ∉ s.readyList p

omit [DecidableEq ι] in
theorem Consistent.detached (h : s.Consistent)
    (hid : ∀ i, s.streamInfos id = some i → ¬i.ready = true) : s.Detached id where
  flag k i _ := h.flag k i
  own := h.own
  nodup := h.nodup
  out p hp := by
    obtain ⟨i, hs, rfl⟩ := h.own id p hp
    exact hid i hs ((h.flag id i hs).2 hp)

omit [DecidableEq ι] in
theorem Consistent.detached_of_unready (h : s.Consistent) (hi : s.streamInfos id = some i)
    (hr : ¬i.ready = true) : s.Detached id :=
  h.detached fun i' hi' => by rw [hi] at hi'; cases hi'; exact hr

/-- The only occurrence of a stream is taken off the list of its priority. -/
theorem Consistent.mem_update (h : s.Consistent)
    (hi : s.streamInfos id = some i)
    (hlist : s'.readyList = update s.readyList i.priority ((s.readyList i.priority).erase id)) :
    k ∈ s'.readyList q ↔ k ≠ id ∧ k ∈ s.readyList q := by
  rw [hlist]
  rcases eq_or_ne q i.priority with rfl | hne
  · rw [update_self, (h.nodup _).mem_erase_iff]
  · rw [update_of_ne hne]
    refine ⟨fun hk => ⟨?_, hk⟩, fun hk => hk.2⟩
    rintro rfl
    obtain ⟨i', hi', hp⟩ := h.own k q hk
    rw [hi] at hi'
    cases hi'
    exact hne hp.symm

theorem Consistent.detached_of_update (h : s.Consistent) (hi : s.streamInfos id = some i)
    (hinfos : s'.streamInfos = s.streamInfos)
    (hlist : s'.readyList = update s.readyList i.priority ((s.readyList i.priority).erase id)) :
    s'.Detached id := by
  constructor
  · intro k i' hk hs
    rw [hinfos] at hs
    rw [h.mem_update hi hlist, h.flag k i' hs]
    exact ⟨fun hm => ⟨hk, hm⟩, fun hm => hm.2⟩
  · intro k p hk
    obtain ⟨i', hs, hp⟩ := h.own k p ((h.mem_update hi hlist).1 hk).2
    exact ⟨i', hinfos ▸ hs, hp⟩
  · intro p
    rw [hlist]
    rcases eq_or_ne p i.priority with rfl | hne
    · rw [update_self]; exact (h.nodup _).erase id
    · rw [update_of_ne hne]; exact h.nodup p
  · exact fun p hp => ((h.mem_update hi hlist).1 hp).1 rfl

theorem Consistent.eraseReady (h : s.Consistent) (hi : s.streamInfos id = some i) :
    (s.eraseReady i.priority id).Detached id :=
  h.detached_of_update hi eraseReady_streamInfos eraseReady_readyList

/-- A detached stream may be recorded as not ready, or not recorded at all. -/
theorem Detached.setInfo (h : s.Detached id)
    (ho : ∀ i, o = some i → i.ready = false) : (s.setInfo id o).Consistent := by
  constructor
  · intro k i hk
    rcases eq_or_ne k id with rfl | hne
    · rw [setInfo_self] at hk
      rw [ho i hk]
      exact ⟨fun hr => absurd hr (by simp), fun hm => absurd hm (h.out i.priority)⟩
    · rw [setInfo_of_ne hne] at hk
      exact h.flag k i hne hk
  · intro k p hk
    have hne : k ≠ id := by rintro rfl; exact h.out p hk
    obtain ⟨i, hi, hp⟩ := h.own k p hk
    exact ⟨i, (setInfo_of_ne hne).trans hi, hp⟩
  · exact h.nodup

/-- A detached stream may be put on a list and recorded there as ready. -/
theorem Detached.attach (h : s.Detached id) (i : StreamInfo) (hr : i.ready = true) (front : Bool) :
    ((s.pushReady i.priority id front).setInfo id (some i)).Consistent := by
  constructor
  · intro k i' hk
    rw [setInfo_readyList, mem_pushReady]
    rcases eq_or_ne k id with rfl | hne
    · rw [setInfo_self] at hk
      cases hk
      simp [hr]
    · rw [setInfo_of_ne hne] at hk
      simp [h.flag k i' hne hk, hne]
  · intro k p hk
    rw [setInfo_readyList, mem_pushReady] at hk
    rcases hk with ⟨rfl, rfl⟩ | hk
    · exact ⟨i, setInfo_self, rfl⟩
    · have hne : k ≠ id := by rintro rfl; exact h.out p hk
      obtain ⟨i', hi, hp⟩ := h.own k p hk
      exact ⟨i', (setInfo_of_ne hne).trans hi, hp⟩
  · intro p
    show (update s.readyList _ _ p).Nodup
    rcases eq_or_ne p i.priority with rfl | hne
    · rw [update_self]
      cases front
      · exact List.nodup_append.2 ⟨h.nodup _, List.nodup_singleton id, by
          intro a ha b hb hab
          rw [List.mem_singleton] at hb
          subst hb hab
          exact h.out _ ha⟩
      · exact List.nodup_cons.2 ⟨h.out _, h.nodup _⟩
    · rw [update_of_ne hne]; exact h.nodup p

/-! ## The operations -/

theorem Consistent.registerStream [Zero ι] (h : s.Consistent) (priority : Fin 8) :
    (s.registerStream id priority).Consistent := by
  unfold PriorityWriteScheduler.registerStream
  split
  · exact h
  split
  · exact h
  · next hno =>
    refine (h.detached fun i hi => ?_).setInfo (by rintro i ⟨⟩; rfl)
    exact absurd (Option.isSome_of_mem hi) hno

theorem Consistent.unregisterStream (h : s.Consistent) : (s.unregisterStream id).Consistent := by
  unfold PriorityWriteScheduler.unregisterStream
  split
  · exact h
  next i hi =>
  split
  · exact (h.eraseReady hi).setInfo (by rintro i ⟨⟩)
  · next hr => exact (h.detached_of_unready hi hr).setInfo (by rintro i ⟨⟩)

theorem Consistent.updateStreamPrecedence (h : s.Consistent) (priority : Fin 8) :
    (s.updateStreamPrecedence id priority).Consistent := by
  unfold PriorityWriteScheduler.updateStreamPrecedence
  split
  · exact h
  next i hi =>
  split
  · exact h
  split
  · next hr => exact (h.eraseReady hi).attach { i with priority := priority } hr false
  · next hr => exact (h.detached_of_unready hi hr).setInfo (by rintro i ⟨⟩; simpa using hr)

theorem Consistent.markStreamReady (h : s.Consistent) (front : Bool) :
    (s.markStreamReady id front).Consistent := by
  unfold PriorityWriteScheduler.markStreamReady
  split
  · exact h
  next i hi =>
  split
  · exact h
  · next hr => exact (h.detached_of_unready hi hr).attach { i with ready := true } rfl front

theorem Consistent.markStreamNotReady (h : s.Consistent) : (s.markStreamNotReady id).Consistent := by
  unfold PriorityWriteScheduler.markStreamNotReady
  split
  · exact h
  next i hi =>
  split
  · exact (h.eraseReady hi).setInfo (by rintro i ⟨⟩; rfl)
  · exact h

/-- What popping does: nothing if there is no ready stream; else the head leaves its list. -/
theorem Consistent.popNextReadyStream_cases [Zero ι] (h : s.Consistent) :
    s.popNextReadyStream = (0, 7, s) ∨ ∃ id i rest, s.streamInfos id = some i ∧
      s.readyList i.priority = id :: rest ∧ s.popNextReadyStream =
        (id, i.priority, (s.popReady i.priority).setInfo id (some { i with ready := false })) := by
  unfold popNextReadyStream
  split
  · exact .inl rfl
  next p hp =>
  unfold popAt
  split
  · exact .inl rfl
  next id rest hlist =>
  obtain ⟨i, hi, rfl⟩ := h.own id p (by rw [hlist]; exact .head _)
  exact .inr ⟨id, i, rest, hi, hlist, by rw [hi]⟩

theorem popReady_readyList {rest : List ι} (h : s.readyList p = id :: rest) :
    (s.popReady p).readyList = update s.readyList p ((s.readyList p).erase id) := by
  rw [popReady, h, List.erase_cons_head, List.tail_cons]

theorem Consistent.popNextReadyStream [Zero ι] (h : s.Consistent) :
    s.popNextReadyStream.2.2.Consistent := by
  rcases h.popNextReadyStream_cases with hp | ⟨id, i, rest, hi, hlist, hp⟩
  · rw [hp]; exact h
  · rw [hp]
    refine Detached.setInfo (h.detached_of_update hi rfl (popReady_readyList hlist)) ?_
    rintro i ⟨⟩; rfl

/-! ## Who is registered and who is ready -/

theorem registered_registerStream [Zero ι] {priority : Fin 8} :
    (s.registerStream id priority).Registered k ↔ s.Registered k ∨ (k = id ∧ id ≠ 0) := by
  unfold registerStream Registered
  split_ifs with h₀ hsome
  · simp [h₀]
  · exact ⟨.inl, fun h => h.elim (fun h => h) fun h => h.1 ▸ hsome⟩
  · rcases eq_or_ne k id with rfl | hne
    · simp [h₀]
    · simp [setInfo_of_ne hne, hne]

theorem registerStream_readyList [Zero ι] (priority : Fin 8) :
    (s.registerStream id priority).readyList = s.readyList := by
  unfold registerStream
  split
  · rfl
  · split <;> rfl

theorem unregisterStream_of_ne (hne : k ≠ id) :
    (s.unregisterStream id).streamInfos k = s.streamInfos k := by
  unfold unregisterStream
  split
  · rfl
  · rw [setInfo_of_ne hne]
    split
    · rw [eraseReady_streamInfos]
    · rfl

theorem Ready.unregisterStream (h : s.Ready k) (hne : k ≠ id) : (s.unregisterStream id).Ready k := by
  obtain ⟨p, hp⟩ := h
  refine ⟨p, ?_⟩
  unfold PriorityWriteScheduler.unregisterStream
  split
  · exact hp
  next i hi =>
  rw [setInfo_readyList]
  split
  · rw [eraseReady_readyList]
    rcases eq_or_ne p i.priority with rfl | hq
    · rw [update_self]; exact (List.mem_erase_of_ne hne).2 hp
    · rwa [update_of_ne hq]
  · exact hp

theorem ready_of_unregisterStream (h : s.Consistent) (hk : (s.unregisterStream id).Ready k) :
    s.Ready k ∧ k ≠ id := by
  obtain ⟨p, hp⟩ := hk
  unfold unregisterStream at hp
  split at hp
  · next hn =>
    refine ⟨⟨p, hp⟩, ?_⟩
    rintro rfl
    obtain ⟨i, hi, -⟩ := h.own k p hp
    cases hn.symm.trans hi
  next i hi =>
  split at hp
  · obtain ⟨hne, hp⟩ := (h.mem_update hi eraseReady_readyList).1 hp
    exact ⟨⟨p, hp⟩, hne⟩
  · next hr =>
    refine ⟨⟨p, hp⟩, ?_⟩
    rintro rfl
    exact (h.detached_of_unready hi hr).out p hp

theorem registered_unregisterStream : (s.unregisterStream id).Registered k ↔ s.Registered k ∧ k ≠ id := by
  rcases eq_or_ne k id with rfl | hne
  · unfold unregisterStream
    split
    · next hnone => simp [Registered, hnone]
    · simp [Registered]
  · rw [Registered, unregisterStream_of_ne hne, Registered]
    simp [hne]

theorem unregisterStream_unregisterStream :
    (s.unregisterStream id).unregisterStream id = s.unregisterStream id := by
  have h : (s.unregisterStream id).streamInfos id = none := by
    unfold unregisterStream
    split
    · assumption
    · exact setInfo_self
  rw [unregisterStream, h]

theorem ready_markStreamReady : (s.markStreamReady id front).Ready k ↔
    s.Ready k ∨ (k = id ∧ ∃ i, s.streamInfos id = some i ∧ i.ready = false) := by
  unfold markStreamReady
  split
  · next hn => simp [hn]
  next i hi =>
  split
  · next hr => simp [hi, hr]
  · next hr =>
    simp only [Ready, setInfo_readyList, mem_pushReady, hi, Option.some.injEq, exists_eq_left', exists_or]
    simp [hr, or_comm]

theorem registered_markStreamReady : (s.markStreamReady id front).Registered k ↔ s.Registered k := by
  unfold markStreamReady
  split
  · rfl
  next i hi =>
  split
  · rfl
  rcases eq_or_ne k id with rfl | hne
  · simp [Registered, hi]
  · rw [Registered, setInfo_of_ne hne]; rfl

theorem Consistent.registered_popNextReadyStream [Zero ι] (h : s.Consistent) :
    s.popNextReadyStream.2.2.Registered k ↔ s.Registered k := by
  rcases h.popNextReadyStream_cases with hp | ⟨id, i, rest, hi, -, hp⟩
  · rw [hp]
  · rw [hp]
    rcases eq_or_ne k id with rfl | hne
    · simp [Registered, hi]
    · rw [Registered, setInfo_of_ne hne]; rfl

theorem Consistent.ready_of_popNextReadyStream [Zero ι] (h : s.Consistent)
    (hk : s.popNextReadyStream.2.2.Ready k) : s.Ready k := by
  rcases h.popNextReadyStream_cases with hp | ⟨id, i, rest, hi, hlist, hp⟩
  · rwa [hp] at hk
  · rw [hp] at hk
    obtain ⟨p, hkp⟩ := hk
    exact ⟨p, ((h.mem_update hi (popReady_readyList hlist)).1 hkp).2⟩

theorem Consistent.ready_popped [Zero ι] (h : s.Consistent) :
    s.Ready s.popNextReadyStream.1 ∨ s.popNextReadyStream.1 = 0 := by
  rcases h.popNextReadyStream_cases with hp | ⟨id, i, rest, -, hlist, hp⟩
  · rw [hp]; exact .inr rfl
  · rw [hp]; exact .inl ⟨i.priority, by rw [hlist]; exact .head _⟩

theorem Consistent.ready_popNextReadyStream [Zero ι] (h : s.Consistent) (hk : s.Ready k)
    (hne : k ≠ s.popNextReadyStream.1) : s.popNextReadyStream.2.2.Ready k := by
  obtain ⟨p, hkp⟩ := hk
  rcases h.popNextReadyStream_cases with hp | ⟨id, i, rest, hi, hlist, hp⟩
  · rw [hp]; exact ⟨p, hkp⟩
  · rw [hp] at hne ⊢
    exact ⟨p, (h.mem_update hi (popReady_readyList hlist)).2 ⟨hne, hkp⟩⟩

end PriorityWriteScheduler

open PriorityWriteScheduler

/-! ## The list of blocked streams -/

def kCryptoStreamId : ℕ := 1
def kHighestPriority : Fin 8 := 0
def kDefaultPriority : Fin 8 := 3

structure WriteBlockedList where
  scheduler : PriorityWriteScheduler ℕ
  batchWriteStreamId : Fin 8 → ℕ
  bytesLeftForBatchWrite : Fin 8 → ℤ
  lastPriorityPopped : Fin 8
  cryptoStreamBlocked : Bool

namespace WriteBlockedList

def empty : WriteBlockedList := ⟨.empty, fun _ => 0, fun _ => 0, 0, false⟩

variable (l : WriteBlockedList) (id : ℕ)

/-- `HasWriteBlockedCryptoStream() || HasWriteBlockedDataStreams()`. -/
def hasWriteBlocked : Bool :=
  l.cryptoStreamBlocked || l.scheduler.hasReadyStreams

def numBlockedStreams : ℕ :=
  l.scheduler.numReadyStreams + if l.cryptoStreamBlocked then 1 else 0

def shouldYield : Bool :=
  if id = kCryptoStreamId then false
  else if l.cryptoStreamBlocked then true
  else l.scheduler.shouldYield id

/-- Latches the stream popped at `p` for batch writing. -/
def latch (p : Fin 8) : WriteBlockedList :=
  if !l.scheduler.hasReadyStreams then
    { l with
      batchWriteStreamId := Function.update l.batchWriteStreamId p 0
      lastPriorityPopped := p }
  else if l.batchWriteStreamId p ≠ id then
    { l with
      batchWriteStreamId := Function.update l.batchWriteStreamId p id
      bytesLeftForBatchWrite := Function.update l.bytesLeftForBatchWrite p 16000
      lastPriorityPopped := p }
  else l

def popFront : ℕ × WriteBlockedList :=
  if l.cryptoStreamBlocked then (kCryptoStreamId, { l with cryptoStreamBlocked := false })
  else
    let r := l.scheduler.popNextReadyStream
    (r.1, { l with scheduler := r.2.2 }.latch r.1 r.2.1)

def registerStream (priority : Fin 8) : WriteBlockedList :=
  { l with scheduler := l.scheduler.registerStream id priority }

def unregisterStream : WriteBlockedList :=
  { l with scheduler := l.scheduler.unregisterStream id }

/-- What is left is an `int32_t`. -/
def updateBytesForStream (id bytes : ℕ) : WriteBlockedList :=
  if l.batchWriteStreamId l.lastPriorityPopped = id then
    { l with
      bytesLeftForBatchWrite := Function.update l.bytesLeftForBatchWrite l.lastPriorityPopped
        ((l.bytesLeftForBatchWrite l.lastPriorityPopped - bytes).bmod 4294967296) }
  else l

def addStream : WriteBlockedList :=
  if id = kCryptoStreamId then { l with cryptoStreamBlocked := true }
  else
    { l with
      scheduler := l.scheduler.markStreamReady id
        (decide (id = l.batchWriteStreamId l.lastPriorityPopped) &&
          decide (0 < l.bytesLeftForBatchWrite l.lastPriorityPopped)) }

/-- The streams in the list, the crypto stream first. -/
def streams : List ℕ :=
  (if l.cryptoStreamBlocked then [kCryptoStreamId] else []) ++
    (List.finRange 8).flatMap l.scheduler.readyList

variable {l : WriteBlockedList} {id k : ℕ}

theorem mem_streams : k ∈ l.streams ↔ (l.cryptoStreamBlocked = true ∧ k = kCryptoStreamId) ∨
    l.scheduler.Ready k := by
  rw [streams, List.mem_append, List.mem_flatMap]
  refine or_congr ?_ ⟨fun ⟨p, _, hp⟩ => ⟨p, hp⟩, fun ⟨p, hp⟩ => ⟨p, List.mem_finRange p, hp⟩⟩
  split
  · next h => simp [h]
  · next h => simp [h]

@[simp] theorem latch_scheduler {p : Fin 8} : (l.latch id p).scheduler = l.scheduler := by
  unfold latch
  split
  · rfl
  · split <;> rfl

@[simp] theorem latch_cryptoStreamBlocked {p : Fin 8} :
    (l.latch id p).cryptoStreamBlocked = l.cryptoStreamBlocked := by
  unfold latch
  split
  · rfl
  · split <;> rfl

@[simp] theorem updateBytesForStream_scheduler {n : ℕ} :
    (l.updateBytesForStream id n).scheduler = l.scheduler := by
  unfold updateBytesForStream
  split <;> rfl

@[simp] theorem updateBytesForStream_streams {n : ℕ} :
    (l.updateBytesForStream id n).streams = l.streams := by
  unfold updateBytesForStream
  split <;> rfl

/-- **Popping** takes one stream off the list and leaves every other where it was. -/
theorem popFront_spec (h : l.scheduler.Consistent) :
    l.popFront.2.scheduler.Consistent ∧
    (∀ k, l.popFront.2.scheduler.Registered k ↔ l.scheduler.Registered k) ∧
    ∀ k ∈ l.streams, k ≠ l.popFront.1 → k ∈ l.popFront.2.streams := by
  unfold popFront
  split
  · next hc =>
    refine ⟨h, fun _ => Iff.rfl, fun k hk hne => ?_⟩
    rw [mem_streams] at hk ⊢
    exact .inr (hk.resolve_left fun hk => hne hk.2)
  · next hc =>
    rw [latch_scheduler]
    refine ⟨h.popNextReadyStream, fun k => h.registered_popNextReadyStream, fun k hk hne => ?_⟩
    rw [mem_streams] at hk ⊢
    rw [latch_scheduler]
    exact .inr (h.ready_popNextReadyStream (hk.resolve_left fun hk => hc hk.1) hne)

theorem mem_of_mem_popFront (h : l.scheduler.Consistent) (hk : k ∈ l.popFront.2.streams) :
    k ∈ l.streams := by
  unfold popFront at hk
  split at hk
  · rw [mem_streams] at hk ⊢
    exact .inr (hk.resolve_left fun h => absurd h.1 (by simp))
  · next hc =>
    rw [mem_streams, latch_scheduler, latch_cryptoStreamBlocked] at hk
    rw [mem_streams]
    exact hk.imp_right fun hk => h.ready_of_popNextReadyStream hk

theorem popFront_mem (h : l.scheduler.Consistent) : l.popFront.1 ∈ l.streams ∨ l.popFront.1 = 0 := by
  unfold popFront
  split
  · next hc => exact .inl (mem_streams.2 (.inl ⟨hc, rfl⟩))
  · exact h.ready_popped.imp_left fun hr => mem_streams.2 (.inr hr)

theorem consistent_addStream (h : l.scheduler.Consistent) : (l.addStream id).scheduler.Consistent := by
  unfold addStream
  split
  · exact h
  · exact h.markStreamReady _

theorem registered_addStream : (l.addStream id).scheduler.Registered k ↔ l.scheduler.Registered k := by
  unfold addStream
  split
  · rfl
  · exact registered_markStreamReady

theorem mem_addStream (hk : k ∈ l.streams) : k ∈ (l.addStream id).streams := by
  unfold addStream
  rw [mem_streams] at hk
  split
  · rw [mem_streams]; exact hk.imp_left fun h => ⟨rfl, h.2⟩
  · rw [mem_streams, ready_markStreamReady]; exact hk.imp_right .inl

theorem mem_of_mem_addStream (hk : k ∈ (l.addStream id).streams) : k ∈ l.streams ∨ k = id := by
  unfold addStream at hk
  split at hk
  · next hc =>
    rw [mem_streams] at hk ⊢
    rcases hk with ⟨-, hk⟩ | hk
    · exact .inr (hk.trans hc.symm)
    · exact .inl (.inr hk)
  · rw [mem_streams, ready_markStreamReady, ← or_assoc] at hk
    rw [mem_streams]
    exact hk.imp_right And.left

theorem mem_addStream_self (h : l.scheduler.Consistent)
    (hid : id = kCryptoStreamId ∨ l.scheduler.Registered id) : id ∈ (l.addStream id).streams := by
  unfold addStream
  split
  · next hc => rw [mem_streams]; exact .inl ⟨rfl, hc⟩
  · next hc =>
    obtain ⟨i, hi⟩ := Option.isSome_iff_exists.1 (hid.resolve_left hc)
    rw [mem_streams, ready_markStreamReady]
    right
    cases hr : i.ready
    · exact .inr ⟨rfl, i, hi, hr⟩
    · exact .inl ⟨i.priority, (h.flag id i hi).1 hr⟩

theorem mem_registerStream {priority : Fin 8} : k ∈ (l.registerStream id priority).streams ↔
    k ∈ l.streams := by
  rw [mem_streams, mem_streams, Ready, registerStream, registerStream_readyList]
  rfl

theorem mem_unregisterStream (hk : k ∈ l.streams) (hne : k ≠ id) :
    k ∈ (l.unregisterStream id).streams := by
  rw [mem_streams] at hk ⊢
  exact hk.imp_right fun h => h.unregisterStream hne

theorem mem_of_mem_unregisterStream (h : l.scheduler.Consistent) (hid : id ≠ kCryptoStreamId)
    (hk : k ∈ (l.unregisterStream id).streams) : k ∈ l.streams ∧ k ≠ id := by
  rw [mem_streams] at hk ⊢
  rcases hk with hk | hk
  · exact ⟨.inl hk, fun he => hid (he.symm.trans hk.2)⟩
  · exact (ready_of_unregisterStream h hk).imp_left .inr

end WriteBlockedList
end Puic
