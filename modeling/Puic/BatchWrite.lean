/-
  Batch writing: a stream that was latched keeps its turn for 16000 bytes
  (quic_write_blocked_list.h, as `QuicSession::OnCanWrite` uses it).

  Beside the list a run records which stream `PopFront` latched at each priority, as long
  as that stream is added again before another data stream is popped, and how many bytes
  were charged to the latch since.  `PopFront` does not set the last popped priority when
  it returns the stream that is latched already; if a stream of another priority was popped
  in between, the bytes of the latched stream are charged nowhere and it goes to the back.
  `batch_writes_keep_quota`: as long as that does not happen, and the bytes left stay an
  `int32_t`, the latched stream is the next one of its priority until it has used up its
  16000 bytes.
-/
import Puic.ReadyLists

namespace Puic

open Option Function

namespace WriteBlockedList

/-- The data stream that `PopFront` would return, with its priority. -/
def next (l : WriteBlockedList) : Option (ℕ × Fin 8) :=
  if l.cryptoStreamBlocked then none
  else l.scheduler.firstReady.bind fun p => (l.scheduler.readyList p).head?.map fun id => (id, p)

/-- `PopFront` latches the stream it returns: others are ready, and it was not latched before. -/
def Latches (l : WriteBlockedList) (id : ℕ) (p : Fin 8) : Prop :=
  1 < l.scheduler.numReadyStreams ∧ l.batchWriteStreamId p ≠ id

instance (l : WriteBlockedList) (id : ℕ) (p : Fin 8) : Decidable (l.Latches id p) :=
  inferInstanceAs (Decidable (_ ∧ _))

end WriteBlockedList

structure BatchWrites where
  list : WriteBlockedList
  /-- The stream that was latched last, if it was added again before each later pop. -/
  latched : Fin 8 → Option ℕ
  /-- The bytes charged since the latest latch. -/
  charged : Fin 8 → ℕ

inductive BatchOp where
  | registerStream (id : ℕ) (priority : Fin 8)
  | popFront
  | updateBytesForStream (id bytes : ℕ)
  | addStream (id : ℕ)
deriving Repr, DecidableEq

namespace BatchWrites

def initial : BatchWrites := ⟨.empty, fun _ => none, fun _ => 0⟩

variable (s : BatchWrites)

/-- When a data stream is popped, only a latched stream that is in its list keeps its latch. -/
def popFront : BatchWrites :=
  match s.list.next with
  | none => { s with list := s.list.popFront.2 }
  | some (id, p) =>
    let kept q := (s.latched q).filter fun a => decide (a = id ∨ a ∈ s.list.scheduler.readyList q)
    { list := s.list.popFront.2
      latched := if s.list.Latches id p then Function.update kept p (some id) else kept
      charged := if s.list.Latches id p then Function.update s.charged p 0 else s.charged }

def updateBytesForStream (id bytes : ℕ) : BatchWrites :=
  { s with
    list := s.list.updateBytesForStream id bytes
    charged :=
      if s.list.batchWriteStreamId s.list.lastPriorityPopped = id then
        Function.update s.charged s.list.lastPriorityPopped (s.charged s.list.lastPriorityPopped + bytes)
      else s.charged }

/-- `OnCanWrite` pops only when a stream is blocked. -/
def batchStep : BatchOp → Option BatchWrites
  | .registerStream id priority => some { s with list := s.list.registerStream id priority }
  | .popFront => if s.list.hasWriteBlocked then some s.popFront else none
  | .updateBytesForStream id bytes => some (s.updateBytesForStream id bytes)
  | .addStream id => some { s with list := s.list.addStream id }

/-- A latched stream is popped only while its priority is the one popped last, and the bytes left
    do not leave the range of an `int32_t`. -/
def InTurn : BatchOp → Prop
  | .popFront => ∀ r ∈ s.list.next, s.list.batchWriteStreamId r.2 = r.1 →
      1 < s.list.scheduler.numReadyStreams → s.list.lastPriorityPopped = r.2
  | .updateBytesForStream id bytes => s.list.batchWriteStreamId s.list.lastPriorityPopped = id →
      -2147483648 ≤ s.list.bytesLeftForBatchWrite s.list.lastPriorityPopped - bytes
  | _ => True

instance (s : BatchWrites) : DecidablePred s.InTurn
  | .popFront => inferInstanceAs (Decidable (∀ r ∈ s.list.next, s.list.batchWriteStreamId r.2 = r.1 →
      1 < s.list.scheduler.numReadyStreams → s.list.lastPriorityPopped = r.2))
  | .updateBytesForStream id bytes =>
    inferInstanceAs (Decidable (s.list.batchWriteStreamId s.list.lastPriorityPopped = id →
      -2147483648 ≤ s.list.bytesLeftForBatchWrite s.list.lastPriorityPopped - bytes))
  | .registerStream _ _ => inferInstanceAs (Decidable True)
  | .addStream _ => inferInstanceAs (Decidable True)

end BatchWrites

/-! ## What `PopFront` does -/

namespace WriteBlockedList

open PriorityWriteScheduler

/-- The lists and flags of the scheduler agree, every batch belongs to a stream of its priority. -/
structure Ordered (l : WriteBlockedList) : Prop where
  sound : ∃ t, Sound ⟨l.scheduler, t⟩
  root : l.scheduler.streamInfos 0 = none
  crypto : ∀ q, kCryptoStreamId ∉ l.scheduler.readyList q
  batch : ∀ q, l.batchWriteStreamId q ≠ 0 →
    ∃ i, l.scheduler.streamInfos (l.batchWriteStreamId q) = some i ∧ i.priority = q

/-- `PopFront` returns the data stream `id` of priority `p`. -/
structure Pops (l : WriteBlockedList) (id : ℕ) (p : Fin 8) (rest : List ℕ) : Prop where
  info : l.scheduler.streamInfos id = some ⟨p, true⟩
  list : l.scheduler.readyList p = id :: rest
  best : ∀ q, l.scheduler.readyList q ≠ [] → p ≤ q
  popFront : l.popFront = (id, { l with scheduler := l.scheduler.popNextReadyStream.2.2 }.latch id p)
  readyList : l.scheduler.popNextReadyStream.2.2.readyList = Function.update l.scheduler.readyList p rest
  numReadyStreams : l.scheduler.popNextReadyStream.2.2.numReadyStreams = l.scheduler.numReadyStreams - 1
  streamInfos : l.scheduler.popNextReadyStream.2.2.streamInfos =
    Function.update l.scheduler.streamInfos id (some ⟨p, false⟩)

variable {l : WriteBlockedList} {id k : ℕ} {p q : Fin 8} {rest : List ℕ}

theorem Ordered.consistent (h : l.Ordered) : l.scheduler.Consistent :=
  h.sound.elim fun _ h => h.consistent

theorem Ordered.ne_zero (h : l.Ordered) {i : StreamInfo}
    (hi : l.scheduler.streamInfos id = some i) : id ≠ 0 := by
  rintro rfl
  rw [h.root] at hi
  cases hi

theorem Ordered.batch_priority (h : l.Ordered) {i : StreamInfo} (hi : l.scheduler.streamInfos id = some i)
    (hq : l.batchWriteStreamId q = id) : i.priority = q := by
  obtain ⟨j, hj, hp⟩ := h.batch q (by rw [hq]; exact h.ne_zero hi)
  rw [hq, hi] at hj
  cases hj
  exact hp

theorem next_eq_some (h : l.next = some (id, p)) :
    l.cryptoStreamBlocked = false ∧ l.scheduler.firstReady = some p ∧
      (l.scheduler.readyList p).head? = some id := by
  unfold next at h
  split at h
  · cases h
  · next hc =>
    obtain ⟨q, hq, hmap⟩ := bind_eq_some_iff.1 h
    obtain ⟨k, hk, he⟩ := map_eq_some_iff.1 hmap
    cases he
    exact ⟨Bool.not_eq_true _ ▸ hc, hq, hk⟩

theorem Ordered.pops (h : l.Ordered) (hn : l.next = some (id, p)) : ∃ rest, l.Pops id p rest := by
  obtain ⟨hcrypto, hfirst, hhead⟩ := next_eq_some hn
  have hne : l.scheduler.readyList p ≠ [] := by
    intro he
    rw [he] at hhead
    cases hhead
  obtain ⟨id', i, rest, hfirst', hi, hready, hlist, hbest, hpop⟩ := h.consistent.exists_next hne
  rw [hfirst] at hfirst'
  cases hfirst'
  rw [hlist] at hhead
  cases hhead
  have hinfo : i = ⟨i.priority, true⟩ := by rw [← hready]
  refine ⟨rest, ⟨hi.trans (congrArg some hinfo), hlist, hbest, ?_, ?_, ?_, ?_⟩⟩
  · rw [WriteBlockedList.popFront, hcrypto, hpop]
    rfl
  · rw [hpop]
    show update _ _ _ = _
    rw [hlist, List.tail_cons]
  · rw [hpop]
    rfl
  · rw [hpop]
    rfl

/-- Without a data stream to return, `PopFront` returns the crypto stream. -/
theorem Ordered.popFront_crypto (h : l.Ordered) (hn : l.next = none) (hb : l.hasWriteBlocked = true) :
    l.popFront = (kCryptoStreamId, { l with cryptoStreamBlocked := false }) := by
  by_cases hc : l.cryptoStreamBlocked = true
  · rw [WriteBlockedList.popFront, if_pos hc]
  · exfalso
    obtain ⟨t, ht⟩ := h.sound
    have hready : l.scheduler.hasReadyStreams = true := by simpa [hasWriteBlocked, hc] using hb
    obtain ⟨p, hp⟩ := (hasReadyStreams_iff ht.tidy).1 hready
    obtain ⟨id, i, rest, hfirst, -, -, hlist, -⟩ := h.consistent.exists_next hp
    simp [next, hc, hfirst, hlist] at hn

theorem Pops.alone (h : l.Pops id p rest) (hnum : ¬1 < l.scheduler.numReadyStreams) :
    l.popFront.2 = { l with
      scheduler := l.scheduler.popNextReadyStream.2.2
      batchWriteStreamId := update l.batchWriteStreamId p 0
      lastPriorityPopped := p } := by
  have hready : l.scheduler.popNextReadyStream.2.2.hasReadyStreams = false := by
    rw [hasReadyStreams, h.numReadyStreams, decide_eq_false_iff_not]
    omega
  simp [h.popFront, latch, hready]

theorem Pops.others (h : l.Pops id p rest) (hnum : 1 < l.scheduler.numReadyStreams) :
    l.popFront.2 =
      if l.batchWriteStreamId p = id then { l with scheduler := l.scheduler.popNextReadyStream.2.2 }
      else
        { l with
          scheduler := l.scheduler.popNextReadyStream.2.2
          batchWriteStreamId := update l.batchWriteStreamId p id
          bytesLeftForBatchWrite := update l.bytesLeftForBatchWrite p 16000
          lastPriorityPopped := p } := by
  have hready : l.scheduler.popNextReadyStream.2.2.hasReadyStreams = true := by
    rw [hasReadyStreams, h.numReadyStreams, decide_eq_true_iff]
    omega
  rw [h.popFront, latch, hready]
  by_cases hb : l.batchWriteStreamId p = id
  · simp [hb]
  · simp [hb]

theorem Pops.scheduler (h : l.Pops id p rest) :
    l.popFront.2.scheduler = l.scheduler.popNextReadyStream.2.2 := by
  rw [h.popFront, latch_scheduler]

theorem Pops.popFront_readyList (h : l.Pops id p rest) :
    l.popFront.2.scheduler.readyList = update l.scheduler.readyList p rest := by
  rw [h.scheduler, h.readyList]

theorem Pops.mem_iff (h : l.Pops id p rest) (hl : l.Ordered) :
    k ∈ l.popFront.2.scheduler.readyList q ↔ k ≠ id ∧ k ∈ l.scheduler.readyList q := by
  have hnodup := h.list ▸ hl.consistent.nodup p
  rw [h.popFront_readyList]
  rcases eq_or_ne q p with rfl | hne
  · rw [update_self, h.list, List.mem_cons]
    constructor
    · intro hk
      refine ⟨?_, .inr hk⟩
      rintro rfl
      exact (List.nodup_cons.1 hnodup).1 hk
    · exact fun hk => hk.2.resolve_left hk.1
  · rw [update_of_ne hne]
    refine ⟨fun hk => ⟨?_, hk⟩, And.right⟩
    rintro rfl
    exact hne (hl.consistent.own_unique hk (by rw [h.list]; exact .head _))

theorem Pops.company (h : l.Pops id p rest) (hl : l.Ordered) (hnum : 1 < l.scheduler.numReadyStreams) :
    ∃ k q, k ≠ id ∧ p ≤ q ∧ k ∈ l.popFront.2.scheduler.readyList q := by
  obtain ⟨t, ht⟩ := hl.sound
  have hnext := ht.tidy.popNextReadyStream ht.consistent
  have hready : l.scheduler.popNextReadyStream.2.2.hasReadyStreams = true := by
    rw [hasReadyStreams, h.numReadyStreams, decide_eq_true_iff]
    omega
  obtain ⟨q, hq⟩ := (hasReadyStreams_iff hnext).1 hready
  obtain ⟨k, hk⟩ := List.exists_mem_of_ne_nil _ hq
  rw [← h.scheduler] at hk
  have hk' := (h.mem_iff hl).1 hk
  exact ⟨k, q, hk'.1, h.best q (List.ne_nil_of_mem hk'.2), hk⟩

/-! ## Every operation keeps the list in order -/

theorem ordered_empty : WriteBlockedList.empty.Ordered where
  sound := ⟨.initial, consistent_empty, tidy_empty⟩
  root := rfl
  crypto _ := List.not_mem_nil
  batch _ h := absurd rfl h

/-- A known stream keeps its priority. -/
def Extends (l l' : WriteBlockedList) : Prop :=
  ∀ k i, l.scheduler.streamInfos k = some i → ∃ i', l'.scheduler.streamInfos k = some i' ∧
    i'.priority = i.priority

/-- The scheduler takes one operation that does not forget a stream; a batch goes to no one or to
    a stream of its priority. -/
theorem Ordered.of_apply (h : l.Ordered) {l' : WriteBlockedList} (op : SchedulerOp ℕ)
    (hs : l'.scheduler = l.scheduler.apply op) (hroot : l'.scheduler.streamInfos 0 = none)
    (hcrypto : ∀ q, kCryptoStreamId ∉ l'.scheduler.readyList q) (hext : l.Extends l')
    (hbatch : ∀ q, l'.batchWriteStreamId q ≠ l.batchWriteStreamId q → l'.batchWriteStreamId q ≠ 0 →
      ∃ i, l.scheduler.streamInfos (l'.batchWriteStreamId q) = some i ∧ i.priority = q) : l'.Ordered := by
  refine ⟨?_, hroot, hcrypto, ?_⟩
  · obtain ⟨t, ht⟩ := h.sound
    rw [hs]
    have hstep : schedulerStep ⟨l.scheduler, t⟩ op = some _ := rfl
    exact ⟨_, ht.step hstep⟩
  · intro q hq
    have hold : ∃ i, l.scheduler.streamInfos (l'.batchWriteStreamId q) = some i ∧ i.priority = q := by
      by_cases he : l'.batchWriteStreamId q = l.batchWriteStreamId q
      · rw [he] at hq ⊢
        exact h.batch q hq
      · exact hbatch q he hq
    obtain ⟨i, hi, rfl⟩ := hold
    exact hext _ i hi

theorem extends_registerStream (priority : Fin 8) : l.Extends (l.registerStream id priority) := by
  intro k i hi
  refine ⟨i, ?_, rfl⟩
  show (PriorityWriteScheduler.registerStream _ _ _).streamInfos k = _
  unfold PriorityWriteScheduler.registerStream
  split_ifs with h0 hsome
  · exact hi
  · exact hi
  · rwa [setInfo_of_ne]
    rintro rfl
    exact hsome (isSome_of_mem hi)

theorem Ordered.registerStream (h : l.Ordered) (priority : Fin 8) :
    (l.registerStream id priority).Ordered := by
  have hlists : (l.registerStream id priority).scheduler.readyList = l.scheduler.readyList :=
    registerStream_readyList priority
  refine h.of_apply (.registerStream id priority) rfl ?_ (hlists ▸ h.crypto)
    (extends_registerStream priority)
    (fun _ hne => absurd rfl hne)
  show (PriorityWriteScheduler.registerStream _ _ _).streamInfos 0 = _
  unfold PriorityWriteScheduler.registerStream
  split_ifs with h0 hsome
  · exact h.root
  · exact h.root
  · rw [setInfo_of_ne (Ne.symm h0), h.root]

theorem Ordered.updateBytesForStream (h : l.Ordered) (n : ℕ) : (l.updateBytesForStream id n).Ordered := by
  refine h.of_apply (.shouldYield id) updateBytesForStream_scheduler ?_ ?_ ?_ ?_
  · rw [updateBytesForStream_scheduler, h.root]
  · rw [updateBytesForStream_scheduler]
    exact h.crypto
  · intro k i hi
    rw [updateBytesForStream_scheduler]
    exact ⟨i, hi, rfl⟩
  · intro q hne
    refine absurd ?_ hne
    unfold WriteBlockedList.updateBytesForStream
    split <;> rfl

/-- Marking a stream ready changes nothing but its flag in what is recorded. -/
theorem streamInfos_markStreamReady {s : PriorityWriteScheduler ℕ} {front : Bool} :
    (s.markStreamReady id front).streamInfos k =
      if k = id then (s.streamInfos id).map fun i => { i with ready := true } else s.streamInfos k := by
  unfold markStreamReady
  rcases eq_or_ne k id with rfl | hk
  · rw [if_pos rfl]
    rcases hi : s.streamInfos k with _ | i
    · exact hi
    dsimp only
    split
    · next hr => rw [hi, map_some, ← hr]
    · rw [setInfo_self, map_some]
  · rw [if_neg hk]
    rcases s.streamInfos id with _ | i
    · rfl
    dsimp only
    split
    · rfl
    · rw [setInfo_of_ne hk, pushReady_streamInfos]

theorem extends_addStream (l : WriteBlockedList) (id : ℕ) : l.Extends (l.addStream id) := by
  intro k i hi
  unfold WriteBlockedList.addStream
  split
  · exact ⟨i, hi, rfl⟩
  · dsimp only
    rw [streamInfos_markStreamReady]
    split_ifs with hk
    · exact ⟨{ i with ready := true }, by rw [← hk, hi, map_some], rfl⟩
    · exact ⟨i, hi, rfl⟩

theorem addStream_data (hid : id ≠ kCryptoStreamId) :
    l.addStream id = { l with
      scheduler := l.scheduler.markStreamReady id
        (decide (id = l.batchWriteStreamId l.lastPriorityPopped) &&
          decide (0 < l.bytesLeftForBatchWrite l.lastPriorityPopped)) } := if_neg hid

theorem Ordered.addStream (h : l.Ordered) : (l.addStream id).Ordered := by
  have hext := extends_addStream l id
  by_cases hid : id = kCryptoStreamId
  · subst hid
    exact h.of_apply (.shouldYield 0) rfl h.root h.crypto hext (fun _ hne => absurd rfl hne)
  · rw [addStream_data hid] at hext ⊢
    refine h.of_apply (.markStreamReady id _) rfl ?_ (fun q hm => ?_) hext (fun _ hne => absurd rfl hne)
    · dsimp only
      rw [streamInfos_markStreamReady]
      split_ifs with h0
      · rw [← h0, h.root, map_none]
      · exact h.root
    · rcases ready_markStreamReady.1 ⟨q, hm⟩ with ⟨r, hr⟩ | ⟨he, -⟩
      · exact h.crypto r hr
      · exact hid he.symm

theorem Pops.extends (h : l.Pops id p rest) : l.Extends l.popFront.2 := by
  intro k i hi
  rw [h.scheduler, h.streamInfos]
  rcases eq_or_ne k id with rfl | hne
  · rw [h.info] at hi
    cases hi
    exact ⟨⟨p, false⟩, update_self .., rfl⟩
  · exact ⟨i, by rw [update_of_ne hne, hi], rfl⟩

theorem Pops.ordered (h : l.Pops id p rest) (hl : l.Ordered) : l.popFront.2.Ordered := by
  refine hl.of_apply .popNextReadyStream h.scheduler ?_
    (fun q hm => hl.crypto q ((h.mem_iff hl).1 hm).2) h.extends ?_
  · rw [h.scheduler, h.streamInfos, update_of_ne (hl.ne_zero h.info).symm, hl.root]
  · -- only the batch of `p` changes, to the stream that was popped or to none
    have hbatch : ∀ q, l.popFront.2.batchWriteStreamId q = l.batchWriteStreamId q ∨
        l.popFront.2.batchWriteStreamId q = 0 ∨ (q = p ∧ l.popFront.2.batchWriteStreamId q = id) := by
      intro q
      by_cases hnum : 1 < l.scheduler.numReadyStreams
      · rw [h.others hnum]
        split
        · exact .inl rfl
        · rcases eq_or_ne q p with rfl | hne
          · exact .inr (.inr ⟨rfl, update_self ..⟩)
          · exact .inl (update_of_ne hne ..)
      · rw [h.alone hnum]
        rcases eq_or_ne q p with rfl | hne
        · exact .inr (.inl (update_self ..))
        · exact .inl (update_of_ne hne ..)
    intro q hne h0
    rcases hbatch q with hq | hq | ⟨rfl, hq⟩
    · exact absurd hq hne
    · exact absurd hq h0
    · rw [hq]
      exact ⟨_, h.info, rfl⟩

theorem Ordered.popFront (h : l.Ordered) (hb : l.hasWriteBlocked = true) : l.popFront.2.Ordered := by
  rcases hn : l.next with _ | ⟨id, p⟩
  · rw [h.popFront_crypto hn hb]
    exact ⟨h.sound, h.root, h.crypto, h.batch⟩
  · obtain ⟨rest, hp⟩ := h.pops hn
    exact hp.ordered h

/-! ## A latched stream keeps its turn -/

/-- Stream `a` was latched at `p` and added again before each later pop, and `charged` bytes were
    charged since. -/
structure Serves (l : WriteBlockedList) (p : Fin 8) (a charged : ℕ) : Prop where
  data : a ≠ kCryptoStreamId
  info : ∃ i, l.scheduler.streamInfos a = some i ∧ i.priority = p
  batch : l.batchWriteStreamId p = a
  left : l.bytesLeftForBatchWrite p = 16000 - (charged : ℤ)
  turn : a ∉ l.scheduler.readyList p → l.lastPriorityPopped = p
  front : a ∈ l.scheduler.readyList p → charged < 16000 → (l.scheduler.readyList p).head? = some a
  company : ∃ k q, k ≠ a ∧ p ≤ q ∧ k ∈ l.scheduler.readyList q

variable {a n : ℕ}

theorem Serves.info_of_extends {l' : WriteBlockedList} (h : l.Serves p a n) (hext : l.Extends l') :
    ∃ i, l'.scheduler.streamInfos a = some i ∧ i.priority = p := by
  obtain ⟨i, hi, rfl⟩ := h.info
  exact hext a i hi

theorem Serves.registerStream (h : l.Serves p a n) (priority : Fin 8) :
    (l.registerStream id priority).Serves p a n := by
  have hlists : (l.registerStream id priority).scheduler.readyList = l.scheduler.readyList :=
    registerStream_readyList priority
  exact ⟨h.data, h.info_of_extends (extends_registerStream priority), h.batch, h.left,
    hlists ▸ h.turn, hlists ▸ h.front, hlists ▸ h.company⟩

theorem Serves.updateBytesForStream_of_ne (h : l.Serves p a n) (bytes : ℕ)
    (hne : ¬(l.batchWriteStreamId l.lastPriorityPopped = id ∧ l.lastPriorityPopped = p)) :
    (l.updateBytesForStream id bytes).Serves p a n := by
  unfold WriteBlockedList.updateBytesForStream
  split
  · next hb =>
    refine ⟨h.data, h.info, h.batch, ?_, h.turn, h.front, h.company⟩
    have hp : p ≠ l.lastPriorityPopped := fun hp => hne ⟨hb, hp.symm⟩
    exact (update_of_ne hp ..).trans h.left
  · exact h

theorem Serves.updateBytesForStream_self (h : l.Serves p a n) (bytes : ℕ)
    (hb : l.batchWriteStreamId l.lastPriorityPopped = id) (hp : l.lastPriorityPopped = p)
    (hrange : -2147483648 ≤ l.bytesLeftForBatchWrite l.lastPriorityPopped - bytes) :
    (l.updateBytesForStream id bytes).Serves p a (n + bytes) := by
  rw [WriteBlockedList.updateBytesForStream, if_pos hb]
  refine ⟨h.data, h.info, h.batch, ?_, h.turn, fun hm hn => h.front hm (by omega), h.company⟩
  have hleft := h.left
  rw [hp] at hrange ⊢
  refine (update_self ..).trans ?_
  rw [Int.bmod_eq_of_le (by omega) (by omega), hleft]
  omega

theorem addStream_readyList (hid : id ≠ kCryptoStreamId) :
    (l.addStream id).scheduler.readyList =
      match l.scheduler.streamInfos id with
      | some ⟨q, false⟩ => update l.scheduler.readyList q
          (if id = l.batchWriteStreamId l.lastPriorityPopped ∧
            0 < l.bytesLeftForBatchWrite l.lastPriorityPopped then
            id :: l.scheduler.readyList q else l.scheduler.readyList q ++ [id])
      | _ => l.scheduler.readyList := by
  rw [addStream_data hid]
  rw [markStreamReady]
  rcases l.scheduler.streamInfos id with _ | ⟨q, _ | _⟩
  · rfl
  · simp [setInfo_readyList, pushReady]
  · rfl

theorem addStream_readyList_of_info (hid : id ≠ kCryptoStreamId)
    (hi : l.scheduler.streamInfos id = some ⟨q, false⟩) :
    (l.addStream id).scheduler.readyList = update l.scheduler.readyList q
      (if id = l.batchWriteStreamId l.lastPriorityPopped ∧
        0 < l.bytesLeftForBatchWrite l.lastPriorityPopped then
        id :: l.scheduler.readyList q else l.scheduler.readyList q ++ [id]) := by
  rw [addStream_readyList hid, hi]

/-- Either no list changes, or a stream that is not ready is put into the list of its priority. -/
theorem addStream_cases (hid : id ≠ kCryptoStreamId) :
    (l.addStream id).scheduler.readyList = l.scheduler.readyList ∨
      ∃ q, l.scheduler.streamInfos id = some ⟨q, false⟩ := by
  rw [addStream_readyList hid]
  rcases l.scheduler.streamInfos id with _ | ⟨q, _ | _⟩
  · exact .inl rfl
  · exact .inr ⟨q, rfl⟩
  · exact .inl rfl

theorem Ordered.not_mem_of_info (h : l.Ordered) (hi : l.scheduler.streamInfos id = some ⟨q, false⟩) :
    id ∉ l.scheduler.readyList q := by
  intro hm
  exact Bool.noConfusion ((h.consistent.flag id _ hi).2 hm)

theorem Serves.addStream_other (h : l.Serves p a n) (hl : l.Ordered) (hid : id ≠ kCryptoStreamId)
    (hi : l.scheduler.streamInfos id = some ⟨p, false⟩) (hne : id ≠ a) :
    (l.addStream id).scheduler.readyList p = l.scheduler.readyList p ++ [id] := by
  rw [addStream_readyList_of_info hid hi, update_self, if_neg]
  rintro ⟨hb, -⟩
  have hp : p = l.lastPriorityPopped := hl.batch_priority hi hb.symm
  rw [← hp, h.batch] at hb
  exact hne hb

/-- The latched stream goes to the front until its bytes are used up, then to the back. -/
theorem Serves.addStream_self (h : l.Serves p a n) (hl : l.Ordered)
    (hi : l.scheduler.streamInfos a = some ⟨p, false⟩) :
    (l.addStream a).scheduler.readyList p =
      if n < 16000 then a :: l.scheduler.readyList p else l.scheduler.readyList p ++ [a] := by
  have hlast := h.turn (hl.not_mem_of_info hi)
  rw [addStream_readyList_of_info h.data hi, update_self, hlast, h.batch, h.left]
  refine if_congr ?_ rfl rfl
  constructor
  · rintro ⟨-, hpos⟩
    omega
  · exact fun hn => ⟨rfl, by omega⟩

theorem mem_addStream_readyList (id : ℕ) (hk : k ∈ l.scheduler.readyList q) :
    k ∈ (l.addStream id).scheduler.readyList q := by
  by_cases hid : id = kCryptoStreamId
  · subst hid
    exact hk
  rcases addStream_cases hid with hl | ⟨p, hi⟩
  · rwa [hl]
  rw [addStream_readyList_of_info hid hi]
  rcases eq_or_ne q p with rfl | hne
  · rw [update_self]
    split
    · exact .tail _ hk
    · exact List.mem_append_left _ hk
  · rwa [update_of_ne hne]

/-- Adding a stream to a list never takes the turn of the latched stream. -/
theorem Serves.addStream (h : l.Serves p a n) (hl : l.Ordered) : (l.addStream id).Serves p a n := by
  have hinfo := h.info_of_extends (extends_addStream l id)
  by_cases hid : id = kCryptoStreamId
  · subst hid
    exact ⟨h.data, h.info, h.batch, h.left, h.turn, h.front, h.company⟩
  have hfront : a ∈ (l.addStream id).scheduler.readyList p → n < 16000 →
      ((l.addStream id).scheduler.readyList p).head? = some a := by
    intro hm hn
    rcases addStream_cases hid with hsame | ⟨q, hi⟩
    · rw [hsame] at hm ⊢
      exact h.front hm hn
    rcases ne_or_eq q p with hq | rfl
    · rw [addStream_readyList_of_info hid hi, update_of_ne hq.symm] at hm ⊢
      exact h.front hm hn
    rcases eq_or_ne id a with rfl | hne
    · rw [h.addStream_self hl hi, if_pos hn]
      rfl
    · rw [h.addStream_other hl hid hi hne] at hm ⊢
      have hm' : a ∈ l.scheduler.readyList q := by simpa [hne.symm] using hm
      rw [List.head?_append, h.front hm' hn]
      rfl
  obtain ⟨k, q, hk, hq, hkq⟩ := h.company
  rw [addStream_data hid] at hinfo hfront ⊢
  have hmono : ∀ {k q}, k ∈ l.scheduler.readyList q → k ∈ (l.scheduler.markStreamReady id
      (decide (id = l.batchWriteStreamId l.lastPriorityPopped) &&
        decide (0 < l.bytesLeftForBatchWrite l.lastPriorityPopped))).readyList q := by
    intro k q hk
    simpa only [addStream_data hid] using mem_addStream_readyList id hk
  exact ⟨h.data, hinfo, h.batch, h.left, fun hm => h.turn fun hm' => hm (hmono hm'), hfront,
    ⟨k, q, hk, hq, hmono hkq⟩⟩

theorem Pops.one_lt (h : l.Pops id p rest) (hl : l.Ordered) (hk : k ∈ l.scheduler.readyList q)
    (hne : k ≠ id) :
    1 < l.scheduler.numReadyStreams := by
  obtain ⟨t, ht⟩ := hl.sound
  have hmem := (h.mem_iff hl).2 ⟨hne, hk⟩
  rw [h.scheduler] at hmem
  have hready := (hasReadyStreams_iff (ht.tidy.popNextReadyStream ht.consistent)).2
    ⟨q, List.ne_nil_of_mem hmem⟩
  rw [hasReadyStreams, decide_eq_true_iff, h.numReadyStreams] at hready
  omega

/-- The latched stream itself is popped, while its priority is the one popped last. -/
theorem Serves.popFront_self (h : l.Serves p a n) (hl : l.Ordered) (hp : l.Pops a p rest)
    (hlast : 1 < l.scheduler.numReadyStreams → l.lastPriorityPopped = p) : l.popFront.2.Serves p a n := by
  obtain ⟨k, q, hne, hq, hk⟩ := h.company
  have hnum := hp.one_lt hl hk hne
  have hout : a ∉ l.popFront.2.scheduler.readyList p := fun hm => ((hp.mem_iff hl).1 hm).1 rfl
  have hinfo := h.info_of_extends hp.extends
  have hmem := (hp.mem_iff hl).2 ⟨hne, hk⟩
  rw [hp.others hnum, if_pos h.batch] at *
  exact ⟨h.data, hinfo, h.batch, h.left, fun _ => hlast hnum, fun hm => absurd hm hout,
    ⟨k, q, hne, hq, hmem⟩⟩

/-- A stream of another priority is popped, and the latched stream waits in its list. -/
theorem Serves.popFront_of_ne (h : l.Serves p a n) (hl : l.Ordered) (hp : l.Pops id q rest) (hq : p ≠ q)
    (ha : a ∈ l.scheduler.readyList p) : l.popFront.2.Serves p a n := by
  have hbatch : l.popFront.2.batchWriteStreamId p = l.batchWriteStreamId p ∧
      l.popFront.2.bytesLeftForBatchWrite p = l.bytesLeftForBatchWrite p := by
    by_cases hnum : 1 < l.scheduler.numReadyStreams
    · rw [hp.others hnum]
      split
      · exact ⟨rfl, rfl⟩
      · exact ⟨update_of_ne hq .., update_of_ne hq ..⟩
    · rw [hp.alone hnum]
      exact ⟨update_of_ne hq .., rfl⟩
  have hlist : l.popFront.2.scheduler.readyList p = l.scheduler.readyList p := by
    rw [hp.popFront_readyList, update_of_ne hq]
  have hle : q ≤ p := hp.best p (List.ne_nil_of_mem ha)
  obtain ⟨k, r, hne, hr, hk⟩ := h.company
  have hkid : k ≠ id := by
    rintro rfl
    have hrq : r = q := hl.consistent.own_unique hk (by rw [hp.list]; exact .head _)
    exact hq (le_antisymm (hrq ▸ hr) hle)
  refine ⟨h.data, h.info_of_extends hp.extends, hbatch.1.trans h.batch, hbatch.2.trans h.left,
    fun hm => ?_, ?_, ⟨k, r, hne, hr, (hp.mem_iff hl).2 ⟨hkid, hk⟩⟩⟩
  · rw [hlist] at hm
    exact absurd ha hm
  · rw [hlist]
    exact h.front

theorem Pops.serves (h : l.Pops id p rest) (hl : l.Ordered) (hlatch : l.Latches id p) :
    l.popFront.2.Serves p id 0 := by
  have hcompany := h.company hl hlatch.1
  have hout : id ∉ l.popFront.2.scheduler.readyList p := fun hm => ((h.mem_iff hl).1 hm).1 rfl
  have hdata : id ≠ kCryptoStreamId := by
    rintro rfl
    exact hl.crypto p (by rw [h.list]; exact .head _)
  obtain ⟨i, hi, hp⟩ := h.extends id _ h.info
  rw [h.others hlatch.1, if_neg hlatch.2] at *
  exact ⟨hdata, ⟨i, hi, hp⟩, update_self .., update_self .., fun _ => rfl, fun hm => absurd hm hout,
    hcompany⟩

/-- The bytes of the stream that is popped are charged to the batch of its priority, unless it was
    latched and another priority was popped last. -/
theorem charged_iff (hl : l.Ordered) (hn : l.next = some (id, p))
    (hnum : 1 < l.scheduler.numReadyStreams) :
    (l.batchWriteStreamId p = id → l.lastPriorityPopped = p) ↔
      ∀ (bytes : ℕ) q, (l.popFront.2.updateBytesForStream id bytes).bytesLeftForBatchWrite q =
        if q = p then (l.popFront.2.bytesLeftForBatchWrite p - bytes).bmod 4294967296
        else l.popFront.2.bytesLeftForBatchWrite q := by
  obtain ⟨rest, hp⟩ := hl.pops hn
  constructor
  · intro hlast bytes q
    have hbatch : l.popFront.2.lastPriorityPopped = p ∧ l.popFront.2.batchWriteStreamId p = id := by
      rw [hp.others hnum]
      split
      · next hb => exact ⟨hlast hb, hb⟩
      · exact ⟨rfl, update_self ..⟩
    rw [WriteBlockedList.updateBytesForStream, hbatch.1, if_pos hbatch.2]
    show update _ _ _ q = _
    rcases eq_or_ne q p with rfl | hne
    · rw [update_self, if_pos rfl]
    · rw [update_of_ne hne, if_neg hne]
  · intro hcharge hb
    by_contra hlast
    -- the batch of the priority popped last belongs to another stream
    have hother : l.batchWriteStreamId l.lastPriorityPopped ≠ id :=
      fun he => hlast (hl.batch_priority hp.info he).symm
    have hone := hcharge 1 p
    rw [if_pos rfl, hp.others hnum, if_pos hb, WriteBlockedList.updateBytesForStream, if_neg hother]
      at hone
    dsimp only at hone
    have hmod := Int.bmod_emod (x := l.bytesLeftForBatchWrite p - (1 : ℕ)) (m := 4294967296)
    omega

end WriteBlockedList

namespace BatchWrites

open WriteBlockedList

/-- Every stream that counts as latched has its turn. -/
structure Kept (s : BatchWrites) : Prop where
  ordered : s.list.Ordered
  serves : ∀ p a, s.latched p = some a → s.list.Serves p a (s.charged p)

variable {s s' : BatchWrites} {op : BatchOp}

theorem Kept.updateBytesForStream (h : s.Kept) {id bytes : ℕ}
    (hturn : s.InTurn (.updateBytesForStream id bytes)) :
    (s.updateBytesForStream id bytes).Kept := by
  refine ⟨h.ordered.updateBytesForStream bytes, fun p a ha => ?_⟩
  have hs := h.serves p a ha
  unfold BatchWrites.updateBytesForStream
  dsimp only
  by_cases hb : s.list.batchWriteStreamId s.list.lastPriorityPopped = id
  · rw [if_pos hb]
    rcases eq_or_ne s.list.lastPriorityPopped p with hp | hp
    · rw [hp, update_self]
      exact hs.updateBytesForStream_self bytes hb hp (hturn hb)
    · rw [update_of_ne hp.symm]
      exact hs.updateBytesForStream_of_ne bytes fun hand => hp hand.2
  · rw [if_neg hb]
    exact hs.updateBytesForStream_of_ne bytes fun hand => hb hand.1

theorem Kept.popFront (h : s.Kept) (hb : s.list.hasWriteBlocked = true) (hturn : s.InTurn .popFront) :
    s.popFront.Kept := by
  unfold BatchWrites.popFront
  rcases hn : s.list.next with _ | ⟨id, p⟩
  · refine ⟨h.ordered.popFront hb, fun q a ha => ?_⟩
    have hs := h.serves q a ha
    rw [h.ordered.popFront_crypto hn hb]
    exact ⟨hs.data, hs.info, hs.batch, hs.left, hs.turn, hs.front, hs.company⟩
  obtain ⟨rest, hp⟩ := h.ordered.pops hn
  refine ⟨hp.ordered h.ordered, fun q a ha => ?_⟩
  dsimp only at ha ⊢
  -- a stream that keeps an older latch
  have hold : ∀ q a, (s.latched q).filter
      (fun a => decide (a = id ∨ a ∈ s.list.scheduler.readyList q)) = some a →
      (s.list.Latches id p → q ≠ p) → s.list.popFront.2.Serves q a (s.charged q) := by
    intro q a ha hq
    obtain ⟨hq', hor⟩ := filter_eq_some_iff.1 ha
    have hs := h.serves q a hq'
    rcases eq_or_ne a id with rfl | hne
    · obtain ⟨i, hi, rfl⟩ := hs.info
      rw [hp.info] at hi
      cases hi
      exact hs.popFront_self h.ordered hp fun hnum => hturn _ hn hs.batch hnum
    · have ha' : a ∈ s.list.scheduler.readyList q := (of_decide_eq_true hor).resolve_left hne
      have hnum := hp.one_lt h.ordered ha' hne
      refine hs.popFront_of_ne h.ordered hp ?_ ha'
      rintro rfl
      exact hq ⟨hnum, by rw [hs.batch]; exact hne⟩ rfl
  by_cases hl : s.list.Latches id p
  · rw [if_pos hl] at ha ⊢
    rcases eq_or_ne q p with rfl | hne
    · rw [update_self] at ha ⊢
      cases ha
      exact hp.serves h.ordered hl
    · rw [update_of_ne hne] at ha ⊢
      exact hold q a ha fun _ => hne
  · rw [if_neg hl] at ha ⊢
    exact hold q a ha fun hl' => absurd hl' hl

theorem Kept.step (h : s.Kept) (hstep : s.batchStep op = some s') (hturn : s.InTurn op) : s'.Kept := by
  cases op with
  | registerStream id priority =>
    cases hstep
    exact ⟨h.ordered.registerStream priority, fun p a ha => (h.serves p a ha).registerStream priority⟩
  | popFront =>
    rw [batchStep] at hstep
    split at hstep
    · next hb =>
      cases hstep
      exact h.popFront hb hturn
    · cases hstep
  | updateBytesForStream id bytes =>
    cases hstep
    exact h.updateBytesForStream hturn
  | addStream id =>
    cases hstep
    exact ⟨h.ordered.addStream, fun p a ha => (h.serves p a ha).addStream h.ordered⟩

theorem kept_run {ops : List BatchOp} (h : Machine.run batchStep initial ops = some s)
    (hturn : Machine.Along batchStep InTurn initial ops) : s.Kept :=
  Machine.run_inv_along (fun _ _ _ hs hc hstep => hs.step hstep hc)
    ⟨ordered_empty, fun _ _ ha => absurd ha (by simp [initial])⟩ hturn h

/-- **Batch writing serves each stream its quota**, in every run whose steps are in turn. -/
theorem batch_writes_keep_quota {ops : List BatchOp} (h : Machine.run batchStep initial ops = some s)
    (hturn : Machine.Along batchStep InTurn initial ops) :
    (∀ id p, s.list.next = some (id, p) →
      s.list.popFront.1 = id ∧ (∃ i, s.list.scheduler.streamInfos id = some i ∧ i.priority = p) ∧
      (¬1 < s.list.scheduler.numReadyStreams → s.list.popFront.2.batchWriteStreamId p = 0) ∧
      (1 < s.list.scheduler.numReadyStreams → (s.InTurn .popFront ↔
        ∀ (bytes : ℕ) q, (s.list.popFront.2.updateBytesForStream id bytes).bytesLeftForBatchWrite q =
          if q = p then (s.list.popFront.2.bytesLeftForBatchWrite p - bytes).bmod 4294967296
          else s.list.popFront.2.bytesLeftForBatchWrite q))) ∧
    (∀ p a, s.latched p = some a → s.charged p < 16000 → a ∈ s.list.scheduler.readyList p →
      ∀ id, s.list.next = some (id, p) → id = a) ∧
    (∀ p a, s.latched p = some a → 16000 ≤ s.charged p → a ∉ s.list.scheduler.readyList p →
      (s.list.addStream a).scheduler.readyList p = s.list.scheduler.readyList p ++ [a]) := by
  obtain ⟨hl, hs⟩ := kept_run h hturn
  refine ⟨fun id p hn => ?_, fun p a ha hlt hmem id hn => ?_, fun p a ha hle hmem => ?_⟩
  · obtain ⟨rest, hp⟩ := hl.pops hn
    refine ⟨by rw [hp.popFront], ⟨_, hp.info, rfl⟩, fun hnum => ?_, fun hnum => ?_⟩
    · rw [hp.alone hnum]
      exact update_self ..
    · rw [← charged_iff hl hn hnum]
      constructor
      · exact fun hin hb => hin _ hn hb hnum
      · intro hlast r hr hb _
        rw [hn] at hr
        cases hr
        exact hlast hb
  · have hhead := (hs p a ha).front hmem hlt
    rw [(next_eq_some hn).2.2] at hhead
    exact some.inj hhead
  · obtain ⟨⟨q, ready⟩, hi, rfl⟩ := (hs p a ha).info
    cases ready with
    | true => exact absurd ((hl.consistent.flag a _ hi).1 rfl) hmem
    | false => rw [(hs q a ha).addStream_self hl hi, if_neg (not_lt.2 hle)]

/-- Streams 3 and 5 share a priority; stream 3 is latched and writes twice before stream 5. -/
def twoStreams : List BatchOp :=
  [.registerStream 3 kDefaultPriority, .registerStream 5 kDefaultPriority, .addStream 3,
    .addStream 5, .popFront,
    .updateBytesForStream 3 10000, .addStream 3, .popFront, .updateBytesForStream 3 10000]

theorem batch_writes_keep_quota_twoStreams : ∃ s, Machine.run batchStep initial twoStreams = some s ∧
    s.latched kDefaultPriority = some 3 ∧ s.charged kDefaultPriority = 20000 ∧
    (s.list.addStream 3).scheduler.readyList kDefaultPriority =
      s.list.scheduler.readyList kDefaultPriority ++ [3] := by
  obtain ⟨s, hrun, hs⟩ := map_eq_some_iff.1 (by decide +kernel :
    (Machine.run batchStep initial twoStreams).map (fun s =>
      (s.latched kDefaultPriority, s.charged kDefaultPriority,
        s.list.scheduler.readyList kDefaultPriority)) =
      some (some 3, 20000, [5]))
  simp only [Prod.mk.injEq] at hs
  obtain ⟨hlatched, hcharged, hlist⟩ := hs
  exact ⟨s, hrun, hlatched, hcharged, (batch_writes_keep_quota hrun (by decide +kernel)).2.2 _ 3 hlatched
    (by omega) (by rw [hlist]; decide)⟩

/-- Stream 7 of a better priority is popped between two writes of stream 3. -/
def preempted : List BatchOp :=
  [.registerStream 3 kDefaultPriority, .registerStream 5 kDefaultPriority,
    .registerStream 7 kHighestPriority,
    .addStream 3, .addStream 5, .popFront, .updateBytesForStream 3 1000, .addStream 3, .addStream 7,
    .popFront, .popFront, .updateBytesForStream 3 500, .addStream 3]

/-- The second write is charged to no batch and stream 3 goes to the back: stream 5 is popped before
    it although only 1000 bytes were charged. -/
theorem batch_writes_keep_quota_preempted : ∃ s, Machine.run batchStep initial preempted = some s ∧
    s.latched kDefaultPriority = some 3 ∧ s.charged kDefaultPriority = 1000 ∧
    3 ∈ s.list.scheduler.readyList kDefaultPriority ∧
    s.list.next = some (5, kDefaultPriority) ∧ s.list.popFront.1 = 5 := by
  obtain ⟨s, hrun, hs⟩ := map_eq_some_iff.1 (by decide +kernel :
    (Machine.run batchStep initial preempted).map
      (fun s => (s.latched kDefaultPriority, s.charged kDefaultPriority,
      s.list.scheduler.readyList kDefaultPriority, s.list.next)) =
      some (some 3, 1000, [5, 3], some (5, kDefaultPriority)))
  simp only [Prod.mk.injEq] at hs
  obtain ⟨hlatched, hcharged, hlist, hnext⟩ := hs
  have hpop : (Machine.run batchStep initial preempted).map (·.list.popFront.1) =
      some 5 := by decide +kernel
  rw [hrun] at hpop
  exact ⟨s, hrun, hlatched, hcharged, by rw [hlist]; decide, hnext, some.inj hpop⟩

end BatchWrites

end Puic
