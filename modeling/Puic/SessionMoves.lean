/-
  What an event of a session is made of.

  However the calls of an event are nested, what they do to the streams is a
  sequence of few kinds of moves (`Move`): a stream in a map is replaced by one
  that is still the same stream, a stream leaves the open ones, an id is offered to
  the peer, a stream is created, the delegate is called.  `Quiet` is what is left:
  moves that change no stream.  A property of the streams is then an invariant if
  every move keeps it (`Moves.keeps`).
-/
import Mathlib.Logic.Relation
import Puic.Session

namespace Puic

namespace SendStream

/-- Nothing is left to send, and nothing to be acknowledged. -/
structure Idle (st : SendStream) : Prop where
  unsent : st.hasUnsent = false
  bytesOutstanding : st.bytesOutstanding = 0
  finOutstanding : st.finOutstanding = false

theorem idle_new (window : ℕ) (levels : List (List (ℕ × ℕ))) (contributes : Bool) :
    (SendStream.new window levels contributes).Idle := ⟨rfl, rfl, rfl⟩

theorem Idle.keeps {st st' : SendStream} (h : st.Idle) (hk : Keeps st st') : st'.Idle where
  unsent := hk.hasUnsent.trans h.unsent
  bytesOutstanding := Nat.le_zero.1 (h.bytesOutstanding ▸ hk.bytesOutstanding)
  finOutstanding := Bool.eq_false_iff.2 fun hf => by
    cases h.finOutstanding.symm.trans (hk.finOutstanding hf)

theorem Idle.onCanWrite {st : SendStream} (h : st.Idle) (e : WriteEnv) :
    (st.onCanWrite e).stream.Idle := by
  rcases st.onCanWrite_cases e with ⟨-, st', rs, hk, heq⟩ | ⟨-, heq, -⟩ | ⟨-, -, hu, -⟩
  · rw [heq]; exact h.keeps hk
  · rw [heq]; exact h
  · rw [h.unsent] at hu; cases hu

end SendStream

namespace Stream

/-- `st'` is `st`, later. -/
structure Later (st st' : Stream) : Prop where
  obj : st'.obj = st.obj
  closed : st'.closed = st.closed
  writeSideClosed : st.send.writeSideClosed = true → st'.send.writeSideClosed = true

theorem Later.refl (st : Stream) : st.Later st := ⟨rfl, rfl, id⟩

theorem Later.closeWrite (st : Stream) : st.Later st.closeWrite := ⟨rfl, rfl, fun _ => rfl⟩

/-- The stream as it leaves the map of the open ones. -/
def leaving (st : Stream) (locallyReset : Bool) : Stream :=
  { st with rstSent := st.rstSent || locallyReset }

/-- Both sides are closed: the stream is about to leave the open ones. -/
def Done (st : Stream) : Prop := st.readSideClosed = true ∧ st.send.writeSideClosed = true

end Stream

/-- A stream leaves the open ones: the parts of `CloseStreamInner` that count. -/
def StreamCounts.close (c : StreamCounts) (id : ℕ) (incoming final : Bool) : StreamCounts where
  drainingStreams := c.drainingStreams.erase id
  locallyClosed := if final then c.locallyClosed else insert id c.locallyClosed
  numDynamicIncoming := if incoming then sizeSub c.numDynamicIncoming 1 else c.numDynamicIncoming
  numDrainingIncoming := if id ∈ c.drainingStreams ∧ incoming then sizeSub c.numDrainingIncoming 1
    else c.numDrainingIncoming
  numLocallyClosedIncoming := if final then c.numLocallyClosedIncoming
    else c.numLocallyClosedIncoming + if incoming then 1 else 0

/-- `IsClosedStream` of an id that is not open. -/
def StreamIds.isRetired (ids : StreamIds) (id : ℕ) : Bool :=
  if id % 2 = ids.nextOutgoingStreamId % 2 then decide (id < ids.nextOutgoingStreamId)
  else decide (id ≤ ids.largestPeerCreatedStreamId) && decide (id ∉ ids.availableStreams)

theorem StreamIds.isRetired_iff {ids : StreamIds} {id : ℕ} : ids.isRetired id = true ↔
    (id % 2 = ids.nextOutgoingStreamId % 2 ∧ id < ids.nextOutgoingStreamId) ∨
    (id % 2 ≠ ids.nextOutgoingStreamId % 2 ∧ id ≤ ids.largestPeerCreatedStreamId ∧
      id ∉ ids.availableStreams) := by
  unfold isRetired
  split
  · next h => simp [h]
  · next h => simp [h]

namespace Session

variable {s t u : Session} {id k : ℕ} {st st' : Stream}

/-! ## Ids -/

theorem isClosedStream_iff : s.isClosedStream id = true ↔
    s.isOpenStream id = false ∧ s.isRetired id = true := by
  unfold isClosedStream StreamIds.isRetired isIncomingStream
  split
  · next h => simp [h]
  · next h => simp only [Bool.not_eq_true] at h; simp [h]

theorem isOpenStream_eq (hid : id ≠ kCryptoStreamId) : s.isOpenStream id = s.isDynamic id := by
  simp [isOpenStream, hid]

theorem isDynamic_iff : s.isDynamic id = true ↔ ∃ st, s.dynamicStreams.lookup id = some st :=
  Option.isSome_iff_exists

theorem isDynamic_eq_false : s.isDynamic id = false ↔ s.dynamicStreams.lookup id = none := by
  simp [isDynamic]

/-- The peer may begin to use the id. -/
structure Offerable (s : Session) (id : ℕ) : Prop where
  ne_zero : id ≠ 0
  ne_crypto : id ≠ kCryptoStreamId
  lt : id < 2 ^ 32
  notDynamic : s.isDynamic id = false
  notRetired : s.isRetired id = false
  incoming : s.isIncomingStream id = true

/-- The id has been used, and those before it are available. -/
def offered (s : Session) (id : ℕ) : Session :=
  { s with
    availableStreams :=
      if id ≤ s.largestPeerCreatedStreamId then s.availableStreams.erase id
      else s.availableStreams.erase id ∪ s.newlyAvailable id
    largestPeerCreatedStreamId := max s.largestPeerCreatedStreamId id }

/-- A new stream in the map. -/
def opened (s : Session) (id : ℕ) (priority : Fin 8) : Session :=
  { s with writeBlocked := s.writeBlocked.registerStream id priority }.activateStream id

theorem createDataStream_eq (hid : s.isOpenStream id = false) (priority : Fin 8) :
    s.createDataStream id priority = s.opened id priority := by
  have h : ({ s with writeBlocked := s.writeBlocked.registerStream id priority } :
      Session).isOpenStream id = false := hid
  unfold createDataStream opened
  dsimp only
  split
  · unfold cancelStream
    rw [if_neg (by rw [h]; exact Bool.false_ne_true)]
  · rfl

theorem maybeIncreaseLargestPeerStreamId_erase
    (h : { s with availableStreams := s.availableStreams.erase id }.maybeIncreaseLargestPeerStreamId
      id = some t) : t = s.offered id := by
  unfold maybeIncreaseLargestPeerStreamId at h
  unfold offered
  split at h
  · next hle =>
    cases h
    rw [if_pos hle, Nat.max_eq_left hle]
  · next hle =>
    replace hle : ¬id ≤ s.largestPeerCreatedStreamId := hle
    split at h
    · cases h
    · cases h
      rw [if_neg hle, Nat.max_eq_right (by omega)]
      rfl

/-! ## Closing -/

/-- The stream under `id`, by now `st`, is no longer open. -/
structure Closes (s : Session) (id : ℕ) (st : Stream) (t : Session) : Prop where
  ids : t.toStreamIds = s.toStreamIds
  dynamic : t.dynamicStreams = s.dynamicStreams.erase id
  zombie : t.zombieStreams =
    if st.isWaitingForAcks then s.zombieStreams.insert id st.onClose else s.zombieStreams
  closed : t.closedStreams =
    if st.isWaitingForAcks then s.closedStreams else s.closedStreams ++ [(id, st.onClose)]
  calls : t.calls = ⟨id, .closed, st.delegate⟩ :: s.calls
  counts : t.toStreamCounts = s.toStreamCounts.close id (s.isIncomingStream id)
    st.hasFinalReceivedByteOffset
  crypto : t.crypto = s.crypto
  pending : t.pendingRetransmission =
    if st.isWaitingForAcks then s.pendingRetransmission else s.pendingRetransmission.erase id

theorem closeAgain_of_erased (hid : id ≠ kCryptoStreamId) (hd : s.isDynamic id = false) :
    s.closeAgain id =
      if s.isRetired id then s
      else { s with writeBlocked := s.writeBlocked.unregisterStream id } := by
  have ho : s.isOpenStream id = false := (isOpenStream_eq hid).trans hd
  unfold closeAgain
  split
  · next h => rw [if_pos (isClosedStream_iff.1 h).2]
  · next h => rw [if_neg fun hr => h (isClosedStream_iff.2 ⟨ho, hr⟩)]

theorem closeStreamInner_none (h : s.dynamicStreams.lookup id = none) (locallyReset : Bool) :
    s.closeStreamInner id locallyReset = s := by
  rw [closeStreamInner, h]

/-- `CloseStreamInner` up to the nested call of `CloseStream`. -/
def left (s : Session) (id : ℕ) (st : Stream) (locallyReset : Bool) : Session :=
  ((if st.hasFinalReceivedByteOffset then s else s.insertLocallyClosed id).moveStream
    id (st.leaving locallyReset)).forgetStream id

theorem left_closes (s : Session) (id : ℕ) (st : Stream) (b : Bool) :
    (s.left id st b).writeBlocked = s.writeBlocked ∧
    s.Closes id (st.leaving b)
      { s.left id st b with calls := ⟨id, .closed, st.delegate⟩ :: (s.left id st b).calls } := by
  unfold left
  generalize hr : (if st.hasFinalReceivedByteOffset = true then s else s.insertLocallyClosed id) = r
  have hs : r.toStreamIds = s.toStreamIds ∧ r.dynamicStreams = s.dynamicStreams ∧
      r.zombieStreams = s.zombieStreams ∧ r.closedStreams = s.closedStreams ∧
      r.calls = s.calls ∧ r.writeBlocked = s.writeBlocked ∧ r.crypto = s.crypto ∧
      r.pendingRetransmission = s.pendingRetransmission := by
    rw [← hr]
    split <;> exact ⟨rfl, rfl, rfl, rfl, rfl, rfl, rfl, rfl⟩
  obtain ⟨h₁, h₂, h₃, h₄, h₅, h₆, h₇, h₈⟩ := hs
  have hcounts : (r.forgetStream id).toStreamCounts =
      s.toStreamCounts.close id (s.isIncomingStream id) st.hasFinalReceivedByteOffset := by
    rw [← hr]
    cases hf : st.hasFinalReceivedByteOffset
    · rfl
    · rfl
  rw [← h₆]
  unfold moveStream
  split
  · next hw =>
    refine ⟨rfl, h₁, congrArg (AList.erase id) h₂, ?_, ?_, congrArg (List.cons _) h₅, hcounts, h₇, ?_⟩
    · rw [if_pos hw]; exact congrArg (AList.insert id _) h₃
    · rw [if_pos hw]; exact h₄
    · rw [if_pos hw]; exact h₈
  · next hw =>
    refine ⟨rfl, h₁, congrArg (AList.erase id) h₂, ?_, ?_, congrArg (List.cons _) h₅, hcounts, h₇, ?_⟩
    · rw [if_neg hw]; exact h₃
    · rw [if_neg hw, ← h₄]; rfl
    · rw [if_neg hw, ← h₈]; rfl

/-- `CloseStreamInner` of an open stream, whatever is left of its registration. -/
theorem closeStreamInner_closes (hid : id ≠ kCryptoStreamId)
    (h : s.dynamicStreams.lookup id = some st) (b : Bool) :
    s.Closes id (st.leaving b) (s.closeStreamInner id b) ∧
    (¬st.Done → s.isRetired id = false →
      (s.closeStreamInner id b).writeBlocked = s.writeBlocked.unregisterStream id) ∧
    (s.isRetired id = true → (s.closeStreamInner id b).writeBlocked = s.writeBlocked) ∧
    ((s.closeStreamInner id b).writeBlocked = s.writeBlocked ∨
      (s.closeStreamInner id b).writeBlocked = s.writeBlocked.unregisterStream id) := by
  obtain ⟨hwb, hcl⟩ := s.left_closes id st b
  have hids : (s.left id st b).toStreamIds = s.toStreamIds := hcl.ids
  have hd : (s.left id st b).isDynamic id = false := by
    rw [isDynamic_eq_false]
    exact (congrArg (AList.lookup id) hcl.dynamic).trans (AList.lookup_erase id _)
  have heq : s.closeStreamInner id b =
      let r := if st.readSideClosed && st.send.writeSideClosed then s.left id st b
        else (s.left id st b).closeAgain id
      { r with calls := ⟨id, .closed, st.delegate⟩ :: r.calls } := by
    rw [closeStreamInner, h]; rfl
  rw [closeAgain_of_erased hid hd] at heq
  rw [heq, ← hwb]
  split
  · next hdone =>
    exact ⟨hcl, fun hn _ => absurd (by simpa [Stream.Done] using hdone) hn, fun _ => rfl, .inl rfl⟩
  · split
    · next hr =>
      rw [hids] at hr
      exact ⟨hcl, fun _ hn => absurd hr (by simp [hn]), fun _ => rfl, .inl rfl⟩
    · next hr =>
      rw [hids] at hr
      exact ⟨⟨hcl.ids, hcl.dynamic, hcl.zombie, hcl.closed, hcl.calls, hcl.counts, hcl.crypto,
        hcl.pending⟩,
        fun _ _ => rfl, fun h => absurd h hr, .inr rfl⟩

theorem closeStream_closes (hid : id ≠ kCryptoStreamId)
    (h : s.dynamicStreams.lookup id = some st) :
    s.Closes id (st.leaving false) (s.closeStream id) ∧
    (s.closeStream id).writeBlocked = s.writeBlocked.unregisterStream id := by
  have ho : s.isOpenStream id = true := (isOpenStream_eq hid).trans (isDynamic_iff.2 ⟨st, h⟩)
  have hc : ¬s.isClosedStream id = true := fun hc => by
    rw [(isClosedStream_iff.1 hc).1] at ho; cases ho
  rw [closeStream, if_neg hc]
  generalize hr : ({ s with writeBlocked := s.writeBlocked.unregisterStream id } : Session) = r
  have hrs : r.dynamicStreams.lookup id = some st := by rw [← hr]; exact h
  obtain ⟨hcl, -, -, hwb⟩ := closeStreamInner_closes hid hrs false
  have hrw : r.writeBlocked = s.writeBlocked.unregisterStream id := by rw [← hr]
  refine ⟨?_, ?_⟩
  · subst hr
    exact ⟨hcl.ids, hcl.dynamic, hcl.zombie, hcl.closed, hcl.calls, hcl.counts, hcl.crypto, hcl.pending⟩
  · rw [hrw] at hwb
    refine hwb.elim (fun hwb => hwb) fun hwb => hwb.trans ?_
    rw [WriteBlockedList.unregisterStream, WriteBlockedList.unregisterStream,
      PriorityWriteScheduler.unregisterStream_unregisterStream]

/-! ## Moves -/

/-- A move that changes no stream but the crypto stream.  A stream that is put on the list of blocked
    streams is open, and no open stream is unregistered. -/
structure Quiet (s t : Session) : Prop where
  table : t.toStreamTable = s.toStreamTable
  crypto : t.crypto.finReceived = s.crypto.finReceived
  consistent : s.writeBlocked.scheduler.Consistent → t.writeBlocked.scheduler.Consistent
  registered : ∀ k, t.writeBlocked.scheduler.Registered k → s.writeBlocked.scheduler.Registered k
  kept : ∀ k, s.isDynamic k = true → s.writeBlocked.scheduler.Registered k →
    t.writeBlocked.scheduler.Registered k
  listed : s.writeBlocked.scheduler.Consistent → ∀ k ∈ t.writeBlocked.streams,
    k ∈ s.writeBlocked.streams ∨ s.isOpenStream k = true

/-- A stream writes only if the application can reach it. -/
def StaysIdle (s : Session) (id : ℕ) (st st' : Stream) : Prop :=
  st.send.Idle → st'.send.Idle ∨ (s.resolve ⟨id, st.obj⟩).isSome = true

/-- What is done to an open stream. -/
structure Updates (s : Session) (id : ℕ) (st st' : Stream) : Prop where
  later : st.Later st'
  delegate : st'.delegate = st.delegate
  idle : s.StaysIdle id st st'

/-- What is told apart among the moves; of a reset, whether the id counts as closed afterwards. -/
inductive Label where
  | inner
  | reset (id : ℕ) (retired : Bool)
  | create (id : ℕ)
  | draw
  | encryption
  | handshake
  | postProcess

inductive Move : Session → Label → Session → Prop
  | quiet {s t : Session} (h : s.Quiet t) : Move s .inner t
  | update {s : Session} {id : ℕ} {st st' : Stream} (h : s.dynamicStreams.lookup id = some st)
      (hu : s.Updates id st st') (hd : ¬st'.Done) :
      Move s .inner (s.setOpen id st')
  | zombie {s : Session} {id : ℕ} {st st' : Stream} (hn : s.isDynamic id = false)
      (h : s.zombieStreams.lookup id = some st) (hl : st.Later st') :
      Move s .inner { s with zombieStreams := s.zombieStreams.insert id st' }
  | close {s : Session} {id : ℕ} {st st' : Stream} (h : s.dynamicStreams.lookup id = some st)
      (hu : s.Updates id st st') :
      Move s .inner ((s.setOpen id st').closeStream id)
  | reset {s : Session} {id : ℕ} {st : Stream} (h : s.dynamicStreams.lookup id = some st) :
      Move s (.reset id (s.isRetired id)) (s.resetOpen id)
  | call {s : Session} {id : ℕ} {st : Stream} (h : s.dynamicStreams.lookup id = some st)
      (e : StreamEvent) : Move s .inner { s with calls := ⟨id, e, st.delegate⟩ :: s.calls }
  | drain {s : Session} {id : ℕ} {st : Stream} (h : s.dynamicStreams.lookup id = some st) :
      Move s .inner (s.streamDraining id)
  | done {s : Session} (id : ℕ) : Move s .inner (s.onStreamDoneWaitingForAcks id)
  | final {s : Session} (id : ℕ) : Move s .inner (s.onFinalByteOffsetReceived id)
  | offer {s : Session} {id : ℕ} (h : s.Offerable id) : Move s .inner (s.offered id)
  | create {s : Session} {id : ℕ} (h : s.Offerable id) (he : s.established = true) :
      Move s (.create id) ((s.offered id).createIncomingDynamicStream id)
  | draw {s : Session} (priority : Fin 8) : Move s .draw (s.createOutgoingDynamicStream priority).1
  | encryption {s : Session} (b : Bool) (hs : s.server = false) (hc : s.confirmed = false) :
      Move s .encryption { s with established := b }
  | handshake {s : Session} (hc : s.confirmed = false)
      (he : s.server = false → s.established = true) : Move s .handshake s.handshakeConfirmed
  | postProcess {s : Session} : Move s .postProcess { s with closedStreams := [] }
  | flush {s : Session} : Move s .inner { s with
      closedStreams := s.closedStreams ++ s.zombieStreams.entries.map fun e => (e.1, e.2)
      zombieStreams := ∅ }

/-- Moves with labels in `A`, and inner ones. -/
def Moves (A : Set Label) : Session → Session → Prop :=
  Relation.ReflTransGen fun s t => ∃ l, (l = .inner ∨ l ∈ A) ∧ Move s l t

variable {A B : Set Label} {l : Label}

theorem Move.moves (h : Move s .inner t) : Moves A s t := .single ⟨_, .inl rfl, h⟩

theorem Move.movesOf (h : Move s l t) (hl : l ∈ A) : Moves A s t := .single ⟨_, .inr hl, h⟩

theorem Moves.refl : Moves A s s := Relation.ReflTransGen.refl

theorem Moves.trans (h : Moves A s t) (h' : Moves A t u) : Moves A s u := Relation.ReflTransGen.trans h h'

/-- **The invariant rule** for moves. -/
theorem Moves.keeps {I : Session → Prop}
    (hI : ∀ s l t, (l = .inner ∨ l ∈ A) → Move s l t → I s → I t) (h : Moves A s t) (hs : I s) :
    I t := by
  induction h with
  | refl => exact hs
  | tail _ h ih =>
    obtain ⟨l, hl, hm⟩ := h
    exact hI _ l _ hl hm ih

end Session
end Puic
