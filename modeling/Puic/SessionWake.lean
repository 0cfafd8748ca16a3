/-
  No stream is left with something to send and no one to wake it.

  A stream with unsent data is on the session's list of blocked streams, or its own
  window is used up and a WINDOW_UPDATE for it will bring it back (`Awake`).  The
  list is emptied by `OnCanWrite` of the session, and what a stream does then is
  `QuicStream::OnCanWrite`: it sends lost data again and returns, or it writes and
  puts itself back.  The first case is harmless inside `OnCanWrite` of the session,
  which looks after lost data first.  It is not when a WINDOW_UPDATE unblocks the
  stream: what was not sent before stays where it is (`wakeup_lost`).
-/
import Puic.SessionSteps

namespace Puic

open WriteBlockedList SendStream Set

namespace SendStream

variable {st : SendStream} {e : WriteEnv}

/-- What a call of the sending code does for the unsent data: the stream is settled, or on the list,
    or nothing is newly unsent and its window is what it was (`stay`).  Nothing more is lost. -/
structure Serves (st : SendStream) (stay : Prop) (w : Written) : Prop where
  pending : w.stream.hasPendingRetransmission = true → st.hasPendingRetransmission = true
  served : w.marked = true ∨ w.stream.Settled ∨
    (stay ∧ (w.stream.hasUnsent = true → st.hasUnsent = true) ∧ w.stream.flow = st.flow)
  shut : w.stream.writeSideClosed = true → st.hasUnsent = false → w.stream.hasUnsent = false
  finished : w.finished = true → w.stream.hasUnsent = false

theorem serves_writeBufferedData {st₀ : SendStream} (hw : st.writeSideClosed = false)
    (hp : st.hasPendingRetransmission = st₀.hasPendingRetransmission) :
    st₀.Serves False (st.writeBufferedData e) := by
  have hc : (st.writeBufferedData e).stream.writeSideClosed = false :=
    writeBufferedData_writeSideClosed.trans hw
  have hshut : (st.writeBufferedData e).stream.writeSideClosed = true → st₀.hasUnsent = false →
      (st.writeBufferedData e).stream.hasUnsent = false := fun h => by rw [hc] at h; cases h
  rcases st.writeBufferedData_cases e with ⟨m, h, hm⟩ | ⟨k, m, -, h, hm⟩ | ⟨m, hf, h⟩
  · rw [h] at hshut ⊢
    exact ⟨fun h => hp ▸ h, hm.imp_right .inl, hshut, nofun⟩
  · rw [h] at hshut ⊢
    exact ⟨fun h => hp ▸ h, hm.imp_right .inl, hshut, nofun⟩
  · rw [h] at hshut ⊢
    have hu : ({ st.consume e.level st.bufferedDataBytes with
        finSent := true, finOutstanding := true } : SendStream).hasUnsent = false := by
      have hb : (st.consume e.level st.bufferedDataBytes).hasBufferedData = false := by
        rw [Bool.eq_false_iff, Ne, hasBufferedData_iff, bufferedDataBytes_consume]; omega
      rw [hasUnsent, Bool.or_eq_false_iff]
      exact ⟨hb, Bool.and_false _⟩
    exact ⟨fun h => hp ▸ h, .inr (.inl (.inl hu)), hshut, fun _ => hu⟩

theorem pending_of_retransmitted {offset length : ℕ} {fin : Bool}
    (h : (st.onStreamFrameRetransmitted offset length fin).hasPendingRetransmission = true) :
    st.hasPendingRetransmission = true := by
  rw [hasPendingRetransmission, Bool.or_eq_true] at h ⊢
  refine h.imp (fun h => ?_) fun h => (Bool.and_eq_true _ _ ▸ h).1
  cases hp : st.pending with
  | nil =>
    rw [onStreamFrameRetransmitted, hp] at h
    split at h <;> exact h
  | cons i l => rfl

theorem pending_of_acked {st' : SendStream} {length : ℕ} {fin : Bool}
    (hk : st.onStreamFrameAcked length fin = some st') (h : st'.hasPendingRetransmission = true) :
    st.hasPendingRetransmission = true := by
  rw [onStreamFrameAcked] at hk
  split at hk
  · cases hk
  · cases hk
    rw [hasPendingRetransmission, Bool.or_eq_true] at h ⊢
    exact h.imp_right fun h => (Bool.and_eq_true _ _ ▸ h).1

theorem serves_keeps {st' : SendStream} {rs : List Consumed} (hk : Keeps st st')
    (hp : st'.hasPendingRetransmission = true → st.hasPendingRetransmission = true) :
    st.Serves True ⟨st', rs, 0, false, false⟩ :=
  ⟨hp, .inr (.inr ⟨trivial, fun h => hk.hasUnsent ▸ h, hk.flow⟩), fun _ h => hk.hasUnsent.trans h, nofun⟩

theorem Serves.stay {w : Written} (h : st.Serves False w) (stay : Prop) : st.Serves stay w :=
  ⟨h.pending, h.served.imp_right fun h => h.imp_right fun h => h.1.elim, h.shut, h.finished⟩

theorem serves_writeOrBufferData (st : SendStream) (n : ℕ) (fin : Bool) (e : WriteEnv) :
    st.Serves True (st.writeOrBufferData n fin e) := by
  rcases st.writeOrBufferData_cases n fin e with h | ⟨hf, hw, ⟨hb, h⟩ | h⟩
  · rw [h]; exact serves_keeps (.refl st) fun h => h
  · rw [h]
    have hshut : (st.save n fin).writeSideClosed = true → st.hasUnsent = false →
        (st.save n fin).hasUnsent = false := fun h => by
      rw [show (st.save n fin).writeSideClosed = _ from hw] at h; cases h
    refine ⟨fun h => h, ?_, hshut, nofun⟩
    rcases hb with hb | hb
    · exact .inr (.inr ⟨trivial, fun _ => by rw [hasUnsent, hb]; rfl, rfl⟩)
    · exact .inr (.inl (.inl hb))
  · have hs : st.Serves False ((st.save n fin).writeBufferedData e) :=
      serves_writeBufferedData hw rfl
    rw [h]; exact hs.stay True

/-- Without lost data, `OnCanWrite` settles the stream or puts it back on the list. -/
theorem serves_onCanWrite (hp : st.hasPendingRetransmission = false)
    (hs : st.writeSideClosed = true → st.hasUnsent = false) (e : WriteEnv) :
    st.Serves False (st.onCanWrite e) := by
  rcases st.onCanWrite_cases e with ⟨h, -⟩ | ⟨-, h, hu⟩ | ⟨-, hw, -, h⟩
  · rw [hp] at h; cases h
  · rw [h]
    exact ⟨fun h => h, .inr (.inl (.inl (hu.elim hs fun h => h))), fun _ h => h, nofun⟩
  · rw [h]; exact serves_writeBufferedData hw rfl

theorem serves_onCanWrite_stay (st : SendStream) (e : WriteEnv) : st.Serves True (st.onCanWrite e) := by
  rcases st.onCanWrite_cases e with ⟨hp, st', rs, hk, h⟩ | ⟨-, h, -⟩ | ⟨-, hw, -, h⟩
  · rw [h]; exact serves_keeps hk fun _ => hp
  · rw [h]; exact serves_keeps (.refl st) fun h => h
  · rw [h]; exact (serves_writeBufferedData hw rfl).stay True

end SendStream

namespace Session

variable {s t : Session} {id k : ℕ} {st st' : Stream} {w : Written} {P Q : Set ℕ}

/-- The open stream under `id`, static ones included. -/
def openStream (s : Session) (id : ℕ) : Option Stream :=
  if id = kCryptoStreamId then some s.crypto else s.dynamicStreams.lookup id

/-- Every open stream in `P` with something unsent will be woken; lost data is on the session's list;
    the streams in `Q` whose write side is closed have nothing to send. -/
structure Awake (s : Session) (P Q : Set ℕ) : Prop where
  unsent : ∀ id st, s.openStream id = some st → id ∈ P → st.send.hasUnsent = true →
    id ∈ s.writeBlocked.streams ∨ st.send.flow.isBlocked = true
  pending : ∀ id st, s.openStream id = some st → ¬s.Twin id st.obj →
    st.send.hasPendingRetransmission = true → id ∈ s.pendingRetransmission
  shut : ∀ id st, s.openStream id = some st → id ∈ Q → st.send.writeSideClosed = true →
    st.send.hasUnsent = false

theorem openStream_of_ne (hid : id ≠ kCryptoStreamId) :
    s.openStream id = s.dynamicStreams.lookup id := if_neg hid

theorem openStream_crypto : s.openStream kCryptoStreamId = some s.crypto := rfl

theorem openStream_congr (hd : t.dynamicStreams = s.dynamicStreams) (hc : t.crypto = s.crypto) :
    t.openStream id = s.openStream id := by
  rw [openStream, openStream, hd, hc]

/-- The streams that are open were open before and have sent nothing since, or they are new. -/
theorem Awake.of_streams (h : s.Awake P Q)
    (hst : ∀ id st', t.openStream id = some st' →
      (st'.send.hasUnsent = false ∧ st'.send.hasPendingRetransmission = false) ∨
      ∃ st, s.openStream id = some st ∧ st'.send = st.send ∧
        (s.Twin id st.obj → t.Twin id st'.obj) ∧
        (id ∈ s.writeBlocked.streams → id ∈ t.writeBlocked.streams) ∧
        (¬s.Twin id st.obj → id ∈ s.pendingRetransmission → id ∈ t.pendingRetransmission)) :
    t.Awake P Q := by
  refine ⟨fun id st' h' hP hu => ?_, fun id st' h' ht hp => ?_, fun id st' h' hQ hw => ?_⟩
  · rcases hst id st' h' with ⟨hn, -⟩ | ⟨st, hs, he, -, hl, -⟩
    · rw [hn] at hu; cases hu
    · rw [he] at hu ⊢
      exact (h.unsent id st hs hP hu).imp_left hl
  · rcases hst id st' h' with ⟨-, hn⟩ | ⟨st, hs, he, hT, -, hpd⟩
    · rw [hn] at hp; cases hp
    · rw [he] at hp
      have hns : ¬s.Twin id st.obj := fun h => ht (hT h)
      exact hpd hns (h.pending id st hs hns hp)
  · rcases hst id st' h' with ⟨hn, -⟩ | ⟨st, hs, he, -⟩
    · exact hn
    · rw [he] at hw ⊢
      exact h.shut id st hs hQ hw

theorem Awake.of_same (h : s.Awake P Q) (hids : t.toStreamIds = s.toStreamIds)
    (hd : t.dynamicStreams = s.dynamicStreams) (hc : t.crypto = s.crypto)
    (hw : t.writeBlocked = s.writeBlocked) (hp : t.pendingRetransmission = s.pendingRetransmission) :
    t.Awake P Q := by
  refine h.of_streams fun id st' hst' => .inr ⟨st', ?_, rfl, ?_, ?_, ?_⟩
  · rw [← openStream_congr hd hc]; exact hst'
  · rw [hids]; exact fun h => h
  · rw [hw]; exact fun h => h
  · rw [hp]; exact fun _ h => h

/-- The state of an open stream changes, but not what it has sent. -/
theorem Awake.setOpen (h : s.Awake P Q) (hs : s.Sound) (hst : s.dynamicStreams.lookup id = some st)
    (ho : st'.obj = st.obj) (hsend : st'.send = st.send) : (s.setOpen id st').Awake P Q := by
  have hid := hs.ne_crypto hst
  refine h.of_streams fun k st₁ hst₁ => .inr ?_
  rcases eq_or_ne k id with rfl | hne
  · rw [openStream_of_ne hid, lookup_setOpen] at hst₁
    cases hst₁
    exact ⟨st, (openStream_of_ne hid).trans hst, hsend, fun h => ho ▸ h, fun h => h, fun _ h => h⟩
  · refine ⟨st₁, ?_, rfl, fun h => h, fun h => h, fun _ h => h⟩
    rw [← hst₁, openStream, openStream, lookup_setOpen_ne hne]
    rfl

/-! ## Closing -/

theorem Awake.closes {st'' : Stream} (h : s.Awake P Q) (hst : s.dynamicStreams.lookup id = some st)
    (hs : s.Sound) (hc : (s.setOpen id st').Closes id st'' t)
    (hwb : t.writeBlocked = s.writeBlocked ∨ t.writeBlocked = s.writeBlocked.unregisterStream id) :
    t.Awake P Q := by
  have hid := hs.ne_crypto hst
  have hids : t.toStreamIds = s.toStreamIds := hc.ids
  refine h.of_streams fun k st₁ hst₁ => .inr ?_
  have hne : k ≠ id := by
    rintro rfl
    rw [openStream_of_ne hid, hc.dynamic, AList.lookup_erase] at hst₁; cases hst₁
  refine ⟨st₁, ?_, rfl, by rw [hids]; exact fun h => h, fun hk => ?_, fun _ hk => ?_⟩
  · rw [← hst₁, openStream, openStream, hc.dynamic, AList.lookup_erase_ne hne,
      lookup_setOpen_ne hne, hc.crypto]
    rfl
  · rcases hwb with hwb | hwb
    · rw [hwb]; exact hk
    · rw [hwb]; exact mem_unregisterStream hk hne
  · rw [hc.pending]
    split
    · exact hk
    · exact (List.mem_erase_of_ne hne).2 hk

theorem Awake.closeStream (h : s.Awake P Q) (hs : s.Sound)
    (hst : s.dynamicStreams.lookup id = some st) (st' : Stream) :
    ((s.setOpen id st').closeStream id).Awake P Q := by
  obtain ⟨hc, hwb⟩ := closeStream_closes (hs.ne_crypto hst) lookup_setOpen
  exact h.closes hst hs hc (.inr hwb)

theorem Awake.resetOpen (h : s.Awake P Q) (hs : s.Sound) (id : ℕ) : (s.resetOpen id).Awake P Q := by
  cases hst : s.dynamicStreams.lookup id with
  | none => rw [Session.resetOpen, hst]; exact h
  | some st =>
    obtain ⟨st', -, hc, hwb⟩ := resetOpen_closes hs hst
    refine h.closes hst hs hc ?_
    split at hwb
    · exact .inl hwb
    · exact .inr hwb

theorem Awake.cancelStream (h : s.Awake P Q) (hs : s.Sound) (id : ℕ) : (s.cancelStream id).Awake P Q := by
  unfold Session.cancelStream
  split
  · split
    · refine h.of_streams fun k st₁ hst₁ => .inr ?_
      by_cases hk : k = kCryptoStreamId
      · subst hk
        cases hst₁
        exact ⟨s.crypto, rfl, rfl, fun h => h, fun h => h, fun _ h => h⟩
      · rw [openStream_of_ne hk] at hst₁
        exact ⟨st₁, (openStream_of_ne hk).trans hst₁, rfl, fun h => h, fun h => h, fun _ h => h⟩
    · exact h.resetOpen hs id
  · exact h

theorem Awake.closeReadSide (h : s.Awake P Q) (hs : s.Sound) (id : ℕ) :
    (s.closeReadSide id).Awake P Q := by
  unfold Session.closeReadSide
  split
  · exact h
  next st hst =>
  split
  · exact h
  split
  · exact h.closeStream hs hst _
  · exact h.setOpen hs hst rfl rfl

theorem Awake.closeWriteSide (h : s.Awake P Q) (hs : s.Sound)
    (hu : ∀ st, s.openStream id = some st → id ∈ Q → st.send.hasUnsent = false) :
    (s.closeWriteSide id).Awake P Q := by
  unfold Session.closeWriteSide
  split
  · exact h
  next st hst =>
  split
  · exact h
  split
  · exact h.closeStream hs hst _
  have hid := hs.ne_crypto hst
  have ho : s.openStream id = some st := (openStream_of_ne hid).trans hst
  have hk : ∀ k st₁, (s.setOpen id st.closeWrite).openStream k = some st₁ →
      (k = id ∧ st₁ = st.closeWrite) ∨ (k ≠ id ∧ s.openStream k = some st₁) := by
    intro k st₁ hst₁
    rcases eq_or_ne k id with rfl | hne
    · rw [openStream_of_ne hid, lookup_setOpen] at hst₁
      exact .inl ⟨rfl, (Option.some.inj hst₁).symm⟩
    · rw [openStream, lookup_setOpen_ne hne] at hst₁
      exact .inr ⟨hne, hst₁⟩
  refine ⟨fun k st₁ hst₁ => ?_, fun k st₁ hst₁ => ?_, fun k st₁ hst₁ hQ => ?_⟩
  · rcases hk k st₁ hst₁ with ⟨rfl, rfl⟩ | ⟨-, hst₁⟩
    · exact h.unsent k st ho
    · exact h.unsent k st₁ hst₁
  · rcases hk k st₁ hst₁ with ⟨rfl, rfl⟩ | ⟨-, hst₁⟩
    · exact h.pending k st ho
    · exact h.pending k st₁ hst₁
  · rcases hk k st₁ hst₁ with ⟨rfl, rfl⟩ | ⟨-, hst₁⟩
    · exact fun _ => hu st ho hQ
    · exact h.shut k st₁ hst₁ hQ

theorem Awake.closeWriteSide_diff (h : s.Awake P Q) (hs : s.Sound) (id : ℕ) :
    (s.closeWriteSide id).Awake P (Q \ {id}) := by
  have h' : s.Awake P (Q \ {id}) := ⟨h.unsent, h.pending, fun k st hk hQ => h.shut k st hk hQ.1⟩
  exact h'.closeWriteSide hs fun _ _ hQ => absurd rfl hQ.2

theorem Awake.of_not_open (h : s.Awake P (Q \ {id})) (hn : s.openStream id = none) : s.Awake P Q := by
  refine ⟨h.unsent, h.pending, fun k st hst hQ => h.shut k st hst ⟨hQ, ?_⟩⟩
  rintro rfl
  rw [hn] at hst; cases hst

theorem openStream_none (hid : id ≠ kCryptoStreamId) (hd : s.isDynamic id = false) :
    s.openStream id = none := (openStream_of_ne hid).trans (isDynamic_eq_false.1 hd)

theorem Awake.closeBoth (h : s.Awake P Q) (hs : s.Sound) (hid : id ≠ kCryptoStreamId) :
    ((s.closeWriteSide id).closeReadSide id).Awake P Q := by
  have hs₁ : (s.closeWriteSide id).Sound := (moves_closeWriteSide (A := ∅) id).sound hs
  exact ((h.closeWriteSide_diff hs id).closeReadSide hs₁ id).of_not_open
    (openStream_none hid (not_isDynamic_closeBoth hs))

theorem Awake.closeStream_of_closed (h : s.Awake P Q) (hid : id ≠ kCryptoStreamId)
    (hd : s.isDynamic id = false) : (s.closeStream id).Awake P Q := by
  have hn : ({ s with writeBlocked := s.writeBlocked.unregisterStream id } :
      Session).dynamicStreams.lookup id = none := isDynamic_eq_false.1 hd
  unfold Session.closeStream
  split
  · exact h
  rw [closeStreamInner_none hn]
  refine h.of_streams fun k st₁ hst₁ => .inr
    ⟨st₁, hst₁, rfl, fun h => h, fun hk => mem_unregisterStream hk ?_, fun _ h => h⟩
  rintro rfl
  rw [openStream_of_ne hid, hn] at hst₁; cases hst₁

theorem Awake.streamDraining (h : s.Awake P Q) (id : ℕ) : (s.streamDraining id).Awake P Q := by
  unfold Session.streamDraining
  split
  · exact h
  · exact h.of_same rfl rfl rfl rfl rfl

theorem Awake.onFinalByteOffsetReceived (h : s.Awake P Q) (id : ℕ) :
    (s.onFinalByteOffsetReceived id).Awake P Q := by
  unfold Session.onFinalByteOffsetReceived
  split
  · exact h.of_same rfl rfl rfl rfl rfl
  · exact h

/-- What leaves the zombies has left the open streams before, or is the preset stream with another
    under its id. -/
theorem Awake.onStreamDoneWaitingForAcks (h : s.Awake P Q) (hs : s.Sound) (id : ℕ) :
    (s.onStreamDoneWaitingForAcks id).Awake P Q := by
  unfold Session.onStreamDoneWaitingForAcks
  split
  · exact h
  next zt hz =>
  have hzs : (s.zombieStreams.lookup id).isSome = true := by rw [hz]; rfl
  have hid := (hs.used id (.inr hzs)).2.1
  refine h.of_streams fun k st₁ hst₁ => .inr ⟨st₁, hst₁, rfl, fun h => h, fun h => h, fun hT hk => ?_⟩
  refine (List.mem_erase_of_ne ?_).2 hk
  rintro rfl
  rw [openStream_of_ne hid] at hst₁
  exact hT (hs.twin k st₁ hst₁ hzs)

/-! ## New streams -/

theorem Awake.offered (h : s.Awake P Q) (id : ℕ) : (s.offered id).Awake P Q :=
  h.of_streams fun _ st₁ hst₁ => .inr ⟨st₁, hst₁, rfl, fun h => h.congr rfl rfl, fun h => h, fun _ h => h⟩

theorem Awake.opened (h : s.Awake P Q) (priority : Fin 8) : (s.opened id priority).Awake P Q := by
  refine h.of_streams fun k st₁ hst₁ => ?_
  by_cases hk : k = kCryptoStreamId
  · subst hk
    cases hst₁
    exact .inr ⟨s.crypto, rfl, rfl, fun h => h.congr rfl rfl, mem_registerStream.2, fun _ h => h⟩
  rw [openStream_of_ne hk] at hst₁
  rcases opened_lookup hst₁ with ⟨-, rfl⟩ | ⟨-, hst₁⟩
  · exact .inl ⟨rfl, rfl⟩
  · exact .inr ⟨st₁, (openStream_of_ne hk).trans hst₁, rfl, fun h => h.congr rfl rfl,
      mem_registerStream.2, fun _ h => h⟩

theorem Awake.createOutgoingDynamicStream (h : s.Awake P Q) (hs : s.Sound) (priority : Fin 8) :
    (s.createOutgoingDynamicStream priority).1.Awake P Q := by
  have hd : s.drawn.Awake P Q := h.of_streams fun _ st₁ hst₁ => .inr
    ⟨st₁, hst₁, rfl, fun h => h.congr rfl rfl, fun h => h, fun _ h => h⟩
  cases he : s.established
  · rw [Session.createOutgoingDynamicStream, if_neg (by simp [he])]
    exact hd
  · rw [createOutgoingDynamicStream_eq hs he]
    exact hd.opened priority

/-- The preset stream is made; no stream was under its id before. -/
theorem Awake.presetOpened {p : Handle} (h : s.Awake P Q)
    (hT : ∀ id st, s.openStream id = some st → ¬s.Twin id st.obj) (priority : Fin 8) :
    (((s.opened p.id priority).withPreset p).setDelegate p).Awake P Q := by
  refine h.of_streams fun k st₁ hst₁ => ?_
  have hwb : (((s.opened p.id priority).withPreset p).setDelegate p).writeBlocked =
      s.writeBlocked.registerStream p.id priority := by rw [setDelegate_opened]; rfl
  have hpr : (((s.opened p.id priority).withPreset p).setDelegate p).pendingRetransmission =
      s.pendingRetransmission := by rw [setDelegate_opened]; rfl
  rw [hwb, hpr]
  by_cases hk : k = kCryptoStreamId
  · subst hk
    rw [openStream_crypto, setDelegate_opened] at hst₁
    cases hst₁
    exact .inr ⟨s.crypto, rfl, rfl, fun h => absurd h (hT _ _ rfl), mem_registerStream.2, fun _ h => h⟩
  rw [openStream_of_ne hk] at hst₁
  rcases setDelegate_opened_lookup hst₁ with ⟨-, rfl⟩ | ⟨-, hst₁⟩
  · exact .inl ⟨rfl, rfl⟩
  · have ho : s.openStream k = some st₁ := (openStream_of_ne hk).trans hst₁
    exact .inr ⟨st₁, ho, rfl, fun h => absurd h (hT _ _ ho), mem_registerStream.2, fun _ h => h⟩

theorem Awake.handshakeConfirmed (h : s.Awake P Q) (hs : s.Sound) (hc : s.confirmed = false)
    (he : s.server = false → s.established = true) : s.handshakeConfirmed.Awake P Q := by
  cases hsv : s.server
  · have hT : ∀ id st, s.openStream id = some st → ¬s.Twin id st.obj := fun _ _ _ hT =>
      Bool.noConfusion (hsv.symm.trans hT.server)
    rw [handshakeConfirmed_client hs hsv (he hsv)]
    refine Awake.presetOpened (s := s.confirmClient.drawn)
      ?_
      (fun id st hst hT' => hT id st hst (hT'.congr rfl rfl)) _
    exact h.of_streams fun _ st₁ hst₁ =>
      .inr ⟨st₁, hst₁, rfl, fun h => h.congr rfl rfl, fun h => h, fun _ h => h⟩
  · have hT : ∀ id st, s.openStream id = some st → ¬s.Twin id st.obj := fun id st hst hT => by
      rw [openStream_of_ne (by rw [hT.id_eq]; decide)] at hst
      exact (hs.early_of_unconfirmed hsv hc).1 id (.inl (isDynamic_iff.2 ⟨st, hst⟩))
    rw [handshakeConfirmed_server hs hsv hc]
    refine Awake.presetOpened (s := s.confirmServer)
      ?_
      (fun id st hst hT' => hT id st hst (hT'.congr rfl rfl)) _
    exact h.of_streams fun _ st₁ hst₁ =>
      .inr ⟨st₁, hst₁, rfl, fun h => h.congr rfl rfl, fun h => h, fun _ h => h⟩

/-! ## Sending -/

theorem getStream_of_open (h : s.openStream id = some st) : s.getStream id = some st := by
  rw [openStream] at h
  rw [getStream]
  split
  · next hid => rwa [if_pos hid] at h
  · next hid => rw [if_neg hid] at h; rw [h]

theorem openStream_setStream (hst : s.getStream id = some st) {st₁ : Stream}
    (h : (s.setStream id st').openStream k = some st₁) :
    (k = id ∧ s.openStream id = some st ∧ st₁ = st') ∨ (k ≠ id ∧ s.openStream k = some st₁) := by
  unfold setStream at h
  rcases getStream_cases hst with ⟨rfl, rfl⟩ | ⟨hid, hd⟩ | ⟨hid, hn, -⟩
  · rw [if_pos rfl] at h
    by_cases hk : k = kCryptoStreamId
    · subst hk
      exact .inl ⟨rfl, rfl, (Option.some.inj h).symm⟩
    · rw [openStream_of_ne hk] at h
      exact .inr ⟨hk, (openStream_of_ne hk).trans h⟩
  · rw [if_neg hid, if_pos (isDynamic_iff.2 ⟨st, hd⟩)] at h
    rcases eq_or_ne k id with rfl | hne
    · rw [openStream_of_ne hid, lookup_setOpen] at h
      exact .inl ⟨rfl, (openStream_of_ne hid).trans hd, (Option.some.inj h).symm⟩
    · rw [openStream, lookup_setOpen_ne hne] at h
      exact .inr ⟨hne, h⟩
  · rw [if_neg hid, if_neg (by simp [hn])] at h
    refine .inr ⟨?_, h⟩
    rintro rfl
    cases (openStream_none hid hn).symm.trans h

theorem setStream_ids : (s.setStream id st).toStreamIds = s.toStreamIds := by
  unfold setStream
  split
  · rfl
  · split <;> rfl

theorem setStream_pendingRetransmission :
    (s.setStream id st).pendingRetransmission = s.pendingRetransmission := by
  unfold setStream
  split
  · rfl
  · split <;> rfl

variable {P' : Set ℕ} {send : SendStream} {stay : Prop} {found fin : Bool} {offset length : ℕ}

/-- The sending half of the stream `id` changes, and what the session knows of it. -/
theorem Awake.setSend (h : s.Awake P Q)
    (hst : s.getStream id = some st) (hids : t.toStreamIds = s.toStreamIds)
    (ho : ∀ k, t.openStream k = (s.setStream id { st with send := send }).openStream k)
    (hwb : ∀ k ∈ s.writeBlocked.streams, k ∈ t.writeBlocked.streams)
    (hpr : ∀ k ∈ s.pendingRetransmission, k ≠ id → k ∈ t.pendingRetransmission)
    (hP : ∀ k ∈ P', k ≠ id → k ∈ P)
    (hunsent : s.openStream id = some st → id ∈ P' → send.hasUnsent = true →
      id ∈ t.writeBlocked.streams ∨ send.flow.isBlocked = true)
    (hpending : s.openStream id = some st → ¬s.Twin id st.obj →
      send.hasPendingRetransmission = true → id ∈ t.pendingRetransmission)
    (hshut : s.openStream id = some st → id ∈ Q → send.writeSideClosed = true →
      send.hasUnsent = false) : t.Awake P' Q := by
  refine ⟨fun k st₁ hst₁ hk hu => ?_, fun k st₁ hst₁ hT hp => ?_, fun k st₁ hst₁ hQ hw => ?_⟩
  · rw [ho] at hst₁
    rcases openStream_setStream hst hst₁ with ⟨rfl, hs, rfl⟩ | ⟨hne, hs⟩
    · exact hunsent hs hk hu
    · exact (h.unsent k st₁ hs (hP k hk hne) hu).imp_left (hwb k)
  · rw [ho] at hst₁
    rw [hids] at hT
    rcases openStream_setStream hst hst₁ with ⟨rfl, hs, rfl⟩ | ⟨hne, hs⟩
    · exact hpending hs hT hp
    · exact hpr k (h.pending k st₁ hs hT hp) hne
  · rw [ho] at hst₁
    rcases openStream_setStream hst hst₁ with ⟨rfl, hs, rfl⟩ | ⟨-, hs⟩
    · exact hshut hs hQ hw
    · exact h.shut k st₁ hs hQ hw

theorem Awake.recordWritten (h : s.Awake P Q) (hs : s.Sound)
    (hst : s.getStream id = some st) (hsv : st.send.Serves stay w) (hr : st.send.Runs w)
    (hP : ∀ k ∈ P', k ≠ id → k ∈ P) (hstay : stay → id ∈ P' → id ∈ P) :
    (s.recordWritten id st w).Awake P' Q := by
  have hwb : (s.recordWritten id st w).writeBlocked =
      if w.marked then (s.writeBlocked.updateBytesForStream id w.sent).addStream id
      else s.writeBlocked.updateBytesForStream id w.sent := rfl
  have hlist : ∀ k ∈ s.writeBlocked.streams, k ∈ (s.recordWritten id st w).writeBlocked.streams := by
    intro k hk
    rw [hwb]
    split
    · exact mem_addStream (by rwa [updateBytesForStream_streams])
    · rwa [updateBytesForStream_streams]
  have hpr : (s.recordWritten id st w).pendingRetransmission = s.pendingRetransmission :=
    setStream_pendingRetransmission
  refine h.setSend hst setStream_ids (fun _ => rfl) hlist (fun k hk _ => hpr ▸ hk) hP
    (fun ho hid hu => ?_) (fun ho hT hp => hpr ▸ h.pending id st ho hT (hsv.pending hp))
    fun ho hQ hw => hsv.shut hw (h.shut id st ho hQ (hr.writeSideClosed ▸ hw))
  rcases hsv.served with hm | hset | ⟨hstay', hun, hflow⟩
  · refine .inl ?_
    rw [hwb, if_pos hm]
    refine mem_addStream_self ?_ ?_
    · rw [updateBytesForStream_scheduler]; exact hs.consistent
    · rw [updateBytesForStream_scheduler]
      by_cases hc : id = kCryptoStreamId
      · exact .inl hc
      · rw [openStream_of_ne hc] at ho
        exact .inr (hs.registered id (isDynamic_iff.2 ⟨st, ho⟩))
  · exact .inr (hset.resolve_left (by simp [hu]))
  · rw [hflow]
    exact (h.unsent id st ho (hstay hstay' hid) (hun hu)).imp_left (hlist id)

/-- The state in which the write side is closed after the FIN was sent. -/
theorem finished_eq {b : Bool} :
    (if b then s.streamDraining id else s).openStream k = s.openStream k ∧
    (if b then s.streamDraining id else s).pendingRetransmission = s.pendingRetransmission := by
  unfold streamDraining
  split
  · split <;> exact ⟨rfl, rfl⟩
  · exact ⟨rfl, rfl⟩

theorem Awake.applyWritten (h : s.Awake P Q) (hs : s.Sound)
    (hst : s.getStream id = some st) (hsv : st.send.Serves stay w) (hr : st.send.Runs w)
    (hi : s.StaysIdle id st { st with send := w.stream })
    (hP : ∀ k ∈ P', k ≠ id → k ∈ P) (hstay : stay → id ∈ P' → id ∈ P) :
    (s.applyWritten id st w).Awake P' Q := by
  have h' : (s.recordWritten id st w).Awake P' Q := h.recordWritten hs hst hsv hr hP hstay
  unfold Session.applyWritten
  split
  · next hf =>
    refine Awake.closeWriteSide ?_ ((moves_recordFinished (A := ∅) hs hst hr hi hf).sound hs) ?_
    · split
      · exact h'.streamDraining id
      · exact h'
    · intro st₁ hst₁ _
      rw [finished_eq.1] at hst₁
      rcases openStream_setStream hst hst₁ with ⟨-, -, rfl⟩ | ⟨hne, -⟩
      · exact hsv.finished hf
      · exact absurd rfl hne
  · exact h'

theorem Awake.erasePending (h : s.Awake P Q)
    (hn : ∀ st, s.openStream id = some st → st.send.hasPendingRetransmission = false) :
    { s with pendingRetransmission := s.pendingRetransmission.erase id }.Awake P Q := by
  refine ⟨h.unsent, fun k st hst hT hp => ?_, h.shut⟩
  refine (List.mem_erase_of_ne ?_).2 (h.pending k st hst hT hp)
  rintro rfl
  rw [hn st hst] at hp; cases hp

/-- What a call of the application or of a stream leaves: no stream is forgotten that was not, and no
    data is lost. -/
structure Sends (s t : Session) : Prop where
  sound : t.Sound
  awake : ∀ {P Q : Set ℕ}, s.Awake P Q → t.Awake P Q
  pending : t.pendingRetransmission ⊆ s.pendingRetransmission

theorem Sends.refl (hs : s.Sound) : s.Sends s := ⟨hs, fun h => h, List.Subset.refl _⟩

theorem Sends.trans {u : Session} (h : s.Sends t) (h' : t.Sends u) : s.Sends u :=
  ⟨h'.sound, fun ha => h'.awake (h.awake ha), List.Subset.trans h'.pending h.pending⟩

theorem Sends.of_same (hs : t.Sound) (hids : t.toStreamIds = s.toStreamIds)
    (hd : t.dynamicStreams = s.dynamicStreams) (hc : t.crypto = s.crypto)
    (hw : t.writeBlocked = s.writeBlocked) (hp : t.pendingRetransmission = s.pendingRetransmission) :
    s.Sends t :=
  ⟨hs, fun h => h.of_same hids hd hc hw hp, hp ▸ List.Subset.refl _⟩

theorem pending_closeWriteSide (hs : s.Sound) :
    (s.closeWriteSide id).pendingRetransmission ⊆ s.pendingRetransmission := by
  unfold closeWriteSide
  split
  · exact List.Subset.refl _
  next st hst =>
  split
  · exact List.Subset.refl _
  split
  · rw [(closeStream_closes (hs.ne_crypto hst)
      lookup_setOpen).1.pending]
    split
    · exact List.Subset.refl _
    · exact List.erase_subset
  · exact List.Subset.refl _

theorem sends_applyWritten (hs : s.Sound) (hst : s.getStream id = some st)
    (hsv : st.send.Serves True w) (hr : st.send.Runs w)
    (hi : s.StaysIdle id st { st with send := w.stream }) : s.Sends (s.applyWritten id st w) := by
  refine ⟨(moves_applyWritten (A := ∅) hs hst hr hi).sound hs,
    fun h => h.applyWritten hs hst hsv hr hi (fun _ hk _ => hk) fun _ hk => hk, ?_⟩
  have hpr : (s.recordWritten id st w).pendingRetransmission = s.pendingRetransmission :=
    setStream_pendingRetransmission
  unfold Session.applyWritten
  split
  · next hf =>
    refine List.Subset.trans
      (pending_closeWriteSide ((moves_recordFinished (A := ∅) hs hst hr hi hf).sound hs)) ?_
    rw [(finished_eq (k := 0)).2, hpr]
    exact List.Subset.refl _
  · rw [hpr]; exact List.Subset.refl _

theorem sends_writeOrBufferData (hs : s.Sound) (w : StreamWrite) : s.Sends (s.writeOrBufferData w) := by
  unfold Session.writeOrBufferData
  split
  · exact .refl hs
  · next st hr =>
    obtain ⟨hst, ho⟩ := resolve_some hr
    refine sends_applyWritten hs hst (serves_writeOrBufferData ..) (runs_writeOrBufferData ..)
      fun _ => .inr ?_
    rw [ho, hr]; rfl

theorem sends_appWrites (hs : s.Sound) : s.Sends s.appWrites := by
  have hs' : ({ s with env := { s.env with app := s.env.app.tail } } : Session).Sound :=
    hs.of_same rfl rfl rfl
  refine Sends.trans (.of_same hs' rfl rfl rfl rfl rfl) ?_
  exact List.foldlRecOn _ _ (.refl hs') fun _ h w _ =>
    h.trans (sends_writeOrBufferData h.sound w)

theorem sends_notifyCanWrite (hs : s.Sound) (hid : id ≠ kCryptoStreamId) :
    s.Sends (s.notifyCanWrite id) := by
  unfold notifyCanWrite
  split
  · exact .refl hs
  next st hst =>
  split
  · exact .refl hs
  next hn =>
  rcases getStream_cases hst with ⟨hid', -⟩ | ⟨-, hd⟩ | ⟨-, -, hz⟩
  · exact absurd hid' hid
  · have hs' := (Move.call hd .canWrite).sound hs
    exact Sends.trans (.of_same hs' rfl rfl rfl rfl rfl) (sends_appWrites hs')
  · exact absurd (by simp [(hs.zombie id st hz).1]) hn

theorem staysIdle_onCanWrite {e : WriteEnv} :
    s.StaysIdle id st { st with send := (st.send.onCanWrite e).stream } :=
  fun hi => .inl (hi.onCanWrite e)

theorem sends_streamOnCanWrite (hs : s.Sound) (id : ℕ) : s.Sends (s.streamOnCanWrite id) := by
  unfold Session.streamOnCanWrite
  split
  · exact .refl hs
  next st hst =>
  have h := sends_applyWritten hs hst (serves_onCanWrite_stay st.send (s.writeEnv id))
    (runs_onCanWrite _ _) staysIdle_onCanWrite
  split
  · exact h
  · next hid => exact h.trans (sends_notifyCanWrite h.sound hid)

theorem Awake.wake (h : s.Awake P Q) (id : ℕ)
    (hi : ∀ st, s.openStream id = some st → st.send.hasUnsent = true →
      id ∈ s.writeBlocked.streams ∨ st.send.flow.isBlocked = true) :
    s.Awake (insert id P) Q := by
  refine ⟨fun k st hst hk hu => ?_, h.pending, h.shut⟩
  rcases hk with rfl | hk
  · exact hi st hst hu
  · exact h.unsent k st hst hk hu

theorem Awake.streamOnCanWrite (h : s.Awake P univ) (hs : s.Sound) (id : ℕ)
    (hn : ∀ st, s.openStream id = some st → st.send.hasUnsent = true →
      st.send.hasPendingRetransmission = false) :
    (s.streamOnCanWrite id).Awake (insert id P) univ := by
  by_cases hu : ∃ st, s.openStream id = some st ∧ st.send.hasUnsent = true
  swap
  · exact (sends_streamOnCanWrite hs id).awake (h.wake id fun st hst hst' => absurd ⟨st, hst, hst'⟩ hu)
  obtain ⟨st, ho, hu⟩ := hu
  have hst := getStream_of_open ho
  have hsv := serves_onCanWrite (hn st ho hu) (h.shut id st ho trivial) (s.writeEnv id)
  have hr := st.send.runs_onCanWrite (s.writeEnv id)
  have h' : (s.applyWritten id st (st.send.onCanWrite (s.writeEnv id))).Awake (insert id P)
      univ := h.applyWritten hs hst hsv hr staysIdle_onCanWrite
    (fun k hk hne => hk.resolve_left hne) fun hf _ => hf.elim
  have hs' := (moves_applyWritten (A := ∅) hs hst hr staysIdle_onCanWrite).sound hs
  unfold Session.streamOnCanWrite
  rw [hst]
  dsimp only
  split
  · exact h'
  · next hid => exact (sends_notifyCanWrite hs' hid).awake h'

/-! ## `OnCanWrite` of the session -/

theorem awake_retransmitLostStreamData (n : ℕ) (hs : s.Sound)
    (h : s.Awake univ univ) :
    (retransmitLostStreamData n s).1.Awake univ univ ∧
    ((retransmitLostStreamData n s).2 = true →
      (retransmitLostStreamData n s).1.pendingRetransmission = []) := by
  induction n generalizing s with
  | zero => exact ⟨h, fun h => List.isEmpty_iff.1 h⟩
  | succ n ih =>
    have hd : s.dropCanWrite.Awake univ univ := h.of_same rfl rfl rfl rfl rfl
    have hsd : s.dropCanWrite.Sound := hs.of_same rfl rfl rfl
    unfold retransmitLostStreamData
    split
    · next hp => exact ⟨h, fun _ => hp⟩
    next front _ _ =>
    split
    · have hsend := sends_streamOnCanWrite hsd (s.nextPending front)
      dsimp only
      split
      · exact ⟨hsend.awake hd, nofun⟩
      · next hn =>
        refine ih (hsend.sound.of_same rfl rfl rfl) ((hsend.awake hd).erasePending fun st hst => ?_)
        rw [hasPending, getStream_of_open hst] at hn
        exact Bool.eq_false_iff.2 hn
    · exact ⟨hd, nofun⟩

/-- With no lost data in the session, a stream that has something to send has none either. -/
theorem Awake.calm (h : s.Awake P Q) (hs : s.Sound) (hp : s.pendingRetransmission = [])
    (ho : s.openStream id = some st) (hu : st.send.hasUnsent = true) :
    st.send.hasPendingRetransmission = false := by
  have hT : ¬s.Twin id st.obj := fun hT => by
    have hid : id ≠ kCryptoStreamId := by rw [hT.id_eq]; decide
    rw [openStream_of_ne hid] at ho
    rw [(hs.idle id st ho hT).unsent] at hu; cases hu
  refine Bool.eq_false_iff.2 fun hpd => ?_
  have hm := h.pending id st ho hT hpd
  rw [hp] at hm; cases hm

theorem getOrCreateStream_open (ho : s.openStream id = some st) :
    s.getOrCreateStream id = some (s, true) := by
  unfold getOrCreateStream
  split
  · rfl
  · next hid =>
    rw [openStream_of_ne hid] at ho
    rw [getOrCreateDynamicStream, if_pos (isDynamic_iff.2 ⟨st, ho⟩)]

theorem Awake.popped (h : s.Awake univ Q) (hs : s.Sound) :
    s.popped.Awake {s.writeBlocked.popFront.1}ᶜ Q := by
  refine ⟨fun k st hst hk hu => ?_, h.pending, h.shut⟩
  exact (h.unsent k st hst trivial hu).imp_left fun hl =>
    (popFront_spec hs.consistent).2.2 k hl hk

/-- One round of the loop: the stream that leaves the list sees to its own wake-up. -/
theorem awake_writeNext (hs : s.Sound) (h : s.Awake univ univ)
    (hp : s.pendingRetransmission = []) (hn : s.writeNext = some t) :
    t.Awake univ univ ∧ t.pendingRetransmission = [] := by
  have hs₁ : s.popped.Sound := (Move.quiet (quiet_popped hs)).sound hs
  have h₁ := h.popped hs
  have huniv : insert s.writeBlocked.popFront.1 {s.writeBlocked.popFront.1}ᶜ = univ :=
    (insert_eq _ _).trans (union_compl_self _)
  have hp₁ : s.popped.pendingRetransmission = [] := hp
  unfold writeNext at hn
  split at hn
  · cases hn
  next s' found hg =>
  obtain rfl := getOrCreateStream_of_known (known_popFront hs) hg
  cases hn
  split
  · have h₂ := h₁.streamOnCanWrite hs₁ s.writeBlocked.popFront.1 fun st => h₁.calm hs₁ hp₁
    rw [huniv] at h₂
    refine ⟨h₂.of_same rfl rfl rfl rfl rfl, List.subset_nil.1 ?_⟩
    rw [← hp₁]
    exact (sends_streamOnCanWrite hs₁ s.writeBlocked.popFront.1).pending
  · next hb =>
    have h₂ := h₁.wake s.writeBlocked.popFront.1 fun st ho _ => .inr <| by
      obtain rfl : found = true := by
        rw [getOrCreateStream_open ho] at hg; cases hg; rfl
      simpa [getStream_of_open ho] using hb
    rw [huniv] at h₂
    exact ⟨h₂.of_same rfl rfl rfl rfl rfl, hp⟩

theorem awake_writeLoop (n : ℕ) (hs : s.Sound) (h : s.Awake univ univ)
    (hp : s.pendingRetransmission = []) (ht : writeLoop n s = some t) :
    t.Awake univ univ := by
  induction n generalizing s with
  | zero => cases ht; exact h
  | succ n ih =>
    have hd : s.dropCanWrite.Awake univ univ := h.of_same rfl rfl rfl rfl rfl
    have hsd : s.dropCanWrite.Sound := hs.of_same rfl rfl rfl
    unfold writeLoop at ht
    split at ht
    · split at ht
      · obtain ⟨u, hu, ht⟩ := Option.bind_eq_some_iff.1 ht
        obtain ⟨h', hp'⟩ := awake_writeNext hsd hd hp hu
        exact ih ((moves_writeNext (A := ∅) hsd hu).sound hsd) h' hp' ht
      · cases ht; exact hd
    · cases ht

theorem awake_onCanWrite (hs : s.Sound) (h : s.Awake univ univ)
    (ht : s.onCanWrite = some t) : t.Awake univ univ := by
  obtain ⟨h', hp⟩ := awake_retransmitLostStreamData s.pendingRetransmission.length hs h
  unfold onCanWrite at ht
  dsimp only at ht
  split at ht
  · next hr =>
    exact awake_writeLoop _ ((moves_retransmitLostStreamData (A := ∅) _ hs).sound hs) h' (hp hr) ht
  · cases ht; exact h'

/-! ## The other events -/

theorem Awake.getOrCreateDynamicStream (h : s.Awake P Q) (h₀ : id ≠ 0) (h₁ : id ≠ kCryptoStreamId)
    (hlt : id < 2 ^ 32) (hg : s.getOrCreateDynamicStream id = some (t, found)) :
    t.Awake P Q := by
  rcases getOrCreateDynamicStream_cases h₀ h₁ hlt hg with ⟨rfl, -⟩ | ⟨-, rfl, -⟩ | ⟨ho, -, -, rfl, -⟩
  · exact h
  · exact h.offered id
  · rw [createIncomingDynamicStream_eq ho]
    exact (h.offered id).opened _

theorem Awake.getOrCreateStream (h : s.Awake P Q) (h₀ : id ≠ 0) (hlt : id < 2 ^ 32)
    (hg : s.getOrCreateStream id = some (t, found)) : t.Awake P Q := by
  unfold Session.getOrCreateStream at hg
  split at hg
  · cases hg; exact h
  · next h₁ => exact h.getOrCreateDynamicStream h₀ h₁ hlt hg

theorem Awake.received (h : s.Awake P Q) (hs : s.Sound) (hst : s.dynamicStreams.lookup id = some st)
    (finReceived rstReceived error : Bool) :
    (s.setOpen id { st with
      finReceived := finReceived, rstReceived := rstReceived, error := error }).Awake P Q ∧
    (s.setOpen id { st with
      finReceived := finReceived, rstReceived := rstReceived, error := error }).Sound :=
  ⟨h.setOpen hs hst rfl rfl, (moves_received (A := ∅) hs hst _ _ _).sound hs⟩

theorem Awake.onFinRead (h : s.Awake P Q) (hs : s.Sound) (id : ℕ) : (s.onFinRead id).Awake P Q := by
  unfold Session.onFinRead
  split
  · exact h
  · next st hst =>
    obtain ⟨h', hs'⟩ := h.received hs hst true st.rstReceived st.error
    exact h'.closeReadSide hs' id

theorem Awake.receive (h : s.Awake P Q) (hs : s.Sound) (id : ℕ) (r : Received) :
    (receive id s r).Awake P Q := by
  cases r with
  | available =>
    rw [Session.receive]
    unfold onDataAvailable
    split
    · exact h
    · split
      · exact h
      · exact h.of_same rfl rfl rfl rfl rfl
  | finRead => exact h.onFinRead hs id

theorem Awake.receives (h : s.Awake P Q) (hs : s.Sound) (id : ℕ) (rs : List Received) :
    (rs.foldl (Session.receive id) s).Awake P Q :=
  (List.foldlRecOn (motive := fun s : Session => s.Sound ∧ s.Awake P Q) rs (Session.receive id)
    ⟨hs, h⟩ fun _ h r _ => ⟨(moves_receive (A := ∅) h.1 id r).sound h.1, h.2.receive h.1 id r⟩).2

theorem Awake.streamOnStreamFrame (h : s.Awake P Q) (hs : s.Sound) (id : ℕ) (fin conflict : Bool)
    (rs : List Received) : (s.streamOnStreamFrame id fin conflict rs).Awake P Q := by
  unfold Session.streamOnStreamFrame
  split
  · exact h
  next st hst =>
  obtain ⟨h₁, hs₁⟩ := h.received hs hst (st.finReceived || fin) st.rstReceived st.error
  have h₂ : (if fin && st.send.finSent then
      (s.setOpen id { st with finReceived := st.finReceived || fin }).streamDraining id
      else s.setOpen id { st with finReceived := st.finReceived || fin }).Awake P Q ∧
    (if fin && st.send.finSent then
      (s.setOpen id { st with finReceived := st.finReceived || fin }).streamDraining id
      else s.setOpen id { st with finReceived := st.finReceived || fin }).Sound := by
    split
    · exact ⟨h₁.streamDraining id,
        (moves_streamDraining (A := ∅) id (isDynamic_setOpen.2 (.inl rfl))).sound hs₁⟩
    · exact ⟨h₁, hs₁⟩
  dsimp only
  split
  · exact h₂.1
  split
  · exact (h₂.1.resetOpen h₂.2 id).receives
      ((moves_resetOpen (A := univ) id fun _ => trivial).sound h₂.2) id rs
  · exact h₂.1.receives h₂.2 id rs

theorem Awake.onStreamFrame (h : s.Awake P Q) (hs : s.Sound) (hlt : id < 2 ^ 32)
    {conflict : Bool} {rs : List Received} (ht : s.onStreamFrame id fin conflict rs = some t) :
    t.Awake P Q := by
  unfold Session.onStreamFrame at ht
  split at ht
  · cases ht
  next hn =>
  rw [not_or] at hn
  split at ht
  · cases ht
  · next s' hg =>
    cases ht
    exact (h.getOrCreateStream hn.1 hlt hg).streamOnStreamFrame
      ((moves_getOrCreateStream (A := univ) hn.1 hlt (fun _ => trivial) hg).sound hs) _ _ _ _
  · next s' hg =>
    cases ht
    have h' := h.getOrCreateStream hn.1 hlt hg
    split
    · exact h'.onFinalByteOffsetReceived id
    · exact h'

theorem Awake.onRstStream (h : s.Awake P Q) (hs : s.Sound) (hlt : id < 2 ^ 32) {error : Bool}
    (ht : s.onRstStream id error = some t) : t.Awake P Q := by
  unfold Session.onRstStream at ht
  split at ht
  · cases ht
  next hn =>
  rw [not_or] at hn
  split at ht
  · cases ht
  · next s' hg =>
    cases ht
    have h' := h.getOrCreateDynamicStream hn.1 hn.2 hlt hg
    have hs' := (moves_getOrCreateDynamicStream (A := univ) hn.1 hn.2 hlt (fun _ => trivial) hg).sound hs
    unfold onStreamReset
    split
    · exact h'
    · next st hst =>
      obtain ⟨h₁, hs₁⟩ := h'.received hs' hst st.finReceived true error
      exact h₁.closeBoth hs₁ hn.2
  · next s' hg =>
    cases ht
    have h' := h.getOrCreateDynamicStream hn.1 hn.2 hlt hg
    split
    · exact h'.onFinalByteOffsetReceived id
    · exact h'

/-- Acknowledgements and losses change nothing of what is unsent. -/
theorem Awake.keeps (h : s.Awake P Q) (hst : s.getStream id = some st)
    (hk : st.send.Keeps send) (hids : t.toStreamIds = s.toStreamIds)
    (ho : ∀ k, t.openStream k = (s.setStream id { st with send := send }).openStream k)
    (hwb : t.writeBlocked = s.writeBlocked)
    (hpr : ∀ k ∈ s.pendingRetransmission, k ≠ id → k ∈ t.pendingRetransmission)
    (hpending : s.openStream id = some st → ¬s.Twin id st.obj →
      send.hasPendingRetransmission = true → id ∈ t.pendingRetransmission) : t.Awake P Q := by
  refine h.setSend hst hids ho (fun k hk => hwb ▸ hk) hpr (fun k hk _ => hk) (fun hs hP hu => ?_)
    hpending fun hs hQ hw => ?_
  · rw [hk.flow, hwb]
    exact h.unsent id st hs hP (hk.hasUnsent ▸ hu)
  · rw [hk.hasUnsent]
    exact h.shut id st hs hQ (hk.writeSideClosed ▸ hw)

theorem Awake.onStreamFrameLost (h : s.Awake P Q) (id offset length : ℕ) (fin : Bool) :
    (s.onStreamFrameLost id offset length fin).Awake P Q := by
  unfold Session.onStreamFrameLost
  split
  · exact h
  next st hst =>
  have hk := st.send.keeps_lost offset length fin
  dsimp only
  split
  · exact h.keeps hst hk setStream_ids (fun _ => rfl) setStream_writeBlocked
      (fun k hk _ => List.mem_append_left _ hk)
      fun _ _ _ => List.mem_append_right _ (List.mem_singleton_self id)
  · next hn =>
    refine h.keeps hst hk setStream_ids (fun _ => rfl) setStream_writeBlocked (fun k hk _ => ?_)
      fun _ _ hp => ?_
    · rwa [setStream_pendingRetransmission]
    · rw [setStream_pendingRetransmission]
      by_contra hid
      exact hn (by simp [hp, hid])

theorem Awake.onStreamFrameRetransmitted (h : s.Awake P Q)
    (ht : s.onStreamFrameRetransmitted id offset length fin = some t) : t.Awake P Q := by
  unfold Session.onStreamFrameRetransmitted at ht
  split at ht
  · cases ht
  next st hst =>
  cases ht
  refine h.keeps hst (st.send.keeps_retransmitted offset length fin) setStream_ids (fun _ => rfl)
    setStream_writeBlocked (fun k hk _ => ?_) fun ho hT hp => ?_
  · rwa [setStream_pendingRetransmission]
  · rw [setStream_pendingRetransmission]
    exact h.pending id st ho hT (pending_of_retransmitted hp)

theorem openStream_onStreamDoneWaitingForAcks :
    (s.onStreamDoneWaitingForAcks id).openStream k = s.openStream k := by
  unfold Session.onStreamDoneWaitingForAcks
  split <;> rfl

theorem Awake.onStreamFrameAcked (h : s.Awake P Q) (hs : s.Sound)
    (ht : s.onStreamFrameAcked id length fin = some t) : t.Awake P Q := by
  unfold Session.onStreamFrameAcked at ht
  split at ht
  · cases ht; exact h
  next st hst =>
  split at ht
  · cases ht
  next send hk =>
  cases ht
  have hkeeps := keeps_acked hk
  have h₁ : (s.setStream id { st with send := send }).Awake P Q := by
    refine h.keeps hst hkeeps setStream_ids (fun _ => rfl) setStream_writeBlocked (fun k hk _ => ?_)
      fun ho hT hp => ?_
    · rwa [setStream_pendingRetransmission]
    · rw [setStream_pendingRetransmission]
      exact h.pending id st ho hT (pending_of_acked hk hp)
  have hs₁ := (moves_keeps (A := ∅) hs hst hkeeps).sound hs
  have h₂ : (if ({ st with send := send } : Stream).isWaitingForAcks then
      s.setStream id { st with send := send }
      else (s.setStream id { st with send := send }).onStreamDoneWaitingForAcks id).Awake P Q := by
    split
    · exact h₁
    · exact h₁.onStreamDoneWaitingForAcks hs₁ id
  split
  · exact h₂
  · next hn =>
    refine h₂.erasePending fun st₁ hst₁ => ?_
    have hst₁' : (s.setStream id { st with send := send }).openStream id = some st₁ := by
      split at hst₁
      · exact hst₁
      · rwa [openStream_onStreamDoneWaitingForAcks] at hst₁
    rcases openStream_setStream hst hst₁' with ⟨-, -, rfl⟩ | ⟨hne, -⟩
    · exact Bool.eq_false_iff.2 hn
    · exact absurd rfl hne

theorem unsent_getOrCreateStream (h₀ : id ≠ 0) (hlt : id < 2 ^ 32)
    (hg : s.getOrCreateStream id = some (t, found)) (hn : s.openStream id = none)
    (hst : t.openStream id = some st) : st.send.hasUnsent = false := by
  unfold Session.getOrCreateStream at hg
  split at hg
  · cases hg; cases hn.symm.trans hst
  next h₁ =>
  rw [openStream_of_ne h₁] at hn hst
  rcases getOrCreateDynamicStream_cases h₀ h₁ hlt hg with ⟨rfl, -⟩ | ⟨-, rfl, -⟩ | ⟨ho, -, -, rfl, -⟩
  · cases hn.symm.trans hst
  · cases hn.symm.trans hst
  · rw [createIncomingDynamicStream_eq ho] at hst
    rcases opened_lookup hst with ⟨-, rfl⟩ | ⟨hne, -⟩
    · rfl
    · exact absurd rfl hne

/-- A larger window than before, if it was not used up, changes nothing. -/
theorem isBlocked_updateSendWindowOffset {f : FlowController}
    (h : (f.updateSendWindowOffset offset).2 = false) (hb : f.isBlocked = true) :
    (f.updateSendWindowOffset offset).1.isBlocked = true := by
  unfold FlowController.updateSendWindowOffset at h ⊢
  split
  · exact hb
  · next hn => rw [if_neg hn] at h; cases hb.symm.trans h

/-- The event is a WINDOW_UPDATE that unblocks a stream with both lost and unsent data, which is not
    on the list of blocked streams. -/
def losesWakeup (s : Session) : SessionAct → Prop
  | .windowUpdate id offset _ => ∃ st, s.openStream id = some st ∧ st.send.hasUnsent = true ∧
      st.send.hasPendingRetransmission = true ∧ id ∉ s.writeBlocked.streams ∧
      (st.send.flow.updateSendWindowOffset offset).2 = true
  | _ => False

theorem Awake.streamOnWindowUpdate (h : s.Awake univ univ) (hs : s.Sound)
    (hn : ∀ st, s.openStream id = some st → st.send.hasUnsent = true →
      st.send.hasPendingRetransmission = true → id ∉ s.writeBlocked.streams →
      (st.send.flow.updateSendWindowOffset offset).2 = false) :
    (s.streamOnWindowUpdate id offset).Awake univ univ := by
  unfold Session.streamOnWindowUpdate
  split
  · exact h
  next st hst =>
  dsimp only
  have hm : Moves ∅ s (s.setStream id { st with
      send := { st.send with flow := (st.send.flow.updateSendWindowOffset offset).1 } }) :=
    moves_setStream hs hst rfl fun hi => .inl (idle_of_flow hi)
  have hs₁ := hm.sound hs
  have hset : ∀ P' : Set ℕ, (s.openStream id = some st → id ∈ P' → st.send.hasUnsent = true →
      id ∈ s.writeBlocked.streams ∨ (st.send.flow.updateSendWindowOffset offset).1.isBlocked = true) →
      (s.setStream id { st with send :=
        { st.send with flow := (st.send.flow.updateSendWindowOffset offset).1 } }).Awake P' univ := by
    intro P' hu
    refine h.setSend hst setStream_ids (fun _ => rfl) (fun k hk => ?_) (fun k hk _ => ?_)
      (fun _ _ _ => trivial) (fun ho hP hun => ?_) (fun ho hT hp => ?_) (h.shut id st)
    · rwa [setStream_writeBlocked]
    · rwa [setStream_pendingRetransmission]
    · rw [setStream_writeBlocked]; exact hu ho hP hun
    · rw [setStream_pendingRetransmission]; exact h.pending id st ho hT hp
  split
  · next hb =>
    by_cases hc : s.openStream id = some st ∧ st.send.hasUnsent = true ∧
      st.send.hasPendingRetransmission = true
    · -- the stream sends again what was lost, and must be on the list for the rest
      refine (sends_streamOnCanWrite hs₁ id).awake (hset _ fun ho _ hu => .inl ?_)
      by_contra hl
      rw [hn st ho hu hc.2.2 hl] at hb; cases hb
    · have h₁ := hset {id}ᶜ fun _ hP => absurd rfl hP
      have h₂ := h₁.streamOnCanWrite hs₁ id fun st₁ hst₁ hu => ?_
      · rwa [insert_eq, union_compl_self] at h₂
      rcases openStream_setStream hst hst₁ with ⟨-, ho, rfl⟩ | ⟨hne, -⟩
      · exact Bool.eq_false_iff.2 fun hp => hc ⟨ho, hu, hp⟩
      · exact absurd rfl hne
  · next hb =>
    exact hset _ fun ho _ hu => (h.unsent id st ho trivial hu).imp_right
      (isBlocked_updateSendWindowOffset (Bool.eq_false_iff.2 hb))

theorem Awake.onWindowUpdateFrame (h : s.Awake univ univ) (hs : s.Sound)
    (hlt : id < 2 ^ 32)
    (hn : ∀ st, s.openStream id = some st → st.send.hasUnsent = true →
      st.send.hasPendingRetransmission = true → id ∉ s.writeBlocked.streams →
      (st.send.flow.updateSendWindowOffset offset).2 = false)
    (ht : s.onWindowUpdateFrame id offset = some t) : t.Awake univ univ := by
  unfold Session.onWindowUpdateFrame at ht
  split at ht
  · cases ht; exact h.of_same rfl rfl rfl rfl rfl
  next h₀ =>
  split at ht
  · cases ht
  · next s' hg =>
    cases ht
    have h' := h.getOrCreateStream h₀ hlt hg
    have hs' := (moves_getOrCreateStream (A := univ) h₀ hlt (fun _ => trivial) hg).sound hs
    refine h'.streamOnWindowUpdate hs' fun st hst hu hp hl => ?_
    cases ho : s.openStream id with
    | none =>
      -- the stream was made just now and has nothing to send
      rw [unsent_getOrCreateStream h₀ hlt hg ho hst] at hu
      cases hu
    | some st₀ =>
      rw [getOrCreateStream_open ho] at hg
      cases hg
      exact hn st hst hu hp hl
  · next s' hg =>
    cases ht
    exact h.getOrCreateStream h₀ hlt hg

theorem Awake.closeForConnection (h : s.Awake P Q) (hs : s.Sound) (error : Bool) (id : ℕ) :
    (closeForConnection error s id).Awake P Q := by
  unfold Session.closeForConnection
  split
  · exact h
  next st hst =>
  have hid := hs.ne_crypto hst
  obtain ⟨h₁, hs₁⟩ := h.received hs hst st.finReceived st.rstReceived (st.error || error)
  exact (h₁.closeBoth hs₁ hid).closeStream_of_closed hid (not_isDynamic_closeBoth hs₁)

theorem Awake.onConnectionClosed (h : s.Awake P Q) (hs : s.Sound) (error : Bool) :
    (s.onConnectionClosed error).Awake P Q := by
  have h' := List.foldlRecOn (motive := fun s : Session => s.Sound ∧ s.Awake P Q)
    s.dynamicStreams.keys (Session.closeForConnection error)
    (b := { s with connected := false }) ⟨hs.of_same rfl rfl rfl, h.of_same rfl rfl rfl rfl rfl⟩
    fun s h id _ => ⟨(moves_closeForConnection (A := ∅) h.1 error id).sound h.1,
      h.2.closeForConnection h.1 error id⟩
  exact h'.2.of_same rfl rfl rfl rfl rfl

/-- **What one event keeps.** -/
theorem step_awake {a : SessionAct} (hs : s.Sound) (h : s.Awake univ univ)
    (hl : ¬s.losesWakeup a) (ht : s.step a = some t) : t.Awake univ univ := by
  have henv : ∀ env, (s.withEnv env).Awake univ univ ∧ (s.withEnv env).Sound :=
    fun env => ⟨h.of_same rfl rfl rfl rfl rfl, hs.of_same rfl rfl rfl⟩
  unfold step at ht
  split at ht
  swap
  · cases ht
  cases a with
  | streamFrame id fin conflict rs =>
    dsimp only at ht
    split at ht
    · next hlt => exact h.onStreamFrame hs hlt ht
    · cases ht
  | rstStream id error =>
    dsimp only at ht
    split at ht
    · next hlt => exact h.onRstStream hs hlt ht
    · cases ht
  | windowUpdate id offset env =>
    dsimp only at ht
    split at ht
    · next hlt =>
      refine (henv env).1.onWindowUpdateFrame (henv env).2 hlt (fun st hst hu hp hb => ?_) ht
      exact Bool.eq_false_iff.2 fun hf => hl ⟨st, hst, hu, hp, hb, hf⟩
    · cases ht
  | acked id length fin => exact h.onStreamFrameAcked hs ht
  | lost id offset length fin => cases ht; exact h.onStreamFrameLost id offset length fin
  | retransmitted id offset length fin => exact h.onStreamFrameRetransmitted ht
  | canWrite env => exact awake_onCanWrite (henv env).2 (henv env).1 ht
  | write w env => cases ht; exact (sends_writeOrBufferData (henv env).2 w).awake (henv env).1
  | finRead hd =>
    dsimp only at ht
    split at ht
    · cases ht; exact h.onFinRead hs hd.id
    · cases ht
  | reset hd =>
    dsimp only at ht
    split at ht
    · cases ht; exact h.resetOpen hs hd.id
    · cases ht
  | createStream priority =>
    cases ht
    unfold createStream
    split
    · exact h
    · exact h.createOutgoingDynamicStream hs priority
  | cancelStream id => cases ht; exact h.cancelStream hs id
  | postProcess => cases ht; exact h.of_same rfl rfl rfl rfl rfl
  | encryption established env =>
    have he : ({ s with established := established } : Session).Awake univ univ :=
      h.of_streams fun _ st hst => .inr ⟨st, hst, rfl, fun h => h.congr rfl rfl, fun h => h, fun _ h => h⟩
    dsimp only at ht
    split at ht
    · cases ht
    next hn =>
    simp only [Bool.or_eq_true, not_or, Bool.not_eq_true] at hn
    have hse := (Move.encryption established hn.1 hn.2).sound hs
    split at ht
    · next hb =>
      subst hb
      have he' : ({ s with established := true }.withEnv env).Awake univ univ :=
        he.of_same rfl rfl rfl rfl rfl
      refine awake_onCanWrite ?_ he' ht
      exact hse.of_same rfl rfl rfl
    · next hb =>
      cases ht
      rw [Bool.not_eq_true] at hb
      subst hb
      exact he
  | handshake =>
    dsimp only at ht
    split at ht
    · cases ht
    next hn =>
    rw [not_or, Bool.not_eq_true] at hn
    cases ht
    refine h.handshakeConfirmed hs hn.1 fun hsv => ?_
    simpa using fun he => hn.2 ⟨hsv, he⟩
  | config maxIncoming maxOutgoing window => cases ht; exact h.of_same rfl rfl rfl rfl rfl
  | close error => cases ht; exact h.onConnectionClosed hs error

theorem awake_init (server : Bool) (maxIncoming maxOutgoing window : ℕ) :
    (init server maxIncoming maxOutgoing window).Awake univ univ := by
  have hc : ∀ id st, (init server maxIncoming maxOutgoing window).openStream id = some st →
      st.send = .new window [[], [], []] false := fun id st hst => by
    by_cases hid : id = kCryptoStreamId
    · subst hid; cases hst; rfl
    · rw [openStream_of_ne hid] at hst; cases hst
  refine ⟨fun id st hst _ hu => ?_, fun id st hst _ hp => ?_, fun id st hst _ hw => ?_⟩
  · rw [hc id st hst] at hu; cases hu
  · rw [hc id st hst] at hp; cases hp
  · rw [hc id st hst] at hw; cases hw

/-- **No wake-up is lost**: an open stream with something unsent is on the list of blocked streams or
    its own window is used up, in every run without a WINDOW_UPDATE that unblocks a stream with lost
    data. -/
theorem unsent_woken {server : Bool} {maxIncoming maxOutgoing window : ℕ} {as : List SessionAct}
    (hC : Machine.Along step (fun s a => ¬s.losesWakeup a)
    (init server maxIncoming maxOutgoing window) as)
    (h : Machine.run step (init server maxIncoming maxOutgoing window) as = some s)
    (id : ℕ) (st : Stream) (ho : s.openStream id = some st) (hu : st.send.hasUnsent = true) :
    id ∈ s.writeBlocked.streams ∨ st.send.flow.sendWindowSize = 0 := by
  obtain ⟨-, hI⟩ := Machine.run_inv_along
    (I := fun s : Session => s.Sound ∧ s.Awake univ univ)
    (fun _ _ _ hI ha hs => ⟨step_sound hI.1 hs, step_awake hI.1 hI.2 ha hs⟩)
    ⟨sound_init .., awake_init ..⟩ hC h
  exact (hI.unsent id st ho trivial hu).imp_right FlowController.isBlocked_iff.1

/-- Of twenty bytes on the preset stream the window lets ten through, and those are lost. -/
def lostTen : List SessionAct :=
  [.handshake, .write ⟨⟨3, 1⟩, 20, false⟩ ⟨0, [⟨10, false⟩], [], []⟩, .lost 3 0 10 false]

theorem unsent_woken_lostTen : ∃ (s : Session) (st : Stream),
    Machine.run step (init true 10 10 10) lostTen = some s ∧ s.openStream 3 = some st ∧
    st.send.hasUnsent = true ∧
    (3 ∈ s.writeBlocked.streams ∨ st.send.flow.sendWindowSize = 0) :=
  ⟨_, _, rfl, rfl, rfl, @unsent_woken _ true 10 10 10 lostTen
    ⟨nofun, fun _ _ => ⟨nofun, fun _ _ => ⟨nofun, fun _ _ => trivial⟩⟩⟩ rfl 3 _ rfl rfl⟩

/-- A WINDOW_UPDATE then has the ten bytes sent again, and the other ten are forgotten. -/
theorem wakeup_lost : ∃ (s : Session) (st : Stream),
    Machine.run step (init true 10 10 10)
      (lostTen ++ [.windowUpdate 3 100 ⟨0, [⟨10, false⟩, ⟨10, false⟩], [], []⟩]) = some s ∧
    s.connected = true ∧ s.established = true ∧ s.openStream 3 = some st ∧
    st.send.hasUnsent = true ∧ 3 ∉ s.writeBlocked.streams ∧ st.send.flow.sendWindowSize = 90 := by
  refine ⟨_, _, rfl, rfl, rfl, rfl, rfl, ?_, rfl⟩
  decide +kernel

end Session
end Puic
