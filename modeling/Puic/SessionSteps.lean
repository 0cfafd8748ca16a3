/-
  Every event is a sequence of moves.

  `step_moves` says which: those that change no id, and those with a label that the
  event can have in the state it finds (`labels`).  One lemma per function of the
  session leads there.
-/
import Puic.SessionSound

namespace Puic

open WriteBlockedList

namespace SendStream

variable {st : SendStream} {e : WriteEnv}

/-- What a call of the sending code leaves alone. -/
structure Runs (st : SendStream) (w : Written) : Prop where
  writeSideClosed : w.stream.writeSideClosed = st.writeSideClosed
  closed : st.writeSideClosed = true → w.marked = false ∧ w.finished = false

theorem runs_unwritten (st : SendStream) (e : WriteEnv) : st.Runs (st.unwritten e) :=
  ⟨rfl, fun _ => ⟨rfl, rfl⟩⟩

theorem writeBufferedData_writeSideClosed :
    (st.writeBufferedData e).stream.writeSideClosed = st.writeSideClosed := by
  rcases st.writeBufferedData_cases e with ⟨m, h, -⟩ | ⟨k, m, -, h, -⟩ | ⟨m, -, h⟩ <;> rw [h] <;> rfl

theorem runs_onCanWrite (st : SendStream) (e : WriteEnv) : st.Runs (st.onCanWrite e) := by
  rcases st.onCanWrite_cases e with ⟨-, st', rs, hk, h⟩ | ⟨-, h, -⟩ | ⟨-, hw, -, h⟩
  · rw [h]; exact ⟨hk.writeSideClosed, fun _ => ⟨rfl, rfl⟩⟩
  · rw [h]; exact runs_unwritten st e
  · rw [h]
    exact ⟨writeBufferedData_writeSideClosed, fun hc => absurd (hw.symm.trans hc) Bool.false_ne_true⟩

theorem runs_writeOrBufferData (st : SendStream) (n : ℕ) (fin : Bool) (e : WriteEnv) :
    st.Runs (st.writeOrBufferData n fin e) := by
  rcases st.writeOrBufferData_cases n fin e with h | ⟨-, hw, ⟨-, h⟩ | h⟩
  · rw [h]; exact runs_unwritten st e
  · rw [h]; exact ⟨rfl, fun _ => ⟨rfl, rfl⟩⟩
  · rw [h]
    exact ⟨writeBufferedData_writeSideClosed, fun hc => absurd (hw.symm.trans hc) Bool.false_ne_true⟩

end SendStream

namespace Session

variable {s t : Session} {id k : ℕ} {st st' : Stream} {w : Written} {A : Set Label}

/-! ## Quiet moves -/

/-- A change of what neither the streams nor the scheduler depend on. -/
theorem Quiet.of_same (htable : t.toStreamTable = s.toStreamTable)
    (hcr : t.crypto.finReceived = s.crypto.finReceived) (hwb : t.writeBlocked = s.writeBlocked) :
    s.Quiet t where
  table := htable
  crypto := hcr
  consistent h := hwb ▸ h
  registered k h := by rwa [hwb] at h
  kept k _ h := by rwa [hwb]
  listed _ k h := .inl (by rwa [hwb] at h)

theorem moves_of_same (htable : t.toStreamTable = s.toStreamTable)
    (hcr : t.crypto.finReceived = s.crypto.finReceived) (hwb : t.writeBlocked = s.writeBlocked) :
    Moves A s t := (Move.quiet (.of_same htable hcr hwb)).moves

theorem Sound.of_same (hs : s.Sound) (htable : t.toStreamTable = s.toStreamTable)
    (hcr : t.crypto.finReceived = s.crypto.finReceived) (hwb : t.writeBlocked = s.writeBlocked) :
    t.Sound := (Move.quiet (.of_same htable hcr hwb)).sound hs

theorem quiet_unregister (hid : id ≠ kCryptoStreamId) (hd : s.isDynamic id = false) :
    s.Quiet { s with writeBlocked := s.writeBlocked.unregisterStream id } where
  table := rfl
  crypto := rfl
  consistent h := h.unregisterStream
  registered _ h := (PriorityWriteScheduler.registered_unregisterStream.1 h).1
  kept k hk h := PriorityWriteScheduler.registered_unregisterStream.2
    ⟨h, fun he => by rw [he, hd] at hk; cases hk⟩
  listed hc _ h := .inl (mem_of_mem_unregisterStream hc hid h).1

/-! ## Closing -/

theorem moves_closeStream_of_closed (hid : id ≠ kCryptoStreamId) (hd : s.isDynamic id = false) :
    Moves A s (s.closeStream id) := by
  have hn : ({ s with writeBlocked := s.writeBlocked.unregisterStream id } :
      Session).dynamicStreams.lookup id = none := isDynamic_eq_false.1 hd
  unfold closeStream
  split
  · exact .refl
  · rw [closeStreamInner_none hn]
    exact (Move.quiet (quiet_unregister hid hd)).moves

theorem not_isDynamic_closeStream (hid : id ≠ kCryptoStreamId)
    (h : s.dynamicStreams.lookup id = some st) : (s.closeStream id).isDynamic id = false := by
  rw [isDynamic_eq_false, (closeStream_closes hid h).1.dynamic, AList.lookup_erase]

theorem moves_closeReadSide (id : ℕ) : Moves A s (s.closeReadSide id) := by
  unfold closeReadSide
  split
  · exact .refl
  next st hst =>
  split
  · exact .refl
  next hr =>
  have hu : s.Updates id st { st with readSideClosed := true } := ⟨⟨rfl, rfl, fun h => h⟩, rfl, .inl⟩
  split
  · exact (Move.close hst hu).moves
  · next hw => exact (Move.update hst hu fun hd => hw hd.2).moves

theorem moves_closeWriteSide (id : ℕ) : Moves A s (s.closeWriteSide id) := by
  unfold closeWriteSide
  split
  · exact .refl
  next st hst =>
  split
  · exact .refl
  next hw =>
  have hu : s.Updates id st st.closeWrite :=
    ⟨.closeWrite st, rfl, fun hi => .inl ⟨hi.unsent, hi.bytesOutstanding, hi.finOutstanding⟩⟩
  split
  · exact (Move.close hst hu).moves
  · next hr => exact (Move.update hst hu fun hd => hr hd.1).moves

theorem closeWriteSide_lookup (hs : s.Sound)
    (h : (s.closeWriteSide id).dynamicStreams.lookup id = some st) :
    st.send.writeSideClosed = true := by
  unfold closeWriteSide at h
  split at h
  · next hn => rw [hn] at h; cases h
  next st₀ hst₀ =>
  split at h
  · next hw => rw [hst₀] at h; cases h; exact hw
  split at h
  · have hl : (s.setOpen id st₀.closeWrite).dynamicStreams.lookup id = some st₀.closeWrite :=
      lookup_setOpen
    have hd := not_isDynamic_closeStream (hs.ne_crypto hst₀) hl
    rw [isDynamic_eq_false, h] at hd; cases hd
  · rw [lookup_setOpen] at h; cases h; rfl

theorem not_isDynamic_closeBoth (hs : s.Sound) :
    ((s.closeWriteSide id).closeReadSide id).isDynamic id = false := by
  have hs' : (s.closeWriteSide id).Sound := (moves_closeWriteSide (A := ∅) id).sound hs
  unfold closeReadSide
  split
  · next hn => exact isDynamic_eq_false.2 hn
  next st hst =>
  have hw := closeWriteSide_lookup hs hst
  split
  · next hr => exact absurd ⟨hr, hw⟩ (hs'.open_ id st hst).2
  exact not_isDynamic_closeStream (hs'.ne_crypto hst) lookup_setOpen

theorem moves_resetOpen (id : ℕ) (hA : s.isDynamic id = true → .reset id (s.isRetired id) ∈ A) :
    Moves A s (s.resetOpen id) := by
  cases hst : s.dynamicStreams.lookup id with
  | none => rw [resetOpen, hst]; exact .refl
  | some st => exact (Move.reset hst).movesOf (hA (isDynamic_iff.2 ⟨st, hst⟩))

theorem moves_cancelStream (id : ℕ)
    (hA : s.isDynamic id = true → .reset id (s.isRetired id) ∈ A) :
    Moves A s (s.cancelStream id) := by
  unfold cancelStream
  split
  · split
    · exact moves_of_same rfl rfl rfl
    · exact moves_resetOpen id hA
  · exact .refl

theorem moves_streamDraining (id : ℕ) (hd : s.isDynamic id = true) : Moves A s (s.streamDraining id) := by
  obtain ⟨st, hst⟩ := isDynamic_iff.1 hd
  exact (Move.drain hst).moves

/-! ## Sending -/

theorem getStream_cases (h : s.getStream id = some st) :
    (id = kCryptoStreamId ∧ st = s.crypto) ∨
    (id ≠ kCryptoStreamId ∧ s.dynamicStreams.lookup id = some st) ∨
    (id ≠ kCryptoStreamId ∧ s.isDynamic id = false ∧ s.zombieStreams.lookup id = some st) := by
  unfold getStream at h
  split at h
  · next hid => exact .inl ⟨hid, (Option.some.inj h).symm⟩
  next hid =>
  refine .inr ?_
  split at h
  · next hst => exact .inl ⟨hid, hst.trans h⟩
  · next hn => exact .inr ⟨hid, isDynamic_eq_false.2 hn, h⟩

variable {send : SendStream} {found fin : Bool} {offset length : ℕ} {a : SessionAct}

theorem moves_setStream (hs : s.Sound) (hst : s.getStream id = some st)
    (hw : send.writeSideClosed = st.send.writeSideClosed)
    (hi : s.StaysIdle id st { st with send := send }) :
    Moves A s (s.setStream id { st with send := send }) := by
  have hl : st.Later { st with send := send } := ⟨rfl, rfl, fun h => hw.trans h⟩
  unfold setStream
  rcases getStream_cases hst with ⟨hid, rfl⟩ | ⟨hid, hd⟩ | ⟨hid, hd, hz⟩
  · rw [if_pos hid]
    exact moves_of_same rfl rfl rfl
  · rw [if_neg hid, if_pos (isDynamic_iff.2 ⟨st, hd⟩)]
    refine (Move.update hd ⟨hl, rfl, hi⟩ ?_).moves
    rintro ⟨hr, hc⟩
    exact (hs.open_ id st hd).2 ⟨hr, hw ▸ hc⟩
  · rw [if_neg hid, if_neg (by simp [hd])]
    exact (Move.zombie hd hz hl).moves

theorem setStream_writeBlocked : (s.setStream id st).writeBlocked = s.writeBlocked := by
  unfold setStream
  split
  · rfl
  · split <;> rfl

theorem isDynamic_setStream : (s.setStream id st).isDynamic k = s.isDynamic k := by
  unfold setStream
  split
  · rfl
  split
  · next hd =>
    rcases eq_or_ne k id with rfl | hne
    · exact (isDynamic_setOpen.2 (.inl rfl)).trans hd.symm
    · rw [isDynamic, lookup_setOpen_ne hne, isDynamic]
  · rfl

/-- The rest of what a stream that has written asks of the session. -/
theorem quiet_recordWritten (ho : w.marked = true → s.isOpenStream id = true) :
    (s.setStream id { st with send := w.stream }).Quiet (s.recordWritten id st w) := by
  have hwb : (s.setStream id { st with send := w.stream }).writeBlocked = s.writeBlocked :=
    setStream_writeBlocked
  have hrw : (s.recordWritten id st w).writeBlocked =
      if w.marked then (s.writeBlocked.updateBytesForStream id w.sent).addStream id
      else s.writeBlocked.updateBytesForStream id w.sent := rfl
  refine ⟨rfl, rfl, ?_, ?_, ?_, ?_⟩
  · rw [hwb, hrw]
    intro hc
    split
    · exact consistent_addStream (by rwa [updateBytesForStream_scheduler])
    · rwa [updateBytesForStream_scheduler]
  · rw [hwb, hrw]
    intro k hk
    split at hk
    · rwa [registered_addStream, updateBytesForStream_scheduler] at hk
    · rwa [updateBytesForStream_scheduler] at hk
  · rw [hwb, hrw]
    intro k _ hk
    split
    · rwa [registered_addStream, updateBytesForStream_scheduler]
    · rwa [updateBytesForStream_scheduler]
  · rw [hwb, hrw]
    intro _ k hk
    split at hk
    · next hm =>
      rcases mem_of_mem_addStream hk with hk | rfl
      · rw [updateBytesForStream_streams] at hk
        exact .inl hk
      · rw [isOpenStream, isDynamic_setStream]
        exact .inr (ho hm)
    · rw [updateBytesForStream_streams] at hk
      exact .inl hk

theorem moves_recordWritten (hs : s.Sound) (hst : s.getStream id = some st)
    (hr : st.send.Runs w) (hi : s.StaysIdle id st { st with send := w.stream }) :
    Moves A s (s.recordWritten id st w) := by
  refine (moves_setStream hs hst hr.writeSideClosed hi).trans
    (Move.quiet (quiet_recordWritten fun hm => ?_)).moves
  rcases getStream_cases hst with ⟨rfl, -⟩ | ⟨hid, hd⟩ | ⟨-, -, hz⟩
  · rfl
  · rw [isOpenStream_eq hid]
    exact isDynamic_iff.2 ⟨st, hd⟩
  · rw [(hr.closed (hs.zombie id st hz).2).1] at hm; cases hm

/-- The stream sent its FIN and drains if it has that of the peer. -/
theorem moves_recordFinished (hs : s.Sound) (hst : s.getStream id = some st)
    (hr : st.send.Runs w) (hi : s.StaysIdle id st { st with send := w.stream })
    (hf : w.finished = true) :
    Moves A s (if st.finReceived then (s.recordWritten id st w).streamDraining id
      else s.recordWritten id st w) := by
  have hm : Moves A s (s.recordWritten id st w) := moves_recordWritten hs hst hr hi
  split
  · next hfr =>
    refine hm.trans (moves_streamDraining id ?_)
    rcases getStream_cases hst with ⟨-, rfl⟩ | ⟨-, hd⟩ | ⟨-, -, hz⟩
    · rw [hs.crypto] at hfr; cases hfr
    · exact isDynamic_setStream.trans (isDynamic_iff.2 ⟨st, hd⟩)
    · rw [(hr.closed (hs.zombie id st hz).2).2] at hf; cases hf
  · exact hm

theorem moves_applyWritten (hs : s.Sound) (hst : s.getStream id = some st)
    (hr : st.send.Runs w) (hi : s.StaysIdle id st { st with send := w.stream }) :
    Moves A s (s.applyWritten id st w) := by
  unfold applyWritten
  split
  · next hf => exact (moves_recordFinished hs hst hr hi hf).trans (moves_closeWriteSide id)
  · exact moves_recordWritten hs hst hr hi

theorem resolve_some {h : Handle} (hr : s.resolve h = some st) :
    s.getStream h.id = some st ∧ st.obj = h.obj := by
  unfold resolve at hr
  split at hr
  · next hid =>
    split at hr
    · next ho => cases hr; exact ⟨by rw [getStream, if_pos hid], ho⟩
    · cases hr
  next hid =>
  split at hr
  · cases hr
  · obtain ⟨hl, ho⟩ := Option.filter_eq_some_iff.1 hr
    exact ⟨by rw [getStream, if_neg hid, hl], by simpa using ho⟩

theorem moves_writeOrBufferData (hs : s.Sound) (w : StreamWrite) : Moves A s (s.writeOrBufferData w) := by
  unfold writeOrBufferData
  split
  · exact .refl
  · next st hr =>
    obtain ⟨hst, ho⟩ := resolve_some hr
    refine moves_applyWritten hs hst (SendStream.runs_writeOrBufferData _ _ _ _) fun _ => .inr ?_
    rw [ho, hr]; rfl

theorem moves_foldl {α : Type} {f : Session → α → Session} {l : List α}
    (hf : ∀ a ∈ l, ∀ s : Session, s.Sound → Moves A s (f s a)) (hs : s.Sound) :
    Moves A s (l.foldl f s) := by
  induction l generalizing s with
  | nil => exact .refl
  | cons a l ih =>
    have h : Moves A s (f s a) := hf a (.head l) s hs
    exact h.trans (ih (fun b hb => hf b (.tail a hb)) (h.sound hs))

theorem moves_appWrites (hs : s.Sound) : Moves A s s.appWrites := by
  have h : Moves A s { s with env := { s.env with app := s.env.app.tail } } := moves_of_same rfl rfl rfl
  exact h.trans (moves_foldl (fun w _ _ hs => moves_writeOrBufferData hs w) (h.sound hs))

theorem moves_notifyCanWrite (hs : s.Sound) (hid : id ≠ kCryptoStreamId) :
    Moves A s (s.notifyCanWrite id) := by
  unfold notifyCanWrite
  split
  · exact .refl
  next st hst =>
  split
  · exact .refl
  next hn =>
  rcases getStream_cases hst with ⟨hid', -⟩ | ⟨-, hd⟩ | ⟨-, -, hz⟩
  · exact absurd hid' hid
  · have h : Moves A s _ := (Move.call hd .canWrite).moves
    exact h.trans (moves_appWrites (h.sound hs))
  · exact absurd (by simp [(hs.zombie id st hz).1]) hn

theorem moves_streamOnCanWrite (hs : s.Sound) (id : ℕ) : Moves A s (s.streamOnCanWrite id) := by
  unfold streamOnCanWrite
  split
  · exact .refl
  next st hst =>
  have h : Moves A s (s.applyWritten id st (st.send.onCanWrite (s.writeEnv id))) :=
    moves_applyWritten hs hst (SendStream.runs_onCanWrite _ _) fun hi => .inl (hi.onCanWrite _)
  split
  · exact h
  · next hid => exact h.trans (moves_notifyCanWrite (h.sound hs) hid)

theorem moves_dropCanWrite : Moves A s s.dropCanWrite := moves_of_same rfl rfl rfl

theorem moves_retransmitLostStreamData (n : ℕ) (hs : s.Sound) :
    Moves A s (retransmitLostStreamData n s).1 := by
  induction n generalizing s with
  | zero => exact .refl
  | succ n ih =>
    unfold retransmitLostStreamData
    split
    · exact .refl
    next front _ _ =>
    split
    · have h₀ : Moves A s s.dropCanWrite := moves_dropCanWrite
      have h := h₀.trans (moves_streamOnCanWrite (h₀.sound hs) (s.nextPending front))
      dsimp only
      split
      · exact h
      · have h' := h.trans (moves_of_same (t := { s.dropCanWrite.streamOnCanWrite
          (s.nextPending front) with pendingRetransmission := (s.dropCanWrite.streamOnCanWrite
            (s.nextPending front)).pendingRetransmission.erase (s.nextPending front) })
          rfl rfl rfl)
        exact h'.trans (ih (h'.sound hs))
    · exact moves_dropCanWrite

/-! ## The loop over the blocked streams -/

theorem isRetired_zero (hs : s.Sound) : s.isRetired 0 = true := by
  obtain ⟨hp, hle, -⟩ := hs.parity
  rw [StreamIds.isRetired_iff]
  cases hsv : s.server
  · rw [hsv, if_neg Bool.false_ne_true] at hp
    exact .inr ⟨by omega, Nat.zero_le _, fun h => (hs.available 0 h).1 rfl⟩
  · rw [hsv, if_pos rfl] at hp
    exact .inl ⟨by omega, by omega⟩

/-- `GetOrCreateStream` of an id that is open or closed creates nothing. -/
theorem getOrCreateStream_of_known (h : s.isOpenStream id = true ∨ s.isRetired id = true)
    (hg : s.getOrCreateStream id = some (t, found)) : t = s := by
  unfold getOrCreateStream at hg
  split at hg
  · cases hg; rfl
  next hid =>
  rw [isOpenStream_eq hid] at h
  unfold getOrCreateDynamicStream at hg
  split at hg
  · cases hg; rfl
  next hd =>
  rw [Bool.not_eq_true] at hd
  have hc : s.isClosedStream id = true :=
    isClosedStream_iff.2 ⟨(isOpenStream_eq hid).trans hd, h.resolve_left (by simp [hd])⟩
  rw [if_pos hc] at hg
  cases hg; rfl

theorem quiet_popped (hs : s.Sound) : s.Quiet s.popped := by
  obtain ⟨h₁, h₂, -⟩ := popFront_spec hs.consistent
  exact ⟨rfl, rfl, fun _ => h₁, fun k => (h₂ k).1, fun k _ => (h₂ k).2,
    fun hc k hk => .inl (mem_of_mem_popFront hc hk)⟩

theorem known_popFront (hs : s.Sound) :
    s.popped.isOpenStream s.writeBlocked.popFront.1 = true ∨
      s.popped.isRetired s.writeBlocked.popFront.1 = true :=
  (popFront_mem hs.consistent).elim (hs.listed _)
    fun h0 => .inr (h0 ▸ isRetired_zero ((Move.quiet (quiet_popped hs)).sound hs))

theorem moves_writeNext (hs : s.Sound) (h : s.writeNext = some t) : Moves A s t := by
  unfold writeNext at h
  have hm : Moves A s s.popped := (Move.quiet (quiet_popped hs)).moves
  have hs₁ := hm.sound hs
  split at h
  · cases h
  next s' found hg =>
  obtain rfl := getOrCreateStream_of_known (known_popFront hs) hg
  cases h
  split
  · have hm' := hm.trans (moves_streamOnCanWrite hs₁ s.writeBlocked.popFront.1)
    exact hm'.trans (moves_of_same rfl rfl rfl)
  · exact hm.trans (moves_of_same rfl rfl rfl)

theorem moves_writeLoop (n : ℕ) (hs : s.Sound) (h : writeLoop n s = some t) : Moves A s t := by
  induction n generalizing s with
  | zero => cases h; exact .refl
  | succ n ih =>
    unfold writeLoop at h
    split at h
    · split at h
      · obtain ⟨u, hu, ht⟩ := Option.bind_eq_some_iff.1 h
        have h₀ : Moves A s s.dropCanWrite := moves_dropCanWrite
        have h₁ := h₀.trans (moves_writeNext (h₀.sound hs) hu)
        exact h₁.trans (ih (h₁.sound hs) ht)
      · cases h; exact moves_dropCanWrite
    · cases h

theorem moves_onCanWrite (hs : s.Sound) (h : s.onCanWrite = some t) : Moves A s t := by
  unfold onCanWrite at h
  have h₀ : Moves A s (retransmitLostStreamData s.pendingRetransmission.length s).1 :=
    moves_retransmitLostStreamData _ hs
  dsimp only at h
  split at h
  · exact h₀.trans (moves_writeLoop _ (h₀.sound hs) h)
  · cases h; exact h₀

/-! ## Receiving -/

/-- A frame on the id makes the session create a stream. -/
def admits (s : Session) (id : ℕ) : Bool :=
  !s.isOpenStream id && !s.isClosedStream id && s.isIncomingStream id && s.established &&
    decide (s.getNumOpenIncomingStreams < s.maxOpenIncomingStreams)

theorem offerable_of (h₀ : id ≠ 0) (h₁ : id ≠ kCryptoStreamId) (hlt : id < 2 ^ 32)
    (hd : s.isDynamic id = false) (hc : ¬s.isClosedStream id = true)
    (hi : s.isIncomingStream id = true) : s.Offerable id where
  ne_zero := h₀
  ne_crypto := h₁
  lt := hlt
  notDynamic := hd
  notRetired := Bool.eq_false_iff.2 fun hr =>
    hc (isClosedStream_iff.2 ⟨(isOpenStream_eq h₁).trans hd, hr⟩)
  incoming := hi

/-- What `GetOrCreateDynamicStream` can do: find the stream, or nothing because it is closed, or use up
    the id, or also make the stream. -/
theorem getOrCreateDynamicStream_cases (h₀ : id ≠ 0) (h₁ : id ≠ kCryptoStreamId)
    (hlt : id < 2 ^ 32) (h : s.getOrCreateDynamicStream id = some (t, found)) :
    (t = s ∧ found = s.isDynamic id) ∨
    (s.Offerable id ∧ t = s.offered id ∧ found = false) ∨
    (s.Offerable id ∧ s.established = true ∧ s.admits id = true ∧
      t = (s.offered id).createIncomingDynamicStream id ∧ found = true) := by
  unfold getOrCreateDynamicStream at h
  split at h
  · next hd => cases h; exact .inl ⟨rfl, hd.symm⟩
  next hd =>
  rw [Bool.not_eq_true] at hd
  split at h
  · cases h; exact .inl ⟨rfl, hd.symm⟩
  next hc =>
  split at h
  · cases h
  next hi =>
  replace hi : s.isIncomingStream id = true := by simpa using hi
  have ho := offerable_of h₀ h₁ hlt hd hc hi
  split at h
  · cases h
  next s' hs' =>
  have heq := maybeIncreaseLargestPeerStreamId_erase hs'
  subst heq
  right
  split at h
  · have hn : (s.offered id).dynamicStreams.lookup id = none := isDynamic_eq_false.1 hd
    rw [closeStreamInner_none hn] at h
    cases h
    exact .inl ⟨ho, rfl, rfl⟩
  next hlim =>
  split at h
  · next he =>
    cases h
    refine .inr ⟨ho, he, ?_, rfl, rfl⟩
    have hlim' : s.getNumOpenIncomingStreams < s.maxOpenIncomingStreams := Nat.lt_of_not_le hlim
    have he' : s.established = true := he
    simp [admits, isOpenStream_eq h₁, hd, hc, hi, he', hlim']
  · cases h; exact .inl ⟨ho, rfl, rfl⟩

theorem moves_getOrCreateDynamicStream (h₀ : id ≠ 0) (h₁ : id ≠ kCryptoStreamId)
    (hlt : id < 2 ^ 32) (hA : s.admits id = true → .create id ∈ A)
    (h : s.getOrCreateDynamicStream id = some (t, found)) : Moves A s t := by
  rcases getOrCreateDynamicStream_cases h₀ h₁ hlt h with ⟨rfl, -⟩ | ⟨ho, rfl, -⟩ | ⟨ho, he, ha, rfl, -⟩
  · exact .refl
  · exact (Move.offer ho).moves
  · exact (Move.create ho he).movesOf (hA ha)

theorem moves_getOrCreateStream (h₀ : id ≠ 0) (hlt : id < 2 ^ 32)
    (hA : s.admits id = true → .create id ∈ A)
    (h : s.getOrCreateStream id = some (t, found)) : Moves A s t := by
  unfold getOrCreateStream at h
  split at h
  · cases h; exact .refl
  · next h₁ => exact moves_getOrCreateDynamicStream h₀ h₁ hlt hA h

theorem moves_onDataAvailable (id : ℕ) : Moves A s (s.onDataAvailable id) := by
  unfold onDataAvailable
  split
  · exact .refl
  next st hst =>
  split
  · exact .refl
  · exact (Move.call hst .canRead).moves

theorem moves_received (hs : s.Sound) (hst : s.dynamicStreams.lookup id = some st)
    (finReceived rstReceived error : Bool) : Moves A s (s.setOpen id { st with
      finReceived := finReceived, rstReceived := rstReceived, error := error }) := by
  have hu : s.Updates id st { st with
      finReceived := finReceived, rstReceived := rstReceived, error := error } :=
    ⟨⟨rfl, rfl, fun h => h⟩, rfl, .inl⟩
  exact (Move.update hst hu (hs.open_ id st hst).2).moves

theorem moves_onFinRead (hs : s.Sound) (id : ℕ) : Moves A s (s.onFinRead id) := by
  unfold onFinRead
  split
  · exact .refl
  · next st hst => exact (moves_received hs hst true _ _).trans (moves_closeReadSide id)

theorem moves_receive (hs : s.Sound) (id : ℕ) (r : Received) : Moves A s (receive id s r) := by
  cases r with
  | available => exact moves_onDataAvailable id
  | finRead => exact moves_onFinRead hs id

/-- A FIN after another FIN makes the stream reset itself. -/
def conflicts (s : Session) (id : ℕ) : Bool :=
  (s.dynamicStreams.lookup id).any fun st => !st.readSideClosed && st.finReceived

theorem moves_streamOnStreamFrame (hs : s.Sound) (id : ℕ) (fin conflict : Bool)
    (rs : List Received)
    (hA : fin = true → conflict = true → s.conflicts id = true → .reset id (s.isRetired id) ∈ A) :
    Moves A s (s.streamOnStreamFrame id fin conflict rs) := by
  unfold streamOnStreamFrame
  split
  · exact .refl
  next st hst =>
  have h : Moves A s (s.setOpen id { st with finReceived := st.finReceived || fin }) :=
    moves_received hs hst _ _ _
  have h' : Moves A s (if fin && st.send.finSent then
      (s.setOpen id { st with finReceived := st.finReceived || fin }).streamDraining id
      else s.setOpen id { st with finReceived := st.finReceived || fin }) := by
    split
    · exact h.trans (moves_streamDraining id (isDynamic_setOpen.2 (.inl rfl)))
    · exact h
  dsimp only
  split
  · exact h'
  next hr =>
  split
  · next hc =>
    simp only [Bool.and_eq_true] at hc
    have hr' := hA hc.1.1 hc.1.2 (by simp [conflicts, hst, hr, hc.2])
    have h'' := h'.trans (moves_resetOpen id fun _ => by
      split
      · rwa [streamDraining_ids]
      · exact hr')
    exact h''.trans (moves_foldl (fun r _ s hs => moves_receive hs id r) (h''.sound hs))
  · exact h'.trans (moves_foldl (fun r _ s hs => moves_receive hs id r) (h'.sound hs))

theorem conflicts_getOrCreateStream (h₀ : id ≠ 0) (hlt : id < 2 ^ 32)
    (h : s.getOrCreateStream id = some (t, found)) (hc : t.conflicts id = true) : t = s := by
  unfold getOrCreateStream at h
  split at h
  · cases h; rfl
  next h₁ =>
  rcases getOrCreateDynamicStream_cases h₀ h₁ hlt h with ⟨rfl, -⟩ | ⟨ho, rfl, -⟩ | ⟨ho, -, -, rfl, -⟩
  · rfl
  · have hl : (s.offered id).dynamicStreams.lookup id = none := isDynamic_eq_false.1 ho.notDynamic
    rw [conflicts, hl] at hc
    cases hc
  · rw [createIncomingDynamicStream_eq ho] at hc
    have hl : (((s.offered id).opened id
        (if id = kPresetStreamId then kHighestPriority else kDefaultPriority)).dynamicStreams.lookup
          id) = some (.new s.nextObj s.initialWindow) := AList.lookup_insert _
    rw [conflicts, hl] at hc
    cases hc

theorem moves_onStreamFrame (hs : s.Sound) {conflict : Bool} {rs : List Received}
    (hlt : id < 2 ^ 32) (hA : s.admits id = true → .create id ∈ A)
    (hR : fin = true → conflict = true → s.conflicts id = true → .reset id (s.isRetired id) ∈ A)
    (h : s.onStreamFrame id fin conflict rs = some t) : Moves A s t := by
  unfold onStreamFrame at h
  split at h
  · cases h
  next hn =>
  rw [not_or] at hn
  split at h
  · cases h
  · next s' hg =>
    cases h
    have hm : Moves A s s' := moves_getOrCreateStream hn.1 hlt hA hg
    refine hm.trans (moves_streamOnStreamFrame (hm.sound hs) id fin conflict rs fun hf hc hcs => ?_)
    obtain rfl := conflicts_getOrCreateStream hn.1 hlt hg hcs
    exact hR hf hc hcs
  · next s' hg =>
    cases h
    have hm : Moves A s s' := moves_getOrCreateStream hn.1 hlt hA hg
    split
    · exact hm.trans (Move.final id).moves
    · exact hm

theorem moves_onStreamReset (hs : s.Sound) (id : ℕ) (error : Bool) :
    Moves A s (s.onStreamReset id error) := by
  unfold onStreamReset
  split
  · exact .refl
  · next st hst =>
    exact ((moves_received hs hst _ true error).trans (moves_closeWriteSide id)).trans
      (moves_closeReadSide id)

theorem moves_onRstStream (hs : s.Sound) {error : Bool} (hlt : id < 2 ^ 32)
    (hA : s.admits id = true → .create id ∈ A) (h : s.onRstStream id error = some t) :
    Moves A s t := by
  unfold onRstStream at h
  split at h
  · cases h
  next hn =>
  rw [not_or] at hn
  split at h
  · cases h
  · next s' hg =>
    cases h
    have hm : Moves A s s' := moves_getOrCreateDynamicStream hn.1 hn.2 hlt hA hg
    exact hm.trans (moves_onStreamReset (hm.sound hs) id error)
  · next s' hg =>
    cases h
    have hm : Moves A s s' := moves_getOrCreateDynamicStream hn.1 hn.2 hlt hA hg
    split
    · exact hm.trans (Move.final id).moves
    · exact hm

theorem idle_of_flow {f : FlowController} (h : st.send.Idle) :
    ({ st.send with flow := f } : SendStream).Idle :=
  ⟨h.unsent, h.bytesOutstanding, h.finOutstanding⟩

theorem moves_streamOnWindowUpdate (hs : s.Sound) (id offset : ℕ) :
    Moves A s (s.streamOnWindowUpdate id offset) := by
  unfold streamOnWindowUpdate
  split
  · exact .refl
  next st hst =>
  have h : Moves A s (s.setStream id { st with
      send := { st.send with flow := (st.send.flow.updateSendWindowOffset offset).1 } }) :=
    moves_setStream hs hst rfl fun hi => .inl (idle_of_flow hi)
  dsimp only
  split
  · exact h.trans (moves_streamOnCanWrite (h.sound hs) id)
  · exact h

theorem moves_onWindowUpdateFrame (hs : s.Sound) (hlt : id < 2 ^ 32)
    (hA : s.admits id = true → .create id ∈ A) (h : s.onWindowUpdateFrame id offset = some t) :
    Moves A s t := by
  unfold onWindowUpdateFrame at h
  split at h
  · cases h; exact moves_of_same rfl rfl rfl
  next hn =>
  split at h
  · cases h
  · next s' hg =>
    cases h
    have hm : Moves A s s' := moves_getOrCreateStream hn hlt hA hg
    exact hm.trans (moves_streamOnWindowUpdate (hm.sound hs) id offset)
  · next s' hg =>
    cases h
    exact moves_getOrCreateStream hn hlt hA hg

/-! ## Acknowledgements and losses -/

theorem moves_keeps (hs : s.Sound) (hst : s.getStream id = some st)
    (hk : st.send.Keeps send) : Moves A s (s.setStream id { st with send := send }) :=
  moves_setStream hs hst hk.writeSideClosed fun hi => .inl (hi.keeps hk)

theorem moves_onStreamFrameAcked (hs : s.Sound)
    (h : s.onStreamFrameAcked id length fin = some t) : Moves A s t := by
  unfold onStreamFrameAcked at h
  split at h
  · cases h; exact .refl
  next st hst =>
  split at h
  · cases h
  next send hk =>
  cases h
  have hm : Moves A s (s.setStream id { st with send := send }) :=
    moves_keeps hs hst (SendStream.keeps_acked hk)
  have hm' : Moves A s (if ({ st with send := send } : Stream).isWaitingForAcks then
      s.setStream id { st with send := send }
      else (s.setStream id { st with send := send }).onStreamDoneWaitingForAcks id) := by
    split
    · exact hm
    · exact hm.trans (Move.done id).moves
  split
  · exact hm'
  · exact hm'.trans (moves_of_same rfl rfl rfl)

theorem moves_onStreamFrameLost (hs : s.Sound) (id offset length : ℕ) (fin : Bool) :
    Moves A s (s.onStreamFrameLost id offset length fin) := by
  unfold onStreamFrameLost
  split
  · exact .refl
  next st hst =>
  have hm := moves_keeps (A := A) hs hst (st.send.keeps_lost offset length fin)
  dsimp only
  split
  · exact hm.trans (moves_of_same rfl rfl rfl)
  · exact hm

theorem moves_onStreamFrameRetransmitted (hs : s.Sound)
    (h : s.onStreamFrameRetransmitted id offset length fin = some t) : Moves A s t := by
  unfold onStreamFrameRetransmitted at h
  split at h
  · cases h
  · next st hst =>
    cases h
    exact moves_keeps hs hst (st.send.keeps_retransmitted offset length fin)

/-! ## The end of the connection -/

theorem moves_closeForConnection (hs : s.Sound) (error : Bool) (id : ℕ) :
    Moves A s (closeForConnection error s id) := by
  unfold closeForConnection
  split
  · exact .refl
  next st hst =>
  have h : Moves A s (s.setOpen id { st with error := st.error || error }) := moves_received hs hst _ _ _
  have hs₁ := h.sound hs
  exact ((h.trans (moves_closeWriteSide id)).trans (moves_closeReadSide id)).trans
    (moves_closeStream_of_closed (hs.ne_crypto hst) (not_isDynamic_closeBoth hs₁))

theorem moves_onConnectionClosed (hs : s.Sound) (error : Bool) :
    Moves A s (s.onConnectionClosed error) := by
  have h : Moves A s { s with connected := false } := moves_of_same rfl rfl rfl
  have h' := h.trans (moves_foldl (l := s.dynamicStreams.keys)
    (fun id _ _ hs => moves_closeForConnection hs error id) (h.sound hs))
  exact h'.trans Move.flush.moves

/-! ## Events -/

/-- The event is a local reset of the open stream `id`. -/
def resets (s : Session) : SessionAct → ℕ → Prop
  | .streamFrame k fin conflict _, id =>
    id = k ∧ fin = true ∧ conflict = true ∧ s.conflicts k = true
  | .reset h, id => id = h.id ∧ s.isDynamic h.id = true
  | .cancelStream k, id => id = k ∧ s.isDynamic k = true
  | _, _ => False

/-- The event is a frame that makes the session create the stream `id`. -/
def creates (s : Session) : SessionAct → ℕ → Prop
  | .streamFrame k _ _ _, id => id = k ∧ s.admits k = true
  | .rstStream k _, id => id = k ∧ s.admits k = true
  | .windowUpdate k _ _, id => id = k ∧ s.admits k = true
  | _, _ => False

/-- The event is a call of `CreateStream` that the limit of open streams does not stop. -/
def draws (s : Session) : SessionAct → Prop
  | .createStream _ => s.getNumOpenOutgoingStreams < s.maxOpenOutgoingStreams
  | _ => False

/-- The labels an event can have. -/
def labels (s : Session) (a : SessionAct) : Set Label
  | .inner => True
  | .reset id retired => s.resets a id ∧ retired = s.isRetired id
  | .create id => s.creates a id
  | .draw => s.draws a
  | .encryption => ∃ established env, a = .encryption established env
  | .handshake => a = .handshake
  | .postProcess => a = .postProcess

theorem moves_withEnv (env : SessionEnv) : Moves A s (s.withEnv env) := moves_of_same rfl rfl rfl

/-- **An event is a sequence of moves.** -/
theorem step_moves (hs : s.Sound) (h : s.step a = some t) : Moves (s.labels a) s t := by
  unfold step at h
  split at h
  swap
  · cases h
  cases a with
  | streamFrame id fin conflict rs =>
    dsimp only at h
    split at h
    · next hlt =>
      exact moves_onStreamFrame hs hlt (fun ha => ⟨rfl, ha⟩)
        (fun hf hc hcs => ⟨⟨rfl, hf, hc, hcs⟩, rfl⟩) h
    · cases h
  | rstStream id error =>
    dsimp only at h
    split at h
    · next hlt => exact moves_onRstStream hs hlt (fun ha => ⟨rfl, ha⟩) h
    · cases h
  | windowUpdate id offset env =>
    dsimp only at h
    split at h
    · next hlt =>
      have hm : Moves (s.labels (.windowUpdate id offset env)) s (s.withEnv env) := moves_withEnv env
      exact hm.trans (moves_onWindowUpdateFrame (hm.sound hs) hlt (fun ha => ⟨rfl, ha⟩) h)
    · cases h
  | acked id length fin => exact moves_onStreamFrameAcked hs h
  | lost id offset length fin => cases h; exact moves_onStreamFrameLost hs id offset length fin
  | retransmitted id offset length fin => exact moves_onStreamFrameRetransmitted hs h
  | canWrite env =>
    have hm : Moves (s.labels (.canWrite env)) s (s.withEnv env) := moves_withEnv env
    exact hm.trans (moves_onCanWrite (hm.sound hs) h)
  | write w env =>
    cases h
    have hm : Moves (s.labels (.write w env)) s (s.withEnv env) := moves_withEnv env
    exact hm.trans (moves_writeOrBufferData (hm.sound hs) w)
  | finRead hd =>
    dsimp only at h
    split at h
    · cases h; exact moves_onFinRead hs hd.id
    · cases h
  | reset hd =>
    dsimp only at h
    split at h
    · cases h; exact moves_resetOpen hd.id fun hdyn => ⟨⟨rfl, hdyn⟩, rfl⟩
    · cases h
  | createStream priority =>
    cases h
    unfold createStream
    split
    · exact .refl
    · next hlim => exact (Move.draw priority).movesOf (Nat.lt_of_not_le hlim)
  | cancelStream id => cases h; exact moves_cancelStream id fun hd => ⟨⟨rfl, hd⟩, rfl⟩
  | postProcess => cases h; exact Move.postProcess.movesOf rfl
  | encryption established env =>
    dsimp only at h
    split at h
    · cases h
    next hn =>
    simp only [Bool.or_eq_true, not_or, Bool.not_eq_true] at hn
    split at h
    · have hm : Moves (s.labels (.encryption established env)) s { s with established := true } :=
        (Move.encryption true hn.1 hn.2).movesOf ⟨_, _, rfl⟩
      have hm' := hm.trans (moves_withEnv env)
      exact hm'.trans (moves_onCanWrite (hm'.sound hs) h)
    · cases h; exact (Move.encryption false hn.1 hn.2).movesOf ⟨_, _, rfl⟩
  | handshake =>
    dsimp only at h
    split at h
    · cases h
    next hn =>
    rw [not_or, Bool.not_eq_true] at hn
    cases h
    refine (Move.handshake hn.1 fun hsv => ?_).movesOf rfl
    simpa using fun he => hn.2 ⟨hsv, he⟩
  | config maxIncoming maxOutgoing window => cases h; exact moves_of_same rfl rfl rfl
  | close error => cases h; exact moves_onConnectionClosed hs error

theorem step_sound (hs : s.Sound) (h : s.step a = some t) : t.Sound := (step_moves hs h).sound hs

end Session
end Puic
