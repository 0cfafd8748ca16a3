/-
  What the functions of the relay do.

  Everything that only tears something down is described once, by `Evolves`: it
  may stop the job, close the stream and start closing the TCP connection, but it
  neither passes data on nor reports the end of the stream, and as long as the
  read side stays open the sequencer is untouched.  The functions that move data
  have a lemma each.
-/
import Puic.BufferRead
import Puic.Relay

namespace Puic

open GapList SequencerBuffer

/-- Events that say nothing about the data. -/
def RelayEvent.Quiet : RelayEvent → Prop
  | .op _ | .closing => True
  | _ => False

theorem quiet_ops (l : List BlockOp) :
    ∀ e ∈ (l.map RelayEvent.op).reverse, e.Quiet := by simp [RelayEvent.Quiet]

namespace Relay

variable {s s' s'' : Relay} {env : Env}

abbrev buf (s : Relay) : SequencerBuffer := s.seq.bufferedFrames

/-- A job that is gone stays gone, and a stream that is reset stays reset. -/
structure Later (s s' : Relay) : Prop where
  running : s'.running = true → s.running = true
  reset : s.reset = true → s'.reset = true

theorem Later.refl (s : Relay) : Later s s := ⟨id, id⟩

theorem Later.trans (h : Later s s') (h' : Later s' s'') : Later s s'' :=
  ⟨h.running ∘ h'.running, h'.reset ∘ h.reset⟩

theorem Later.stopped (h : Later s s') : s.running = false → s'.running = false := by
  simpa using mt h.running

theorem Later.of_eq {s0 : Relay} (h : Later s0 s') (hr : s0.running = s.running)
    (hx : s0.reset = s.reset) : Later s s' := ⟨hr ▸ h.running, hx ▸ h.reset⟩

/-- No data is passed on, and the TCP connection is closed at most, by a job that stops. -/
structure Tame (s s' : Relay) : Prop extends Later s s' where
  tcp : s'.tcp = s.tcp ∨ s'.running = false ∧ s'.tcp = { s.tcp with closing := true }
  trace : ∃ new, s'.trace = new ++ s.trace ∧ ∀ e ∈ new, e.Quiet

theorem Tame.refl (s : Relay) : Tame s s := ⟨.refl s, .inl rfl, ⟨[], rfl, by simp⟩⟩

theorem Tame.trans (h : Tame s s') (h' : Tame s' s'') : Tame s s'' where
  toLater := h.toLater.trans h'.toLater
  tcp := by
    rcases h.tcp with ht | ⟨hr, ht⟩ <;> rcases h'.tcp with ht' | ⟨hr', ht'⟩
    · exact .inl (ht'.trans ht)
    · exact .inr ⟨hr', by rw [ht', ht]⟩
    · exact .inr ⟨h'.stopped hr, by rw [ht', ht]⟩
    · exact .inr ⟨hr', by rw [ht', ht]⟩
  trace := by
    obtain ⟨l, hl, hq⟩ := h.trace
    obtain ⟨l', hl', hq'⟩ := h'.trace
    refine ⟨l' ++ l, by rw [hl', hl, List.append_assoc], fun e he => ?_⟩
    exact (List.mem_append.1 he).elim (hq' e) (hq e)

theorem tame_setSeq (s : Relay) (q : Sequencer) : Tame s (s.setSeq q) :=
  ⟨⟨id, id⟩, .inl rfl, ⟨_, rfl, quiet_ops _⟩⟩

/-- As long as the read side stays open the sequencer is untouched, and it is only closed when the
    stream is, or its data is no longer wanted. -/
structure Evolves (s s' : Relay) : Prop extends Tame s s' where
  readOpen : s'.readSideClosed = false → s.readSideClosed = false ∧ s'.closed = s.closed ∧ s'.seq = s.seq
  closed : s.closed = true → s'.closed = true
  ignore : s.seq.ignoreReadData = true → s'.seq.ignoreReadData = true
  ended : s'.readSideClosed = true → s.readSideClosed = true ∨ s'.seq.ignoreReadData = true ∨
    s'.closed = true

theorem Evolves.refl (s : Relay) : Evolves s s where
  toTame := .refl s
  readOpen h := ⟨h, rfl, rfl⟩
  closed := id
  ignore := id
  ended h := .inl h

theorem Evolves.trans (h : Evolves s s') (h' : Evolves s' s'') : Evolves s s'' where
  toTame := h.toTame.trans h'.toTame
  readOpen ho := by
    obtain ⟨h1, h2, h3⟩ := h'.readOpen ho
    obtain ⟨h4, h5, h6⟩ := h.readOpen h1
    exact ⟨h4, h2.trans h5, h3.trans h6⟩
  closed := h'.closed ∘ h.closed
  ignore := h'.ignore ∘ h.ignore
  ended hc := by
    rcases h'.ended hc with h1 | h1
    · rcases h.ended h1 with h2 | h2 | h2
      · exact .inl h2
      · exact .inr (.inl (h'.ignore h2))
      · exact .inr (.inr (h'.closed h2))
    · exact .inr h1

theorem evolves_setSeq (q : Sequencer) (hr : s.readSideClosed = true)
    (hi : s.seq.ignoreReadData = true → q.ignoreReadData = true) : Evolves s (s.setSeq q) where
  toTame := tame_setSeq s q
  readOpen h := by
    have h : s.readSideClosed = false := h
    rw [hr] at h
    cases h
  closed := id
  ignore := hi
  ended _ := .inl hr

@[simp] theorem releaseRead_fields (s : Relay) :
    s.releaseRead.running = s.running ∧ s.releaseRead.closed = s.closed ∧
    s.releaseRead.connected = s.connected ∧ s.releaseRead.seq.ignoreReadData = s.seq.ignoreReadData := by
  unfold releaseRead
  split <;> exact ⟨rfl, rfl, rfl, rfl⟩

@[simp] theorem releaseRead_readSideClosed (s : Relay) : s.releaseRead.readSideClosed = true := by
  unfold releaseRead
  split
  · assumption
  · rfl

theorem tame_releaseRead (s : Relay) : Tame s s.releaseRead := by
  unfold releaseRead
  split
  · exact .refl s
  · exact ⟨⟨id, id⟩, .inl rfl, ⟨_, rfl, quiet_ops _⟩⟩

/-- Releasing the buffer, when the stream is closed with it or its data is no longer wanted. -/
theorem evolves_releaseRead (h : s.seq.ignoreReadData = true ∨ s.closed = true) :
    Evolves s s.releaseRead where
  toTame := tame_releaseRead s
  readOpen h0 := absurd h0 (by simp)
  closed := by simp
  ignore := by simp
  ended _ := .inr (by simpa using h)

theorem closeStream_closed (s : Relay) : s.closeStream.closed = true := by
  unfold closeStream
  split
  · assumption
  · exact (releaseRead_fields _).2.1

@[simp] theorem closeStream_fields (s : Relay) :
    s.closeStream.running = s.running ∧ s.closeStream.connected = s.connected := by
  unfold closeStream
  split <;> simp

theorem closeStream_readSideClosed (h : s.closed = false ∨ s.readSideClosed = true) :
    s.closeStream.readSideClosed = true := by
  unfold closeStream
  split
  · next hc => exact h.resolve_left (by simp [hc])
  · exact releaseRead_readSideClosed _

theorem evolves_closeStream (s : Relay) : Evolves s s.closeStream := by
  have hcl := closeStream_closed s
  unfold closeStream at hcl ⊢
  split
  · exact .refl s
  · next hc =>
    rw [if_neg hc] at hcl
    have hrel := evolves_releaseRead (s := { s with closed := true }) (.inr rfl)
    exact ⟨⟨⟨hrel.running, hrel.reset⟩, hrel.tcp, hrel.trace⟩,
      fun h0 => absurd h0 (by simp), fun _ => hcl, hrel.ignore, hrel.ended⟩

theorem closeReadSide_readSideClosed (s : Relay) : s.closeReadSide.readSideClosed = true := by
  unfold closeReadSide
  split
  · assumption
  split
  · exact closeStream_readSideClosed (.inr (releaseRead_readSideClosed s))
  · exact releaseRead_readSideClosed s

@[simp] theorem closeReadSide_fields (s : Relay) :
    s.closeReadSide.running = s.running ∧ s.closeReadSide.connected = s.connected := by
  unfold closeReadSide
  split_ifs <;> simp

theorem tame_closeReadSide (s : Relay) : Tame s s.closeReadSide := by
  unfold closeReadSide
  split
  · exact .refl s
  split
  · exact (tame_releaseRead s).trans (evolves_closeStream _).toTame
  · exact tame_releaseRead s

/-- The read side of a stream that still writes is only closed at the end of the data. -/
theorem evolves_closeReadSide (h : s.seq.ignoreReadData = true ∨ s.writeSideClosed = true) :
    Evolves s s.closeReadSide := by
  by_cases hr : s.readSideClosed = true
  · rw [closeReadSide, if_pos hr]
    exact .refl s
  by_cases hw : s.writeSideClosed = true
  · have hread := closeReadSide_readSideClosed s
    have htame := tame_closeReadSide s
    have hc := evolves_closeStream s.releaseRead
    have hcl := closeStream_closed s.releaseRead
    rw [closeReadSide, if_neg hr, if_pos hw] at hread htame ⊢
    exact ⟨htame, fun h0 => absurd h0 (by simp [hread]), fun _ => hcl,
      fun hi => hc.ignore (by simpa using hi), fun _ => .inr (.inr hcl)⟩
  · rw [closeReadSide, if_neg hr, if_neg hw]
    exact evolves_releaseRead (.inl (h.resolve_right hw))

/-- A flag that only the write side, the connection or the job looks at. -/
theorem Evolves.flags (w c r x : Bool) (hr : r = true → s.running = true)
    (hx : s.reset = true → x = true) :
    Evolves s { s with writeSideClosed := w, connected := c, running := r, reset := x } :=
  ⟨⟨⟨hr, hx⟩, .inl rfl, ⟨[], rfl, by simp⟩⟩, fun h => ⟨h, rfl, rfl⟩, id, id, .inl⟩

theorem evolves_closeWriteSide (s : Relay) : Evolves s s.closeWriteSide := by
  unfold closeWriteSide
  have hflag := Evolves.flags true s.connected s.running s.reset id id
  split
  · exact .refl s
  split
  · exact hflag.trans (evolves_closeStream _)
  · exact hflag

@[simp] theorem closeWriteSide_running (s : Relay) : s.closeWriteSide.running = s.running := by
  unfold closeWriteSide
  split_ifs <;> simp

theorem closeWriteSide_writeSideClosed (s : Relay) : s.closeWriteSide.writeSideClosed = true := by
  unfold closeWriteSide
  split
  · assumption
  split
  · unfold closeStream
    split <;> rfl
  · rfl

theorem evolves_closeBoth (s : Relay) : Evolves s s.closeWriteSide.closeReadSide :=
  (evolves_closeWriteSide s).trans (evolves_closeReadSide (.inr (closeWriteSide_writeSideClosed s)))

theorem evolves_dropConn (s : Relay) : Evolves s s.dropConn := by
  unfold dropConn
  have hflag := Evolves.flags s.writeSideClosed false s.running s.reset id id
  split
  · split
    · exact hflag
    · exact hflag.trans (evolves_closeBoth _)
  · exact .refl s

theorem dropConn_running (s : Relay) : s.dropConn.running = s.running := by
  unfold dropConn
  split_ifs <;> simp

theorem uvClose_closing (s : Relay) : s.uvClose.tcp.closing = true := by
  unfold uvClose
  split
  · assumption
  · rfl

theorem Tame.closing (h : Tame s s') (hc : s.tcp.closing = true) : s'.tcp.closing = true := by
  rcases h.tcp with ht | ⟨-, ht⟩
  · rw [ht]; exact hc
  · rw [ht]

theorem evolves_uvClose (h : s.running = false) : Evolves s s.uvClose := by
  unfold uvClose
  split
  · exact .refl s
  · exact ⟨⟨⟨id, id⟩, .inr ⟨h, rfl⟩, ⟨[.closing], rfl, by simp [RelayEvent.Quiet]⟩⟩,
      fun h => ⟨h, rfl, rfl⟩, id, id, .inl⟩

theorem evolves_clean (s : Relay) : Evolves s s.clean ∧ s.clean.running = false := by
  unfold clean
  split
  · have hstop := Evolves.flags s.writeSideClosed s.connected false s.reset (by simp) id
    split
    · have h1 := evolves_uvClose (s := { s with running := false }) rfl
      have h2 := evolves_dropConn ({ s with running := false } : Relay).uvClose
      exact ⟨hstop.trans (h1.trans h2), h2.stopped (h1.stopped rfl)⟩
    · have h1 := evolves_dropConn { s with running := false }
      have h2 := evolves_uvClose (h1.stopped rfl)
      exact ⟨hstop.trans (h1.trans h2), h2.stopped (h1.stopped rfl)⟩
  · next hr => exact ⟨.refl s, by simpa using hr⟩

theorem clean_closing (h : s.running = true) : s.clean.tcp.closing = true := by
  rw [clean, if_pos h]
  split
  · exact (evolves_dropConn _).closing (uvClose_closing _)
  · exact uvClose_closing _

theorem evolves_closeConnection (s : Relay) : Evolves s s.closeConnection := by
  unfold closeConnection
  split
  · exact (evolves_dropConn s).trans (evolves_clean _).1
  · exact .refl s

theorem closeConnection_running (h : s.connected = true) : s.closeConnection.running = false := by
  rw [closeConnection, if_pos h]
  exact (evolves_clean _).2

theorem closeConnection_closing (h : s.connected = true) (hr : s.running = true) :
    s.closeConnection.tcp.closing = true := by
  rw [closeConnection, if_pos h]
  exact clean_closing ((dropConn_running s).trans hr)

theorem evolves_sendFrame (s : Relay) (err : Bool) : Evolves s (s.sendFrame err) := by
  unfold sendFrame
  split
  · exact evolves_closeConnection s
  · exact .refl s

/-- The job survives the sending of a frame only if nothing happened. -/
theorem sendFrame_running {err : Bool} (hr : (s.sendFrame err).running = true) : s.sendFrame err = s := by
  unfold sendFrame at hr ⊢
  split
  · next he =>
    rw [if_pos he] at hr
    by_cases hc : s.connected = true
    · rw [closeConnection_running hc] at hr
      cases hr
    · rw [closeConnection, if_neg hc]
  · rfl

theorem evolves_setReset (s : Relay) : Evolves s { s with reset := true } :=
  Evolves.flags s.writeSideClosed s.connected s.running true id fun _ => rfl

theorem evolves_resetStream (s : Relay) (env : Env) : Evolves s (s.resetStream env) :=
  (evolves_setReset s).trans ((evolves_sendFrame _ _).trans (evolves_closeStream _))

theorem resetStream_closed (s : Relay) (env : Env) : (s.resetStream env).closed = true :=
  closeStream_closed _

theorem evolves_onStreamReset (s : Relay) (viol : Bool) : Evolves s (s.onStreamReset viol) := by
  unfold onStreamReset
  split
  · exact (evolves_setReset s).trans (evolves_closeConnection _)
  · exact (evolves_setReset s).trans (evolves_closeBoth _)

/-! ## The end of the stream -/

/-- If the read side is closed in the end, it does not matter what was done to the sequencer. -/
theorem Evolves.of_seq {q : Sequencer} {l : List RelayEvent}
    (h : Evolves { s with seq := q, trace := l ++ s.trace } s') (hl : ∀ e ∈ l, e.Quiet)
    (hr : s'.readSideClosed = true) (hi : s.seq.ignoreReadData = true → q.ignoreReadData = true) :
    Evolves s s' where
  running := h.running
  reset := h.reset
  tcp := h.tcp
  trace := by
    obtain ⟨l', hl', hq⟩ := h.trace
    exact ⟨l' ++ l, by rw [hl', List.append_assoc], fun e he => (List.mem_append.1 he).elim (hq e) (hl e)⟩
  readOpen h' := by rw [hr] at h'; cases h'
  closed := h.closed
  ignore h' := h.ignore (hi h')
  ended := h.ended

theorem evolves_maybeFinRead (h : s.seq.ignoreReadData = true) : Evolves s s.maybeFinRead := by
  unfold maybeFinRead
  split
  · exact (evolves_closeReadSide (.inl h)).trans (evolves_setSeq _ (closeReadSide_readSideClosed s) id)
  · exact .refl s

theorem maybeFinRead_readSideClosed (h : s.seq.isClosed = true) :
    s.maybeFinRead.readSideClosed = true := by
  rw [maybeFinRead, if_pos h]
  exact closeReadSide_readSideClosed s

theorem maybeFinRead_fields (s : Relay) :
    s.maybeFinRead.running = s.running ∧ s.maybeFinRead.connected = s.connected := by
  unfold maybeFinRead
  split
  · exact closeReadSide_fields s
  · exact ⟨rfl, rfl⟩

theorem flush_isClosed (h : s.seq.closeOffset ≤ s.buf.lastGap) :
    (s.setSeq s.seq.flush).seq.isClosed = true := by
  have ht : (s.setSeq s.seq.flush).buf.totalBytesRead = s.buf.lastGap := clear_total _
  rw [Sequencer.isClosed, ht]
  exact decide_eq_true h

/-- Flushing a stream that is read to its end closes the read side. -/
theorem flushBufferedFrames_readSideClosed (env : Env)
    (h : s.readSideClosed = true ∨ s.seq.closeOffset ≤ s.buf.lastGap) (hi : s.seq.ignoreReadData = true) :
    (s.flushBufferedFrames env).readSideClosed = true := by
  by_contra hopen
  have hsend := evolves_sendFrame (s.setSeq s.seq.flush) env.flushErr
  have hfin := evolves_maybeFinRead (hsend.ignore hi)
  -- with the read side still open the sequencer is as the flush left it: at its end
  obtain ⟨hr2, -, -⟩ := hfin.readOpen (by simpa [flushBufferedFrames] using hopen)
  obtain ⟨hr1, -, hseq⟩ := hsend.readOpen hr2
  rcases h with h | h
  · rw [show (s.setSeq s.seq.flush).readSideClosed = s.readSideClosed from rfl, h] at hr1
    cases hr1
  · exact hopen (maybeFinRead_readSideClosed (by rw [hseq]; exact flush_isClosed h))

theorem evolves_flushBufferedFrames (env : Env) (hi : s.seq.ignoreReadData = true)
    (h : s.readSideClosed = true ∨ s.seq.closeOffset ≤ s.buf.lastGap) :
    Evolves s (s.flushBufferedFrames env) := by
  have hsend := evolves_sendFrame (s.setSeq s.seq.flush) env.flushErr
  have hafter := hsend.trans (evolves_maybeFinRead (hsend.ignore hi))
  exact Evolves.of_seq hafter (quiet_ops _) (flushBufferedFrames_readSideClosed env h hi) fun _ => hi

theorem stopReading_readSideClosed (env : Env) (hi : s.seq.ignoreReadData = false)
    (h : s.seq.closeOffset ≤ s.buf.lastGap) : (s.stopReading env).readSideClosed = true := by
  rw [stopReading, if_neg (by simp [hi])]
  exact flushBufferedFrames_readSideClosed env (.inr h) rfl

theorem evolves_stopReading (env : Env) (hi : s.seq.ignoreReadData = false)
    (h : s.seq.closeOffset ≤ s.buf.lastGap) : Evolves s (s.stopReading env) := by
  have hr := stopReading_readSideClosed env hi h
  rw [stopReading, if_neg (by simp [hi])] at hr ⊢
  have he := evolves_flushBufferedFrames
    (s := { s with seq := { s.seq with ignoreReadData := true } }) env rfl (.inr h)
  exact Evolves.of_seq (l := []) he (by simp) hr fun _ => rfl

theorem stopReading_stopped {env : Env} (hi : s.seq.ignoreReadData = false)
    (hc : s.connected = true) (he : env.flushErr = true) : (s.stopReading env).running = false := by
  rw [stopReading, if_neg (by simp [hi]), flushBufferedFrames, (maybeFinRead_fields _).1, sendFrame,
    if_pos he]
  exact closeConnection_running hc

theorem stopReading_connected {env : Env} (hr : (s.stopReading env).running = true) :
    (s.stopReading env).connected = s.connected := by
  unfold stopReading at hr ⊢
  split
  · rfl
  · next hi =>
    rw [if_neg hi, flushBufferedFrames, (maybeFinRead_fields _).1] at hr
    rw [flushBufferedFrames, (maybeFinRead_fields _).2, sendFrame_running hr]
    rfl

theorem releaseRead_total (s : Relay) : s.releaseRead.buf.totalBytesRead = s.buf.totalBytesRead := by
  unfold releaseRead
  split
  · rfl
  · exact clear_total s.buf

theorem closeStream_total (s : Relay) : s.closeStream.buf.totalBytesRead = s.buf.totalBytesRead := by
  unfold closeStream
  split
  · rfl
  · exact releaseRead_total _

theorem closeReadSide_total (s : Relay) : s.closeReadSide.buf.totalBytesRead = s.buf.totalBytesRead := by
  unfold closeReadSide
  split
  · rfl
  split
  · exact (closeStream_total _).trans (releaseRead_total s)
  · exact releaseRead_total s

/-- If the job survives the end of the stream, the buffer is empty and everything below the last
    gap counts as consumed. -/
theorem stopReading_running (env : Env) (hi : s.seq.ignoreReadData = false)
    (h : s.seq.closeOffset ≤ s.buf.lastGap) (hr : (s.stopReading env).running = true) :
    (s.stopReading env).buf.totalBytesRead = s.buf.lastGap ∧
      (s.stopReading env).buf.gaps = [⟨s.buf.lastGap, maxOffset⟩] := by
  rw [stopReading, if_neg (by simp [hi]), flushBufferedFrames] at hr ⊢
  rw [(maybeFinRead_fields _).1] at hr
  rw [sendFrame_running hr]
  generalize hs0 : ({ s with seq := { s.seq with ignoreReadData := true } } : Relay) = s0
  have hlast : s0.buf.lastGap = s.buf.lastGap := by subst hs0; rfl
  have hcl : (s0.setSeq s0.seq.flush).seq.isClosed = true := flush_isClosed (by subst hs0; exact h)
  have htot : (s0.setSeq s0.seq.flush).buf.totalBytesRead = s.buf.lastGap := (clear_total _).trans hlast
  generalize s0.setSeq s0.seq.flush = s1 at hcl htot ⊢
  have ht : s1.closeReadSide.buf.totalBytesRead = s.buf.lastGap := (closeReadSide_total s1).trans htot
  rw [maybeFinRead, if_pos hcl]
  refine ⟨(clear_total _).trans ht, ?_⟩
  show [(⟨s1.closeReadSide.buf.totalBytesRead, maxOffset⟩ : Gap)] = _
  rw [ht]

/-! ## Moving data -/

/-- The TCP connection is in use, and whether it is writing. -/
structure Using (t : TCPConn) (writing : Bool) : Prop where
  writing : t.writing = writing
  notClosing : t.closing = false
  notEof : t.writeof = false
  notShutting : t.shutting = false

theorem getReadableRegions_eq_nil {b : SequencerBuffer} {count : ℕ} (h : b.readableBytes = 0) :
    b.getReadableRegions count = [] := by rw [getReadableRegions, if_pos h]

/-- What `may_puic_to_tcp` can do: nothing, pass regions on, or report the end of the stream. -/
theorem mayPuicToTcp_forms (s : Relay) (env : Env) :
    s.mayPuicToTcp env = s ∨
      (s.tcp.writing = false ∧ ∃ regs, regs ≠ [] ∧ s.mayPuicToTcp env = s.write env regs) ∨
      (s.tcp.writing = false ∧ s.buf.getReadableRegions 4 = [] ∧ s.seq.isClosed = true ∧
        s.mayPuicToTcp env =
          if (s.stopReading env).running then ((s.stopReading env).log .eof).shutdown
          else s.stopReading env) := by
  unfold mayPuicToTcp connReadableRegions
  split
  · exact .inl rfl
  next hw =>
  have hw : s.tcp.writing = false := by simpa using hw
  by_cases hend : s.buf.getReadableRegions 4 = [] ∧ s.seq.isClosed = true
  · rw [if_pos hend]
    exact .inr (.inr ⟨hw, hend.1, hend.2, by simp⟩)
  · rw [if_neg hend]
    by_cases hne : s.buf.getReadableRegions 4 = []
    · exact .inl (by simp [hne])
    · cases hr : s.running
      · exact .inl (by simp [hr])
      · exact .inr (.inl ⟨hw, _, hne, by simp [hr, hne]⟩)

/-- `may_puic_to_tcp` passes on what can be read; else it looks for the end of the stream. -/
theorem mayPuicToTcp_cases (env : Env) (hwf : WF s.buf) (hr : s.running = true)
    (hw : s.tcp.writing = false) :
    (0 < s.buf.readableBytes ∧ ∃ regs o', regs ≠ [] ∧ o' ≤ s.buf.firstGap ∧
        Covers s.buf.cap s.buf.totalBytesRead regs o' ∧ s.mayPuicToTcp env = s.write env regs) ∨
      (s.buf.readableBytes = 0 ∧ s.seq.isClosed = false ∧ s.mayPuicToTcp env = s) ∨
      (s.buf.readableBytes = 0 ∧ s.seq.isClosed = true ∧ s.mayPuicToTcp env =
        if (s.stopReading env).running then ((s.stopReading env).log .eof).shutdown
        else s.stopReading env) := by
  unfold mayPuicToTcp connReadableRegions
  rw [if_neg (by simp [hw])]
  rcases Nat.eq_zero_or_pos s.buf.readableBytes with h0 | hpos
  · refine .inr ?_
    rw [getReadableRegions_eq_nil h0]
    cases hc : s.seq.isClosed
    · exact .inl ⟨h0, rfl, by simp [hr]⟩
    · exact .inr ⟨h0, rfl, by simp⟩
  · obtain ⟨hne, o', ho', hcov, -⟩ := getReadableRegions_covers 4 hwf hpos
    exact .inl ⟨hpos, _, o', hne, ho', hcov, by simp [hne, hr]⟩

/-- `Write` of a connection in use: the regions are with libuv. -/
theorem write_accepted {regs : List Region} (hw : s.tcp.writing = false) (he : s.tcp.writeof = false)
    (hlen : (regs.map Region.len).sum ≠ 0) (hu : env.uvErr = false) :
    s.write env regs =
      { s with
        tcp := { s.tcp with
          writing := true, uvWrites := s.tcp.uvWrites ++ [(regs, (regs.map Region.len).sum)] }
        trace := .pass regs (regs.flatMap s.buf.readRegion) :: s.trace } := by
  simp [write, uvWrite, log, hw, he, hlen, hu]

theorem notify_reading (h : s.seq.ignoreReadData = false) (env : Env) (offset : ℕ) :
    s.notify env offset =
      if offset = s.buf.totalBytesRead then s.onDataAvailable env else s := by
  simp [notify, h]

/-! ## What never comes back -/

theorem tame_flushBufferedFrames (s : Relay) (env : Env) : Tame s (s.flushBufferedFrames env) := by
  have h := (tame_setSeq s s.seq.flush).trans (evolves_sendFrame _ env.flushErr).toTame
  unfold flushBufferedFrames maybeFinRead
  split
  · exact (h.trans (tame_closeReadSide _)).trans (tame_setSeq _ _)
  · exact h

theorem tame_stopReading (s : Relay) (env : Env) : Tame s (s.stopReading env) := by
  unfold stopReading
  split
  · exact .refl s
  · have h := tame_flushBufferedFrames { s with seq := { s.seq with ignoreReadData := true } } env
    exact ⟨⟨h.running, h.reset⟩, h.tcp, h.trace⟩

theorem later_write (s : Relay) (env : Env) (regs : List Region) : Later s (s.write env regs) := by
  unfold write uvWrite
  split
  · exact ⟨id, id⟩
  split
  · exact (evolves_clean _).1.toLater.of_eq rfl rfl
  · exact ⟨id, id⟩

theorem later_mayPuicToTcp (s : Relay) (env : Env) : Later s (s.mayPuicToTcp env) := by
  rcases mayPuicToTcp_forms s env with h | ⟨-, regs, -, h⟩ | ⟨-, -, -, h⟩
  · rw [h]
    exact .refl s
  · rw [h]
    exact later_write s env regs
  · rw [h]
    split
    · exact (tame_stopReading s env).toLater.trans ⟨id, id⟩
    · exact (tame_stopReading s env).toLater

theorem later_onDataAvailable (s : Relay) (env : Env) : Later s (s.onDataAvailable env) := by
  unfold onDataAvailable
  split
  · exact .refl s
  · exact later_mayPuicToTcp s env

theorem later_closeStreamAtOffset (s : Relay) (env : Env) (offset : ℕ) :
    Later s (s.closeStreamAtOffset env offset) := by
  unfold closeStreamAtOffset
  split
  · exact (evolves_resetStream s env).toLater
  have h1 : Later s { s with seq := { s.seq with closeOffset := offset } } := ⟨id, id⟩
  refine h1.trans ?_
  unfold maybeCloseStream
  split
  · split
    · exact (tame_closeReadSide _).toLater.trans ⟨id, id⟩
    · exact (later_onDataAvailable _ env).trans ⟨id, id⟩
  · exact .refl _

theorem later_onFrameData (s : Relay) (env : Env) (f : StreamFrame) : Later s (s.onFrameData env f) := by
  unfold onFrameData
  split
  · exact (evolves_closeConnection s).toLater
  next b n hok =>
  have h1 : Later s (s.setBuf b) := ⟨id, id⟩
  unfold notify
  split
  · exact h1
  split
  · split
    · exact h1.trans (tame_flushBufferedFrames _ env).toLater
    · exact h1.trans (later_onDataAvailable _ env)
  · exact h1

theorem later_onStreamFrame (s : Relay) (env : Env) (f : StreamFrame) :
    Later s (s.onStreamFrame env f) := by
  unfold onStreamFrame
  split
  · exact .refl s
  split
  · exact (evolves_closeConnection s).toLater
  split
  · split
    · exact later_closeStreamAtOffset s env _
    · exact (later_closeStreamAtOffset s env _).trans (later_onFrameData _ env f)
  · exact later_onFrameData s env f

theorem later_onTCPConnSent (s : Relay) (env : Env) (len : ℕ) : Later s (s.onTCPConnSent env len) := by
  have h1 : Later s ((s.log (.sent len)).connMarkConsumed env len) := by
    unfold connMarkConsumed
    split
    · exact (evolves_resetStream _ env).toLater.of_eq rfl rfl
    · exact (evolves_sendFrame _ env.consumeErr).toLater.of_eq rfl rfl
  unfold onTCPConnSent ifRunning
  split
  · exact h1.trans (later_mayPuicToTcp _ env)
  · exact h1

theorem later_closeIf (s : Relay) (done : Bool) : Later s (s.closeIf done) := by
  unfold closeIf uvClose
  split
  · split <;> exact ⟨id, id⟩
  · exact .refl s

/-- What an event needs, and what it does. -/
inductive Stepped (s : Relay) : RelayAct → Relay → Prop
  | frame {f : StreamFrame} {env : Env} (hconn : s.connected = true) :
    Stepped s (.frame f env) (if s.closed then s else s.onStreamFrame env f)
  | rstStream {viol : Bool} (hconn : s.connected = true) :
    Stepped s (.rstStream viol) (if s.closed then s else s.onStreamReset viol)
  | finSent (hconn : s.connected = true) : Stepped s .finSent s.closeWriteSide
  | connClosed (hconn : s.connected = true) : Stepped s .connClosed s.closeConnection
  | connectDone {ok readErr : Bool} (hc : s.tcp.connecting = true)
    (hok : ok = true → s.tcp.closing = false) :
    Stepped s (.connectDone ok readErr) (s.onUvConnect ok readErr)
  | writeDone {ok : Bool} {env : Env} {w : List Region × ℕ} {ws : List (List Region × ℕ)}
    (hw : s.tcp.uvWrites = w :: ws) (hc : s.tcp.connecting = false) :
    Stepped s (.writeDone ok env) (s.onUvWrite env ok w.2)
  | shutdownDone {ok : Bool} (hsh : s.tcp.shutting = true) (hw : s.tcp.uvWrites = []) :
    Stepped s (.shutdownDone ok) (s.onUvShutdown ok)
  | tcpEof (hc : s.tcp.connecting = false) (hr : s.tcp.readeof = false) (hcl : s.tcp.closing = false) :
    Stepped s .tcpEof s.onUvReadEOF
  | tcpErr (hcl : s.tcp.closing = false) : Stepped s .tcpErr s.clean
  | uvClosed (hcl : s.tcp.closing = true) (hc : s.tcp.connecting = false) (hw : s.tcp.uvWrites = [])
    (hsh : s.tcp.shutting = false) : Stepped s .uvClosed s.onUvClose

theorem step_cases {a : RelayAct} (h : s.step a = some s') : Stepped s a s' := by
  cases a <;> simp only [step, Option.ite_none_right_eq_some, Option.some.injEq, Bool.and_eq_true,
    Bool.not_eq_true',
    List.isEmpty_iff, Bool.and_eq_false_imp, Option.ite_none_left_eq_some, Bool.not_eq_true] at h
  case frame => exact h.2 ▸ .frame h.1
  case rstStream => exact h.2 ▸ .rstStream h.1
  case finSent => exact h.2 ▸ .finSent h.1
  case connClosed => exact h.2 ▸ .connClosed h.1
  case connectDone => exact h.2 ▸ .connectDone h.1.1 h.1.2
  case writeDone =>
    split at h
    · next w ws hw =>
      simp only [Option.ite_none_left_eq_some, Option.some.injEq, Bool.not_eq_true] at h
      exact h.2 ▸ .writeDone hw h.1
    · cases h
  case shutdownDone => exact h.2 ▸ .shutdownDone h.1.1 h.1.2
  case tcpEof => exact h.2 ▸ .tcpEof h.1.1.1 h.1.1.2 h.1.2
  case tcpErr => exact h.2 ▸ .tcpErr h.1
  case uvClosed => exact h.2 ▸ .uvClosed h.1.1.1.1 h.1.1.1.2 h.1.1.2 h.1.2

theorem later_step {a : RelayAct} (h : s.step a = some s') : Later s s' := by
  cases step_cases h with
  | frame =>
    split
    · exact .refl s
    · exact later_onStreamFrame s _ _
  | rstStream =>
    split
    · exact .refl s
    · exact (evolves_onStreamReset s _).toLater
  | finSent => exact (evolves_closeWriteSide s).toLater
  | connClosed => exact (evolves_closeConnection s).toLater
  | connectDone =>
    unfold onUvConnect
    split_ifs
    · exact ⟨id, id⟩
    · exact (evolves_clean _).1.toLater.of_eq rfl rfl
    · exact ⟨id, id⟩
    · exact (evolves_clean _).1.toLater.of_eq rfl rfl
  | writeDone =>
    unfold onUvWrite
    split_ifs
    · exact ⟨id, id⟩
    · exact (later_onTCPConnSent _ _ _).of_eq rfl rfl
    · exact (evolves_clean _).1.toLater.of_eq rfl rfl
  | shutdownDone =>
    unfold onUvShutdown
    split_ifs
    · exact ⟨id, id⟩
    · exact (later_closeIf _ _).of_eq rfl rfl
    · exact (evolves_clean _).1.toLater.of_eq rfl rfl
  | tcpEof => exact (later_closeIf _ _).of_eq rfl rfl
  | tcpErr => exact (evolves_clean s).1.toLater
  | uvClosed => exact ⟨id, id⟩

end Relay
end Puic
