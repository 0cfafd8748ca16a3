/-
  Zero-copy: the regions that `may_puic_to_tcp` hands to `uv_write` stay as they
  are until the write completes.

  From the call of `Write` until `OnTCPConnSent` is delivered or the TCP
  connection starts closing, the trace has the regions `pinned`; it is
  `Clobbered` if an operation on the blocks touches them meanwhile.  Storing data
  never does: it is written above the first gap, and the pinned offsets are below
  it.  What frees the blocks of a stream that is torn down does, because the
  stream does not tell the job before it releases its buffer and `clean` closes
  the connection before the socket: `Endangers` lists these events.
-/
import Puic.RelaySpec

namespace Puic

open GapList SequencerBuffer

/-- The regions of the write that is under way, for a trace with the newest event first. -/
def pinned : List RelayEvent → List Region
  | [] => []
  | .pass regs _ :: _ => regs
  | .sent _ :: _ => []
  | .closing :: _ => []
  | .op _ :: t => pinned t
  | .eof :: t => pinned t
  | .shutdown _ :: t => pinned t

/-- The operation touches a byte of the region. -/
def BlockOp.Hits (op : BlockOp) (r : Region) : Prop :=
  ∃ i, r.offset ≤ i ∧ i < r.offset + r.len ∧ op.Touches r.block i

/-- An operation has touched regions while they were pinned. -/
def Clobbered : List RelayEvent → Prop
  | [] => False
  | .op o :: t => (∃ r ∈ pinned t, o.Hits r) ∨ Clobbered t
  | .pass _ _ :: t | .sent _ :: t | .closing :: t | .eof :: t | .shutdown _ :: t => Clobbered t

theorem pinned_quiet {t : List RelayEvent} (ht : pinned t = []) :
    ∀ {l : List RelayEvent}, (∀ e ∈ l, e.Quiet) → pinned (l ++ t) = [] ∧
      (Clobbered (l ++ t) ↔ Clobbered t)
  | [], _ => ⟨ht, Iff.rfl⟩
  | e :: l, hl => by
    obtain ⟨hp, hc⟩ := pinned_quiet ht fun e he => hl e (.tail _ he)
    have he : e.Quiet := hl e (.head _)
    cases e with
    | op o => exact ⟨hp, by simp [Clobbered, hp, hc]⟩
    | closing => exact ⟨rfl, hc⟩
    | pass => exact he.elim
    | sent => exact he.elim
    | eof => exact he.elim
    | shutdown => exact he.elim

theorem pinned_ops {t : List RelayEvent} :
    ∀ {l : List BlockOp}, (∀ o ∈ l, ∀ r ∈ pinned t, ¬ o.Hits r) →
      pinned (l.map .op ++ t) = pinned t ∧ (Clobbered (l.map .op ++ t) ↔ Clobbered t)
  | [], _ => ⟨rfl, Iff.rfl⟩
  | o :: l, hl => by
    obtain ⟨hp, hc⟩ := pinned_ops fun o ho => hl o (.tail _ ho)
    refine ⟨hp, ?_⟩
    have ho : ¬ ∃ r ∈ pinned t, o.Hits r := fun ⟨r, hr, h⟩ => hl o (.head _) r hr h
    simp [Clobbered, hp, hc, ho]

namespace Relay

variable {s s' : Relay} {f : StreamFrame}

/-- A write request is with libuv. -/
def holds (s : Relay) : Bool := !s.tcp.uvWrites.isEmpty && !s.tcp.closing

/-- The frame brings the next bytes to a job that has no write under way, so that they are passed
    on at once. -/
def Takes (s : Relay) (f : StreamFrame) (env : Env) : Prop :=
  s.running = true ∧ s.closed = false ∧ s.readSideClosed = false ∧ env.viol = false ∧
    f.offset = s.buf.totalBytesRead ∧ ¬ (f.fin = true ∧ s.seq.closeMismatch f.endOffset = true) ∧
    ∃ b n, s.buf.onStreamData f.offset f.data = .ok (b, n) ∧ n ≠ 0

/-- The events that touch the blocks of a write under way: those that end the stream or the
    connection, a FIN at or below the consumed bytes, and a failed `uv_write`, after which the
    connection is closed before the socket. -/
def Endangers (s : Relay) : RelayAct → Prop
  | .frame f env =>
    if s.holds then
      (f.data ≠ [] ∧ env.viol = true) ∨
        (f.fin = true ∧ (s.seq.closeMismatch f.endOffset = true ∨ f.endOffset ≤ s.buf.totalBytesRead)) ∨
        (¬ (f.fin = true ∧ f.data = []) ∧ ∀ b n, s.buf.onStreamData f.offset f.data ≠ .ok (b, n))
    else env.uvErr = true ∧ s.Takes f env
  | .rstStream _ | .connClosed | .tcpErr => s.holds = true
  | .connectDone ok readErr => s.holds = true ∧ (ok = false ∨ readErr = true)
  | .writeDone ok env =>
    s.holds = true ∧ (ok = false ∨ env.uvErr = true ∧
      ¬ (env.consumeErr = true ∧ s.connected = true) ∧
      ∀ w ∈ s.tcp.uvWrites, w.2 < s.buf.readableBytes)
  | .finSent | .shutdownDone _ | .tcpEof | .uvClosed => False

/-! ## The invariant -/

/-- The read side is open and the buffer in order. -/
structure Open (closed ignore : Bool) (b : SequencerBuffer) : Prop where
  notClosed : closed = false
  reading : ignore = false
  wf : WF b
  ops : b.ops = []

/-- No write is under way. -/
structure Idle (s : Relay) : Prop where
  unpinned : pinned s.trace = []
  done : s.tcp.closing = true ∨ s.tcp.uvWrites = []
  readOpen : s.readSideClosed = false → s.closed = false ∧ s.seq.ignoreReadData = false ∧
    (s.running = true → Open s.closed s.seq.ignoreReadData s.buf ∧ Using s.tcp false ∧
      s.buf.readableBytes = 0)
  ended : s.readSideClosed = true → s.seq.ignoreReadData = true ∨ s.closed = true

/-- A write of the offsets from the consumed bytes up to some offset below the first gap is under
    way. -/
structure Held (s : Relay) : Prop where
  running : s.running = true
  readSide : s.readSideClosed = false
  opened : Open s.closed s.seq.ignoreReadData s.buf
  using_ : Using s.tcp true
  write : ∃ o', s.tcp.uvWrites = [(pinned s.trace, o' - s.buf.totalBytesRead)] ∧
    s.buf.totalBytesRead < o' ∧ o' ≤ s.buf.firstGap ∧
    Covers s.buf.cap s.buf.totalBytesRead (pinned s.trace) o'

structure Safe (s : Relay) : Prop where
  clear : ¬ Clobbered s.trace
  state : Idle s ∨ Held s

theorem Idle.evolves (h : Idle s) (he : Evolves s s') :
    Idle s' ∧ (Clobbered s'.trace ↔ Clobbered s.trace) := by
  obtain ⟨l, hl, hq⟩ := he.trace
  obtain ⟨hp, hc⟩ := pinned_quiet h.unpinned hq
  rw [← hl] at hp hc
  refine ⟨⟨hp, ?_, fun ho => ?_, fun hr => ?_⟩, hc⟩
  · rcases he.tcp with ht | ⟨-, ht⟩
    · exact ht ▸ h.done
    · exact .inl (by rw [ht])
  · obtain ⟨h1, h2, h3⟩ := he.readOpen ho
    obtain ⟨hcl, hig, hrun⟩ := h.readOpen h1
    refine ⟨h2.trans hcl, by rw [h3]; exact hig, fun hr => ?_⟩
    obtain ⟨hopen, hu, h0⟩ := hrun (he.running hr)
    rcases he.tcp with ht | ⟨hr', -⟩
    · rw [ht, buf, h2, h3]
      exact ⟨hopen, hu, h0⟩
    · rw [hr] at hr'; cases hr'
  · rcases he.ended hr with h1 | h1
    · exact (h.ended h1).imp he.ignore he.closed
    · exact h1

/-! ## Passing data on -/

/-- Nothing is pinned and the next bytes may be passed on. -/
structure Ready (s : Relay) : Prop where
  running : s.running = true
  readSide : s.readSideClosed = false
  opened : Open s.closed s.seq.ignoreReadData s.buf
  using_ : Using s.tcp false
  noWrites : s.tcp.uvWrites = []
  unpinned : pinned s.trace = []

theorem Ready.idle (h : Ready s) (hr : s.buf.readableBytes = 0) : Idle s where
  unpinned := h.unpinned
  done := .inr h.noWrites
  readOpen _ := ⟨h.opened.notClosed, h.opened.reading, fun _ => ⟨h.opened, h.using_, hr⟩⟩
  ended h' := by rw [h.readSide] at h'; cases h'

theorem Idle.ready (h : Idle s) (hr : s.running = true) (ho : s.readSideClosed = false) :
    Ready s ∧ s.buf.readableBytes = 0 := by
  obtain ⟨-, -, hrun⟩ := h.readOpen ho
  obtain ⟨hopen, hu, h0⟩ := hrun hr
  exact ⟨⟨hr, ho, hopen, hu, h.done.resolve_left (by simp [hu.notClosing]), h.unpinned⟩, h0⟩

/-- The end of the stream is reported: nothing is pinned by that. -/
theorem Idle.eof (h : Idle s) (hr : s.readSideClosed = true) :
    Idle (s.log .eof).shutdown ∧ (Clobbered (s.log .eof).shutdown.trace ↔ Clobbered s.trace) :=
  ⟨⟨h.unpinned, h.done, fun h' => absurd h' (by simp [shutdown, log, hr]), h.ended⟩, Iff.rfl⟩

/-- `may_puic_to_tcp` of a job without a write under way; `uv_write` only fails here if there is
    nothing to write. -/
theorem Ready.mayPuicToTcp (h : Ready s) (env : Env) (hc : ¬ Clobbered s.trace)
    (huv : env.uvErr = true → s.buf.readableBytes = 0) : Safe (s.mayPuicToTcp env) ∧
      (s.buf.readableBytes = 0 → s.seq.isClosed = true → (s.mayPuicToTcp env).readSideClosed = true) := by
  rcases mayPuicToTcp_cases env h.opened.wf h.running h.using_.writing with
    ⟨hpos, regs, o', hne, ho', hcov, he⟩ | ⟨h0, hcl, he⟩ | ⟨h0, hcl, he⟩
  · have hlt := hcov.lt hne
    have hsum := hcov.sum_len
    have huv' : env.uvErr = false := by
      cases hu : env.uvErr
      · rfl
      · have := huv hu; omega
    rw [he, write_accepted h.using_.writing h.using_.notEof (by omega) huv']
    refine ⟨⟨hc, .inr ⟨h.running, h.readSide, h.opened,
      ⟨rfl, h.using_.2, h.using_.3, h.using_.4⟩, o', ?_, hlt, ho', hcov⟩⟩, fun h0 => by omega⟩
    rw [h.noWrites, ← hsum, Nat.add_sub_cancel_left]
    rfl
  · rw [he]
    exact ⟨⟨hc, .inl (h.idle h0)⟩, fun _ h' => by rw [hcl] at h'; cases h'⟩
  · have hle : s.seq.closeOffset ≤ s.buf.lastGap :=
      (of_decide_eq_true hcl).trans h.opened.wf.total_le_lastGap
    have hread := stopReading_readSideClosed env h.opened.reading hle
    obtain ⟨hi, hc'⟩ := (h.idle h0).evolves (evolves_stopReading env h.opened.reading hle)
    rw [he]
    split
    · obtain ⟨hi', hc''⟩ := hi.eof hread
      exact ⟨⟨by rwa [hc'', hc'], .inl hi'⟩, fun _ _ => hread⟩
    · exact ⟨⟨by rwa [hc'], .inl hi⟩, fun _ _ => hread⟩

/-! ## Frames -/

theorem Idle.clear (h : Idle s) (hr : s.readSideClosed = true ∨ s.running = false) :
    Idle s.clearBuf ∧ (Clobbered s.clearBuf.trace ↔ Clobbered s.trace) := by
  obtain ⟨hp, hc⟩ := pinned_quiet h.unpinned (quiet_ops s.seq.clear.bufferedFrames.ops)
  refine ⟨⟨hp, h.done, fun ho => ?_, h.ended⟩, hc⟩
  have ho : s.readSideClosed = false := ho
  have hrun : s.running = false := hr.resolve_left (by simp [ho])
  obtain ⟨hcl, hig, -⟩ := h.readOpen ho
  exact ⟨hcl, hig, fun h' => absurd h' (by simp [clearBuf, setSeq, hrun])⟩

/-- The FIN of a frame when no write is under way.  If the stream is still read afterwards, only
    its end is known now. -/
theorem Idle.closeStreamAtOffset (h : Idle s) (hc : ¬ Clobbered s.trace)
    (ho : s.readSideClosed = false) (env : Env) (e : ℕ) :
    ∃ s', s.closeStreamAtOffset env e = s' ∧ Idle s' ∧ ¬ Clobbered s'.trace ∧
      (s'.readSideClosed = false → s'.running = true →
        s.seq.closeMismatch e = false ∧ s' = { s with seq := { s.seq with closeOffset := e } }) := by
  refine ⟨_, rfl, ?_⟩
  unfold Relay.closeStreamAtOffset
  split
  · have he := evolves_resetStream s env
    obtain ⟨hi, hc'⟩ := h.evolves he
    refine ⟨hi, by rwa [hc'], fun h' _ => ?_⟩
    have := (he.readOpen h').2.1
    rw [resetStream_closed, (h.readOpen ho).1] at this
    cases this
  next hmis =>
  obtain ⟨hcl, hig, hrun⟩ := h.readOpen ho
  have h1 : Idle { s with seq := { s.seq with closeOffset := e } } :=
    ⟨h.unpinned, h.done, fun _ => ⟨hcl, hig, hrun⟩, h.ended⟩
  generalize hs1 : ({ s with seq := { s.seq with closeOffset := e } } : Relay) = s1 at h1 ⊢
  have hc1 : ¬ Clobbered s1.trace := by subst hs1; exact hc
  have ho1 : s1.readSideClosed = false := by subst hs1; exact ho
  unfold maybeCloseStream
  split
  · next hclosed =>
    obtain ⟨hcl1, hig1, -⟩ := h1.readOpen ho1
    rw [if_neg (by simp [hig1])]
    by_cases hr1 : s1.running = true
    · -- the job is told and finds the end of the stream
      obtain ⟨hready, h0⟩ := h1.ready hr1 ho1
      obtain ⟨hsafe, hread⟩ := hready.mayPuicToTcp env hc1 fun _ => h0
      have hread := hread h0 hclosed
      have he : s1.onDataAvailable env = s1.mayPuicToTcp env := by
        simp [onDataAvailable, hcl1, hr1]
      rw [he]
      have hi2 : Idle (s1.mayPuicToTcp env) := by
        rcases hsafe.state with hi | hh
        · exact hi
        · rw [hh.readSide] at hread; cases hread
      obtain ⟨hi3, hc3⟩ := hi2.clear (.inl hread)
      exact ⟨hi3, by rw [hc3]; exact hsafe.clear, fun h' => absurd h' (by simp [clearBuf, setSeq, hread])⟩
    · have he : s1.onDataAvailable env = s1 := by simp [onDataAvailable, hr1]
      rw [he]
      obtain ⟨hi3, hc3⟩ := h1.clear (.inr (by simpa using hr1))
      exact ⟨hi3, by rwa [hc3], fun _ h' => absurd h' (by simpa [clearBuf, setSeq] using hr1)⟩
  · subst hs1
    exact ⟨h1, hc1, fun _ _ => ⟨by simpa using hmis, rfl⟩⟩

variable {b : SequencerBuffer} {w : List Region × ℕ} {ws : List (List Region × ℕ)}

theorem Ready.setBuf (h : Ready s) (hb : WF b) :
    Ready (s.setBuf b) ∧ (Clobbered (s.setBuf b).trace ↔ Clobbered s.trace) := by
  obtain ⟨hp, hc⟩ := pinned_quiet h.unpinned (quiet_ops b.ops)
  exact ⟨⟨h.running, h.readSide, ⟨h.opened.1, h.opened.2, hb.congr rfl rfl rfl, rfl⟩, h.using_,
    h.noWrites, hp⟩, hc⟩

/-- The data of a frame when no write is under way; `uv_write` only fails here if the data is not
    passed on. -/
theorem Idle.onFrameData (h : Idle s) (hc : ¬ Clobbered s.trace) (env : Env) (f : StreamFrame)
    (huv : env.uvErr = true → s.running = true → s.readSideClosed = false →
      f.offset = s.buf.totalBytesRead →
      ∀ b n, s.buf.onStreamData f.offset f.data = .ok (b, n) → n = 0) :
    Safe (s.onFrameData env f) := by
  unfold Relay.onFrameData
  split
  · obtain ⟨hi, hc'⟩ := h.evolves (evolves_closeConnection s)
    exact ⟨by rwa [hc'], .inl hi⟩
  next b n hok =>
  by_cases hr : s.readSideClosed = true
  · -- the FIN of the same frame has ended the stream
    obtain ⟨hi, hc'⟩ := h.evolves (evolves_setSeq { s.seq with bufferedFrames := b } hr id)
    have hr2 : (s.setBuf b).readSideClosed = true := hr
    change Idle (s.setBuf b) at hi
    change Clobbered (s.setBuf b).trace ↔ _ at hc'
    generalize s.setBuf b = s2 at hi hc' hr2 ⊢
    split
    · exact ⟨by rwa [hc'], .inl hi⟩
    unfold Relay.notify
    split
    · split
      · next hig =>
        obtain ⟨hi3, hc3⟩ := hi.evolves (evolves_flushBufferedFrames env hig (.inl hr2))
        exact ⟨by rwa [hc3, hc'], .inl hi3⟩
      · next hig =>
        rw [onDataAvailable, if_pos (by simp [(hi.ended hr2).resolve_left hig])]
        exact ⟨by rwa [hc'], .inl hi⟩
    · exact ⟨by rwa [hc'], .inl hi⟩
  have hr : s.readSideClosed = false := by simpa using hr
  obtain ⟨hcl, hig, -⟩ := h.readOpen hr
  have hig2 : (s.setBuf b).seq.ignoreReadData = false := hig
  rw [notify_reading hig2]
  by_cases hrun : s.running = true
  · obtain ⟨hready, h0⟩ := h.ready hrun hr
    have hwf := hready.opened.wf
    have htot := hwf.total_le_firstGap
    have hlen := f.data_lt
    rcases onStreamData_cases hwf f.offset_lt (by omega) hok with
      ⟨rfl, rfl, -⟩ | ⟨rfl, hst, -⟩
    · obtain ⟨hready2, hc2⟩ := hready.setBuf hwf
      rw [if_pos rfl]
      exact ⟨by rwa [hc2], .inl (hready2.idle h0)⟩
    · obtain ⟨hready2, hc2⟩ := hready.setBuf (hst.wf hwf)
      have hpos := hst.pos
      rw [if_neg (by omega)]
      split
      · next hoff =>
        have hoff' : f.offset = s.buf.totalBytesRead := hoff.trans hst.total
        rw [onDataAvailable, if_neg (by simp [Relay.setBuf, setSeq, hcl, hrun])]
        refine (hready2.mayPuicToTcp env (by rwa [hc2]) fun hu => ?_).1
        have := huv hu hrun hr hoff' _ _ hok
        omega
      · next hoff =>
        -- elsewhere: the first gap stays, and there is still nothing to read
        refine ⟨by rwa [hc2], .inl (hready2.idle ?_)⟩
        unfold readableBytes at h0
        have hne : s.buf.firstGap ≠ f.offset := by
          intro he
          exact hoff (he.symm.trans (by show _ = b.totalBytesRead; rw [hst.total]; omega))
        show b.firstGap - b.totalBytesRead = 0
        rw [hst.firstGap_eq hne, hst.total, h0]
  · have hrun : s.running = false := by simpa using hrun
    have hda : (s.setBuf b).onDataAvailable env = s.setBuf b := by
      simp [onDataAvailable, Relay.setBuf, setSeq, hrun]
    rw [hda, ite_self, ite_self]
    obtain ⟨hp, hc'⟩ := pinned_quiet h.unpinned (quiet_ops b.ops)
    exact ⟨fun h' => hc (hc'.1 h'), .inl ⟨hp, h.done,
      fun _ => ⟨hcl, hig, fun h' => absurd h' (by simp [Relay.setBuf, setSeq, hrun])⟩, h.ended⟩⟩

theorem Idle.onStreamFrame (h : Idle s) (hc : ¬ Clobbered s.trace) (hcl : s.closed = false)
    (env : Env) (f : StreamFrame) (huv : env.uvErr = true → ¬ s.Takes f env) :
    Safe (s.onStreamFrame env f) := by
  unfold Relay.onStreamFrame
  split
  · exact ⟨hc, .inl h⟩
  next ho =>
  have ho : s.readSideClosed = false := by simpa using ho
  split
  · obtain ⟨hi, hc'⟩ := h.evolves (evolves_closeConnection s)
    exact ⟨by rwa [hc'], .inl hi⟩
  next hviol =>
  split
  · next hfin =>
    obtain ⟨s1, hs1, hi, hc1, hsame⟩ := h.closeStreamAtOffset hc ho env f.endOffset
    rw [hs1]
    split
    · exact ⟨hc1, .inl hi⟩
    next hdata =>
    refine hi.onFrameData hc1 env f fun hu hrun hr hoff b n hok => ?_
    obtain ⟨hmis, rfl⟩ := hsame hr hrun
    by_contra hn
    exact huv hu ⟨hrun, hcl, hr, by simpa [hdata] using hviol, hoff, by simp [hmis], b, n, hok, hn⟩
  · next hfin =>
    refine h.onFrameData hc env f fun hu hrun hr hoff b n hok => ?_
    by_contra hn
    have hviol : env.viol = false := by
      by_cases hd : f.data = []
      · rw [hd] at hok
        simp [onStreamData] at hok
      · simpa [hd] using hviol
    exact huv hu ⟨hrun, hcl, hr, hviol, hoff, by simp [hfin], b, n, hok, hn⟩

/-- Data is stored above the first gap, and there the window has no place of a pinned offset. -/
theorem Held.stored (h : Held s) (hc : ¬ Clobbered s.trace)
    (hst : Stored s.buf b f.offset f.data) :
    Held (s.setBuf b) ∧ ¬ Clobbered (s.setBuf b).trace := by
  obtain ⟨o', hw, hlt, hle, hcov⟩ := h.write
  have hwf := h.opened.wf
  obtain ⟨new, hnew, htouch⟩ := hst.ops
  rw [h.opened.ops, List.nil_append] at hnew
  have hmiss : ∀ o ∈ new.reverse, ∀ r ∈ pinned s.trace, ¬ o.Hits r := by
    rintro o ho r hr ⟨i, hi, hi', ht⟩
    obtain ⟨x, hx, hx', hxi, hxo⟩ := htouch o (List.mem_reverse.1 ho) _ _ ht
    obtain ⟨y, hy, hy', hyi, hyo⟩ := hcov.place hwf.capPos r hr i hi hi'
    have hgap := hst.firstGap_le_offset hwf
    have hfit := hst.fits
    have := place_inj hwf.capPos (by omega : s.buf.totalBytesRead ≤ x) (by omega) hy (by omega)
      (hxi.trans hyi.symm) (hxo.trans hyo.symm)
    omega
  obtain ⟨hp, hc'⟩ := pinned_ops hmiss
  have htr : (s.setBuf b).trace = new.reverse.map .op ++ s.trace := by
    rw [List.map_reverse, ← hnew]; rfl
  rw [← htr] at hp hc'
  refine ⟨⟨h.running, h.readSide, ⟨h.opened.1, h.opened.2, (hst.wf hwf).congr rfl rfl rfl, rfl⟩,
    h.using_, o', ?_, ?_, ?_, ?_⟩, by rwa [hc']⟩
  · rw [hp]
    show s.tcp.uvWrites = [(pinned s.trace, o' - b.totalBytesRead)]
    rw [hst.total]; exact hw
  · show b.totalBytesRead < o'
    rw [hst.total]; exact hlt
  · exact hle.trans (hst.firstGap_le hwf)
  · rw [hp]
    show Covers b.cap b.totalBytesRead _ _
    rw [hst.cap, hst.total]; exact hcov

theorem Held.onFrameData (h : Held s) (hc : ¬ Clobbered s.trace) (env : Env)
    (hok : ∃ b n, s.buf.onStreamData f.offset f.data = .ok (b, n)) :
    Safe (s.onFrameData env f) := by
  obtain ⟨b, n, hok⟩ := hok
  simp only [Relay.onFrameData, hok]
  have hset : Held (s.setBuf b) ∧ ¬ Clobbered (s.setBuf b).trace := by
    have hlen := f.data_lt
    rcases onStreamData_cases h.opened.wf f.offset_lt (by omega) hok with ⟨-, rfl, -⟩ | ⟨-, hst, -⟩
    · have : s.setBuf s.buf = s := by
        simp only [Relay.setBuf, setSeq, h.opened.ops, List.map_nil, List.reverse_nil, List.nil_append]
        rw [← h.opened.ops]
      rw [this]
      exact ⟨h, hc⟩
    · exact h.stored hc hst
  generalize s.setBuf b = s2 at hset ⊢
  -- the job is told, but it is writing
  have hda : s2.onDataAvailable env = s2 := by
    simp [onDataAvailable, Relay.mayPuicToTcp, hset.1.using_.writing]
  rw [notify_reading hset.1.opened.reading, hda, ite_self, ite_self]
  exact ⟨hset.2, .inr hset.1⟩

theorem Held.setCloseOffset (h : Held s) (e : ℕ) :
    Held { s with seq := { s.seq with closeOffset := e } } :=
  ⟨h.running, h.readSide, h.opened, h.using_, h.write⟩

theorem Held.holds (h : Held s) : s.holds = true := by
  obtain ⟨o', hw, -⟩ := h.write
  simp [Relay.holds, hw, h.using_.notClosing]

theorem Idle.not_holds (h : Idle s) : s.holds = false := by
  rcases h.done with h | h <;> simp [Relay.holds, h]

theorem Held.onStreamFrame (h : Held s) (hc : ¬ Clobbered s.trace) (env : Env)
    (hsafe : ¬ s.Endangers (.frame f env)) : Safe (s.onStreamFrame env f) := by
  simp only [Endangers, h.holds, if_true, not_or] at hsafe
  obtain ⟨hviol, hfin, hdata⟩ := hsafe
  unfold Relay.onStreamFrame
  rw [if_neg (by simp [h.readSide]), if_neg hviol]
  have hok : ¬ (f.fin = true ∧ f.data = []) → ∃ b n, s.buf.onStreamData f.offset f.data = .ok (b, n) := by
    intro hd
    by_contra hcon
    exact hdata ⟨hd, fun b n hb => hcon ⟨b, n, hb⟩⟩
  split
  · next hf =>
    obtain ⟨hmis, hlt⟩ := not_or.1 (fun h' => hfin ⟨hf, h'⟩)
    have hset : s.closeStreamAtOffset env f.endOffset =
        { s with seq := { s.seq with closeOffset := f.endOffset } } := by
      rw [Relay.closeStreamAtOffset, if_neg hmis, maybeCloseStream,
        if_neg (by simpa [Sequencer.isClosed] using hlt)]
    rw [hset]
    split
    · exact ⟨hc, .inr (h.setCloseOffset _)⟩
    · next hd => exact (h.setCloseOffset f.endOffset).onFrameData hc env (hok (by simp [hd]))
  · next hf => exact h.onFrameData hc env (hok (by simp [hf]))

/-! ## Completions -/

theorem Idle.setTcp (h : Idle s) (t : TCPConn) (hd : t.closing = true ∨ t.uvWrites = [])
    (hu : s.readSideClosed = false → s.running = true → Using t false) :
    Idle { s with tcp := t } where
  unpinned := h.unpinned
  done := hd
  readOpen ho := by
    obtain ⟨hcl, hig, hrun⟩ := h.readOpen ho
    exact ⟨hcl, hig, fun hr => ⟨(hrun hr).1, hu ho hr, (hrun hr).2.2⟩⟩
  ended := h.ended

theorem Idle.using_ (h : Idle s) (ho : s.readSideClosed = false) (hr : s.running = true) :
    Using s.tcp false := ((h.readOpen ho).2.2 hr).2.1

theorem Idle.uvClose (h : Idle s) (ho : s.readSideClosed = false → s.running = false) :
    Idle s.uvClose ∧ (Clobbered s.uvClose.trace ↔ Clobbered s.trace) := by
  unfold Relay.uvClose
  split
  · exact ⟨h, Iff.rfl⟩
  · have h1 := h.setTcp { s.tcp with closing := true } (.inl rfl)
      fun h' hr => by rw [ho h'] at hr; cases hr
    exact ⟨⟨rfl, h1.done, h1.readOpen, h1.ended⟩, Iff.rfl⟩

theorem Held.setTcp (h : Held s) (t : TCPConn) (hw : t.uvWrites = s.tcp.uvWrites)
    (hu : Using t true) : Held { s with tcp := t } :=
  ⟨h.running, h.readSide, h.opened, hu, by
    obtain ⟨o', h1, h2⟩ := h.write
    exact ⟨o', hw.trans h1, h2⟩⟩

theorem Ready.stop (h : Ready s) (he : Evolves s s') (hr : s'.running = false) :
    Idle s' ∧ (Clobbered s'.trace ↔ Clobbered s.trace) := by
  obtain ⟨l, hl, hq⟩ := he.trace
  obtain ⟨hp, hc⟩ := pinned_quiet h.unpinned hq
  rw [← hl] at hp hc
  refine ⟨⟨hp, ?_, fun ho => ?_, fun hrd => ?_⟩, hc⟩
  · rcases he.tcp with ht | ⟨-, ht⟩
    · exact .inr (ht ▸ h.noWrites)
    · exact .inl (by rw [ht])
  · obtain ⟨-, h2, h3⟩ := he.readOpen ho
    exact ⟨h2.trans h.opened.notClosed, h3 ▸ h.opened.reading, fun hr' => absurd hr' (by simp [hr])⟩
  · rcases he.ended hrd with h1 | h1
    · rw [h.readSide] at h1; cases h1
    · exact h1

/-- The bytes of a completed write are consumed, and the next ones are passed on. -/
theorem Ready.onSent (h : Ready s) (hc : ¬ Clobbered s.trace) (env : Env) {len : ℕ}
    (hlen : len ≤ s.buf.readableBytes)
    (huv : env.uvErr = true → env.consumeErr = true ∧ s.connected = true ∨ s.buf.readableBytes ≤ len) :
    Safe ((s.connMarkConsumed env len).ifRunning env) := by
  obtain ⟨b, hb⟩ := markConsumed_some hlen
  obtain ⟨-, hcons⟩ := markConsumed_consumed h.opened.wf hb
  obtain ⟨hready, hc'⟩ := h.setBuf (h.opened.wf.consumed hlen hcons.cap hcons.total hcons.gaps)
  have hread : (s.setBuf b).buf.readableBytes = s.buf.readableBytes - len := hcons.readableBytes
  have hconn : (s.setBuf b).connected = s.connected := rfl
  rw [connMarkConsumed, hb]
  dsimp only
  generalize s.setBuf b = s2 at hready hc' hread hconn ⊢
  have hc2 : ¬ Clobbered s2.trace := by rwa [hc']
  unfold ifRunning
  split
  · next hr =>
    rw [sendFrame_running hr]
    refine (hready.mayPuicToTcp env hc2 fun hu => ?_).1
    rcases huv hu with ⟨herr, hcn⟩ | hle
    · -- the connection would have been closed by the failed WINDOW_UPDATE
      rw [sendFrame, if_pos herr, closeConnection_running (hconn.trans hcn)] at hr
      cases hr
    · omega
  · next hr =>
    obtain ⟨hi, hc3⟩ := hready.stop (evolves_sendFrame s2 env.consumeErr) (by simpa using hr)
    exact ⟨by rwa [hc3], .inl hi⟩

theorem Held.len_le (h : Held s)
    (hw : s.tcp.uvWrites = w :: ws) : ws = [] ∧ w.2 ≤ s.buf.readableBytes := by
  obtain ⟨o', h1, h2, h3, -⟩ := h.write
  rw [h1] at hw
  cases hw
  exact ⟨rfl, by unfold readableBytes; dsimp only; omega⟩

theorem Held.onUvWrite (h : Held s) (hc : ¬ Clobbered s.trace) (env : Env)
    (hw : s.tcp.uvWrites = w :: ws)
    (huv : env.uvErr = true → env.consumeErr = true ∧ s.connected = true ∨
      s.buf.readableBytes ≤ w.2) : Safe (s.onUvWrite env true w.2) := by
  obtain ⟨rfl, hlen⟩ := h.len_le hw
  unfold Relay.onUvWrite Relay.onTCPConnSent
  simp only [hw, List.tail_cons, h.using_.notClosing, Bool.false_eq_true, if_false, if_true]
  have hready : Ready (({ s with tcp := { s.tcp with uvWrites := [], writing := false } } :
      Relay).log (.sent w.2)) :=
    ⟨h.running, h.readSide, h.opened, ⟨rfl, h.using_.2, h.using_.3, h.using_.4⟩, rfl, rfl⟩
  simpa only [h.using_.notClosing] using hready.onSent hc env hlen huv

theorem Held.closeWriteSide (h : Held s) : Held s.closeWriteSide ∧ s.closeWriteSide.trace = s.trace := by
  unfold Relay.closeWriteSide
  split
  · exact ⟨h, rfl⟩
  · rw [if_neg (by simp [h.readSide])]
    exact ⟨⟨h.running, h.readSide, h.opened, h.using_, h.write⟩, rfl⟩

/-! ## One step and a whole run -/

theorem Safe.evolves (h : Safe s) (hh : s.holds = false) (he : Evolves s s') : Safe s' := by
  rcases h.state with hi | hh'
  · obtain ⟨hi', hc'⟩ := hi.evolves he
    exact ⟨by rw [hc']; exact h.clear, .inl hi'⟩
  · rw [hh'.holds] at hh; cases hh

/-- A job whose connection is shutting down or closing does not read the stream any more. -/
theorem Idle.ended_of (h : Idle s) (ht : s.tcp.shutting = true ∨ s.tcp.writeof = true ∨
    s.tcp.closing = true) (ho : s.readSideClosed = false) : s.running = false := by
  by_contra hr
  have hu := h.using_ ho (by simpa using hr)
  simp [hu.notShutting, hu.notEof, hu.notClosing] at ht

theorem Idle.onUvConnect (h : Idle s) (hc : ¬ Clobbered s.trace) (ok readErr : Bool) :
    Safe (s.onUvConnect ok readErr) := by
  have h1 : ∀ c, Idle { s with tcp := { s.tcp with connecting := false, connectOk := c } } :=
    fun c => h.setTcp _ h.done fun ho hr => ⟨(h.using_ ho hr).1, (h.using_ ho hr).2,
      (h.using_ ho hr).3, (h.using_ ho hr).4⟩
  have hclean : ∀ c, Safe ({ s with tcp := { s.tcp with connecting := false, connectOk := c } } :
      Relay).clean := fun c => by
    obtain ⟨hi, hc'⟩ := (h1 c).evolves (evolves_clean _).1
    exact ⟨fun h' => hc (hc'.1 h'), .inl hi⟩
  unfold Relay.onUvConnect
  split
  · exact ⟨hc, .inl (h1 s.tcp.connectOk)⟩
  split
  · split
    · exact hclean true
    · exact ⟨hc, .inl (h1 true)⟩
  · exact hclean s.tcp.connectOk

theorem Held.onUvConnect (h : Held s) (hc : ¬ Clobbered s.trace) : Safe (s.onUvConnect true false) := by
  simp only [Relay.onUvConnect, h.using_.notClosing, Bool.false_eq_true, if_false, if_true]
  exact ⟨hc, .inr (h.setTcp _ rfl ⟨h.using_.1, rfl, h.using_.3, h.using_.4⟩)⟩

theorem Idle.closeIf (h : Idle s) (hc : ¬ Clobbered s.trace) {done : Bool}
    (hd : done = true → s.readSideClosed = false → s.running = false) : Safe (s.closeIf done) := by
  unfold Relay.closeIf
  split
  · next hdone =>
    obtain ⟨hi, hc'⟩ := h.uvClose (hd hdone)
    exact ⟨by rwa [hc'], .inl hi⟩
  · exact ⟨hc, .inl h⟩

theorem Idle.onUvShutdown (h : Idle s) (hc : ¬ Clobbered s.trace) (hs : s.tcp.shutting = true)
    (hw : s.tcp.uvWrites = []) (ok : Bool) : Safe (s.onUvShutdown ok) := by
  have hend := h.ended_of (.inl hs)
  have hset : ∀ t : TCPConn, t.uvWrites = [] → Idle { s with tcp := t } := fun t ht =>
    h.setTcp t (.inr ht) fun ho hr => by rw [hend ho] at hr; cases hr
  unfold Relay.onUvShutdown
  split
  · exact ⟨hc, .inl (hset _ hw)⟩
  split
  · have h1 := hset
      { s.tcp with shutting := false, shut := true, writing := false, writeof := true } hw
    exact h1.closeIf hc fun _ => hend
  · obtain ⟨hi, hc'⟩ := (hset { s.tcp with shutting := false, shut := false } hw).evolves
      (evolves_clean _).1
    exact ⟨fun h' => hc (hc'.1 h'), .inl hi⟩

theorem Safe.onUvReadEOF (h : Safe s) : Safe s.onUvReadEOF := by
  unfold Relay.onUvReadEOF
  rcases h.state with hi | hh
  · have h1 := hi.setTcp { s.tcp with readeof := true } hi.done fun ho hr =>
      ⟨(hi.using_ ho hr).1, (hi.using_ ho hr).2, (hi.using_ ho hr).3, (hi.using_ ho hr).4⟩
    exact h1.closeIf h.clear fun hw => hi.ended_of (.inr (.inl hw))
  · rw [closeIf, if_neg (by simp [hh.using_.notEof])]
    exact ⟨h.clear, .inr (hh.setTcp _ rfl ⟨hh.using_.1, hh.using_.2, hh.using_.3, hh.using_.4⟩)⟩

/-- **What an event that does not endanger the write under way preserves.** -/
theorem Safe.step (h : Safe s) {a : RelayAct} (hsafe : ¬ s.Endangers a) (hs : s.step a = some s') :
    Safe s' := by
  cases step_cases hs with
  | @frame f env =>
    split
    · exact h
    · next hcl =>
      rcases h.state with hi | hh
      · refine hi.onStreamFrame h.clear (by simpa using hcl) env f fun hu ht => hsafe ?_
        simp only [Endangers, hi.not_holds, Bool.false_eq_true, if_false]
        exact ⟨hu, ht⟩
      · exact hh.onStreamFrame h.clear env hsafe
  | rstStream =>
    split
    · exact h
    · exact h.evolves (by simpa [Endangers] using hsafe) (evolves_onStreamReset s _)
  | finSent =>
    rcases h.state with hi | hh
    · obtain ⟨hi', hc'⟩ := hi.evolves (evolves_closeWriteSide s)
      exact ⟨fun h' => h.clear (hc'.1 h'), .inl hi'⟩
    · obtain ⟨hh', ht⟩ := hh.closeWriteSide
      exact ⟨ht ▸ h.clear, .inr hh'⟩
  | connClosed =>
    exact h.evolves (by simpa [Endangers] using hsafe) (evolves_closeConnection s)
  | connectDone =>
    rcases h.state with hi | hh
    · exact hi.onUvConnect h.clear _ _
    · simp only [Endangers, hh.holds, true_and, not_or, Bool.not_eq_false, Bool.not_eq_true] at hsafe
      obtain ⟨rfl, rfl⟩ := hsafe
      exact hh.onUvConnect h.clear
  | writeDone hw =>
    rcases h.state with hi | hh
    · -- only a closing connection has requests left; they are just dropped
      have hcl : s.tcp.closing = true := hi.done.resolve_right (by simp [hw])
      rw [onUvWrite, if_pos hcl]
      refine ⟨h.clear, .inl (hi.setTcp _ (.inl hcl) fun ho hr => ?_)⟩
      rw [hi.ended_of (.inr (.inr hcl)) ho] at hr
      cases hr
    · simp only [Endangers, hh.holds, true_and, not_or, Bool.not_eq_false] at hsafe
      obtain ⟨rfl, huv⟩ := hsafe
      refine hh.onUvWrite h.clear _ hw fun hu => ?_
      by_contra hcon
      obtain ⟨hcon1, hcon2⟩ := not_or.1 hcon
      refine huv ⟨hu, hcon1, fun w' hw' => ?_⟩
      rw [hw, (hh.len_le hw).1, List.mem_singleton] at hw'
      rw [hw']
      omega
  | shutdownDone hsh hw =>
    rcases h.state with hi | hh
    · exact hi.onUvShutdown h.clear hsh hw _
    · rw [hh.using_.notShutting] at hsh; cases hsh
  | tcpEof =>
    exact h.onUvReadEOF
  | tcpErr =>
    exact h.evolves (by simpa [Endangers] using hsafe) (evolves_clean s).1
  | uvClosed hcl =>
    rcases h.state with hi | hh
    · refine ⟨h.clear, .inl (hi.setTcp _ (.inl hcl) fun ho hr => ?_)⟩
      rw [hi.ended_of (.inr (.inr hcl)) ho] at hr
      cases hr
    · rw [hh.using_.notClosing] at hcl; cases hcl

theorem wf_new : WF (SequencerBuffer.new kStreamReceiveWindowLimit) :=
  wf_of_gaps (by decide) (by decide) rfl

theorem init_safe (agent : Bool) : Safe (init agent) where
  clear := id
  state := .inl ⟨rfl, .inr rfl, fun _ => ⟨rfl, rfl, fun _ => ⟨⟨rfl, rfl, wf_new, rfl⟩,
    ⟨rfl, rfl, rfl, rfl⟩, rfl⟩⟩, fun h => by cases h⟩

end Relay

open Relay

theorem oneByteFrame_lt : ([1] : List UInt8).length < 2 ^ 16 := by decide

/-- The first byte of the stream. -/
def oneByteFrame : StreamFrame := ⟨0, [1], false, StreamFrame.zero_lt, oneByteFrame_lt⟩

/-- A RST_STREAM while the first byte is being written to the backend frees the block that holds
    it; the job is not told. -/
theorem reset_frees_pinned_block :
    ∃ s, Machine.run Relay.step (Relay.init false)
        [.frame oneByteFrame .calm, .rstStream false] = some s ∧
      Clobbered s.trace ∧ s.running = true ∧ s.tcp.writing = true ∧ s.tcp.closing = false := by
  have h : (Machine.run step (init false)
      [.frame oneByteFrame .calm, .rstStream false]).map
        (fun s => (s.trace, s.running, s.tcp.writing, s.tcp.closing)) =
      some ([.op (.retire 0), .pass [⟨0, 0, 1⟩] [1], .op (.write 0 0 1)], true, true, false) := by
    decide +kernel
  obtain ⟨s, hs, he⟩ := Option.map_eq_some_iff.1 h
  simp only [Prod.mk.injEq] at he
  obtain ⟨ht, hr, hw, hc⟩ := he
  refine ⟨s, hs, ?_, hr, hw, hc⟩
  rw [ht]
  exact .inl ⟨_, .head _, 0, le_rfl, by decide, rfl⟩

/-- **Zero-copy regions stay pinned** in every run of a proxy job in which no event endangers the
    write under way. -/
theorem pinned_regions_untouched (as : List RelayAct)
    (h : Machine.Along Relay.step (fun s a => ¬ s.Endangers a) (Relay.init false) as) (s : Relay)
    (hs : Machine.run Relay.step (Relay.init false) as = some s) : ¬ Clobbered s.trace :=
  (Machine.run_inv_along (fun _ _ _ hI hC hstep => hI.step hC hstep) (init_safe false) h hs).clear

/-- A byte that is passed on before the backend is connected, and the completion of its write. -/
theorem pinned_regions_untouched_write : ∃ s, Machine.run Relay.step (Relay.init false)
    [.frame oneByteFrame .calm, .connectDone true false, .writeDone true .calm] = some s ∧
      ¬ Clobbered s.trace := by
  have hrun : (Machine.run step (init false)
      [.frame oneByteFrame .calm, .connectDone true false, .writeDone true .calm]).isSome := by
    decide +kernel
  have hsafe : Machine.Along step (fun s a => ¬ s.Endangers a) (init false)
      [.frame oneByteFrame .calm, .connectDone true false, .writeDone true .calm] := by
    refine ⟨?_, fun s1 _ => ⟨?_, fun s2 _ => ⟨?_, fun _ _ => trivial⟩⟩⟩
    · simp [Endangers, holds, init, Env.calm]
    · simp [Endangers]
    · simp [Endangers, Env.calm]
  obtain ⟨s, hs⟩ := Option.isSome_iff_exists.1 hrun
  exact ⟨s, hs, pinned_regions_untouched _ hsafe s hs⟩

end Puic
