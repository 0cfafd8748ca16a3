/-
  Half-close: what becomes of the end of the stream.

  `may_puic_to_tcp` reports the end of the stream once and calls `Shutdown`, which
  ignores what `uv_shutdown` returns.  A connection that is still being connected
  rejects the request and nothing repeats it.  That needs an end without any data
  before it: while the connection is being connected nothing is consumed, so the
  end can only be reached by an empty FIN frame at offset 0 (`LosesShutdown`).  In
  runs without that event every reported end has its accepted shutdown as soon as
  the connection is connected.
-/
import Puic.RelaySpec

namespace Puic

open GapList SequencerBuffer Relay

/-- `uv_shutdown` has accepted a request. -/
def Accepted (t : List RelayEvent) : Prop := .shutdown true ∈ t

namespace Relay

variable {s s' : Relay} {f : StreamFrame} {env : Env} {told : Bool}

/-- The FIN of an empty stream reaches the job before the TCP connection is connected. -/
def LosesShutdown (s : Relay) : RelayAct → Prop
  | .frame f env =>
    s.running = true ∧ s.tcp.connecting = true ∧ s.tcp.writing = false ∧ s.closed = false ∧
      s.readSideClosed = false ∧ s.buf.hasBytesToRead = false ∧
      s.seq.closeMismatch 0 = false ∧ f.fin = true ∧ f.data = [] ∧ f.offset = 0 ∧
      env.flushErr = false
  | _ => False

/-! ## The invariant -/

/-- The stream of a job that is still connecting: nothing has been consumed. -/
structure Fresh (closed : Bool) (q : Sequencer) : Prop where
  wf : WF q.bufferedFrames
  last : Closed maxOffset q.bufferedFrames.gaps
  cap : q.bufferedFrames.cap = kStreamReceiveWindowLimit
  total : q.bufferedFrames.totalBytesRead = 0
  reading : q.ignoreReadData = false
  notClosed : closed = false

/-- Either the stream is fresh, or it is not read any more. -/
def Stage (readSideClosed closed : Bool) (q : Sequencer) : Prop :=
  (readSideClosed = false ∧ Fresh closed q) ∨
    (readSideClosed = true ∧ (q.ignoreReadData = true ∨ closed = true))

/-- `told` says whether the end of the stream is accounted for. -/
structure Kept (told : Bool) (s : Relay) : Prop where
  shutting : s.tcp.shutting = true ∨ s.tcp.shut = true → Accepted s.trace
  ended : s.tcp.closing = true ∨ s.tcp.writeof = true → s.running = true → Accepted s.trace
  connectOk : s.tcp.connectOk = true → s.tcp.connecting = false
  eof : told = true → .eof ∈ s.trace → Accepted s.trace ∨ (s.tcp.closing = true ∧ s.tcp.connectOk = false)
  stage : s.running = true → s.tcp.connecting = true → Stage s.readSideClosed s.closed s.seq

theorem eof_quiet {l t : List RelayEvent} (hl : ∀ e ∈ l, e.Quiet) (h : .eof ∈ l ++ t) :
    .eof ∈ t :=
  (List.mem_append.1 h).resolve_left fun h' => hl _ h'

theorem Stage.evolves (h : Stage s.readSideClosed s.closed s.seq) (he : Evolves s s') :
    Stage s'.readSideClosed s'.closed s'.seq := by
  cases hr : s'.readSideClosed
  · obtain ⟨h1, h2, h3⟩ := he.readOpen hr
    rcases h with ⟨-, hf⟩ | ⟨hc, -⟩
    · rw [h2, h3]
      exact .inl ⟨rfl, hf⟩
    · rw [h1] at hc; cases hc
  · refine .inr ⟨rfl, ?_⟩
    rcases he.ended hr with h1 | h1
    · rcases h with ⟨ho, -⟩ | ⟨-, h2⟩
      · rw [h1] at ho; cases ho
      · exact h2.imp he.ignore he.closed
    · exact h1

theorem Kept.tame (h : Kept told s) (ht : Tame s s')
    (hst : s'.running = true → s'.tcp.connecting = true →
      Stage s'.readSideClosed s'.closed s'.seq) : Kept told s' := by
  obtain ⟨l, hl, hq⟩ := ht.trace
  have hacc : Accepted s.trace → Accepted s'.trace := fun h' => hl ▸ List.mem_append_right l h'
  have heof : .eof ∈ s'.trace → .eof ∈ s.trace := fun h' => eof_quiet hq (hl ▸ h')
  rcases ht.tcp with htcp | ⟨hr, htcp⟩
  · refine ⟨?_, fun h1 h2 => ?_, ?_, fun h1 h2 => ?_, hst⟩
    · rw [htcp]; exact hacc ∘ h.shutting
    · rw [htcp] at h1; exact hacc (h.ended h1 (ht.running h2))
    · rw [htcp]; exact h.connectOk
    · rw [htcp]; exact (h.eof h1 (heof h2)).imp_left hacc
  · refine ⟨?_, fun _ h2 => ?_, ?_, fun h1 h2 => ?_, hst⟩
    · rw [htcp]; exact hacc ∘ h.shutting
    · rw [hr] at h2; cases h2
    · rw [htcp]; exact h.connectOk
    · rw [htcp]; exact (h.eof h1 (heof h2)).imp hacc fun h3 => ⟨rfl, h3.2⟩

theorem Tame.connecting (ht : Tame s s') : s'.tcp.connecting = s.tcp.connecting := by
  rcases ht.tcp with h | ⟨-, h⟩ <;> rw [h]

theorem Kept.evolves (h : Kept told s) (he : Evolves s s') : Kept told s' :=
  h.tame he.toTame fun hr hc => (h.stage (he.running hr) (he.connecting ▸ hc)).evolves he

theorem Kept.weaken (h : Kept told s) : Kept false s :=
  ⟨h.shutting, h.ended, h.connectOk, fun h' => absurd h' (by simp), h.stage⟩

/-- A new TCP state for which nothing is claimed that was not before. -/
theorem Kept.setTcp (h : Kept told s) (t : TCPConn)
    (hsh : t.shutting = true ∨ t.shut = true → s.tcp.shutting = true ∨ s.tcp.shut = true)
    (hend : t.closing = true ∨ t.writeof = true → s.running = true → Accepted s.trace)
    (hok : t.connectOk = true → t.connecting = false)
    (heof : s.tcp.closing = true → s.tcp.connectOk = false → t.closing = true ∧ t.connectOk = false)
    (hcon : t.connecting = true → s.tcp.connecting = true) : Kept told { s with tcp := t } where
  shutting h' := h.shutting (hsh h')
  ended := hend
  connectOk := hok
  eof h1 h2 := (h.eof h1 h2).imp_right fun h3 => heof h3.1 h3.2
  stage hr hc := h.stage hr (hcon hc)

/-- An event that is neither the end of the stream nor a shutdown. -/
theorem Kept.log (h : Kept told s) {e : RelayEvent} (he : e ≠ .eof) : Kept told (s.log e) where
  shutting h' := .tail _ (h.shutting h')
  ended h1 h2 := .tail _ (h.ended h1 h2)
  connectOk := h.connectOk
  eof h1 h2 := by
    have h3 : .eof ∈ s.trace := (List.mem_cons.1 h2).resolve_left he.symm
    exact (h.eof h1 h3).imp_left (.tail _)
  stage := h.stage

/-! ## The end of the stream is reported -/

theorem Kept.write (h : Kept told s) (env : Env) (regs : List Region) : Kept told (s.write env regs) := by
  have h1 := h.log (e := .pass regs (regs.flatMap s.seq.bufferedFrames.readRegion)) (by simp)
  unfold Relay.write uvWrite
  split
  · exact h1
  split
  · exact h1.evolves (evolves_clean _).1
  · exact h1.setTcp _ id h1.ended h1.connectOk (fun h2 h3 => ⟨h2, h3⟩) id

/-- The shutdown is rejected only if the connection is not connected, or if there was one. -/
theorem Kept.finish (h : Kept told s) (hr : s.running = true)
    (hc : told = true → s.tcp.connecting = false) : Kept told (s.log .eof).shutdown := by
  have hacc : s.tcp.acceptsShutdown = true → Accepted (s.log .eof).shutdown.trace := by
    intro ha
    unfold Relay.shutdown Relay.log
    rw [show ({ s with trace := .eof :: s.trace } : Relay).tcp.acceptsShutdown = true from ha]
    exact .head _
  have hold : Accepted s.trace → Accepted (s.log .eof).shutdown.trace := fun h' =>
    .tail _ (.tail _ h')
  refine ⟨fun h1 => ?_, fun h1 h2 => hold (h.ended h1 h2), h.connectOk, fun ht _ => .inl ?_, h.stage⟩
  · rcases h1 with h1 | h1
    · rcases Bool.or_eq_true_iff.1 h1 with h2 | h2
      · exact hold (h.shutting (.inl h2))
      · exact hacc h2
    · exact hold (h.shutting (.inr h1))
  · by_cases ha : s.tcp.acceptsShutdown = true
    · exact hacc ha
    · simp only [TCPConn.acceptsShutdown, hc ht, Bool.and_eq_true, Bool.not_eq_true', not_and_or,
        Bool.not_eq_false, not_true_eq_false, or_false] at ha
      rcases ha with (((ha | ha) | ha) | ha)
      · exact hold (h.ended (.inr ha) hr)
      · exact hold (h.shutting (.inl ha))
      · exact hold (h.shutting (.inr ha))
      · exact hold (h.ended (.inl ha) hr)

theorem Kept.mayPuicToTcp (h : Kept told s) (env : Env)
    (ho : s.tcp.connecting = true → s.readSideClosed = false)
    (hc : told = true → s.tcp.connecting = true → s.tcp.writing = false →
      s.buf.getReadableRegions 4 = [] → s.seq.isClosed = true →
      (s.stopReading env).running = false) : Kept told (s.mayPuicToTcp env) := by
  rcases mayPuicToTcp_forms s env with he | ⟨-, regs, -, he⟩ | ⟨hw, hregs, hcl, he⟩
  · rwa [he]
  · rw [he]
    exact h.write env regs
  · have htame := tame_stopReading s env
    have hstop : Kept told (s.stopReading env) := by
      refine h.tame htame fun hr' hc' => ?_
      have hcon : s.tcp.connecting = true := htame.connecting ▸ hc'
      rcases h.stage (htame.running hr') hcon with hst | ⟨hrd, -⟩
      · have hle : s.seq.closeOffset ≤ s.buf.lastGap :=
          (of_decide_eq_true hcl).trans hst.2.wf.total_le_lastGap
        exact Stage.evolves (.inl hst) (evolves_stopReading env hst.2.reading hle)
      · rw [ho hcon] at hrd; cases hrd
    rw [he]
    split
    · next hr' =>
      refine hstop.finish hr' fun ht => ?_
      rw [htame.connecting]
      by_contra hcon
      rw [hc ht (by simpa using hcon) hw hregs hcl] at hr'
      cases hr'
    · exact hstop

/-! ## Frames -/

theorem Fresh.clear {closed : Bool} {q : Sequencer} (h : Fresh closed q) (ops : List BlockOp) :
    Fresh closed { q.clear with bufferedFrames := { q.clear.bufferedFrames with ops := ops } } where
  wf := (wf_clear h.wf.capPos (by rw [h.total]; decide)).congr rfl rfl rfl
  last := ⟨[], _, rfl⟩
  cap := (clear_cap _).trans h.cap
  total := (clear_total _).trans h.total
  reading := h.reading
  notClosed := h.notClosed

theorem Kept.clearBuf (h : Kept told s) : Kept told s.clearBuf := by
  refine h.tame (tame_setSeq s _) fun hr hc => ?_
  rcases h.stage hr hc with ⟨ho, hf⟩ | hend
  · exact .inl ⟨ho, hf.clear []⟩
  · exact .inr hend

/-- The FIN of a frame.  While the job is connecting, only one at offset 0 can end the stream. -/
theorem Kept.closeStreamAtOffset (h : Kept told s) (env : Env) (e : ℕ)
    (ho : s.tcp.connecting = true → s.readSideClosed = false)
    (hc : told = true → s.running = true → s.tcp.connecting = true → s.tcp.writing = false →
      s.closed = false → s.buf.getReadableRegions 4 = [] → s.seq.closeMismatch e = false →
      e ≤ s.buf.totalBytesRead →
      (stopReading { s with seq := { s.seq with closeOffset := e } } env).running = false) :
    Kept told (s.closeStreamAtOffset env e) := by
  unfold Relay.closeStreamAtOffset
  split
  · exact h.evolves (evolves_resetStream s env)
  next hmis =>
  have h1 : Kept told { s with seq := { s.seq with closeOffset := e } } := by
    refine h.tame ⟨⟨id, id⟩, .inl rfl, ⟨[], rfl, by simp⟩⟩ fun hr hc' => ?_
    rcases h.stage hr hc' with ⟨hop, hf⟩ | hend
    · exact .inl ⟨hop, hf.wf, hf.last, hf.cap, hf.total, hf.reading, hf.notClosed⟩
    · exact .inr hend
  unfold maybeCloseStream
  split
  · next hcl =>
    split
    · next hig =>
      refine Kept.clearBuf (h1.tame (tame_closeReadSide _) fun hr hc' => ?_)
      have hev := evolves_closeReadSide (.inl hig)
      exact (h1.stage (hev.running hr) (hev.connecting ▸ hc')).evolves hev
    · refine Kept.clearBuf ?_
      unfold onDataAvailable
      split
      · exact h1
      · next hrun =>
        simp only [Bool.or_eq_true, Bool.not_eq_true', not_or, Bool.not_eq_true, Bool.not_eq_false]
          at hrun
        exact h1.mayPuicToTcp env ho fun ht hcon hw hregs _ =>
          hc ht hrun.2 hcon hw hrun.1 hregs (by simpa using hmis) (of_decide_eq_true hcl)
  · exact h1

theorem Kept.setBuf (h : Kept told s) {b : SequencerBuffer} {n : ℕ}
    (hok : s.buf.onStreamData f.offset f.data = .ok (b, n)) : Kept told (s.setBuf b) := by
  refine h.tame (tame_setSeq s _) fun hr hc => ?_
  rcases h.stage hr hc with ⟨ho, hf⟩ | hend
  · refine .inl ⟨ho, ?_⟩
    have hlen := f.data_lt
    rcases onStreamData_cases hf.wf f.offset_lt (by omega) hok with ⟨-, rfl, -⟩ | ⟨-, hst, -⟩
    · exact ⟨hf.wf.congr rfl rfl rfl, hf.last, hf.cap, hf.total, hf.reading, hf.notClosed⟩
    · have hlast : Closed maxOffset b.gaps := by
        obtain ⟨p, g, q, hg, hlo, -, hg'⟩ := hst.gaps
        have hfits := hst.fits
        have hbig : kStreamReceiveWindowLimit < maxOffset := by decide
        have hc := hf.last
        rw [hf.cap, hf.total] at hfits
        rw [hg] at hc
        rw [hg']
        exact hc.replace hlo (by omega)
      exact ⟨(hst.wf hf.wf).congr rfl rfl rfl, hlast, hst.cap.trans hf.cap,
        hst.total.trans hf.total, hf.reading, hf.notClosed⟩
  · exact .inr hend

/-- The data of a frame is passed on, it does not end the stream. -/
theorem Kept.onFrameData (h : Kept told s) (env : Env) (f : StreamFrame) :
    Kept told (s.onFrameData env f) := by
  unfold Relay.onFrameData
  split
  · exact h.evolves (evolves_closeConnection s)
  next b n hok =>
  have h1 := h.setBuf hok
  split
  · exact h1
  next hn =>
  unfold notify
  split
  · next hoff =>
    split
    · next hig =>
      by_cases hst : s.running = true ∧ s.tcp.connecting = true
      · rcases h1.stage hst.1 hst.2 with ⟨-, hf⟩ | ⟨hrd, -⟩
        · rw [hf.reading] at hig; cases hig
        · exact h1.evolves (evolves_flushBufferedFrames env hig (.inl hrd))
      · have ht := tame_flushBufferedFrames (s.setBuf b) env
        exact h1.tame ht fun hr hc => absurd ⟨ht.running hr, ht.connecting ▸ hc⟩ hst
    · next hig =>
      unfold onDataAvailable
      split
      · exact h1
      next hrun =>
      simp only [Bool.or_eq_true, Bool.not_eq_true', not_or, Bool.not_eq_true, Bool.not_eq_false] at hrun
      have hopen : s.tcp.connecting = true → s.readSideClosed = false ∧ Fresh s.closed s.seq := by
        intro hc
        rcases h.stage hrun.2 hc with hf | ⟨-, hend⟩
        · exact hf
        · rcases hend with h2 | h2
          · exact absurd h2 hig
          · exact absurd (hrun.1.symm.trans h2) (by simp)
      refine h1.mayPuicToTcp env (fun hc => (hopen hc).1) fun _ hc _ hregs _ => ?_
      -- the data starts at the next byte, so there is something to read
      exfalso
      obtain ⟨-, hf⟩ := hopen hc
      have hlen := f.data_lt
      rcases onStreamData_cases hf.wf f.offset_lt (by omega) hok with ⟨hz, -⟩ | ⟨-, hst, -⟩
      · exact hn hz
      · have hoff' : f.offset = s.buf.totalBytesRead := hoff.trans hst.total
        have hgap := hst.firstGap_le_offset hf.wf
        have hle := hf.wf.total_le_firstGap
        have hlt := hst.lt_firstGap hf.wf (Nat.le_antisymm hgap (hoff'.trans_le hle))
        have hread : 0 < (s.setBuf b).buf.readableBytes := by
          show 0 < b.firstGap - b.totalBytesRead
          rw [hst.total]
          omega
        have hwf : WF (s.setBuf b).buf := (hst.wf hf.wf).congr rfl rfl rfl
        exact (getReadableRegions_covers 4 hwf hread).1 hregs
  · exact h1

/-- Data that ends where the 64-bit offsets wrap around is rejected. -/
theorem onStreamData_wraps {b : SequencerBuffer} {offset lo : ℕ} {data : List UInt8}
    (hg : b.gaps = [⟨lo, maxOffset⟩]) (hlo : lo ≤ offset) (hne : data ≠ []) (hpos : 0 < offset)
    (hend : offset + data.length = 2 ^ 64) : ∃ e, b.onStreamData offset data = .error e := by
  have hlen : data.length ≠ 0 := by simpa using hne
  simp only [onStreamData, hend, Nat.mod_self, hg, locate, if_neg hlen]
  split
  · exact ⟨_, rfl⟩
  next hloc =>
  split at hloc
  · simp at hloc
  · simp only [Option.some.injEq, Prod.mk.injEq] at hloc
    obtain ⟨-, rfl, -⟩ := hloc
    rw [if_neg (by dsimp only; omega), if_neg (by dsimp only; omega), if_neg (by omega),
      if_pos (.inr hpos)]
    exact ⟨_, rfl⟩

/-- A job that is still connecting and loses its PUIC connection never gets connected. -/
theorem Kept.closeConnection (h : Kept false s) (hconn : s.connected = true)
    (hr : s.running = true) (hc : s.tcp.connecting = true) : Kept true s.closeConnection := by
  have he := evolves_closeConnection s
  have h1 := h.evolves he
  have hok : s.closeConnection.tcp.connectOk = false := by
    by_contra hok
    have hok := h1.connectOk (by simpa using hok)
    rw [he.connecting, hc] at hok
    cases hok
  exact ⟨h1.shutting, h1.ended, h1.connectOk,
    fun _ _ => .inr ⟨closeConnection_closing hconn hr, hok⟩, h1.stage⟩

/-- The job is told the end of the stream by a frame whose end wraps around to 0; the data of the
    frame is an error then. -/
theorem onFrameData_wraps (hf : Fresh s.closed s.seq) (hr : s.running = true)
    (hconn : s.connected = true) (hw : s.tcp.writing = false)
    (hregs : s.buf.getReadableRegions 4 = []) (hmis : s.seq.closeMismatch f.endOffset = false)
    (hne : f.data ≠ []) (hend : f.endOffset = 0)
    (hsurv : (stopReading { s with seq := { s.seq with closeOffset := f.endOffset } } env).running =
      true) :
    ∃ s1, s.closeStreamAtOffset env f.endOffset = s1 ∧ s1.running = true ∧ s1.connected = true ∧
      s1.tcp.connecting = s.tcp.connecting ∧ s1.onFrameData env f = s1.closeConnection := by
  have hlen := f.data_lt
  have hoff := f.offset_lt
  have hpos : f.data.length ≠ 0 := by simpa using hne
  have hsum : f.offset + f.data.length = 2 ^ 64 := by
    unfold StreamFrame.endOffset at hend
    omega
  have hlast : s.buf.lastGap ≤ f.offset := by
    have h1 := hf.wf.lastGap_le hf.last.ne_nil
    have h2 := hf.cap
    have h3 := hf.total
    rw [kStreamReceiveWindowLimit] at h2
    unfold Relay.buf
    omega
  obtain ⟨s0, hs0⟩ :
      ∃ s0, ({ s with seq := { s.seq with closeOffset := f.endOffset } } : Relay) = s0 := ⟨_, rfl⟩
  have hwf : WF s0.buf := by subst hs0; exact hf.wf
  have hr0 : s0.running = true := by subst hs0; exact hr
  have hw0 : s0.tcp.writing = false := by subst hs0; exact hw
  have hig : s0.seq.ignoreReadData = false := by subst hs0; exact hf.reading
  have hcl0 : s0.closed = false := by subst hs0; exact hf.notClosed
  have hclosed : s0.seq.isClosed = true := by
    subst hs0
    show decide (f.endOffset ≤ _) = true
    rw [hend]
    simp
  have hle : s0.seq.closeOffset ≤ s0.buf.lastGap := (of_decide_eq_true hclosed).trans hwf.total_le_lastGap
  have hmay : s0.mayPuicToTcp env = ((s0.stopReading env).log .eof).shutdown := by
    rcases mayPuicToTcp_cases env hwf hr0 hw0 with ⟨hpos', -⟩ | ⟨-, hncl, -⟩ | ⟨-, -, he⟩
    · exact absurd (by subst hs0; exact hregs) (getReadableRegions_covers 4 hwf hpos').1
    · rw [hclosed] at hncl; cases hncl
    · rw [he, if_pos (by rw [← hs0]; exact hsurv)]
  rw [hs0] at hsurv
  obtain ⟨htot, -⟩ := stopReading_running env hig hle hsurv
  refine ⟨((s0.stopReading env).log .eof).shutdown.clearBuf, ?_, hsurv, ?_, ?_, ?_⟩
  · rw [closeStreamAtOffset, if_neg (by simp [hmis]), hs0, maybeCloseStream, if_pos hclosed,
      if_neg (by simp [hig]), onDataAvailable, if_neg (by simp [hcl0, hr0]), hmay]
  · show (s0.stopReading env).connected = true
    rw [stopReading_connected hsurv, ← hs0]
    exact hconn
  · show (s0.stopReading env).tcp.connecting = _
    rw [(tame_stopReading s0 env).connecting, ← hs0]
  · have hgaps : ((s0.stopReading env).log .eof).shutdown.clearBuf.buf.gaps =
        [⟨s.buf.lastGap, maxOffset⟩] := by
      show [(⟨(s0.stopReading env).buf.totalBytesRead, maxOffset⟩ : Gap)] = _
      rw [htot, ← hs0]
    obtain ⟨e, he⟩ := onStreamData_wraps hgaps hlast hne (by omega) hsum
    unfold Relay.onFrameData
    rw [he]

theorem Kept.onStreamFrame (h : Kept true s) (hconn : s.connected = true)
    (hcl : s.closed = false) (hgood : ¬ s.LosesShutdown (.frame f env)) :
    Kept true (s.onStreamFrame env f) := by
  unfold Relay.onStreamFrame
  split
  · exact h
  next ho =>
  have ho : s.readSideClosed = false := by simpa using ho
  split
  · exact h.evolves (evolves_closeConnection s)
  split
  · next hfin =>
    have hfresh : s.running = true → s.tcp.connecting = true → Fresh s.closed s.seq := by
      intro hr hc
      rcases h.stage hr hc with ⟨-, hf⟩ | ⟨hrd, -⟩
      · exact hf
      · rw [ho] at hrd; cases hrd
    split
    · next hdata =>
      refine h.closeStreamAtOffset env _ (fun _ => ho) fun _ hr hc hw _ hregs hmis hle => ?_
      have hf := hfresh hr hc
      have hend : f.endOffset = 0 := by
        have := hf.total
        unfold Relay.buf at hle
        omega
      have hoff : f.offset = 0 := by
        have := f.offset_lt
        unfold StreamFrame.endOffset at hend
        rw [hdata, List.length_nil] at hend
        omega
      rw [hend] at hmis
      have hread : s.buf.hasBytesToRead = false := by
        by_contra hread
        simp only [hasBytesToRead, Bool.not_eq_false, decide_eq_true_eq] at hread
        exact (getReadableRegions_covers 4 hf.wf hread).1 hregs
      refine stopReading_stopped hf.reading hconn ?_
      by_contra herr
      exact hgood ⟨hr, hc, hw, hcl, ho, hread, hmis, hfin, hdata, hoff, by simpa using herr⟩
    · next hne =>
      by_cases hwrap : s.running = true ∧ s.tcp.connecting = true ∧ s.tcp.writing = false ∧
          s.buf.getReadableRegions 4 = [] ∧ s.seq.closeMismatch f.endOffset = false ∧
          f.endOffset ≤ s.buf.totalBytesRead ∧
          (stopReading { s with seq := { s.seq with closeOffset := f.endOffset } } env).running = true
      · obtain ⟨hr, hc, hw, hregs, hmis, hle, hsurv⟩ := hwrap
        have hf := hfresh hr hc
        have hend : f.endOffset = 0 := by
          have := hf.total
          unfold Relay.buf at hle
          omega
        obtain ⟨s1, hs1, hr1, hconn1, hc1, hdrop⟩ :=
          onFrameData_wraps hf hr hconn hw hregs hmis hne hend hsurv
        have hk : Kept false s1 := by
          rw [← hs1]
          exact h.weaken.closeStreamAtOffset env _ (fun _ => ho) fun ht => absurd ht (by simp)
        rw [hs1, hdrop]
        exact hk.closeConnection hconn1 hr1 (hc1.trans hc)
      · refine Kept.onFrameData (h.closeStreamAtOffset env _ (fun _ => ho)
          fun _ hr hc hw _ hregs hmis hle => ?_) env f
        by_contra hsurv
        exact hwrap ⟨hr, hc, hw, hregs, hmis, hle, by simpa using hsurv⟩
  · exact h.onFrameData env f

/-! ## One step and a whole run -/

theorem Kept.onTCPConnSent (h : Kept told s) (hc : s.tcp.connecting = false) (env : Env) (len : ℕ) :
    Kept told (s.onTCPConnSent env len) := by
  have h1 := h.log (e := .sent len) (by simp)
  have h2 : Kept told ((s.log (.sent len)).connMarkConsumed env len) ∧
      ((s.log (.sent len)).connMarkConsumed env len).tcp.connecting = false := by
    unfold connMarkConsumed
    split
    · have he := evolves_resetStream (s.log (.sent len)) env
      exact ⟨h1.evolves he, he.connecting.trans hc⟩
    · next b hb =>
      have ht : Tame (s.log (.sent len)) (((s.log (.sent len)).setBuf b).sendFrame env.consumeErr) :=
        (tame_setSeq _ _).trans (evolves_sendFrame _ env.consumeErr).toTame
      refine ⟨h1.tame ht fun _ hc' => ?_, ht.connecting.trans hc⟩
      rw [ht.connecting.trans hc] at hc'
      cases hc'
  unfold Relay.onTCPConnSent ifRunning
  split
  · refine h2.1.mayPuicToTcp env (fun hc' => ?_) fun _ hc' => ?_ <;>
    · rw [h2.2] at hc'
      cases hc'
  · exact h2.1

theorem Kept.closeIf (h : Kept told s) {done : Bool}
    (hd : done = true → s.running = true → Accepted s.trace) : Kept told (s.closeIf done) := by
  unfold Relay.closeIf uvClose
  split
  · next hdone =>
    split
    · exact h
    · have h1 := h.setTcp { s.tcp with closing := true } id (fun _ => hd hdone) h.connectOk
        (fun _ h2 => ⟨rfl, h2⟩) id
      exact h1.log (by simp)
  · exact h

/-- **What an event preserves**, unless it is the FIN of an empty stream that comes too early. -/
theorem Kept.step (h : Kept true s) {a : RelayAct} (ha : ¬ s.LosesShutdown a)
    (hs : s.step a = some s') : Kept true s' := by
  cases step_cases hs with
  | frame hconn =>
    split
    · exact h
    · next hcl => exact h.onStreamFrame hconn (by simpa using hcl) ha
  | rstStream =>
    split
    · exact h
    · exact h.evolves (evolves_onStreamReset s _)
  | finSent =>
    exact h.evolves (evolves_closeWriteSide s)
  | connClosed =>
    exact h.evolves (evolves_closeConnection s)
  | connectDone =>
    have hfail : Kept true { s with tcp := { s.tcp with connecting := false } } :=
      h.setTcp _ id h.ended (fun _ => rfl) (fun h1 h2 => ⟨h1, h2⟩) fun h1 => by cases h1
    unfold onUvConnect
    split
    · exact hfail
    · next hcl =>
      -- a request that succeeds finds the connection open, so the end was accepted or not yet told
      have hgood : Kept true { s with tcp := { s.tcp with connecting := false, connectOk := true } } :=
        h.setTcp _ id h.ended (fun _ => rfl) (fun h1 _ => absurd h1 hcl) fun h1 => by cases h1
      split
      · split
        · exact hgood.evolves (evolves_clean _).1
        · exact hgood
      · exact hfail.evolves (evolves_clean _).1
  | writeDone hw hcon =>
    have hset : ∀ w, Kept true
        { s with tcp := { s.tcp with uvWrites := s.tcp.uvWrites.tail, writing := w } } := fun w =>
      h.setTcp _ id h.ended h.connectOk (fun h1 h2 => ⟨h1, h2⟩) id
    unfold onUvWrite
    split
    · exact hset s.tcp.writing
    split
    · exact (hset false).onTCPConnSent hcon _ _
    · exact (hset s.tcp.writing).evolves (evolves_clean _).1
  | shutdownDone hsh =>
    have hacc := h.shutting (.inl hsh)
    unfold onUvShutdown
    split
    · exact h.setTcp _ (fun _ => .inl hsh) h.ended h.connectOk (fun h1 h2 => ⟨h1, h2⟩) id
    split
    · have h1 := h.setTcp
        { s.tcp with shutting := false, shut := true, writing := false, writeof := true }
        (fun _ => .inl hsh) (fun _ _ => hacc) h.connectOk (fun h1 h2 => ⟨h1, h2⟩) id
      exact h1.closeIf fun _ _ => hacc
    · have h1 := h.setTcp { s.tcp with shutting := false, shut := false } (fun _ => .inl hsh)
        h.ended h.connectOk (fun h1 h2 => ⟨h1, h2⟩) id
      exact h1.evolves (evolves_clean _).1
  | tcpEof =>
    have h1 := h.setTcp { s.tcp with readeof := true } id h.ended h.connectOk (fun h1 h2 => ⟨h1, h2⟩) id
    exact h1.closeIf fun hw => h.ended (.inr hw)
  | tcpErr =>
    exact h.evolves (evolves_clean s).1
  | uvClosed hcl =>
    exact h.setTcp _ id (fun _ => h.ended (.inl hcl)) h.connectOk (fun h1 h2 => ⟨h1, h2⟩) id

theorem init_kept : Kept true (init false) where
  shutting h := by simp [init] at h
  ended h := by simp [init] at h
  connectOk h := by simp [init] at h
  eof _ h := by simp [init] at h
  stage _ _ := .inl ⟨rfl, wf_of_gaps (by decide) (by decide) rfl, ⟨[], 0, rfl⟩, rfl, rfl, rfl, rfl⟩

end Relay

/-- The FIN of an empty stream. -/
def emptyFin : StreamFrame := ⟨0, [], true, StreamFrame.zero_lt, by decide⟩

/-- The FIN arrives while the backend is being connected: the job has seen the end of the stream
    and is connected, but the only shutdown was rejected. -/
theorem early_fin_loses_shutdown :
    ∃ s, Machine.run Relay.step (Relay.init false)
        [.frame emptyFin .calm, .connectDone true false] = some s ∧
      .eof ∈ s.trace ∧ s.tcp.connectOk = true ∧ s.tcp.uvWrites = [] ∧ s.running = true ∧
      ¬ Accepted s.trace := by
  have h : (Machine.run step (init false)
      [.frame emptyFin .calm, .connectDone true false]).map
        (fun s => (s.trace, s.tcp.connectOk, s.tcp.uvWrites.isEmpty, s.running)) =
      some ([.shutdown false, .eof], true, true, true) := by decide +kernel
  obtain ⟨s, hs, he⟩ := Option.map_eq_some_iff.1 h
  simp only [Prod.mk.injEq, List.isEmpty_iff] at he
  obtain ⟨ht, hok, hw, hr⟩ := he
  refine ⟨s, hs, ?_, hok, hw, hr, ?_⟩
  · simp [ht]
  · simp [Accepted, ht]

/-- **Half-close is not lost** in runs of a proxy job without such a FIN: once the end of the stream
    has been reported and the backend is connected, a shutdown has been accepted, whether or not a
    write is under way. -/
theorem half_close_kept (as : List RelayAct)
    (h : Machine.Along Relay.step (fun s a => ¬ s.LosesShutdown a) (Relay.init false) as) (s : Relay)
    (hs : Machine.run Relay.step (Relay.init false) as = some s) (heof : .eof ∈ s.trace)
    (hok : s.tcp.connectOk = true) : Accepted s.trace := by
  have hk := Machine.run_inv_along (fun _ _ _ hI hC hstep => hI.step hC hstep) init_kept h hs
  rcases hk.eof rfl heof with hacc | ⟨-, hnot⟩
  · exact hacc
  · rw [hok] at hnot; cases hnot

/-- The same FIN after the connection is made. -/
theorem half_close_kept_late : ∃ s, Machine.run Relay.step (Relay.init false)
    [.connectDone true false, .frame emptyFin .calm] = some s ∧ .eof ∈ s.trace ∧ Accepted s.trace := by
  have hrun : (Machine.run step (init false)
      [.connectDone true false, .frame emptyFin .calm]).map
        (fun s => (decide (.eof ∈ s.trace), s.tcp.connectOk)) = some (true, true) := by
    decide +kernel
  obtain ⟨s, hs, he⟩ := Option.map_eq_some_iff.1 hrun
  simp only [Prod.mk.injEq, decide_eq_true_eq] at he
  obtain ⟨heof, hok⟩ := he
  refine ⟨s, hs, heof, half_close_kept _ ?_ s hs heof hok⟩
  refine ⟨by simp [LosesShutdown], fun s1 hs1 => ⟨?_, fun _ _ => trivial⟩⟩
  cases hs1
  simp [LosesShutdown, onUvConnect, init]

end Puic
