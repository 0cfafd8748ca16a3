/-
  The relay from PUIC to TCP passes on the bytes of the stream, in order and to
  the end.

  `B` is what the peer sends on the stream.  A job that is running on a stream
  that is not reset is in one of three states: it waits for the next byte, it has
  one write under way, or it has passed everything on and asked for the shutdown.
  In each of them the bytes passed on are the first bytes of `B`, those confirmed
  are the consumed ones, and there is nothing to read while it waits.
-/
import Puic.RelaySpec

namespace Puic

open GapList SequencerBuffer

variable {B : List UInt8}

/-- The bytes given to `Write`, for a trace with the newest event first. -/
def passed : List RelayEvent → List UInt8
  | [] => []
  | .pass _ data :: t => passed t ++ data
  | .op _ :: t | .sent _ :: t | .closing :: t | .eof :: t | .shutdown _ :: t => passed t

/-- How many bytes `OnTCPConnSent` has confirmed. -/
def confirmed : List RelayEvent → ℕ
  | [] => 0
  | .sent n :: t => confirmed t + n
  | .op _ :: t | .pass _ _ :: t | .closing :: t | .eof :: t | .shutdown _ :: t => confirmed t

/-- Whenever `Shutdown` was called, all of `B` had been passed on and confirmed. -/
def ShutdownsAfter (B : List UInt8) : List RelayEvent → Prop
  | [] => True
  | .shutdown _ :: t => passed t = B ∧ confirmed t = B.length ∧ ShutdownsAfter B t
  | .op _ :: t | .pass _ _ :: t | .sent _ :: t | .closing :: t | .eof :: t => ShutdownsAfter B t

/-- The frame carries a fragment of `B`, and its FIN stands at the end of it. -/
structure Fragment (B : List UInt8) (f : StreamFrame) : Prop where
  data : f.data = (B.drop f.offset).take f.data.length
  inside : f.offset + f.data.length ≤ B.length
  fin : f.fin = true → f.offset + f.data.length = B.length

/-- The peer sends fragments of `B`, in any order, and any of them again. -/
def RelayAct.Carries (B : List UInt8) : RelayAct → Prop
  | .frame f _ => Fragment B f
  | _ => True

theorem Fragment.getD {f : StreamFrame} (h : Fragment B f) {i : ℕ} (hi : i < f.data.length) :
    f.offset + i < B.length ∧ f.data.getD i 0 = B.getD (f.offset + i) 0 := by
  have hin := h.inside
  refine ⟨by omega, ?_⟩
  rw [h.data, List.getD_eq_getElem _ _ (by simp; omega), List.getD_eq_getElem _ _ (by omega)]
  simp

theorem Fragment.endOffset {f : StreamFrame} (h : Fragment B f) (hB : B.length < maxOffset)
    (hf : f.fin = true) : f.endOffset = B.length := by
  rw [StreamFrame.endOffset, h.fin hf]
  unfold maxOffset at hB
  omega

/-- The first `p` bytes of `B` have been passed on and `c` bytes are confirmed. -/
structure Sent (B : List UInt8) (t : List RelayEvent) (p c : ℕ) : Prop where
  passed : passed t = B.take p
  confirmed : confirmed t = c
  shutdowns : ShutdownsAfter B t

theorem Sent.quiet {t : List RelayEvent} {p c : ℕ} (h : Sent B t p c) :
    ∀ {l : List RelayEvent}, (∀ e ∈ l, e.Quiet) → Sent B (l ++ t) p c
  | [], _ => h
  | e :: l, hl => by
    obtain ⟨h1, h2, h3⟩ := h.quiet fun e he => hl e (.tail _ he)
    have he : e.Quiet := hl e (.head _)
    cases e with
    | op => exact ⟨h1, h2, h3⟩
    | closing => exact ⟨h1, h2, h3⟩
    | pass => exact he.elim
    | sent => exact he.elim
    | eof => exact he.elim
    | shutdown => exact he.elim

namespace Relay

variable {s s' : Relay} {f : StreamFrame} {env : Env} {p : ℕ}

/-! ## The invariant -/

/-- The stream is being read, and its first `p` bytes have been passed on. -/
structure Flowing (B : List UInt8) (s : Relay) (p : ℕ) : Prop where
  readSide : s.readSideClosed = false
  notClosed : s.closed = false
  reading : s.seq.ignoreReadData = false
  holds : Holds B s.buf
  total : s.buf.totalBytesRead ≤ B.length
  close : s.seq.closeOffset = maxOffset ∨ s.seq.closeOffset = B.length
  sent : Sent B s.trace p s.buf.totalBytesRead

/-- Everything passed on is confirmed, and the next bytes may be passed on. -/
structure Settled (B : List UInt8) (s : Relay) : Prop where
  flowing : Flowing B s s.buf.totalBytesRead
  using_ : Using s.tcp false
  noWrites : s.tcp.uvWrites = []

/-- The job waits for the next byte, or for the FIN. -/
structure Waiting (B : List UInt8) (s : Relay) : Prop extends Settled B s where
  drained : s.buf.readableBytes = 0
  notEnded : s.seq.isClosed = false

/-- The bytes from the consumed ones up to `p` are with libuv. -/
structure Writing (B : List UInt8) (s : Relay) (p : ℕ) : Prop where
  flowing : Flowing B s p
  using_ : Using s.tcp true
  write : ∃ regs, s.tcp.uvWrites = [(regs, p - s.buf.totalBytesRead)]
  more : s.buf.totalBytesRead < p
  arrived : p ≤ s.buf.firstGap

/-- The end of the stream has been reported, and the connection shut down. -/
structure Finished (B : List UInt8) (s : Relay) : Prop where
  readSide : s.readSideClosed = true
  total : s.buf.totalBytesRead = B.length
  gaps : s.buf.gaps = [⟨B.length, maxOffset⟩]
  notWriting : s.tcp.writing = false
  noWrites : s.tcp.uvWrites = []
  sent : Sent B s.trace B.length B.length
  eof : .eof ∈ s.trace
  shutdown : ∃ acc, .shutdown acc ∈ s.trace

/-- What a running job on a stream that is not reset looks like between two events. -/
def Relays (B : List UInt8) (s : Relay) : Prop :=
  s.running = true → s.reset = false → Waiting B s ∨ (∃ p, Writing B s p) ∨ Finished B s

theorem Relays.of_stopped (h : s.running = false) : Relays B s := fun hr => by
  rw [h] at hr; cases hr

theorem Relays.of_reset (h : s.reset = true) : Relays B s := fun _ hr => by
  rw [h] at hr; cases hr

/-! ## Passing data on -/

theorem Flowing.setBuf (h : Flowing B s p) {b : SequencerBuffer} (hb : Holds B b)
    (ht : b.totalBytesRead = s.buf.totalBytesRead) : Flowing B (s.setBuf b) p where
  readSide := h.readSide
  notClosed := h.notClosed
  reading := h.reading
  holds := ⟨hb.wf.congr rfl rfl rfl, hb.closed, hb.bytes⟩
  total := ht.trans_le h.total
  close := h.close
  sent := by
    have hq := h.sent.quiet (quiet_ops b.ops)
    rw [← ht] at hq
    exact hq

/-- The FIN is known and everything has been consumed: the job, if it survives, is finished. -/
theorem Settled.finish (h : Settled B s) (hB : B.length < maxOffset) (hr : s.running = true)
    (h0 : s.buf.readableBytes = 0) (hcl : s.seq.isClosed = true)
    (hr' : (s.mayPuicToTcp env).running = true) : Finished B (s.mayPuicToTcp env) := by
  have hfl := h.flowing
  have hclose : s.seq.closeOffset ≤ s.buf.totalBytesRead := of_decide_eq_true hcl
  have htot : s.buf.totalBytesRead = B.length := by
    have := hfl.total
    rcases hfl.close with hc | hc <;> omega
  have hlast : s.buf.lastGap = B.length := by
    have h1 := hfl.holds.lastGap_le hfl.total
    have h2 := hfl.holds.wf.total_le_lastGap
    omega
  have hle : s.seq.closeOffset ≤ s.buf.lastGap := by omega
  have hread := stopReading_readSideClosed env hfl.reading hle
  have hev := evolves_stopReading env hfl.reading hle
  rcases mayPuicToTcp_cases env hfl.holds.wf hr h.using_.writing with
    ⟨hpos, -⟩ | ⟨-, hncl, -⟩ | ⟨-, -, he⟩
  · omega
  · rw [hcl] at hncl; cases hncl
  · rw [he] at hr' ⊢
    split
    · next hrun =>
      obtain ⟨ht, hg⟩ := stopReading_running env hfl.reading hle hrun
      obtain ⟨l, hl, hq⟩ := hev.trace
      have htcp : (s.stopReading env).tcp = s.tcp := by
        rcases hev.tcp with h1 | ⟨h1, -⟩
        · exact h1
        · rw [hrun] at h1; cases h1
      have hsent : Sent B (s.stopReading env).trace B.length B.length := by
        rw [hl]
        have := hfl.sent.quiet hq
        rwa [htot] at this
      have hall : passed (s.stopReading env).trace = B := hsent.passed.trans List.take_length
      exact
        { readSide := hread
          total := ht.trans hlast
          gaps := by rw [← hlast]; exact hg
          notWriting := by
            show (s.stopReading env).tcp.writing = false
            rw [htcp]; exact h.using_.writing
          noWrites := by
            show (s.stopReading env).tcp.uvWrites = []
            rw [htcp]; exact h.noWrites
          sent := ⟨hsent.passed, hsent.confirmed, hall, hsent.confirmed, hsent.shutdowns⟩
          eof := .tail _ (.head _)
          shutdown := ⟨_, .head _⟩ }
    · next hrun =>
      rw [if_neg hrun] at hr'
      exact absurd hr' hrun

theorem Settled.mayPuicToTcp (h : Settled B s) (hB : B.length < maxOffset) (hr : s.running = true)
    (env : Env) : Relays B (s.mayPuicToTcp env) := by
  have hfl := h.flowing
  rcases mayPuicToTcp_cases env hfl.holds.wf hr h.using_.writing with
    ⟨hpos, regs, o', hne, ho', hcov, he⟩ | ⟨h0, hcl, he⟩ | ⟨h0, hcl, he⟩
  · have hlt := hcov.lt hne
    have hsum := hcov.sum_len
    by_cases hu : env.uvErr = true
    · refine .of_stopped ?_
      rw [he, write, uvWrite, if_neg (by simp [log, h.using_.writing, h.using_.notEof]; omega), if_pos hu]
      exact (evolves_clean _).2
    · intro _ _
      rw [he, write_accepted h.using_.writing h.using_.notEof (by omega) (by simpa using hu)]
      have hpass : passed s.trace ++ regs.flatMap s.buf.readRegion = B.take o' := by
        rw [hfl.sent.passed]
        exact hfl.holds.read hB hfl.total ho' hcov
      refine .inr (.inl ⟨o', ⟨hfl.readSide, hfl.notClosed, hfl.reading, hfl.holds, hfl.total,
        hfl.close, ⟨hpass, hfl.sent.confirmed, hfl.sent.shutdowns⟩⟩,
        ⟨rfl, h.using_.2, h.using_.3, h.using_.4⟩, ⟨regs, ?_⟩, hlt, ho'⟩)
      rw [h.noWrites, ← hsum, Nat.add_sub_cancel_left]
      rfl
  · rw [he]
    exact fun _ _ => .inl ⟨h, h0, hcl⟩
  · exact fun hr' _ => .inr (.inr (h.finish hB hr h0 hcl hr'))

/-! ## Frames -/

theorem Waiting.onFrameData (h : Waiting B s) (hB : B.length < maxOffset) (hf : Fragment B f)
    (hr : s.running = true) (hconn : s.connected = true) (env : Env) :
    Relays B (s.onFrameData env f) := by
  have hfl := h.flowing
  have hwf := hfl.holds.wf
  have hlen := f.data_lt
  unfold Relay.onFrameData
  split
  · exact .of_stopped (closeConnection_running hconn)
  next b n hok =>
  rcases onStreamData_cases hwf f.offset_lt (by omega) hok with ⟨rfl, rfl, -⟩ | ⟨rfl, hst, -⟩
  · rw [if_pos rfl]
    exact fun _ _ => .inl ⟨⟨hfl.setBuf hfl.holds rfl, h.using_, h.noWrites⟩, h.drained, h.notEnded⟩
  · have hpos := hst.pos
    have hin := hf.inside
    have hfl' := hfl.setBuf (hfl.holds.stored hst (by omega) fun i hi => hf.getD hi) hst.total
    rw [← show (s.setBuf b).buf.totalBytesRead = s.buf.totalBytesRead from hst.total] at hfl'
    have hset : Settled B (s.setBuf b) := ⟨hfl', h.using_, h.noWrites⟩
    rw [if_neg (by omega), notify_reading hfl'.reading]
    split
    · rw [onDataAvailable, if_neg (by simp [hfl'.notClosed]; exact hr)]
      exact hset.mayPuicToTcp hB hr env
    · next hoff =>
      -- elsewhere: the first gap stays, and there is still nothing to read
      have h0 := h.drained
      have hle := hwf.total_le_firstGap
      have htot : b.totalBytesRead = s.buf.totalBytesRead := hst.total
      have hne : s.buf.firstGap ≠ f.offset := by
        intro he
        apply hoff
        show f.offset = b.totalBytesRead
        unfold readableBytes at h0
        omega
      refine fun _ _ => .inl ⟨hset, ?_, ?_⟩
      · show b.firstGap - b.totalBytesRead = 0
        rw [hst.firstGap_eq hne, htot]
        exact h0
      · show decide (s.seq.closeOffset ≤ b.totalBytesRead) = false
        rw [htot]
        exact h.notEnded

theorem Writing.onFrameData (h : Writing B s p) (hB : B.length < maxOffset) (hf : Fragment B f)
    (hconn : s.connected = true) (env : Env) : Relays B (s.onFrameData env f) := by
  have hfl := h.flowing
  have hwf := hfl.holds.wf
  have hlen := f.data_lt
  have hin := hf.inside
  unfold Relay.onFrameData
  split
  · exact .of_stopped (closeConnection_running hconn)
  next b n hok =>
  have hset : Writing B (s.setBuf b) p := by
    rcases onStreamData_cases hwf f.offset_lt (by omega) hok with ⟨-, rfl, -⟩ | ⟨-, hst, -⟩
    · exact ⟨hfl.setBuf hfl.holds rfl, h.using_, h.write, h.more, h.arrived⟩
    · refine ⟨hfl.setBuf (hfl.holds.stored hst (by omega) fun i hi => hf.getD hi) hst.total,
        h.using_, ?_, ?_, h.arrived.trans (hst.firstGap_le hwf)⟩
      · show ∃ regs, s.tcp.uvWrites = [(regs, p - b.totalBytesRead)]
        rw [hst.total]
        exact h.write
      · show b.totalBytesRead < p
        rw [hst.total]
        exact h.more
  -- the job is told, but it is writing
  have hda : (s.setBuf b).onDataAvailable env = s.setBuf b := by
    simp [onDataAvailable, Relay.mayPuicToTcp, hset.using_.writing]
  rw [notify_reading hset.flowing.reading, hda, ite_self, ite_self]
  exact fun _ _ => .inr (.inl ⟨p, hset⟩)

/-- Everything up to the FIN has been consumed, so what comes with it is a duplicate. -/
theorem Finished.onFrameData (h : Finished B s) (hB : B.length < maxOffset) (hf : Fragment B f)
    (hne : f.data ≠ []) (env : Env) : Finished B (s.onFrameData env f) := by
  have hlen : 0 < f.data.length := List.length_pos_of_ne_nil hne
  have hin := hf.inside
  have hend : (f.offset + f.data.length) % 2 ^ 64 = f.offset + f.data.length :=
    Nat.mod_eq_of_lt (by unfold maxOffset at hB; omega)
  have hloc : locate s.seq.bufferedFrames.gaps f.offset = some ([], ⟨B.length, maxOffset⟩, []) := by
    rw [h.gaps, locate, if_neg (by dsimp only; omega)]
  have hok : s.seq.bufferedFrames.onStreamData f.offset f.data = .ok (s.buf, 0) := by
    simp only [onStreamData, hloc, hend]
    rw [if_neg (by omega), if_pos (by omega)]
  simp only [Relay.onFrameData, hok, if_true]
  exact
    { readSide := h.readSide
      total := h.total
      gaps := h.gaps
      notWriting := h.notWriting
      noWrites := h.noWrites
      sent := h.sent.quiet (quiet_ops _)
      eof := List.mem_append_right _ h.eof
      shutdown := h.shutdown.imp fun _ => List.mem_append_right _ }

theorem Finished.clearBuf (h : Finished B s) : Finished B s.clearBuf where
  readSide := h.readSide
  total := (clear_total _).trans h.total
  gaps := by rw [← h.total]; rfl
  notWriting := h.notWriting
  noWrites := h.noWrites
  sent := h.sent.quiet (quiet_ops _)
  eof := List.mem_append_right _ h.eof
  shutdown := h.shutdown.imp fun _ => List.mem_append_right _

theorem Flowing.setClose (h : Flowing B s p) :
    Flowing B { s with seq := { s.seq with closeOffset := B.length } } p :=
  ⟨h.readSide, h.notClosed, h.reading, h.holds, h.total, .inr rfl, h.sent⟩

theorem Flowing.closeStreamAtOffset (h : Flowing B s p) (env : Env) :
    s.closeStreamAtOffset env B.length =
      { s with seq := { s.seq with closeOffset := B.length } }.maybeCloseStream env := by
  rw [Relay.closeStreamAtOffset, if_neg]
  rcases h.close with hc | hc <;> simp [Sequencer.closeMismatch, hc]

/-- A FIN while a write is under way only says where the stream ends. -/
theorem Writing.closeStreamAtOffset (h : Writing B s p) (hB : B.length < maxOffset) (env : Env) :
    Writing B (s.closeStreamAtOffset env B.length) p ∧
      (s.closeStreamAtOffset env B.length).connected = s.connected := by
  have hfirst := h.flowing.holds.firstGap_le hB h.flowing.total
  have hmore := h.more
  have harr := h.arrived
  have hncl : ¬ ({ s.seq with closeOffset := B.length } : Sequencer).isClosed = true := by
    show ¬ decide (B.length ≤ s.buf.totalBytesRead) = true
    rw [decide_eq_true_eq]
    omega
  rw [h.flowing.closeStreamAtOffset, maybeCloseStream, if_neg hncl]
  exact ⟨⟨h.flowing.setClose, h.using_, h.write, hmore, harr⟩, rfl⟩

/-- A FIN while the job waits: it finishes at once if nothing is missing. -/
theorem Waiting.closeStreamAtOffset (h : Waiting B s) (hB : B.length < maxOffset)
    (hr : s.running = true) (env : Env) :
    (s.closeStreamAtOffset env B.length).running = false ∨
      Finished B (s.closeStreamAtOffset env B.length) ∨
      (Waiting B (s.closeStreamAtOffset env B.length) ∧
        (s.closeStreamAtOffset env B.length).running = true ∧
        (s.closeStreamAtOffset env B.length).connected = s.connected) := by
  have hset : Settled B { s with seq := { s.seq with closeOffset := B.length } } :=
    ⟨h.flowing.setClose, h.using_, h.noWrites⟩
  have h0 := h.drained
  rw [h.flowing.closeStreamAtOffset]
  unfold maybeCloseStream
  split
  · next hcl =>
    rw [if_neg (by simp [h.flowing.reading]), onDataAvailable, if_neg (by simp [h.flowing.notClosed, hr])]
    cases hrun : (Relay.mayPuicToTcp { s with seq := { s.seq with closeOffset := B.length } } env).running
    · exact .inl hrun
    · exact .inr (.inl (hset.finish hB hr h0 hcl hrun).clearBuf)
  · next hcl => exact .inr (.inr ⟨⟨hset, h0, by simpa using hcl⟩, hr, rfl⟩)

theorem Relays.onStreamFrame (h : Relays B s) (hB : B.length < maxOffset) (hf : Fragment B f)
    (hr : s.running = true) (hrst : s.reset = false) (hconn : s.connected = true) (env : Env) :
    Relays B (s.onStreamFrame env f) := by
  unfold Relay.onStreamFrame
  split
  · exact h
  next hread =>
  split
  · exact .of_stopped (closeConnection_running hconn)
  rcases h hr hrst with hw | ⟨p, hw⟩ | hfin
  · split
    · next hfin =>
      rw [hf.endOffset hB hfin]
      rcases hw.closeStreamAtOffset hB hr env with hstop | hdone | ⟨hw', hr', hc'⟩
      · split
        · exact .of_stopped hstop
        · exact .of_stopped ((later_onFrameData _ env f).stopped hstop)
      · split
        · exact fun _ _ => .inr (.inr hdone)
        · next hne => exact fun _ _ => .inr (.inr (hdone.onFrameData hB hf hne env))
      · split
        · exact fun _ _ => .inl hw'
        · exact hw'.onFrameData hB hf hr' (hc'.trans hconn) env
    · exact hw.onFrameData hB hf hr hconn env
  · split
    · next hfin =>
      rw [hf.endOffset hB hfin]
      obtain ⟨hw', hc'⟩ := hw.closeStreamAtOffset hB env
      split
      · exact fun _ _ => .inr (.inl ⟨p, hw'⟩)
      · exact hw'.onFrameData hB hf (hc'.trans hconn) env
    · exact hw.onFrameData hB hf hconn env
  · exact absurd hfin.readSide hread

/-! ## Completions -/

/-- The bytes of a completed write are consumed, and the next ones are passed on. -/
theorem Writing.onUvWrite (h : Writing B s p) (hB : B.length < maxOffset) (hr : s.running = true)
    (env : Env) {w : List Region × ℕ} {ws : List (List Region × ℕ)}
    (hw : s.tcp.uvWrites = w :: ws) : Relays B (s.onUvWrite env true w.2) := by
  obtain ⟨regs, hregs⟩ := h.write
  rw [hw] at hregs
  cases hregs
  have hfl := h.flowing
  have hmore := h.more
  have harr := h.arrived
  have hlen : p - s.buf.totalBytesRead ≤ s.buf.readableBytes := by
    unfold readableBytes; omega
  obtain ⟨b, hb⟩ := markConsumed_some hlen
  obtain ⟨-, hcons⟩ := markConsumed_consumed hfl.holds.wf hb
  have htot : b.totalBytesRead = p := by rw [hcons.total]; omega
  have hfirst := hfl.holds.firstGap_le hB hfl.total
  -- the job after the completion, with the bytes consumed
  obtain ⟨s1, hs1⟩ : ∃ s1, ({ s with tcp := { s.tcp with uvWrites := [], writing := false } }.log
      (.sent (p - s.buf.totalBytesRead))).setBuf b = s1 := ⟨_, rfl⟩
  have hset : Settled B s1 := by
    subst hs1
    refine ⟨⟨hfl.readSide, hfl.notClosed, hfl.reading, ?_, ?_, hfl.close, ?_⟩,
      ⟨rfl, h.using_.2, h.using_.3, h.using_.4⟩, rfl⟩
    · have hh := hfl.holds.consumed hlen hcons
      exact ⟨hh.wf.congr rfl rfl rfl, hh.closed, hh.bytes⟩
    · show b.totalBytesRead ≤ B.length
      omega
    · have hs : Sent B (.sent (p - s.buf.totalBytesRead) :: s.trace) p p :=
        ⟨hfl.sent.passed, by rw [confirmed, hfl.sent.confirmed]; omega, hfl.sent.shutdowns⟩
      show Sent B _ b.totalBytesRead b.totalBytesRead
      rw [htot]
      exact hs.quiet (quiet_ops b.ops)
  have hrun : s1.running = true := by subst hs1; exact hr
  have hdef : s.onUvWrite env true (p - s.buf.totalBytesRead) =
      (s1.sendFrame env.consumeErr).ifRunning env := by
    subst hs1
    rw [Relay.onUvWrite, if_neg (by simp [h.using_.notClosing]), if_pos rfl, hw, onTCPConnSent,
      connMarkConsumed]
    simp [log, hb]
  rw [hdef, ifRunning]
  split
  · next hr' =>
    rw [sendFrame_running hr']
    exact hset.mayPuicToTcp hB hrun env
  · next hr' => exact .of_stopped (by simpa using hr')

theorem Finished.setTcp (h : Finished B s) (t : TCPConn) (hw : t.writing = false)
    (hu : t.uvWrites = []) : Finished B { s with tcp := t } :=
  ⟨h.readSide, h.total, h.gaps, hw, hu, h.sent, h.eof, h.shutdown⟩

theorem Finished.closeIf (h : Finished B s) (done : Bool) : Finished B (s.closeIf done) := by
  unfold Relay.closeIf uvClose
  split
  · split
    · exact h
    · exact ⟨h.readSide, h.total, h.gaps, h.notWriting, h.noWrites,
        ⟨h.sent.passed, h.sent.confirmed, h.sent.shutdowns⟩, .tail _ h.eof,
        h.shutdown.imp fun _ => .tail _⟩
  · exact h

/-- The stream may be closed for good; its read side is closed already. -/
theorem Finished.closeWriteSide (h : Finished B s) : Finished B s.closeWriteSide := by
  have hw : ∀ w c, Finished B { s with writeSideClosed := w, closed := c } := fun _ _ =>
    ⟨h.readSide, h.total, h.gaps, h.notWriting, h.noWrites, h.sent, h.eof, h.shutdown⟩
  unfold Relay.closeWriteSide
  split
  · exact h
  · rw [if_pos h.readSide, closeStream]
    split
    · exact hw true s.closed
    · rw [releaseRead, if_pos h.readSide]
      exact hw true true

/-- Flags of the TCP connection that say nothing about its write side. -/
theorem Relays.setTcp (h : Relays B s) (t : TCPConn) (hw : t.writing = s.tcp.writing)
    (hc : t.closing = s.tcp.closing) (he : t.writeof = s.tcp.writeof)
    (hs : t.shutting = s.tcp.shutting) (hu : t.uvWrites = s.tcp.uvWrites) :
    Relays B { s with tcp := t } := by
  have husing : ∀ {w}, Using s.tcp w → Using t w := fun h' =>
    ⟨hw.trans h'.1, hc.trans h'.2, he.trans h'.3, hs.trans h'.4⟩
  have hflow : ∀ {p}, Flowing B s p → Flowing B { s with tcp := t } p := fun h' =>
    ⟨h'.readSide, h'.notClosed, h'.reading, h'.holds, h'.total, h'.close, h'.sent⟩
  intro hr hrst
  rcases h hr hrst with h' | ⟨p, h'⟩ | h'
  · exact .inl ⟨⟨hflow h'.flowing, husing h'.using_, hu.trans h'.noWrites⟩, h'.drained, h'.notEnded⟩
  · obtain ⟨regs, hregs⟩ := h'.write
    exact .inr (.inl ⟨p, hflow h'.flowing, husing h'.using_, ⟨regs, hu.trans hregs⟩, h'.more, h'.arrived⟩)
  · exact .inr (.inr (h'.setTcp t (hw.trans h'.notWriting) (hu.trans h'.noWrites)))

theorem Relays.closeWriteSide (h : Relays B s) (hr : s.running = true) (hrst : s.reset = false) :
    Relays B s.closeWriteSide := by
  intro _ _
  have hopen : s.readSideClosed = false → s.closeWriteSide = { s with writeSideClosed := true } := by
    intro ho
    unfold Relay.closeWriteSide
    split
    · next hw => rw [← hw]
    · rw [if_neg (by simp [ho])]
  have hflow : ∀ {p}, Flowing B s p → Flowing B { s with writeSideClosed := true } p := fun h' =>
    ⟨h'.readSide, h'.notClosed, h'.reading, h'.holds, h'.total, h'.close, h'.sent⟩
  rcases h hr hrst with h' | ⟨p, h'⟩ | h'
  · rw [hopen h'.flowing.readSide]
    exact .inl ⟨⟨hflow h'.flowing, h'.using_, h'.noWrites⟩, h'.drained, h'.notEnded⟩
  · rw [hopen h'.flowing.readSide]
    exact .inr (.inl ⟨p, hflow h'.flowing, h'.using_, h'.write, h'.more, h'.arrived⟩)
  · exact .inr (.inr h'.closeWriteSide)

/-- A running job that is not finished is using its TCP connection. -/
theorem Relays.using_or_finished (h : Relays B s) (hr : s.running = true) (hrst : s.reset = false) :
    Using s.tcp s.tcp.writing ∨ Finished B s := by
  rcases h hr hrst with h' | ⟨p, h'⟩ | h'
  · exact .inl (h'.using_.writing ▸ h'.using_)
  · exact .inl (h'.using_.writing ▸ h'.using_)
  · exact .inr h'

/-! ## One step and a whole run -/

/-- **What an event preserves**, if the peer sends fragments of `B`. -/
theorem Relays.step (h : Relays B s) (hB : B.length < maxOffset) {a : RelayAct}
    (ha : a.Carries B) (hs : s.step a = some s') : Relays B s' := by
  have hlater := later_step hs
  intro hr' hrst'
  have hr : s.running = true := hlater.running hr'
  have hrst : s.reset = false := by
    cases hx : s.reset
    · rfl
    · rw [hlater.reset hx] at hrst'; cases hrst'
  have hstate := h hr hrst
  have huse := h.using_or_finished hr hrst
  suffices hgoal : Relays B s' from hgoal hr' hrst'
  cases step_cases hs with
  | frame hconn =>
    split
    · exact h
    · exact h.onStreamFrame hB ha hr hrst hconn _
  | rstStream =>
    split
    · exact h
    · refine .of_reset ?_
      unfold onStreamReset
      split
      · exact (evolves_closeConnection _).reset rfl
      · exact (evolves_closeBoth _).reset rfl
  | finSent => exact h.closeWriteSide hr hrst
  | connClosed hconn => exact .of_stopped (closeConnection_running hconn)
  | connectDone =>
    unfold onUvConnect
    split_ifs
    · exact h.setTcp _ rfl rfl rfl rfl rfl
    · exact .of_stopped (evolves_clean _).2
    · exact h.setTcp _ rfl rfl rfl rfl rfl
    · exact .of_stopped (evolves_clean _).2
  | @writeDone ok env w ws hw =>
    rcases hstate with h' | ⟨p, h'⟩ | h'
    · rw [h'.noWrites] at hw; cases hw
    · cases ok
      · rw [Relay.onUvWrite, if_neg (by simp [h'.using_.notClosing]), if_neg (by simp)]
        exact .of_stopped (evolves_clean _).2
      · exact h'.onUvWrite hB hr env hw
    · rw [h'.noWrites] at hw; cases hw
  | shutdownDone hsh =>
    rcases huse with hu | hfin
    · rw [hu.notShutting] at hsh; cases hsh
    · unfold onUvShutdown
      split_ifs
      · exact fun _ _ => .inr (.inr (hfin.setTcp _ hfin.notWriting hfin.noWrites))
      · have hdone := hfin.setTcp
          { s.tcp with shutting := false, shut := true, writing := false, writeof := true } rfl
          hfin.noWrites
        exact fun _ _ => .inr (.inr (hdone.closeIf _))
      · exact .of_stopped (evolves_clean _).2
  | tcpEof =>
    unfold onUvReadEOF
    rcases huse with hu | hfin
    · rw [closeIf, if_neg (by simp [hu.notEof])]
      exact h.setTcp _ rfl rfl rfl rfl rfl
    · have hdone := hfin.setTcp { s.tcp with readeof := true } hfin.notWriting hfin.noWrites
      exact fun _ _ => .inr (.inr (hdone.closeIf _))
  | tcpErr => exact .of_stopped (evolves_clean s).2
  | uvClosed hcl =>
    rcases huse with hu | hfin
    · rw [hu.notClosing] at hcl; cases hcl
    · exact fun _ _ => .inr (.inr (hfin.setTcp _ rfl hfin.noWrites))

theorem holds_new (B : List UInt8) : Holds B (SequencerBuffer.new kStreamReceiveWindowLimit) where
  wf := wf_of_gaps (by decide) (by decide) rfl
  closed := ⟨[], 0, rfl⟩
  bytes x _ hx hm := absurd ⟨_, .head _, Nat.zero_le x, hx⟩ hm

theorem init_relays (B : List UInt8) (agent : Bool) : Relays B (init agent) :=
  fun _ _ => .inl
    { flowing := ⟨rfl, rfl, rfl, holds_new B, Nat.zero_le _, .inl rfl, ⟨rfl, rfl, trivial⟩⟩
      using_ := ⟨rfl, rfl, rfl, rfl⟩
      noWrites := rfl
      drained := rfl
      notEnded := rfl }

theorem run_relays (hB : B.length < maxOffset) {agent : Bool} {as : List RelayAct}
    (ha : ∀ a ∈ as, a.Carries B) (hs : Machine.run Relay.step (init agent) as = some s) :
    Relays B s := by
  have hC : Machine.Along Relay.step (fun _ a => a.Carries B) (init agent) as := .of_forall ha
  exact Machine.run_inv_along (fun _ _ _ hI hC hstep => hI.step hB hC hstep) (init_relays B agent) hC hs

end Relay

/-- **Relay fidelity**: what a running job has passed on is a prefix of the stream, one write at a
    time, and it shuts the TCP connection down only after everything is sent. -/
theorem relay_passes_prefix (B : List UInt8) (hB : B.length < maxOffset) (agent : Bool)
    (as : List RelayAct) (ha : ∀ a ∈ as, a.Carries B) (s : Relay)
    (hs : Machine.run Relay.step (Relay.init agent) as = some s) (hr : s.running = true)
    (hrst : s.reset = false) :
    passed s.trace <+: B ∧ s.tcp.uvWrites.length ≤ 1 ∧ ShutdownsAfter B s.trace := by
  rcases Relay.run_relays hB ha hs hr hrst with h | ⟨p, h⟩ | h
  · obtain ⟨hp, -, hsh⟩ := h.flowing.sent
    exact ⟨hp ▸ List.take_prefix _ B, by simp [h.noWrites], hsh⟩
  · obtain ⟨hp, -, hsh⟩ := h.flowing.sent
    obtain ⟨regs, hregs⟩ := h.write
    exact ⟨hp ▸ List.take_prefix _ B, by simp [hregs], hsh⟩
  · obtain ⟨hp, -, hsh⟩ := h.sent
    exact ⟨hp ▸ List.take_prefix _ B, by simp [h.noWrites], hsh⟩

/-- The second byte with the FIN, which arrives first, and the first byte. -/
def twoByteRun : List RelayAct :=
  [.frame ⟨1, [2], true, by decide, by decide⟩ .calm,
    .frame ⟨0, [1], false, by decide, by decide⟩ .calm, .connectDone true false, .writeDone true .calm]

theorem twoByteRun_carries : ∀ a ∈ twoByteRun, a.Carries [1, 2] := by
  intro a ha
  simp only [twoByteRun, List.mem_cons, List.not_mem_nil, or_false] at ha
  rcases ha with rfl | rfl | rfl | rfl
  · exact ⟨rfl, by decide, fun _ => rfl⟩
  · exact ⟨rfl, by decide, fun h => by cases h⟩
  · trivial
  · trivial

theorem relay_passes_prefix_two : ∃ s, Machine.run Relay.step (Relay.init false) twoByteRun = some s ∧
    passed s.trace = [1, 2] ∧ .shutdown true ∈ s.trace ∧ s.tcp.uvWrites.length ≤ 1 ∧
      ShutdownsAfter [1, 2] s.trace := by
  have h : (Machine.run Relay.step (Relay.init false) twoByteRun).map
      (fun s => (passed s.trace, decide (.shutdown true ∈ s.trace), s.running, s.reset)) =
      some ([1, 2], true, true, false) := by decide +kernel
  obtain ⟨s, hs, he⟩ := Option.map_eq_some_iff.1 h
  simp only [Prod.mk.injEq, decide_eq_true_eq] at he
  obtain ⟨hp, hsh, hr, hrst⟩ := he
  have hall := relay_passes_prefix [1, 2] (by decide) false twoByteRun twoByteRun_carries s hs hr hrst
  exact ⟨s, hs, hp, hsh, hall.2⟩

/-- **The relay never stalls**: if a running job can read, a write is under way, and once it has
    consumed everything up to the FIN, it has seen the end and shut the TCP connection down. -/
theorem relay_never_stalls (B : List UInt8) (hB : B.length < maxOffset) (agent : Bool)
    (as : List RelayAct) (ha : ∀ a ∈ as, a.Carries B) (s : Relay)
    (hs : Machine.run Relay.step (Relay.init agent) as = some s) (hr : s.running = true)
    (hrst : s.reset = false) :
    (s.seq.bufferedFrames.hasBytesToRead = true → s.tcp.writing = true ∧ s.tcp.uvWrites ≠ []) ∧
      (s.seq.isClosed = true → .eof ∈ s.trace ∧ ∃ acc, .shutdown acc ∈ s.trace) := by
  rcases Relay.run_relays hB ha hs hr hrst with h | ⟨p, h⟩ | h
  · refine ⟨fun hread => ?_, fun hcl => ?_⟩
    · have h0 : s.buf.readableBytes = 0 := h.drained
      simp [hasBytesToRead, h0] at hread
    · rw [h.notEnded] at hcl; cases hcl
  · obtain ⟨regs, hregs⟩ := h.write
    refine ⟨fun _ => ⟨h.using_.writing, by simp [hregs]⟩, fun hcl => ?_⟩
    have hclose : s.seq.closeOffset ≤ s.buf.totalBytesRead := of_decide_eq_true hcl
    have hfirst := h.flowing.holds.firstGap_le hB h.flowing.total
    have hmore := h.more
    have harr := h.arrived
    rcases h.flowing.close with hc | hc <;> omega
  · refine ⟨fun hread => ?_, fun _ => ⟨h.eof, h.shutdown⟩⟩
    have h0 : s.buf.readableBytes = 0 := by
      rw [readableBytes, firstGap, h.gaps, h.total]
      exact Nat.sub_self _
    simp [hasBytesToRead, h0] at hread

theorem relay_never_stalls_two : ∃ s, Machine.run Relay.step (Relay.init false) twoByteRun = some s ∧
    s.seq.isClosed = true ∧ .eof ∈ s.trace ∧ ∃ acc, .shutdown acc ∈ s.trace := by
  have h : (Machine.run Relay.step (Relay.init false) twoByteRun).map
      (fun s => (s.seq.isClosed, s.running, s.reset)) = some (true, true, false) := by decide +kernel
  obtain ⟨s, hs, he⟩ := Option.map_eq_some_iff.1 h
  simp only [Prod.mk.injEq] at he
  obtain ⟨hcl, hr, hrst⟩ := he
  have hall := relay_never_stalls [1, 2] (by decide) false twoByteRun twoByteRun_carries s hs hr hrst
  exact ⟨s, hs, hcl, hall.2 hcl⟩

/-- **The relay is complete**: when all of the stream and its FIN have arrived and no write is under
    way, a running job has passed on the whole stream, with every byte confirmed, and shut the TCP
    connection down. -/
theorem relay_delivers_all (hB : B.length < maxOffset) {agent : Bool} {as : List RelayAct}
    (ha : ∀ a ∈ as, a.Carries B) {s : Relay} (hs : Machine.run Relay.step (Relay.init agent) as = some s)
    (hr : s.running = true) (hrst : s.reset = false) (harr : B.length ≤ s.buf.firstGap)
    (hfin : s.seq.closeOffset ≠ maxOffset) (hw : s.tcp.uvWrites = []) :
    passed s.trace = B ∧ confirmed s.trace = B.length ∧ .eof ∈ s.trace ∧
      ∃ acc, .shutdown acc ∈ s.trace := by
  rcases Relay.run_relays hB ha hs hr hrst with h | ⟨p, h⟩ | h
  · -- the job would wait for a byte behind the FIN
    have hclose := h.flowing.close.resolve_left hfin
    have hread : s.buf.firstGap ≤ s.buf.totalBytesRead := Nat.sub_eq_zero_iff_le.1 h.drained
    exact absurd (hclose.trans_le (harr.trans hread)) (of_decide_eq_false h.notEnded)
  · obtain ⟨regs, hregs⟩ := h.write
    rw [hw] at hregs
    cases hregs
  · exact ⟨h.sent.passed.trans List.take_length, h.sent.confirmed, h.eof, h.shutdown⟩

theorem relay_delivers_all_two : ∃ s, Machine.run Relay.step (Relay.init false) twoByteRun = some s ∧
    passed s.trace = [1, 2] := by
  obtain ⟨s, hs, he⟩ := Option.map_eq_some_iff.1 (by decide +kernel :
    (Machine.run Relay.step (Relay.init false) twoByteRun).map (fun s =>
      (s.running, s.reset, s.buf.firstGap, s.seq.closeOffset, s.tcp.uvWrites.length)) =
        some (true, false, 2, 2, 0))
  simp only [Prod.mk.injEq] at he
  obtain ⟨hr, hrst, harr, hfin, hw⟩ := he
  exact ⟨s, hs, (relay_delivers_all (by decide) twoByteRun_carries hs hr hrst harr.ge
    (by rw [hfin]; decide)
    (List.length_eq_zero_iff.1 hw)).1⟩

end Puic
