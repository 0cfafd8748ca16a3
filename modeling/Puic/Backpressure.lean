/-
  A `ProxyJob` that relays a TCP connection to the preset stream: the direction
  from TCP to PUIC (puic_proxy.cc; puic_agent.cc with agent_server.cc).

  What is read from TCP is written to the stream, which buffers what it cannot
  send.  The job stops reading once `PUICCONN_WRITEBUF_UPPER` bytes are buffered
  and starts again when a call of `OnCanWrite` leaves at most
  `PUICCONN_WRITEBUF_LOWER`.  The job does not look at the stream by itself: it
  goes by the amount `ConnWrite` returns and by the one `OnCanWrite` reports, and
  `PuicStream::OnCanWrite` does not report in every state.

  The stream is the one of `SendStream`, with every answer of the session and the
  connection left to the environment.
-/
import Puic.Lib.Run
import Puic.SendStream

namespace Puic

open SendStream

def puicconnWritebufLower : ℕ := 4 * 1024
def puicconnWritebufUpper : ℕ := 8 * 1024
def tcpconnReadbufSize : ℕ := 16 * 1024

/-- `reading` and `readeof` are those of the `TCPConn` (`AgentConn`), `closed` that of the
    `PuicStream`.  `bound` says that both connections stand, so that TCP data can arrive, and
    `started` that reading was started once. -/
structure Uplink where
  running : Bool
  bound : Bool
  started : Bool
  reading : Bool
  readeof : Bool
  closed : Bool
  stream : SendStream
deriving Repr

/-- What the environment decides while an action runs: what the stream is answered; `connErr`, a
    write to the network fails, which closes the connection and cleans up the job; `readErr`,
    `uv_read_start` fails. -/
structure UplinkEnv where
  write : WriteEnv
  connErr : Bool
  readErr : Bool

inductive UplinkAct where
  /-- `OnTCPConnBound`, and `OnPUICConnConnected` in the agent -/
  | bound (readErr : Bool)
  /-- `OnTCPConnRcvd` with `n` bytes -/
  | rcvd (n : ℕ) (env : UplinkEnv)
  /-- `OnTCPConnEOF` -/
  | eof (env : UplinkEnv)
  /-- the session calls `OnCanWrite` of the stream -/
  | canWrite (env : UplinkEnv)
  /-- a WINDOW_UPDATE frame for the stream -/
  | windowUpdate (offset : ℕ) (env : UplinkEnv)
  | acked (length : ℕ) (fin : Bool)
  | lost (offset length : ℕ) (fin : Bool)
  | retransmitted (offset length : ℕ) (fin : Bool)
  /-- the session closes the stream (a RST_STREAM, or both sides are done) -/
  | close
  /-- anything that makes the job clean up -/
  | stop

namespace Uplink

/-- The job when its stream is handed to it. -/
def init (window : ℕ) : Uplink where
  running := true
  bound := false
  started := false
  reading := false
  readeof := false
  closed := false
  stream := .new window [] true

variable (s : Uplink)

def clean : Uplink := { s with running := false }

def startRead (readErr : Bool) : Uplink :=
  if s.reading || s.readeof then s
  else if readErr then s.clean
  else { s with reading := true, started := true }

def stopRead : Uplink :=
  if !s.reading || s.readeof then s else { s with reading := false }

def mayTcpToPuic (buffered : ℕ) (readErr : Bool) : Uplink :=
  if puicconnWritebufUpper ≤ buffered then s.stopRead
  else if buffered ≤ puicconnWritebufLower then s.startRead readErr
  else s

/-- The stream after a call into its sending code. -/
def setWritten (w : Written) : Uplink :=
  { s with stream := if w.finished then { w.stream with writeSideClosed := true } else w.stream }

/-- `ConnWrite`, with the amount it stores in `buffered`, which the job has set to 0. -/
def connWrite (n : ℕ) (fin : Bool) (e : WriteEnv) : Uplink × ℕ :=
  if s.stream.finSent then (s, 0)
  else
    let s' := s.setWritten (s.stream.writeOrBufferData n fin e)
    (s', s'.stream.bufferedDataBytes)

def onTCPConnRcvd (n : ℕ) (env : UplinkEnv) : Uplink :=
  let p := s.connWrite n false env.write
  if env.connErr then p.1.clean else p.1.mayTcpToPuic p.2 env.readErr

/-- `OnTCPConnEOF` and what `on_uv_read` does after it. -/
def onTCPConnEOF (env : UplinkEnv) : Uplink :=
  let p := s.connWrite 0 true env.write
  { p.1 with running := p.1.running && !env.connErr, reading := false, readeof := true }

/-- `PuicStream::OnCanWrite`; the delegate passes the call on to `OnPUICConnCanWrite`. -/
def onCanWrite (env : UplinkEnv) : Uplink :=
  let s' := s.setWritten (s.stream.onCanWrite env.write)
  if env.connErr then s'.clean
  else if s'.closed || s'.stream.writeSideClosed || s'.stream.finBuffered then s'
  else s'.mayTcpToPuic s'.stream.bufferedDataBytes env.readErr

/-- `OnWindowUpdateFrame`. -/
def onWindowUpdateFrame (offset : ℕ) (env : UplinkEnv) : Uplink :=
  let p := s.stream.flow.updateSendWindowOffset offset
  let s' := { s with stream := { s.stream with flow := p.1 } }
  if p.2 then s'.onCanWrite env else s'

def step (a : UplinkAct) : Option Uplink :=
  if s.running then
    match a with
    | .bound readErr =>
      if s.bound then none else some ({ s with bound := true }.startRead readErr)
    | .rcvd n env =>
      if s.bound ∧ s.reading ∧ s.readeof = false ∧ 0 < n ∧ n ≤ tcpconnReadbufSize then
        some (s.onTCPConnRcvd n env)
      else none
    | .eof env =>
      if s.bound ∧ s.reading ∧ s.readeof = false then some (s.onTCPConnEOF env) else none
    | .canWrite env => some (s.onCanWrite env)
    | .windowUpdate offset env => some (s.onWindowUpdateFrame offset env)
    | .acked length fin =>
      match s.stream.onStreamFrameAcked length fin with
      | some st => some { s with stream := st }
      | none => some s.clean
    | .lost offset length fin =>
      some { s with stream := s.stream.onStreamFrameLost offset length fin }
    | .retransmitted offset length fin =>
      some { s with stream := s.stream.onStreamFrameRetransmitted offset length fin }
    | .close => some { s with closed := true, stream := { s.stream with writeSideClosed := true } }
    | .stop => some s.clean
  else none

/-! ## What may be buffered -/

/-- Before TCP EOF no FIN was written. -/
structure Plain (st : SendStream) : Prop where
  finBuffered : st.finBuffered = false
  finSent : st.finSent = false

/-- The amount that `upper - 1` buffered bytes and one read add up to. -/
def mostBuffered : ℕ := puicconnWritebufUpper - 1 + tcpconnReadbufSize

/-- Reading is on below the upper mark and off above the lower one; before it was first started
    nothing is buffered. -/
def Level (started reading : Bool) (buffered : ℕ) : Prop :=
  if started then
    if reading then buffered < puicconnWritebufUpper
    else puicconnWritebufLower < buffered ∧ buffered ≤ mostBuffered
  else reading = false ∧ buffered = 0

/-- The invariant of a running job before TCP EOF. -/
structure Balanced (s : Uplink) : Prop where
  plain : Plain s.stream
  closed : s.closed = true → s.stream.writeSideClosed = true
  unbound : s.bound = false → s.stream.bufferedDataBytes = 0
  level : Level s.started s.reading s.stream.bufferedDataBytes

/-- The invariant: nothing is asked of a job that was cleaned up or has seen TCP EOF. -/
def Inv : Prop := s.running = true → s.readeof = false → s.Balanced

variable {s : Uplink}

variable {b n : ℕ} {st : SendStream} {s' : Uplink}

theorem Level.le_mostBuffered {started reading : Bool} (h : Level started reading b) :
    b ≤ mostBuffered := by
  simp only [Level, mostBuffered, puicconnWritebufUpper, puicconnWritebufLower, tcpconnReadbufSize] at h ⊢
  split at h
  · split at h <;> omega
  · omega

theorem inv_clean (s : Uplink) : Inv s.clean := fun h => absurd h (by simp [clean])

/-- Whatever the job did before, the decision made with the true amount sets the balance right. -/
theorem inv_mayTcpToPuic (readErr : Bool) (hp : Plain s.stream)
    (hc : s.closed = true → s.stream.writeSideClosed = true)
    (hu : s.bound = false → s.stream.bufferedDataBytes = 0)
    (hb : s.stream.bufferedDataBytes ≤ mostBuffered)
    (hs : s.started = false → s.reading = false ∧ s.stream.bufferedDataBytes = 0) :
    Inv (s.mayTcpToPuic s.stream.bufferedDataBytes readErr) := by
  have hupper : puicconnWritebufUpper = 8192 := rfl
  have hlower : puicconnWritebufLower = 4096 := rfl
  -- with something buffered, reading was started
  have hstarted : 0 < s.stream.bufferedDataBytes → s.started = true := by
    intro hpos
    by_contra h
    have := (hs (by simpa using h)).2
    omega
  intro hr he
  unfold mayTcpToPuic at hr he ⊢
  split at hr
  · next hge =>
    rw [if_pos hge] at he ⊢
    have hst := hstarted (by omega)
    unfold stopRead at he ⊢
    split
    · next h =>
      rw [if_pos h] at he
      have hoff : s.reading = false := by simpa [he] using h
      exact ⟨hp, hc, hu, by rw [Level, if_pos hst, hoff, if_neg (by simp)]; omega⟩
    · refine ⟨hp, hc, hu, ?_⟩
      rw [Level, if_pos hst, if_neg (by simp)]
      exact ⟨by dsimp only; omega, hb⟩
  next hlt =>
  rw [if_neg hlt] at he ⊢
  split at hr
  · next hle =>
    rw [if_pos hle] at he ⊢
    unfold startRead at hr he ⊢
    split
    · next h =>
      rw [if_pos h] at he
      have hon : s.reading = true := by simpa [he] using h
      have hst : s.started = true := by
        by_contra h'
        rw [(hs (by simpa using h')).1] at hon
        cases hon
      exact ⟨hp, hc, hu, by rw [Level, if_pos hst, if_pos hon]; omega⟩
    next h =>
    rw [if_neg h] at hr
    split
    · next herr => rw [if_pos herr] at hr; exact absurd hr (by simp [clean])
    · refine ⟨hp, hc, hu, ?_⟩
      rw [Level, if_pos rfl, if_pos rfl]
      dsimp only; omega
  · next hgt =>
    rw [if_neg hgt] at he ⊢
    refine ⟨hp, hc, hu, ?_⟩
    rw [Level, if_pos (hstarted (by omega))]
    split
    · omega
    · exact ⟨by omega, hb⟩

/-- What `OnCanWrite` does to a stream without a FIN: it may send, unless the write side is
    closed. -/
structure Drained (st st' : SendStream) : Prop where
  plain : Plain st'
  le : st'.bufferedDataBytes ≤ st.bufferedDataBytes
  writeSideClosed : st'.writeSideClosed = st.writeSideClosed
  same : st.writeSideClosed = true → st'.bufferedDataBytes = st.bufferedDataBytes

theorem drained_writeBufferedData (e : WriteEnv) (hp : Plain st)
    (hw : st.writeSideClosed = false) : (st.writeBufferedData e).finished = false ∧
      Drained st (st.writeBufferedData e).stream := by
  rcases st.writeBufferedData_cases e with ⟨m, h, -⟩ | ⟨k, m, -, h, -⟩ | ⟨m, hfin, -⟩
  · rw [h]; exact ⟨rfl, hp, Nat.le_refl _, rfl, fun _ => rfl⟩
  · rw [h]
    refine ⟨rfl, ⟨hp.finBuffered, hp.finSent⟩, ?_, rfl, fun hc => ?_⟩
    · rw [bufferedDataBytes_consume]; omega
    · rw [hw] at hc; cases hc
  · rw [hp.finBuffered] at hfin; cases hfin

theorem drained_onCanWrite (e : WriteEnv) (hp : Plain st) :
    (st.onCanWrite e).finished = false ∧ Drained st (st.onCanWrite e).stream := by
  rcases st.onCanWrite_cases e with ⟨-, st', rs, hk, h⟩ | ⟨-, h, -⟩ | ⟨-, hw, -, h⟩
  · rw [h]
    exact ⟨rfl, ⟨hk.finBuffered.trans hp.finBuffered, hk.finSent.trans hp.finSent⟩,
      Nat.le_of_eq hk.bufferedDataBytes, hk.writeSideClosed, fun _ => hk.bufferedDataBytes⟩
  · rw [h]; exact ⟨rfl, hp, Nat.le_refl _, rfl, fun _ => rfl⟩
  · rw [h]; exact drained_writeBufferedData e hp hw

theorem writeOrBufferData_le (n : ℕ) (e : WriteEnv) (hp : Plain st) :
    (st.writeOrBufferData n false e).finished = false ∧
      Plain (st.writeOrBufferData n false e).stream ∧
      (st.writeOrBufferData n false e).stream.bufferedDataBytes ≤ st.bufferedDataBytes + n := by
  have hsave : Plain (st.save n false) := ⟨rfl, hp.finSent⟩
  have hle : (st.save n false).bufferedDataBytes ≤ st.bufferedDataBytes + n := by
    simp only [bufferedDataBytes, save]; omega
  rcases st.writeOrBufferData_cases n false e with h | ⟨-, hw, ⟨-, h⟩ | h⟩
  · rw [h]; exact ⟨rfl, hp, Nat.le_add_right _ _⟩
  · rw [h]; exact ⟨rfl, hsave, hle⟩
  · rw [h]
    obtain ⟨hf, hd⟩ := drained_writeBufferedData e hsave hw
    exact ⟨hf, hd.plain, Nat.le_trans hd.le hle⟩

theorem setWritten_of_not_finished {w : Written} (h : w.finished = false) :
    s.setWritten w = { s with stream := w.stream } := by
  rw [setWritten, if_neg (by simp [h])]

@[simp] theorem startRead_readeof (readErr : Bool) : (s.startRead readErr).readeof = s.readeof := by
  unfold startRead
  split
  · rfl
  · split <;> rfl

@[simp] theorem mayTcpToPuic_readeof (b : ℕ) (readErr : Bool) :
    (s.mayTcpToPuic b readErr).readeof = s.readeof := by
  unfold mayTcpToPuic
  split
  · unfold stopRead; split <;> rfl
  · split
    · exact startRead_readeof readErr
    · rfl

@[simp] theorem mayTcpToPuic_stream (b : ℕ) (readErr : Bool) :
    (s.mayTcpToPuic b readErr).stream = s.stream := by
  unfold mayTcpToPuic
  split
  · unfold stopRead; split <;> rfl
  · split
    · unfold startRead
      split
      · rfl
      · split <;> rfl
    · rfl

theorem onCanWrite_readeof (env : UplinkEnv) : (s.onCanWrite env).readeof = s.readeof := by
  unfold onCanWrite
  dsimp only
  split
  · rfl
  · split
    · rfl
    · exact mayTcpToPuic_readeof _ _

theorem inv_of_readeof (h : s'.readeof = s.readeof) (he : s.readeof = true) : Inv s' := by
  intro _ he'
  rw [h, he] at he'
  cases he'

/-! ## Every step keeps the balance -/

theorem Balanced.of_started (hb : s.Balanced) (h : s.started = false) :
    s.reading = false ∧ s.stream.bufferedDataBytes = 0 := by
  have := hb.level
  rwa [Level, if_neg (by simp [h])] at this

/-- Only the lost ranges and the counts of what was sent before changed. -/
theorem Balanced.keeps (hb : s.Balanced) (hk : s.stream.Keeps st) :
    Balanced { s with stream := st } where
  plain := ⟨hk.finBuffered.trans hb.plain.finBuffered, hk.finSent.trans hb.plain.finSent⟩
  closed h := hk.writeSideClosed.trans (hb.closed h)
  unbound h := hk.bufferedDataBytes.trans (hb.unbound h)
  level := by
    rw [hk.bufferedDataBytes]
    exact hb.level

theorem inv_onCanWrite (env : UplinkEnv) (h : Inv s) (hr : s.running = true) :
    Inv (s.onCanWrite env) := by
  by_cases he : s.readeof = true
  · exact inv_of_readeof (onCanWrite_readeof env) he
  have hb := h hr (by simpa using he)
  obtain ⟨hfin, hd⟩ := drained_onCanWrite env.write hb.plain
  rw [onCanWrite, setWritten_of_not_finished hfin]
  generalize (s.stream.onCanWrite env.write).stream = st at hd ⊢
  have hclosed : s.closed = true → st.writeSideClosed = true := fun h' =>
    hd.writeSideClosed.trans (hb.closed h')
  have hzero : s.stream.bufferedDataBytes = 0 → st.bufferedDataBytes = 0 := by
    have := hd.le
    omega
  split
  · exact inv_clean _
  split
  · next hno =>
    -- no report to the job: the write side is closed, and so nothing was sent
    have hw : st.writeSideClosed = true := by
      simp only [hd.plain.finBuffered, Bool.or_false, Bool.or_eq_true] at hno
      exact hno.elim hclosed id
    intro _ _
    refine ⟨hd.plain, hclosed, fun hu => hzero (hb.unbound hu), ?_⟩
    have hsame := hd.same (hd.writeSideClosed.symm.trans hw)
    rw [hsame]
    exact hb.level
  · refine inv_mayTcpToPuic env.readErr hd.plain hclosed ?_ ?_ ?_
    · exact fun hu => hzero (hb.unbound hu)
    · exact Nat.le_trans hd.le hb.level.le_mostBuffered
    · exact fun hs => (hb.of_started hs).imp_right hzero

theorem connWrite_data (e : WriteEnv) (hp : Plain s.stream) : s.connWrite n false e =
    ({ s with stream := (s.stream.writeOrBufferData n false e).stream },
      (s.stream.writeOrBufferData n false e).stream.bufferedDataBytes) := by
  have hfin := (writeOrBufferData_le n e hp).1
  rw [connWrite, hp.finSent, if_neg (by simp), setWritten_of_not_finished hfin]

theorem inv_onTCPConnRcvd (env : UplinkEnv) (hb : s.Balanced) (hbound : s.bound = true)
    (hon : s.reading = true) (hn : n ≤ tcpconnReadbufSize) : Inv (s.onTCPConnRcvd n env) := by
  have hst : s.started = true := by
    by_contra h
    rw [(hb.of_started (by simpa using h)).1] at hon
    cases hon
  have hlow : s.stream.bufferedDataBytes < puicconnWritebufUpper := by
    have := hb.level
    rwa [Level, if_pos hst, if_pos hon] at this
  obtain ⟨-, hplain, hle⟩ := writeOrBufferData_le n env.write hb.plain
  rw [onTCPConnRcvd, connWrite_data env.write hb.plain]
  have hclosed : s.closed = true →
      (s.stream.writeOrBufferData n false env.write).stream.writeSideClosed = true := by
    intro hc
    rw [writeOrBufferData, if_pos (.inr (.inr (hb.closed hc)))]
    exact hb.closed hc
  generalize (s.stream.writeOrBufferData n false env.write).stream = st at hplain hle hclosed ⊢
  split
  · exact inv_clean _
  · refine inv_mayTcpToPuic env.readErr hplain hclosed ?_ ?_ ?_
    · exact fun h => absurd (hbound.symm.trans h) (by simp)
    · show st.bufferedDataBytes ≤ puicconnWritebufUpper - 1 + tcpconnReadbufSize
      omega
    · exact fun h => absurd (hst.symm.trans h) (by simp)

/-- Starting to read when both connections stand: nothing was read before. -/
theorem inv_bound (readErr : Bool) (h : Inv s) (hr : s.running = true) (hbound : s.bound = false) :
    Inv ({ s with bound := true }.startRead readErr) := by
  by_cases he : s.readeof = true
  · exact inv_of_readeof (startRead_readeof readErr) he
  have hb := h hr (by simpa using he)
  have hzero := hb.unbound hbound
  unfold startRead
  split
  · exact fun _ _ => ⟨hb.plain, hb.closed, fun h => absurd h (by simp), hb.level⟩
  split
  · exact inv_clean _
  · refine fun _ _ => ⟨hb.plain, hb.closed, fun h => absurd h (by simp), ?_⟩
    rw [Level, if_pos rfl, if_pos rfl]
    rw [hzero]
    decide

theorem inv_setFlow {f : FlowController} (h : Inv s) :
    Inv { s with stream := { s.stream with flow := f } } := by
  intro hr he
  obtain ⟨hp, hc, hu, hl⟩ := h hr he
  exact ⟨⟨hp.finBuffered, hp.finSent⟩, hc, hu, hl⟩

theorem inv_onWindowUpdateFrame (offset : ℕ) (env : UplinkEnv) (h : Inv s)
    (hr : s.running = true) : Inv (s.onWindowUpdateFrame offset env) := by
  unfold onWindowUpdateFrame
  dsimp only
  split
  · exact inv_onCanWrite env (inv_setFlow h) hr
  · exact inv_setFlow h

theorem inv_step {a : UplinkAct} (h : Inv s) (hs : s.step a = some s') : Inv s' := by
  unfold step at hs
  split at hs
  · next hr =>
    cases a with
    | bound readErr =>
      dsimp only at hs
      split at hs
      · cases hs
      · next hb => cases hs; exact inv_bound readErr h hr (by simpa using hb)
    | rcvd n env =>
      dsimp only at hs
      split at hs
      · next hg =>
        cases hs
        exact inv_onTCPConnRcvd env (h hr hg.2.2.1) hg.1 hg.2.1 hg.2.2.2.2
      · cases hs
    | eof env =>
      dsimp only at hs
      split at hs
      · cases hs
        intro _ he
        cases he
      · cases hs
    | canWrite env => cases hs; exact inv_onCanWrite env h hr
    | windowUpdate offset env => cases hs; exact inv_onWindowUpdateFrame offset env h hr
    | acked length fin =>
      dsimp only at hs
      split at hs
      · next st hst => cases hs; exact fun hr he => (h hr he).keeps (keeps_acked hst)
      · cases hs; exact inv_clean s
    | lost offset length fin =>
      cases hs
      exact fun hr he => (h hr he).keeps (keeps_lost _ _ _ _)
    | retransmitted offset length fin =>
      cases hs
      exact fun hr he => (h hr he).keeps (keeps_retransmitted _ _ _ _)
    | close =>
      cases hs
      intro hr he
      obtain ⟨hp, -, hu, hl⟩ := h hr he
      exact ⟨⟨hp.finBuffered, hp.finSent⟩, fun _ => rfl, hu, hl⟩
    | stop => cases hs; exact inv_clean s
  · cases hs

theorem inv_init (window : ℕ) : Inv (init window) := fun _ _ =>
  ⟨⟨rfl, rfl⟩, fun h => absurd h (by simp [init]), fun _ => rfl, ⟨rfl, rfl⟩⟩

theorem run_inv {window : ℕ} {as : List UplinkAct} (h : Machine.run step (init window) as = some s) :
    Inv s :=
  Machine.run_inv (fun _ _ _ hI hs => inv_step hI hs) (inv_init window) h

/-- A job whose reading is stopped starts again with the first report of a low amount. -/
theorem mayTcpToPuic_reading (hr : s.readeof = false) (hb : b ≤ puicconnWritebufLower) :
    (s.mayTcpToPuic b false).reading = true := by
  have hupper : puicconnWritebufUpper = 8192 := rfl
  have hlower : puicconnWritebufLower = 4096 := rfl
  rw [mayTcpToPuic, if_neg (by omega), if_pos hb, startRead]
  split
  · next h => simpa [hr] using h
  · rw [if_neg (by simp)]

end Uplink

/-- **Backpressure.**  In every run, while the job runs, after reading was first started and before
    TCP EOF: the stream never buffers more than the upper mark less one and one read; with TCP
    reading stopped it buffers more than the lower mark; and the call of `OnCanWrite` that drains it
    to the lower mark starts the reading again, unless `uv_read_start` or the connection fails or the
    stream was closed meanwhile. -/
theorem backpressure_bounded {window : ℕ} {as : List UplinkAct} {s : Uplink}
    (h : Machine.run Uplink.step (Uplink.init window) as = some s) (hr : s.running = true)
    (hs : s.started = true) (he : s.readeof = false) :
    s.stream.bufferedDataBytes ≤ puicconnWritebufUpper - 1 + tcpconnReadbufSize ∧
    (s.reading = false → puicconnWritebufLower < s.stream.bufferedDataBytes) ∧
    ∀ env : UplinkEnv, env.connErr = false → env.readErr = false → s.closed = false →
      s.stream.writeSideClosed = false →
      (s.onCanWrite env).stream.bufferedDataBytes ≤ puicconnWritebufLower →
      (s.onCanWrite env).reading = true := by
  have hb := Uplink.run_inv h hr he
  refine ⟨hb.level.le_mostBuffered, fun hoff => ?_, ?_⟩
  · have := hb.level
    rw [Uplink.Level, if_pos hs, if_neg (by simp [hoff])] at this
    exact this.1
  · intro env hconn hread hclosed hwrite hlow
    obtain ⟨hfin, hd⟩ := Uplink.drained_onCanWrite env.write hb.plain
    rw [Uplink.onCanWrite, Uplink.setWritten_of_not_finished hfin] at hlow ⊢
    generalize (s.stream.onCanWrite env.write).stream = st at hd hlow ⊢
    have hw : st.writeSideClosed = false := hd.writeSideClosed.trans hwrite
    simp only [hconn, hclosed, hw, hd.plain.finBuffered, hread, Bool.or_self, Bool.false_eq_true,
      if_false, Uplink.mayTcpToPuic_stream] at hlow ⊢
    exact Uplink.mayTcpToPuic_reading he hlow

/-- The connection takes `replies`, and nothing fails. -/
def UplinkEnv.calm (replies : List Consumed) : UplinkEnv :=
  ⟨⟨false, 100000, 0, replies⟩, false, false⟩

/-- Two reads while the connection takes nothing. -/
def twoReads : List UplinkAct := [.bound false, .rcvd 100 (.calm []), .rcvd 16384 (.calm [])]

/-- Reading stops with 16484 bytes buffered and goes on when all but 4096 are taken. -/
theorem backpressure_bounded_stopped :
    ∃ s, Machine.run Uplink.step (Uplink.init 100000) twoReads = some s ∧ s.reading = false ∧
      puicconnWritebufLower < s.stream.bufferedDataBytes ∧
      (s.onCanWrite (.calm [⟨12388, false⟩])).reading = true :=
  have h := @backpressure_bounded 100000 twoReads _ rfl rfl rfl rfl
  ⟨_, rfl, rfl, h.2.1 rfl, h.2.2 (.calm [⟨12388, false⟩]) rfl rfl rfl rfl (by decide)⟩

end Puic
