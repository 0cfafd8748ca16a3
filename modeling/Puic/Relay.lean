/-
  A `ProxyJob` that relays the preset stream of a connection to a TCP connection
  (puic_proxy.cc; puic_agent.cc with agent_server.cc).

  The model is the direction from PUIC to TCP: the receive side of the preset
  stream (quic_stream.cc, puic_stream.cc, with the buffer and the sequencer), the
  job, and the TCP connection with what libuv holds for it.  Data arrives in the
  buffer; `may_puic_to_tcp` hands the readable regions to `uv_write` without
  copying them; they are consumed when the write completes.

  A state is what there is between two events, and an action is one event with
  all the callbacks it causes.  What the modelled code does not decide is an
  argument of the action (`Env`, status codes).  `TCPConn` and `AgentConn` have
  the same code; the two jobs differ in the order in which `clean` closes the two
  sides, and in that the agent's TCP connection is connected from the start.

  `trace` is not part of the source: it lists, newest first, the operations on
  the blocks of the buffer and the calls between the job and the TCP connection.
-/
import Puic.Lib.Run
import Puic.Sequencer

namespace Puic

inductive RelayEvent where
  | op (op : BlockOp)
  /-- `Write(bufs)` is called: the regions and the bytes they show. -/
  | pass (regs : List Region) (data : List UInt8)
  /-- `OnTCPConnSent(len)` is delivered. -/
  | sent (len : ℕ)
  /-- `uv_close` is called: the TCP connection starts closing. -/
  | closing
  /-- `may_puic_to_tcp` is told `PUISRVERR_EOF`. -/
  | eof
  /-- `Shutdown()` is called, and whether `uv_shutdown` accepts the request. -/
  | shutdown (accepted : Bool)
deriving Repr, DecidableEq

/-- `TCPConn` and its handle.  `uvWrites` are the write requests accepted and not completed,
    `shutting` and `shut` the flags of the handle.  Whether it is reading belongs to the other
    direction; a connection that `Start` could not begin to connect is closed at once and does not
    occur here. -/
structure TCPConn where
  connecting : Bool
  connectOk : Bool
  readeof : Bool
  writing : Bool
  writeof : Bool
  closing : Bool
  shutting : Bool
  shut : Bool
  uvWrites : List (List Region × ℕ)
deriving Repr, DecidableEq

/-- Whether `Shutdown` gets a request through to the stream: one that is not connected or already
    shut down rejects it. -/
def TCPConn.acceptsShutdown (t : TCPConn) : Bool :=
  !t.writeof && !t.connecting && !t.shutting && !t.shut && !t.closing

structure Relay where
  agent : Bool
  running : Bool
  /-- the QUIC connection is connected -/
  connected : Bool
  seq : Sequencer
  readSideClosed : Bool
  writeSideClosed : Bool
  /-- `closed_` of the stream: the session has closed it -/
  closed : Bool
  /-- a RST_STREAM was received or sent -/
  reset : Bool
  tcp : TCPConn
  trace : List RelayEvent

/-- What the environment decides while an action runs: `viol`, the flow control finds the frame to
    be a violation; `rstErr`, `consumeErr` and `flushErr`, writing the RST_STREAM of `Reset` or the
    WINDOW_UPDATE after `MarkConsumed` or `FlushBufferedFrames` fails, which closes the connection;
    `uvErr`, `uv_write` rejects the request. -/
structure Env where
  viol : Bool
  rstErr : Bool
  consumeErr : Bool
  flushErr : Bool
  uvErr : Bool
deriving Repr, DecidableEq

/-- Nothing goes wrong. -/
def Env.calm : Env := ⟨false, false, false, false, false⟩

namespace Relay

/-- The job after `OnAccept`, and after `OnPUICConnConnected` in the agent. -/
def init (agent : Bool) : Relay where
  agent := agent
  running := true
  connected := true
  seq := .new
  readSideClosed := false
  writeSideClosed := false
  closed := false
  reset := false
  tcp :=
    { connecting := !agent, connectOk := agent, readeof := false, writing := false,
      writeof := false, closing := false, shutting := false, shut := false, uvWrites := [] }
  trace := []

variable (s : Relay) (env : Env)

def log (e : RelayEvent) : Relay := { s with trace := e :: s.trace }

/-- The sequencer after a call; what it did to the blocks goes to the trace. -/
def setSeq (q : Sequencer) : Relay :=
  { s with
    seq := { q with bufferedFrames := { q.bufferedFrames with ops := [] } }
    trace := (q.bufferedFrames.ops.map .op).reverse ++ s.trace }

def setBuf (b : SequencerBuffer) : Relay :=
  s.setSeq { s.seq with bufferedFrames := b }

/-- `Clear` of the buffer. -/
def clearBuf : Relay := s.setSeq s.seq.clear

/-! ## The stream -/

/-- `CloseReadSide` up to `CloseStream`. -/
def releaseRead : Relay :=
  if s.readSideClosed then s
  else { s with readSideClosed := true }.setSeq s.seq.releaseBuffer

/-- `QuicSession::CloseStream` and `PuicStream::OnClose`, which the delegate ignores. -/
def closeStream : Relay :=
  if s.closed then s
  else { ({ s with closed := true } : Relay).releaseRead with writeSideClosed := true }

def closeReadSide : Relay :=
  if s.readSideClosed then s
  else if s.writeSideClosed then s.releaseRead.closeStream
  else s.releaseRead

def closeWriteSide : Relay :=
  if s.writeSideClosed then s
  else if s.readSideClosed then { s with writeSideClosed := true }.closeStream
  else { s with writeSideClosed := true }

/-! ## Tearing down -/

/-- `TCPConn::close`. -/
def uvClose : Relay :=
  if s.tcp.closing then s else { s with tcp := { s.tcp with closing := true } }.log .closing

/-- Both directions of the TCP connection are done. -/
def closeIf (done : Bool) : Relay := if done then s.uvClose else s

/-- `QuicConnection::CloseConnection` as far as the stream: `QuicStream::OnConnectionClosed`. -/
def dropConn : Relay :=
  if s.connected then
    if s.readSideClosed && s.writeSideClosed then { s with connected := false }
    else { s with connected := false }.closeWriteSide.closeReadSide
  else s

/-- `ProxyJob::clean`.  The connection has no job any more when it is closed. -/
def clean : Relay :=
  if s.running then
    if s.agent then { s with running := false }.uvClose.dropConn
    else { s with running := false }.dropConn.uvClose
  else s

/-- The connection is closed and `OnDisconnected` reaches the job, if there is one. -/
def closeConnection : Relay :=
  if s.connected then s.dropConn.clean else s

/-- A frame is sent, and the connection closed if the packet cannot be written. -/
def sendFrame (err : Bool) : Relay := if err then s.closeConnection else s

/-- `QuicStream::Reset`. -/
def resetStream : Relay :=
  ({ s with reset := true }.sendFrame env.rstErr).closeStream

/-! ## Reading to the end -/

/-- `MaybeCloseStream` when `ignore_read_data_` is set: it calls `OnFinRead`. -/
def maybeFinRead : Relay :=
  if s.seq.isClosed then s.closeReadSide.clearBuf else s

/-- `FlushBufferedFrames` of the sequencer. -/
def flushBufferedFrames : Relay :=
  ((s.setSeq s.seq.flush).sendFrame env.flushErr).maybeFinRead

def stopReading : Relay :=
  if s.seq.ignoreReadData then s
  else { s with seq := { s.seq with ignoreReadData := true } }.flushBufferedFrames env

/-- `PUICSERVER_ConnReadableRegions`: the regions, and whether it returns `PUISRVERR_EOF`. -/
def connReadableRegions (count : ℕ) : Relay × List Region × Bool :=
  let regs := s.seq.bufferedFrames.getReadableRegions count
  if regs = [] ∧ s.seq.isClosed then (s.stopReading env, [], true) else (s, regs, false)

/-! ## The job and the TCP connection -/

/-- `TCPConn::Shutdown`, which ignores what `uv_shutdown` returns. -/
def shutdown : Relay :=
  { s with tcp := { s.tcp with shutting := s.tcp.shutting || s.tcp.acceptsShutdown } }.log
    (.shutdown s.tcp.acceptsShutdown)

/-- `TCPConn::Write`; `OnTCPConnErr` cleans up the job. -/
def uvWrite (regs : List Region) (len : ℕ) : Relay :=
  if s.tcp.writing || len = 0 || s.tcp.writeof then s
  else if env.uvErr then s.clean
  else { s with tcp := { s.tcp with writing := true, uvWrites := s.tcp.uvWrites ++ [(regs, len)] } }

def write (regs : List Region) : Relay :=
  (s.log (.pass regs (regs.flatMap s.seq.bufferedFrames.readRegion))).uvWrite env regs
    (regs.map Region.len).sum

def mayPuicToTcp : Relay :=
  if s.tcp.writing then s
  else
    match s.connReadableRegions env 4 with
    | (s, regs, eof) =>
      if s.running then
        if eof then (s.log .eof).shutdown
        else if regs = [] then s
        else s.write env regs
      else s

/-- `PuicStream::OnDataAvailable`, up to the job if there is one. -/
def onDataAvailable : Relay :=
  if s.closed || !s.running then s else s.mayPuicToTcp env

/-! ## Frames -/

def maybeCloseStream : Relay :=
  if s.seq.isClosed then
    if s.seq.ignoreReadData then s.closeReadSide.clearBuf else (s.onDataAvailable env).clearBuf
  else s

def closeStreamAtOffset (offset : ℕ) : Relay :=
  if s.seq.closeMismatch offset then s.resetStream env
  else { s with seq := { s.seq with closeOffset := offset } }.maybeCloseStream env

/-- Data has been stored at `offset`: whoever reads is told if it is the next byte. -/
def notify (offset : ℕ) : Relay :=
  if offset = s.seq.bufferedFrames.totalBytesRead then
    if s.seq.ignoreReadData then s.flushBufferedFrames env else s.onDataAvailable env
  else s

/-- The data of a frame, after its FIN. -/
def onFrameData (f : StreamFrame) : Relay :=
  match s.seq.bufferedFrames.onStreamData f.offset f.data with
  | .error _ => s.closeConnection
  | .ok (b, n) => if n = 0 then s.setBuf b else (s.setBuf b).notify env f.offset

/-- `QuicStream::OnStreamFrame` and `QuicStreamSequencer::OnStreamFrame`. -/
def onStreamFrame (f : StreamFrame) : Relay :=
  if s.readSideClosed then s
  else if f.data ≠ [] ∧ env.viol then s.closeConnection
  else if f.fin then
    if f.data = [] then s.closeStreamAtOffset env f.endOffset
    else (s.closeStreamAtOffset env f.endOffset).onFrameData env f
  else s.onFrameData env f

/-- `QuicStream::OnStreamReset`. -/
def onStreamReset (viol : Bool) : Relay :=
  if viol then { s with reset := true }.closeConnection
  else { s with reset := true }.closeWriteSide.closeReadSide

/-! ## Completions -/

/-- `PUICSERVER_ConnMarkConsumed`. -/
def connMarkConsumed (len : ℕ) : Relay :=
  match s.seq.bufferedFrames.markConsumed len with
  | none => s.resetStream env
  | some b => (s.setBuf b).sendFrame env.consumeErr

/-- `may_puic_to_tcp` unless the job is gone. -/
def ifRunning : Relay := if s.running then s.mayPuicToTcp env else s

/-- `OnTCPConnSent`. -/
def onTCPConnSent (len : ℕ) : Relay :=
  ((s.log (.sent len)).connMarkConsumed env len).ifRunning env

/-- `on_uv_write` for the oldest request. -/
def onUvWrite (ok : Bool) (len : ℕ) : Relay :=
  if s.tcp.closing then { s with tcp := { s.tcp with uvWrites := s.tcp.uvWrites.tail } }
  else if ok then
    { s with tcp := { s.tcp with uvWrites := s.tcp.uvWrites.tail, writing := false } }.onTCPConnSent
      env len
  else { s with tcp := { s.tcp with uvWrites := s.tcp.uvWrites.tail } }.clean

/-- `on_uv_connect`; on success `OnTCPConnBound` starts reading. -/
def onUvConnect (ok readErr : Bool) : Relay :=
  if s.tcp.closing then { s with tcp := { s.tcp with connecting := false } }
  else if ok then
    if readErr then { s with tcp := { s.tcp with connecting := false, connectOk := true } }.clean
    else { s with tcp := { s.tcp with connecting := false, connectOk := true } }
  else { s with tcp := { s.tcp with connecting := false } }.clean

def onUvShutdown (ok : Bool) : Relay :=
  if s.tcp.closing then { s with tcp := { s.tcp with shutting := false, shut := ok } }
  else if ok then
    { s with
      tcp := { s.tcp with shutting := false, shut := true, writing := false, writeof := true } }.closeIf
      s.tcp.readeof
  else { s with tcp := { s.tcp with shutting := false, shut := false } }.clean

/-- `on_uv_read` with `UV_EOF`; what it writes to the stream is the other direction. -/
def onUvReadEOF : Relay :=
  { s with tcp := { s.tcp with readeof := true } }.closeIf s.tcp.writeof

def onUvClose : Relay :=
  { s with tcp := { s.tcp with readeof := true, writing := false, writeof := true } }

end Relay

inductive RelayAct where
  /-- a STREAM frame for the stream -/
  | frame (f : StreamFrame) (env : Env)
  /-- a RST_STREAM for the stream, and whether it violates the flow control -/
  | rstStream (viol : Bool)
  /-- the FIN of the stream has been sent -/
  | finSent
  /-- the connection is closed by the peer, by a timeout or by a failed write -/
  | connClosed
  | connectDone (ok readErr : Bool)
  | writeDone (ok : Bool) (env : Env)
  | shutdownDone (ok : Bool)
  | tcpEof
  /-- a failed read, or `uv_read_start` fails -/
  | tcpErr
  | uvClosed

/-- One event.  Frames for a closed stream do not reach it.  Of libuv it is assumed that writes
    complete in order and only when the connect request is done, that a shutdown completes after
    the writes, and that the requests of a closing handle complete before `on_uv_close`. -/
def Relay.step (s : Relay) : RelayAct → Option Relay
  | .frame f env =>
    if s.connected then some (if s.closed then s else s.onStreamFrame env f) else none
  | .rstStream viol =>
    if s.connected then some (if s.closed then s else s.onStreamReset viol) else none
  | .finSent => if s.connected then some s.closeWriteSide else none
  | .connClosed => if s.connected then some s.closeConnection else none
  | .connectDone ok readErr =>
    if s.tcp.connecting && !(ok && s.tcp.closing) then some (s.onUvConnect ok readErr) else none
  | .writeDone ok env =>
    match s.tcp.uvWrites with
    | w :: _ => if s.tcp.connecting then none else some (s.onUvWrite env ok w.2)
    | [] => none
  | .shutdownDone ok =>
    if s.tcp.shutting && s.tcp.uvWrites.isEmpty then some (s.onUvShutdown ok) else none
  | .tcpEof =>
    if !s.tcp.connecting && !s.tcp.readeof && !s.tcp.closing then some s.onUvReadEOF else none
  | .tcpErr => if s.tcp.closing then none else some s.clean
  | .uvClosed =>
    if s.tcp.closing && !s.tcp.connecting && s.tcp.uvWrites.isEmpty && !s.tcp.shutting then
      some s.onUvClose
    else none

end Puic
