/-
  The receive side of a stream with its flow control (quic_stream.cc, puic_stream.cc,
  quic_stream_sequencer.cc).

  A `ReceiveStream` is what one stream sees: its sequencer and buffer, its own
  receive window and the one of the connection, and its entry in the session's
  `locally_closed_streams_highest_offset_`.  Frames arrive from the peer, and the
  application reads whenever it likes.

  `OnDataAvailable` hands the control to the application.  Only where something is
  left to do after it returns does the state say so: `callback`, when
  `MaybeCloseStream` has called it and will clear the buffer, with the frame whose
  data comes next.  The other calls of the application are events of their own.  What
  the modelled code does not decide is an argument of the event (`StreamEnv`).

  `fins`, `taken` and `stopped` are not part of the source: the final offsets that
  were accepted, each with the highest offset received at that time; how many bytes
  the application has read; and whether it has called `StopReading`, which nothing
  in PUIC does but `IsEOF`.

  An empty list of gaps, on which `gaps_.front()` is undefined, reads as a gap at the
  last offset.
-/
import Puic.Lib.Run
import Puic.ReceiveWindow
import Puic.Sequencer

namespace Puic

/-- What the environment decides while an event is handled: `fast`, `connFast` and `closeFast`, a
    window update of the stream, of the connection, and of the connection when the stream is closed
    comes within two round trips; `updateErr` and `rstErr`, writing the WINDOW_UPDATE or the
    RST_STREAM fails, which closes the connection. -/
structure StreamEnv where
  fast : Bool
  connFast : Bool
  closeFast : Bool
  updateErr : Bool
  rstErr : Bool
deriving Repr, DecidableEq

/-- Nothing goes wrong, and time passes. -/
def StreamEnv.calm : StreamEnv := ⟨false, false, false, false, false⟩

structure ReceiveStream where
  seq : Sequencer
  window : ReceiveWindow
  conn : ReceiveWindow
  connected : Bool
  readSideClosed : Bool
  writeSideClosed : Bool
  /-- the session has closed the stream -/
  closed : Bool
  finReceived : Bool
  rstReceived : Bool
  /-- a RST_STREAM was received, or `Reset` called -/
  reset : Bool
  /-- the entry of `locally_closed_streams_highest_offset_` -/
  lateOffset : Option ℕ
  callback : Option (Option StreamFrame)
  fins : List (ℕ × ℕ)
  taken : ℕ
  stopped : Bool

namespace ReceiveStream

def new (window : ℕ) (autoTune : Bool) (conn : ReceiveWindow) : ReceiveStream where
  seq := .new
  window := .new window kStreamReceiveWindowLimit autoTune
  conn := conn
  connected := true
  readSideClosed := false
  writeSideClosed := false
  closed := false
  finReceived := false
  rstReceived := false
  reset := false
  lateOffset := none
  callback := none
  fins := []
  taken := 0
  stopped := false

variable (s : ReceiveStream) (env : StreamEnv) (f : StreamFrame)

def buf : SequencerBuffer := s.seq.bufferedFrames

def setBuf (b : SequencerBuffer) : ReceiveStream :=
  { s with seq := { s.seq with bufferedFrames := b } }

def clearBuf : ReceiveStream := { s with seq := s.seq.clear }

/-- The test of `OnStreamFrame`, `OnStreamReset` and `OnClose`. -/
def flowControlViolation : Bool :=
  s.window.flowControlViolation || s.conn.flowControlViolation

/-! ## Closing -/

/-- `CloseReadSide` up to `CloseStream`. -/
def releaseRead : ReceiveStream :=
  if s.readSideClosed then s else { s with readSideClosed := true, seq := s.seq.releaseBuffer }

/-- The end of `OnClose`: what was received and not read counts as consumed on the connection. -/
def consumeRest : ReceiveStream :=
  if s.flowControlViolation then s
  else
    { s with conn := (s.conn.addBytesConsumed env.closeFast
        (sub64 s.window.highestReceivedByteOffset s.window.bytesConsumed)).1 }

/-- `CloseStreamInner` and `PuicStream::OnClose`. -/
def closeStream : ReceiveStream :=
  if s.closed then s
  else
    let late := if s.finReceived || s.rstReceived then s.lateOffset
      else some s.window.highestReceivedByteOffset
    { { s with closed := true, lateOffset := late }.releaseRead with
      writeSideClosed := true }.consumeRest env

def closeReadSide : ReceiveStream :=
  if s.readSideClosed then s
  else if s.writeSideClosed then s.releaseRead.closeStream env
  else s.releaseRead

def closeWriteSide : ReceiveStream :=
  if s.writeSideClosed then s
  else if s.readSideClosed then { s with writeSideClosed := true }.closeStream env
  else { s with writeSideClosed := true }

/-- `CloseConnection` as far as the stream: `OnConnectionClosed`. -/
def closeConnection : ReceiveStream :=
  if s.connected then
    if s.readSideClosed && s.writeSideClosed then { s with connected := false }
    else ({ s with connected := false }.closeWriteSide env).closeReadSide env
  else s

/-- `Reset`: `SendRstStream` and `CloseStreamInner`. -/
def resetStream : ReceiveStream :=
  if env.rstErr then ({ s with reset := true }.closeConnection env).closeStream env
  else { s with reset := true }.closeStream env

/-! ## Consumption -/

/-- The window of the stream, and the one of the connection if it has to grow with it. -/
def consumeStream (bytes : ℕ) : ReceiveStream :=
  if s.readSideClosed then s
  else
    let w := (s.window.addBytesConsumed env.fast bytes).1
    { s with
      window := w
      conn := if s.window.receiveWindowSize < w.receiveWindowSize then
          (s.conn.ensureWindowAtLeast (multiplied w.receiveWindowSize)).1
        else s.conn }

def consumeConn (bytes : ℕ) : ReceiveStream :=
  { s with conn := (s.conn.addBytesConsumed env.connFast bytes).1 }

/-- `AddBytesConsumed`. -/
def addBytesConsumed (bytes : ℕ) : ReceiveStream :=
  let s := (s.consumeStream env bytes).consumeConn env bytes
  if env.updateErr then s.closeConnection env else s

def readv (lens : List ℕ) : ReceiveStream :=
  match s.buf.readv lens with
  | (b, chunks, some _) =>
    { s.setBuf b with taken := s.taken + chunks.flatten.length }.closeConnection env
  | (b, chunks, none) =>
    { s.setBuf b with taken := s.taken + chunks.flatten.length }.addBytesConsumed env
      chunks.flatten.length

def markConsumed (n : ℕ) : ReceiveStream :=
  match s.buf.markConsumed n with
  | none => s.resetStream env
  | some b => { s.setBuf b with taken := s.taken + n }.addBytesConsumed env n

/-! ## The end of the stream -/

/-- `MaybeCloseStream` when `ignore_read_data_` is set: it calls `OnFinRead`. -/
def maybeFinRead : ReceiveStream :=
  if s.seq.isClosed then ({ s with finReceived := true }.closeReadSide env).clearBuf else s

def flushBufferedFrames : ReceiveStream :=
  (({ s with seq := s.seq.flush }.addBytesConsumed env s.buf.flushBufferedFrames.2).maybeFinRead env)

/-- `StopReading` of the sequencer. -/
def stopReading : ReceiveStream :=
  if s.seq.ignoreReadData then s
  else { s with seq := { s.seq with ignoreReadData := true } }.flushBufferedFrames env

/-- `PuicStream::IsEOF`, which returns `seq.isClosed`. -/
def isEOF : ReceiveStream :=
  if s.seq.isClosed then s.stopReading env else s

/-- `MaybeCloseStream`; the stream is not closed when a frame gets here. -/
def maybeCloseStream : ReceiveStream :=
  if s.seq.ignoreReadData then s.maybeFinRead env
  else if s.seq.isClosed then { s with callback := some none }
  else s

def acceptFin (offset : ℕ) : ReceiveStream :=
  { s with
    seq := { s.seq with closeOffset := offset }
    fins := (offset, s.window.highestReceivedByteOffset) :: s.fins }

def closeStreamAtOffset (offset : ℕ) : ReceiveStream :=
  if s.seq.closeMismatch offset then s.resetStream env else (s.acceptFin offset).maybeCloseStream env

/-! ## Frames -/

/-- Data has been stored at `offset`.  If it is the next byte, whoever reads is told. -/
def notify (offset : ℕ) : ReceiveStream :=
  if offset = s.buf.totalBytesRead ∧ s.seq.ignoreReadData then s.flushBufferedFrames env else s

/-- The data of a frame, after its FIN. -/
def onFrameData : ReceiveStream :=
  match s.buf.onStreamData f.offset f.data with
  | .error _ => s.closeConnection env
  | .ok (b, n) => if n = 0 then s.setBuf b else (s.setBuf b).notify env f.offset

def maybeIncreaseHighestReceivedOffset (newOffset : ℕ) : ReceiveStream :=
  if newOffset ≤ s.window.highestReceivedByteOffset then s
  else
    let increment := sub64 newOffset s.window.highestReceivedByteOffset
    { s with
      window := (s.window.updateHighestReceivedOffset newOffset).1
      conn := (s.conn.updateHighestReceivedOffset
        ((s.conn.highestReceivedByteOffset + increment) % 2 ^ 64)).1 }

/-- `OnStreamFrame` of the sequencer, as far as the FIN of the frame. -/
def takeFin : ReceiveStream :=
  if f.fin then s.closeStreamAtOffset env f.endOffset else s

/-- `OnStreamFrame` of the sequencer.  The data comes to the buffer also when the FIN has reset the
    stream. -/
def sequence : ReceiveStream :=
  let s' := s.takeFin env f
  if f.fin ∧ f.data = [] then s'
  else match s'.callback with
    | some _ => { s' with callback := some (some f) }
    | none => s'.onFrameData env f

/-- The highest offset after a frame that carries data has been counted. -/
def counted : ReceiveStream :=
  if f.data = [] then s else s.maybeIncreaseHighestReceivedOffset f.endOffset

/-- A frame that raises the highest offset beyond a window. -/
def violates : Bool :=
  f.data ≠ [] && s.window.highestReceivedByteOffset < f.endOffset && (s.counted f).flowControlViolation

def noteFin : ReceiveStream :=
  { s with finReceived := s.finReceived || f.fin }

/-- `QuicStream::OnStreamFrame`. -/
def onStreamFrame : ReceiveStream :=
  if s.readSideClosed then s.noteFin f
  else if s.violates f then ((s.noteFin f).counted f).closeConnection env
  else ((s.noteFin f).counted f).sequence env f

/-- A RST_STREAM frame counts up to its offset. -/
def noteRst (byteOffset : ℕ) : ReceiveStream :=
  { s with rstReceived := true, reset := true }.maybeIncreaseHighestReceivedOffset byteOffset

/-- `QuicStream::OnStreamReset`. -/
def onStreamReset (byteOffset : ℕ) : ReceiveStream :=
  if (s.noteRst byteOffset).flowControlViolation then (s.noteRst byteOffset).closeConnection env
  else ((s.noteRst byteOffset).closeWriteSide env).closeReadSide env

/-- `OnDataAvailable` returns to `MaybeCloseStream`. -/
def resume : Option StreamFrame → ReceiveStream
  | none => { s with callback := none }.clearBuf
  | some f => ({ s with callback := none }.clearBuf).onFrameData env f

end ReceiveStream

inductive ReceiveEvent where
  | frame (f : StreamFrame) (env : StreamEnv)
  | rstStream (byteOffset : ℕ) (env : StreamEnv)
  | readv (lens : List ℕ) (env : StreamEnv)
  | markConsumed (n : ℕ) (env : StreamEnv)
  | isEOF (env : StreamEnv)
  | stopReading (env : StreamEnv)
  /-- a local reset -/
  | reset (env : StreamEnv)
  /-- the FIN has been sent: `CloseWriteSide` -/
  | finSent (env : StreamEnv)
  | connClosed (env : StreamEnv)
  /-- `UpdateReceiveWindowSize`, with a size within the limit -/
  | updateReceiveWindowSize (size : ℕ)
  /-- other streams, and the session, change the window of the connection -/
  | connWindow (w : ReceiveWindow)
  /-- the application returns from `OnDataAvailable` -/
  | ret (env : StreamEnv)

/-- One event.  Frames are processed one after the other and reach only an open stream of a connection
    that is connected; the application may call at any time. -/
def ReceiveStream.step (s : ReceiveStream) : ReceiveEvent → Option ReceiveStream
  | .frame f env =>
    if s.connected && !s.closed && s.callback.isNone then some (s.onStreamFrame env f) else none
  | .rstStream byteOffset env =>
    if s.connected && !s.closed && s.callback.isNone && decide (byteOffset < 2 ^ 64) then
      some (s.onStreamReset env byteOffset)
    else none
  | .readv lens env => some (s.readv env lens)
  | .markConsumed n env => some (s.markConsumed env n)
  | .isEOF env => some (s.isEOF env)
  | .stopReading env => some ({ s with stopped := true }.stopReading env)
  | .reset env => some (s.resetStream env)
  | .finSent env => some (s.closeWriteSide env)
  | .connClosed env => some (s.closeConnection env)
  | .updateReceiveWindowSize size =>
    if size ≤ kStreamReceiveWindowLimit then
      some { s with window := s.window.updateReceiveWindowSize size }
    else none
  | .connWindow w => some { s with conn := w }
  | .ret env => s.callback.map (s.resume env)

end Puic
