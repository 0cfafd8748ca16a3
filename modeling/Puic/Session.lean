/-
  A session and its streams (quic_session.cc, puic_session_base.cc; quic_stream.cc
  and puic_stream.cc as far as they talk to the session).

  A stream is created by the session, by a frame of the peer or by the
  application.  It is open while it is in `dynamic_stream_map_`.  When both of its
  sides are closed, or when it is reset, it moves to `zombie_streams_` if it still
  waits for acknowledgements and to `closed_streams_` if not; `PostProcessAfterData`
  destroys the latter.  Streams are told apart by `obj`, which no two streams
  share: a stream id may be used again.

  Sending is that of `SendStream`; the session decides who writes.  Of receiving,
  the model has what reaches the session: the frame with its FIN, and the list of
  what the sequencer does with it (`Received`).

  An action is one event with all the calls it causes.  What the session does not
  decide is an argument of the action (`SessionEnv`).  An event during which the
  connection is closed does not continue a run; closing the connection is an
  action of its own, after which there is no other.

  `calls` is not part of the source: it lists, newest first, the calls of
  `PuicStreamInterface::Delegate`, and whether there was a delegate to call.
-/
import Mathlib.Data.Finset.Card
import Mathlib.Data.Finset.Image
import Mathlib.Data.List.AList
import Puic.Lib.Run
import Puic.SendStream
import Puic.WriteScheduler

namespace Puic

def kPresetStreamId : ℕ := 3
def kMaxAvailableStreamsMultiplier : ℕ := 10

/-- Subtraction of `size_t`. -/
def sizeSub (a b : ℕ) : ℕ := (a + (2 ^ 64 - b % 2 ^ 64)) % 2 ^ 64

/-- A `PuicStream`.  `delegate` says that `delegate_` is set, `error` that `stream_error_` is not
    `QUIC_STREAM_NO_ERROR`. -/
structure Stream where
  obj : ℕ
  delegate : Bool
  readSideClosed : Bool
  closed : Bool
  finReceived : Bool
  rstReceived : Bool
  rstSent : Bool
  error : Bool
  send : SendStream
deriving Repr, DecidableEq

namespace Stream

def new (obj window : ℕ) : Stream where
  obj := obj
  delegate := false
  readSideClosed := false
  closed := false
  finReceived := false
  rstReceived := false
  rstSent := false
  error := false
  send := .new window [] true

def isWaitingForAcks (st : Stream) : Bool :=
  (!st.rstSent || !st.error) && (st.send.bytesOutstanding != 0 || st.send.finOutstanding)

def hasFinalReceivedByteOffset (st : Stream) : Bool := st.finReceived || st.rstReceived

def closeWrite (st : Stream) : Stream := { st with send := { st.send with writeSideClosed := true } }

/-- The stream after `OnClose`. -/
def onClose (st : Stream) : Stream :=
  { st.closeWrite with
    closed := true
    readSideClosed := true
    rstSent := st.rstSent || !st.send.finSent }

end Stream

/-- A pointer to a stream. -/
structure Handle where
  id : ℕ
  obj : ℕ
deriving Repr, DecidableEq

inductive StreamEvent where
  | canRead | canWrite | closed
deriving Repr, DecidableEq

structure StreamCall where
  id : ℕ
  event : StreamEvent
  delegate : Bool
deriving Repr, DecidableEq

/-- A call of `WriteOrBufferData` by the application. -/
structure StreamWrite where
  handle : Handle
  length : ℕ
  fin : Bool
deriving Repr, DecidableEq

/-- What the sequencer makes the stream do with a frame: tell the delegate, or read the FIN because
    the data is not wanted. -/
inductive Received where
  | available | finRead
deriving Repr, DecidableEq

/-- What is answered while an action runs: the encryption level, what the connection takes, whether it
    can write, and what the application writes inside the calls of `OnCanWrite`. -/
structure SessionEnv where
  level : ℕ
  replies : List Consumed
  canWrite : List Bool
  app : List (List StreamWrite)
deriving Repr

abbrev StreamMap := AList fun _ : ℕ => Stream

/-- How far the session got, and which stream ids were given out. The ids do not wrap around: a
    session that draws 2^31 of its own is outside the model. -/
structure StreamIds where
  server : Bool
  established : Bool
  confirmed : Bool
  nextOutgoingStreamId : ℕ
  largestPeerCreatedStreamId : ℕ
  availableStreams : Finset ℕ
  presetStream : Option Handle
  nextObj : ℕ

/-- What the numbers of open streams are computed from. -/
structure StreamCounts where
  drainingStreams : Finset ℕ
  locallyClosed : Finset ℕ
  numDynamicIncoming : ℕ
  numDrainingIncoming : ℕ
  numLocallyClosedIncoming : ℕ

/-- The streams of a session, and what its decisions about them depend on. -/
structure StreamTable extends StreamIds, StreamCounts where
  dynamicStreams : StreamMap
  zombieStreams : StreamMap
  closedStreams : List (ℕ × Stream)
  calls : List StreamCall

structure Session extends StreamTable where
  connected : Bool
  maxOpenIncomingStreams : ℕ
  maxOpenOutgoingStreams : ℕ
  initialWindow : ℕ
  crypto : Stream
  writeBlocked : WriteBlockedList
  pendingRetransmission : List ℕ
  flow : FlowController
  currentlyWriting : ℕ
  env : SessionEnv

namespace Session

/-- A new session.  The crypto stream keeps its bytes by encryption level and does not count for the
    flow control of the connection. -/
def init (server : Bool) (maxIncoming maxOutgoing window : ℕ) : Session where
  server := server
  connected := true
  established := false
  confirmed := false
  nextOutgoingStreamId := if server then 2 else 3
  largestPeerCreatedStreamId := if server then 1 else 0
  availableStreams := ∅
  maxOpenIncomingStreams := maxIncoming
  maxOpenOutgoingStreams := maxOutgoing
  initialWindow := window
  presetStream := none
  nextObj := 1
  crypto := { Stream.new 0 window with send := .new window [[], [], []] false }
  dynamicStreams := ∅
  zombieStreams := ∅
  closedStreams := []
  drainingStreams := ∅
  locallyClosed := ∅
  numDynamicIncoming := 0
  numDrainingIncoming := 0
  numLocallyClosedIncoming := 0
  writeBlocked := .empty
  pendingRetransmission := []
  flow := ⟨0, window⟩
  currentlyWriting := 0
  calls := []
  env := ⟨0, [], [], []⟩

/-! ## Which streams there are -/

variable (s : Session) (id : ℕ) (st : Stream)

def isIncomingStream : Bool := id % 2 != s.nextOutgoingStreamId % 2

/-- `IsOpenStream`, for the streams that are not static. -/
def isDynamic : Bool := (s.dynamicStreams.lookup id).isSome

def isOpenStream : Bool := id == kCryptoStreamId || s.isDynamic id

def isClosedStream : Bool :=
  if s.isOpenStream id then false
  else if !s.isIncomingStream id then decide (id < s.nextOutgoingStreamId)
  else decide (id ≤ s.largestPeerCreatedStreamId) && decide (id ∉ s.availableStreams)

/-- The streams an event can reach by id: static, open, or waiting for acknowledgements. -/
def getStream : Option Stream :=
  if id = kCryptoStreamId then some s.crypto
  else match s.dynamicStreams.lookup id with
    | some st => some st
    | none => s.zombieStreams.lookup id

/-- Writes back an open stream. -/
def setOpen : Session :=
  { s with dynamicStreams := s.dynamicStreams.insert id st }

/-- Writes back the stream `getStream` finds. -/
def setStream : Session :=
  if id = kCryptoStreamId then { s with crypto := st }
  else if s.isDynamic id then s.setOpen id st
  else { s with zombieStreams := s.zombieStreams.insert id st }

def getNumOpenIncomingStreams : ℕ :=
  (sizeSub s.numDynamicIncoming s.numDrainingIncoming + s.numLocallyClosedIncoming) % 2 ^ 64

def getNumOpenOutgoingStreams : ℕ :=
  sizeSub (sizeSub s.dynamicStreams.keys.length s.numDynamicIncoming +
    sizeSub s.locallyClosed.card s.numLocallyClosedIncoming)
    (sizeSub s.drainingStreams.card s.numDrainingIncoming)

/-! ## Closing a stream -/

/-- `CloseStream` called again from inside `OnClose`: the stream has left the map, and all that is
    left to do is to unregister it, unless its id counts as closed. -/
def closeAgain : Session :=
  if s.isClosedStream id then s
  else { s with writeBlocked := s.writeBlocked.unregisterStream id }

/-- `InsertLocallyClosedStreamsHighestOffset`, without the offset. -/
def insertLocallyClosed : Session :=
  { s with
    locallyClosed := insert id s.locallyClosed
    numLocallyClosedIncoming := s.numLocallyClosedIncoming + if s.isIncomingStream id then 1 else 0 }

/-- `CloseStreamInner` up to the call of `OnClose`: the stream goes from the open streams to the
    zombies or to those to be destroyed. -/
def moveStream : Session :=
  if st.isWaitingForAcks then
    { s with
      dynamicStreams := s.dynamicStreams.erase id
      zombieStreams := s.zombieStreams.insert id st.onClose }
  else
    { s with
      dynamicStreams := s.dynamicStreams.erase id
      closedStreams := s.closedStreams ++ [(id, st.onClose)]
      pendingRetransmission := s.pendingRetransmission.erase id }

/-- The counters of the streams that are open, and of those that only wait for data of the peer. -/
def forgetStream : Session :=
  { s with
    numDynamicIncoming :=
      if s.isIncomingStream id then sizeSub s.numDynamicIncoming 1 else s.numDynamicIncoming
    numDrainingIncoming :=
      if id ∈ s.drainingStreams ∧ s.isIncomingStream id then sizeSub s.numDrainingIncoming 1
      else s.numDrainingIncoming
    drainingStreams := s.drainingStreams.erase id }

def closeStreamInner (locallyReset : Bool) : Session :=
  match s.dynamicStreams.lookup id with
  | none => s
  | some st =>
    let st' := { st with rstSent := st.rstSent || locallyReset }
    let s' := ((if st.hasFinalReceivedByteOffset then s else s.insertLocallyClosed id).moveStream
      id st').forgetStream id
    let s'' := if st.readSideClosed && st.send.writeSideClosed then s' else s'.closeAgain id
    { s'' with calls := ⟨id, .closed, st.delegate⟩ :: s''.calls }

/-- `PuicSessionBase::CloseStream`. -/
def closeStream : Session :=
  if s.isClosedStream id then s
  else { s with writeBlocked := s.writeBlocked.unregisterStream id }.closeStreamInner id false

/-- `CloseReadSide` of the open stream `id`. -/
def closeReadSide : Session :=
  match s.dynamicStreams.lookup id with
  | none => s
  | some st =>
    if st.readSideClosed then s
    else
      let s' := s.setOpen id { st with readSideClosed := true }
      if st.send.writeSideClosed then s'.closeStream id else s'

/-- `CloseWriteSide` of the open stream `id`. -/
def closeWriteSide : Session :=
  match s.dynamicStreams.lookup id with
  | none => s
  | some st =>
    if st.send.writeSideClosed then s
    else
      let s' := s.setOpen id st.closeWrite
      if st.readSideClosed then s'.closeStream id else s'

/-- `Reset` of an open stream, which sends a RST_STREAM. -/
def resetOpen : Session :=
  match s.dynamicStreams.lookup id with
  | none => s
  | some st => (s.setOpen id { st with error := true }).closeStreamInner id true

/-- `CancelStream`, `ResetStream`.  A static stream only notes that it was reset. -/
def cancelStream : Session :=
  if s.isOpenStream id then
    if id = kCryptoStreamId then { s with crypto := { s.crypto with error := true, rstSent := true } }
    else s.resetOpen id
  else s

def streamDraining : Session :=
  if id ∈ s.drainingStreams then s
  else
    { s with
      drainingStreams := insert id s.drainingStreams
      numDrainingIncoming := s.numDrainingIncoming + if s.isIncomingStream id then 1 else 0 }

def onFinalByteOffsetReceived : Session :=
  if id ∈ s.locallyClosed then
    { s with
      locallyClosed := s.locallyClosed.erase id
      numLocallyClosedIncoming :=
        if s.isIncomingStream id then sizeSub s.numLocallyClosedIncoming 1
        else s.numLocallyClosedIncoming }
  else s

/-- `OnStreamDoneWaitingForAcks`. -/
def onStreamDoneWaitingForAcks : Session :=
  match s.zombieStreams.lookup id with
  | none => s
  | some st =>
    { s with
      closedStreams := s.closedStreams ++ [(id, st)]
      zombieStreams := s.zombieStreams.erase id
      pendingRetransmission := s.pendingRetransmission.erase id }

/-! ## Creating a stream -/

/-- `ActivateStream`. -/
def activateStream : Session :=
  { s with
    dynamicStreams := s.dynamicStreams.insert id (.new s.nextObj s.initialWindow)
    nextObj := s.nextObj + 1
    numDynamicIncoming := s.numDynamicIncoming + if s.isIncomingStream id then 1 else 0 }

/-- `ActivateDataStream(CreateDataStream(id, priority))` with encryption established.  The delegate of
    the session, told of a stream it does not want, cancels it before it is in the map. -/
def createDataStream (priority : Fin 8) : Session :=
  let s' := { s with writeBlocked := s.writeBlocked.registerStream id priority }
  (if s.isIncomingStream id && id != kPresetStreamId then s'.cancelStream id
    else s').activateStream id

def createIncomingDynamicStream : Session :=
  s.createDataStream id (if id = kPresetStreamId then kHighestPriority else kDefaultPriority)

/-- The ids that become available when `id` is the new largest one. -/
def newlyAvailable : Finset ℕ :=
  (Finset.range ((id - s.largestPeerCreatedStreamId) / 2 - 1)).image fun k =>
    s.largestPeerCreatedStreamId + 2 * (k + 1)

/-- `MaybeIncreaseLargestPeerStreamId`; too many available ids close the connection. -/
def maybeIncreaseLargestPeerStreamId : Option Session :=
  if id ≤ s.largestPeerCreatedStreamId then some s
  else if s.maxOpenIncomingStreams * kMaxAvailableStreamsMultiplier <
      s.availableStreams.card + ((id - s.largestPeerCreatedStreamId) / 2 - 1) then none
  else some { s with
    availableStreams := s.availableStreams ∪ s.newlyAvailable id
    largestPeerCreatedStreamId := id }

/-- `GetOrCreateDynamicStream`: whether there is a stream, and `none` if the connection is closed. -/
def getOrCreateDynamicStream : Option (Session × Bool) :=
  if s.isDynamic id then some (s, true)
  else if s.isClosedStream id then some (s, false)
  else if !s.isIncomingStream id then none
  else
    match { s with
      availableStreams := s.availableStreams.erase id }.maybeIncreaseLargestPeerStreamId id with
    | none => none
    | some s' =>
      if s'.maxOpenIncomingStreams ≤ s'.getNumOpenIncomingStreams then
        some (s'.closeStreamInner id true, false)
      else if s'.established then some (s'.createIncomingDynamicStream id, true)
      else some (s', false)

def getOrCreateStream : Option (Session × Bool) :=
  if id = kCryptoStreamId then some (s, true) else s.getOrCreateDynamicStream id

/-- `CreateOutgoingDynamicStream`: the id is drawn whether or not a stream is made. -/
def createOutgoingDynamicStream (priority : Fin 8) : Session × Option Handle :=
  let s' := { s with nextOutgoingStreamId := s.nextOutgoingStreamId + 2 }
  if s.established then
    (s'.createDataStream s.nextOutgoingStreamId priority, some ⟨s.nextOutgoingStreamId, s.nextObj⟩)
  else (s', none)

/-- `CreateStream`. -/
def createStream (priority : Fin 8) : Session × Option Handle :=
  if s.maxOpenOutgoingStreams ≤ s.getNumOpenOutgoingStreams then (s, none)
  else s.createOutgoingDynamicStream priority

/-- `SetDelegate` of the stream `h`. -/
def setDelegate (h : Handle) : Session :=
  match s.dynamicStreams.lookup h.id with
  | none => s
  | some st => s.setOpen h.id { st with delegate := true }

/-- `OnCryptoHandshakeEvent(HANDSHAKE_CONFIRMED)`; the delegate's `OnHandshaked` sets itself as the
    delegate of the preset stream. -/
def handshakeConfirmed : Session :=
  if s.server then
    let h : Handle := ⟨kPresetStreamId, s.nextObj⟩
    let s' := { s with
      established := true
      confirmed := true
      largestPeerCreatedStreamId := kPresetStreamId
      presetStream := some h }
    (s'.createIncomingDynamicStream kPresetStreamId).setDelegate h
  else
    let p := { s with confirmed := true }.createOutgoingDynamicStream kHighestPriority
    match p.2 with
    | none => p.1
    | some h => { p.1 with presetStream := some h }.setDelegate h

/-! ## Sending -/

def shouldYield : Bool :=
  if id = s.currentlyWriting then false else s.writeBlocked.shouldYield id

/-- Without encryption only the crypto stream gets through to the connection. -/
def mayWrite : Bool := s.established || id == kCryptoStreamId

def writeEnv : WriteEnv where
  yield := s.shouldYield id
  connWindow := s.flow.sendWindowSize
  level := s.env.level
  replies := if s.mayWrite id then s.env.replies else []

/-- What the sending code asks of the session, but for closing the write side. -/
def recordWritten (w : Written) : Session :=
  { s.setStream id { st with send := w.stream } with
    env := { s.env with replies := if s.mayWrite id then w.rest else s.env.replies }
    flow := if st.send.contributes then s.flow.addBytesSent w.sent else s.flow
    writeBlocked :=
      if w.marked then (s.writeBlocked.updateBytesForStream id w.sent).addStream id
      else s.writeBlocked.updateBytesForStream id w.sent }

/-- The session after the stream `st` under `id` ran its sending code with the outcome `w`. -/
def applyWritten (w : Written) : Session :=
  if w.finished then
    (if st.finReceived then (s.recordWritten id st w).streamDraining id
      else s.recordWritten id st w).closeWriteSide id
  else s.recordWritten id st w

/-- The stream behind a pointer the application has.  The stream under `kPresetStreamId` is only
    handed out as the preset stream. -/
def resolve (h : Handle) : Option Stream :=
  if h.id = kCryptoStreamId then if s.crypto.obj = h.obj then some s.crypto else none
  else if s.server = true ∧ h.id = kPresetStreamId ∧ s.presetStream ≠ some h then none
  else (s.dynamicStreams.lookup h.id).filter fun st => st.obj == h.obj

/-- `WriteOrBufferData`. -/
def writeOrBufferData (w : StreamWrite) : Session :=
  match s.resolve w.handle with
  | none => s
  | some st => s.applyWritten w.handle.id st
      (st.send.writeOrBufferData w.length w.fin (s.writeEnv w.handle.id))

/-- What the application writes in the next call of `OnCanWrite`. -/
def appWrites : Session :=
  (s.env.app.headD []).foldl writeOrBufferData { s with env := { s.env with app := s.env.app.tail } }

/-- The second half of `PuicStream::OnCanWrite`. -/
def notifyCanWrite : Session :=
  match s.getStream id with
  | none => s
  | some st =>
    if st.closed || st.send.writeSideClosed || st.send.finBuffered then s
    else { s with calls := ⟨id, .canWrite, st.delegate⟩ :: s.calls }.appWrites

/-- `OnCanWrite` of the stream `id`; the crypto stream has no delegate. -/
def streamOnCanWrite : Session :=
  match s.getStream id with
  | none => s
  | some st =>
    let s' := s.applyWritten id st (st.send.onCanWrite (s.writeEnv id))
    if id = kCryptoStreamId then s' else s'.notifyCanWrite id

/-- `CanWriteStreamData` was asked. -/
def dropCanWrite : Session :=
  { s with env := { s.env with canWrite := s.env.canWrite.tail } }

def hasPending : Bool :=
  (s.getStream id).any fun st => st.send.hasPendingRetransmission

/-- The stream that sends again next: the crypto stream, or the first in line. -/
def nextPending (front : ℕ) : ℕ :=
  if kCryptoStreamId ∈ s.pendingRetransmission then kCryptoStreamId else front

/-- `RetransmitLostStreamData`, with as many rounds as there are streams waiting. -/
def retransmitLostStreamData : ℕ → Session → Session × Bool
  | 0, s => (s, s.pendingRetransmission.isEmpty)
  | n + 1, s =>
    match s.pendingRetransmission with
    | [] => (s, true)
    | front :: _ =>
      if s.env.canWrite.headD false then
        let s' := s.dropCanWrite.streamOnCanWrite (s.nextPending front)
        if s'.hasPending (s.nextPending front) then (s', false)
        else retransmitLostStreamData n { s' with
          pendingRetransmission := s'.pendingRetransmission.erase (s.nextPending front) }
      else (s.dropCanWrite, false)

/-- One stream is taken off the list of blocked streams. -/
def popped : Session :=
  { s with
    writeBlocked := s.writeBlocked.popFront.2
    currentlyWriting := s.writeBlocked.popFront.1 }

/-- One round of the loop of `OnCanWrite`; `none` if the connection is closed. -/
def writeNext : Option Session :=
  match s.popped.getOrCreateStream s.writeBlocked.popFront.1 with
  | none => none
  | some (s', found) =>
    let blocked := (s'.getStream s.writeBlocked.popFront.1).all fun st => st.send.flow.isBlocked
    let s'' := if found && !blocked then s'.streamOnCanWrite s.writeBlocked.popFront.1 else s'
    some { s'' with currentlyWriting := 0 }

/-- The loop of `OnCanWrite`. -/
def writeLoop : ℕ → Session → Option Session
  | 0, s => some s
  | n + 1, s =>
    if s.writeBlocked.hasWriteBlocked then
      if s.env.canWrite.headD false then s.dropCanWrite.writeNext.bind (writeLoop n)
      else some s.dropCanWrite
    else none

def numWrites : ℕ :=
  if s.flow.isBlocked then if s.writeBlocked.cryptoStreamBlocked then 1 else 0
  else s.writeBlocked.numBlockedStreams

/-- `QuicSession::OnCanWrite`. -/
def onCanWrite : Option Session :=
  let p := retransmitLostStreamData s.pendingRetransmission.length s
  if p.2 then writeLoop p.1.numWrites p.1 else some p.1

/-! ## Receiving -/

/-- `OnDataAvailable` of an open stream. -/
def onDataAvailable : Session :=
  match s.dynamicStreams.lookup id with
  | none => s
  | some st =>
    if st.closed then s else { s with calls := ⟨id, .canRead, st.delegate⟩ :: s.calls }

/-- `OnFinRead` of an open stream. -/
def onFinRead : Session :=
  match s.dynamicStreams.lookup id with
  | none => s
  | some st => (s.setOpen id { st with finReceived := true }).closeReadSide id

def receive (s : Session) : Received → Session
  | .available => s.onDataAvailable id
  | .finRead => s.onFinRead id

/-- `QuicStream::OnStreamFrame` of the open stream `id`.  A second FIN at another offset (`conflict`)
    resets the stream. -/
def streamOnStreamFrame (fin conflict : Bool) (rs : List Received) :
    Session :=
  match s.dynamicStreams.lookup id with
  | none => s
  | some st =>
    let s' := s.setOpen id { st with finReceived := st.finReceived || fin }
    let s'' := if fin && st.send.finSent then s'.streamDraining id else s'
    if st.readSideClosed then s''
    else rs.foldl (receive id) (if fin && conflict && st.finReceived then s''.resetOpen id else s'')

/-- `OnStreamFrame`. -/
def onStreamFrame (fin conflict : Bool) (rs : List Received) :
    Option Session :=
  if id = 0 ∨ (id = kCryptoStreamId ∧ fin = true) then none
  else match s.getOrCreateStream id with
    | none => none
    | some (s', true) => some (s'.streamOnStreamFrame id fin conflict rs)
    | some (s', false) => some (if fin then s'.onFinalByteOffsetReceived id else s')

/-- `QuicStream::OnStreamReset` of the open stream `id`. -/
def onStreamReset (error : Bool) : Session :=
  match s.dynamicStreams.lookup id with
  | none => s
  | some st =>
    ((s.setOpen id { st with rstReceived := true, error := error }).closeWriteSide id).closeReadSide id

/-- `OnRstStream`. -/
def onRstStream (error : Bool) : Option Session :=
  if id = 0 ∨ id = kCryptoStreamId then none
  else match s.getOrCreateDynamicStream id with
    | none => none
    | some (s', true) => some (s'.onStreamReset id error)
    | some (s', false) =>
      some (if s'.isClosedStream id then s'.onFinalByteOffsetReceived id else s')

/-- `QuicStream::OnWindowUpdateFrame`. -/
def streamOnWindowUpdate (id offset : ℕ) : Session :=
  match s.getStream id with
  | none => s
  | some st =>
    let p := st.send.flow.updateSendWindowOffset offset
    let s' := s.setStream id { st with send := { st.send with flow := p.1 } }
    if p.2 then s'.streamOnCanWrite id else s'

/-- `OnWindowUpdateFrame`; stream id 0 stands for the connection. -/
def onWindowUpdateFrame (id offset : ℕ) : Option Session :=
  if id = 0 then some { s with flow := (s.flow.updateSendWindowOffset offset).1 }
  else match s.getOrCreateStream id with
    | none => none
    | some (s', true) => some (s'.streamOnWindowUpdate id offset)
    | some (s', false) => some s'

/-- `OnStreamFrameAcked`. -/
def onStreamFrameAcked (id length : ℕ) (fin : Bool) : Option Session :=
  match s.getStream id with
  | none => some s
  | some st =>
    match st.send.onStreamFrameAcked length fin with
    | none => none
    | some send =>
      let st' := { st with send := send }
      let s' := s.setStream id st'
      let s'' := if st'.isWaitingForAcks then s' else s'.onStreamDoneWaitingForAcks id
      some (if send.hasPendingRetransmission then s''
        else { s'' with pendingRetransmission := s''.pendingRetransmission.erase id })

/-- `OnStreamFrameLost`. -/
def onStreamFrameLost (id offset length : ℕ) (fin : Bool) : Session :=
  match s.getStream id with
  | none => s
  | some st =>
    let send := st.send.onStreamFrameLost offset length fin
    let s' := s.setStream id { st with send := send }
    if send.hasPendingRetransmission && decide (id ∉ s.pendingRetransmission) then
      { s' with pendingRetransmission := s.pendingRetransmission ++ [id] }
    else s'

/-- `OnStreamFrameRetransmitted`. -/
def onStreamFrameRetransmitted (id offset length : ℕ) (fin : Bool) :
    Option Session :=
  match s.getStream id with
  | none => none
  | some st => some (s.setStream id
      { st with send := st.send.onStreamFrameRetransmitted offset length fin })

/-! ## The end of the connection -/

/-- `QuicStream::OnConnectionClosed` of the open stream `id`, and what the session does if it is still
    there. -/
def closeForConnection (error : Bool) (s : Session) (id : ℕ) : Session :=
  match s.dynamicStreams.lookup id with
  | none => s
  | some st =>
    (((s.setOpen id { st with error := st.error || error }).closeWriteSide id).closeReadSide
      id).closeStream id

/-- `QuicSession::OnConnectionClosed`. -/
def onConnectionClosed (error : Bool) : Session :=
  let s' := s.dynamicStreams.keys.foldl (closeForConnection error) { s with connected := false }
  { s' with
    closedStreams := s'.closedStreams ++ s'.zombieStreams.entries.map fun e => (e.1, e.2)
    zombieStreams := ∅ }

end Session

inductive SessionAct where
  | streamFrame (id : ℕ) (fin conflict : Bool) (rs : List Received)
  | rstStream (id : ℕ) (error : Bool)
  | windowUpdate (id offset : ℕ) (env : SessionEnv)
  | acked (id length : ℕ) (fin : Bool)
  | lost (id offset length : ℕ) (fin : Bool)
  | retransmitted (id offset length : ℕ) (fin : Bool)
  /-- `OnCanWrite` of the session -/
  | canWrite (env : SessionEnv)
  /-- the application writes to a stream -/
  | write (w : StreamWrite) (env : SessionEnv)
  /-- the application reads a stream to its end (`IsEOF`) -/
  | finRead (h : Handle)
  /-- the application marks more consumed than there is, or cancels the stream -/
  | reset (h : Handle)
  /-- `PuicSessionInterface::CreateStream`, `CancelStream` -/
  | createStream (priority : Fin 8)
  | cancelStream (id : ℕ)
  /-- `PostProcessAfterData` -/
  | postProcess
  /-- the client sets or clears `encryption_established_`; the session may write when it is set -/
  | encryption (established : Bool) (env : SessionEnv)
  /-- `HANDSHAKE_CONFIRMED` -/
  | handshake
  /-- `OnConfigNegotiated`, as far as the limits and the window of new streams go -/
  | config (maxIncoming maxOutgoing window : ℕ)
  | close (error : Bool)

namespace Session

def withEnv (s : Session) (env : SessionEnv) : Session := { s with env := env }

/-- One event.  A stream id in a frame has at most four bytes. -/
def step (s : Session) (a : SessionAct) : Option Session :=
  if s.connected then
    match a with
    | .streamFrame id fin conflict rs =>
      if id < 2 ^ 32 then s.onStreamFrame id fin conflict rs else none
    | .rstStream id error => if id < 2 ^ 32 then s.onRstStream id error else none
    | .windowUpdate id offset env =>
      if id < 2 ^ 32 then (s.withEnv env).onWindowUpdateFrame id offset else none
    | .acked id length fin => s.onStreamFrameAcked id length fin
    | .lost id offset length fin => some (s.onStreamFrameLost id offset length fin)
    | .retransmitted id offset length fin => s.onStreamFrameRetransmitted id offset length fin
    | .canWrite env => (s.withEnv env).onCanWrite
    | .write w env => some ((s.withEnv env).writeOrBufferData w)
    | .finRead h =>
      if (s.resolve h).isSome ∧ h.id ≠ kCryptoStreamId then some (s.onFinRead h.id) else none
    | .reset h =>
      if (s.resolve h).isSome ∧ h.id ≠ kCryptoStreamId then some (s.resetOpen h.id) else none
    | .createStream priority => some (s.createStream priority).1
    | .cancelStream id => some (s.cancelStream id)
    | .postProcess => some { s with closedStreams := [] }
    | .encryption established env =>
      if s.server || s.confirmed then none
      else if established then ({ s with established := true }.withEnv env).onCanWrite
      else some { s with established := false }
    | .handshake =>
      if s.confirmed ∨ (s.server = false ∧ s.established = false) then none
      else some s.handshakeConfirmed
    | .config maxIncoming maxOutgoing window =>
      some { s with
        maxOpenIncomingStreams := maxIncoming
        maxOpenOutgoingStreams := maxOutgoing
        initialWindow := window }
    | .close error => some (s.onConnectionClosed error)
  else none

end Session
end Puic
