/-
  The frames of a packet in bytes (`BuildDataPacket` and `ProcessFrameData` of
  quic_framer.cc), for the layouts of versions 39 and 41.

  `appendFrame` writes one frame, `processFrame` reads one after its type byte, and
  `processFrameData` delivers the frames of a payload to the visitor, who takes them
  all.  What arrives is not always what was sent: `received` says what becomes of a
  frame, and `receivedFrames` of a list of frames.

  `frames_round_trip`: the visitor gets exactly that.
-/
import Puic.AckTruncation

namespace Puic

open Wire GapList Reads List

/-! ## Frames -/

def kMaxPacketSize : ℕ := 1452
def kMaxErrorStringLength : ℕ := 256

/-- `QuicRstStreamErrorCode` and `QuicErrorCode`, up to their `LAST_ERROR`. -/
abbrev QuicRstStreamErrorCode := Fin 17
abbrev QuicErrorNumber := Fin 100

/-- `QuicFrame`; a padding of -1 fills the packet. -/
inductive QuicFrame where
  | padding (numPaddingBytes : ℤ)
  | rstStream (streamId : UInt32) (errorCode : QuicRstStreamErrorCode) (byteOffset : UInt64)
  | connectionClose (errorCode : QuicErrorNumber) (errorDetails : List UInt8)
  | goAway (errorCode : QuicErrorNumber) (lastGoodStreamId : UInt32) (reasonPhrase : List UInt8)
  | windowUpdate (streamId : UInt32) (byteOffset : UInt64)
  | blocked (streamId : UInt32)
  | stopWaiting (leastUnacked : ℕ)
  | ping
  | stream (streamId : UInt32) (fin : Bool) (offset : UInt64) (data : List UInt8)
  | ack (frame : QuicAckFrame)
  | mtuDiscovery
deriving DecidableEq

/-- What the frames need of the packet header. -/
structure FrameHeader where
  packetNumber : ℕ
  packetNumberLength : ℕ
deriving Repr, DecidableEq

/-- The errors that `ProcessFrameData` raises. -/
inductive FramerError where
  | missingPayload
  | invalidFrameData
  | invalidStreamData
  | invalidAckData
  | invalidRstStreamData
  | invalidConnectionCloseData
  | invalidGoAwayData
  | invalidWindowUpdateData
  | invalidBlockedData
  | invalidStopWaitingData
deriving Repr, DecidableEq

/-! ## Writing -/

def getStreamIdSize (streamId : ℕ) : ℕ :=
  if streamId < 2 ^ 8 then 1 else if streamId < 2 ^ 16 then 2 else if streamId < 2 ^ 24 then 3 else 4

variable (v : TransportVersion) (h : FrameHeader) (type : UInt8)

def getStreamOffsetSize (offset : ℕ) : ℕ :=
  match v with
  | .quic39 =>
    if offset = 0 then 0
    else if offset < 2 ^ 16 then 2
    else if offset < 2 ^ 24 then 3
    else if offset < 2 ^ 32 then 4
    else if offset < 2 ^ 40 then 5
    else if offset < 2 ^ 48 then 6
    else if offset < 2 ^ 56 then 7
    else 8
  | .quic41 => if offset = 0 then 0 else if offset < 2 ^ 16 then 2 else if offset < 2 ^ 32 then 4 else 8

/-- The code of an offset size in the type byte. -/
def offsetCode (size : ℕ) : ℕ :=
  match v, size with
  | .quic39, 0 => 0
  | .quic39, n + 1 => n
  | .quic41, 0 => 0
  | .quic41, 2 => 1
  | .quic41, 4 => 2
  | .quic41, _ => 3

/-- `1FDOOOSS` with version 39, `11FSSOOD` with version 41. -/
def streamTypeByte (fin hasLength : Bool) (idCode offsetCode : ℕ) : UInt8 :=
  UInt8.ofNat <| match v with
  | .quic39 => 0x80 ||| (fin.toNat <<< 6) ||| (hasLength.toNat <<< 5) ||| (offsetCode <<< 2) ||| idCode
  | .quic41 => 0xc0 ||| (fin.toNat <<< 5) ||| (idCode <<< 3) ||| (offsetCode <<< 1) ||| hasLength.toNat

def truncateErrorString (error : List UInt8) : List UInt8 :=
  if error.length ≤ kMaxErrorStringLength then error else error.take kMaxErrorStringLength

def writeStringPiece16 (val : List UInt8) (w : Writer) : Option Writer :=
  if 2 ^ 16 - 1 < val.length then none
  else do
    let w ← w.write (encode 2 val.length)
    w.write val

def appendPacketNumber (length n : ℕ) (w : Writer) : Option Writer :=
  if length ≠ 1 ∧ length ≠ 2 ∧ length ≠ 4 ∧ length ≠ 6 ∧ length ≠ 8 then none
  else w.write (encode length n)

/-- `AppendStopWaitingFrame`.  A shift by 64 bits is one by none on the machines this runs on. -/
def appendStopWaitingFrame (leastUnacked : ℕ) (w : Writer) : Option Writer :=
  let leastUnackedDelta := wrap64 (h.packetNumber + 2 ^ 64 - leastUnacked)
  if 0 < leastUnackedDelta / 2 ^ (h.packetNumberLength * 8 % 64) then none
  else appendPacketNumber h.packetNumberLength leastUnackedDelta w

def appendPaddingFrame (numPaddingBytes : ℤ) (w : Writer) : Option Writer :=
  if numPaddingBytes = 0 then none
  else if numPaddingBytes < 0 then w.write (List.replicate w.room 0)
  else w.write (List.replicate (numPaddingBytes - 1).toNat 0)

def appendStreamFrame (noLength : Bool) (streamId : UInt32) (offset : UInt64) (data : List UInt8)
    (w : Writer) : Option Writer := do
  let w ← w.write (encode (getStreamIdSize streamId.toNat) streamId.toNat)
  let w ← w.write (encode (getStreamOffsetSize v offset.toNat) offset.toNat)
  if noLength then w.write data else writeStringPiece16 data w

/-- One round of the loop of `BuildDataPacket`: the type byte and the frame. -/
def appendFrame (noStreamFrameLength : Bool) (frame : QuicFrame) (w : Writer) :
    Option Writer :=
  match frame with
  | .padding n => do
    let w ← w.write [0]
    appendPaddingFrame n w
  | .rstStream streamId errorCode byteOffset => do
    let w ← w.write [1]
    let w ← w.write (encode 4 streamId.toNat)
    let w ← w.write (if v = .quic39 then encode 8 byteOffset.toNat else [])
    let w ← w.write (encode 4 errorCode)
    w.write (if v = .quic41 then encode 8 byteOffset.toNat else [])
  | .connectionClose errorCode errorDetails => do
    let w ← w.write [2]
    let w ← w.write (encode 4 errorCode)
    writeStringPiece16 (truncateErrorString errorDetails) w
  | .goAway errorCode lastGoodStreamId reasonPhrase => do
    let w ← w.write [3]
    let w ← w.write (encode 4 errorCode)
    let w ← w.write (encode 4 lastGoodStreamId.toNat)
    writeStringPiece16 (truncateErrorString reasonPhrase) w
  | .windowUpdate streamId byteOffset => do
    let w ← w.write [4]
    let w ← w.write (encode 4 streamId.toNat)
    w.write (encode 8 byteOffset.toNat)
  | .blocked streamId => do
    let w ← w.write [5]
    w.write (encode 4 streamId.toNat)
  | .stopWaiting leastUnacked => do
    let w ← w.write [6]
    appendStopWaitingFrame h leastUnacked w
  | .ping => w.write [7]
  | .stream streamId fin offset data => do
    let w ← w.write [streamTypeByte v fin (!noStreamFrameLength) (getStreamIdSize streamId.toNat - 1)
      (offsetCode v (getStreamOffsetSize v offset.toNat))]
    appendStreamFrame v noStreamFrameLength streamId offset data w
  | .ack frame => appendAckFrameAndTypeByte v frame w
  | .mtuDiscovery => w.write [7]

/-- The loop of `BuildDataPacket`, on a writer that holds the packet header. -/
def appendFrames (v : TransportVersion) (h : FrameHeader) : List QuicFrame → Writer → Option Writer
  | [], w => some w
  | frame :: frames, w => do
    let w ← appendFrame v h frames.isEmpty frame w
    appendFrames v h frames w

/-! ## Reading -/

def readStringPiece16 (e : String) : Reader (List UInt8) := do
  let n ← Reader.uint 2 e
  Reader.bytes n e

def isStreamType : Bool :=
  match v with
  | .quic39 => type &&& 0x80 != 0
  | .quic41 => type &&& 0xc0 == 0xc0

def isAckType : Bool :=
  match v with
  | .quic39 => type &&& 0x40 != 0
  | .quic41 => type &&& 0xe0 == 0xa0

/-- The fields of a stream type byte: the sizes of id and offset, whether there is a length, and the
    FIN. -/
def streamFlags : ℕ × ℕ × Bool × Bool :=
  match v with
  | .quic39 =>
    let offsetLength := extractBits type 3 2
    (extractBits type 2 0 + 1, if 0 < offsetLength then offsetLength + 1 else 0, extractBit type 5,
      extractBit type 6)
  | .quic41 =>
    let offsetLength := 2 ^ extractBits type 2 1
    (1 + extractBits type 2 3, if offsetLength = 1 then 0 else offsetLength, extractBit type 0,
      extractBit type 5)

/-- The data of a stream frame, which takes the rest of the packet if it has no length. -/
def readStreamData (hasDataLength : Bool) : Reader (List UInt8) :=
  if hasDataLength then readStringPiece16 "Unable to read frame data." else Reader.remaining

def processStreamFrame : Reader QuicFrame := do
  let (idLength, offsetLength, hasDataLength, fin) := streamFlags v type
  let streamId ← Reader.uint idLength "Unable to read stream_id."
  let offset ← Reader.uint offsetLength "Unable to read offset."
  let data ← readStreamData hasDataLength
  return .stream (UInt32.ofNat streamId) fin (UInt64.ofNat offset) (data.take (data.length % 2 ^ 16))

def lastErrorOr {n : ℕ} (code : ℕ) : Fin (n + 1) := ⟨min code n, by omega⟩

def processRstStreamFrame : Reader QuicFrame := do
  let streamId ← Reader.uint 4 "Unable to read stream_id."
  let byteOffset ← Reader.uintIf (v = .quic39) 8 "Unable to read rst stream sent byte offset." 0
  let errorCode ← Reader.uint 4 "Unable to read rst stream error code."
  let byteOffset ← Reader.uintIf (v = .quic41) 8 "Unable to read rst stream sent byte offset." byteOffset
  return .rstStream (UInt32.ofNat streamId) (lastErrorOr errorCode) (UInt64.ofNat byteOffset)

def processConnectionCloseFrame : Reader QuicFrame := do
  let errorCode ← Reader.uint 4 "Unable to read connection close error code."
  let errorDetails ← readStringPiece16 "Unable to read connection close error details."
  return .connectionClose (lastErrorOr errorCode) errorDetails

def processGoAwayFrame : Reader QuicFrame := do
  let errorCode ← Reader.uint 4 "Unable to read go away error code."
  let streamId ← Reader.uint 4 "Unable to read last good stream id."
  let reasonPhrase ← readStringPiece16 "Unable to read goaway reason."
  return .goAway (lastErrorOr errorCode) (UInt32.ofNat streamId) reasonPhrase

def processWindowUpdateFrame : Reader QuicFrame := do
  let streamId ← Reader.uint 4 "Unable to read stream_id."
  let byteOffset ← Reader.uint 8 "Unable to read window byte_offset."
  return .windowUpdate (UInt32.ofNat streamId) (UInt64.ofNat byteOffset)

def processBlockedFrame : Reader QuicFrame := do
  let streamId ← Reader.uint 4 "Unable to read stream_id."
  return .blocked (UInt32.ofNat streamId)

def processStopWaitingFrame : Reader QuicFrame := do
  let leastUnackedDelta ← Reader.uint h.packetNumberLength "Unable to read least unacked delta."
  if h.packetNumber < leastUnackedDelta then Reader.fail "Invalid unacked delta."
  else return .stopWaiting (h.packetNumber - leastUnackedDelta)

/-- The run of zero bytes after the type byte. -/
def processPaddingFrame : Reader QuicFrame := fun data =>
  .ok (.padding (1 + (data.takeWhile (· == 0)).length), data.dropWhile (· == 0))

/-- One frame, after its type byte. -/
def processFrame (lastTimestamp : ℕ) (type : UInt8) : Reader QuicFrame :=
  if type &&& 0xe0 ≠ 0 then
    if isStreamType v type then processStreamFrame v type
    else if isAckType v type then do
      let r ← processAckFrame v lastTimestamp type
      return .ack r.1
    else Reader.fail "Illegal frame type."
  else match type with
    | 0 => processPaddingFrame
    | 1 => processRstStreamFrame v
    | 2 => processConnectionCloseFrame
    | 3 => processGoAwayFrame
    | 4 => processWindowUpdateFrame
    | 5 => processBlockedFrame
    | 6 => processStopWaitingFrame h
    | 7 => pure .ping
    | _ => Reader.fail "Illegal frame type."

/-- The error that is raised when a frame of a type cannot be read. -/
def frameError : FramerError :=
  if type &&& 0xe0 ≠ 0 then
    if isStreamType v type then .invalidStreamData
    else if isAckType v type then .invalidAckData
    else .invalidFrameData
  else match type with
    | 1 => .invalidRstStreamData
    | 2 => .invalidConnectionCloseData
    | 3 => .invalidGoAwayData
    | 4 => .invalidWindowUpdateData
    | 5 => .invalidBlockedData
    | 6 => .invalidStopWaitingData
    | _ => .invalidFrameData

/-- `last_timestamp_` after a frame has been read. -/
def QuicFrame.lastTimestamp (last : ℕ) : QuicFrame → ℕ
  | .ack frame => (frame.receivedPacketTimes.getLast?.map Prod.snd).getD last
  | _ => last

/-- The loop of `ProcessFrameData`: the frames that are delivered, and the error if there is one.
    Every frame takes at least its type byte, so that `fuel` for the length of the data is enough.
    -/
def processFrames (v : TransportVersion) (h : FrameHeader) :
    ℕ → ℕ → List UInt8 → List QuicFrame × Option (FramerError × String)
  | fuel + 1, last, type :: data =>
    match processFrame v h last type data with
    | .error e => ([], some (frameError v type, e))
    | .ok (frame, rest) =>
      let r := processFrames v h fuel (frame.lastTimestamp last) rest
      (frame :: r.1, r.2)
  | _, _, _ => ([], none)

/-- `ProcessFrameData`. -/
def processFrameData (last : ℕ) (data : List UInt8) :
    List QuicFrame × Option (FramerError × String) :=
  if data = [] then ([], some (.missingPayload, "Packet has no frames."))
  else processFrames v h data.length last data

/-! ## What arrives -/

/-- Receive times after the first one arrive as sums of rounded differences. -/
def receivedDeltas : ℕ → ℕ → List (ℕ × ℕ) → List (ℕ × ℕ)
  | _, _, [] => []
  | last, prevTime, (n, time) :: times =>
    let last := last + UFloat16.round (wrap64 (time + 2 ^ 64 - prevTime))
    (n, last) :: receivedDeltas last time times

/-- The first receive time arrives without its high bytes. -/
def receivedTimes (lastTimestamp : ℕ) : List (ℕ × ℕ) → List (ℕ × ℕ)
  | [] => []
  | (n, time) :: times =>
    let last := calculateTimestampFromWire lastTimestamp (time % 2 ^ 32)
    (n, last) :: receivedDeltas last time times

def QuicAckFrame.received (last : ℕ) (frame : QuicAckFrame) : QuicAckFrame where
  largestObserved := frame.packets.largest
  ackDelayTime := frame.roundedDelay
  packets := frame.packets
  receivedPacketTimes := receivedTimes last frame.receivedPacketTimes

/-- What becomes of a frame that took `bytes` bytes. -/
def QuicFrame.received (last bytes : ℕ) : QuicFrame → QuicFrame
  | .padding _ => .padding bytes
  | .connectionClose errorCode errorDetails =>
    .connectionClose errorCode (truncateErrorString errorDetails)
  | .goAway errorCode streamId reasonPhrase =>
    .goAway errorCode streamId (truncateErrorString reasonPhrase)
  | .ack frame => .ack (frame.received last)
  | .mtuDiscovery => .ping
  | frame => frame

/-- Padding after padding is one padding. -/
def deliver : QuicFrame → List QuicFrame → List QuicFrame
  | .padding n, .padding m :: frames => .padding (n + m) :: frames
  | frame, frames => frame :: frames

/-- What the visitor gets of the frames that are appended to `w`. -/
def receivedFrames (v : TransportVersion) (h : FrameHeader) : List QuicFrame → Writer → ℕ → List QuicFrame
  | [], _, _ => []
  | frame :: frames, w, last =>
    match appendFrame v h frames.isEmpty frame w with
    | none => []
    | some w' =>
      let frame' := frame.received last (w'.data.length - w.data.length)
      deliver frame' (receivedFrames v h frames w' (frame'.lastTimestamp last))

/-- An ACK is not truncated, its numbers have room in the bytes that version 39 has for them, and
    nothing is waited for that has not been sent. -/
def FrameSendable (w : Writer) : QuicFrame → Prop
  | .ack frame => frame.total ≤ 255 ∧ frame.size v ≤ w.room ∧ (∀ x ∈ frame.packets, x + 1 < 2 ^ 64) ∧
      (∀ p ∈ frame.receivedPacketTimes, p.1 < 2 ^ 64) ∧
      (v = .quic39 → frame.packets.largest < 2 ^ 48 ∧ frame.info.firstBlockLength < 2 ^ 48)
  | .stopWaiting leastUnacked => leastUnacked ≤ h.packetNumber ∧ h.packetNumber < 2 ^ 64
  | _ => True

/-- The frames are sendable, each one where it is written. -/
def AllSendable (v : TransportVersion) (h : FrameHeader) : List QuicFrame → Writer → Prop
  | [], _ => True
  | frame :: frames, w => FrameSendable v h w frame ∧
      ∀ w', appendFrame v h frames.isEmpty frame w = some w' → AllSendable v h frames w'

def QuicFrame.isPadding : QuicFrame → Bool
  | .padding _ => true
  | _ => false

section RoundTrip

variable {v : TransportVersion} {h : FrameHeader} {w w' : Writer} {last : ℕ} {noLength : Bool}

/-- A frame that has been written as `type :: body`, and how it is read. -/
def ReadsBack (v : TransportVersion) (h : FrameHeader) (last : ℕ) (noLength : Bool) (w w' : Writer)
    (frame : QuicFrame) : Prop :=
  ∃ type body, type ≠ 0 ∧ w'.capacity = w.capacity ∧ w'.data = w.data ++ type :: body ∧
    ∀ rest, (noLength = true → rest = []) → processFrame v h last type (body ++ rest) = .ok (frame, rest)

variable {frame : QuicFrame} {type : UInt8} {body val data payload : List UInt8} {n largest k : ℕ}
    {e : String} {streamId : UInt32} {offset : UInt64} {code : QuicErrorNumber} {gs : List Gap}
    {frames : List QuicFrame}

theorem ReadsBack.of_write (ht : type ≠ 0)
    (hw : w.write (type :: body) = some w')
    (hr : ∀ rest, (noLength = true → rest = []) →
      processFrame v h last type (body ++ rest) = .ok (frame, rest)) :
    ReadsBack v h last noLength w w' frame :=
  ⟨type, body, ht, (Writer.write_eq_some.1 hw).1, (Writer.write_eq_some.1 hw).2, hr⟩

theorem lastErrorOr_val (code : Fin (n + 1)) : lastErrorOr code.val = code := by
  refine Fin.ext ?_
  simp only [lastErrorOr]
  omega

theorem reads_uint32 (n : UInt32) : Reads (Reader.uint 4 e) (encode 4 n.toNat) n.toNat :=
  uint (by have := n.toNat_lt; omega)

theorem reads_uint64 (n : UInt64) : Reads (Reader.uint 8 e) (encode 8 n.toNat) n.toNat :=
  uint (by have := n.toNat_lt; omega)

theorem reads_errorCode (hn : n < 2 ^ 32) (code : Fin (n + 1)) :
    Reads (Reader.uint 4 e) (encode 4 code.val) code.val :=
  uint (by have := code.isLt; omega)

theorem reads_stringPiece16 (hlen : val.length < 2 ^ 16) :
    Reads (readStringPiece16 e) (encode 2 val.length ++ val) val :=
  (uint hlen).bind (bytes rfl)

theorem writeStringPiece16_eq (hlen : val.length < 2 ^ 16) :
    writeStringPiece16 val w = w.write (encode 2 val.length ++ val) := by
  rw [writeStringPiece16, if_neg (by omega)]
  exact Writer.write_write

theorem length_truncateErrorString (error : List UInt8) :
    (truncateErrorString error).length < 2 ^ 16 := by
  unfold truncateErrorString kMaxErrorStringLength
  split
  · omega
  · rw [length_take]
    omega

/-- The bytes of a frame other than an ACK. -/
def QuicFrame.bytes (v : TransportVersion) (h : FrameHeader) (noLength : Bool) : QuicFrame → List UInt8
  | .padding n => List.replicate n.toNat 0
  | .rstStream streamId code offset =>
    1 :: (encode 4 streamId.toNat ++ ((if v = .quic39 then encode 8 offset.toNat else []) ++
      (encode 4 code ++ if v = .quic41 then encode 8 offset.toNat else [])))
  | .connectionClose code details =>
    2 :: (encode 4 code ++ (encode 2 (truncateErrorString details).length ++ truncateErrorString details))
  | .goAway code streamId reason => 3 :: (encode 4 code ++ (encode 4 streamId.toNat ++
      (encode 2 (truncateErrorString reason).length ++ truncateErrorString reason)))
  | .windowUpdate streamId offset => 4 :: (encode 4 streamId.toNat ++ encode 8 offset.toNat)
  | .blocked streamId => 5 :: encode 4 streamId.toNat
  | .stopWaiting leastUnacked =>
    6 :: encode h.packetNumberLength (wrap64 (h.packetNumber + 2 ^ 64 - leastUnacked))
  | .ping | .mtuDiscovery => [7]
  | .stream streamId fin offset data =>
    streamTypeByte v fin (!noLength) (getStreamIdSize streamId.toNat - 1)
      (offsetCode v (getStreamOffsetSize v offset.toNat)) ::
      (encode (getStreamIdSize streamId.toNat) streamId.toNat ++
        (encode (getStreamOffsetSize v offset.toNat) offset.toNat ++
        if noLength then data else encode 2 data.length ++ data))
  | .ack _ => []

/-- The frames that are written with these bytes. -/
def QuicFrame.Direct (h : FrameHeader) (noLength : Bool) : QuicFrame → Prop
  | .padding n => 0 < n
  | .stopWaiting leastUnacked => h.packetNumberLength ∈ [1, 2, 4, 6, 8] ∧
      wrap64 (h.packetNumber + 2 ^ 64 - leastUnacked) < 2 ^ (h.packetNumberLength * 8 % 64)
  | .stream _ _ _ data => noLength = false → data.length < 2 ^ 16
  | .ack _ => False
  | _ => True

theorem appendFrame_eq_write (hd : frame.Direct h noLength) :
    appendFrame v h noLength frame w = w.write (frame.bytes v h noLength) := by
  cases frame with
  | padding n =>
    have hpos : 0 < n := hd
    have hn : n.toNat = (n - 1).toNat + 1 := by omega
    rw [QuicFrame.bytes, hn, replicate_succ]
    simp [appendFrame, appendPaddingFrame, hpos.ne', hpos.not_gt]
  | stopWaiting leastUnacked =>
    obtain ⟨hk, hfit⟩ := hd
    simp only [mem_cons, not_mem_nil, or_false] at hk
    have hk' : ¬(h.packetNumberLength ≠ 1 ∧ h.packetNumberLength ≠ 2 ∧ h.packetNumberLength ≠ 4 ∧
        h.packetNumberLength ≠ 6 ∧ h.packetNumberLength ≠ 8) := by omega
    simp only [appendFrame, appendStopWaitingFrame, Nat.div_eq_of_lt hfit, Nat.lt_irrefl, if_false,
      appendPacketNumber, if_neg hk', Option.bind_eq_bind, Writer.write_write]
    rfl
  | stream streamId fin offset data =>
    cases noLength with
    | true => simp [appendFrame, appendStreamFrame, QuicFrame.bytes]
    | false => simp [appendFrame, appendStreamFrame, QuicFrame.bytes, writeStringPiece16_eq (hd rfl)]
  | ack frame => exact hd.elim
  | _ => simp [appendFrame, QuicFrame.bytes, writeStringPiece16_eq (length_truncateErrorString _)]

theorem readsBack_of_bytes {frame' : QuicFrame}
    (happ : appendFrame v h noLength frame w = some w') (hd : frame.Direct h noLength)
    (hb : frame.bytes v h noLength = type :: body) (ht : type ≠ 0)
    (hr : Reads (processFrame v h last type) body frame') :
    ReadsBack v h last noLength w w' frame' := by
  rw [appendFrame_eq_write hd, hb] at happ
  exact .of_write ht happ fun rest _ => hr rest

theorem readsBack_rstStream {code : QuicRstStreamErrorCode}
    (happ : appendFrame v h noLength (.rstStream streamId code offset) w = some w') :
    ReadsBack v h last noLength w w' (.rstStream streamId code offset) := by
  have hframe : (QuicFrame.rstStream (UInt32.ofNat streamId.toNat) (lastErrorOr code.val)
      (UInt64.ofNat offset.toNat)) =
      .rstStream streamId code offset := by
    rw [UInt32.ofNat_toNat, UInt64.ofNat_toNat, lastErrorOr_val]
  refine readsBack_of_bytes happ trivial rfl (by decide) ?_
  rw [← hframe]
  cases v with
  | quic39 =>
    refine (reads_uint32 streamId).bind ((uintIf_pos rfl (reads_uint64 offset)).bind ?_)
    exact (reads_errorCode (by decide) code).bind (uintIf_neg (by decide)).map
  | quic41 =>
    refine (reads_uint32 streamId).bind (bind_nil (uintIf_neg (by decide)) ?_)
    exact (reads_errorCode (by decide) code).bind (uintIf_pos rfl (reads_uint64 offset)).map

theorem readsBack_connectionClose {details : List UInt8}
    (happ : appendFrame v h noLength (.connectionClose code details) w = some w') :
    ReadsBack v h last noLength w w' (.connectionClose code (truncateErrorString details)) := by
  have hframe : QuicFrame.connectionClose (lastErrorOr code.val) (truncateErrorString details) =
      .connectionClose code (truncateErrorString details) := by
    rw [lastErrorOr_val]
  refine readsBack_of_bytes happ trivial rfl (by decide) ?_
  rw [← hframe]
  exact (reads_errorCode (by decide) code).bind
    (reads_stringPiece16 (length_truncateErrorString details)).map

theorem readsBack_goAway {reason : List UInt8}
    (happ : appendFrame v h noLength (.goAway code streamId reason) w = some w') :
    ReadsBack v h last noLength w w' (.goAway code streamId (truncateErrorString reason)) := by
  have hframe : QuicFrame.goAway (lastErrorOr code.val) (UInt32.ofNat streamId.toNat)
      (truncateErrorString reason) =
      .goAway code streamId (truncateErrorString reason) := by
    rw [UInt32.ofNat_toNat, lastErrorOr_val]
  refine readsBack_of_bytes happ trivial rfl (by decide) ?_
  rw [← hframe]
  exact (reads_errorCode (by decide) code).bind
    ((reads_uint32 streamId).bind (reads_stringPiece16 (length_truncateErrorString reason)).map)

theorem readsBack_windowUpdate
    (happ : appendFrame v h noLength (.windowUpdate streamId offset) w = some w') :
    ReadsBack v h last noLength w w' (.windowUpdate streamId offset) := by
  have hframe : QuicFrame.windowUpdate (UInt32.ofNat streamId.toNat) (UInt64.ofNat offset.toNat) =
      .windowUpdate streamId offset := by
    rw [UInt32.ofNat_toNat, UInt64.ofNat_toNat]
  refine readsBack_of_bytes happ trivial rfl (by decide) ?_
  rw [← hframe]
  exact (reads_uint32 streamId).bind (reads_uint64 offset).map

theorem readsBack_blocked (happ : appendFrame v h noLength (.blocked streamId) w = some w') :
    ReadsBack v h last noLength w w' (.blocked streamId) := by
  refine readsBack_of_bytes happ trivial rfl (by decide) ?_
  have := (reads_uint32 (e := "Unable to read stream_id.") streamId).map
    (g := fun n => QuicFrame.blocked (UInt32.ofNat n))
  rwa [UInt32.ofNat_toNat] at this

theorem readsBack_ping (happ : w.write [7] = some w') : ReadsBack v h last noLength w w' .ping :=
  .of_write (by decide) happ fun _ _ => rfl

theorem readsBack_stopWaiting {leastUnacked : ℕ} (hle : leastUnacked ≤ h.packetNumber)
    (h64 : h.packetNumber < 2 ^ 64)
    (happ : appendFrame v h noLength (.stopWaiting leastUnacked) w = some w') :
    ReadsBack v h last noLength w w' (.stopWaiting leastUnacked) := by
  have hdelta : wrap64 (h.packetNumber + 2 ^ 64 - leastUnacked) = h.packetNumber - leastUnacked := by
    rw [wrap64, Nat.mod_eq_sub_mod (by omega), Nat.mod_eq_of_lt (by omega)]
    omega
  have hdirect : (QuicFrame.stopWaiting leastUnacked).Direct h noLength := by
    obtain ⟨w₁, -, happ⟩ := Option.bind_eq_some_iff.1 happ
    obtain ⟨hshift, happ⟩ := Option.ite_none_left_eq_some.1 happ
    obtain ⟨hk, -⟩ := Option.ite_none_left_eq_some.1 happ
    simp only [QuicFrame.Direct, mem_cons, not_mem_nil, or_false]
    exact ⟨by omega, (Nat.div_eq_zero_iff_lt (Nat.two_pow_pos _)).1 (Nat.eq_zero_of_not_pos hshift)⟩
  -- what is left of the difference after the shift is nothing
  have hfit : h.packetNumber - leastUnacked < 256 ^ h.packetNumberLength := by
    obtain ⟨hk, hlt⟩ := hdirect
    rw [hdelta] at hlt
    simp only [mem_cons, not_mem_nil, or_false] at hk
    rcases hk with hl | hl | hl | hl | hl
    all_goals
      rw [hl] at hlt ⊢
      omega
  refine readsBack_of_bytes happ hdirect rfl (by decide) ?_
  rw [hdelta, ← append_nil (encode _ _)]
  refine (uint hfit).bind ?_
  rw [if_neg (by omega)]
  have hleast : h.packetNumber - (h.packetNumber - leastUnacked) = leastUnacked := by omega
  rw [hleast]
  exact pure

/-! ### Stream frames -/

theorem getStreamIdSize_spec (hn : n < 2 ^ 32) :
    1 ≤ getStreamIdSize n ∧ getStreamIdSize n ≤ 4 ∧ n < 256 ^ getStreamIdSize n := by
  unfold getStreamIdSize
  split_ifs <;> refine ⟨by decide, by decide, ?_⟩ <;> norm_num <;> omega

/-- The sizes that version 39 and version 41 have for offsets. -/
def IsOffsetSize (v : TransportVersion) (size : ℕ) : Prop :=
  match v with
  | .quic39 => size = 0 ∨ 2 ≤ size ∧ size ≤ 8
  | .quic41 => size = 0 ∨ size = 2 ∨ size = 4 ∨ size = 8

theorem getStreamOffsetSize_spec (hn : n < 2 ^ 64) :
    IsOffsetSize v (getStreamOffsetSize v n) ∧ n < 256 ^ getStreamOffsetSize v n := by
  cases v with
  | quic39 =>
    unfold getStreamOffsetSize IsOffsetSize
    dsimp only
    split_ifs <;> refine ⟨by omega, ?_⟩ <;> norm_num <;> omega
  | quic41 =>
    unfold getStreamOffsetSize IsOffsetSize
    dsimp only
    split_ifs <;> refine ⟨by omega, ?_⟩ <;> norm_num <;> omega

theorem streamTypeByte_quic39 : ∀ (fin hasLength : Bool) (idCode : Fin 4) (offsetCode : Fin 8),
    let type := streamTypeByte .quic39 fin hasLength idCode offsetCode
    type ≠ 0 ∧ type &&& 0xe0 ≠ 0 ∧ isStreamType .quic39 type = true ∧ streamFlags .quic39 type =
      (idCode.val + 1, if 0 < offsetCode.val then offsetCode.val + 1 else 0, hasLength, fin) := by
  decide

theorem streamTypeByte_quic41 : ∀ (fin hasLength : Bool) (idCode offsetCode : Fin 4),
    let type := streamTypeByte .quic41 fin hasLength idCode offsetCode
    type ≠ 0 ∧ type &&& 0xe0 ≠ 0 ∧ isStreamType .quic41 type = true ∧ streamFlags .quic41 type =
      (1 + idCode.val, if offsetCode.val = 0 then 0 else 2 ^ offsetCode.val, hasLength, fin) := by
  decide

theorem streamTypeByte_spec {idSize offsetSize : ℕ} (fin hasLength : Bool) (hid : 1 ≤ idSize ∧ idSize ≤ 4)
    (hoffset : IsOffsetSize v offsetSize) :
    let type := streamTypeByte v fin hasLength (idSize - 1) (offsetCode v offsetSize)
    type ≠ 0 ∧ type &&& 0xe0 ≠ 0 ∧ isStreamType v type = true ∧
      streamFlags v type = (idSize, offsetSize, hasLength, fin) := by
  cases v with
  | quic39 =>
    have hcode : offsetCode .quic39 offsetSize = offsetSize - 1 := by cases offsetSize <;> rfl
    have hsize : (if 0 < offsetSize - 1 then offsetSize - 1 + 1 else 0) = offsetSize := by
      unfold IsOffsetSize at hoffset
      split <;> omega
    have h := streamTypeByte_quic39 fin hasLength ⟨idSize - 1, by omega⟩ ⟨offsetSize - 1, by
      unfold IsOffsetSize at hoffset
      omega⟩
    rw [hsize, Nat.sub_add_cancel hid.1] at h
    rw [hcode]
    exact h
  | quic41 =>
    have hid' : 1 + (idSize - 1) = idSize := by omega
    rcases hoffset with rfl | rfl | rfl | rfl
    · have h := streamTypeByte_quic41 fin hasLength ⟨idSize - 1, by omega⟩ 0
      rwa [hid'] at h
    · have h := streamTypeByte_quic41 fin hasLength ⟨idSize - 1, by omega⟩ 1
      rwa [hid'] at h
    · have h := streamTypeByte_quic41 fin hasLength ⟨idSize - 1, by omega⟩ 2
      rwa [hid'] at h
    · have h := streamTypeByte_quic41 fin hasLength ⟨idSize - 1, by omega⟩ 3
      rwa [hid'] at h

theorem readsBack_stream {fin : Bool}
    (hcap : w.capacity ≤ kMaxPacketSize)
    (happ : appendFrame v h noLength (.stream streamId fin offset data) w = some w') :
    ReadsBack v h last noLength w w' (.stream streamId fin offset data) := by
  obtain ⟨hid1, hid4, hid⟩ := getStreamIdSize_spec streamId.toNat_lt
  obtain ⟨hsize, hoffset⟩ := getStreamOffsetSize_spec offset.toNat_lt
  obtain ⟨ht0, ht, hstream, hflags⟩ := streamTypeByte_spec fin (!noLength) ⟨hid1, hid4⟩ hsize
  have hread : processFrame v h last
      (streamTypeByte v fin (!noLength) (getStreamIdSize streamId.toNat - 1)
      (offsetCode v (getStreamOffsetSize v offset.toNat))) = do
        let streamId ← Reader.uint (getStreamIdSize streamId.toNat) "Unable to read stream_id."
        let offset ← Reader.uint (getStreamOffsetSize v offset.toNat) "Unable to read offset."
        let data ← readStreamData (!noLength)
        return .stream (UInt32.ofNat streamId) fin (UInt64.ofNat offset)
          (data.take (data.length % 2 ^ 16)) := by
    unfold processFrame
    rw [if_pos ht, if_pos hstream]
    unfold processStreamFrame
    rw [hflags]
  have hframe : data.length < 2 ^ 16 →
      QuicFrame.stream (UInt32.ofNat streamId.toNat) fin (UInt64.ofNat offset.toNat)
      (data.take (data.length % 2 ^ 16)) = .stream streamId fin offset data := by
    intro hlen
    rw [UInt32.ofNat_toNat, UInt64.ofNat_toNat, Nat.mod_eq_of_lt hlen, take_length]
  cases noLength with
  | true =>
    have hd : (QuicFrame.stream streamId fin offset data).Direct h true := fun hn => nomatch hn
    have hw := (appendFrame_eq_write hd).symm.trans happ
    refine .of_write ht0 hw fun rest hrest => ?_
    have hlen : data.length < 2 ^ 16 := by
      have hle := Writer.exists_write.1 ⟨w', hw⟩
      simp only [QuicFrame.bytes, length_cons, length_append, if_true] at hle
      unfold Writer.room kMaxPacketSize at *
      omega
    rw [hrest rfl, append_nil]
    rw [hread, (uint hid).bind_run, (uint hoffset).bind_run, ← hframe hlen]
    rfl
  | false =>
    have hlen : data.length < 2 ^ 16 := by
      by_contra hlong
      have hnone : ∀ w : Writer, writeStringPiece16 data w = none := fun w => by
        rw [writeStringPiece16, if_pos (by omega)]
      simp only [appendFrame, appendStreamFrame, hnone] at happ
      simp at happ
    refine readsBack_of_bytes happ (fun _ => hlen) rfl ht0 ?_
    rw [hread, ← hframe hlen]
    exact (uint hid).bind ((uint hoffset).bind (reads_stringPiece16 hlen).map)

/-! ### ACK frames -/

theorem deltaFromLargest_inv (hl : largest < 2 ^ 64) (hn : n < 2 ^ 64) :
    wrap64 (largest + 2 ^ 64 - deltaFromLargest largest n) = n := by
  unfold deltaFromLargest wrap64
  omega

theorem decodedTimes_eq (hl : largest < 2 ^ 64) {times : List (ℕ × ℕ)} (ht : ∀ p ∈ times, p.1 < 2 ^ 64) :
    decodedTimes last largest times = receivedTimes last times := by
  have hdeltas : ∀ (times : List (ℕ × ℕ)) (last prev : ℕ), (∀ p ∈ times, p.1 < 2 ^ 64) →
      decodedDeltas largest last prev times = receivedDeltas last prev times := by
    intro times
    induction times with
    | nil => exact fun _ _ _ => rfl
    | cons p times ih =>
      intro last prev ht
      rw [decodedDeltas, receivedDeltas, deltaFromLargest_inv hl (ht p (.head _)),
        ih _ _ fun q hq => ht q (.tail _ hq)]
  cases times with
  | nil => rfl
  | cons p times =>
    rw [decodedTimes, receivedTimes, deltaFromLargest_inv hl (ht p (.head _)),
      hdeltas times _ _ fun q hq => ht q (.tail _ hq)]

theorem ackTypeByte_spec (frame : QuicAckFrame) :
    frame.typeByte v ≠ 0 ∧ frame.typeByte v &&& 0xe0 ≠ 0 ∧ isStreamType v (frame.typeByte v) = false ∧
      isAckType v (frame.typeByte v) = true := by
  have hall : ∀ (b : Fin 2) (f g : Fin 4),
      let type := UInt8.ofNat
        ((if v = .quic39 then 0x40 else 0xa0) ||| (b.val <<< hasMultipleAckBlocksOffset v) |||
        (f.val <<< 2) ||| g.val)
      type ≠ 0 ∧ type &&& 0xe0 ≠ 0 ∧ isStreamType v type = false ∧ isAckType v type = true := by
    cases v <;> decide
  exact hall ⟨if frame.info.numAckBlocks ≠ 0 then 1 else 0, by split <;> decide⟩
    ⟨_, getPacketNumberFlags_lt (frame.largestLength v)⟩
      ⟨_, getPacketNumberFlags_lt (frame.blockLength v)⟩

theorem reads_ack_empty {frame : QuicAckFrame} (hempty : frame.packets.intervals = [])
    (henc : TimesEncodable frame.packets.largest frame.receivedPacketTimes) :
    Reads (processAckFrame v last (frame.typeByte v))
      (frame.bodyBytes v 0 (UInt8.ofNat frame.receivedPacketTimes.length) ++ frame.tailBytes v)
      (⟨frame.packets.largest, frame.roundedDelay, frame.packets,
        decodedTimes last frame.packets.largest frame.receivedPacketTimes⟩, []) := by
  have hpackets : frame.packets = .empty := by
    exact PacketNumberQueue.mk.injEq .. ▸ hempty
  have hlargest : frame.packets.largest = 0 := by rw [hpackets]; rfl
  have hinfo : frame.info = ⟨0, 0, 0⟩ := by rw [QuicAckFrame.info, hpackets]; rfl
  have hcount := toNat_timestampCount henc
  have h1 : ∀ n, (frame.header v 0 n).largestAcked = frame.packets.largest := fun n => by
    simp [QuicAckFrame.header, hlargest]
  have h2 : ∀ n, (frame.header v 0 n).firstBlockLength = 0 := fun n => by
    simp [QuicAckFrame.header, hinfo]
  have hone : AckedPackets.empty.addRange 1 1 = .empty :=
    AckedPackets.addRange_of_eq (by rw [PacketNumbers.addRange, if_pos le_rfl])
  have hstep : frame.info.numAckBlocks ≠ 0 ↔ 0 < 0 := by
    rw [hinfo]
    simp
  have htop : wrap64
      ((frame.header v 0 (UInt8.ofNat frame.receivedPacketTimes.length)).largestAcked + 1) = 1 := by
    rw [h1, hlargest]
    rfl
  have heq : AckedPackets.empty.packets = frame.packets := hpackets.symm
  have hread := reads_processAckFrame last _ hstep (by decide) htop (by rw [h2]; decide)
    (by rw [h2, hone, blocks_zero]; exact pure)
    (by rw [hcount, heq]; exact reads_timestamps henc)
  rw [h1, heq] at hread
  exact hread

theorem gapsEncodable_of_total {prev left : ℕ} (h255 : totalBlocks prev gs ≤ 255) :
    GapsEncodable prev left gs := by
  induction gs generalizing prev left with
  | nil => exact trivial
  | cons g gs ih =>
    rw [totalBlocks] at h255
    refine .inr ⟨?_, fun _ => ih (by omega)⟩
    unfold blocksFor at h255
    omega

/-- A frame that is not truncated is read as it is. -/
theorem reads_ack_whole {frame : QuicAckFrame} {g : Gap}
    (hrev : frame.packets.intervals.reverse = g :: gs)
    (hgood : FrameSendable v h w (.ack frame))
    (hnum : frame.numBlocks v w.room = min frame.info.numAckBlocks 255)
    (henc : TimesEncodable frame.packets.largest frame.receivedPacketTimes) :
    ∃ added, Reads (processAckFrame v last (frame.typeByte v))
      (frame.bodyBytes v (frame.numBlocks v w.room)
      (UInt8.ofNat frame.receivedPacketTimes.length) ++ frame.tailBytes v)
      (⟨frame.packets.largest, frame.roundedDelay, frame.packets,
        decodedTimes last frame.packets.largest frame.receivedPacketTimes⟩, added) := by
  obtain ⟨h255, -, h64, -, hnumbers⟩ := hgood
  obtain ⟨hg, hdesc⟩ := newest_desc hrev
  have hinfo := info_eq_total hrev h255
  have hhi : g.hi < 2 ^ 64 := by
    have := h64 (g.hi - 1) ((mem_frame hrev).2 (.inl ⟨by omega, by omega⟩))
    omega
  have hgaps : frame.GapsFit (frame.numBlocks v w.room) := by
    rw [gapsFit_iff hrev]
    exact gapsEncodable_of_total (by rwa [total_eq hrev] at h255)
  obtain ⟨s, hs, hi⟩ := exists_decoded hrev hhi hgaps
  have hpackets : s.packets = frame.packets := (decoded_eq_iff hrev hi).2 (by omega)
  have hread := reads_ack last (UInt8.ofNat frame.receivedPacketTimes.length)
    (inRange hrev hhi hnumbers) (by omega)
    (numBlocks_le v frame w.room) (length_blocks hrev (numBlocks_le_info v frame w.room)) hrev hhi hs
    (by rw [toNat_timestampCount henc, hpackets]; exact reads_timestamps henc)
  rw [hpackets] at hread
  exact ⟨s.added, hread⟩

theorem readsBack_ack {frame : QuicAckFrame} (hcap : w.capacity ≤ kMaxPacketSize)
    (hgood : FrameSendable v h w (.ack frame))
    (happ : appendAckFrameAndTypeByte v frame w = some w') :
    ReadsBack v h last noLength w w' (.ack (frame.received last)) := by
  obtain ⟨ht0, ht, hstream, hack⟩ := ackTypeByte_spec frame
  have hl64 : frame.packets.largest < 2 ^ 64 := by
    unfold PacketNumberQueue.largest
    split
    · decide
    · next hne =>
      have := hgood.2.2.1 _ (PacketNumberQueue.max_mem (by simpa using hne))
      omega
  have hroom : w.room ≤ 1452 := (Nat.sub_le _ _).trans hcap
  have hsize := hgood.2.1
  obtain ⟨hnum, hleft⟩ := numBlocks_of_room (by omega) hsize
  have hlen := blocks_length frame (numBlocks_le_info v frame w.room)
  rcases (append_iff_left (by omega) hlen).1 happ with ⟨-, henc, hw⟩ | ⟨hlt, -⟩
  · obtain ⟨added, hread⟩ : ∃ added, Reads (processAckFrame v last (frame.typeByte v))
        (frame.bodyBytes v (frame.numBlocks v w.room)
          (UInt8.ofNat frame.receivedPacketTimes.length) ++ frame.tailBytes v)
        (⟨frame.packets.largest, frame.roundedDelay, frame.packets,
          decodedTimes last frame.packets.largest frame.receivedPacketTimes⟩, added) := by
      cases hrev : frame.packets.intervals.reverse with
      | cons g gs => exact reads_ack_whole hrev hgood hnum henc
      | nil =>
        have hinfo : frame.info.numAckBlocks = 0 := by rw [QuicAckFrame.info, getAckFrameInfo, hrev]
        rw [hnum, hinfo]
        exact ⟨[], reads_ack_empty (reverse_eq_nil_iff.1 hrev) henc⟩
    refine .of_write ht0 hw fun rest _ => ?_
    unfold processFrame
    rw [if_pos ht, hstream, hack]
    simp only [Bool.false_eq_true, if_false, if_true]
    rw [hread.bind_run, QuicAckFrame.received, ← decodedTimes_eq hl64 hgood.2.2.2.1]
    rfl
  · omega

/-! ### All frames -/

theorem appendFrame_readsBack (last : ℕ) (hcap : w.capacity ≤ kMaxPacketSize)
    (hgood : FrameSendable v h w frame)
    (hpad : frame.isPadding = false) (bytes : ℕ) (happ : appendFrame v h noLength frame w = some w') :
    ReadsBack v h last noLength w w' (frame.received last bytes) := by
  cases frame with
  | padding n => cases hpad
  | rstStream streamId code offset => exact readsBack_rstStream happ
  | connectionClose code details => exact readsBack_connectionClose happ
  | goAway code streamId reason => exact readsBack_goAway happ
  | windowUpdate streamId offset => exact readsBack_windowUpdate happ
  | blocked streamId => exact readsBack_blocked happ
  | stopWaiting leastUnacked => exact readsBack_stopWaiting hgood.1 hgood.2 happ
  | ping => exact readsBack_ping happ
  | stream streamId fin offset data => exact readsBack_stream hcap happ
  | ack frame => exact readsBack_ack hcap hgood happ
  | mtuDiscovery => exact readsBack_ping happ

theorem exists_frameBytes (hcap : w.capacity ≤ kMaxPacketSize) (hgood : FrameSendable v h w frame)
    (hpad : frame.isPadding = false) (happ : appendFrame v h noLength frame w = some w') :
    ∃ type body, type ≠ 0 ∧ w'.capacity = w.capacity ∧ w'.data = w.data ++ type :: body ∧
      ∀ last rest, (noLength = true → rest = []) → processFrame v h last type (body ++ rest) =
        .ok (frame.received last (w'.data.length - w.data.length), rest) := by
  obtain ⟨type, body, ht, hc, hd, -⟩ := appendFrame_readsBack 0 hcap hgood hpad 0 happ
  refine ⟨type, body, ht, hc, hd, fun last rest hrest => ?_⟩
  obtain ⟨type', body', -, -, hd', hread⟩ :=
    appendFrame_readsBack last hcap hgood hpad (w'.data.length - w.data.length) happ
  obtain ⟨rfl, rfl⟩ := cons.inj (append_cancel_left (hd.symm.trans hd'))
  exact hread rest hrest

theorem appendFrame_padding {n : ℤ} (happ : appendFrame v h noLength (.padding n) w = some w') :
    ∃ k, w'.capacity = w.capacity ∧ w'.data = w.data ++ replicate (k + 1) 0 := by
  obtain ⟨w₁, h1, happ⟩ := Option.bind_eq_some_iff.1 happ
  obtain ⟨hc, hd⟩ := Writer.write_eq_some.1 h1
  obtain ⟨k, hk⟩ : ∃ k, w₁.write (replicate k 0) = some w' := by
    unfold appendPaddingFrame at happ
    split at happ
    · cases happ
    · split at happ
      · exact ⟨_, happ⟩
      · exact ⟨_, happ⟩
  obtain ⟨hc', hd'⟩ := Writer.write_eq_some.1 hk
  refine ⟨k, hc'.trans hc, ?_⟩
  rw [hd', hd, append_assoc, replicate_succ]
  rfl

def startsWithPadding : List QuicFrame → Bool
  | [] => false
  | frame :: _ => frame.isPadding

@[simp] theorem isPadding_received {bytes : ℕ} :
    (frame.received last bytes).isPadding = frame.isPadding := by
  cases frame <;> rfl

theorem deliver_of_not_padding (frames : List QuicFrame) (hpad : frame.isPadding = false) :
    deliver frame frames = frame :: frames := by
  cases frame <;> first | rfl | cases hpad

theorem deliver_padding {n : ℤ} (hpad : startsWithPadding frames = false) :
    deliver (.padding n) frames = .padding n :: frames := by
  cases frames with
  | nil => rfl
  | cons frame frames => cases frame <;> first | rfl | cases hpad

theorem startsWithPadding_received (hpad : startsWithPadding frames = false) :
    startsWithPadding (receivedFrames v h frames w last) = false := by
  cases frames with
  | nil => rfl
  | cons frame frames =>
    have hframe : frame.isPadding = false := hpad
    rw [receivedFrames]
    split
    · rfl
    · rw [deliver_of_not_padding _ (by rw [isPadding_received, hframe])]
      rw [startsWithPadding, isPadding_received, hframe]

theorem processFrames_zeros {fuel : ℕ} (hdata : data.head? ≠ some 0) :
    processFrames v h (fuel + 1) last (replicate (k + 1) 0 ++ data) =
      (.padding (k + 1 : ℕ) :: (processFrames v h fuel last data).1,
        (processFrames v h fuel last data).2) := by
  have htake : (replicate k (0 : UInt8) ++ data).takeWhile (· == 0) = replicate k 0 := by
    cases data with
    | nil => simp
    | cons b data => simp_all
  have hdrop : (replicate k (0 : UInt8) ++ data).dropWhile (· == 0) = data := by
    rw [dropWhile_append_of_pos (by simp)]
    cases data with
    | nil => rfl
    | cons b data => simp_all
  have hone : processFrame v h last 0 (replicate k 0 ++ data) = .ok (.padding (k + 1 : ℕ), data) := by
    change processPaddingFrame _ = _
    rw [processPaddingFrame, htake, hdrop, length_replicate]
    push_cast
    rw [add_comm]
  rw [replicate_succ, cons_append, processFrames, hone]
  rfl

theorem exists_zeros (data : List UInt8) :
    ∃ k tail, data = replicate k 0 ++ tail ∧ tail.head? ≠ some 0 := by
  induction data with
  | nil => exact ⟨0, [], rfl, by simp⟩
  | cons b data ih =>
    by_cases hb : b = 0
    · obtain ⟨k, tail, rfl, htail⟩ := ih
      exact ⟨k + 1, tail, by rw [hb]; rfl, htail⟩
    · exact ⟨0, b :: data, rfl, by simpa using hb⟩

/-- The bytes of a list of frames, read back by any run long enough. -/
def DeliversAll (v : TransportVersion) (h : FrameHeader) (frames : List QuicFrame) (w : Writer)
    (payload : List UInt8) :
    Prop :=
  ∀ fuel last, payload.length ≤ fuel →
    processFrames v h fuel last payload = (receivedFrames v h frames w last, none)

theorem DeliversAll.not_padding
    (hone : appendFrame v h frames.isEmpty frame w = some w₁) (hpad : frame.isPadding = false)
    (hread : ∀ last, processFrame v h last type (body ++ payload) =
      .ok (frame.received last (w₁.data.length - w.data.length), payload))
    (hall : DeliversAll v h frames w₁ payload) :
    DeliversAll v h (frame :: frames) w (type :: (body ++ payload)) := by
  intro fuel last hfuel
  rw [length_cons, length_append] at hfuel
  obtain ⟨fuel, rfl⟩ : ∃ f, fuel = f + 1 := ⟨fuel - 1, by omega⟩
  rw [processFrames, hread last, receivedFrames, hone]
  dsimp only
  rw [hall fuel _ (by omega), deliver_of_not_padding _ (by rw [isPadding_received, hpad])]

theorem DeliversAll.padding {n : ℤ}
    (hone : appendFrame v h frames.isEmpty (.padding n) w = some w₁)
    (hdata : w₁.data = w.data ++ replicate (k + 1) 0)
    (hstart : payload.head? = some 0 ↔ startsWithPadding frames = true)
    (hall : DeliversAll v h frames w₁ payload) :
    DeliversAll v h (.padding n :: frames) w (replicate (k + 1) 0 ++ payload) := by
  intro fuel last hfuel
  rw [length_append, length_replicate] at hfuel
  obtain ⟨fuel, rfl⟩ : ∃ f, fuel = f + 1 := ⟨fuel - 1, by omega⟩
  have hbytes : w₁.data.length - w.data.length = k + 1 := by
    rw [hdata, length_append, length_replicate]
    omega
  rw [receivedFrames, hone]
  dsimp only
  rw [hbytes]
  by_cases hzero : payload.head? = some 0
  · -- the zeros that follow belong to the same padding frame
    obtain ⟨rest, hrest⟩ : ∃ rest, payload = 0 :: rest := by
      cases payload with
      | nil => cases hzero
      | cons b rest => exact ⟨rest, by rw [Option.some.inj hzero]⟩
    obtain ⟨m, tail, hm, htail⟩ := exists_zeros rest
    have hpayload : payload = replicate (m + 1) 0 ++ tail := by rw [hrest, hm]; rfl
    have hcount : replicate (k + 1) 0 ++ payload = replicate (k + 1 + m + 1) 0 ++ tail := by
      rw [hpayload, ← append_assoc, replicate_append_replicate]
      rfl
    have hthere := hall (fuel + 1) last (by omega)
    rw [hpayload, processFrames_zeros htail] at hthere
    obtain ⟨hthere, hnone⟩ := Prod.mk.inj hthere
    rw [hcount, processFrames_zeros htail, hnone]
    change _ = (deliver (.padding _) (receivedFrames v h frames w₁ last), _)
    rw [← hthere, deliver]
    push_cast
    rw [add_assoc]
  · have hpad : startsWithPadding frames = false := by
      rw [← Bool.not_eq_true, ← hstart]
      exact hzero
    rw [processFrames_zeros hzero, hall fuel last (by omega)]
    exact Prod.ext (deliver_padding (startsWithPadding_received hpad)).symm rfl

theorem deliversAll (hcap : w.capacity ≤ kMaxPacketSize)
    (hgood : AllSendable v h frames w) (happ : appendFrames v h frames w = some w') :
    ∃ payload, w'.data = w.data ++ payload ∧ (payload.head? = some 0 ↔ startsWithPadding frames = true) ∧
      (payload = [] ↔ frames = []) ∧ DeliversAll v h frames w payload := by
  induction frames generalizing w with
  | nil =>
    obtain rfl := Option.some.inj happ
    refine ⟨[], (append_nil _).symm, by simp [startsWithPadding], by simp, fun fuel last _ => ?_⟩
    cases fuel <;> rfl
  | cons frame frames ih =>
    obtain ⟨w₁, h1, hnext⟩ := Option.bind_eq_some_iff.1 happ
    obtain ⟨hframe, hrest⟩ := hgood
    cases hpad : frame.isPadding with
    | true =>
      obtain ⟨n, rfl⟩ : ∃ n, frame = .padding n := by
        cases frame <;> first | exact ⟨_, rfl⟩ | cases hpad
      obtain ⟨k, hc, hd⟩ := appendFrame_padding h1
      obtain ⟨payload, hd', hstart, -, hall⟩ := ih (hc ▸ hcap) (hrest w₁ h1) hnext
      refine ⟨replicate (k + 1) 0 ++ payload, ?_, ?_, ?_, hall.padding h1 hd hstart⟩
      · rw [hd', hd, append_assoc]
      · simp [replicate_succ, startsWithPadding, hpad]
      · simp [replicate_succ]
    | false =>
      obtain ⟨type, body, ht, hc, hd, hread⟩ := exists_frameBytes hcap hframe hpad h1
      obtain ⟨payload, hd', -, hnil, hall⟩ := ih (hc ▸ hcap) (hrest w₁ h1) hnext
      have hlast : frames.isEmpty = true → payload = [] := fun he => hnil.2 (isEmpty_iff.1 he)
      refine ⟨type :: (body ++ payload), ?_, ?_, ?_,
        hall.not_padding h1 hpad fun last => hread last payload hlast⟩
      · rw [hd', hd, append_assoc, cons_append]
      · simp [startsWithPadding, hpad, ht]
      · simp

theorem frames_round_trip (last : ℕ) {frames : List QuicFrame} (hne : frames ≠ [])
    (hcap : w.capacity ≤ kMaxPacketSize)
    (hgood : AllSendable v h frames w) (happ : appendFrames v h frames w = some w') :
    ∃ payload, w'.data = w.data ++ payload ∧
      processFrameData v h last payload = (receivedFrames v h frames w last, none) := by
  obtain ⟨payload, hdata, -, hnil, hall⟩ := deliversAll hcap hgood happ
  refine ⟨payload, hdata, ?_⟩
  rw [processFrameData, if_neg (mt hnil.1 hne)]
  exact hall payload.length last le_rfl

end RoundTrip

/-- The buffer of a packet, with nothing in it yet. -/
def packetBuffer : Writer := ⟨1452, [], by decide⟩

/-- Padding after padding, a probe, a long reason and a stream frame that ends the packet. -/
def someFrames : List QuicFrame :=
  [.ack twoIntervals, .stopWaiting 3, .padding 2, .padding 1, .goAway 16 5 (List.replicate 300 65),
    .mtuDiscovery, .stream 5 true 70000 [0, 0, 7]]

theorem frames_round_trip_someFrames :
    ∃ w' payload, appendFrames .quic41 ⟨70001, 4⟩ someFrames packetBuffer = some w' ∧ w'.data = payload ∧
      processFrameData .quic41 ⟨70001, 4⟩ 0 payload =
        ([.ack twoIntervals, .stopWaiting 3, .padding 3, .goAway 16 5 (List.replicate 256 65), .ping,
          .stream 5 true 70000 [0, 0, 7]], none) := by
  have hack : ∀ x ∈ twoIntervals.packets, x + 1 < 2 ^ 64 := PacketNumberQueue.succ_lt (by decide)
  have hgood : AllSendable .quic41 ⟨70001, 4⟩ someFrames packetBuffer :=
    ⟨⟨by decide, by decide, hack, fun p hp => absurd hp not_mem_nil, fun h => by cases h⟩, fun _ _ =>
      ⟨⟨by decide, by decide⟩, fun _ _ => ⟨trivial, fun _ _ => ⟨trivial, fun _ _ => ⟨trivial, fun _ _ =>
        ⟨trivial, fun _ _ => ⟨trivial, fun _ _ => trivial⟩⟩⟩⟩⟩⟩⟩
  obtain ⟨w', happ⟩ := Option.isSome_iff_exists.1
    (by decide +kernel : (appendFrames .quic41 ⟨70001, 4⟩ someFrames packetBuffer).isSome = true)
  obtain ⟨payload, hdata, hproc⟩ := frames_round_trip 0 (by decide) le_rfl hgood happ
  refine ⟨w', payload, happ, hdata, hproc.trans ?_⟩
  decide +kernel

/-- Two packets received 5001 µs apart. -/
def timedAck : QuicAckFrame where
  largestObserved := 2
  ackDelayTime := some 0
  packets := ⟨[⟨1, 3⟩], by simp [Sorted]⟩
  receivedPacketTimes := [(2, 0), (1, 5001)]

/-- The second receive time arrives as 5000 µs, and nothing else of the frame changes. -/
theorem frames_round_trip_receive_times :
    ∃ w', appendFrames .quic41 ⟨9, 1⟩ [.ack timedAck] packetBuffer = some w' ∧
      processFrameData .quic41 ⟨9, 1⟩ 0 w'.data =
        ([.ack { timedAck with receivedPacketTimes := [(2, 0), (1, 5000)] }], none) ∧
      processFrameData .quic41 ⟨9, 1⟩ 0 w'.data ≠ ([.ack timedAck], none) := by
  obtain ⟨w', happ, hproc⟩ := Option.map_eq_some_iff.1
    (by decide +kernel : (appendFrames .quic41 ⟨9, 1⟩ [.ack timedAck] packetBuffer).map
      (fun w' => processFrameData .quic41 ⟨9, 1⟩ 0 w'.data) =
        some ([.ack { timedAck with receivedPacketTimes := [(2, 0), (1, 5000)] }], none))
  refine ⟨w', happ, hproc, ?_⟩
  rw [hproc]
  decide +kernel

end Puic
