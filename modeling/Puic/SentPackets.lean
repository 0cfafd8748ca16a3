/-
  The sending half of a connection (`QuicSentPacketManager`, and from `QuicConnection`
  the packets that wait for the socket).

  A packet gets its number when it is serialized, and enters the unacked map when the
  socket has taken it (`WritePacket`); in between it may stand in `queued_packets_`.
  A retransmission is serialized from `pending_retransmissions_` only when nothing is
  queued, so a packet is never retransmitted twice.  Loss detection may declare any
  packets in flight lost; the clock and the congestion controller are left out.

  `reported` are the calls of `OnStreamFrameAcked`.  `sent`, `acked`, `cancelled` and
  `neutered` are not part of the code; they say what became of every frame.
-/
import Puic.UnackedPacketMap
import Puic.PacketNumberQueue
import Puic.WriteScheduler
import Puic.Lib.Run

namespace Puic

open Machine

/-- `QuicSentPacketManager`. -/
structure SentPacketManager where
  unackedPackets : UnackedPacketMap
  pendingRetransmissions : List (ℕ × TransmissionType)
  handshakeConfirmed : Bool
  pendingTimerTransmissionCount : ℕ
  consecutiveTlpCount : ℕ
  consecutiveRtoCount : ℕ
  maxTailLossProbes : ℕ
  largestPacketPeerKnowsIsAcked : ℕ
  reported : List SentFrame
  sent : List SentFrame
  acked : List SentFrame
  cancelled : List SentFrame
  neutered : List SentFrame

/-- What the sender reads of an ACK frame. -/
structure AckFrame where
  packets : PacketNumberQueue

def AckFrame.largestAcked (ack : AckFrame) : ℕ := if ack.packets.isEmpty then 0 else ack.packets.max

inductive RetransmissionTimeoutMode where
  | rtoMode
  | tlpMode
  | handshakeMode
  | lossMode
deriving Repr, DecidableEq

namespace SentPacketManager

open UnackedPacketMap

def kMaxRetransmissionsOnTimeout : ℕ := 2

def new (maxTailLossProbes : ℕ) : SentPacketManager :=
  ⟨.new, [], false, 0, 0, 0, maxTailLossProbes, 0, [], [], [], [], []⟩

variable (s : SentPacketManager) (p : ℕ) (type : TransmissionType)

def info? : Option TransmissionInfo := s.unackedPackets.info? p

def frames : List SentFrame := (s.info? p).elim [] (·.retransmittableFrames)

/-- The packet numbers a loop over the unacked map goes through. -/
def numbers : List ℕ := s.unackedPackets.unackedPackets.numbers

def setUnacked (m : UnackedPacketMap) : SentPacketManager := { s with unackedPackets := m }

def removeFromInFlight : SentPacketManager :=
  s.setUnacked (s.unackedPackets.removeFromInFlight p)

def erasePending : SentPacketManager :=
  { s with pendingRetransmissions := s.pendingRetransmissions.filter (·.1 ≠ p) }

def markForRetransmission : SentPacketManager :=
  let s := if type ≠ .tlpRetransmission ∧ type ≠ .probingRetransmission ∧ type ≠ .rtoRetransmission then
      s.removeFromInFlight p else s
  if s.pendingRetransmissions.any (·.1 = p) then s
  else { s with pendingRetransmissions := s.pendingRetransmissions ++ [(p, type)] }

/-- `NotifyStreamFramesAcked`. -/
def notifyStreamFramesAcked (frames : List SentFrame) : SentPacketManager :=
  { s with
    reported := frames.reverse.filter (·.stream ≠ none) ++ s.reported
    acked := frames.reverse ++ s.acked }

/-- `MarkPacketHandled`. -/
def markPacketHandled : SentPacketManager :=
  let newest := s.unackedPackets.newestRetransmission p
  let s := (s.erasePending newest).notifyStreamFramesAcked (s.frames newest)
  let s := if newest ≠ p ∧ (s.info? newest).any (·.hasCryptoHandshake) then
    s.removeFromInFlight newest else s
  let s := s.removeFromInFlight p
  let s := s.setUnacked (s.unackedPackets.removeRetransmittability p)
  s.setUnacked (s.unackedPackets.modify p ({ · with isUnackable := true }))

/-- One packet of `HandleAckForSentPackets`. -/
def handleAckFor (ack : AckFrame) (s : SentPacketManager) (p : ℕ) : SentPacketManager :=
  match s.info? p with
  | some i =>
    if i.isUnackable || !ack.packets.contains p then s
    else markPacketHandled { s with
      largestPacketPeerKnowsIsAcked := max s.largestPacketPeerKnowsIsAcked i.largestAcked } p
  | none => s

def handleAckForSentPackets (ack : AckFrame) : SentPacketManager :=
  (s.numbers.takeWhile (· ≤ ack.largestAcked)).foldl (handleAckFor ack) s

/-- The loop of `InvokeLossDetection` over `packets_lost_`. -/
def loseFor : SentPacketManager :=
  if s.frames p ≠ [] then s.markForRetransmission p .lossRetransmission else s.removeFromInFlight p

def invokeLossDetection (lost : List ℕ) : SentPacketManager := lost.foldl loseFor s

def removeObsoletePackets : SentPacketManager :=
  s.setUnacked s.unackedPackets.removeObsoletePackets

/-- The beginning of `OnIncomingAck`, up to the loss detection. -/
def ackPackets (ack : AckFrame) : SentPacketManager :=
  (s.setUnacked { s.unackedPackets with largestObserved := ack.largestAcked }).handleAckForSentPackets ack

def onIncomingAck (ack : AckFrame) (lost : List ℕ) : SentPacketManager :=
  let rttUpdated := s.unackedPackets.isUnacked ack.largestAcked
  let s := ((s.ackPackets ack).invokeLossDetection lost).removeObsoletePackets
  if rttUpdated then { s with consecutiveRtoCount := 0, consecutiveTlpCount := 0 } else s

/-- One packet of `RetransmitUnackedPackets`. -/
def retransmitUnackedFor (s : SentPacketManager) (p : ℕ) : SentPacketManager :=
  match s.info? p with
  | some i =>
    if i.retransmittableFrames ≠ [] ∧
      (type = .allUnackedRetransmission ∨ i.encryptionLevel = .initial) then
      s.markForRetransmission p type
    else s
  | none => s

def retransmitUnackedPackets : SentPacketManager :=
  s.numbers.foldl (retransmitUnackedFor type) s

/-- One packet of `NeuterUnencryptedPackets`. -/
def neuterFor : SentPacketManager :=
  match s.info? p with
  | some i =>
    if i.retransmittableFrames ≠ [] ∧ i.encryptionLevel = .none then
      let s := { s.erasePending p with neutered := i.retransmittableFrames ++ s.neutered }
      let s := s.removeFromInFlight p
      s.setUnacked (s.unackedPackets.removeRetransmittability p)
    else s
  | none => s

def neuterUnencryptedPackets : SentPacketManager := s.numbers.foldl neuterFor s

/-- `NextPendingRetransmission`: a handshake packet goes first. -/
def nextPendingRetransmission : Option (ℕ × TransmissionType × TransmissionInfo) :=
  let first := s.pendingRetransmissions.head?
  let crypto := s.pendingRetransmissions.find? fun e => (s.info? e.1).any (·.hasCryptoHandshake)
  let chosen := if 0 < s.unackedPackets.pendingCryptoPacketCount then crypto.or first else first
  chosen.bind fun e => (s.info? e.1).map fun i => (e.1, e.2, i)

/-- `OnPacketSent`, with `IsRetransmittable` of the connection. -/
def onPacketSent (packet : SerializedPacket) : SentPacketManager :=
  let original := packet.originalPacketNumber
  let s := if original ≠ 0 then s.erasePending original else s
  let inFlight := packet.transmissionType ≠ .notRetransmission ∨ packet.retransmittableFrames ≠ []
  { s with
    pendingTimerTransmissionCount := s.pendingTimerTransmissionCount - 1
    unackedPackets := s.unackedPackets.addSentPacket packet original packet.transmissionType inFlight
    sent := if original = 0 then packet.retransmittableFrames ++ s.sent else s.sent }

/-- One packet of `RetransmitCryptoPackets`. -/
def retransmitCryptoFor : SentPacketManager :=
  match s.info? p with
  | some i =>
    if i.inFlight ∧ i.retransmittableFrames ≠ [] ∧ i.hasCryptoHandshake then
      { s.markForRetransmission p .handshakeRetransmission with
        pendingTimerTransmissionCount := s.pendingTimerTransmissionCount + 1 }
    else s
  | none => s

/-- `MaybeRetransmitOldestPacket`. -/
def maybeRetransmitOldestPacket : SentPacketManager :=
  match s.numbers.find? fun p => (s.info? p).any fun i =>
    i.inFlight && !i.retransmittableFrames.isEmpty with
  | some p => s.markForRetransmission p type
  | none => s

def maybeRetransmitTailLossProbe : SentPacketManager :=
  if s.pendingTimerTransmissionCount = 0 then s else s.maybeRetransmitOldestPacket .tlpRetransmission

/-- One packet of `RetransmitRtoPackets`. -/
def retransmitRtoFor : SentPacketManager :=
  match s.info? p with
  | some i =>
    let s := if i.retransmittableFrames ≠ [] ∧
      s.pendingTimerTransmissionCount < kMaxRetransmissionsOnTimeout then
        { s.markForRetransmission p .rtoRetransmission with
          pendingTimerTransmissionCount := s.pendingTimerTransmissionCount + 1 } else s
    if i.retransmittableFrames = [] ∧ i.inFlight ∧ i.retransmission = 0 then s.removeFromInFlight p else s
  | none => s

def retransmitRtoPackets : SentPacketManager :=
  let s := s.numbers.foldl retransmitRtoFor s
  if 0 < s.pendingTimerTransmissionCount then
    { s with consecutiveRtoCount := s.consecutiveRtoCount + 1 } else s

/-- `GetRetransmissionMode`; whether the loss algorithm has set a timeout is left open. -/
def getRetransmissionMode (lossTimeout : Bool) : RetransmissionTimeoutMode :=
  if !s.handshakeConfirmed ∧ 0 < s.unackedPackets.pendingCryptoPacketCount then .handshakeMode
  else if lossTimeout then .lossMode
  else if s.consecutiveTlpCount < s.maxTailLossProbes ∧
      s.unackedPackets.unackedPackets.items.any
        (fun i => i.inFlight && !i.retransmittableFrames.isEmpty) then .tlpMode
  else .rtoMode

def onRetransmissionTimeout (lossTimeout : Bool) (lost : List ℕ) : SentPacketManager :=
  match s.getRetransmissionMode lossTimeout with
  | .handshakeMode => s.numbers.foldl retransmitCryptoFor s
  | .lossMode => s.invokeLossDetection lost
  | .tlpMode => { s with
      consecutiveTlpCount := s.consecutiveTlpCount + 1
      pendingTimerTransmissionCount := 1 }
  | .rtoMode => s.retransmitRtoPackets

/-- The frames of a stream that are still in the map. -/
def framesOf (id : ℕ) : List SentFrame :=
  s.unackedPackets.unackedPackets.items.flatMap fun i =>
    i.retransmittableFrames.filter (·.stream = some id)

def cancelRetransmissionsForStream (id : ℕ) : SentPacketManager :=
  let s := { s with
    cancelled := s.framesOf id ++ s.cancelled
    unackedPackets := s.unackedPackets.cancelRetransmissionsForStream id }
  { s with pendingRetransmissions := s.pendingRetransmissions.filter fun e => s.frames e.1 ≠ [] }

end SentPacketManager

/-- The outcome of a write to the socket. -/
inductive WriteOutcome where
  | sent
  /-- The socket is blocked and has not buffered the packet. -/
  | blocked
  | messageTooBig
  | failed
deriving Repr, DecidableEq

/-- A packet with new frames, as the packet creator is about to serialize it; every frame is given by its
    stream. -/
structure NewPacket where
  frames : List (Option ℕ)
  encryptionLevel : EncryptionLevel
  encryptedLength : ℕ
  largestAcked : ℕ
deriving Repr, DecidableEq

/-- The sending half of `QuicConnection`.  `nextSerial` numbers the frames. -/
structure PacketSender where
  manager : SentPacketManager
  queuedPackets : List SerializedPacket
  packetNumber : ℕ
  encryptionLevel : EncryptionLevel
  longTermMtu : ℕ
  connected : Bool
  nextSerial : ℕ

namespace PacketSender

def new (maxTailLossProbes longTermMtu : ℕ) : PacketSender :=
  ⟨.new maxTailLossProbes, [], 0, .none, longTermMtu, true, 0⟩

variable (s : PacketSender) (packet : SerializedPacket) (outcome : WriteOutcome)

def setManager (manager : SentPacketManager) : PacketSender := { s with manager }

/-- `ShouldDiscardPacket`. -/
def shouldDiscardPacket : Bool :=
  !s.connected || (s.encryptionLevel = .forwardSecure && packet.encryptionLevel = .none)

/-- `WritePacket` says whether the packet is done with. -/
def writePacket : PacketSender × Bool :=
  if packet.packetNumber < s.manager.unackedPackets.largestSentPacket then
    ({ s with connected := false }, true)
  else if s.shouldDiscardPacket packet then (s, true)
  else match outcome with
    | .blocked => (s, false)
    | .messageTooBig =>
      if packet.retransmittableFrames = [] ∧ s.longTermMtu < packet.encryptedLength then (s, true)
      else ({ s with connected := false }, false)
    | .failed => ({ s with connected := false }, false)
    | .sent => (s.setManager (s.manager.onPacketSent packet), true)

/-- `SendOrQueuePacket`. -/
def sendOrQueuePacket : PacketSender :=
  if s.queuedPackets ≠ [] then { s with queuedPackets := s.queuedPackets ++ [packet] }
  else
    let (s, done) := s.writePacket packet outcome
    if done then s else { s with queuedPackets := [packet] }

/-- The frames of a new packet, numbered from `serial` on. -/
def numberFrames (serial : ℕ) (streams : List (Option ℕ)) : List SentFrame :=
  streams.zipIdx.map fun e => ⟨serial + e.2, e.1⟩

/-- `SerializePacket`: a packet with new frames gets the next number. -/
def serializePacket (packet : NewPacket) : SerializedPacket :=
  let frames := numberFrames s.nextSerial packet.frames
  ⟨s.packetNumber + 1, packet.encryptedLength, packet.encryptionLevel,
    frames.any (·.stream = some kCryptoStreamId),
    frames, 0, .notRetransmission, packet.largestAcked⟩

/-- `ReserializeAllFrames`: a handshake packet keeps its encryption level. -/
def reserializeAllFrames (p : ℕ) (type : TransmissionType) (i : TransmissionInfo) (length : ℕ) :
    SerializedPacket :=
  let level := if i.hasCryptoHandshake ∨
    s.encryptionLevel ≠ .forwardSecure then i.encryptionLevel else .forwardSecure
  ⟨s.packetNumber + 1, length, level, false, [], p, type, 0⟩

/-- The number of the packet and those of its `frames` frames are taken. -/
def taken (frames : ℕ) : PacketSender :=
  { s with packetNumber := s.packetNumber + 1, nextSerial := s.nextSerial + frames }

def send (packet : NewPacket) (outcome : WriteOutcome) : PacketSender :=
  (s.taken packet.frames.length).sendOrQueuePacket (s.serializePacket packet) outcome

def resend (p : ℕ) (type : TransmissionType) (i : TransmissionInfo) (length : ℕ)
    (outcome : WriteOutcome) : PacketSender :=
  (s.taken 0).sendOrQueuePacket (s.reserializeAllFrames p type i length) outcome

/-- One round of `WritePendingRetransmissions`, once `CanWrite` has allowed it: what the packet generator
    holds is flushed first. -/
def writePendingRetransmission (flushed : List (NewPacket × WriteOutcome)) (length : ℕ)
    (outcome : WriteOutcome) : Option PacketSender :=
  s.manager.nextPendingRetransmission.map fun (p, type, i) =>
    (flushed.foldl (fun s e => s.send e.1 e.2) s).resend p type i length outcome

/-- One round of `WriteQueuedPackets`. -/
def writeQueued : Option PacketSender :=
  match s.queuedPackets with
  | [] => none
  | packet :: rest =>
    let (s, done) := s.writePacket packet outcome
    some (if done then { s with queuedPackets := rest } else s)

/-- A queued packet without the frames of a stream; a packet that had nothing else is deleted. -/
def cancelPacket (id : ℕ) (packet : SerializedPacket) : Option SerializedPacket :=
  if packet.retransmittableFrames = [] then some packet
  else
    let frames := packet.retransmittableFrames.filter (·.stream ≠ some id)
    if frames = [] then none else some { packet with retransmittableFrames := frames }

def cancelQueued (id : ℕ) (queue : List SerializedPacket) : List SerializedPacket :=
  queue.filterMap (cancelPacket id)

end PacketSender

inductive SenderEvent where
  | send (packet : NewPacket) (outcome : WriteOutcome)
  | writeQueued (outcome : WriteOutcome)
  | writePendingRetransmission (flushed : List (NewPacket × WriteOutcome)) (length : ℕ)
    (outcome : WriteOutcome)
  | ack (frame : AckFrame) (lost : List ℕ)
  | retransmissionTimeout (lossTimeout : Bool) (lost : List ℕ)
  | tailLossProbe
  /-- `SendProbingRetransmissions`. -/
  | probe
  | retransmitUnackedPackets (type : TransmissionType)
  | neuterUnencryptedPackets
  | setEncryptionLevel (level : EncryptionLevel)
  /-- The encryption becomes forward secure, and with it HANDSHAKE_CONFIRMED is signalled. -/
  | forwardSecure
  | setHandshakeConfirmed
  /-- `SendRstStream` with an error. -/
  | cancelStream (id : ℕ)
  | setMaxPacketLength (length : ℕ)
  | migrated

namespace PacketSender

/-- `ValidateAckFrame`. -/
def validateAckFrame (s : PacketSender) (ack : AckFrame) : Option String :=
  if s.packetNumber < ack.largestAcked then some "Largest observed too high."
  else if ack.largestAcked < s.manager.unackedPackets.largestObserved then some "Largest observed too low."
  else if !ack.packets.isEmpty ∧ ack.packets.max ≠ ack.largestAcked then
    some "Last received packet not equal to largest observed."
  else none

/-- `DetectLosses` picks packets that are in flight, each once. -/
def Detects (s : SentPacketManager) (lost : List ℕ) : Prop :=
  lost.Nodup ∧ ∀ p ∈ lost, (s.info? p).any (·.inFlight) = true

instance (s : SentPacketManager) (lost : List ℕ) :
    Decidable (Detects s lost) := by unfold Detects; infer_instance

def step (s : PacketSender) (e : SenderEvent) : Option PacketSender :=
  if s.connected then
    match e with
    | .send packet outcome => some (s.send packet outcome)
    | .writeQueued outcome => s.writeQueued outcome
    | .writePendingRetransmission flushed length outcome =>
      if s.queuedPackets = [] ∧ length ≤ s.longTermMtu then
        s.writePendingRetransmission flushed length outcome
      else none
    | .ack frame lost =>
      match s.validateAckFrame frame with
      | some _ => some { s with connected := false }
      | none =>
        if Detects (s.manager.ackPackets frame) lost then
          some (s.setManager (s.manager.onIncomingAck frame lost))
        else none
    | .retransmissionTimeout lossTimeout lost =>
      if Detects s.manager lost then
        some (s.setManager (s.manager.onRetransmissionTimeout lossTimeout lost)) else none
    | .tailLossProbe => some (s.setManager s.manager.maybeRetransmitTailLossProbe)
    | .probe => some (s.setManager (s.manager.maybeRetransmitOldestPacket .probingRetransmission))
    | .retransmitUnackedPackets type =>
      if type.unlinked then some (s.setManager (s.manager.retransmitUnackedPackets type)) else none
    | .neuterUnencryptedPackets => some (s.setManager s.manager.neuterUnencryptedPackets)
    | .setEncryptionLevel level =>
      if s.encryptionLevel ≠ .forwardSecure ∧
        level ≠ .forwardSecure then some { s with encryptionLevel := level }
      else none
    | .forwardSecure =>
      some { s.setManager s.manager.neuterUnencryptedPackets with encryptionLevel := .forwardSecure }
    | .setHandshakeConfirmed => some (s.setManager { s.manager with handshakeConfirmed := true })
    | .cancelStream id =>
      some { s.setManager (s.manager.cancelRetransmissionsForStream id) with
        queuedPackets := cancelQueued id s.queuedPackets }
    | .setMaxPacketLength length => some { s with longTermMtu := length }
    | .migrated => some
        (s.setManager { s.manager with consecutiveRtoCount := 0, consecutiveTlpCount := 0 })
  else none

end PacketSender

end Puic
