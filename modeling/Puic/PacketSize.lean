/-
  The size of a packet, predicted and written (quic_packet_creator.cc, quic_framer.cc).

  `AddFrame` counts `packet_size_` up by the length that it predicts for each frame, and
  `SerializePacket` gives `BuildDataPacket` a buffer of that size.  Here frames have their contents
  and the buffer its bytes.  `serializePacket_exact_iff`: the packet is built, with exactly
  `packet_size_` bytes unless it is a single ACK that was cut, exactly if every frame of the
  packet can be written as it is; STOP_WAITING frames, ACKs with timestamps and paddings are the
  ones that sometimes cannot.
-/
import Puic.Lib.Run
import Puic.PacketCreator
import Puic.PublicHeader

namespace Puic

open Wire QuicFrame Writer Option

/-! ## Predicted lengths -/

namespace QuicFrame

/-- `ComputeFrameLength`; paddings are not asked for. -/
def computeFrameLength (v : TransportVersion) (packetNumberLength : ℕ) (last : Bool) : QuicFrame → ℕ
  | .stream streamId _ offset data =>
    getMinStreamFrameSize v streamId.toNat offset.toNat last + data.length
  | .ack frame => frame.size v
  | .stopWaiting _ => 1 + packetNumberLength
  | .mtuDiscovery => 1
  | .ping => 1
  | .rstStream _ _ _ => 1 + 4 + 8 + 4
  | .connectionClose _ errorDetails => 1 + 4 + 2 + (truncateErrorString errorDetails).length
  | .goAway _ _ reasonPhrase => 1 + 4 + 2 + 4 + (truncateErrorString reasonPhrase).length
  | .windowUpdate _ _ => 1 + 4 + 8
  | .blocked _ => 1 + 4
  | .padding _ => 0

/-- `GetSerializedFrameLength`: 0 if the frame does not fit. -/
def getSerializedFrameLength (v : TransportVersion) (packetNumberLength freeBytes : ℕ) (firstFrame : Bool)
    (frame : QuicFrame) : ℕ :=
  match frame with
  | .padding n => if n < 0 ∨ (freeBytes : ℤ) < n then freeBytes else n.toNat
  | _ =>
    let length := frame.computeFrameLength v packetNumberLength true
    if length ≤ freeBytes then length
    else if !firstFrame then 0
    else match frame with
      | .ack _ => if getMinAckFrameSize 6 ≤ freeBytes then freeBytes else 0
      | _ => 0

def isStream : QuicFrame → Bool
  | .stream _ _ _ _ => true
  | _ => false

def needsEncryption : QuicFrame → Bool
  | .stream streamId _ _ _ => streamId.toNat ≠ kCryptoStreamId
  | _ => false

end QuicFrame

/-! ## Headers -/

def ConnectionIdLength.bytes : ConnectionIdLength → ℕ
  | .packet0Byte => 0
  | .packet8Byte => 8

/-- The parts of a header that do not change from one packet to the next; the nonce is there if it
    is included. -/
structure HeaderLayout where
  perspective : Perspective
  connectionId : UInt64
  connectionIdLength : ConnectionIdLength
  sendVersionInPacket : Bool
  versionLabel : UInt32
  nonce : Option { nonce : List UInt8 // nonce.length = nonceSize }

namespace HeaderLayout

variable (l : HeaderLayout)

def getPacketHeaderSize (packetNumberLength : ℕ) : ℕ :=
  1 + l.connectionIdLength.bytes + (if l.sendVersionInPacket then 4 else 0) + packetNumberLength +
    if l.nonce.isSome then 32 else 0

def publicFlags (packetNumberLength : ℕ) : UInt8 :=
  (if l.sendVersionInPacket then flagVersion else 0) |||
    UInt8.ofNat (getPacketNumberFlags packetNumberLength <<< 4) |||
    (if l.nonce.isSome then flagNonce else 0) |||
    match l.connectionIdLength with
    | .packet0Byte => 0
    | .packet8Byte => if l.perspective = .isClient then
        flag8ByteConnectionId ||| 0x04 else flag8ByteConnectionId

def appendPacketHeader (h : FrameHeader) (w : Writer) : Option Writer := do
  let w ← w.write [l.publicFlags h.packetNumberLength]
  let w ← w.write (match l.connectionIdLength with
    | .packet0Byte => []
    | .packet8Byte => encode 8 l.connectionId.toNat)
  let w ← w.write (if l.sendVersionInPacket then encode 4 l.versionLabel.toNat else [])
  let w ← w.write (match l.nonce with
    | none => []
    | some nonce => nonce.1)
  appendPacketNumber h.packetNumberLength h.packetNumber w

end HeaderLayout

/-- `BuildDataPacket`: the bytes of the packet, or nothing if a part of it could not be written. -/
def buildDataPacket (v : TransportVersion) (l : HeaderLayout) (h : FrameHeader) (frames : List QuicFrame)
    (packetLength : ℕ) : Option Writer :=
  (l.appendPacketHeader h ⟨packetLength, [], Nat.zero_le _⟩).bind (appendFrames v h frames)

/-! ## The creator -/

/-- What is fixed while a packet is open.  A packet has room for the largest header and an ACK with
    a block, and fits into the buffer. -/
structure PacketParameters where
  version : TransportVersion
  header : HeaderLayout
  encryptionLevel : EncryptionLevel
  maxPlaintextSize : ℕ
  packetNumberLength : ℕ
  room : 83 ≤ maxPlaintextSize
  small : maxPlaintextSize ≤ kMaxPacketSize
  numberLength : packetNumberLength ∈ [1, 2, 4, 6, 8]

def PacketParameters.headerSize (p : PacketParameters) : ℕ :=
  p.header.getPacketHeaderSize p.packetNumberLength

structure PacketBuilder where
  parameters : PacketParameters
  packetNumber : ℕ
  queuedFrames : List QuicFrame
  packetSize : ℕ
  pendingPaddingBytes : ℕ
  needsFullPadding : Bool

namespace PacketBuilder

variable (c : PacketBuilder)

def expansionOnNewFrame : ℕ := if c.queuedFrames.getLast?.any QuicFrame.isStream then 2 else 0

/-- `PacketSize`. -/
def currentSize : ℕ := if c.queuedFrames = [] then c.parameters.headerSize else c.packetSize

def bytesFree : ℕ :=
  c.parameters.maxPlaintextSize - min c.parameters.maxPlaintextSize
    (c.currentSize + c.expansionOnNewFrame)

def serializedLength (frame : QuicFrame) : ℕ :=
  frame.getSerializedFrameLength c.parameters.version c.parameters.packetNumberLength c.bytesFree
    c.queuedFrames.isEmpty

def push (frame : QuicFrame) : PacketBuilder :=
  { c with
    queuedFrames := c.queuedFrames ++ [frame]
    packetSize := c.currentSize + c.expansionOnNewFrame + c.serializedLength frame }

/-- A padding without a length flushes the packet, and that asks for the same padding again: this
    never ends. -/
def addPadding (n : ℤ) : Option PacketBuilder :=
  if c.serializedLength (.padding n) = 0 then none else some (c.push (.padding n))

/-- The padding that is due has the type `int16_t`. -/
def maybeAddPadding : Option PacketBuilder :=
  if c.bytesFree = 0 then some c
  else if !c.needsFullPadding && c.pendingPaddingBytes == 0 then some c
  else if c.needsFullPadding then c.addPadding (-1)
  else
    let n := min ((c.pendingPaddingBytes : ℤ).bmod 65536) c.bytesFree
    { c with pendingPaddingBytes :=
      ((c.pendingPaddingBytes - n) % 18446744073709551616).toNat }.addPadding n

/-- What `BuildDataPacket` makes of the frames that are queued. -/
def built : Option Writer :=
  buildDataPacket c.parameters.version c.parameters.header
    ⟨c.packetNumber, c.parameters.packetNumberLength⟩
    c.queuedFrames c.currentSize

/-- `SerializePacket` up to the encryption. -/
def serializePacket : Option (PacketBuilder × Option Writer) :=
  { c with packetNumber := c.packetNumber + 1 }.maybeAddPadding.map fun c => (c, c.built)

/-- `Flush`; if a packet cannot be built, the connection is closed. -/
def flush : Option PacketBuilder :=
  if c.queuedFrames = [] ∧ c.pendingPaddingBytes = 0 then some c
  else c.serializePacket.bind fun r =>
    r.2.map fun _ => { r.1 with queuedFrames := [], packetSize := 0, needsFullPadding := false }

/-- Stream data without encryption is an error and adds nothing. -/
def addFrame (frame : QuicFrame) : Option PacketBuilder :=
  if frame.needsEncryption ∧ c.parameters.encryptionLevel = .none then some c
  else if c.serializedLength frame = 0 then c.flush
  else some (c.push frame)

inductive BuilderCall where
  | addFrame (frame : QuicFrame)
  | padFully
  | addPendingPadding (size : ℕ)
  | flush
  | configure (parameters : PacketParameters)

/-- What a packet looks like can only change when none is open. -/
def builderStep (c : PacketBuilder) : BuilderCall → Option PacketBuilder
  | .addFrame frame => c.addFrame frame
  | .padFully => some { c with needsFullPadding := true }
  | .addPendingPadding size =>
    some { c with pendingPaddingBytes := (c.pendingPaddingBytes + size) % 18446744073709551616 }
  | .flush => c.flush
  | .configure parameters =>
    if c.queuedFrames = [] then some { c with parameters := parameters } else none

def initial (parameters : PacketParameters) : PacketBuilder := ⟨parameters, 0, [], 0, 0, false⟩

end PacketBuilder

/-! ## Written lengths -/

/-- One write of `n` bytes. -/
def Writes (w : Writer) (r : Option Writer) (n : ℕ) : Prop :=
  ∃ w', r = some w' ∧ w'.capacity = w.capacity ∧ w'.data.length = w.data.length + n

section Writing

variable {v : TransportVersion} {h : FrameHeader} {w : Writer} {bs : List UInt8} {last : Bool}

theorem writes_write (hroom : bs.length ≤ w.room) : Writes w (w.write bs) bs.length := by
  obtain ⟨w', hw'⟩ := exists_write.2 hroom
  obtain ⟨hc, hd⟩ := write_eq_some.1 hw'
  exact ⟨w', hw', hc, by rw [hd, List.length_append]⟩

theorem Writes.of_eq {n : ℕ} {r : Option Writer} (heq : r = w.write bs) (hn : bs.length = n)
    (hroom : n ≤ w.room) :
    Writes w r n := by
  subst heq hn
  exact writes_write hroom

theorem room_lt (hcap : w.capacity ≤ kMaxPacketSize) : w.room < 2 ^ 31 := by
  unfold kMaxPacketSize at hcap
  unfold room
  omega

theorem appendPacketNumber_eq {k n : ℕ} (hk : k ∈ [1, 2, 4, 6, 8]) :
    appendPacketNumber k n w = w.write (encode k n) := by
  unfold appendPacketNumber
  simp only [List.mem_cons, List.not_mem_nil, or_false] at hk
  rw [if_neg (by omega)]

theorem writes_appendPacketHeader {l : HeaderLayout} (hk : h.packetNumberLength ∈ [1, 2, 4, 6, 8])
    (hroom : l.getPacketHeaderSize h.packetNumberLength ≤ w.room) :
    Writes w (l.appendPacketHeader h w) (l.getPacketHeaderSize h.packetNumberLength) := by
  unfold HeaderLayout.appendPacketHeader
  simp only [appendPacketNumber_eq hk]
  refine .of_eq (write_bind_write.trans
    (write_bind_write.trans (write_bind_write.trans write_write))) ?_ hroom
  have hid : (match l.connectionIdLength with
      | .packet0Byte => []
      | .packet8Byte => encode 8 l.connectionId.toNat).length = l.connectionIdLength.bytes := by
    cases l.connectionIdLength with
    | packet0Byte => rfl
    | packet8Byte => exact length_encode ..
  have hversion : (if l.sendVersionInPacket then encode 4 l.versionLabel.toNat else []).length =
      if l.sendVersionInPacket then 4 else 0 := by
    split
    · exact length_encode ..
    · rfl
  have hnonce : (match l.nonce with
      | none => []
      | some nonce => nonce.1).length = if l.nonce.isSome then 32 else 0 := by
    cases l.nonce with
    | none => rfl
    | some nonce => exact nonce.2
  simp only [List.length_append, length_encode, List.length_singleton, hid, hversion, hnonce]
  unfold HeaderLayout.getPacketHeaderSize
  omega

/-- Paddings of a given length, and all other frames. -/
def QuicFrame.Plain : QuicFrame → Prop
  | .padding n => 0 < n
  | _ => True

/-- The length of a plain frame. -/
def QuicFrame.length (v : TransportVersion) (packetNumberLength : ℕ) (last : Bool) : QuicFrame → ℕ
  | .padding n => n.toNat
  | frame => frame.computeFrameLength v packetNumberLength last

/-- What a frame needs beside room: the number in a STOP_WAITING frame has the length of the packet
    numbers, and the timestamps of an ACK have one byte for their number and one for each packet. -/
def QuicFrame.Writable (h : FrameHeader) : QuicFrame → Prop
  | .stopWaiting leastUnacked =>
    wrap64 (h.packetNumber + 2 ^ 64 - leastUnacked) < 2 ^ (h.packetNumberLength * 8 % 64)
  | .ack frame => TimesEncodable frame.packets.largest frame.receivedPacketTimes
  | _ => True

theorem writes_ack {frame : QuicAckFrame} (hcap : w.capacity ≤ kMaxPacketSize)
    (hroom : frame.size v ≤ w.room) :
    (TimesEncodable frame.packets.largest frame.receivedPacketTimes →
      Writes w (appendAckFrameAndTypeByte v frame w) (frame.size v)) ∧
    (¬TimesEncodable frame.packets.largest frame.receivedPacketTimes →
      appendAckFrameAndTypeByte v frame w = none) := by
  obtain ⟨hnum, hleft⟩ := numBlocks_of_room (room_lt hcap) hroom
  have hstep : frame.info.numAckBlocks ≠ 0 ↔ 0 < frame.numBlocks v w.room := by
    omega
  have hlen := blocks_length frame (numBlocks_le_info v frame w.room)
  have hfull := length_fullBytes hstep hlen
  constructor
  · intro henc
    obtain ⟨w', hw, hc, hd⟩ :
        Writes w (w.write (frame.fullBytes v (frame.numBlocks v w.room))) (frame.size v) :=
      .of_eq rfl (by omega) hroom
    exact ⟨w', (append_iff_left hstep hlen).2 (.inl ⟨by omega, henc, hw⟩), hc, hd⟩
  · intro hnot
    refine eq_none_iff_forall_ne_some.2 fun w' happ => ?_
    rcases (append_iff_left hstep hlen).1 happ with ⟨-, henc, -⟩ | ⟨hlt, -⟩
    · exact hnot henc
    · omega

theorem length_bytes {frame : QuicFrame} (hd : frame.Direct h last) :
    (frame.bytes v h last).length = frame.length v h.packetNumberLength last := by
  cases frame with
  | rstStream => cases v <;> simp [bytes, length, computeFrameLength]
  | stream =>
    cases last <;> simp [bytes, length, computeFrameLength, getMinStreamFrameSize] <;> omega
  | ack => exact hd.elim
  | _ =>
    simp [bytes, length, computeFrameLength]
    try omega

/-- A plain frame with enough room is written with its length, or cannot be written. -/
theorem writes_appendFrame {frame : QuicFrame} (hk : h.packetNumberLength ∈ [1, 2, 4, 6, 8])
    (hcap : w.capacity ≤ kMaxPacketSize) (hplain : frame.Plain)
    (hroom : frame.length v h.packetNumberLength last ≤ w.room) :
    (frame.Writable h →
      Writes w (appendFrame v h last frame w) (frame.length v h.packetNumberLength last)) ∧
    (¬frame.Writable h → appendFrame v h last frame w = none) := by
  have hdirect : frame.Direct h last →
      Writes w (appendFrame v h last frame w) (frame.length v h.packetNumberLength last) := fun hd =>
    .of_eq (appendFrame_eq_write hd) (length_bytes hd) hroom
  cases frame with
  | padding n => exact ⟨fun _ => hdirect hplain, fun hnot => absurd trivial hnot⟩
  | stopWaiting leastUnacked =>
    refine ⟨fun hfits => hdirect ⟨hk, hfits⟩, fun hnot => ?_⟩
    have hdiv : 0 < wrap64
        (h.packetNumber + 2 ^ 64 - leastUnacked) / 2 ^ (h.packetNumberLength * 8 % 64) :=
      Nat.div_pos (Nat.le_of_not_lt hnot) (Nat.two_pow_pos _)
    unfold appendFrame
    simp only [appendStopWaitingFrame, hdiv, if_true]
    exact bind_fun_none _
  | stream streamId fin offset data =>
    refine ⟨fun _ => hdirect fun _ => ?_, fun hnot => absurd trivial hnot⟩
    have hle : data.length ≤ w.room :=
      (Nat.le_add_left _ (getMinStreamFrameSize v streamId.toNat offset.toNat last)).trans hroom
    unfold kMaxPacketSize at hcap
    unfold room at hle
    omega
  | ack frame => exact writes_ack hcap hroom
  | _ => exact ⟨fun _ => hdirect trivial, fun hnot => absurd trivial hnot⟩

/-- What an ACK needs that is cut to the room there is: a place for the timestamps that go along,
    and for the zero that goes in their place (with version 39 the number of timestamps, which has
    its place unless they just do not fit). -/
def QuicAckFrame.CutFits (v : TransportVersion) (frame : QuicAckFrame) (room : ℕ) : Prop :=
  ((frame.timeStampSize : ℤ) ≤ frame.left v room →
    TimesEncodable frame.packets.largest frame.receivedPacketTimes) ∧
  match v with
  | .quic39 => (frame.timeStampSize : ℤ) ≠ frame.left v room + 1
  | .quic41 => (frame.timeStampSize : ℤ) ≤ frame.left v room ∨ 0 < frame.left v room

theorem getMinPacketNumberLength_le (n : ℕ) : getMinPacketNumberLength v n ≤ 8 := by
  unfold getMinPacketNumberLength
  split_ifs <;> decide

/-- With room for a block, blocks are written exactly if they are announced. -/
theorem announced_iff (frame : QuicAckFrame) {room : ℕ} (hsmall : room < 2 ^ 31) (hroom : 30 ≤ room) :
    0 ≤ frame.available v room ∧ (frame.info.numAckBlocks ≠ 0 ↔ 0 < frame.numBlocks v room) := by
  have hlargest : frame.largestLength v ≤ 8 := getMinPacketNumberLength_le _
  have hblock : frame.blockLength v ≤ 8 := getMinPacketNumberLength_le _
  have havail : (frame.blockLength v : ℤ) < frame.available v room := by
    unfold QuicAckFrame.available getMinAckFrameSize
    split <;> push_cast <;> omega
  refine ⟨by omega, fun hinfo => ?_, fun hpos => ?_⟩
  · by_contra h0
    have := available_le_of_numBlocks (v := v) hsmall hinfo (by omega)
    omega
  · have := numBlocks_le_info v frame room
    omega

theorem cut_ack_iff (frame : QuicAckFrame) (hcap : w.capacity ≤ kMaxPacketSize) (hroom : 30 ≤ w.room) :
    (∃ w', appendAckFrameAndTypeByte v frame w = some w' ∧ w'.capacity = w.capacity) ↔
      frame.CutFits v w.room := by
  obtain ⟨havail, hstep⟩ := announced_iff frame (room_lt hcap) hroom
  have hlen := blocks_length frame (numBlocks_le_info v frame w.room)
  have hfull := length_fullBytes hstep hlen
  have hcut := length_cutBytes hstep hlen
  have hleft : 0 ≤ frame.left v w.room := sub_nonneg.2 (numBlocks_fit havail)
  constructor
  · rintro ⟨w', happ, -⟩
    rcases (append_iff_left hstep hlen).1 happ with ⟨hle, henc, -⟩ | ⟨hlt, hw⟩
    · refine ⟨fun _ => henc, ?_⟩
      cases v with
      | quic39 =>
        omega
      | quic41 => exact .inl hle
    · have hfit := exists_write.1 ⟨w', hw⟩
      refine ⟨fun hle => by omega, ?_⟩
      cases v with
      | quic39 =>
        rw [if_pos rfl] at hlt
        omega
      | quic41 =>
        rw [if_neg (by decide)] at hcut
        exact .inr (by omega)
  · rintro ⟨henc, hcond⟩
    by_cases hfit : (frame.timeStampSize : ℤ) ≤ frame.left v w.room
    · obtain ⟨w', hw⟩ :=
        exists_write.2 (by omega : (frame.fullBytes v (frame.numBlocks v w.room)).length ≤ w.room)
      exact ⟨w', (append_iff_left hstep hlen).2 (.inl ⟨hfit, henc hfit, hw⟩), (write_eq_some.1 hw).1⟩
    · have hlt : frame.left v w.room + (if v = .quic39 then 1 else 0 : ℕ) < frame.timeStampSize ∧
          0 < frame.left v w.room + (if v = .quic39 then 1 else 0 : ℕ) := by
        cases v with
        | quic39 =>
          rw [if_pos rfl]
          omega
        | quic41 =>
          rw [if_neg (by decide)]
          omega
      obtain ⟨w', hw⟩ :=
        exists_write.2 (by omega : (frame.cutBytes v (frame.numBlocks v w.room)).length ≤ w.room)
      exact ⟨w', (append_iff_left hstep hlen).2 (.inr ⟨hlt.1, hw⟩), (write_eq_some.1 hw).1⟩

theorem fill_padding {n : ℤ} (hn : n < 0) (hroom : 0 < w.room) :
    Writes w (appendFrame v h last (.padding n) w) w.room := by
  obtain ⟨w₁, hw₁, hc₁, hd₁⟩ : Writes w (w.write [0]) 1 := writes_write hroom
  obtain ⟨w₂, hw₂, hc₂, hd₂⟩ : Writes w₁ (w₁.write (List.replicate w₁.room 0)) w₁.room :=
    .of_eq rfl List.length_replicate le_rfl
  refine ⟨w₂, ?_, hc₂.trans hc₁, ?_⟩
  · unfold appendFrame
    rw [hw₁]
    simp only [bind_eq_bind, bind_some, appendPaddingFrame, if_neg hn.ne, if_pos hn, hw₂]
  · unfold room at hroom hd₂ ⊢
    omega

theorem long_padding {n : ℤ} (hn : (w.room : ℤ) < n) : appendFrame v h last (.padding n) w = none := by
  unfold appendFrame
  simp only [appendPaddingFrame, if_neg (by omega : ¬n = 0), if_neg (by omega : ¬n < 0)]
  refine write_write.trans (write_eq_none.2 ?_)
  simp
  omega

/-! ## All frames but the last -/

/-- The length of frames that others come after. -/
def leadLength (v : TransportVersion) (packetNumberLength : ℕ) (frames : List QuicFrame) : ℕ :=
  (frames.map (QuicFrame.length v packetNumberLength false)).sum

theorem appendFrames_lead {lead : List QuicFrame} (hk : h.packetNumberLength ∈ [1, 2, 4, 6, 8])
    (hcap : w.capacity ≤ kMaxPacketSize) (hplain : ∀ f ∈ lead, f.Plain)
    (hroom : leadLength v h.packetNumberLength lead ≤ w.room) (frame : QuicFrame) :
    ((∀ f ∈ lead, f.Writable h) → ∃ w', w'.capacity = w.capacity ∧
      w'.data.length = w.data.length + leadLength v h.packetNumberLength lead ∧
      appendFrames v h (lead ++ [frame]) w = appendFrame v h true frame w') ∧
    ((¬∀ f ∈ lead, f.Writable h) → appendFrames v h (lead ++ [frame]) w = none) := by
  induction lead generalizing w with
  | nil =>
    refine ⟨fun _ => ⟨w, rfl, rfl, ?_⟩, fun hnot => absurd (fun f hf => absurd hf List.not_mem_nil) hnot⟩
    exact bind_fun_some _
  | cons f lead ih =>
    obtain ⟨hplain, hplains⟩ := List.forall_mem_cons.1 hplain
    have hlead : leadLength v h.packetNumberLength (f :: lead) =
        f.length v h.packetNumberLength false + leadLength v h.packetNumberLength lead := List.sum_cons
    have hfirst := writes_appendFrame hk hcap hplain
      (by omega : f.length v h.packetNumberLength false ≤ _)
    have happ : appendFrames v h (f :: lead ++ [frame]) w =
        (appendFrame v h false f w).bind (appendFrames v h (lead ++ [frame])) := by
      rw [List.cons_append, appendFrames]
      have hne : (lead ++ [frame]).isEmpty = false := by cases lead <;> rfl
      rw [hne]
      rfl
    by_cases hf : f.Writable h
    · obtain ⟨w₁, hw₁, hc₁, hd₁⟩ := hfirst.1 hf
      have hroom₁ : leadLength v h.packetNumberLength lead ≤ w₁.room := by
        unfold room at hroom ⊢
        omega
      obtain ⟨hwrites, hnone⟩ := ih (by omega) hplains hroom₁
      rw [happ, hw₁, bind_some]
      constructor
      · intro hall
        obtain ⟨w', hc, hd, heq⟩ := hwrites (List.forall_mem_cons.1 hall).2
        exact ⟨w', hc.trans hc₁, by omega, heq⟩
      · intro hnot
        exact hnone fun hall => hnot (List.forall_mem_cons.2 ⟨hf, hall⟩)
    · constructor
      · intro hall
        exact absurd (List.forall_mem_cons.1 hall).1 hf
      · intro _
        rw [happ, hfirst.2 hf, bind_none]

end Writing

/-! ## What the size accounts for -/

namespace PacketParameters

variable (p : PacketParameters)

/-- An ACK that is too large for a packet of its own. -/
def TooLarge (frame : QuicFrame) : Prop :=
  ∃ ack, frame = .ack ack ∧ p.maxPlaintextSize < p.headerSize + ack.size p.version

/-- A frame that fills the packet: one that was cut, or a padding. -/
def Fills (lead : List QuicFrame) (frame : QuicFrame) : Prop :=
  (∃ n : ℤ, frame = .padding n ∧
    (n < 0 ∨ (p.maxPlaintextSize : ℤ) <
      p.headerSize + leadLength p.version p.packetNumberLength lead + n)) ∨
  (lead = [] ∧ p.TooLarge frame)

/-- Everything in the packet can be written as it is. -/
structure AllWritable (h : FrameHeader) (frames : List QuicFrame) : Prop where
  whole : ∀ frame ∈ frames, ¬p.TooLarge frame → frame.Writable h
  cut : ∀ ack, .ack ack ∈ frames → p.maxPlaintextSize < p.headerSize + ack.size p.version →
    ack.CutFits p.version (p.maxPlaintextSize - p.headerSize)
  padding : ∀ lead n, frames = lead ++ [.padding n] →
    (p.headerSize + leadLength p.version p.packetNumberLength lead : ℤ) + n ≤ p.maxPlaintextSize

theorem length_le_leadLength {v : TransportVersion} {k : ℕ} {lead : List QuicFrame}
    {frame : QuicFrame} (hmem : frame ∈ lead) :
    frame.length v k false ≤ leadLength v k lead :=
  List.single_le_sum (fun _ _ => Nat.zero_le _) _ (List.mem_map_of_mem hmem)

variable {p} in
theorem not_tooLarge {lead : List QuicFrame} {frame : QuicFrame} (hmem : frame ∈ lead)
    (hle : p.headerSize + leadLength p.version p.packetNumberLength lead ≤ p.maxPlaintextSize) :
    ¬p.TooLarge frame := by
  rintro ⟨ack, rfl, hlt⟩
  have : ack.size p.version ≤ leadLength p.version p.packetNumberLength lead := length_le_leadLength hmem
  omega

/-- What the last frame needs. -/
structure LastWritable (h : FrameHeader) (lead : List QuicFrame) (frame : QuicFrame) : Prop where
  whole : ¬p.TooLarge frame → frame.Writable h
  cut : ∀ ack, frame = .ack ack → p.maxPlaintextSize < p.headerSize + ack.size p.version →
    ack.CutFits p.version (p.maxPlaintextSize - p.headerSize)
  padding : ∀ n, frame = .padding n →
    (p.headerSize + leadLength p.version p.packetNumberLength lead : ℤ) + n ≤ p.maxPlaintextSize

variable {p} in
theorem allWritable_append {h : FrameHeader} {lead : List QuicFrame} {frame : QuicFrame}
    (hle : p.headerSize + leadLength p.version p.packetNumberLength lead ≤ p.maxPlaintextSize) :
    p.AllWritable h (lead ++ [frame]) ↔ (∀ f ∈ lead, f.Writable h) ∧ p.LastWritable h lead frame := by
  constructor
  · intro hall
    refine ⟨fun f hf => hall.whole f (List.mem_append_left _ hf) (not_tooLarge hf hle),
      hall.whole frame (by simp), fun ack hack => ?_, fun n hn => ?_⟩
    · exact hall.cut ack (by simp [hack])
    · exact hall.padding lead n (by rw [hn])
  · rintro ⟨hlead, hlast⟩
    refine ⟨fun f hf hnot => ?_, fun ack hack hlt => ?_, fun lead' n heq => ?_⟩
    · rcases List.mem_append.1 hf with hf | hf
      · exact hlead f hf
      · cases List.mem_singleton.1 hf
        exact hlast.whole hnot
    · rcases List.mem_append.1 hack with hf | hf
      · exact absurd ⟨ack, rfl, hlt⟩ (not_tooLarge hf hle)
      · exact hlast.cut ack (List.mem_singleton.1 hf).symm hlt
    · obtain ⟨rfl, hframe⟩ := List.append_inj' heq rfl
      exact hlast.padding n (List.singleton_inj.1 hframe)

theorem headerSize_le : p.headerSize ≤ 53 := by
  have hn := p.numberLength
  simp only [List.mem_cons, List.not_mem_nil, or_false] at hn
  have hid : p.header.connectionIdLength.bytes ≤ 8 := by
    cases p.header.connectionIdLength <;> decide
  unfold headerSize HeaderLayout.getPacketHeaderSize
  split_ifs <;> omega

end PacketParameters

namespace PacketBuilder

variable {c : PacketBuilder} {frame : QuicFrame}

/-- `packet_size_` is right, unless the last frame fills the packet. -/
def Accounted (c : PacketBuilder) : Prop :=
  c.queuedFrames = [] ∨ ∃ lead frame, c.queuedFrames = lead ++ [frame] ∧ (∀ f ∈ lead, f.Plain) ∧
    ((frame.Plain ∧ c.packetSize = c.parameters.headerSize +
        leadLength c.parameters.version c.parameters.packetNumberLength lead +
        frame.length c.parameters.version c.parameters.packetNumberLength true ∧
        c.packetSize ≤ c.parameters.maxPlaintextSize) ∨
      (c.parameters.Fills lead frame ∧ c.parameters.headerSize +
          leadLength c.parameters.version c.parameters.packetNumberLength lead <
            c.parameters.maxPlaintextSize ∧
        c.packetSize = c.parameters.maxPlaintextSize))

theorem serializedLength_le : c.serializedLength frame ≤ c.bytesFree := by
  unfold serializedLength getSerializedFrameLength
  cases frame <;> dsimp only <;> split_ifs <;> omega

theorem length_false (v : TransportVersion) (k : ℕ) (frame : QuicFrame) :
    frame.length v k false = frame.length v k true + if frame.isStream then 2 else 0 := by
  cases frame with
  | stream streamId fin offset data =>
    simp only [length, computeFrameLength, getMinStreamFrameSize, isStream]
    simp
    omega
  | _ => rfl

theorem leadLength_append (v : TransportVersion) (k : ℕ) (lead : List QuicFrame) (frame : QuicFrame) :
    leadLength v k (lead ++ [frame]) = leadLength v k lead + frame.length v k false := by
  simp [leadLength]

/-- With room left, all frames are plain and the next one begins after them. -/
theorem Accounted.room (h : c.Accounted) (hfree : 0 < c.bytesFree) :
    (∀ f ∈ c.queuedFrames, f.Plain) ∧
    c.currentSize + c.expansionOnNewFrame = c.parameters.headerSize +
      leadLength c.parameters.version c.parameters.packetNumberLength c.queuedFrames := by
  obtain hnil | ⟨lead, frame, hq, hlead, ⟨hplain, hsize, -⟩ | ⟨-, -, hfull⟩⟩ := h
  · rw [currentSize, expansionOnNewFrame, hnil]
    exact ⟨fun f hf => absurd hf List.not_mem_nil, rfl⟩
  · refine ⟨fun f hf => ?_, ?_⟩
    · rw [hq, List.mem_append, List.mem_singleton] at hf
      rcases hf with hf | rfl
      · exact hlead f hf
      · exact hplain
    · rw [hq, leadLength_append, length_false, currentSize, if_neg (by simp [hq]),
        expansionOnNewFrame, hq,
        List.getLast?_concat, hsize]
      simp only [any_some]
      omega
  · unfold bytesFree currentSize at hfree
    rw [if_neg (by simp [hq])] at hfree
    omega

theorem Accounted.bytesFree_eq (h : c.Accounted) (hfree : 0 < c.bytesFree) :
    c.parameters.headerSize + leadLength c.parameters.version c.parameters.packetNumberLength
      c.queuedFrames +
      c.bytesFree = c.parameters.maxPlaintextSize := by
  have hroom := (h.room hfree).2
  unfold bytesFree at hfree ⊢
  omega

theorem serializedLength_cases (hpos : 0 < c.serializedLength frame) :
    (frame.Plain ∧ c.serializedLength frame =
      frame.length c.parameters.version c.parameters.packetNumberLength true) ∨
    (c.serializedLength frame = c.bytesFree ∧
      ((∃ n : ℤ, frame = .padding n ∧ (n < 0 ∨ (c.bytesFree : ℤ) < n)) ∨
        (c.queuedFrames = [] ∧ ∃ ack, frame = .ack ack ∧
          c.bytesFree < ack.size c.parameters.version))) := by
  unfold serializedLength getSerializedFrameLength at hpos ⊢
  cases frame with
  | padding n =>
    dsimp only at hpos ⊢
    split at hpos
    · next hn => exact .inr ⟨if_pos hn, .inl ⟨n, rfl, hn⟩⟩
    · next hn => exact .inl ⟨by simp only [Plain]; omega, if_neg hn⟩
  | ack ack =>
    dsimp only at hpos ⊢
    split at hpos
    · next hle => exact .inl ⟨trivial, if_pos hle⟩
    · next hlt =>
      rw [if_neg hlt]
      split at hpos
      · exact absurd hpos (Nat.lt_irrefl 0)
      · next hfirst =>
        rw [if_neg hfirst]
        split at hpos
        · next hmin =>
          refine .inr ⟨if_pos hmin, .inr ⟨?_, ack, rfl, Nat.lt_of_not_le hlt⟩⟩
          simpa using hfirst
        · exact absurd hpos (Nat.lt_irrefl 0)
  | _ =>
    dsimp only at hpos ⊢
    split at hpos
    · next hle => exact .inl ⟨trivial, if_pos hle⟩
    · split at hpos <;> exact absurd hpos (Nat.lt_irrefl 0)

theorem Accounted.push (h : c.Accounted) (hpos : 0 < c.serializedLength frame) :
    (c.push frame).Accounted := by
  have hfree : 0 < c.bytesFree := hpos.trans_le serializedLength_le
  obtain ⟨hplain, hsize⟩ := h.room hfree
  have hbytes := h.bytesFree_eq hfree
  have hle : c.serializedLength frame ≤ c.bytesFree := serializedLength_le
  have hpacket : (c.push frame).packetSize =
      c.currentSize + c.expansionOnNewFrame + c.serializedLength frame := rfl
  have hparameters : (c.push frame).parameters = c.parameters := rfl
  refine .inr ⟨c.queuedFrames, frame, rfl, hplain, ?_⟩
  rw [hpacket, hparameters]
  obtain ⟨hframe, hlength⟩ | ⟨hlength, hfills⟩ := serializedLength_cases hpos
  · exact .inl ⟨hframe, by omega, by omega⟩
  · refine .inr ⟨?_, by omega, by omega⟩
    obtain ⟨n, rfl, hn⟩ | ⟨hnil, ack, rfl, hlt⟩ := hfills
    · exact .inl ⟨n, rfl, by omega⟩
    · rw [hnil] at hbytes
      exact .inr ⟨hnil, ack, rfl, by simp [leadLength] at hbytes; omega⟩

/-! ## Every packet -/

variable {c' : PacketBuilder} {lead : List QuicFrame} {n : ℤ}

theorem flush_empty (h : c.flush = some c') : c'.queuedFrames = [] := by
  unfold flush at h
  split at h
  · next hempty =>
    cases h
    exact hempty.1
  · simp only [bind_eq_some_iff, map_eq_some_iff] at h
    obtain ⟨r, -, w, -, rfl⟩ := h
    rfl

theorem Accounted.addFrame (h : c.Accounted) (hadd : c.addFrame frame = some c') : c'.Accounted := by
  unfold PacketBuilder.addFrame at hadd
  split at hadd
  · cases hadd
    exact h
  split at hadd
  · exact .inl (flush_empty hadd)
  · next hne =>
    cases hadd
    exact h.push (Nat.pos_of_ne_zero hne)

theorem Accounted.builderStep (h : c.Accounted) {call : BuilderCall}
    (hstep : c.builderStep call = some c') : c'.Accounted := by
  cases call with
  | addFrame frame => exact h.addFrame hstep
  | padFully =>
    cases hstep
    exact h
  | addPendingPadding size =>
    cases hstep
    exact h
  | flush => exact .inl (flush_empty hstep)
  | configure parameters =>
    obtain ⟨hnil, hsome⟩ := ite_none_right_eq_some.1 hstep
    cases hsome
    exact .inl hnil

theorem accounted_run {parameters : PacketParameters} {calls : List BuilderCall}
    (hrun : Machine.run PacketBuilder.builderStep (initial parameters) calls = some c) : c.Accounted :=
  Machine.run_inv (fun _ _ _ h hstep => h.builderStep hstep) (.inl rfl) hrun

/-- The packet is built with as many bytes as `packet_size_` says, or is a single ACK that was cut. -/
def ExactlyBuilt (c : PacketBuilder) (r : Option Writer) : Prop :=
  ∃ w, r = some w ∧ c.currentSize ≤ c.parameters.maxPlaintextSize ∧
    (w.data.length = c.currentSize ∨
      ∃ ack, c.queuedFrames = [.ack ack] ∧ c.parameters.TooLarge (.ack ack) ∧
        w.data.length ≤ c.currentSize)

theorem built_lead (hq : c.queuedFrames = lead ++ [frame]) (hplain : ∀ f ∈ lead, f.Plain)
    (hroom : c.parameters.headerSize + leadLength c.parameters.version
      c.parameters.packetNumberLength lead ≤ c.packetSize)
    (hmax : c.packetSize ≤ c.parameters.maxPlaintextSize) :
    ((∀ f ∈ lead, f.Writable ⟨c.packetNumber, c.parameters.packetNumberLength⟩) →
      ∃ w : Writer, w.capacity = c.packetSize ∧
        w.data.length = c.parameters.headerSize + leadLength c.parameters.version
          c.parameters.packetNumberLength lead ∧
        c.built = appendFrame c.parameters.version ⟨c.packetNumber, c.parameters.packetNumberLength⟩
          true frame w) ∧
    ((¬∀ f ∈ lead, f.Writable ⟨c.packetNumber, c.parameters.packetNumberLength⟩) → c.built = none) := by
  have hsize : c.currentSize = c.packetSize := if_neg (by simp [hq])
  have hsmall := c.parameters.small
  obtain ⟨w₁, hw₁, hc₁, hd₁⟩ := writes_appendPacketHeader
    (h := ⟨c.packetNumber, c.parameters.packetNumberLength⟩) (w := ⟨c.packetSize, [], Nat.zero_le _⟩)
    c.parameters.numberLength ((Nat.le_add_right _ _).trans hroom)
  have hbuilt : c.built = appendFrames c.parameters.version
      ⟨c.packetNumber, c.parameters.packetNumberLength⟩
      (lead ++ [frame]) w₁ := by
    rw [built, buildDataPacket, hsize, hw₁, hq, bind_some]
  have hd₁ : w₁.data.length = c.parameters.headerSize := by rw [hd₁, List.length_nil, Nat.zero_add]; rfl
  have hroom₁ : leadLength c.parameters.version c.parameters.packetNumberLength lead ≤ w₁.room := by
    unfold room
    rw [hc₁, hd₁]
    dsimp only
    omega
  obtain ⟨hwrites, hnone⟩ := appendFrames_lead (h := ⟨c.packetNumber, c.parameters.packetNumberLength⟩)
    c.parameters.numberLength (by rw [hc₁]; exact hmax.trans hsmall) hplain hroom₁ frame
  rw [hbuilt]
  constructor
  · intro hall
    obtain ⟨w, hc, hd, heq⟩ := hwrites hall
    exact ⟨w, hc.trans hc₁, by rw [hd, hd₁], heq⟩
  · exact hnone

theorem exactlyBuilt_of_nil (hq : c.queuedFrames = []) : c.ExactlyBuilt c.built := by
  have hsize : c.currentSize = c.parameters.headerSize := if_pos hq
  have hle := c.parameters.headerSize_le
  have hroom := c.parameters.room
  obtain ⟨w, hw, -, hd⟩ := writes_appendPacketHeader
    (h := ⟨c.packetNumber, c.parameters.packetNumberLength⟩)
      (w := ⟨c.parameters.headerSize, [], Nat.zero_le _⟩)
    c.parameters.numberLength le_rfl
  refine ⟨w, ?_, by omega, .inl ?_⟩
  · rw [built, buildDataPacket, hsize, hw, hq]
    rfl
  · rw [hd, hsize, List.length_nil, Nat.zero_add]
    rfl

/-- A plain frame at the end of a packet that it just fits into. -/
theorem last_plain {h : FrameHeader} {w : Writer} {p : PacketParameters}
    (hk : h.packetNumberLength = p.packetNumberLength) (hplain : frame.Plain)
    (hd : w.data.length = p.headerSize + leadLength p.version p.packetNumberLength lead)
    (hc : w.capacity = w.data.length + frame.length p.version p.packetNumberLength true)
    (hmax : w.capacity ≤ p.maxPlaintextSize) :
    (∀ w', appendFrame p.version h true frame w = some w' → p.LastWritable h lead frame) ∧
    (p.LastWritable h lead frame →
      ∃ w', appendFrame p.version h true frame w = some w' ∧ w'.data.length = w.capacity) := by
  have hsmall := p.small
  have hroom : frame.length p.version h.packetNumberLength true ≤ w.room := by
    rw [room, hk]
    omega
  obtain ⟨hwrites, hnone⟩ := writes_appendFrame (hk ▸ p.numberLength) (hmax.trans hsmall) hplain hroom
  constructor
  · intro w' happ
    refine ⟨fun _ => ?_, fun ack hack hlt => ?_, fun n hn => ?_⟩
    · by_contra hnot
      rw [hnone hnot] at happ
      cases happ
    · subst hack
      have : w.capacity = w.data.length + ack.size p.version := hc
      omega
    · subst hn
      have : w.capacity = w.data.length + n.toNat := hc
      omega
  · intro hlast
    have hnot : ¬p.TooLarge frame := by
      rintro ⟨ack, rfl, hlt⟩
      have : w.capacity = w.data.length + ack.size p.version := hc
      omega
    obtain ⟨w', hw', -, hd'⟩ := hwrites (hlast.whole hnot)
    exact ⟨w', hw', by rw [hd', hc, hk]⟩

theorem last_fills {h : FrameHeader} {w : Writer} {p : PacketParameters}
    (hfills : p.Fills lead frame)
    (hd : w.data.length = p.headerSize + leadLength p.version p.packetNumberLength lead)
    (hlt : w.data.length < p.maxPlaintextSize) (hc : w.capacity = p.maxPlaintextSize) :
    (∀ w', appendFrame p.version h true frame w = some w' → p.LastWritable h lead frame) ∧
    (p.LastWritable h lead frame → ∃ w', appendFrame p.version h true frame w = some w' ∧
      w'.capacity = w.capacity ∧
      (w'.data.length = w.capacity ∨ lead = [] ∧ p.TooLarge frame)) := by
  have hroom : w.room = p.maxPlaintextSize - w.data.length := by rw [room, hc]
  obtain ⟨n, rfl, hn⟩ | ⟨rfl, ack, rfl, hlarge⟩ := hfills
  · rcases hn with hn | hn
    · obtain ⟨w₁, hw₁, hc₁, hd₁⟩ : Writes w (appendFrame p.version h true (.padding n) w) w.room :=
        fill_padding hn (by omega)
      refine ⟨fun w' _ => ⟨fun _ => trivial, fun ack hack => (by cases hack), fun m hm => ?_⟩,
        fun _ => ?_⟩
      · cases hm
        omega
      · exact ⟨w₁, hw₁, hc₁, .inl (by omega)⟩
    · rw [long_padding (by omega)]
      refine ⟨fun w' happ => (by cases happ), fun hlast => ?_⟩
      have := hlast.padding n rfl
      omega
  · have hle := p.headerSize_le
    have hmin := p.room
    have hd : w.data.length = p.headerSize := hd
    have hiff := cut_ack_iff (v := p.version) ack (hc ▸ p.small) (by omega)
    rw [hroom, hd] at hiff
    constructor
    · intro w' hw'
      refine ⟨fun hnot => absurd ⟨ack, rfl, hlarge⟩ hnot, fun ack' hack _ => ?_,
        fun n hn => (by cases hn)⟩
      cases hack
      refine hiff.1 ⟨w', hw', ?_⟩
      rcases (appendAckFrameAndTypeByte_iff rfl).1 hw' with ⟨-, -, hw⟩ | ⟨-, hw⟩
      · exact (write_eq_some.1 hw).1
      · exact (write_eq_some.1 hw).1
    · intro hlast
      obtain ⟨w', hw', hc'⟩ := hiff.2 (hlast.cut ack rfl hlarge)
      exact ⟨w', hw', hc', .inr ⟨rfl, ack, rfl, hlarge⟩⟩

theorem Accounted.built_iff (h : c.Accounted) :
    c.ExactlyBuilt c.built ↔
      c.parameters.AllWritable ⟨c.packetNumber, c.parameters.packetNumberLength⟩ c.queuedFrames := by
  obtain hnil | ⟨lead, frame, hq, hlead, hlast⟩ := h
  · refine ⟨fun _ => ?_, fun _ => exactlyBuilt_of_nil hnil⟩
    rw [hnil]
    exact ⟨by simp, by simp, by simp⟩
  have hsize : c.currentSize = c.packetSize := if_neg (by simp [hq])
  have hbounds : c.parameters.headerSize +
      leadLength c.parameters.version c.parameters.packetNumberLength lead ≤ c.packetSize ∧
      c.packetSize ≤ c.parameters.maxPlaintextSize := by omega
  obtain ⟨hwrites, hnone⟩ := built_lead hq hlead hbounds.1 hbounds.2
  rw [hq, PacketParameters.allWritable_append (hbounds.1.trans hbounds.2)]
  by_cases hall : ∀ f ∈ lead, f.Writable ⟨c.packetNumber, c.parameters.packetNumberLength⟩
  · obtain ⟨w, hc, hd, hbuilt⟩ := hwrites hall
    rw [hbuilt, and_iff_right hall]
    obtain ⟨hplain, heq, -⟩ | ⟨hfills, hlt, heq⟩ := hlast
    · obtain ⟨hneeds, hgives⟩ :=
        last_plain (h := ⟨c.packetNumber, c.parameters.packetNumberLength⟩) rfl hplain hd
        (by omega) (by omega)
      refine ⟨fun ⟨w', hw', _⟩ => hneeds w' hw', fun hlast => ?_⟩
      obtain ⟨w', hw', hd'⟩ := hgives hlast
      exact ⟨w', hw', by omega, .inl (by omega)⟩
    · obtain ⟨hneeds, hgives⟩ := last_fills hfills hd
        (by omega) (by omega)
      refine ⟨fun ⟨w', hw', _⟩ => hneeds w' hw', fun hlast => ?_⟩
      obtain ⟨w', hw', hc', hd' | ⟨rfl, hlarge⟩⟩ := hgives hlast
      · exact ⟨w', hw', by omega, .inl (by omega)⟩
      · have hle := w'.le
        obtain ⟨ack, rfl, hack⟩ := hlarge
        exact ⟨w', hw', by omega, .inr ⟨ack, hq, ⟨ack, rfl, hack⟩, by omega⟩⟩
  · rw [hnone hall]
    refine ⟨fun ⟨w, hw, _⟩ => ?_, fun ⟨hw, _⟩ => absurd hw hall⟩
    cases hw

/-- The padding that `MaybeAddPadding` adds comes last, and fits or fills the packet. -/
theorem Accounted.allWritable_push {h : FrameHeader} (hacc : c.Accounted) (hfree : 0 < c.bytesFree)
    (hn : n ≤ c.bytesFree) :
    c.parameters.AllWritable h (c.push (.padding n)).queuedFrames ↔
      c.parameters.AllWritable h c.queuedFrames := by
  have hbytes := hacc.bytesFree_eq hfree
  have hq : (c.push (.padding n)).queuedFrames = c.queuedFrames ++ [.padding n] := rfl
  rw [hq, PacketParameters.allWritable_append (by omega)]
  constructor
  · rintro ⟨hall, -⟩
    refine ⟨fun f hf _ => hall f hf, fun ack hack hlt => ?_, fun lead m heq => ?_⟩
    · exact absurd ⟨ack, rfl, hlt⟩ (PacketParameters.not_tooLarge hack (by omega))
    · have hplain := (hacc.room hfree).1 (.padding m) (by rw [heq]; simp)
      have hlength : (padding m).length c.parameters.version c.parameters.packetNumberLength false =
          m.toNat := rfl
      rw [heq, leadLength_append, hlength] at hbytes
      omega
  · intro hall
    refine ⟨fun f hf => hall.whole f hf (PacketParameters.not_tooLarge hf (by omega)), fun _ => trivial,
      fun ack hack => (by cases hack), fun m hm => ?_⟩
    cases hm
    omega

/-- The padding that is due and has a length. -/
def PaddingDue (c : PacketBuilder) : Prop :=
  c.bytesFree = 0 ∨ c.needsFullPadding = true ∨ c.pendingPaddingBytes = 0 ∨
    c.pendingPaddingBytes % 65536 ≠ 0

theorem serializedLength_padding (hfree : 0 < c.bytesFree) :
    c.serializedLength (.padding n) = 0 ↔ n = 0 := by
  unfold serializedLength getSerializedFrameLength
  dsimp only
  split <;> omega

/-- The same packet with a padding at its end that can be written. -/
def Padded (h : FrameHeader) (c c' : PacketBuilder) : Prop :=
  c'.Accounted ∧ c'.packetNumber = c.packetNumber ∧ c'.parameters = c.parameters ∧
    (c'.parameters.AllWritable h c'.queuedFrames ↔ c.parameters.AllWritable h c.queuedFrames)

theorem Accounted.addPadding (hacc : c.Accounted) (h : FrameHeader) (hfree : 0 < c.bytesFree)
    (hn : n ≤ c.bytesFree)
    (pending : ℕ) :
    (n ≠ 0 → ∃ c', { c with pendingPaddingBytes := pending }.addPadding n = some c' ∧ Padded h c c') ∧
    (n = 0 → { c with pendingPaddingBytes := pending }.addPadding n = none) := by
  have hacc' : { c with pendingPaddingBytes := pending }.Accounted := hacc
  have hfree' : 0 < { c with pendingPaddingBytes := pending }.bytesFree := hfree
  have hzero := serializedLength_padding (n := n) hfree'
  constructor
  · intro hne
    refine ⟨_, if_neg (mt hzero.1 hne), hacc'.push (Nat.pos_of_ne_zero (mt hzero.1 hne)), rfl, rfl, ?_⟩
    exact hacc'.allWritable_push hfree' hn
  · intro heq
    exact if_pos (hzero.2 heq)

theorem Accounted.maybeAddPadding (hacc : c.Accounted) (h : FrameHeader) :
    (c.PaddingDue ∧ ∃ c', c.maybeAddPadding = some c' ∧ Padded h c c') ∨
      (¬c.PaddingDue ∧ c.maybeAddPadding = none) := by
  unfold PacketBuilder.maybeAddPadding
  by_cases hfree : c.bytesFree = 0
  · exact .inl ⟨.inl hfree, c, if_pos hfree, hacc, rfl, rfl, Iff.rfl⟩
  have hpos := Nat.pos_of_ne_zero hfree
  rw [if_neg hfree]
  by_cases hfull : c.needsFullPadding = true
  · left
    obtain ⟨c', hadd, hpadded⟩ :=
      (hacc.addPadding h hpos (by omega) c.pendingPaddingBytes).1 (by decide : (-1 : ℤ) ≠ 0)
    refine ⟨.inr (.inl hfull), c', ?_, hpadded⟩
    simp only [hfull, Bool.not_true, Bool.false_and, Bool.false_eq_true, if_false, if_true]
    exact hadd
  by_cases hpending : c.pendingPaddingBytes = 0
  · refine .inl ⟨.inr (.inr (.inl hpending)), c, ?_, hacc, rfl, rfl, Iff.rfl⟩
    simp [hfull, hpending]
  have hdue : c.PaddingDue ↔
      c.pendingPaddingBytes % 65536 ≠ 0 := by simp [PaddingDue, hfree, hfull, hpending]
  have hzero : min ((c.pendingPaddingBytes : ℤ).bmod 65536) c.bytesFree = 0 ↔
      c.pendingPaddingBytes % 65536 = 0 := by
    rw [← PacketCreator.bmod_eq_zero_iff]
    omega
  rw [hdue, if_neg (by simp [hpending]), if_neg (by simp [hfull])]
  dsimp only
  generalize ((c.pendingPaddingBytes - min ((c.pendingPaddingBytes : ℤ).bmod 65536) c.bytesFree) %
    18446744073709551616).toNat = pending
  obtain ⟨hsome, hnone⟩ := hacc.addPadding h hpos
    (Int.min_le_right ((c.pendingPaddingBytes : ℤ).bmod 65536) c.bytesFree) pending
  by_cases hmod : c.pendingPaddingBytes % 65536 = 0
  · exact .inr ⟨fun hne => hne hmod, hnone (hzero.2 hmod)⟩
  · exact .inl ⟨hmod, hsome (mt hzero.1 hmod)⟩

/-- The packet is built with the size that was counted. -/
def SizeExact (c : PacketBuilder) : Prop := ∃ c' r, c.serializePacket = some (c', r) ∧ c'.ExactlyBuilt r

/-- Every frame of the packet can be written as it is, and so can the padding that is due. -/
def Buildable (c : PacketBuilder) : Prop :=
  c.parameters.AllWritable ⟨c.packetNumber + 1, c.parameters.packetNumberLength⟩ c.queuedFrames ∧
    c.PaddingDue

theorem Accounted.sizeExact_iff (hacc : c.Accounted) : c.SizeExact ↔ c.Buildable := by
  let c₀ := { c with packetNumber := c.packetNumber + 1 }
  have hacc₀ : c₀.Accounted := hacc
  have hserialize : c.serializePacket = c₀.maybeAddPadding.map fun c => (c, c.built) := rfl
  obtain ⟨hdue, c', hpad, hacc', hnumber, hparameters, hall⟩ | ⟨hnot, hnone⟩ :=
    hacc₀.maybeAddPadding ⟨c.packetNumber + 1, c.parameters.packetNumberLength⟩
  · have hbuilt := hacc'.built_iff
    rw [hnumber, show c'.parameters.packetNumberLength =
      c.parameters.packetNumberLength by rw [hparameters]] at hbuilt
    have hexact : c.SizeExact ↔ c'.ExactlyBuilt c'.built := by
      rw [SizeExact, hserialize, hpad]
      constructor
      · rintro ⟨_, _, heq, hexact⟩
        cases heq
        exact hexact
      · intro hexact
        exact ⟨c', c'.built, rfl, hexact⟩
    rw [hexact, hbuilt]
    exact ⟨fun h => ⟨hall.1 h, hdue⟩, fun h => hall.2 h.1⟩
  · refine ⟨fun ⟨c', r, heq, _⟩ => ?_, fun ⟨_, hdue⟩ => absurd hdue hnot⟩
    rw [hserialize, hnone] at heq
    cases heq

theorem Accounted.currentSize_le (hacc : c.Accounted) :
    c.currentSize ≤ c.parameters.maxPlaintextSize := by
  have hle := c.parameters.headerSize_le
  have hroom := c.parameters.room
  obtain hnil | ⟨lead, frame, hq, -, hlast⟩ := hacc
  · have hsize : c.currentSize = c.parameters.headerSize := if_pos hnil
    omega
  · have hsize : c.currentSize = c.packetSize := if_neg (by simp [hq])
    omega

/-- Whatever was added to a packet, its size is within the bound, and it is built with this size
    exactly if everything in it can be written. -/
theorem serializePacket_exact_iff (parameters : PacketParameters) (calls : List BuilderCall)
    (hrun : Machine.run PacketBuilder.builderStep (initial parameters) calls = some c) :
    c.currentSize ≤ c.parameters.maxPlaintextSize ∧ (c.SizeExact ↔ c.Buildable) :=
  ⟨(accounted_run hrun).currentSize_le, (accounted_run hrun).sizeExact_iff⟩

/-- Packets of a server after the handshake. -/
def serverPackets : PacketParameters where
  version := .quic41
  header := ⟨.isServer, 7, .packet0Byte, false, 0, none⟩
  encryptionLevel := .forwardSecure
  maxPlaintextSize := 1338
  packetNumberLength := 1
  room := by decide
  small := by decide
  numberLength := by decide

theorem serializePacket_exact_iff_padded :
    ∃ c, Machine.run PacketBuilder.builderStep (initial serverPackets)
      [.addFrame (.stream 5 false 0 [1, 2, 3]), .addFrame .ping, .padFully] = some c ∧
      c.currentSize ≤ c.parameters.maxPlaintextSize ∧ c.SizeExact := by
  obtain ⟨hle, hiff⟩ := serializePacket_exact_iff serverPackets
    [.addFrame (.stream 5 false 0 [1, 2, 3]), .addFrame .ping, .padFully] rfl
  refine ⟨_, rfl, hle,
    hiff.2 ⟨⟨fun f hf _ => ?_, fun ack hack => ?_, fun lead n heq => ?_⟩, .inr (.inl rfl)⟩⟩
  · rcases List.mem_pair.1 hf with rfl | rfl
    · trivial
    · trivial
  · rcases List.mem_pair.1 hack with heq | heq
    · cases heq
    · cases heq
  · have hlast : some ping = some (.padding n) := (congrArg List.getLast? heq).trans List.getLast?_concat
    cases hlast

/-- 256 packets have been made with numbers of one byte, and the next one asks for the first of them. -/
def lateStopWaiting : List BuilderCall :=
  (List.replicate 256 [.addFrame .ping, .flush]).flatten ++ [.addFrame (.stopWaiting 1)]

theorem serializePacket_exact_stopWaiting :
    ∃ c, Machine.run PacketBuilder.builderStep (initial serverPackets) lateStopWaiting = some c ∧
      c.currentSize = 4 ∧ c.parameters.maxPlaintextSize = 1338 ∧
      (∃ c', c.serializePacket = some (c', none)) ∧ ¬c.SizeExact := by
  obtain ⟨c, hrun, heq⟩ := map_eq_some_iff.1 (by decide +kernel :
    (Machine.run PacketBuilder.builderStep (initial serverPackets) lateStopWaiting).map (fun c =>
      (c.currentSize, c.parameters.maxPlaintextSize, c.serializePacket.map fun r => r.2.isNone)) =
      some (4, 1338, some true))
  obtain ⟨hsize, hmax, hnone⟩ := Prod.mk.injEq .. ▸ Prod.mk.injEq .. ▸ heq
  obtain ⟨⟨c', r⟩, hserialize, hr⟩ := map_eq_some_iff.1 hnone
  cases isNone_iff_eq_none.1 hr
  refine ⟨c, hrun, hsize, hmax, ⟨c', hserialize⟩, ?_⟩
  rintro ⟨c'', r, hexact, w, hw, -⟩
  cases hserialize.symm.trans hexact
  cases hw

end PacketBuilder

end Puic
