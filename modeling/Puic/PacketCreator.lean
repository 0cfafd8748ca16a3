/-
  The open packet (`QuicPacketCreator`).

  Frames are added to an open packet as long as they fit, and the packet is serialized
  when it is full or flushed.  A frame is known here by its length; of a STREAM frame
  the part of the stream that it carries is kept, too.  The size of the open packet is
  counted up frame by frame, while a STREAM frame costs two bytes more as soon as it is
  not the last one.

  `Sized`: the count is right, and no packet is larger than `max_plaintext_size_`.
  `Adds`: what a call adds to the packets and to the padding that is due.
-/
import Puic.Frames
import Puic.UnackedPacketMap
import Puic.WriteScheduler

namespace Puic

open List

/-! ## Frames and packets -/

/-- A STREAM frame, without its bytes. -/
structure StreamChunk where
  streamId : ℕ
  fin : Bool
  offset : ℕ
  dataLength : ℕ
deriving Repr, DecidableEq

/-- A frame of an open packet; the lengths of ACK, control and padding frames are given. -/
inductive PacketFrame where
  | stream (frame : StreamChunk)
  | ack (length : ℕ)
  | stopWaiting
  | control (length : ℕ)
  | padding (length : ℕ)
deriving Repr, DecidableEq

def getMinStreamFrameSize (v : TransportVersion) (streamId offset : ℕ)
    (lastFrameInPacket : Bool) : ℕ :=
  1 + getStreamIdSize streamId + getStreamOffsetSize v offset + if lastFrameInPacket then 0 else 2

/-- `GetMinAckFrameSize` for a number of six bytes. -/
def kMinAckFrameSize : ℕ := 10

namespace PacketFrame

def computeFrameLength (v : TransportVersion) (packetNumberLength : ℕ) (last : Bool) :
    PacketFrame → ℕ
  | .stream f => getMinStreamFrameSize v f.streamId f.offset last + f.dataLength
  | .ack n => n
  | .stopWaiting => 1 + packetNumberLength
  | .control n => n
  | .padding n => n

/-- `ShouldRetransmit`. -/
def shouldRetransmit : PacketFrame → Bool
  | .stream _ => true
  | .control _ => true
  | _ => false

/-- Only an ACK is cut to the length it is given. -/
def cut (length : ℕ) : PacketFrame → PacketFrame
  | .ack _ => .ack length
  | f => f

def chunk? : PacketFrame → Option StreamChunk
  | .stream f => some f
  | _ => none

end PacketFrame

/-- The parts of the header that do not change from one packet to the next.  A packet has room for a
    header and the largest head of a STREAM frame, and more. -/
structure PacketLayout where
  version : TransportVersion
  connectionIdLength : ℕ
  sendVersionInPacket : Bool
  includeNonce : Bool
  maxPlaintextSize : ℕ
  connectionId_le : connectionIdLength ≤ 8
  room : 66 < maxPlaintextSize

/-- `GetPacketHeaderSize`. -/
def PacketLayout.headerSize (l : PacketLayout) (packetNumberLength : ℕ) : ℕ :=
  1 + l.connectionIdLength + (if l.sendVersionInPacket then 4 else 0) + packetNumberLength +
    if l.includeNonce then 32 else 0

/-- What `BuildDataPacket` writes for the frames: the last one goes without its length. -/
def framesSize (v : TransportVersion) (packetNumberLength : ℕ) : List PacketFrame → ℕ
  | [] => 0
  | f :: fs => f.computeFrameLength v packetNumberLength fs.isEmpty + framesSize v
      packetNumberLength fs

structure DataPacket where
  packetNumberLength : ℕ
  frames : List PacketFrame
deriving Repr, DecidableEq

def DataPacket.plaintextSize (l : PacketLayout) (p : DataPacket) : ℕ :=
  l.headerSize p.packetNumberLength + framesSize l.version p.packetNumberLength p.frames

/-- The steps that make a packet. -/
inductive SerializeStep where
  | header
  | typeByte
  | streamFrame
  | encryption
deriving Repr, DecidableEq

/-- What is around the generator: the delegate's answer to every question, with and without a
    connection, the length of the packet numbers after every packet, where in the handshake data
    a CHLO begins, the step that fails in each packet, and `last_packet_decrypted_`. -/
structure GeneratorDelegate where
  shouldGeneratePacket : Bool → ℕ → Bool
  packetNumberLength : ℕ → ℕ
  packetNumberLength_le : ∀ k, packetNumberLength k ≤ 8
  startsWithChlo : ℕ → Bool
  randomPadding : ℕ
  failure : ℕ → Option SerializeStep
  lastPacketDecrypted : Bool

/-! ## The creator -/

structure PacketCreator where
  layout : PacketLayout
  encryptionLevel : EncryptionLevel
  packetNumberLength : ℕ
  queuedFrames : List PacketFrame
  packetSize : ℕ
  pendingPaddingBytes : ℕ
  needsFullPadding : Bool
  /-- What has been serialized. -/
  packets : List DataPacket

namespace PacketCreator

variable (d : GeneratorDelegate) (c : PacketCreator)

/-- `ExpansionOnNewFrame`. -/
def expansionOnNewFrame : ℕ :=
  match c.queuedFrames.getLast? with
  | some (.stream _) => 2
  | _ => 0

/-- `PacketSize`. -/
def currentSize : ℕ :=
  if c.queuedFrames = [] then c.layout.headerSize c.packetNumberLength else c.packetSize

def bytesFree : ℕ :=
  c.layout.maxPlaintextSize - min c.layout.maxPlaintextSize (c.currentSize + c.expansionOnNewFrame)

/-- `GetSerializedFrameLength`: 0 if the frame does not fit. -/
def getSerializedFrameLength (f : PacketFrame) : ℕ :=
  let length := f.computeFrameLength c.layout.version c.packetNumberLength true
  if length ≤ c.bytesFree then length
  else if c.queuedFrames ≠ [] then 0
  else match f with
    | .ack _ => if kMinAckFrameSize ≤ c.bytesFree then c.bytesFree else 0
    | _ => 0

/-- The frame is put at the end of the open packet. -/
def push (f : PacketFrame) (length : ℕ) : PacketCreator :=
  { c with
    queuedFrames := c.queuedFrames ++ [f.cut length]
    packetSize := c.currentSize + c.expansionOnNewFrame + length }

/-- `MaybeAddPadding`, or nothing if it does not return.  The padding that is due has the type
    `int16_t`, and a negative one fills the packet.  If nothing is left of it, the padding does
    not fit, so that the packet is flushed and the same padding is due again: this never ends. -/
def maybeAddPadding : Option PacketCreator :=
  if c.bytesFree = 0 then some c
  else if !c.needsFullPadding ∧ c.pendingPaddingBytes = 0 then some c
  else if c.needsFullPadding then some (c.push (.padding c.bytesFree) c.bytesFree)
  else
    let n := min ((c.pendingPaddingBytes : ℤ).bmod 65536) c.bytesFree
    let length := if n < 0 then c.bytesFree else n.toNat
    if n = 0 then none
    else some { c.push (.padding length) length with
      pendingPaddingBytes := ((c.pendingPaddingBytes - n) % 18446744073709551616).toNat }

/-- `OnSerializedPacket`: the packet goes to the delegate. -/
def onSerializedPacket (frames : List PacketFrame) : PacketCreator :=
  { c with
    queuedFrames := []
    packetSize := 0
    needsFullPadding := false
    packets := c.packets ++ [⟨c.packetNumberLength, frames⟩]
    packetNumberLength := d.packetNumberLength c.packets.length }

def hasRoomForStreamFrame (streamId offset : ℕ) : Bool :=
  getMinStreamFrameSize c.layout.version streamId offset true < c.bytesFree

def createStreamFrame (streamId writeLength iovOffset offset : ℕ) (fin : Bool) : StreamChunk :=
  if iovOffset = writeLength then ⟨streamId, true, offset, 0⟩
  else
    let dataSize := writeLength - iovOffset
    let bytesConsumed :=
      min (c.bytesFree - getMinStreamFrameSize c.layout.version streamId offset true) dataSize
    ⟨streamId, fin && bytesConsumed = dataSize, offset, bytesConsumed⟩

/-- `StreamFrameStartsWithChlo`, for the client. -/
def streamFrameStartsWithChlo (f : StreamChunk) : Bool :=
  f.streamId = kCryptoStreamId && decide (4 ≤ f.dataLength) && d.startsWithChlo f.offset

/-- `CreateAndSerializeStreamFrame`: a packet with one STREAM frame. -/
def createAndSerializeStreamFrame (streamId writeLength iovOffset offset : ℕ) (fin : Bool) :
    PacketCreator × ℕ :=
  let remainingDataSize := writeLength - iovOffset
  let minFrameSize := getMinStreamFrameSize c.layout.version streamId offset true
  let availableSize :=
    c.layout.maxPlaintextSize - c.layout.headerSize c.packetNumberLength - minFrameSize
  let bytesConsumed := min availableSize remainingDataSize
  let frame : StreamChunk :=
    ⟨streamId, fin && bytesConsumed = remainingDataSize, offset, bytesConsumed⟩
  (c.onSerializedPacket d [.stream frame], bytesConsumed)

/-! ## Sizes -/

/-- All STREAM frames so far, in order. -/
def chunks : List StreamChunk :=
  (c.packets.flatMap (·.frames) ++ c.queuedFrames).filterMap PacketFrame.chunk?

structure Sized : Prop where
  length : c.packetNumberLength ≤ 8
  size : c.queuedFrames ≠ [] →
    c.packetSize = (⟨c.packetNumberLength, c.queuedFrames⟩ : DataPacket).plaintextSize c.layout
  fits : c.queuedFrames ≠ [] → c.packetSize ≤ c.layout.maxPlaintextSize
  packets : ∀ p ∈ c.packets, p.plaintextSize c.layout ≤ c.layout.maxPlaintextSize

end PacketCreator

section Sizes

variable {v : TransportVersion} {n streamId offset : ℕ}

theorem getStreamIdSize_le : getStreamIdSize streamId ≤ 4 := by
  unfold getStreamIdSize
  split_ifs <;> omega

theorem getStreamOffsetSize_le : getStreamOffsetSize v offset ≤ 8 := by
  unfold getStreamOffsetSize
  cases v <;> dsimp only <;> split_ifs <;> omega

theorem getMinStreamFrameSize_le : getMinStreamFrameSize v streamId offset true ≤ 13 := by
  have hid : getStreamIdSize streamId ≤ 4 := getStreamIdSize_le
  have hoffset : getStreamOffsetSize v offset ≤ 8 := getStreamOffsetSize_le
  unfold getMinStreamFrameSize
  rw [if_pos rfl]
  omega

theorem PacketLayout.headerSize_le (l : PacketLayout) (hn : n ≤ 8) : l.headerSize n ≤ 53 := by
  have := l.connectionId_le
  unfold PacketLayout.headerSize
  split_ifs <;> omega

/-- A STREAM frame that was the last one gets its length when another frame is added. -/
theorem framesSize_append (fs : List PacketFrame) (f : PacketFrame) :
    framesSize v n (fs ++ [f]) =
      framesSize v n fs + (match fs.getLast? with | some (.stream _) => 2 | _ => 0) +
        f.computeFrameLength v n true := by
  induction fs with
  | nil => simp [framesSize]
  | cons g fs ih =>
    cases fs with
    | nil =>
      cases g <;> simp [framesSize, PacketFrame.computeFrameLength, getMinStreamFrameSize]
      omega
    | cons g' fs =>
      have hcons : framesSize v n (g :: g' :: fs) =
          g.computeFrameLength v n false + framesSize v n (g' :: fs) := rfl
      rw [cons_append, framesSize, ih, hcons, getLast?_cons_cons]
      simp only [cons_append, isEmpty_cons]
      omega

end Sizes

namespace PacketCreator

variable {d : GeneratorDelegate} {c c' : PacketCreator} {f : PacketFrame}

theorem Sized.currentSize_eq (h : c.Sized) :
    c.currentSize = (⟨c.packetNumberLength, c.queuedFrames⟩ : DataPacket).plaintextSize
      c.layout := by
  unfold currentSize
  split
  · next hq => rw [hq]; rfl
  · next hq => exact h.size hq

variable {length : ℕ} {frames : List PacketFrame} {c₁ : PacketCreator} {fs gs : List StreamChunk}

theorem Sized.push (h : c.Sized) (hpos : 0 < length) (hfree : length ≤ c.bytesFree)
    (hlen : (f.cut length).computeFrameLength c.layout.version c.packetNumberLength true = length) :
    (c.push f length).Sized where
  length := h.length
  size _ := by
    unfold DataPacket.plaintextSize
    dsimp only [PacketCreator.push]
    rw [framesSize_append, hlen, h.currentSize_eq]
    unfold DataPacket.plaintextSize expansionOnNewFrame
    dsimp only
    omega
  fits _ := by
    show c.currentSize + c.expansionOnNewFrame + length ≤ c.layout.maxPlaintextSize
    unfold bytesFree at hfree
    omega
  packets := h.packets

/-- Whatever is not zero is the length of the frame, and there is room for it. -/
theorem getSerializedFrameLength_spec (hn : c.getSerializedFrameLength f ≠ 0) :
    c.getSerializedFrameLength f ≤ c.bytesFree ∧
      (f.cut (c.getSerializedFrameLength f)).computeFrameLength c.layout.version
        c.packetNumberLength true =
        c.getSerializedFrameLength f := by
  have hsame : (f.cut
      (f.computeFrameLength c.layout.version c.packetNumberLength true)).computeFrameLength
      c.layout.version c.packetNumberLength true =
        f.computeFrameLength c.layout.version c.packetNumberLength true := by
    cases f <;> rfl
  unfold getSerializedFrameLength at hn ⊢
  dsimp only at hn ⊢
  split
  · next hle => exact ⟨hle, hsame⟩
  · next hle =>
    rw [if_neg hle] at hn
    split at hn
    · exact absurd rfl hn
    · split
      · exact absurd (by assumption) (by assumption)
      · cases f with
        | ack n =>
          dsimp only at hn ⊢
          split at hn
          · next hack => rw [if_pos hack]; exact ⟨le_rfl, rfl⟩
          · exact absurd rfl hn
        | _ => exact absurd rfl hn

theorem Sized.onSerializedPacket (h : c.Sized)
    (hsize : (⟨c.packetNumberLength, frames⟩ : DataPacket).plaintextSize c.layout ≤
      c.layout.maxPlaintextSize) :
    (c.onSerializedPacket d frames).Sized where
  length := d.packetNumberLength_le _
  size hq := absurd rfl hq
  fits hq := absurd rfl hq
  packets p hp := by
    rcases mem_append.1 hp with hp | hp
    · exact h.packets p hp
    · rw [mem_singleton.1 hp]
      exact hsize

theorem Sized.plaintextSize_le (h : c.Sized) :
    (⟨c.packetNumberLength, c.queuedFrames⟩ : DataPacket).plaintextSize c.layout ≤
      c.layout.maxPlaintextSize := by
  by_cases hq : c.queuedFrames = []
  · have := c.layout.headerSize_le h.length
    have := c.layout.room
    rw [hq]
    unfold DataPacket.plaintextSize framesSize
    dsimp only
    omega
  · rw [← h.size hq]
    exact h.fits hq

/-! ## What a call adds -/

/-- The creator has got the STREAM frames `fs`, `n` bytes of padding that are due, and whatever
    else. -/
structure Adds (n : ℕ) (c c' : PacketCreator) (fs : List StreamChunk) : Prop where
  layout : c'.layout = c.layout
  level : c'.encryptionLevel = c.encryptionLevel
  chunks : c'.chunks = c.chunks ++ fs
  sized : c'.Sized
  padding : c.pendingPaddingBytes + n < 32768 → c'.pendingPaddingBytes ≤ c.pendingPaddingBytes + n

variable {n : ℕ}

theorem Adds.refl (h : c.Sized) : Adds n c c [] :=
  ⟨rfl, rfl, (append_nil _).symm, h, fun _ => Nat.le_add_right _ _⟩

theorem Adds.trans {m : ℕ} (h : Adds n c c₁ fs) (h' : Adds m c₁ c' gs) :
    Adds (n + m) c c' (fs ++ gs) where
  layout := h'.layout.trans h.layout
  level := h'.level.trans h.level
  chunks := by rw [h'.chunks, h.chunks, append_assoc]
  sized := h'.sized
  padding hlt := by
    have := h.padding (by omega)
    have := h'.padding (by omega)
    omega

theorem Adds.mono {m : ℕ} (h : Adds n c c' fs) (hle : n ≤ m) : Adds m c c' fs :=
  ⟨h.layout, h.level, h.chunks, h.sized,
    fun hlt => (h.padding (by omega)).trans (Nat.add_le_add_left hle _)⟩

theorem Adds.setPending {pending : ℕ} (h : Adds 0 c c' fs)
    (hle : c.pendingPaddingBytes + n < 32768 → pending ≤ c.pendingPaddingBytes + n) :
    Adds n c { c' with pendingPaddingBytes := pending } fs where
  layout := h.layout
  level := h.level
  chunks := h.chunks
  sized := ⟨h.sized.length, h.sized.size, h.sized.fits, h.sized.packets⟩
  padding := hle

theorem chunks_push (length : ℕ) : (c.push f length).chunks = c.chunks ++ f.chunk?.toList := by
  unfold chunks PacketCreator.push
  cases f <;> simp [PacketFrame.cut, PacketFrame.chunk?]

theorem chunks_onSerializedPacket (hq : frames = c.queuedFrames ∨ c.queuedFrames = []) :
    (c.onSerializedPacket d frames).chunks =
      c.chunks ++ if frames = c.queuedFrames then [] else frames.filterMap PacketFrame.chunk? := by
  unfold chunks PacketCreator.onSerializedPacket
  rw [flatMap_append, flatMap_singleton, append_nil, filterMap_append, filterMap_append]
  split
  · next heq => rw [heq, append_nil]
  · next hne => simp [hq.resolve_left hne]

theorem adds_padding (h : c.Sized) (hpos : 0 < length) (hle : length ≤ c.bytesFree) :
    Adds 0 c (c.push (.padding length) length) [] where
  layout := rfl
  level := rfl
  chunks := chunks_push _
  sized := h.push hpos hle rfl
  padding _ := Nat.le_refl _

theorem bmod_eq_zero_iff (n : ℕ) : (n : ℤ).bmod 65536 = 0 ↔ n % 65536 = 0 := by
  unfold Int.bmod
  dsimp only
  split <;> omega

/-- The padding that is due has no length. -/
def EndlessPadding (c : PacketCreator) : Prop :=
  0 < c.bytesFree ∧ c.needsFullPadding = false ∧ 0 < c.pendingPaddingBytes ∧
    c.pendingPaddingBytes % 65536 = 0

theorem maybeAddPadding_of_endless (h : c.EndlessPadding) : c.maybeAddPadding = none := by
  obtain ⟨hfree, hfull, hpos, hmod⟩ := h
  have hzero : min ((c.pendingPaddingBytes : ℤ).bmod 65536) c.bytesFree = 0 := by
    rw [(bmod_eq_zero_iff _).2 hmod]
    omega
  unfold maybeAddPadding
  rw [if_neg hfree.ne', if_neg (by omega), if_neg (by simp [hfull]), if_pos hzero]

/-- A frame that has no room in a packet with other frames has none after a padding. -/
structure Fills (c c' : PacketCreator) : Prop where
  queued : c.queuedFrames ≠ [] → c'.queuedFrames ≠ []
  full : ∀ f, c.queuedFrames ≠ [] → c.getSerializedFrameLength f = 0 →
    c'.getSerializedFrameLength f = 0

theorem Fills.refl : Fills c c := ⟨fun hq => hq, fun _ _ h0 => h0⟩

theorem getSerializedFrameLength_eq_zero (hq : c.queuedFrames ≠ []) :
    c.getSerializedFrameLength f = 0 ↔
      f.computeFrameLength c.layout.version c.packetNumberLength true = 0 ∨
        c.bytesFree < f.computeFrameLength c.layout.version c.packetNumberLength true := by
  unfold getSerializedFrameLength
  dsimp only
  split
  · omega
  · next hlt => exact ⟨fun _ => .inr (Nat.lt_of_not_le hlt), fun _ => rfl⟩

theorem bytesFree_push (f : PacketFrame) (length : ℕ) :
    (c.push f length).bytesFree ≤ c.bytesFree - length := by
  have hsize : (c.push f length).currentSize = c.currentSize + c.expansionOnNewFrame + length :=
    if_neg (append_ne_nil_of_right_ne_nil _ (cons_ne_nil _ _))
  have hlayout : (c.push f length).layout = c.layout := rfl
  unfold bytesFree
  rw [hsize, hlayout]
  omega

theorem fills_padding (length pending : ℕ) :
    Fills c { c.push (.padding length) length with pendingPaddingBytes := pending } where
  queued _ := append_ne_nil_of_right_ne_nil _ (cons_ne_nil _ _)
  full f hq h0 := by
    rw [getSerializedFrameLength_eq_zero (append_ne_nil_of_right_ne_nil _ (cons_ne_nil _ _))]
    rw [getSerializedFrameLength_eq_zero hq] at h0
    have hfree : (c.push (.padding length) length).bytesFree ≤ c.bytesFree :=
      (bytesFree_push _ _).trans (Nat.sub_le _ _)
    exact h0.imp_right hfree.trans_lt

theorem exists_maybeAddPadding (hs : c.Sized) (h : ¬c.EndlessPadding) :
    ∃ c', c.maybeAddPadding = some c' ∧ Adds 0 c c' [] ∧ Fills c c' := by
  unfold maybeAddPadding
  split
  · exact ⟨c, rfl, .refl hs, .refl⟩
  next hfree =>
  split
  · exact ⟨c, rfl, .refl hs, .refl⟩
  next hpad =>
  split
  · exact ⟨_, rfl, adds_padding hs (Nat.pos_of_ne_zero hfree) le_rfl, fills_padding _ _⟩
  next hfull =>
  have hpending : c.pendingPaddingBytes ≠ 0 := fun h0 => hpad ⟨by simpa using hfull, h0⟩
  have hsmall : c.pendingPaddingBytes < 32768 →
      (c.pendingPaddingBytes : ℤ).bmod 65536 = c.pendingPaddingBytes := by
    intro hlt
    unfold Int.bmod
    dsimp only
    split <;> omega
  have hne : (c.pendingPaddingBytes : ℤ).bmod 65536 ≠ 0 := fun hzero =>
    h ⟨Nat.pos_of_ne_zero hfree, by simpa using hfull, Nat.pos_of_ne_zero hpending,
      (bmod_eq_zero_iff _).1 hzero⟩
  generalize (c.pendingPaddingBytes : ℤ).bmod 65536 = b at hsmall hne
  rw [if_neg (by omega)]
  refine ⟨_, rfl, (adds_padding hs ?_ ?_).setPending fun hlt => ?_, fills_padding _ _⟩
  · split <;> omega
  · split <;> omega
  · omega

theorem adds_push (h : c.Sized) (hlength : c.getSerializedFrameLength f = length)
    (hn : length ≠ 0) :
    Adds 0 c (c.push f length) f.chunk?.toList := by
  subst hlength
  obtain ⟨hfree, hlen⟩ := getSerializedFrameLength_spec hn
  exact ⟨rfl, rfl, chunks_push _, h.push (Nat.pos_of_ne_zero hn) hfree hlen, fun _ => Nat.le_refl _⟩

theorem expansion_of_empty (hq : c.queuedFrames = []) : c.expansionOnNewFrame = 0 := by
  unfold expansionOnNewFrame
  rw [hq]
  rfl

theorem bytesFree_of_empty (hq : c.queuedFrames = []) :
    c.bytesFree = c.layout.maxPlaintextSize - c.layout.headerSize c.packetNumberLength := by
  unfold bytesFree currentSize
  rw [expansion_of_empty hq, if_pos hq]
  omega

theorem hasRoomForStreamFrame_of_empty (h : c.Sized) (hq : c.queuedFrames = [])
    (streamId offset : ℕ) :
    c.hasRoomForStreamFrame streamId offset = true := by
  have hheader := c.layout.headerSize_le h.length
  have hframe : getMinStreamFrameSize c.layout.version streamId offset true ≤ 13 :=
    getMinStreamFrameSize_le
  have hroom := c.layout.room
  unfold hasRoomForStreamFrame
  rw [bytesFree_of_empty hq, decide_eq_true_eq]
  omega

/-- A frame that starts at `iovOffset` of a write: it is not empty unless nothing is left, and it
    has the FIN if it ends the write. -/
structure Cuts (f : StreamChunk) (streamId writeLength iovOffset offset : ℕ) (fin : Bool) :
    Prop where
  streamId : f.streamId = streamId
  offset : f.offset = offset
  within : iovOffset + f.dataLength ≤ writeLength
  pos : iovOffset < writeLength → 0 < f.dataLength
  fin : f.fin = (fin && iovOffset + f.dataLength = writeLength)

section Consume

variable {streamId writeLength iovOffset offset : ℕ} {fin : Bool}

theorem cuts_createStreamFrame (hroom : c.hasRoomForStreamFrame streamId offset = true)
    (hle : iovOffset ≤ writeLength)
    (hfin : iovOffset = writeLength → fin = true) :
    Cuts (c.createStreamFrame streamId writeLength iovOffset offset fin)
    streamId writeLength iovOffset offset fin := by
  have hfree := of_decide_eq_true hroom
  unfold createStreamFrame
  split
  · next heq =>
    refine ⟨rfl, rfl, hle, fun hlt => by omega, ?_⟩
    simp [heq, hfin heq]
  · next hne =>
    refine ⟨rfl, rfl, ?_, fun _ => ?_, ?_⟩
    · dsimp only
      omega
    · dsimp only
      omega
    · dsimp only
      congr 1
      rw [decide_eq_decide]
      omega

/-- The frame that is cut fits into what is free, and fills it if something is left of the write. -/
theorem createStreamFrame_spec {f : StreamChunk}
    (hroom : c.hasRoomForStreamFrame streamId offset = true)
    (hf : c.createStreamFrame streamId writeLength iovOffset offset fin = f) :
    f.streamId = streamId ∧ c.getSerializedFrameLength (.stream f) ≠ 0 ∧
      (iovOffset + f.dataLength < writeLength →
        c.getSerializedFrameLength (.stream f) = c.bytesFree) := by
  have hfree := of_decide_eq_true hroom
  have hpos : 0 < getMinStreamFrameSize c.layout.version streamId offset true := by
    unfold getMinStreamFrameSize
    omega
  have hlen : ∀ fin n, n ≤ c.bytesFree - getMinStreamFrameSize c.layout.version streamId offset
      true →
      c.getSerializedFrameLength (.stream ⟨streamId, fin, offset, n⟩) =
        getMinStreamFrameSize c.layout.version streamId offset true + n :=
    fun fin n hn => if_pos
      (show getMinStreamFrameSize c.layout.version streamId offset true + n ≤ _ by omega)
  subst hf
  unfold createStreamFrame
  split
  · rw [hlen _ _ (Nat.zero_le _)]
    exact ⟨rfl, by omega, fun hlt => absurd hlt (by dsimp only; omega)⟩
  · dsimp only
    rw [hlen _ _ (Nat.min_le_left _ _)]
    exact ⟨rfl, by omega, fun hlt => by omega⟩

theorem createAndSerializeStreamFrame_spec (d : GeneratorDelegate) (streamId offset : ℕ)
    (fin : Bool) (h : c.Sized)
    (hq : c.queuedFrames = []) (hlt : iovOffset < writeLength) :
    ∃ f, (c.createAndSerializeStreamFrame d streamId writeLength iovOffset offset fin).2 =
      f.dataLength ∧
      Cuts f streamId writeLength iovOffset offset fin ∧
      Adds 0 c (c.createAndSerializeStreamFrame d streamId writeLength iovOffset offset fin).1
        [f] := by
  have hheader := c.layout.headerSize_le h.length
  have hframe : getMinStreamFrameSize c.layout.version streamId offset true ≤ 13 :=
    getMinStreamFrameSize_le
  have hroom := c.layout.room
  unfold createAndSerializeStreamFrame
  refine ⟨⟨streamId, _, offset, _⟩, rfl, ⟨rfl, rfl, ?_, fun _ => ?_, ?_⟩, rfl, rfl,
    (chunks_onSerializedPacket (.inr hq)).trans (by rw [if_neg (by simp [hq])]; rfl), ?_, fun _ =>
      Nat.le_refl _⟩
  · dsimp only
    omega
  · dsimp only
    omega
  · dsimp only
    congr 1
    rw [decide_eq_decide]
    omega
  · refine h.onSerializedPacket ?_
    unfold DataPacket.plaintextSize framesSize framesSize PacketFrame.computeFrameLength
    dsimp only [isEmpty]
    omega

end Consume

end PacketCreator

end Puic
