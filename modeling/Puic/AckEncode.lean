/-
  Writing ACK frames (`AppendAckFrameAndTypeByte` of quic_framer.cc).

  The intervals go out from the newest one downwards.  A gap of more than 255 packets
  takes several blocks, all but the last of them empty; at most 255 blocks are written,
  and no more than fit.  Timestamps come last, all of them or none.

  * `appendAckFrameAndTypeByte_iff`: what is written, as one list of bytes;
  * `reads_headBytes`, `reads_processAckBlocks`, `reads_timestamps`: `ProcessAckFrame` reads it back.
-/
import Puic.AckParse

namespace Puic

open Wire GapList Writer Reads List

/-! ## The source -/

/-- `GetMinPacketNumberLength`. -/
def getMinPacketNumberLength (v : TransportVersion) (n : ℕ) : ℕ :=
  if n < 2 ^ 8 then 1
  else if n < 2 ^ 16 then 2
  else if n < 2 ^ 32 then 4
  else if v = .quic39 then 6 else 8

/-- `GetPacketNumberFlags`. -/
def getPacketNumberFlags (length : ℕ) : ℕ :=
  match length with
  | 1 => 0
  | 2 => 1
  | 4 => 2
  | _ => 3

structure AckFrameInfo where
  firstBlockLength : ℕ
  maxBlockLength : ℕ
  numAckBlocks : ℕ
deriving Repr, DecidableEq

/-- How many blocks a gap takes, in `uint64_t`. -/
def numEncodedGaps (totalGap : ℕ) : ℕ := wrap64 (totalGap + 254) / 255

/-- The loop of `GetAckFrameInfo`, over the intervals below the newest. -/
def ackFrameInfo : ℕ → AckFrameInfo → List Gap → AckFrameInfo
  | _, info, [] => info
  | previousStart, info, g :: gs =>
    if info.numAckBlocks < 255 then
      ackFrameInfo g.lo { info with
        numAckBlocks := info.numAckBlocks + numEncodedGaps (previousStart - g.hi)
        maxBlockLength := max info.maxBlockLength (g.hi - g.lo) } gs
    else info

def getAckFrameInfo (packets : PacketNumberQueue) : AckFrameInfo :=
  match packets.intervals.reverse with
  | [] => ⟨0, 0, 0⟩
  | g :: gs => ackFrameInfo g.lo ⟨g.hi - g.lo, g.hi - g.lo, 0⟩ gs

def getMinAckFrameSize (largestObservedLength : ℕ) : ℕ := 1 + largestObservedLength + 2 + 1

def getAckFrameTimeStampSize (times : List (ℕ × ℕ)) : ℕ :=
  if times = [] then 0 else 5 + 3 * (times.length - 1)

namespace QuicAckFrame

variable (v : TransportVersion) (frame : QuicAckFrame) (room : ℕ)

def info : AckFrameInfo := getAckFrameInfo frame.packets

/-- The lengths of the two kinds of numbers in a frame. -/
def largestLength : ℕ := getMinPacketNumberLength v frame.packets.largest

def blockLength : ℕ := getMinPacketNumberLength v frame.info.maxBlockLength

def timeStampSize : ℕ := getAckFrameTimeStampSize frame.receivedPacketTimes

/-- `GetAckFrameSize`. -/
def size : ℕ :=
  getMinAckFrameSize (frame.largestLength v) + frame.blockLength v +
    (if frame.info.numAckBlocks ≠ 0 then
      1 + min frame.info.numAckBlocks 255 * (frame.blockLength v + 1) else 0) + frame.timeStampSize

/-- `GetSerializedFrameLength`. -/
def serializedLength (firstFrame : Bool) : ℕ :=
  if frame.size v ≤ room then frame.size v
  else if !firstFrame then 0
  else if getMinAckFrameSize 6 ≤ room then room
  else 0

/-- The bytes for timestamps and blocks, before they become an `int32_t`. -/
def available : ℤ :=
  room - frame.blockLength v - getMinAckFrameSize (frame.largestLength v) -
    if frame.info.numAckBlocks ≠ 0 then 1 else 0

/-- How many blocks are written: the `int32_t` is divided towards zero and becomes a `size_t`. -/
def numBlocks : ℕ :=
  let maxNumAckBlocks :=
    (((frame.available v room).bmod (2 ^ 32)).tdiv (frame.blockLength v + 1) % 2 ^ 64).toNat
  min (min frame.info.numAckBlocks maxNumAckBlocks) 255

def typeByte : UInt8 :=
  let hasBlocks := if frame.info.numAckBlocks ≠ 0 then 1 else 0
  UInt8.ofNat ((if v = .quic39 then 0x40 else 0xa0) ||| (hasBlocks <<< hasMultipleAckBlocksOffset v) |||
    (getPacketNumberFlags (frame.largestLength v) <<< 2) ||| getPacketNumberFlags (frame.blockLength v))

def delayBytes : List UInt8 :=
  encode 2 (UFloat16.ofValue (frame.ackDelayTime.getD UFloat16.kUFloat16MaxValue))

end QuicAckFrame

/-- The blocks that are written for the intervals below `previousStart`, at most `left` of them. -/
def ackBlocks : ℕ → ℕ → List Gap → List (ℕ × ℕ)
  | _, _, [] => []
  | previousStart, left, g :: gs =>
    if left = 0 then []
    else
      let totalGap := previousStart - g.hi
      let num := numEncodedGaps totalGap
      -- empty blocks, because the gap is longer than a single one
      let empties := min (num - 1) left
      List.replicate empties (255, 0) ++ if left - empties = 0 then []
        else ((totalGap + 255 - num * 255) % 256, g.hi - g.lo) :: ackBlocks g.lo (left - empties - 1) gs

variable (largest : ℕ) (v : TransportVersion) (frame : QuicAckFrame)

def QuicAckFrame.blocks (num : ℕ) : List (ℕ × ℕ) :=
  match frame.packets.intervals.reverse with
  | [] => []
  | g :: gs => ackBlocks g.lo num gs

def appendAckBlock (length : ℕ) (w : Writer) (b : ℕ × ℕ) : Option Writer := do
  let w ← w.write [UInt8.ofNat b.1]
  w.write (encode length b.2)

/-- How far a packet number is below the largest one, in `uint64_t`. -/
def deltaFromLargest (largest n : ℕ) : ℕ := wrap64 (largest + 2 ^ 64 - n)

/-- The loop of `AppendTimestampsToAckFrame`. -/
def appendTimestampDeltas (largest : ℕ) : ℕ → List (ℕ × ℕ) → Writer → Option Writer
  | _, [], w => some w
  | prevTime, (n, time) :: times, w =>
    if 255 < deltaFromLargest largest n then none
    else do
      let w ← w.write [UInt8.ofNat (deltaFromLargest largest n)]
      let w ← w.write (encode 2 (UFloat16.ofValue (wrap64 (time + 2 ^ 64 - prevTime))))
      appendTimestampDeltas largest time times w

/-- The timestamps after their number. -/
def appendTimestamps (times : List (ℕ × ℕ)) (w : Writer) : Option Writer :=
  match times with
  | [] => some w
  | (n, time) :: times =>
    if 255 < deltaFromLargest largest n then none
    else do
      let w ← w.write [UInt8.ofNat (deltaFromLargest largest n)]
      let w ← w.write (encode 4 (time % 2 ^ 32))
      appendTimestampDeltas largest time times w

def appendTimestampsToAckFrame (numTimestampsOffset : ℕ) (w : Writer) :
    Option Writer :=
  let count := UInt8.ofNat frame.receivedPacketTimes.length
  if 255 < frame.receivedPacketTimes.length then none
  else (if v = .quic39 then w.write [count] else w.writeAt numTimestampsOffset count).bind
    (appendTimestamps frame.packets.largest frame.receivedPacketTimes)

/-- `AppendAckFrameAndTypeByte` after the number of blocks that version 41 writes first. -/
def appendAckFields (num numTimestampsOffset : ℕ) (w : Writer) :
    Option Writer := do
  let w ← w.write (if v = .quic41 then [0] else [])
  let w ← w.write (encode (frame.largestLength v) frame.packets.largest)
  let w ← w.write frame.delayBytes
  let w ← w.write (if v = .quic39 ∧ 0 < num then [UInt8.ofNat num] else [])
  let w ← w.write (encode (frame.blockLength v) frame.info.firstBlockLength)
  let w ← (frame.blocks num).foldlM (appendAckBlock (frame.blockLength v)) w
  if frame.timeStampSize ≤ w.room then appendTimestampsToAckFrame v frame numTimestampsOffset w
  else w.write [0]

/-- `AppendAckFrameAndTypeByte`. -/
def appendAckFrameAndTypeByte (w : Writer) : Option Writer := do
  let num := frame.numBlocks v w.room
  let w ← w.write [frame.typeByte v]
  let w ← w.write (if v = .quic41 ∧ 0 < num then [UInt8.ofNat num] else [])
  appendAckFields v frame num w.data.length w

/-! ## The bytes -/

def blockBytes (length : ℕ) (blocks : List (ℕ × ℕ)) : List UInt8 :=
  blocks.flatMap fun b => UInt8.ofNat b.1 :: encode length b.2

def timestampDeltaBytes (largest : ℕ) : ℕ → List (ℕ × ℕ) → List UInt8
  | _, [] => []
  | prevTime, (n, time) :: times =>
    UInt8.ofNat (deltaFromLargest largest n) ::
      (encode 2 (UFloat16.ofValue (wrap64 (time + 2 ^ 64 - prevTime))) ++
        timestampDeltaBytes largest time times)

def timestampBytes : List (ℕ × ℕ) → List UInt8
  | [] => []
  | (n, time) :: times =>
    UInt8.ofNat (deltaFromLargest largest n) ::
      (encode 4 (time % 2 ^ 32) ++ timestampDeltaBytes largest time times)

/-- The timestamps have one byte for their number, and each one byte for its packet. -/
def TimesEncodable (times : List (ℕ × ℕ)) : Prop :=
  times.length ≤ 255 ∧ ∀ p ∈ times, deltaFromLargest largest p.1 ≤ 255

namespace QuicAckFrame

variable (v : TransportVersion) (frame : QuicAckFrame) (num : ℕ) (numTimestamps : UInt8)

/-- What comes between the type byte and the blocks, with `num` blocks. -/
def headBytes : List UInt8 :=
  let numBytes := if 0 < num then [UInt8.ofNat num] else []
  match v with
  | .quic39 =>
    encode (frame.largestLength v) frame.packets.largest ++ (frame.delayBytes ++ (numBytes ++
      encode (frame.blockLength v) frame.info.firstBlockLength))
  | .quic41 =>
    numBytes ++ (numTimestamps ::
      (encode (frame.largestLength v) frame.packets.largest ++ (frame.delayBytes ++
      encode (frame.blockLength v) frame.info.firstBlockLength)))

/-- What comes between the type byte and the timestamps. -/
def bodyBytes : List UInt8 :=
  frame.headBytes v num numTimestamps ++ blockBytes (frame.blockLength v) (frame.blocks num)

/-- The timestamps, with their number if that has not been written before. -/
def tailBytes : List UInt8 :=
  (if v = .quic39 then [UInt8.ofNat frame.receivedPacketTimes.length] else []) ++
    timestampBytes frame.packets.largest frame.receivedPacketTimes

/-- The frame with its timestamps. -/
def fullBytes : List UInt8 :=
  frame.typeByte v ::
    (frame.bodyBytes v num (UInt8.ofNat frame.receivedPacketTimes.length) ++ frame.tailBytes v)

/-- The frame with a zero in place of the timestamps. -/
def cutBytes : List UInt8 := frame.typeByte v :: (frame.bodyBytes v num 0 ++ [0])

end QuicAckFrame

section Bytes

variable {v : TransportVersion} {frame : QuicAckFrame} {w w' : Writer} {largest prev : ℕ}
    {times : List (ℕ × ℕ)}

theorem foldlM_appendAckBlock (length : ℕ) (blocks : List (ℕ × ℕ)) (w : Writer) :
    blocks.foldlM (appendAckBlock length) w = w.write (blockBytes length blocks) := by
  induction blocks generalizing w with
  | nil => exact write_nil.symm
  | cons b blocks ih =>
    have hb : appendAckBlock length w b = w.write (UInt8.ofNat b.1 :: encode length b.2) := write_write
    rw [foldlM_cons, hb]
    simp only [ih]
    exact write_write

theorem appendTimestampDeltas_eq (h : ∀ p ∈ times, deltaFromLargest largest p.1 ≤ 255) :
    appendTimestampDeltas largest prev times w = w.write (timestampDeltaBytes largest prev times) := by
  induction times generalizing prev w with
  | nil => exact write_nil.symm
  | cons p times ih =>
    rw [appendTimestampDeltas, if_neg (not_lt.2 (h p (.head _)))]
    simp only [ih fun q hq => h q (.tail _ hq)]
    refine write_bind_write.trans (write_write.trans ?_)
    rfl

theorem appendTimestampDeltas_none (h : ¬ ∀ p ∈ times, deltaFromLargest largest p.1 ≤ 255) :
    appendTimestampDeltas largest prev times w = none := by
  induction times generalizing prev w with
  | nil => exact absurd (by simp) h
  | cons p times ih =>
    rw [appendTimestampDeltas]
    split
    · rfl
    next hp =>
    simp only [ih fun hall => h (forall_mem_cons.2 ⟨not_lt.1 hp, hall⟩)]
    simp

theorem appendTimestamps_eq (h : ∀ p ∈ times, deltaFromLargest largest p.1 ≤ 255) :
    appendTimestamps largest times w = w.write (timestampBytes largest times) := by
  cases times with
  | nil => exact write_nil.symm
  | cons p times =>
    rw [appendTimestamps, if_neg (not_lt.2 (h p (.head _)))]
    simp only [appendTimestampDeltas_eq fun q hq => h q (.tail _ hq)]
    refine write_bind_write.trans (write_write.trans ?_)
    rfl

theorem appendTimestamps_none (h : ¬ ∀ p ∈ times, deltaFromLargest largest p.1 ≤ 255) :
    appendTimestamps largest times w = none := by
  cases times with
  | nil => exact absurd (by simp) h
  | cons p times =>
    rw [appendTimestamps]
    split
    · rfl
    next hp =>
    simp only [appendTimestampDeltas_none fun hall => h (forall_mem_cons.2 ⟨not_lt.1 hp, hall⟩)]
    simp

@[simp] theorem length_blockBytes (length : ℕ) (blocks : List (ℕ × ℕ)) :
    (blockBytes length blocks).length = blocks.length * (length + 1) := by
  induction blocks with
  | nil => simp [blockBytes]
  | cons b blocks ih =>
    have hcons : blockBytes length (b :: blocks) = (UInt8.ofNat b.1 :: encode length b.2) ++
        blockBytes length blocks := rfl
    rw [hcons, length_append, ih, length_cons, length_cons, length_encode]
    ring

theorem length_timestampDeltaBytes :
    (timestampDeltaBytes largest prev times).length = 3 * times.length := by
  induction times generalizing prev with
  | nil => rfl
  | cons p times ih =>
    rw [timestampDeltaBytes, length_cons, length_append, length_encode, ih, length_cons]
    omega

theorem length_timestampBytes :
    (timestampBytes largest times).length = getAckFrameTimeStampSize times := by
  cases times with
  | nil => rfl
  | cons p times =>
    rw [timestampBytes, length_cons, length_append, length_encode, length_timestampDeltaBytes,
      getAckFrameTimeStampSize, if_neg (cons_ne_nil _ _), length_cons]
    omega

theorem length_tailBytes :
    (frame.tailBytes v).length = (if v = .quic39 then 1 else 0) + frame.timeStampSize := by
  rw [QuicAckFrame.tailBytes, length_append, length_timestampBytes, QuicAckFrame.timeStampSize]
  cases v <;> rfl

/-- What comes before the number of timestamps that version 41 writes. -/
def QuicAckFrame.front (v : TransportVersion) (frame : QuicAckFrame) (num : ℕ) : List UInt8 :=
  frame.typeByte v :: if v = .quic41 ∧ 0 < num then [UInt8.ofNat num] else []

theorem QuicAckFrame.bodyBytes_quic41 (frame : QuicAckFrame) (num : ℕ) :
    ∃ back, ∀ n, frame.typeByte .quic41 :: frame.bodyBytes .quic41 num n =
      frame.front .quic41 num ++ n :: back := by
  refine ⟨encode (frame.largestLength .quic41) frame.packets.largest ++ (frame.delayBytes ++
      encode (frame.blockLength .quic41) frame.info.firstBlockLength) ++
      blockBytes (frame.blockLength .quic41) (frame.blocks num), fun n => ?_⟩
  simp [bodyBytes, headBytes, front]

theorem appendAckFrameAndTypeByte_eq :
    appendAckFrameAndTypeByte v frame w =
      (w.write (frame.typeByte v :: frame.bodyBytes v (frame.numBlocks v w.room) 0)).bind fun w' =>
        if frame.timeStampSize ≤ w'.room then
          appendTimestampsToAckFrame v frame
            (w.data ++ frame.front v (frame.numBlocks v w.room)).length w'
        else w'.write [0] := by
  refine write_bind_write.trans ?_
  refine (write_bind_congr (g := appendAckFields v frame (frame.numBlocks v w.room)
    (w.data ++ frame.front v (frame.numBlocks v w.room)).length) fun w' _ hd => ?_).trans ?_
  · rw [hd]
    rfl
  unfold appendAckFields
  simp only [foldlM_appendAckBlock]
  refine write_bind_write.trans (write_bind_write.trans (write_bind_write.trans
    (write_bind_write.trans (write_bind_write.trans (write_bind_write.trans ?_)))))
  congr 2
  cases v <;> simp [QuicAckFrame.bodyBytes, QuicAckFrame.headBytes]

theorem appendTimestampsToAckFrame_iff {num : ℕ} {w₁ : Writer}
    (hd : w₁.data = w.data ++ frame.typeByte v :: frame.bodyBytes v num 0) :
    appendTimestampsToAckFrame v frame (w.data ++ frame.front v num).length w₁ = some w' ↔
      TimesEncodable frame.packets.largest frame.receivedPacketTimes ∧ w'.capacity = w₁.capacity ∧
        w'.data = w.data ++ frame.fullBytes v num := by
  unfold appendTimestampsToAckFrame QuicAckFrame.fullBytes
  split
  · next hlong => simp [TimesEncodable, not_le.2 hlong]
  next hshort =>
  by_cases hdelta : ∀ p ∈ frame.receivedPacketTimes, deltaFromLargest frame.packets.largest p.1 ≤ 255
  · have henc : TimesEncodable frame.packets.largest frame.receivedPacketTimes :=
      ⟨not_lt.1 hshort, hdelta⟩
    have hfun : appendTimestamps frame.packets.largest frame.receivedPacketTimes =
        fun w => w.write (timestampBytes frame.packets.largest frame.receivedPacketTimes) :=
      funext fun w => appendTimestamps_eq hdelta
    rw [hfun]
    simp only [henc, true_and]
    cases v with
    | quic39 =>
      rw [if_pos rfl, write_write, write_eq_some, hd, append_assoc, cons_append]
      rfl
    | quic41 =>
      obtain ⟨back, hback⟩ := frame.bodyBytes_quic41 num
      rw [hback, ← append_assoc] at hd
      obtain ⟨w₂, hw₂, hc₂, hd₂⟩ := writeAt_eq hd
      rw [if_neg (by decide), hw₂, Option.bind_some, write_eq_some, hc₂, hd₂, ← cons_append, hback]
      simp [QuicAckFrame.tailBytes]
  · have hfun : appendTimestamps frame.packets.largest frame.receivedPacketTimes = fun _ => none :=
      funext fun w => appendTimestamps_none hdelta
    rw [hfun, Option.bind_fun_none]
    refine ⟨(nomatch ·), ?_⟩
    rintro ⟨⟨-, hall⟩, -⟩
    exact absurd hall hdelta

/-- What `AppendAckFrameAndTypeByte` writes: the timestamps if there is room for them, otherwise a
    zero. -/
theorem appendAckFrameAndTypeByte_iff {num : ℕ} (hnum : frame.numBlocks v w.room = num) :
    appendAckFrameAndTypeByte v frame w = some w' ↔
      (1 + (frame.bodyBytes v num 0).length + frame.timeStampSize ≤ w.room ∧
        TimesEncodable frame.packets.largest frame.receivedPacketTimes ∧
          w.write (frame.fullBytes v num) = some w') ∨
      (w.room < 1 + (frame.bodyBytes v num 0).length + frame.timeStampSize ∧
        w.write (frame.cutBytes v num) = some w') := by
  rw [appendAckFrameAndTypeByte_eq, hnum]
  by_cases hfit : 1 + (frame.bodyBytes v num 0).length + frame.timeStampSize ≤ w.room
  · obtain ⟨w₁, h1⟩ := exists_write.2 (by rw [length_cons]; omega :
      (frame.typeByte v :: frame.bodyBytes v num 0).length ≤ w.room)
    have hroom := room_write h1
    obtain ⟨hc, hd⟩ := write_eq_some.1 h1
    rw [length_cons] at hroom
    rw [h1, Option.bind_some, if_pos (by omega), appendTimestampsToAckFrame_iff hd, hc, write_eq_some]
    simp [hfit]
  · have hcut : ∀ w₁ : Writer, w₁.capacity = w.capacity →
        w₁.data = w.data ++ frame.typeByte v :: frame.bodyBytes v num 0 →
        ¬ frame.timeStampSize ≤ w₁.room := by
      intro w₁ hc hd
      have hle := w₁.le
      unfold room at hfit ⊢
      rw [hc, hd, length_append, length_cons] at hle ⊢
      omega
    rw [write_bind_congr fun w₁ hc hd => if_neg (hcut w₁ hc hd), write_write]
    simp only [hfit, not_le.1 hfit, true_and, false_and, false_or]
    rfl

end Bytes

/-! ## Reading it back -/

section Reading

variable {v : TransportVersion} {frame : QuicAckFrame} {largest prev num : ℕ} {times : List (ℕ × ℕ)}

theorem readAckPacketNumberLength_flags (n : ℕ) :
    readAckPacketNumberLength v (getPacketNumberFlags (getMinPacketNumberLength v n)) =
      getMinPacketNumberLength v n := by
  unfold getMinPacketNumberLength
  split_ifs with h1 h2 h3 h4
  · rfl
  · rfl
  · rfl
  · rw [h4]
    rfl
  · cases v with
    | quic39 => exact absurd rfl h4
    | quic41 => rfl

theorem getPacketNumberFlags_lt (n : ℕ) : getPacketNumberFlags n < 4 := by
  unfold getPacketNumberFlags
  split <;> decide

theorem extractBits_typeByte (v : TransportVersion) (b : Fin 2) (f g : Fin 4) :
    let type := UInt8.ofNat
      ((if v = .quic39 then 0x40 else 0xa0) ||| (b.val <<< hasMultipleAckBlocksOffset v) |||
      (f.val <<< 2) ||| g.val)
    extractBits type 2 0 = g ∧ extractBits type 2 2 = f ∧
      extractBits type 1 (hasMultipleAckBlocksOffset v) = b := by
  cases v
  · revert b f g
    decide
  · revert b f g
    decide

theorem QuicAckFrame.typeByte_fields (v : TransportVersion) (frame : QuicAckFrame) :
    ackBlockLength v (frame.typeByte v) = frame.blockLength v ∧
      largestAckedLength v (frame.typeByte v) = frame.largestLength v ∧
      (extractBit (frame.typeByte v) (hasMultipleAckBlocksOffset v) = true ↔
        frame.info.numAckBlocks ≠ 0) := by
  obtain ⟨h1, h2, h3⟩ :=
    extractBits_typeByte v ⟨if frame.info.numAckBlocks ≠ 0 then 1 else 0, by split <;> decide⟩
    ⟨_, getPacketNumberFlags_lt (frame.largestLength v)⟩
      ⟨_, getPacketNumberFlags_lt (frame.blockLength v)⟩
  refine ⟨?_, ?_, ?_⟩
  · exact (congrArg (readAckPacketNumberLength v) h1).trans (readAckPacketNumberLength_flags _)
  · exact (congrArg (readAckPacketNumberLength v) h2).trans (readAckPacketNumberLength_flags _)
  · unfold extractBit
    rw [decide_eq_true_iff]
    refine (not_congr (Eq.congr_left h3)).trans ?_
    split
    · next hn => simp [hn]
    · next hn => simp at hn; simp [hn]

/-- The delay as the peer gets it. -/
def QuicAckFrame.roundedDelay (frame : QuicAckFrame) : Option ℕ :=
  let delay := UFloat16.round (frame.ackDelayTime.getD UFloat16.kUFloat16MaxValue)
  if delay = UFloat16.kUFloat16MaxValue then none else some delay

/-- What `ProcessAckFrame` reads before the blocks. -/
def QuicAckFrame.header (v : TransportVersion) (frame : QuicAckFrame) (num : ℕ)
    (numTimestamps : UInt8) : AckHeader where
  numAckBlocks := num
  numReceivedPackets := if v = .quic41 then numTimestamps.toNat else 0
  largestAcked := frame.packets.largest % 256 ^ frame.largestLength v
  ackDelay := UFloat16.round (frame.ackDelayTime.getD UFloat16.kUFloat16MaxValue)
  firstBlockLength := frame.info.firstBlockLength % 256 ^ frame.blockLength v

theorem reads_numBytes {c : Prop} [Decidable c] {e : String} (hc : c ↔ 0 < num) (hnum : num ≤ 255) :
    Reads (Reader.uintIf c 1 e 0) (if 0 < num then [UInt8.ofNat num] else []) num := by
  by_cases h : 0 < num
  · rw [if_pos h]
    refine uintIf_pos (hc.2 h) ?_
    have hb := byte (e := e) (UInt8.ofNat num)
    rwa [UInt8.toNat_ofNat', Nat.mod_eq_of_lt (by omega)] at hb
  · rw [if_neg h]
    obtain rfl : num = 0 := by omega
    exact uintIf_neg fun h' => h (hc.1 h')

theorem reads_headBytes (hstep : frame.info.numAckBlocks ≠ 0 ↔ 0 < num) (hnum : num ≤ 255) (n : UInt8) :
    Reads (readAckHeader v (frame.typeByte v)) (frame.headBytes v num n) (frame.header v num n) := by
  obtain ⟨hbl, hll, hblocks⟩ := frame.typeByte_fields v
  have hdelay : ∀ e, Reads (Reader.uint 2 e) frame.delayBytes
      (UFloat16.ofValue (frame.ackDelayTime.getD UFloat16.kUFloat16MaxValue)) :=
    fun e => uint (UFloat16.ofValue_lt _)
  unfold readAckHeader
  rw [hbl, hll]
  cases v with
  | quic39 =>
    refine bind_nil (uintIf_neg (by simp)) ?_
    refine bind_nil (uintIf_neg (by simp)) ?_
    refine bind uint_mod (bind (hdelay _) ?_)
    refine bind (reads_numBytes (by rw [← hstep, hblocks]; simp) hnum) ?_
    exact uint_mod.map
  | quic41 =>
    refine bind (reads_numBytes (by rw [← hstep, hblocks]; simp) hnum) ?_
    refine bind_cons (uintIf_pos rfl (byte n)) ?_
    refine bind uint_mod (bind (hdelay _) ?_)
    refine bind_nil (uintIf_neg (by simp)) ?_
    exact uint_mod.map

variable {length k fr : ℕ} {blocks : List (ℕ × ℕ)} {s s' : AckedPackets}

theorem reads_block {β : Type} {f : ℕ → ℕ → Reader β} {b : ℕ × ℕ} {bs : List UInt8} {a : β}
    {e e' : String}
    (hgap : b.1 < 256) (hlen : b.2 < 256 ^ length) (h : Reads (f b.1 b.2) bs a) :
    Reads (do let gap ← Reader.uint 1 e; let n ← Reader.uint length e'; f gap n)
      ((UInt8.ofNat b.1 :: encode length b.2) ++ bs) a := by
  have hb := byte (e := e) (UInt8.ofNat b.1)
  rw [UInt8.toNat_ofNat', Nat.mod_eq_of_lt hgap] at hb
  exact hb.bind ((uint hlen).bind h)

theorem reads_blockBytes (hb : ∀ b ∈ blocks, b.1 < 256 ∧ b.2 < 256 ^ length) :
    Reads (readAckBlocks length blocks.length) (blockBytes length blocks) blocks := by
  induction blocks with
  | nil => exact pure
  | cons b blocks ih =>
    obtain ⟨hgap, hlen⟩ := hb b (.head _)
    exact reads_block hgap hlen (ih fun c hc => hb c (.tail _ hc)).map

theorem reads_processAckBlocks (hb : ∀ b ∈ blocks, b.1 < 256 ∧ b.2 < 256 ^ length)
    (hs : addBlocks fr s blocks = some s') :
    Reads (processAckBlocks length blocks.length fr s) (blockBytes length blocks) s' := by
  induction blocks generalizing fr s with
  | nil =>
    obtain rfl := Option.some.inj hs
    exact pure
  | cons b blocks ih =>
    obtain ⟨hgap, hlen⟩ := hb b (.head _)
    obtain ⟨r, hr, hs⟩ := Option.bind_eq_some_iff.1 hs
    refine reads_block hgap hlen ?_
    rw [hr]
    exact ih (fun c hc => hb c (.tail _ hc)) hs

/-- What the peer makes of the timestamps after the first. -/
def decodedDeltas (largest : ℕ) : ℕ → ℕ → List (ℕ × ℕ) → List (ℕ × ℕ)
  | _, _, [] => []
  | last, prevTime, (n, time) :: times =>
    let last := last + UFloat16.round (wrap64 (time + 2 ^ 64 - prevTime))
    (wrap64 (largest + 2 ^ 64 - deltaFromLargest largest n), last) :: decodedDeltas largest last
      time times

def decodedTimes (lastTimestamp largest : ℕ) : List (ℕ × ℕ) → List (ℕ × ℕ)
  | [] => []
  | (n, time) :: times =>
    let last := calculateTimestampFromWire lastTimestamp (time % 2 ^ 32)
    (wrap64 (largest + 2 ^ 64 - deltaFromLargest largest n), last) :: decodedDeltas largest last
      time times

theorem reads_timestampDeltas {last : ℕ} (h : ∀ p ∈ times, deltaFromLargest largest p.1 ≤ 255) :
    Reads (processTimestampDeltas largest times.length last) (timestampDeltaBytes largest prev times)
      (decodedDeltas largest last prev times) := by
  induction times generalizing last prev with
  | nil => exact pure
  | cons p times ih =>
    have hp := h p (.head _)
    refine reads_block
      (b := (deltaFromLargest largest p.1, UFloat16.ofValue (wrap64 (p.2 + 2 ^ 64 - prev))))
      (by dsimp only; omega) (UFloat16.ofValue_lt _) ?_
    exact (ih fun q hq => h q (.tail _ hq)).map

theorem reads_timestamps {last : ℕ} (h : TimesEncodable largest times) :
    Reads (processTimestampsInAckFrame last largest times.length) (timestampBytes largest times)
      (decodedTimes last largest times) := by
  cases times with
  | nil => exact pure
  | cons p times =>
    have hp := h.2 p (.head _)
    refine reads_block (b := (deltaFromLargest largest p.1, p.2 % 2 ^ 32)) (by dsimp only; omega)
      (Nat.mod_lt _ (by decide)) ?_
    exact (reads_timestampDeltas fun q hq => h.2 q (.tail _ hq)).map

end Reading

end Puic
