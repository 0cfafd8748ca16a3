/-
  The receive buffer of a stream (quic_stream_sequencer_buffer.cc).

  A ring of `cap` bytes, cut into blocks of
  `kBlockSizeBytes` bytes that are allocated when data arrives for them and freed
  when it has been consumed.  `gaps` says which offsets have not arrived;
  everything below the first gap and not yet consumed can be read.

  Offsets are 64-bit in the source.  Sums that are compared with other offsets
  before anything is known about them are taken modulo `2 ^ 64`, as they are there.
  `ops` is not part of the source: it records every write into a block and every
  retired block, in order.
-/
import Mathlib.Algebra.Order.Ring.Nat
import Mathlib.Data.List.GetD
import Mathlib.Logic.Function.Basic
import Puic.Lib.GapList

namespace Puic

open GapList

/-- `std::numeric_limits<QuicStreamOffset>::max()`. -/
def maxOffset : ℕ := 2 ^ 64 - 1

def kBlockSizeBytes : ℕ := 8 * 1024

/-- `2 * kMaxPacketGap`. -/
def kMaxNumGapsAllowed : ℕ := 2 * 5000

/-- `kStreamReceiveWindowLimit`, the capacity of every stream's buffer. -/
def kStreamReceiveWindowLimit : ℕ := 16 * 1024 * 1024

/-- The error codes of `QuicErrorCode` that the receive path reports. -/
inductive QuicErrorCode where
  | emptyStreamFrameNoFin
  | internalError
  | overlappingStreamData
  | tooManyFrameGaps
  | streamSequencerInvalidState
deriving Repr, DecidableEq

/-- An error with the fixed part of its details. -/
structure DataError where
  code : QuicErrorCode
  details : String
deriving Repr, DecidableEq

/-- An `iovec` that points into the buffer. -/
structure Region where
  block : ℕ
  offset : ℕ
  len : ℕ
deriving Repr, DecidableEq

inductive BlockOp where
  | write (block offset len : ℕ)
  | retire (block : ℕ)
deriving Repr, DecidableEq

/-- `cap` is `max_buffer_capacity_bytes_`. -/
structure SequencerBuffer where
  numBytesBuffered : ℕ
  gaps : List Gap
  cap : ℕ
  totalBytesRead : ℕ
  blocks : ℕ → Option (ℕ → UInt8)
  ops : List BlockOp

/-! ## Where an offset is stored -/

def blocksCount (cap : ℕ) : ℕ := (cap + kBlockSizeBytes - 1) / kBlockSizeBytes

def getBlockIndex (cap offset : ℕ) : ℕ := (offset % cap) / kBlockSizeBytes

def getInBlockOffset (cap offset : ℕ) : ℕ := (offset % cap) % kBlockSizeBytes

/-- The last block may be shorter than the others. -/
def getBlockCapacity (cap idx : ℕ) : ℕ :=
  if idx + 1 = blocksCount cap then
    if cap % kBlockSizeBytes = 0 then kBlockSizeBytes else cap % kBlockSizeBytes
  else kBlockSizeBytes

namespace SequencerBuffer

def new (cap : ℕ) : SequencerBuffer where
  cap := cap
  totalBytesRead := 0
  blocks := fun _ => none
  gaps := [⟨0, maxOffset⟩]
  numBytesBuffered := 0
  ops := []

variable (b : SequencerBuffer)

/-- `gaps_.front().begin_offset`. -/
def firstGap : ℕ := first maxOffset b.gaps

/-- `gaps_.back().begin_offset`. -/
def lastGap : ℕ := last maxOffset b.gaps

def readableBytes : ℕ := b.firstGap - b.totalBytesRead

def hasBytesToRead : Bool := 0 < b.readableBytes

def nextBlockToRead : ℕ :=
  getBlockIndex b.cap b.totalBytesRead

def readOffset : ℕ :=
  getInBlockOffset b.cap b.totalBytesRead

def empty : Bool := b.gaps.length = 1 && b.firstGap = b.totalBytesRead

def retireBlock (idx : ℕ) : SequencerBuffer :=
  match b.blocks idx with
  | none => b
  | some _ =>
    { b with blocks := Function.update b.blocks idx none, ops := b.ops ++ [.retire idx] }

def retireBlockIfEmpty (idx : ℕ) : SequencerBuffer :=
  if b.empty then b.retireBlock idx
  else if getBlockIndex b.cap (b.lastGap - 1) = idx then b
  else if b.nextBlockToRead = idx ∧
      getBlockIndex b.cap ((b.gaps.head?.map Gap.hi).getD maxOffset) = idx then b
  else b.retireBlock idx

/-- The blocks that are there, in the order in which `Clear` retires them. -/
def liveBlocks : List ℕ :=
  (List.range (blocksCount b.cap)).filter fun i => (b.blocks i).isSome

/-- `Clear`: as if everything consumed were all that has arrived. -/
def clear : SequencerBuffer :=
  { b.liveBlocks.foldl retireBlock b with
    numBytesBuffered := 0
    gaps := [⟨b.totalBytesRead, maxOffset⟩] }

/-- `memcpy` into a block, which is allocated if it is not there. -/
def writeBlock (idx off : ℕ) (data : List UInt8) : SequencerBuffer :=
  let block := (b.blocks idx).getD fun _ => 0
  { b with
    blocks := Function.update b.blocks idx
      (some fun i => if off ≤ i ∧ i < off + data.length then data.getD (i - off) 0 else block i)
    ops := b.ops ++ [.write idx off data.length] }

/-- The loop of `CopyStreamData`; every round but the last fills a block to its end. -/
def copyStreamData : ℕ → SequencerBuffer → ℕ → List UInt8 → SequencerBuffer
  | 0, b, _, _ => b
  | fuel + 1, b, offset, data =>
    if data = [] then b
    else
      let idx := getBlockIndex b.cap offset
      let off := getInBlockOffset b.cap offset
      let avail := getBlockCapacity b.cap idx - off
      let avail := if b.totalBytesRead + b.cap < offset + avail then b.totalBytesRead + b.cap - offset
        else avail
      let n := min avail data.length
      copyStreamData fuel (b.writeBlock idx off (data.take n)) (offset + n) (data.drop n)

/-- `OnStreamData`: the buffer with the number of bytes it took, or the error for which the
    connection is closed. -/
def onStreamData (offset : ℕ) (data : List UInt8) :
    Except DataError (SequencerBuffer × ℕ) :=
  let size := data.length
  let endOffset := (offset + size) % 2 ^ 64
  if size = 0 then
    .error ⟨.emptyStreamFrameNoFin, "Received empty stream frame without FIN."⟩
  else match locate b.gaps offset with
  | none => .error ⟨.internalError, "Received stream data outside of maximum range."⟩
  | some (before, gap, after) =>
    if offset < gap.lo ∧ endOffset ≤ gap.lo then .ok (b, 0)
    else if offset < gap.lo ∧ gap.lo < endOffset then
      .error ⟨.overlappingStreamData, "Beginning of received data overlaps with buffered data."⟩
    else if gap.hi < endOffset then
      .error ⟨.overlappingStreamData, "End of received data overlaps with buffered data."⟩
    else if (b.totalBytesRead + b.cap) % 2 ^ 64 < endOffset ∨ endOffset < offset then
      .error ⟨.internalError, "Received data beyond available range."⟩
    else if gap.lo ≠ offset ∧ gap.hi ≠ endOffset ∧ kMaxNumGapsAllowed ≤ b.gaps.length then
      .error ⟨.tooManyFrameGaps, "Too many gaps created for this stream."⟩
    else
      let b' := copyStreamData size b offset data
      .ok ({ b' with
        gaps := before ++ cut gap offset size ++ after
        numBytesBuffered := b'.numBytesBuffered + size }, size)

/-- The loop of `GetReadableRegions` over the blocks after the first. -/
def restRegions (cap start endIdx endOffset count : ℕ) : ℕ → ℕ → List Region
  | 0, _ => []
  | fuel + 1, used =>
    let idx := (start + used) % blocksCount cap
    if used < count then
      if idx = endIdx then [⟨endIdx, 0, endOffset + 1⟩]
      else
        ⟨idx, 0, getBlockCapacity cap idx⟩ :: restRegions cap start endIdx endOffset count fuel (used + 1)
    else []

def getReadableRegions (count : ℕ) : List Region :=
  if b.readableBytes = 0 then []
  else
    let start := b.nextBlockToRead
    let endOffset := getInBlockOffset b.cap (b.firstGap - 1)
    let endIdx := getBlockIndex b.cap (b.firstGap - 1)
    if start = endIdx ∧ b.readOffset ≤ endOffset then [⟨start, b.readOffset, b.readableBytes⟩]
    else
      ⟨start, b.readOffset, getBlockCapacity b.cap start - b.readOffset⟩ ::
        restRegions b.cap start endIdx endOffset count count 1

/-- The bytes that an `iovec` shows. -/
def readRegion (r : Region) : List UInt8 :=
  (List.range r.len).map fun i => ((b.blocks r.block).map (· (r.offset + i))).getD 0

def advance (n : ℕ) : SequencerBuffer :=
  { b with totalBytesRead := b.totalBytesRead + n, numBytesBuffered := b.numBytesBuffered - n }

/-- The loop of `MarkConsumed`. -/
def consume : ℕ → SequencerBuffer → ℕ → SequencerBuffer
  | 0, b, _ => b
  | fuel + 1, b, left =>
    if left = 0 then b
    else
      let idx := b.nextBlockToRead
      let avail := min b.readableBytes (getBlockCapacity b.cap idx - b.readOffset)
      let n := min left avail
      let b' := b.advance n
      consume fuel (if avail = n then b'.retireBlockIfEmpty idx else b') (left - n)

/-- `MarkConsumed`; `none` stands for its result `false`. -/
def markConsumed (bytesUsed : ℕ) : Option SequencerBuffer :=
  if b.readableBytes < bytesUsed then none else some (consume bytesUsed b bytesUsed)

/-- What `RetireBlockIfEmpty` returns: `false` if it comes to retire a block that is not there. -/
def retireSucceeds (idx : ℕ) : Bool :=
  if b.empty then (b.blocks idx).isSome
  else if getBlockIndex b.cap (b.lastGap - 1) = idx then true
  else if b.nextBlockToRead = idx ∧
      getBlockIndex b.cap ((b.gaps.head?.map Gap.hi).getD maxOffset) = idx then true
  else (b.blocks idx).isSome

/-- The inner loop of `Readv`, which fills one `iovec`: the buffer, the bytes copied, and the error
    with which it stopped. -/
def readvInto : ℕ → SequencerBuffer → ℕ → SequencerBuffer × List UInt8 × Option DataError
  | 0, b, _ => (b, [], none)
  | fuel + 1, b, remaining =>
    if remaining = 0 ∨ b.readableBytes = 0 then (b, [], none)
    else
      let idx := b.nextBlockToRead
      let avail := min b.readableBytes (getBlockCapacity b.cap idx - b.readOffset)
      let n := min avail remaining
      match b.blocks idx with
      | none =>
        (b, [], some ⟨.streamSequencerInvalidState,
          "QuicStreamSequencerBuffer error: Readv() dest == nullptr: "⟩)
      | some block =>
        let bytes := (List.range n).map fun i => block (b.readOffset + i)
        let b' := b.advance n
        if avail = n ∧ b'.retireSucceeds idx = false then
          (b', bytes, some ⟨.streamSequencerInvalidState,
            "QuicStreamSequencerBuffer error: fail to retire block "⟩)
        else
          let r := readvInto fuel (if avail = n then b'.retireBlockIfEmpty idx else b') (remaining - n)
          (r.1, bytes ++ r.2.1, r.2.2)

/-- `Readv` into `iovec`s of the given lengths; what is copied into each of those it comes to. -/
def readv : SequencerBuffer → List ℕ → SequencerBuffer × List (List UInt8) × Option DataError
  | b, [] => (b, [], none)
  | b, len :: lens =>
    if b.readableBytes = 0 then (b, [], none)
    else match readvInto len b len with
    | (b', bytes, some e) => (b', [bytes], some e)
    | (b', bytes, none) =>
      let r := readv b' lens
      (r.1, bytes :: r.2.1, r.2.2)

/-- `FlushBufferedFrames`, with the number of bytes flushed. -/
def flushBufferedFrames : SequencerBuffer × ℕ :=
  ({ b with totalBytesRead := b.lastGap }.clear, b.lastGap - b.totalBytesRead)

def releaseWholeBuffer : SequencerBuffer := b.clear

end SequencerBuffer

/-! ## The geometry of the ring -/

variable {cap o d x y i n : ℕ}

theorem getBlockIndex_lt (hc : 0 < cap) : getBlockIndex cap o < blocksCount cap := by
  have hlt := Nat.mod_lt o hc
  unfold getBlockIndex blocksCount kBlockSizeBytes
  omega

theorem place_eq (cap o : ℕ) :
    kBlockSizeBytes * getBlockIndex cap o + getInBlockOffset cap o = o % cap :=
  Nat.div_add_mod _ _

/-- A block ends where the next one begins or at the end of the ring. -/
theorem block_end (h : i < blocksCount cap) :
    kBlockSizeBytes * i + getBlockCapacity cap i = min cap (kBlockSizeBytes * (i + 1)) := by
  unfold blocksCount kBlockSizeBytes at h
  by_cases hi : i + 1 = blocksCount cap
  · rw [getBlockCapacity, if_pos hi]
    unfold blocksCount kBlockSizeBytes at hi
    unfold kBlockSizeBytes
    split <;> omega
  · rw [getBlockCapacity, if_neg hi]
    unfold blocksCount kBlockSizeBytes at hi
    unfold kBlockSizeBytes
    omega

theorem getInBlockOffset_lt (hc : 0 < cap) :
    getInBlockOffset cap o < getBlockCapacity cap (getBlockIndex cap o) := by
  have hlt := Nat.mod_lt o hc
  have he := block_end (getBlockIndex_lt (o := o) hc)
  have hp := place_eq cap o
  have hb : getInBlockOffset cap o < kBlockSizeBytes := Nat.mod_lt _ (by decide)
  unfold kBlockSizeBytes at *
  omega

/-- Moving on by at most one lap either stays in the lap or wraps once. -/
theorem add_mod_cases (hc : 0 < cap) (hd : d ≤ cap) :
    (o % cap + d < cap ∧ (o + d) % cap = o % cap + d) ∨
      (cap ≤ o % cap + d ∧ (o + d) % cap + cap = o % cap + d) := by
  have hlt := Nat.mod_lt o hc
  rw [← Nat.mod_add_mod]
  rcases Nat.lt_or_ge (o % cap + d) cap with h | h
  · exact .inl ⟨h, Nat.mod_eq_of_lt h⟩
  · refine .inr ⟨h, ?_⟩
    rw [Nat.mod_eq_sub_mod h, Nat.mod_eq_of_lt (by omega)]
    omega

/-- Within one lap of the ring, an offset is in the block of `o` if it is before the end of that
    block or, a lap later, at most at the place of `o`. -/
theorem getBlockIndex_add (hc : 0 < cap) (hd : d ≤ cap) :
    getBlockIndex cap (o + d) = getBlockIndex cap o ↔
      getInBlockOffset cap o + d < getBlockCapacity cap (getBlockIndex cap o) ∨
        cap ≤ getInBlockOffset cap o + d := by
  have he := block_end (getBlockIndex_lt (o := o) hc)
  have hp := place_eq cap o
  have hp' := place_eq cap (o + d)
  have hb : getInBlockOffset cap o < kBlockSizeBytes := Nat.mod_lt _ (by decide)
  have hb' : getInBlockOffset cap (o + d) < kBlockSizeBytes := Nat.mod_lt _ (by decide)
  have hw := add_mod_cases (o := o) hc hd
  unfold kBlockSizeBytes at *
  omega

theorem getInBlockOffset_add (hc : 0 < cap)
    (h : getInBlockOffset cap o + d < getBlockCapacity cap (getBlockIndex cap o)) :
    getInBlockOffset cap (o + d) = getInBlockOffset cap o + d := by
  have he := block_end (getBlockIndex_lt (o := o) hc)
  have hd : d ≤ cap := by omega
  have hi := (getBlockIndex_add hc hd).2 (.inl h)
  have hp := place_eq cap o
  have hp' := place_eq cap (o + d)
  have hw := add_mod_cases (o := o) hc hd
  unfold kBlockSizeBytes at *
  omega

/-- The offset behind the end of a block begins the next block. -/
theorem next_block (hc : 0 < cap)
    (h : getInBlockOffset cap o + d = getBlockCapacity cap (getBlockIndex cap o)) :
    getInBlockOffset cap (o + d) = 0 ∧
      getBlockIndex cap (o + d) = (getBlockIndex cap o + 1) % blocksCount cap := by
  have hi := getBlockIndex_lt (o := o) hc
  have he := block_end hi
  have hd : d ≤ cap := by omega
  have hp := place_eq cap o
  have hp' := place_eq cap (o + d)
  have hb' : getInBlockOffset cap (o + d) < kBlockSizeBytes := Nat.mod_lt _ (by decide)
  have hw := add_mod_cases (o := o) hc hd
  by_cases hl : getBlockIndex cap o + 1 = blocksCount cap
  · -- the last block ends at the end of the ring
    rw [hl, Nat.mod_self]
    unfold blocksCount kBlockSizeBytes at *
    omega
  · rw [Nat.mod_eq_of_lt (by omega)]
    unfold blocksCount kBlockSizeBytes at *
    omega

theorem place_inj (hc : 0 < cap) (hx : o ≤ x) (hx' : x < o + cap) (hy : o ≤ y) (hy' : y < o + cap)
    (hi : getBlockIndex cap x = getBlockIndex cap y)
    (hb : getInBlockOffset cap x = getInBlockOffset cap y) : x = y := by
  have h : x % cap = y % cap := by rw [← place_eq, ← place_eq, hi, hb]
  have h1 := add_mod_cases (o := o) (d := x - o) hc (by omega)
  have h2 := add_mod_cases (o := o) (d := y - o) hc (by omega)
  rw [Nat.add_sub_cancel' hx] at h1
  rw [Nat.add_sub_cancel' hy] at h2
  omega

/-! ## What the copy loop writes -/

/-- The places an operation on a block touches; to retire a block is to touch all of it. -/
def BlockOp.Touches : BlockOp → ℕ → ℕ → Prop
  | .write block offset len, idx, i => block = idx ∧ offset ≤ i ∧ i < offset + len
  | .retire block, idx, _ => block = idx

namespace SequencerBuffer

variable {b b' : SequencerBuffer} {offset : ℕ} {data data' : List UInt8}

/-- The byte stored for an offset. -/
def cell (b : SequencerBuffer) (x : ℕ) : Option UInt8 :=
  (b.blocks (getBlockIndex b.cap x)).map (· (getInBlockOffset b.cap x))

/-- `b'` has the `data` from `offset` on; nothing else that was stored for the current window is lost. -/
structure Placed (b b' : SequencerBuffer) (offset : ℕ) (data : List UInt8) : Prop where
  cap : b'.cap = b.cap
  total : b'.totalBytesRead = b.totalBytesRead
  inside : ∀ x, offset ≤ x → x < offset + data.length → b'.cell x = some (data.getD (x - offset) 0)
  outside : ∀ x, b.totalBytesRead ≤ x → x < b.totalBytesRead + b.cap →
    ¬ (offset ≤ x ∧ x < offset + data.length) → ∀ v, b.cell x = some v → b'.cell x = some v
  ops : ∃ new, b'.ops = b.ops ++ new ∧ ∀ op ∈ new, ∀ idx i, op.Touches idx i →
    ∃ x, offset ≤ x ∧ x < offset + data.length ∧ getBlockIndex b.cap x = idx ∧
      getInBlockOffset b.cap x = i

structure Copied (b b' : SequencerBuffer) (offset : ℕ) (data : List UInt8) : Prop
    extends Placed b b' offset data where
  gaps : b'.gaps = b.gaps

theorem copied_nil : Copied b b offset [] where
  cap := rfl
  total := rfl
  gaps := rfl
  inside x h h' := by simp at h'; omega
  outside _ _ _ _ _ h := h
  ops := ⟨[], by simp⟩

theorem copied_writeBlock (data : List UInt8) (hc : 0 < b.cap)
    (hlo : b.totalBytesRead ≤ offset)
    (hhi : offset + data.length ≤ b.totalBytesRead + b.cap)
    (hfit : getInBlockOffset b.cap offset + data.length ≤
      getBlockCapacity b.cap (getBlockIndex b.cap offset)) :
    Copied b (b.writeBlock (getBlockIndex b.cap offset) (getInBlockOffset b.cap offset) data)
    offset data := by
  -- the places written are those of the offsets from `offset` on
  have hplace : ∀ d < data.length,
      getBlockIndex b.cap (offset + d) = getBlockIndex b.cap offset ∧
      getInBlockOffset b.cap (offset + d) = getInBlockOffset b.cap offset + d := by
    intro d hd
    exact ⟨(getBlockIndex_add hc (by omega)).2 (.inl (by omega)), getInBlockOffset_add hc (by omega)⟩
  refine ⟨⟨rfl, rfl, ?_, ?_, ⟨_, rfl, ?_⟩⟩, rfl⟩
  · intro x hx hx'
    obtain ⟨hi, hb⟩ := hplace (x - offset) (by omega)
    rw [Nat.add_sub_cancel' hx] at hi hb
    have hin : getInBlockOffset b.cap offset ≤
          getInBlockOffset b.cap x ∧
        getInBlockOffset b.cap x < getInBlockOffset b.cap offset + data.length := by omega
    simp only [cell, writeBlock, hi, Function.update_self, Option.map_some, if_pos hin]
    rw [hb, Nat.add_sub_cancel_left]
  · intro x hx hx' hout v hv
    by_cases hi : getBlockIndex b.cap x = getBlockIndex b.cap offset
    · -- an offset of the window with a place in the written range is in the data
      have hnot : ¬ (getInBlockOffset b.cap offset ≤
            getInBlockOffset b.cap x ∧
          getInBlockOffset b.cap x < getInBlockOffset b.cap offset + data.length) := by
        rintro ⟨h1, h2⟩
        obtain ⟨hi', hb'⟩ := hplace (getInBlockOffset b.cap x - getInBlockOffset b.cap offset) (by omega)
        have := place_inj hc hx hx' (by omega) (by omega) (hi.trans hi'.symm) (by omega)
        omega
      simp only [cell, writeBlock, hi, Function.update_self, Option.map_some, if_neg hnot] at hv ⊢
      obtain ⟨m, hm, rfl⟩ := Option.map_eq_some_iff.1 hv
      simp [hm]
    · rw [← hv]
      simp only [cell, writeBlock, Function.update_of_ne hi]
  · intro op hop idx i ht
    obtain rfl := List.mem_singleton.1 hop
    obtain ⟨rfl, h1, h2⟩ := ht
    obtain ⟨hi, hb⟩ := hplace (i - getInBlockOffset b.cap offset) (by omega)
    exact ⟨_, by omega, by omega, hi, by omega⟩

theorem Copied.trans {b'' : SequencerBuffer} {m : ℕ} (h : Copied b b' offset data)
    (h' : Copied b' b'' m data') (hm : m = offset + data.length) (hlo : b.totalBytesRead ≤ offset)
    (hhi : m + data'.length ≤ b.totalBytesRead + b.cap) :
    Copied b b'' offset (data ++ data') where
  cap := h'.cap.trans h.cap
  total := h'.total.trans h.total
  gaps := h'.gaps.trans h.gaps
  inside x hx hx' := by
    rw [List.length_append] at hx'
    by_cases hd : x < offset + data.length
    · rw [List.getD_append _ _ _ _ (by omega)]
      refine h'.outside x ?_ ?_ (by omega) _ (h.inside x hx hd)
      · rw [h.total]; omega
      · rw [h.total, h.cap]; omega
    · rw [List.getD_append_right _ _ _ _ (by omega), h'.inside x (by omega) (by omega)]
      congr 2
      omega
  outside x hx hx' hout v hv := by
    rw [List.length_append] at hout
    refine h'.outside x ?_ ?_ (by omega) v (h.outside x hx hx' (by omega) v hv)
    · rw [h.total]; exact hx
    · rw [h.total, h.cap]; exact hx'
  ops := by
    obtain ⟨l, hl, ht⟩ := h.ops
    obtain ⟨l', hl', ht'⟩ := h'.ops
    refine ⟨l ++ l', by rw [hl', hl, List.append_assoc], fun op hop idx i hi => ?_⟩
    rw [List.length_append]
    rcases List.mem_append.1 hop with hop | hop
    · obtain ⟨x, h1, h2, h3⟩ := ht op hop idx i hi
      exact ⟨x, h1, by omega, h3⟩
    · obtain ⟨x, h1, h2, h3⟩ := ht' op hop idx i hi
      exact ⟨x, by omega, by omega, h.cap ▸ h3⟩

theorem copied_copyStreamData : ∀ (fuel : ℕ) (b : SequencerBuffer) (offset : ℕ)
    (data : List UInt8), 0 < b.cap → data.length ≤ fuel →
    b.totalBytesRead ≤ offset →
    offset + data.length ≤ b.totalBytesRead + b.cap →
    Copied b (copyStreamData fuel b offset data) offset data
  | 0, b, offset, data, _, hf, _, _ => by
    obtain rfl := List.length_eq_zero_iff.1 (Nat.le_zero.1 hf)
    exact copied_nil
  | fuel + 1, b, offset, data, hc, hf, hlo, hhi => by
    unfold copyStreamData
    split
    · next h => subst h; exact copied_nil
    next hne =>
    dsimp only
    have hlen : 0 < data.length := List.length_pos_iff.2 hne
    have hoff := getInBlockOffset_lt (o := offset) hc
    generalize hn : min _ data.length = n
    -- every round copies something, and no more than fits into the block
    have hn0 : 0 < n ∧ n ≤ data.length ∧ getInBlockOffset b.cap offset + n ≤
        getBlockCapacity b.cap (getBlockIndex b.cap offset) := by
      split at hn <;> omega
    have htake : (data.take n).length = n := by simp; omega
    have hdrop : (data.drop n).length = data.length - n := by simp
    have h1 := copied_writeBlock (data.take n) hc hlo (by omega) (by omega)
    have h2 := copied_copyStreamData fuel (b.writeBlock (getBlockIndex b.cap offset)
      (getInBlockOffset b.cap offset) (data.take n)) (offset + n) (data.drop n)
      hc (by omega) (by rw [h1.total]; omega) (by rw [h1.total, h1.cap]; omega)
    have h3 := h1.trans h2 (by omega) hlo (by omega)
    rwa [List.take_append_drop] at h3

end SequencerBuffer

/-! ## Arriving data -/

namespace SequencerBuffer

variable {b b' : SequencerBuffer} {offset n x : ℕ} {data : List UInt8}

/-- What holds of a buffer whatever arrives: the gaps lie in order between the consumed bytes and
    `maxOffset`, and nothing beyond the window has arrived. -/
structure WF (b : SequencerBuffer) : Prop where
  capPos : 0 < b.cap
  total : b.totalBytesRead ≤ maxOffset
  sorted : Sorted b.totalBytesRead b.gaps
  bounded : ∀ g ∈ b.gaps, g.hi ≤ maxOffset
  window : ∀ x, b.totalBytesRead + b.cap ≤ x → x < maxOffset → Missing b.gaps x

theorem WF.total_le_firstGap (h : WF b) : b.totalBytesRead ≤ b.firstGap := le_first h.sorted h.total

theorem WF.firstGap_le_max (h : WF b) : b.firstGap ≤ maxOffset := by
  cases hg : b.gaps with
  | nil => simp [firstGap, first, hg]
  | cons g gs =>
    have hs := h.sorted
    rw [hg] at hs
    have := h.bounded g (by simp [hg])
    simp only [firstGap, first, hg, List.head?_cons, Option.map_some, Option.getD_some]
    exact hs.2.1.le.trans this

theorem WF.firstGap_le (h : WF b) : b.firstGap ≤ b.totalBytesRead + b.cap := by
  by_cases ht : b.totalBytesRead + b.cap < maxOffset
  · exact first_le h.sorted (h.window _ le_rfl ht)
  · have := h.firstGap_le_max
    omega

theorem WF.not_missing (h : WF b) (hx : x < b.firstGap) : ¬ Missing b.gaps x :=
  fun hm => absurd (first_le h.sorted hm) (Nat.not_le.2 hx)

/-- `b'` is `b` after `data` has arrived at `offset` and been stored. -/
structure Stored (b b' : SequencerBuffer) (offset : ℕ) (data : List UInt8) : Prop
    extends Placed b b' offset data where
  pos : 0 < data.length
  fits : offset + data.length ≤ b.totalBytesRead + b.cap
  gaps : ∃ p g q, b.gaps = p ++ g :: q ∧ g.lo ≤ offset ∧ offset + data.length ≤ g.hi ∧
    b'.gaps = p ++ cut g offset data.length ++ q

/-- Data that is taken is either stored, or a duplicate that changes nothing. -/
theorem onStreamData_cases (hb : WF b) (ho : offset < 2 ^ 64) (hl : data.length < 2 ^ 64)
    (h : b.onStreamData offset data = .ok (b', n)) :
    (n = 0 ∧ b' = b ∧ offset < maxOffset ∧ ¬ Missing b.gaps offset ∧ (offset + data.length < 2 ^ 64 →
        ∀ x, offset ≤ x → x < offset + data.length → ¬ Missing b.gaps x)) ∨
      (n = data.length ∧ Stored b b' offset data ∧
        offset + data.length ≤ (b.totalBytesRead + b.cap) % 2 ^ 64) := by
  unfold onStreamData at h
  dsimp only at h
  split at h
  · cases h
  next hsize =>
  split at h
  · cases h
  next p g q hloc =>
  obtain ⟨hgaps, hp, hg⟩ := locate_some hloc
  have hs := hb.sorted
  rw [hgaps] at hs
  obtain ⟨-, -, hlo, hlt, hq⟩ := hs.split
  split at h
  · next hdup =>
    simp only [Except.ok.injEq, Prod.mk.injEq] at h
    have hbound := hb.bounded g (by simp [hgaps])
    have hbefore : ∀ x, offset ≤ x → x < g.lo → ¬ Missing b.gaps x := by
      intro x hx hx' hm
      rw [hgaps, missing_append, missing_cons] at hm
      rcases hm with ⟨k, hk, -, hm⟩ | hm | hm
      · have := hp k hk; omega
      · omega
      · have := hq.missing_ge hm; omega
    refine .inl ⟨h.2.symm, h.1.symm, by omega, hbefore offset le_rfl hdup.1, fun hw x hx hx' => ?_⟩
    exact hbefore x hx (by omega)
  split at h
  · cases h
  split at h
  · cases h
  split at h
  · cases h
  split at h
  · cases h
  next hdup hbegin hend hwin _ =>
  obtain ⟨rfl, rfl⟩ := h
  have hfit : offset + data.length ≤ b.totalBytesRead + b.cap := by
    omega
  have hglo : g.lo ≤ offset := by omega
  have hc := copied_copyStreamData data.length b offset data hb.capPos le_rfl (by omega) hfit
  exact .inr ⟨rfl, ⟨⟨hc.cap, hc.total, hc.inside, hc.outside, hc.ops⟩, by omega, hfit,
    p, g, q, hgaps, hglo, by omega, rfl⟩, by omega⟩

theorem onStreamData_single {t lo hi : ℕ} (hc : 0 < cap) (hcap : b.cap = cap)
    (ht : b.totalBytesRead = t) (hg : b.gaps = [⟨lo, hi⟩]) (hpos : 0 < data.length) (hlo : t ≤ lo)
    (ho : lo ≤ offset) (hhi : offset + data.length ≤ hi) (hw : offset + data.length ≤ t + cap)
    (hmax : t + cap < 2 ^ 64) :
    ∃ b', b.onStreamData offset data = .ok (b', data.length) ∧ b'.cap = cap ∧
      b'.totalBytesRead = t ∧ b'.gaps = cut ⟨lo, hi⟩ offset data.length := by
  have hcopy := copied_copyStreamData data.length b offset data (hcap ▸ hc) le_rfl (by omega) (by omega)
  have hloc : locate b.gaps offset = some ([], ⟨lo, hi⟩, []) := by
    rw [hg, locate, if_neg (by dsimp only; omega)]
  unfold onStreamData
  dsimp only
  rw [hloc, Nat.mod_eq_of_lt (by omega : offset + data.length < 2 ^ 64), hcap, ht,
    Nat.mod_eq_of_lt hmax, if_neg (by omega)]
  dsimp only
  rw [if_neg (by omega), if_neg (by omega), if_neg (by omega), if_neg (by omega),
    if_neg (by simp [hg, kMaxNumGapsAllowed])]
  exact ⟨_, rfl, hcopy.cap.trans hcap, hcopy.total.trans ht, by simp⟩

theorem Stored.missing (h : Stored b b' offset data) (hb : WF b) :
    Missing b'.gaps x ↔ Missing b.gaps x ∧ ¬ (offset ≤ x ∧ x < offset + data.length) := by
  obtain ⟨p, g, q, hg, hlo, hhi, hg'⟩ := h.gaps
  have hs := hb.sorted
  rw [hg] at hs
  rw [hg', hg, missing_replace hs hlo hhi]

theorem Stored.wf (h : Stored b b' offset data) (hb : WF b) : WF b' := by
  obtain ⟨p, g, q, hg, hlo, hhi, hg'⟩ := h.gaps
  have hs := hb.sorted
  rw [hg] at hs
  refine ⟨h.cap ▸ hb.capPos, h.total ▸ hb.total, ?_, ?_, ?_⟩
  · rw [h.total, hg']
    exact sorted_replace hs h.pos
  · intro k hk
    rw [hg'] at hk
    rcases List.mem_append.1 hk with hk | hk
    · rcases List.mem_append.1 hk with hk | hk
      · exact hb.bounded k (by simp [hg, hk])
      · have hgb := hb.bounded g (by simp [hg])
        unfold cut at hk
        split_ifs at hk <;> simp at hk <;> grind
    · exact hb.bounded k (by simp [hg, hk])
  · intro x hx hx'
    rw [h.total, h.cap] at hx
    have := h.fits
    exact (h.missing hb).2 ⟨hb.window x hx hx', by omega⟩

theorem Stored.firstGap_eq (h : Stored b b' offset data) (hne : b.firstGap ≠ offset) :
    b'.firstGap = b.firstGap := by
  obtain ⟨p, g, q, hg, hlo, -, hg'⟩ := h.gaps
  unfold firstGap at *
  rw [hg', hg]
  exact first_replace hlo (hg ▸ hne)

theorem Stored.lt_firstGap (h : Stored b b' offset data) (hb : WF b) (he : b.firstGap = offset) :
    offset < b'.firstGap := by
  obtain ⟨p, g, q, hg, hlo, hhi, hg'⟩ := h.gaps
  have hs := hb.sorted
  rw [hg] at hs
  have hgb := hb.bounded g (by simp [hg])
  unfold firstGap at *
  rw [hg']
  exact lt_first_replace hs hlo hhi h.pos (by omega) (hg ▸ he)

theorem Stored.firstGap_le (h : Stored b b' offset data) (hb : WF b) : b.firstGap ≤ b'.firstGap := by
  by_cases he : b.firstGap = offset
  · exact he ▸ (h.lt_firstGap hb he).le
  · exact (h.firstGap_eq he).ge

theorem Stored.firstGap_le_offset (h : Stored b b' offset data) (hb : WF b) : b.firstGap ≤ offset := by
  obtain ⟨p, g, q, hg, hlo, hhi, -⟩ := h.gaps
  have := h.pos
  exact first_le hb.sorted ⟨g, by simp [hg], hlo, by omega⟩

end SequencerBuffer

end Puic
