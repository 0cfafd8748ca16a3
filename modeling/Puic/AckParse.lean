/-
  Reading ACK frames (`ProcessAckFrame` of quic_framer.cc).

  An ACK names the largest packet and then, going down, blocks of packets with gaps
  between them.  The lengths come from the peer, and the arithmetic is that of
  `uint64_t`.  `processAckFrame` also returns the ranges that `AddRange` has added, the
  newest first, which is not part of the code.

  With version 41 a block may have eight bytes of length, so that gap and length wrap
  around together; the check for an underflow then passes.  As long as no packet has
  been added, such a block goes into the set as it is (`Escapes`).  `parsed_ack_sound_iff`
  says that this is the only way in which an ACK can name packets beyond its largest one.
-/
import Puic.Lib.Wire
import Puic.Epoch
import Puic.UFloat16
import Puic.PacketNumberQueue

namespace Puic

open Wire GapList

/-- The versions with their own layout; later ones use that of 41. -/
inductive TransportVersion where
  | quic39
  | quic41
deriving Repr, DecidableEq

/-- `QuicAckFrame`.  No delay is an infinite one; times are in microseconds since the framer was
    created. -/
structure QuicAckFrame where
  largestObserved : ℕ
  ackDelayTime : Option ℕ
  packets : PacketNumberQueue
  receivedPacketTimes : List (ℕ × ℕ)
deriving DecidableEq

def extractBits (flags : UInt8) (numBits offset : ℕ) : ℕ := flags.toNat / 2 ^ offset % 2 ^ numBits

def extractBit (flags : UInt8) (offset : ℕ) : Bool := extractBits flags 1 offset ≠ 0

variable (v : TransportVersion)

/-- `ReadAckPacketNumberLength`. -/
def readAckPacketNumberLength (flags : ℕ) : ℕ :=
  match flags with
  | 3 => if v = .quic39 then 6 else 8
  | 2 => 4
  | 1 => 2
  | _ => 1

def hasMultipleAckBlocksOffset : ℕ := if v = .quic39 then 5 else 4

def ackBlockLength (frameType : UInt8) : ℕ :=
  readAckPacketNumberLength v (extractBits frameType 2 0)

def largestAckedLength (frameType : UInt8) : ℕ :=
  readAckPacketNumberLength v (extractBits frameType 2 2)

/-- The packets of an ACK so far, and the ranges that have been added. -/
structure AckedPackets where
  packets : PacketNumberQueue
  added : List Gap
deriving DecidableEq

namespace AckedPackets

def empty : AckedPackets := ⟨.empty, []⟩

def addRange (s : AckedPackets) (lower higher : ℕ) : AckedPackets :=
  let packets := s.packets.addRange lower higher
  ⟨packets, if packets = s.packets then s.added else ⟨lower, higher⟩ :: s.added⟩

/-- One block; `none` when it does not fit below what was received. -/
def addBlock (firstReceived : ℕ) (s : AckedPackets) (gap length : ℕ) : Option (ℕ × AckedPackets) :=
  let down := wrap64 (gap + length)
  if firstReceived < down then none
  else
    let firstReceived := firstReceived - down
    some (firstReceived, if 0 < length then
      s.addRange firstReceived (wrap64 (firstReceived + length)) else s)

end AckedPackets

open AckedPackets

/-- The loop of `ProcessAckFrame` over the blocks. -/
def processAckBlocks (blockLength : ℕ) : ℕ → ℕ → AckedPackets → Reader AckedPackets
  | 0, _, s => pure s
  | k + 1, firstReceived, s => do
    let gap ← Reader.uint 1 "Unable to read gap to next ack block."
    let length ← Reader.uint blockLength "Unable to ack block length."
    match s.addBlock firstReceived gap length with
    | none => Reader.fail ("Underflow with ack block length " ++ toString length ++ ", end of block is " ++
        toString (wrap64 (firstReceived + 2 ^ 64 - gap)) ++ ".")
    | some (firstReceived, s) => processAckBlocks blockLength k firstReceived s

/-- The loop of `ProcessTimestampsInAckFrame`. -/
def processTimestampDeltas (largestAcked : ℕ) : ℕ → ℕ → Reader (List (ℕ × ℕ))
  | 0, _ => pure []
  | k + 1, last => do
    let fromLargest ← Reader.uint 1 "Unable to read sequence delta in received packets."
    let n ← Reader.uint 2 "Unable to read incremental time delta in received packets."
    let time := last + UFloat16.toValue n
    let rest ← processTimestampDeltas largestAcked k time
    return (wrap64 (largestAcked + 2 ^ 64 - fromLargest), time) :: rest

def processTimestampsInAckFrame (lastTimestamp largestAcked numReceivedPackets : ℕ) :
    Reader (List (ℕ × ℕ)) :=
  if numReceivedPackets = 0 then pure []
  else do
    let fromLargest ← Reader.uint 1 "Unable to read sequence delta in received packets."
    let timeDelta ← Reader.uint 4 "Unable to read time delta in received packets."
    let time := calculateTimestampFromWire lastTimestamp timeDelta
    let rest ← processTimestampDeltas largestAcked (numReceivedPackets - 1) time
    return (wrap64 (largestAcked + 2 ^ 64 - fromLargest), time) :: rest

/-- `LargestAcked`. -/
def PacketNumberQueue.largest (q : PacketNumberQueue) : ℕ := if q.isEmpty then 0 else q.max

/-- The fields of an ACK before its blocks. -/
structure AckHeader where
  numAckBlocks : ℕ
  numReceivedPackets : ℕ
  largestAcked : ℕ
  ackDelay : ℕ
  firstBlockLength : ℕ
deriving Repr, DecidableEq

variable (v : TransportVersion) (frameType : UInt8)

/-- The number of timestamps comes after the blocks with version 39. -/
def readAckHeader : Reader AckHeader := do
  let hasAckBlocks := extractBit frameType (hasMultipleAckBlocksOffset v)
  let numAckBlocks ← Reader.uintIf (v = .quic41 ∧ hasAckBlocks) 1 "Unable to read num of ack blocks." 0
  let numReceivedPackets ← Reader.uintIf (v = .quic41) 1 "Unable to read num received packets." 0
  let largestAcked ← Reader.uint (largestAckedLength v frameType) "Unable to read largest acked."
  let delay ← Reader.uint 2 "Unable to read ack delay time."
  let numAckBlocks ← Reader.uintIf (v = .quic39 ∧ hasAckBlocks)
      1 "Unable to read num of ack blocks." numAckBlocks
  let firstBlockLength ← Reader.uint (ackBlockLength v frameType) "Unable to read first ack block length."
  return ⟨numAckBlocks, numReceivedPackets, largestAcked, UFloat16.toValue delay, firstBlockLength⟩

/-- `ProcessAckFrame`; strict ACK handling is off. -/
def processAckFrame (lastTimestamp : ℕ) (frameType : UInt8) :
    Reader (QuicAckFrame × List Gap) := do
  let h ← readAckHeader v frameType
  let top := wrap64 (h.largestAcked + 1)
  if top < h.firstBlockLength then
    Reader.fail ("Underflow with first ack block length " ++ toString h.firstBlockLength ++
      " largest acked is " ++ toString h.largestAcked ++ ".")
  else
    let first := top - h.firstBlockLength
    let s ← processAckBlocks (ackBlockLength v frameType)
        h.numAckBlocks first (AckedPackets.empty.addRange first top)
    let numReceivedPackets ← Reader.uintIf (v = .quic39) 1 "Unable to read num received packets."
        h.numReceivedPackets
    let times ← processTimestampsInAckFrame lastTimestamp s.packets.largest numReceivedPackets
    return (⟨h.largestAcked, if h.ackDelay = UFloat16.kUFloat16MaxValue then
      none else some h.ackDelay, s.packets, times⟩, s.added)

/-! ## What was on the wire -/

/-- The gaps and lengths of `k` blocks, as they are. -/
def readAckBlocks (blockLength : ℕ) : ℕ → Reader (List (ℕ × ℕ))
  | 0 => pure []
  | k + 1 => do
    let gap ← Reader.uint 1 "Unable to read gap to next ack block."
    let length ← Reader.uint blockLength "Unable to ack block length."
    let rest ← readAckBlocks blockLength k
    return (gap, length) :: rest

/-- The fields and blocks of an ACK frame, as they are. -/
def ackFields : Reader (AckHeader × List (ℕ × ℕ)) := do
  let h ← readAckHeader v frameType
  let blocks ← readAckBlocks (ackBlockLength v frameType) h.numAckBlocks
  return (h, blocks)

/-- While nothing has been added, a block wraps around with a gap that is larger than what is left. -/
def escapesFrom : ℕ → List (ℕ × ℕ) → Bool
  | _, [] => false
  | firstReceived, (gap, length) :: blocks =>
    if 2 ^ 64 ≤ gap + length then
      decide (firstReceived < gap) || escapesFrom (firstReceived - wrap64 (gap + length)) blocks
    else length = 0 && escapesFrom (firstReceived - gap) blocks

/-- The first block is empty, and a later one wraps around. -/
def Escapes (data : List UInt8) : Prop :=
  ∃ h blocks rest, ackFields v frameType data = .ok ((h, blocks), rest) ∧ h.firstBlockLength = 0 ∧
    h.largestAcked + 1 < 2 ^ 64 ∧ escapesFrom (h.largestAcked + 1) blocks = true

/-- The pure part of the loop. -/
def addBlocks : ℕ → AckedPackets → List (ℕ × ℕ) → Option AckedPackets
  | _, s, [] => some s
  | firstReceived, s, (gap, length) :: blocks =>
    (s.addBlock firstReceived gap length).bind fun r => addBlocks r.1 r.2 blocks

variable {v : TransportVersion} {t : UInt8} {data rest : List UInt8} {blockLength k fr gap length top : ℕ}
  {s s' : AckedPackets} {blocks : List (ℕ × ℕ)}

theorem processAckBlocks_ok (h : processAckBlocks blockLength k fr s data = .ok (s', rest)) :
    ∃ blocks, readAckBlocks blockLength k data = .ok (blocks, rest) ∧ addBlocks fr s blocks = some s' ∧
      blocks.length = k ∧ ∀ b ∈ blocks, b.1 < 256 ∧ b.2 < 256 ^ blockLength := by
  induction k generalizing fr s data with
  | zero =>
    obtain ⟨rfl, rfl⟩ := Prod.mk.inj (Reader.pure_ok.1 h)
    exact ⟨[], rfl, rfl, rfl, fun b hb => absurd hb List.not_mem_nil⟩
  | succ k ih =>
    obtain ⟨gap, data₁, hgap, h⟩ := Reader.bind_ok.1 h
    obtain ⟨length, data₂, hlen, h⟩ := Reader.bind_ok.1 h
    cases hadd : s.addBlock fr gap length with
    | none =>
      rw [hadd] at h
      exact absurd h Reader.fail_ok
    | some r =>
      rw [hadd] at h
      obtain ⟨blocks, hread, hblocks, hk, hb⟩ := ih h
      refine ⟨(gap, length) :: blocks, ?_, ?_, by rw [List.length_cons, hk], ?_⟩
      · refine Reader.bind_ok.2 ⟨gap, data₁, hgap, Reader.bind_ok.2 ⟨length, data₂, hlen, ?_⟩⟩
        exact Reader.bind_ok.2 ⟨blocks, rest, hread, rfl⟩
      · rw [addBlocks, hadd]
        exact hblocks
      · intro b hmem
        rcases List.mem_cons.1 hmem with rfl | hmem
        · exact ⟨Reader.uint_lt hgap, Reader.uint_lt hlen⟩
        · exact hb b hmem

theorem readAckPacketNumberLength_le (flags : ℕ) : readAckPacketNumberLength v flags ≤ 8 := by
  unfold readAckPacketNumberLength
  split
  · split <;> decide
  · decide
  · decide
  · decide

theorem pow_readAckPacketNumberLength_le (flags : ℕ) : 256 ^ readAckPacketNumberLength v flags ≤ 2 ^ 64 :=
  Nat.pow_le_pow_right (by decide) (readAckPacketNumberLength_le flags)

theorem readAckHeader_bounds {hd : AckHeader} (h : readAckHeader v t data = .ok (hd, rest)) :
    hd.largestAcked < 256 ^ largestAckedLength v t ∧ hd.numAckBlocks ≤ 255 := by
  obtain ⟨n, data₁, h1, h⟩ := Reader.bind_ok.1 h
  obtain ⟨_, data₂, -, h⟩ := Reader.bind_ok.1 h
  obtain ⟨largest, data₃, h3, h⟩ := Reader.bind_ok.1 h
  obtain ⟨_, data₄, -, h⟩ := Reader.bind_ok.1 h
  obtain ⟨n', data₅, h5, h⟩ := Reader.bind_ok.1 h
  obtain ⟨_, data₆, -, h⟩ := Reader.bind_ok.1 h
  rw [(Prod.mk.inj (Reader.pure_ok.1 h)).1]
  exact ⟨Reader.uint_lt h3, Reader.uintIf_le h5 (Reader.uintIf_le h1 (by decide))⟩

/-- What a successful run of `ProcessAckFrame` has read and added. -/
theorem processAckFrame_ok {last : ℕ} {frame : QuicAckFrame} {added : List Gap}
    (h : processAckFrame v last t data = .ok ((frame, added), rest)) :
    ∃ hd blocks rest', ackFields v t data = .ok ((hd, blocks), rest') ∧
      frame.largestObserved = hd.largestAcked ∧
      hd.firstBlockLength ≤ wrap64 (hd.largestAcked + 1) ∧ hd.largestAcked < 2 ^ 64 ∧
        blocks.length ≤ 255 ∧
      (∀ b ∈ blocks, b.1 < 256 ∧ b.2 < 2 ^ 64) ∧
      addBlocks (wrap64 (hd.largestAcked + 1) - hd.firstBlockLength)
        (empty.addRange (wrap64 (hd.largestAcked + 1) - hd.firstBlockLength)
        (wrap64 (hd.largestAcked + 1)))
        blocks = some ⟨frame.packets, added⟩ := by
  obtain ⟨hd, data₁, hhead, h⟩ := Reader.bind_ok.1 h
  obtain ⟨hlargest, hnum⟩ := readAckHeader_bounds hhead
  split at h
  · exact absurd h Reader.fail_ok
  next hfirst =>
  obtain ⟨s, data₂, hblocks, h⟩ := Reader.bind_ok.1 h
  obtain ⟨_, data₃, -, h⟩ := Reader.bind_ok.1 h
  obtain ⟨_, data₄, -, h⟩ := Reader.bind_ok.1 h
  obtain ⟨⟨rfl, rfl⟩, -⟩ : (frame = _ ∧ added = s.added) ∧ rest = data₄ := by
    simpa only [Prod.mk.injEq] using Reader.pure_ok.1 h
  obtain ⟨blocks, hread, hadd, hlen, hb⟩ := processAckBlocks_ok hblocks
  refine ⟨hd, blocks, data₂,
    Reader.bind_ok.2 ⟨hd, data₁, hhead, Reader.bind_ok.2 ⟨blocks, data₂, hread, rfl⟩⟩, rfl,
    not_lt.1 hfirst, hlargest.trans_le (pow_readAckPacketNumberLength_le _), hlen.trans_le hnum,
    fun b hmem => ?_, hadd⟩
  obtain ⟨hgap, hl⟩ := hb b hmem
  exact ⟨hgap, hl.trans_le (pow_readAckPacketNumberLength_le _)⟩

/-! ## Blocks below what is there -/

/-- The ranges, the newest first: each one ends before those added earlier begin. -/
def Descending (added : List Gap) : Prop :=
  (∀ g ∈ added, g.lo < g.hi) ∧ added.Pairwise fun later earlier => later.hi ≤ earlier.lo

/-- Some packets have been added, all between `firstReceived` and the largest one, and after `steps`
    blocks the lowest of them is not far above `firstReceived`. -/
structure AckedPackets.Below (largest firstReceived steps : ℕ) (s : AckedPackets) : Prop where
  between : ∀ x ∈ s.packets, firstReceived ≤ x ∧ x ≤ largest
  near : ∃ x ∈ s.packets, x ≤ firstReceived + 255 * steps
  above : ∀ g ∈ s.added, firstReceived ≤ g.lo
  descending : Descending s.added

variable {a b x : ℕ} {r : ℕ × AckedPackets}

theorem AckedPackets.mem_addRange_below (hab : a < b) (hs : ∀ y ∈ s.packets, b ≤ y) :
    x ∈ (s.addRange a b).packets ↔ (a ≤ x ∧ x < b) ∨ x ∈ s.packets :=
  PacketNumbers.missing_addRange s.packets.sorted hab (.inl hs)

theorem AckedPackets.added_addRange_below (hab : a < b) (hs : ∀ y ∈ s.packets, b ≤ y) :
    (s.addRange a b).added = ⟨a, b⟩ :: s.added := by
  have hne : s.packets.addRange a b ≠ s.packets := by
    intro he
    have hmem : a ∈ s.packets.addRange a b := (mem_addRange_below hab hs).2 (.inl ⟨le_rfl, hab⟩)
    rw [he] at hmem
    exact absurd (hs a hmem) (not_le.2 hab)
  rw [addRange]
  rw [if_neg hne]

theorem AckedPackets.addRange_of_eq
    (h : PacketNumbers.addRange s.packets.intervals a b = s.packets.intervals) :
    s.addRange a b = s := by
  have he : s.packets.addRange a b = s.packets := by
    exact PacketNumberQueue.mk.injEq .. ▸ h
  rw [addRange, he, if_pos rfl]

theorem AckedPackets.addBlock_eq_some (h : s.addBlock fr gap length = some r) :
    wrap64 (gap + length) ≤ fr ∧ r.1 = fr - wrap64 (gap + length) ∧
      r.2 = if 0 < length then s.addRange r.1 (wrap64 (r.1 + length)) else s := by
  unfold addBlock at h
  dsimp only at h
  split at h
  · cases h
  · next hle =>
    obtain rfl := Option.some.inj h
    exact ⟨not_lt.1 hle, rfl, rfl⟩

theorem AckedPackets.addBlock_plain (h : s.addBlock fr gap length = some r) (hfr : fr < 2 ^ 64)
    (hw : gap + length < 2 ^ 64) :
    gap + length ≤ fr ∧ r.1 = fr - (gap + length) ∧
      r.2 = if 0 < length then s.addRange (fr - (gap + length)) (fr - gap) else s := by
  obtain ⟨hle, h1, h2⟩ := addBlock_eq_some h
  rw [wrap64, Nat.mod_eq_of_lt hw] at hle h1
  have hhi : wrap64 (r.1 + length) = fr - gap := by
    rw [wrap64, h1, Nat.mod_eq_of_lt (by omega)]
    omega
  rw [hhi, h1] at h2
  exact ⟨hle, h1, h2⟩

/-- A block that wraps around: with a gap that leaves room it is empty, otherwise it ends below zero. -/
theorem AckedPackets.addBlock_wrapped (h : s.addBlock fr gap length = some r) (hfr : fr < 2 ^ 64)
    (hgap : gap < 256) (hlen : length < 2 ^ 64) (hw : 2 ^ 64 ≤ gap + length) :
    wrap64 (gap + length) < 255 ∧ r.1 = fr - wrap64 (gap + length) ∧
      r.2 = if fr < gap then s.addRange r.1 (2 ^ 64 + fr - gap) else s := by
  obtain ⟨hle, h1, h2⟩ := addBlock_eq_some h
  have hdown : wrap64 (gap + length) = gap + length - 2 ^ 64 := by
    rw [wrap64, Nat.mod_eq_sub_mod hw, Nat.mod_eq_of_lt (by omega)]
  rw [if_pos (by omega)] at h2
  refine ⟨by omega, h1, ?_⟩
  split
  · next hlt =>
    have hhi : wrap64 (r.1 + length) = 2 ^ 64 + fr - gap := by
      rw [wrap64, Nat.mod_eq_of_lt (by omega)]
      omega
    rw [h2, hhi]
  · next hge =>
    have hhi : wrap64 (r.1 + length) = fr - gap := by
      rw [wrap64, Nat.mod_eq_sub_mod (by omega), Nat.mod_eq_of_lt (by omega)]
      omega
    rw [h2, hhi]
    refine addRange_of_eq ?_
    rw [PacketNumbers.addRange, if_pos (by omega)]

namespace AckedPackets.Below

variable {largest steps : ℕ}

theorem down {fr' : ℕ} (h : s.Below largest fr steps) (hle : fr' ≤ fr) (hnear : fr ≤ fr' + 255) :
    s.Below largest fr' (steps + 1) := by
  refine ⟨fun x hx => ⟨hle.trans (h.between x hx).1, (h.between x hx).2⟩, ?_,
    fun g hg => hle.trans (h.above g hg), h.descending⟩
  obtain ⟨x, hx, hxn⟩ := h.near
  exact ⟨x, hx, by omega⟩

theorem added {a b : ℕ} (hab : a < b) (hb : b ≤ largest + 1) (hs : ∀ x ∈ s.packets, b ≤ x ∧ x ≤ largest)
    (habove : ∀ g ∈ s.added, b ≤ g.lo) (hdesc : Descending s.added) :
    (s.addRange a b).Below largest a steps := by
  have hlow : ∀ x ∈ s.packets, b ≤ x := fun x hx => (hs x hx).1
  refine ⟨fun x hx => ?_, ⟨a, (mem_addRange_below hab hlow).2 (.inl ⟨le_rfl, hab⟩), by omega⟩, ?_, ?_⟩
  · rcases (mem_addRange_below hab hlow).1 hx with hx | hx
    · omega
    · have := hs x hx
      omega
  · rw [added_addRange_below hab hlow]
    intro g hg
    rcases List.mem_cons.1 hg with rfl | hg
    · exact le_rfl
    · have := habove g hg
      omega
  · rw [added_addRange_below hab hlow]
    refine ⟨fun g hg => ?_, List.pairwise_cons.2 ⟨habove, hdesc.2⟩⟩
    rcases List.mem_cons.1 hg with rfl | hg
    · exact hab
    · exact hdesc.1 g hg

/-- Once something has been added, every block that is accepted stays below it or changes nothing. -/
theorem addBlock {r : ℕ × AckedPackets} (h : s.Below largest fr steps) (hfr : fr < 2 ^ 64)
    (hl : fr ≤ largest + 1)
    (hsteps : steps < 255) (hgap : gap < 256) (hlen : length < 2 ^ 64)
    (hr : s.addBlock fr gap length = some r) :
    r.2.Below largest r.1 (steps + 1) := by
  by_cases hw : gap + length < 2 ^ 64
  · obtain ⟨hle, h1, h2⟩ := addBlock_plain hr hfr hw
    rw [h1, h2]
    split
    · refine added (by omega) (by omega) (fun x hx => ?_) (fun g hg => ?_) h.descending
      · have := h.between x hx
        omega
      · have := h.above g hg
        omega
    · exact h.down (by omega) (by omega)
  · obtain ⟨hdown, h1, h2⟩ := addBlock_wrapped hr hfr hgap hlen (by omega)
    have hsame : r.2 = s := by
      rw [h2]
      split
      · obtain ⟨x, hx, hxn⟩ := h.near
        refine addRange_of_eq (PacketNumbers.addRange_inside s.packets.sorted hx (by omega) hx ?_)
        have := h.between x hx
        omega
      · rfl
    rw [hsame, h1]
    exact h.down (by omega) (by omega)

theorem addBlocks (h : s.Below largest fr steps) (hfr : fr < 2 ^ 64) (hl : fr ≤ largest + 1)
    (hsteps : steps + blocks.length ≤ 255) (hb : ∀ b ∈ blocks, b.1 < 256 ∧ b.2 < 2 ^ 64)
    (hs : Puic.addBlocks fr s blocks = some s') :
    (∀ x ∈ s'.packets, x ≤ largest) ∧ Descending s'.added := by
  induction blocks generalizing fr s steps with
  | nil =>
    obtain rfl := Option.some.inj hs
    exact ⟨fun x hx => (h.between x hx).2, h.descending⟩
  | cons b blocks ih =>
    obtain ⟨r, hr, hs⟩ := Option.bind_eq_some_iff.1 hs
    obtain ⟨-, h1, -⟩ := addBlock_eq_some hr
    obtain ⟨hgap, hlen⟩ := hb b (.head _)
    rw [List.length_cons] at hsteps
    have hr' := h.addBlock hfr hl (by omega) hgap hlen hr
    exact ih hr' (by omega) (by omega) (by omega) (fun b hmem => hb b (.tail _ hmem)) hs

end AckedPackets.Below

/-! ## While nothing has been added -/

theorem addBlocks_mono (h : addBlocks fr s blocks = some s') (hx : x ∈ s.packets) : x ∈ s'.packets := by
  induction blocks generalizing fr s with
  | nil =>
    obtain rfl := Option.some.inj h
    exact hx
  | cons b blocks ih =>
    obtain ⟨r, hr, h⟩ := Option.bind_eq_some_iff.1 h
    obtain ⟨-, -, h2⟩ := addBlock_eq_some hr
    refine ih h ?_
    rw [h2]
    split
    · exact PacketNumbers.missing_addRange_of_missing s.packets.sorted hx
    · exact hx

@[simp] theorem AckedPackets.not_mem_empty : x ∉ empty.packets := PacketNumberQueue.not_mem_empty

theorem descending_nil : Descending [] := ⟨fun _ h => absurd h List.not_mem_nil, .nil⟩

theorem AckedPackets.mem_addRange_empty (hab : a < b) :
    x ∈ (empty.addRange a b).packets ↔ a ≤ x ∧ x < b := by
  rw [mem_addRange_below hab fun y hy => absurd hy not_mem_empty]
  simp

theorem AckedPackets.below_first {largest steps : ℕ} (hab : a < b) (hb : b ≤ largest + 1) :
    (empty.addRange a b).Below largest a steps :=
  .added hab hb (fun _ hx => absurd hx not_mem_empty) (fun _ hg => absurd hg List.not_mem_nil)
    descending_nil

/-- The first range that is added may be one that wraps around; then it ends above the largest
    packet, since it takes more than the blocks of one frame to come down that far. -/
theorem addBlocks_empty {largest steps : ℕ} (hfr : fr ≤ largest + 1) (hl : largest + 1 < 2 ^ 64)
    (hnear : largest + 1 ≤ fr + 255 * steps) (hsteps : steps + blocks.length ≤ 255)
    (hb : ∀ b ∈ blocks, b.1 < 256 ∧ b.2 < 2 ^ 64) (hs : addBlocks fr .empty blocks = some s') :
    ((∀ x ∈ s'.packets, x ≤ largest) ∧ Descending s'.added) ↔ escapesFrom fr blocks = false := by
  induction blocks generalizing fr steps with
  | nil =>
    obtain rfl := Option.some.inj hs
    exact ⟨fun _ => rfl, fun _ => ⟨fun x hx => absurd hx not_mem_empty, descending_nil⟩⟩
  | cons b blocks ih =>
    obtain ⟨gap, length⟩ := b
    obtain ⟨r, hr, hs⟩ := Option.bind_eq_some_iff.1 hs
    obtain ⟨hgap, hlen⟩ := hb (gap, length) (.head _)
    have hb' : ∀ b ∈ blocks, b.1 < 256 ∧ b.2 < 2 ^ 64 := fun b hmem => hb b (.tail _ hmem)
    rw [List.length_cons] at hsteps
    rw [escapesFrom]
    by_cases hw : 2 ^ 64 ≤ gap + length
    · obtain ⟨hdown, h1, h2⟩ := addBlock_wrapped hr (by omega) hgap hlen hw
      rw [if_pos hw]
      by_cases hlt : fr < gap
      · rw [if_pos hlt] at h2
        have htop : 2 ^ 64 + fr - gap - 1 ∈ s'.packets := by
          refine addBlocks_mono hs ?_
          rw [h2, mem_addRange_empty (by omega)]
          omega
        simp only [hlt, decide_true, Bool.true_or, Bool.true_eq_false, iff_false]
        rintro ⟨hle, -⟩
        have := hle _ htop
        omega
      · rw [if_neg hlt] at h2
        rw [h2, h1] at hs
        simp only [hlt, decide_false, Bool.false_or]
        exact ih (by omega) (by omega : largest + 1 ≤ _ + 255 * (steps + 1)) (by omega) hb' hs
    · obtain ⟨hle, h1, h2⟩ := addBlock_plain hr (by omega) (not_le.1 hw)
      rw [if_neg hw]
      by_cases hzero : length = 0
      · rw [if_neg (by omega)] at h2
        have h1' : r.1 = fr - gap := by omega
        rw [h2, h1'] at hs
        simp only [hzero, decide_true, Bool.true_and]
        exact ih (by omega) (by omega : largest + 1 ≤ _ + 255 * (steps + 1)) (by omega) hb' hs
      · rw [if_pos (by omega)] at h2
        simp only [hzero, decide_false, Bool.false_and, iff_true]
        have hbelow : r.2.Below largest r.1 (steps + 1) := by
          rw [h1, h2]
          exact below_first (by omega) (by omega)
        exact hbelow.addBlocks (by omega) (by omega) (by omega) hb' hs

/-- With the largest packet number of all, the first block ends where it wraps to zero. -/
theorem addBlocks_top {steps : ℕ} (hsteps : steps + blocks.length ≤ 255)
    (hb : ∀ b ∈ blocks, b.1 < 256 ∧ b.2 < 2 ^ 64) (hs : addBlocks 0 .empty blocks = some s') :
    (∀ x ∈ s'.packets, x ≤ 2 ^ 64 - 1) ∧ Descending s'.added := by
  induction blocks generalizing steps with
  | nil =>
    obtain rfl := Option.some.inj hs
    exact ⟨fun x hx => absurd hx not_mem_empty, descending_nil⟩
  | cons b blocks ih =>
    obtain ⟨gap, length⟩ := b
    obtain ⟨r, hr, hs⟩ := Option.bind_eq_some_iff.1 hs
    obtain ⟨hgap, hlen⟩ := hb (gap, length) (.head _)
    have hb' : ∀ b ∈ blocks, b.1 < 256 ∧ b.2 < 2 ^ 64 := fun b hmem => hb b (.tail _ hmem)
    rw [List.length_cons] at hsteps
    by_cases hw : 2 ^ 64 ≤ gap + length
    · obtain ⟨hdown, h1, h2⟩ := addBlock_wrapped hr (by decide) hgap hlen hw
      rw [if_pos (by omega)] at h2
      have hbelow : r.2.Below (2 ^ 64 - 1) r.1 (steps + 1) := by
        rw [h2]
        exact below_first (by omega) (by omega)
      exact hbelow.addBlocks (by omega) (by omega) (by omega) hb' hs
    · obtain ⟨hle, h1, h2⟩ := addBlock_plain hr (by decide) (not_le.1 hw)
      rw [if_neg (by omega)] at h2
      have h1' : r.1 = 0 := by omega
      rw [h2, h1'] at hs
      exact ih (by omega : steps + 1 + blocks.length ≤ 255) hb' hs

/-! ## The frame -/

/-- What is parsed is at most the largest packet number, and the ranges are descending, exactly when
    no block escapes. -/
theorem parsed_ack_sound_iff {last : ℕ} {frame : QuicAckFrame} {added : List Gap}
    (h : processAckFrame v last t data = .ok ((frame, added), rest)) :
    ((∀ x ∈ frame.packets, x ≤ frame.largestObserved) ∧ Sorted 0 frame.packets.intervals ∧
      Descending added) ↔
      ¬ Escapes v t data := by
  obtain ⟨hd, blocks, rest', hfields, hlargest, hfirst, h64, hlen, hb, hs⟩ := processAckFrame_ok h
  have hesc : Escapes v t data ↔ hd.firstBlockLength = 0 ∧ hd.largestAcked + 1 < 2 ^ 64 ∧
      escapesFrom (hd.largestAcked + 1) blocks = true := by
    constructor
    · rintro ⟨hd', blocks', rest'', hfields', hrest⟩
      rw [hfields] at hfields'
      obtain ⟨⟨rfl, rfl⟩, -⟩ : (hd = hd' ∧ blocks = blocks') ∧ rest' = rest'' := by
        simpa only [Except.ok.injEq, Prod.mk.injEq] using hfields'
      exact hrest
    · intro hrest
      exact ⟨hd, blocks, rest', hfields, hrest⟩
  have hsorted : Sorted 0 frame.packets.intervals := frame.packets.sorted
  rw [hesc, hlargest]
  simp only [hsorted, true_and]
  by_cases htop : hd.largestAcked + 1 < 2 ^ 64
  · have hwrap : wrap64 (hd.largestAcked + 1) = hd.largestAcked + 1 := Nat.mod_eq_of_lt htop
    rw [hwrap] at hs hfirst
    by_cases hzero : hd.firstBlockLength = 0
    · have hempty : empty.addRange (hd.largestAcked + 1) (hd.largestAcked + 1) = .empty :=
        addRange_of_eq (by rw [PacketNumbers.addRange, if_pos le_rfl])
      rw [hzero, Nat.sub_zero, hempty] at hs
      refine (addBlocks_empty le_rfl htop (by omega : _ ≤ _ + 255 * 0) (by omega) hb hs).trans ?_
      simp only [hzero, htop, true_and, Bool.not_eq_true]
    · have hbelow : Below hd.largestAcked (hd.largestAcked + 1 - hd.firstBlockLength) 0 _ :=
        below_first (by omega) le_rfl
      simp only [hzero, false_and, not_false_eq_true, iff_true]
      exact hbelow.addBlocks (by omega) (by omega) (by omega) hb hs
  · have hlast : hd.largestAcked = 2 ^ 64 - 1 := by omega
    have hwrap : wrap64 (hd.largestAcked + 1) = 0 := by rw [hlast]; rfl
    rw [hwrap] at hs hfirst
    have hempty : empty.addRange 0 0 = .empty :=
      addRange_of_eq (by rw [PacketNumbers.addRange, if_pos le_rfl])
    rw [Nat.zero_sub, hempty] at hs
    simp only [htop, false_and, and_false, not_false_eq_true, iff_true]
    rw [hlast]
    exact addBlocks_top (by omega : 0 + blocks.length ≤ 255) hb hs

/-- The largest packet is 5, with two packets in the first block and two more after a gap of one. -/
theorem parsed_ack_sound_two_blocks :
    ∃ frame, processAckFrame .quic41 0 0xb0 [1, 0, 5, 0, 0, 2, 1, 2] = .ok ((frame, [⟨1, 3⟩, ⟨4, 6⟩]), []) ∧
      frame.packets.intervals = [⟨1, 3⟩, ⟨4, 6⟩] ∧ ¬ Escapes .quic41 0xb0 [1, 0, 5, 0, 0, 2, 1, 2] := by
  obtain ⟨frame, hframe, hlargest, hpackets⟩ :
      ∃ frame, processAckFrame .quic41 0 0xb0 [1, 0, 5, 0, 0, 2, 1, 2] =
      .ok ((frame, [⟨1, 3⟩, ⟨4, 6⟩]), []) ∧ frame.largestObserved = 5 ∧
        frame.packets.intervals = [⟨1, 3⟩, ⟨4, 6⟩] :=
    ⟨_, rfl, rfl, rfl⟩
  refine ⟨frame, hframe, hpackets,
    (parsed_ack_sound_iff hframe).1 ⟨fun x hx => ?_, frame.packets.sorted, ?_⟩⟩
  · rw [PacketNumberQueue.mem_iff, hpackets, missing_cons, missing_cons] at hx
    simp only [missing_nil, or_false] at hx
    omega
  · constructor <;> simp

/-- The largest packet is 0 and the first block is empty; the second one has a gap of two and a
    length of `2 ^ 64 - 2`. -/
theorem parsed_ack_escapes :
    ∃ frame added, processAckFrame .quic41 0 0xb3
        [1, 0, 0, 0, 0, 0, 0, 0, 0, 0, 0, 0, 0, 2, 0xff, 0xff, 0xff, 0xff, 0xff, 0xff, 0xff, 0xfe] =
          .ok ((frame, added), []) ∧
      frame.largestObserved = 0 ∧ 7 ∈ frame.packets := by
  refine ⟨_, _, rfl, rfl, ?_⟩
  decide +kernel

end Puic
