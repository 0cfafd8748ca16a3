/-
  What a truncated ACK still says.

  The writer announces blocks in the type byte from the untruncated count but writes
  their number only if it writes a block, and the room it reckons with is not always
  there.  `truncated_ack_iff` says for which frames and writers the peer gets a part of
  the packets from the top, all of them if they fit.
-/
import Puic.AckEncode

namespace Puic

open Wire GapList QuicAckFrame Reader PacketNumbers Writer List

/-! ## Intervals and blocks -/

/-- Intervals below `previousStart`, the highest first. -/
def DescendingBelow : ℕ → List Gap → Prop
  | _, [] => True
  | previousStart, g :: gs => g.lo < g.hi ∧ g.hi < previousStart ∧ DescendingBelow g.lo gs

/-- How many blocks a gap needs. -/
def blocksFor (gap : ℕ) : ℕ := (gap + 254) / 255

def totalBlocks : ℕ → List Gap → ℕ
  | _, [] => 0
  | previousStart, g :: gs => blocksFor (previousStart - g.hi) + totalBlocks g.lo gs

/-- The intervals that `left` blocks can tell. -/
def shown : ℕ → ℕ → List Gap → List Gap
  | _, _, [] => []
  | previousStart, left, g :: gs =>
    if blocksFor (previousStart - g.hi) ≤ left then
      g :: shown g.lo (left - blocksFor (previousStart - g.hi)) gs else []

/-- No gap among those that are written is so large that the count of its blocks wraps around. -/
def GapsEncodable : ℕ → ℕ → List Gap → Prop
  | _, _, [] => True
  | previousStart, left, g :: gs =>
    left = 0 ∨ (previousStart - g.hi + 254 < 2 ^ 64 ∧
      (blocksFor (previousStart - g.hi) ≤ left →
        GapsEncodable g.lo (left - blocksFor (previousStart - g.hi)) gs))

section Blocks

variable {prev left a b fr : ℕ} {g : Gap} {gs q : List Gap} {s s' : AckedPackets} {info : AckFrameInfo}

theorem descendingBelow_of_sorted (h : Sorted 0 (g :: gs).reverse) :
    g.lo < g.hi ∧ DescendingBelow g.lo gs := by
  induction gs generalizing g with
  | nil => exact ⟨h.2.1, trivial⟩
  | cons k gs ih =>
    rw [reverse_cons] at h
    obtain ⟨hgs, hlt, -, hg, -⟩ := h.split
    obtain ⟨hk, hks⟩ := ih hgs
    exact ⟨hg, hk, hlt k (by simp), hks⟩

theorem blocksFor_pos (h : 0 < a) : 0 < blocksFor a := by
  unfold blocksFor
  omega

theorem numEncodedGaps_eq (h : a + 254 < 2 ^ 64) : numEncodedGaps a = blocksFor a := by
  rw [numEncodedGaps, wrap64, Nat.mod_eq_of_lt h, blocksFor]

theorem addRange_front (hab : a < b) (hb : b < g.lo) (hq : Sorted 0 (g :: q)) :
    addRange (g :: q) a b = ⟨a, b⟩ :: g :: q := by
  obtain ⟨p, back, hp, hlt, hback⟩ := exists_back hq (cons_ne_nil _ _)
  have hlast : (g :: q).getLast? = some back := by rw [hp, getLast?_concat]
  have hg := hback g (.head _)
  have := hq.2.1
  rw [addRange, if_neg (not_le.2 hab), hlast]
  dsimp only [head?_cons]
  rw [if_neg (by omega), if_neg (by omega), if_neg (by omega), if_pos hb]

theorem addBlocks_replicate (n : ℕ) {bs : List (ℕ × ℕ)} (h : 255 * n ≤ fr) :
    addBlocks fr s (replicate n (255, 0) ++ bs) = addBlocks (fr - 255 * n) s bs := by
  induction n generalizing fr with
  | zero => rfl
  | succ n ih =>
    have hone : s.addBlock fr 255 0 = some (fr - 255, s) := by
      have hw : wrap64 (255 + 0) = 255 := rfl
      rw [AckedPackets.addBlock, hw]
      dsimp only
      rw [if_neg (by omega), if_neg (by omega)]
    have hdown : fr - 255 - 255 * n = fr - 255 * (n + 1) := by omega
    rw [replicate_succ, cons_append, addBlocks, hone, Option.bind_some, ih (by omega), hdown]

theorem addBlock_last {gap : ℕ} (hfr : fr < 2 ^ 64) (hgap : gap + (g.hi - g.lo) ≤ fr)
    (hhi : fr - gap = g.hi) (hg : g.lo < g.hi) :
    s.addBlock fr gap (g.hi - g.lo) = some (g.lo, s.addRange g.lo g.hi) := by
  have hw : wrap64 (gap + (g.hi - g.lo)) = gap + (g.hi - g.lo) := Nat.mod_eq_of_lt (by omega)
  have hlo : fr - (gap + (g.hi - g.lo)) = g.lo := by omega
  have hhi' : wrap64 (g.lo + (g.hi - g.lo)) = g.hi := by
    rw [wrap64, Nat.mod_eq_of_lt (by omega)]
    omega
  rw [AckedPackets.addBlock, hw]
  dsimp only
  rw [if_neg (by omega), if_pos (by omega), hlo, hhi']

theorem addBlocks_ackBlocks_cons (hg : g.lo < g.hi) (hgp : g.hi < prev) (hprev : prev < 2 ^ 64)
    (hwrap : prev - g.hi + 254 < 2 ^ 64) (hfit : blocksFor (prev - g.hi) ≤ left) :
    addBlocks prev s (ackBlocks prev left (g :: gs)) =
      addBlocks g.lo (s.addRange g.lo g.hi) (ackBlocks g.lo (left - blocksFor (prev - g.hi)) gs) := by
  -- a gap of `blocksFor` blocks is larger than what the empty ones cover
  have hcover : 255 * (blocksFor (prev - g.hi) - 1) < prev - g.hi ∧
      prev - g.hi ≤ 255 * blocksFor (prev - g.hi) := by
    unfold blocksFor
    omega
  have hmin : min (blocksFor (prev - g.hi) - 1) left = blocksFor (prev - g.hi) - 1 := by omega
  have hleft : left - (blocksFor (prev - g.hi) - 1) - 1 = left - blocksFor (prev - g.hi) := by omega
  have hgap : (prev - g.hi + 255 - blocksFor (prev - g.hi) * 255) % 256 =
      prev - g.hi + 255 - blocksFor (prev - g.hi) * 255 := Nat.mod_eq_of_lt (by omega)
  rw [ackBlocks, if_neg (by omega)]
  dsimp only
  rw [numEncodedGaps_eq hwrap, hmin, if_neg (by omega), addBlocks_replicate _ (by omega), addBlocks, hgap,
    addBlock_last (by omega) (by omega) (by omega) hg, Option.bind_some, hleft]

theorem addRange_intervals (hs : s.packets.intervals = g :: q) (hab : a < b) (hb : b < g.lo) :
    (s.addRange a b).packets.intervals = ⟨a, b⟩ :: s.packets.intervals := by
  have hsorted : Sorted 0 (g :: q) := hs ▸ s.packets.sorted
  change addRange s.packets.intervals a b = _
  rw [hs, addRange_front hab hb hsorted]

theorem addBlocks_ackBlocks (hdesc : DescendingBelow prev gs) (hprev : prev < 2 ^ 64)
    (henc : GapsEncodable prev left gs)
    (hs : s.packets.intervals = g :: q) (hg : g.lo = prev) :
    ∃ s', addBlocks prev s (ackBlocks prev left gs) = some s' ∧
      s'.packets.intervals = (shown prev left gs).reverse ++ s.packets.intervals := by
  induction gs generalizing prev left s g q with
  | nil => exact ⟨s, rfl, rfl⟩
  | cons k gs ih =>
    obtain ⟨hk, hkp, hdesc⟩ := hdesc
    have hpos := blocksFor_pos (a := prev - k.hi) (by omega)
    rw [shown]
    by_cases hleft : left = 0
    · rw [ackBlocks, if_pos hleft, if_neg (by omega)]
      exact ⟨s, rfl, rfl⟩
    obtain ⟨hwrap, henc⟩ := henc.resolve_left hleft
    by_cases hfit : blocksFor (prev - k.hi) ≤ left
    · have hadd := addRange_intervals hs hk (by omega)
      obtain ⟨s', hs', hi⟩ := ih hdesc (by omega) (henc hfit) hadd rfl
      rw [addBlocks_ackBlocks_cons hk hkp hprev hwrap hfit, if_pos hfit]
      refine ⟨s', hs', ?_⟩
      rw [hi, hadd, reverse_cons, append_assoc]
      rfl
    · -- only empty blocks are left
      have hcover : 255 * (blocksFor (prev - k.hi) - 1) < prev - k.hi := by
        unfold blocksFor
        omega
      have hmin : min (blocksFor (prev - k.hi) - 1) left = left := by omega
      rw [ackBlocks, if_neg hleft]
      dsimp only
      rw [numEncodedGaps_eq hwrap, hmin, Nat.sub_self, if_pos rfl, if_neg hfit,
        addBlocks_replicate _ (by omega)]
      exact ⟨s, rfl, rfl⟩

theorem DescendingBelow.missing_lt (h : DescendingBelow prev gs) {x : ℕ} (hx : Missing gs x) :
    x < prev := by
  induction gs generalizing prev with
  | nil => exact absurd hx missing_nil
  | cons g gs ih =>
    obtain ⟨hg, hgp, h⟩ := h
    rcases missing_cons.1 hx with hx | hx
    · omega
    · have := ih h hx
      omega

/-- The count of a gap wraps around, and its block ends too high. -/
theorem addBlocks_wrapped (hdesc : DescendingBelow prev gs) (hprev : prev < 2 ^ 64)
    (henc : ¬ GapsEncodable prev left gs)
    (hs : s.packets.intervals = g :: q) (hg : g.lo = prev)
    (ha : addBlocks prev s (ackBlocks prev left gs) = some s') :
    ∃ x ∈ s'.packets, x < prev ∧ ¬ Missing gs x := by
  induction gs generalizing prev left s g q with
  | nil => exact absurd trivial henc
  | cons k gs ih =>
    obtain ⟨hk, hkp, hdesc⟩ := hdesc
    rw [GapsEncodable, not_or] at henc
    obtain ⟨hleft, henc⟩ := henc
    by_cases hwrap : prev - k.hi + 254 < 2 ^ 64
    · have hfit : blocksFor (prev - k.hi) ≤ left := by
        by_contra hn
        exact henc ⟨hwrap, fun h => absurd h hn⟩
      rw [addBlocks_ackBlocks_cons hk hkp hprev hwrap hfit] at ha
      obtain ⟨x, hx, hlt, hmiss⟩ := ih hdesc (by omega) (fun h => henc ⟨hwrap, fun _ => h⟩)
        (addRange_intervals hs hk (by omega)) rfl ha
      refine ⟨x, hx, by omega, ?_⟩
      rw [missing_cons, not_or]
      exact ⟨by omega, hmiss⟩
    · have hzero : numEncodedGaps (prev - k.hi) = 0 := by
        rw [numEncodedGaps, wrap64, Nat.mod_eq_sub_mod (by omega), Nat.mod_eq_of_lt (by omega)]
        omega
      rw [ackBlocks, if_neg hleft] at ha
      dsimp only at ha
      rw [hzero, Nat.zero_sub, Nat.zero_min, Nat.sub_zero, if_neg hleft] at ha
      obtain ⟨r, hr, ha⟩ := Option.bind_eq_some_iff.1 ha
      have hsorted : Sorted g.lo (g :: q) := ⟨le_rfl, (hs ▸ s.packets.sorted : Sorted 0 (g :: q)).2⟩
      have hlow : ∀ y ∈ s.packets, prev ≤ y := by
        intro y hy
        rw [PacketNumberQueue.mem_iff, hs] at hy
        rw [← hg]
        exact hsorted.missing_ge hy
      obtain ⟨-, -, h2⟩ := AckedPackets.addBlock_plain hr hprev (by omega)
      rw [if_pos (by omega)] at h2
      refine ⟨prev - (prev - k.hi + 255 - 0 * 255) % 256 - 1, addBlocks_mono ha ?_, by omega, ?_⟩
      · rw [h2, AckedPackets.mem_addRange_below (by omega) fun y hy => ?_]
        · exact .inl ⟨by omega, by omega⟩
        · have := hlow y hy
          omega
      · rw [missing_cons, not_or]
        refine ⟨by omega, fun hx => ?_⟩
        have := hdesc.missing_lt hx
        omega

/-! ## Counting blocks -/

/-- The blocks that `GetAckFrameInfo` would count without its limit. -/
def countedBlocks : ℕ → List Gap → ℕ
  | _, [] => 0
  | previousStart, g :: gs => numEncodedGaps (previousStart - g.hi) + countedBlocks g.lo gs

theorem numAckBlocks_ackFrameInfo (prev : ℕ) (info : AckFrameInfo) (gs : List Gap) :
    (ackFrameInfo prev info gs).numAckBlocks ≤ info.numAckBlocks + countedBlocks prev gs := by
  induction gs generalizing prev info with
  | nil => exact le_rfl
  | cons g gs ih =>
    rw [ackFrameInfo, countedBlocks]
    split
    · exact (ih _ _).trans (by dsimp only; omega)
    · omega

theorem length_ackBlocks (h : left ≤ countedBlocks prev gs) : (ackBlocks prev left gs).length = left := by
  induction gs generalizing prev left with
  | nil =>
    exact (Nat.le_zero.1 h).symm
  | cons g gs ih =>
    rw [countedBlocks] at h
    rw [ackBlocks]
    split
    · next h0 => rw [h0]; rfl
    next h0 =>
    rw [length_append, length_replicate]
    split
    · rw [length_nil]
      omega
    · rw [length_cons, ih (by omega)]
      omega

theorem totalBlocks_pos (hdesc : DescendingBelow prev (g :: gs)) : 0 < totalBlocks prev (g :: gs) := by
  have := blocksFor_pos (a := prev - g.hi) (by have := hdesc.2.1; omega)
  rw [totalBlocks]
  omega

/-- With at most 255 blocks in all, every one of them is counted. -/
theorem numAckBlocks_eq_totalBlocks (hdesc : DescendingBelow prev gs)
    (h : info.numAckBlocks + totalBlocks prev gs ≤ 255) :
    (ackFrameInfo prev info gs).numAckBlocks = info.numAckBlocks + totalBlocks prev gs := by
  induction gs generalizing prev info with
  | nil => rfl
  | cons g gs ih =>
    have hpos := totalBlocks_pos hdesc
    rw [totalBlocks] at h hpos ⊢
    have hgap : prev - g.hi + 254 < 2 ^ 64 := by
      unfold blocksFor at h
      omega
    rw [ackFrameInfo, if_pos (by omega), ih hdesc.2.2 (by dsimp only; rw [numEncodedGaps_eq hgap]; omega)]
    dsimp only
    rw [numEncodedGaps_eq hgap]
    omega

theorem numAckBlocks_le_totalBlocks (prev : ℕ) (info : AckFrameInfo) (gs : List Gap) :
    (ackFrameInfo prev info gs).numAckBlocks ≤ info.numAckBlocks + totalBlocks prev gs := by
  have hle : countedBlocks prev gs ≤ totalBlocks prev gs := by
    induction gs generalizing prev with
    | nil => exact le_rfl
    | cons g gs ih =>
      have hmod := Nat.mod_le (prev - g.hi + 254) (2 ^ 64)
      exact Nat.add_le_add (Nat.div_le_div_right hmod) (ih g.lo)
  exact (numAckBlocks_ackFrameInfo prev info gs).trans (Nat.add_le_add_left hle _)

@[simp] theorem firstBlockLength_ackFrameInfo :
    (ackFrameInfo prev info gs).firstBlockLength = info.firstBlockLength := by
  induction gs generalizing prev info with
  | nil => rfl
  | cons g gs ih =>
    rw [ackFrameInfo]
    split
    · rw [ih]
    · rfl

theorem le_maxBlockLength (prev : ℕ) (info : AckFrameInfo) (gs : List Gap) :
    info.maxBlockLength ≤ (ackFrameInfo prev info gs).maxBlockLength := by
  induction gs generalizing prev info with
  | nil => exact le_rfl
  | cons g gs ih =>
    rw [ackFrameInfo]
    split
    · refine le_trans ?_ (ih _ _)
      exact le_max_left _ _
    · exact le_rfl

/-- The lengths that are written are among those that have been looked at. -/
theorem ackBlocks_bounds (info : AckFrameInfo) (h : left + info.numAckBlocks ≤ 255) :
    ∀ b ∈ ackBlocks prev left gs, b.1 < 256 ∧ b.2 ≤ (ackFrameInfo prev info gs).maxBlockLength := by
  induction gs generalizing prev left info with
  | nil => simp [ackBlocks]
  | cons g gs ih =>
    intro b hb
    rw [ackBlocks] at hb
    split at hb
    · exact absurd hb not_mem_nil
    next h0 =>
    rcases mem_append.1 hb with hb | hb
    · rw [eq_of_mem_replicate hb]
      exact ⟨by decide, Nat.zero_le _⟩
    split at hb
    · exact absurd hb not_mem_nil
    rw [ackFrameInfo, if_pos (by omega)]
    rcases mem_cons.1 hb with rfl | hb
    · refine ⟨Nat.mod_lt _ (by decide), le_trans ?_ (le_maxBlockLength _ _ _)⟩
      exact le_max_right _ _
    · exact ih _ (by dsimp only; omega) b hb

theorem shown_eq_iff (hdesc : DescendingBelow prev gs) :
    shown prev left gs = gs ↔ totalBlocks prev gs ≤ left := by
  induction gs generalizing prev left with
  | nil => simp [shown, totalBlocks]
  | cons g gs ih =>
    rw [shown, totalBlocks]
    split
    · next hfit =>
      rw [cons.injEq, ih hdesc.2.2]
      simp only [true_and]
      omega
    · next hfit =>
      simp only [reduceCtorEq, nil_eq, false_iff]
      omega

theorem exists_shown_append (prev left : ℕ) (gs : List Gap) :
    ∃ rest, gs = shown prev left gs ++ rest := by
  induction gs generalizing prev left with
  | nil => exact ⟨[], rfl⟩
  | cons g gs ih =>
    rw [shown]
    split
    · obtain ⟨rest, hrest⟩ := ih g.lo (left - blocksFor (prev - g.hi))
      exact ⟨rest, by rw [cons_append, ← hrest]⟩
    · exact ⟨g :: gs, rfl⟩

end Blocks

/-! ## How much is read -/

section Consumed

variable {v : TransportVersion} {t : UInt8} {data rest : List UInt8} {length k n last largest : ℕ}

def timestampsSize (n : ℕ) : ℕ := if n = 0 then 0 else 5 + 3 * (n - 1)

theorem takes_processAckBlocks {fr : ℕ} {s : AckedPackets} :
    (processAckBlocks length k fr s).Takes (k * (length + 1)) := by
  induction k generalizing fr s with
  | zero =>
    rw [Nat.zero_mul]
    exact .pure
  | succ k ih =>
    have hsum : (k + 1) * (length + 1) = 1 + (length + k * (length + 1)) := by ring
    rw [hsum]
    refine .bind .uint fun gap => .bind .uint fun n => ?_
    cases s.addBlock fr gap n with
    | none => exact .fail
    | some r => exact ih

theorem takes_processTimestampDeltas : (processTimestampDeltas largest k last).Takes (3 * k) := by
  induction k generalizing last with
  | zero => exact .pure
  | succ k ih =>
    have hsum : 3 * (k + 1) = 1 + (2 + 3 * k) := by ring
    rw [hsum]
    exact .bind .uint fun _ => .bind .uint fun _ => ih.map

theorem takes_processTimestampsInAckFrame :
    (processTimestampsInAckFrame last largest n).Takes (timestampsSize n) := by
  unfold processTimestampsInAckFrame timestampsSize
  split
  · exact .pure
  · have hsum : 5 + 3 * (n - 1) = 1 + (4 + 3 * (n - 1)) := by ring
    rw [hsum]
    exact .bind .uint fun _ => .bind .uint fun _ => takes_processTimestampDeltas.map

theorem takes_readAckHeader : (readAckHeader v t).Takes
    ((if extractBit t (hasMultipleAckBlocksOffset v) then 1 else 0) + (if v = .quic41 then 1 else 0) +
      largestAckedLength v t + 2 + ackBlockLength v t) := by
  intro data hd rest h
  have hsum := Takes.bind .uintIf
    (fun _ => .bind .uintIf fun _ => .bind .uint fun _ => .bind .uint fun _ =>
    .bind .uintIf fun _ => .map .uint) h
  -- the number of blocks is read once, in one of two places
  have hcount : (if v = .quic41 ∧ extractBit t (hasMultipleAckBlocksOffset v) then 1 else 0) +
      (if v = .quic39 ∧ extractBit t (hasMultipleAckBlocksOffset v) then 1 else 0) =
      if extractBit t (hasMultipleAckBlocksOffset v) then 1 else 0 := by
    cases v <;> simp
  omega

theorem processAckFrame_length {frame : QuicAckFrame} {added : List Gap}
    (h : processAckFrame v last t data = .ok ((frame, added), rest)) :
    ∃ hd data₁ n, readAckHeader v t data = .ok (hd, data₁) ∧ frame.largestObserved = hd.largestAcked ∧
      (v = .quic41 → n = hd.numReceivedPackets) ∧
      data.length = (if extractBit t (hasMultipleAckBlocksOffset v) then 1 else 0) + 1 +
        largestAckedLength v t + 2 +
        ackBlockLength v t + hd.numAckBlocks * (ackBlockLength v t + 1) + timestampsSize n +
          rest.length := by
  obtain ⟨hd, data₁, hhead, h⟩ := bind_ok.1 h
  split at h
  · exact absurd h fail_ok
  obtain ⟨s, data₂, hblocks, h⟩ := bind_ok.1 h
  obtain ⟨n, data₃, hn, h⟩ := bind_ok.1 h
  obtain ⟨times, data₄, htimes, h⟩ := bind_ok.1 h
  obtain ⟨⟨rfl, -⟩, rfl⟩ : (frame = _ ∧ added = s.added) ∧ rest = data₄ := by
    simpa only [Prod.mk.injEq] using pure_ok.1 h
  refine ⟨hd, data₁, n, hhead, rfl, ?_, ?_⟩
  · rintro rfl
    exact (Prod.mk.inj (pure_ok.1 hn)).1
  · rw [takes_readAckHeader hhead, takes_processAckBlocks hblocks, Takes.uintIf hn,
      takes_processTimestampsInAckFrame htimes]
    cases v <;> simp <;> omega

end Consumed

/-! ## The frame -/

namespace QuicAckFrame

/-- The number of blocks for everything below the newest interval. -/
def total (frame : QuicAckFrame) : ℕ :=
  match frame.packets.intervals.reverse with
  | [] => 0
  | g :: gs => totalBlocks g.lo gs

def GapsFit (frame : QuicAckFrame) (num : ℕ) : Prop :=
  match frame.packets.intervals.reverse with
  | [] => True
  | g :: gs => GapsEncodable g.lo num gs

/-- The room for timestamps. -/
def left (v : TransportVersion) (frame : QuicAckFrame) (room : ℕ) : ℤ :=
  frame.available v room - frame.numBlocks v room * (frame.blockLength v + 1)

/-- What the encoding needs. -/
structure Fits (v : TransportVersion) (frame : QuicAckFrame) (room : ℕ) : Prop where
  /-- With version 39 the numbers have at most six bytes. -/
  numbers : v = .quic39 → frame.packets.largest < 2 ^ 48 ∧ frame.info.firstBlockLength < 2 ^ 48
  /-- There is room for the fields that are always there. -/
  header : 0 ≤ frame.available v room
  /-- If blocks are announced, there is room for one. -/
  announced : frame.info.numAckBlocks ≠ 0 → 0 < frame.numBlocks v room
  /-- The room is not so large that the number of blocks is too small. -/
  whole : frame.total ≤ 255 → frame.total * (frame.blockLength v + 1) ≤ frame.available v room →
    frame.numBlocks v room = frame.total
  gaps : frame.GapsFit (frame.numBlocks v room)
  /-- Version 39 can leave out the timestamps, unless they take exactly one byte more than there is. -/
  times : match v with
    | .quic39 => (frame.timeStampSize : ℤ) ≠ frame.left v room + 1
    | .quic41 => (frame.timeStampSize : ℤ) ≤ frame.left v room
  stamps : (frame.timeStampSize : ℤ) ≤ frame.left v room →
    TimesEncodable frame.packets.largest frame.receivedPacketTimes

/-- The peer gets the packets of the frame from the top, all of them exactly if their blocks fit. -/
def Survives (v : TransportVersion) (last : ℕ) (frame : QuicAckFrame) (w : Writer) : Prop :=
  ∃ w' type body frame' added, appendAckFrameAndTypeByte v frame w = some w' ∧ w'.capacity = w.capacity ∧
    w'.data = w.data ++ type :: body ∧ processAckFrame v last type body = .ok ((frame', added), []) ∧
    (∀ x ∈ frame'.packets, x ∈ frame.packets) ∧
    (∀ g, frame.packets.intervals.getLast? = some g → ∀ x, g.lo ≤ x → x < g.hi → x ∈ frame'.packets) ∧
    frame'.largestObserved = frame.packets.largest ∧
    (frame'.packets = frame.packets ↔ frame.total ≤ 255 ∧
      getMinAckFrameSize (frame.largestLength v) + frame.blockLength v +
        (if frame.total = 0 then 0 else 1 + frame.total * (frame.blockLength v + 1)) ≤ w.room)

end QuicAckFrame

section Frame

variable {v : TransportVersion} {frame : QuicAckFrame} {g : Gap} {gs : List Gap} {num room last : ℕ}
    {w : Writer}

theorem getMinPacketNumberLength_mem (v : TransportVersion) (n : ℕ) :
    getMinPacketNumberLength v n = 1 ∨ getMinPacketNumberLength v n = 2 ∨
      getMinPacketNumberLength v n = 4 ∨
      getMinPacketNumberLength v n = if v = .quic39 then 6 else 8 := by
  unfold getMinPacketNumberLength
  split_ifs <;> simp

theorem lt_getMinPacketNumberLength {n : ℕ} (hn : n < 2 ^ 64) (h39 : v = .quic39 → n < 2 ^ 48) :
    n < 256 ^ getMinPacketNumberLength v n := by
  unfold getMinPacketNumberLength
  split_ifs with h1 h2 h3 h4
  · exact h1
  · exact h2
  · exact h3
  · exact h39 h4
  · exact hn

theorem length_bodyBytes (v : TransportVersion) (frame : QuicAckFrame) (num : ℕ) (n : UInt8) :
    (frame.bodyBytes v num n).length = (if v = .quic41 then 1 else 0) + (if 0 < num then 1 else 0) +
      frame.largestLength v + 2 + frame.blockLength v +
        (frame.blocks num).length * (frame.blockLength v + 1) := by
  cases v
  all_goals
    simp only [bodyBytes, headBytes, delayBytes, length_append,
      length_cons, length_encode, length_blockBytes, apply_ite length, length_nil, reduceCtorEq,
      Nat.zero_add, if_true, if_false]
    omega

theorem numBlocks_le_info (v : TransportVersion) (frame : QuicAckFrame) (room : ℕ) :
    frame.numBlocks v room ≤ frame.info.numAckBlocks :=
  (min_le_left _ _).trans (min_le_left _ _)

theorem numBlocks_le (v : TransportVersion) (frame : QuicAckFrame) (room : ℕ) :
    frame.numBlocks v room ≤ 255 :=
  min_le_right _ _

theorem maxNumAckBlocks_eq {a : ℤ} (ha : 0 ≤ a) (hlt : a < 2 ^ 31) (n : ℕ) :
    ((a.bmod (2 ^ 32)).tdiv (n + 1) % 2 ^ 64).toNat = (a / (n + 1)).toNat := by
  have hq : a / (n + 1 : ℤ) ≤ a := Int.ediv_le_self _ ha
  have hq0 : 0 ≤ a / (n + 1 : ℤ) := Int.ediv_nonneg ha (by omega)
  rw [Int.bmod_eq_of_le (by omega) (by omega), Int.tdiv_eq_ediv_of_nonneg ha,
    Int.emod_eq_of_lt hq0 (by omega)]

theorem numBlocks_fit (h : 0 ≤ frame.available v room) :
    (frame.numBlocks v room * (frame.blockLength v + 1) : ℤ) ≤ frame.available v room := by
  have hlen : frame.blockLength v ≤ 8 := by
    rcases getMinPacketNumberLength_mem v frame.info.maxBlockLength with h | h | h | h
    all_goals
      unfold blockLength
      rw [h]
      try split
      all_goals decide
  by_cases hlt : frame.available v room < 2 ^ 31
  · have hnum : frame.numBlocks v room ≤ (frame.available v room / (frame.blockLength v + 1)).toNat := by
      rw [← maxNumAckBlocks_eq h hlt]
      exact (min_le_left _ _).trans (min_le_right _ _)
    have hpos : (0 : ℤ) < frame.blockLength v + 1 := by omega
    have hq0 := Int.ediv_nonneg h hpos.le
    have hle : (frame.numBlocks v room : ℤ) ≤ frame.available v room / (frame.blockLength v + 1) :=
      by omega
    calc (frame.numBlocks v room * (frame.blockLength v + 1) : ℤ)
        ≤ frame.available v room / (frame.blockLength v + 1) * (frame.blockLength v + 1) :=
          Int.mul_le_mul_of_nonneg_right hle hpos.le
      _ ≤ frame.available v room := Int.ediv_mul_le _ hpos.ne'
  · have hnum := numBlocks_le v frame room
    have hprod : frame.numBlocks v room * (frame.blockLength v + 1) ≤ 255 * 9 :=
      Nat.mul_le_mul hnum (by omega)
    have hprod' : ((frame.numBlocks v room * (frame.blockLength v + 1) : ℕ) : ℤ) ≤ 255 * 9 :=
      by exact_mod_cast hprod
    push_cast at hprod'
    omega

theorem available_le_of_numBlocks (hroom : room < 2 ^ 31) (hinfo : frame.info.numAckBlocks ≠ 0)
    (hnum : frame.numBlocks v room = 0) : frame.available v room ≤ frame.blockLength v := by
  by_contra hlt
  have h0 : 0 ≤ frame.available v room := by omega
  have hle : frame.available v room ≤ room := by
    unfold available
    split <;> omega
  have hq : 1 ≤ frame.available v room / (frame.blockLength v + 1) :=
    (Int.le_ediv_iff_mul_le (by omega)).2 (by omega)
  have hmax := maxNumAckBlocks_eq h0 (by omega) (frame.blockLength v)
  unfold numBlocks at hnum
  dsimp only at hnum
  omega

theorem numBlocks_of_room (hsmall : room < 2 ^ 31) (hroom : frame.size v ≤ room) :
    frame.numBlocks v room = min frame.info.numAckBlocks 255 ∧
      frame.left v room = room - frame.size v + frame.timeStampSize := by
  have hprod : ((min frame.info.numAckBlocks 255 * (frame.blockLength v + 1) : ℕ) : ℤ) =
      (min frame.info.numAckBlocks 255 : ℕ) * (frame.blockLength v + 1) := by push_cast; rfl
  have havail : frame.available v room = room - frame.size v + frame.timeStampSize +
      (min frame.info.numAckBlocks 255 : ℕ) * (frame.blockLength v + 1) := by
    rw [← hprod, size, available]
    split
    · omega
    · next h0 =>
      rw [not_not.1 h0, Nat.zero_min, Nat.zero_mul]
      omega
  have hlt : frame.available v room < 2 ^ 31 := by
    unfold available
    split <;> omega
  have hdiv : ((min frame.info.numAckBlocks 255 : ℕ) : ℤ) ≤
      frame.available v room / (frame.blockLength v + 1) :=
    (Int.le_ediv_iff_mul_le (by omega)).2 (by omega)
  have hnum : frame.numBlocks v room = min frame.info.numAckBlocks 255 := by
    unfold numBlocks
    dsimp only
    rw [maxNumAckBlocks_eq (by omega) hlt]
    omega
  refine ⟨hnum, ?_⟩
  rw [left, hnum]
  omega

/-! ### The newest interval and those below it -/

section Intervals

variable (hrev : frame.packets.intervals.reverse = g :: gs)
include hrev

theorem intervals_eq : frame.packets.intervals = gs.reverse ++ [g] := by
  rw [← reverse_reverse frame.packets.intervals, hrev, reverse_cons]

theorem newest_desc : g.lo < g.hi ∧ DescendingBelow g.lo gs := by
  refine descendingBelow_of_sorted ?_
  rw [← hrev, reverse_reverse]
  exact frame.packets.sorted

theorem getLast_eq :
    frame.packets.intervals.getLast? = some g := by rw [intervals_eq hrev, getLast?_concat]

theorem largest_eq : frame.packets.largest = g.hi - 1 := by
  have hne : frame.packets.isEmpty = false := by simp [PacketNumberQueue.isEmpty, intervals_eq hrev]
  simp [PacketNumberQueue.largest, hne, PacketNumberQueue.max, getLast_eq hrev]

theorem mem_frame {x : ℕ} : x ∈ frame.packets ↔ (g.lo ≤ x ∧ x < g.hi) ∨ Missing gs x := by
  rw [PacketNumberQueue.mem_iff, intervals_eq hrev, missing_append, missing_reverse, missing_cons]
  simp [or_comm]

theorem info_eq : frame.info = ackFrameInfo g.lo ⟨g.hi - g.lo, g.hi - g.lo, 0⟩ gs := by
  rw [info, getAckFrameInfo, hrev]

theorem first_eq :
    frame.info.firstBlockLength = g.hi - g.lo := by rw [info_eq hrev, firstBlockLength_ackFrameInfo]

theorem blocks_eq : frame.blocks num = ackBlocks g.lo num gs := by rw [blocks, hrev]

theorem total_eq : frame.total = totalBlocks g.lo gs := by rw [total, hrev]

theorem gapsFit_iff : frame.GapsFit num ↔ GapsEncodable g.lo num gs := by rw [GapsFit, hrev]

theorem length_blocks (hnum : num ≤ frame.info.numAckBlocks) : (frame.blocks num).length = num := by
  have hle := numAckBlocks_ackFrameInfo g.lo ⟨g.hi - g.lo, g.hi - g.lo, 0⟩ gs
  rw [info_eq hrev] at hnum
  dsimp only at hle
  rw [blocks_eq hrev, length_ackBlocks (by omega)]

theorem info_le_total : frame.info.numAckBlocks ≤ frame.total := by
  have hle := numAckBlocks_le_totalBlocks g.lo ⟨g.hi - g.lo, g.hi - g.lo, 0⟩ gs
  rw [info_eq hrev, total_eq hrev]
  exact hle.trans (by dsimp only; omega)

theorem info_eq_total (h : frame.total ≤ 255) : frame.info.numAckBlocks = frame.total := by
  rw [total_eq hrev] at h ⊢
  rw [info_eq hrev, numAckBlocks_eq_totalBlocks (newest_desc hrev).2 (by dsimp only; omega)]
  exact Nat.zero_add _

end Intervals

theorem blocks_length (frame : QuicAckFrame) {num : ℕ} (hnum : num ≤ frame.info.numAckBlocks) :
    (frame.blocks num).length = num := by
  rcases hrev : frame.packets.intervals.reverse with _ | ⟨g, gs⟩
  · have hinfo : frame.info.numAckBlocks = 0 := by rw [info, getAckFrameInfo, hrev]
    rw [blocks, hrev]
    simp only [length_nil]
    omega
  · exact length_blocks hrev hnum

theorem maxBlockLength_lt {M prev : ℕ} {info : AckFrameInfo} (hdesc : DescendingBelow prev gs)
    (hinfo : info.maxBlockLength < M) (hprev : prev ≤ M) :
    (ackFrameInfo prev info gs).maxBlockLength < M := by
  induction gs generalizing prev info with
  | nil => exact hinfo
  | cons k gs ih =>
    obtain ⟨hk, hkp, hdesc⟩ := hdesc
    rw [ackFrameInfo]
    split
    · exact ih hdesc (by dsimp only; omega) (by omega)
    · exact hinfo

/-- What `numbers` is for. -/
structure QuicAckFrame.InRange (v : TransportVersion) (frame : QuicAckFrame) : Prop where
  largest : frame.packets.largest < 256 ^ frame.largestLength v
  first : frame.info.firstBlockLength < 256 ^ frame.blockLength v
  blocks : ∀ num ≤ 255, ∀ b ∈ frame.blocks num, b.1 < 256 ∧ b.2 < 256 ^ frame.blockLength v

theorem inRange (hrev : frame.packets.intervals.reverse = g :: gs) (h64 : g.hi < 2 ^ 64)
    (h39 : v = .quic39 → frame.packets.largest < 2 ^ 48 ∧ frame.info.firstBlockLength < 2 ^ 48) :
    frame.InRange v := by
  obtain ⟨hg, hdesc⟩ := newest_desc hrev
  have hlarge := largest_eq hrev
  have hfirst := first_eq hrev
  have hmax : frame.info.maxBlockLength < 256 ^ frame.blockLength v := by
    refine lt_getMinPacketNumberLength ?_ fun hv => ?_
    · rw [info_eq hrev]
      exact maxBlockLength_lt hdesc (by dsimp only; omega) (by omega)
    · obtain ⟨h1, h2⟩ := h39 hv
      rw [info_eq hrev]
      exact maxBlockLength_lt hdesc (by dsimp only; omega) (by omega)
  refine ⟨lt_getMinPacketNumberLength (by omega) fun hv => (h39 hv).1, ?_, fun num hnum b hb => ?_⟩
  · have hle : g.hi - g.lo ≤ frame.info.maxBlockLength := by
      rw [info_eq hrev]
      exact le_maxBlockLength g.lo ⟨g.hi - g.lo, g.hi - g.lo, 0⟩ gs
    omega
  · rw [blocks_eq hrev] at hb
    obtain ⟨h1, h2⟩ := ackBlocks_bounds ⟨g.hi - g.lo, g.hi - g.lo, 0⟩ (by dsimp only; omega) b hb
    rw [← info_eq hrev] at h2
    exact ⟨h1, by omega⟩

/-! ### In step -/

/-- The bytes up to the timestamps, as `ProcessAckFrame` reads them. -/
theorem reads_ackFields (hrange : frame.InRange v) (hstep : frame.info.numAckBlocks ≠ 0 ↔ 0 < num)
    (hnum : num ≤ 255)
    (hlen : (frame.blocks num).length = num) (n : UInt8) :
    Reads (ackFields v (frame.typeByte v)) (frame.bodyBytes v num n)
    (frame.header v num n, frame.blocks num) := by
  have hblocks := (reads_blockBytes (hrange.blocks num hnum)).map
    (g := fun blocks => (frame.header v num n, blocks))
  rw [hlen, ← (frame.typeByte_fields v).1] at hblocks
  rw [bodyBytes, ← (frame.typeByte_fields v).1]
  exact (reads_headBytes hstep hnum n).bind hblocks

variable {tail body : List UInt8} {times : List (ℕ × ℕ)} {w' : Writer} {frame' : QuicAckFrame}
    {added : List Gap}

theorem reads_processAckFrame {s : AckedPackets} {top : ℕ} (last : ℕ) (n : UInt8)
    (hstep : frame.info.numAckBlocks ≠ 0 ↔ 0 < num) (hnum : num ≤ 255)
    (htop : wrap64 ((frame.header v num n).largestAcked + 1) = top)
    (hfirst : (frame.header v num n).firstBlockLength ≤ top)
    (hblocks : Reads (processAckBlocks (frame.blockLength v)
    num (top - (frame.header v num n).firstBlockLength)
        (AckedPackets.empty.addRange (top - (frame.header v num n).firstBlockLength) top))
      (blockBytes (frame.blockLength v) (frame.blocks num)) s)
    (htimes : Reads (processTimestampsInAckFrame last s.packets.largest n.toNat) tail times) :
    Reads (processAckFrame v last (frame.typeByte v))
      (frame.bodyBytes v num n ++ ((if v = .quic39 then [n] else []) ++ tail))
      (⟨(frame.header v num n).largestAcked, frame.roundedDelay, s.packets, times⟩, s.added) := by
  have hcount : Reads (uintIf (v = .quic39) 1 "Unable to read num received packets."
      (frame.header v num n).numReceivedPackets) (if v = .quic39 then [n] else []) n.toNat := by
    cases v with
    | quic39 => exact Reads.uintIf_pos rfl (Reads.byte n)
    | quic41 => exact Reads.uintIf_neg (by decide)
  rw [← (frame.typeByte_fields v).1] at hblocks
  rw [bodyBytes, append_assoc, ← (frame.typeByte_fields v).1]
  refine (reads_headBytes hstep hnum n).bind ?_
  rw [htop, if_neg (not_lt.2 hfirst)]
  exact hblocks.bind (hcount.bind htimes.map)

/-- The fields of the header are what was written. -/
theorem QuicAckFrame.InRange.header (hrange : frame.InRange v)
    (hrev : frame.packets.intervals.reverse = g :: gs)
    (h64 : g.hi < 2 ^ 64) (num : ℕ) (n : UInt8) :
    (frame.header v num n).largestAcked = frame.packets.largest ∧
      (frame.header v num n).firstBlockLength = g.hi - g.lo ∧
      wrap64 ((frame.header v num n).largestAcked + 1) = g.hi ∧ g.hi - (g.hi - g.lo) = g.lo := by
  obtain ⟨hg, -⟩ := newest_desc hrev
  have hlarge := largest_eq hrev
  have h1 : (frame.header v num n).largestAcked = frame.packets.largest := Nat.mod_eq_of_lt hrange.largest
  refine ⟨h1, (Nat.mod_eq_of_lt hrange.first).trans (first_eq hrev), ?_, by omega⟩
  rw [h1, wrap64, Nat.mod_eq_of_lt (by omega)]
  omega

theorem reads_ack {s : AckedPackets} (last : ℕ) (n : UInt8)
    (hrange : frame.InRange v) (hstep : frame.info.numAckBlocks ≠ 0 ↔ 0 < num) (hnum : num ≤ 255)
    (hlen : (frame.blocks num).length = num) (hrev : frame.packets.intervals.reverse = g :: gs)
    (h64 : g.hi < 2 ^ 64)
    (hs : addBlocks g.lo (AckedPackets.empty.addRange g.lo g.hi) (ackBlocks g.lo num gs) = some s)
    (htimes : Reads (processTimestampsInAckFrame last s.packets.largest n.toNat) tail times) :
    Reads (processAckFrame v last (frame.typeByte v))
      (frame.bodyBytes v num n ++ ((if v = .quic39 then [n] else []) ++ tail))
      (⟨frame.packets.largest, frame.roundedDelay, s.packets, times⟩, s.added) := by
  obtain ⟨h1, h2, htop, hlo⟩ := hrange.header hrev h64 num n
  have hblocks := reads_processAckBlocks (hrange.blocks num hnum) (by rwa [blocks_eq hrev])
  rw [hlen] at hblocks
  rw [← h1]
  exact reads_processAckFrame last n hstep hnum htop (by omega) (by rwa [h2, hlo]) htimes

theorem addRange_empty_intervals (hg : g.lo < g.hi) :
    (AckedPackets.empty.addRange g.lo g.hi).packets.intervals = [g] := by
  change addRange [] g.lo g.hi = _
  rw [addRange, if_neg (not_le.2 hg)]
  rfl

theorem exists_decoded (hrev : frame.packets.intervals.reverse = g :: gs) (h64 : g.hi < 2 ^ 64)
    (hgaps : frame.GapsFit num) :
    ∃ s, addBlocks g.lo (AckedPackets.empty.addRange g.lo g.hi) (ackBlocks g.lo num gs) = some s ∧
      s.packets.intervals = (shown g.lo num gs).reverse ++ [g] := by
  obtain ⟨hg, hdesc⟩ := newest_desc hrev
  have hfirst := addRange_empty_intervals hg
  obtain ⟨s, hs, hi⟩ := addBlocks_ackBlocks hdesc (by omega) ((gapsFit_iff hrev).1 hgaps) hfirst rfl
  exact ⟨s, hs, by rw [hi, hfirst]⟩

section Decoded

variable {s : AckedPackets} (hrev : frame.packets.intervals.reverse = g :: gs)
  (hs : s.packets.intervals = (shown g.lo num gs).reverse ++ [g])
include hrev hs

theorem decoded_largest : s.packets.largest = frame.packets.largest := by
  have hne : s.packets.isEmpty = false := by simp [PacketNumberQueue.isEmpty, hs]
  rw [largest_eq hrev]
  simp [PacketNumberQueue.largest, hne, PacketNumberQueue.max, hs]

theorem decoded_subset : ∀ x ∈ s.packets, x ∈ frame.packets := by
  intro x hx
  rw [PacketNumberQueue.mem_iff, hs, missing_append, missing_reverse] at hx
  rw [mem_frame hrev]
  rcases hx with ⟨k, hk, hx⟩ | hx
  · obtain ⟨rest, hrest⟩ := exists_shown_append g.lo num gs
    exact .inr ⟨k, by rw [hrest]; exact mem_append_left _ hk, hx⟩
  · exact .inl (by simpa [missing_cons] using hx)

omit hrev in
theorem decoded_newest {x : ℕ} (hlo : g.lo ≤ x) (hhi : x < g.hi) : x ∈ s.packets := by
  rw [PacketNumberQueue.mem_iff, hs, missing_append, missing_cons]
  exact .inr (.inl ⟨hlo, hhi⟩)

theorem decoded_eq_iff : s.packets = frame.packets ↔ frame.total ≤ num := by
  have hq : s.packets = frame.packets ↔ s.packets.intervals = frame.packets.intervals :=
    ⟨congrArg _, fun h => by
      exact PacketNumberQueue.mk.injEq .. ▸ h⟩
  rw [hq, hs, intervals_eq hrev, append_left_inj, reverse_inj, shown_eq_iff (newest_desc hrev).2,
    total_eq hrev]

end Decoded

theorem available_eq (hrev : frame.packets.intervals.reverse = g :: gs) (h255 : frame.total ≤ 255) :
    frame.available v room =
      room - frame.blockLength v - getMinAckFrameSize (frame.largestLength v) - if frame.total =
        0 then 0 else 1 := by
  rw [available, info_eq_total hrev h255, ite_not]

/-- All blocks fit, in terms of the room and of what is available. -/
theorem total_fits_iff (hrev : frame.packets.intervals.reverse = g :: gs) (h255 : frame.total ≤ 255) :
    getMinAckFrameSize (frame.largestLength v) + frame.blockLength v +
        (if frame.total = 0 then 0 else 1 + frame.total * (frame.blockLength v + 1)) ≤ room ↔
      frame.total * (frame.blockLength v + 1) ≤ frame.available v room := by
  have hcast : ((frame.total * (frame.blockLength v + 1) : ℕ) : ℤ) =
      frame.total * (frame.blockLength v + 1) := by
    rfl
  rw [← hcast]
  rw [available_eq hrev h255]
  split
  · next h0 =>
    rw [h0, Nat.zero_mul]
    omega
  · omega

theorem total_le_numBlocks_iff (hrev : frame.packets.intervals.reverse = g :: gs)
    (hheader : 0 ≤ frame.available v room)
    (hwhole : frame.total ≤ 255 → frame.total * (frame.blockLength v + 1) ≤ frame.available v room →
      frame.numBlocks v room = frame.total) :
    frame.total ≤ frame.numBlocks v room ↔ frame.total ≤ 255 ∧
      getMinAckFrameSize (frame.largestLength v) + frame.blockLength v +
        (if frame.total = 0 then 0 else 1 + frame.total * (frame.blockLength v + 1)) ≤ room := by
  constructor
  · intro hle
    have h255 := hle.trans (numBlocks_le v frame room)
    have hnum : frame.numBlocks v room = frame.total :=
      le_antisymm ((numBlocks_le_info v frame room).trans (info_le_total hrev)) hle
    have hfit := numBlocks_fit hheader
    rw [hnum] at hfit
    exact ⟨h255, (total_fits_iff hrev h255).2 hfit⟩
  · rintro ⟨h255, hroom⟩
    exact (hwhole h255 ((total_fits_iff hrev h255).1 hroom)).ge

theorem toNat_timestampCount {largest : ℕ} (henc : TimesEncodable largest times) :
    (UInt8.ofNat times.length).toNat = times.length := by
  have := henc.1
  rw [UInt8.toNat_ofNat', Nat.mod_eq_of_lt (by omega)]

section End

variable (hstep : frame.info.numAckBlocks ≠ 0 ↔ 0 < frame.numBlocks v room)
  (hlen : (frame.blocks (frame.numBlocks v room)).length = frame.numBlocks v room)
include hstep hlen

/-- Where the timestamps begin, in terms of the room that is left. -/
theorem length_bodyBytes_left (n : UInt8) :
    ((1 + (frame.bodyBytes v (frame.numBlocks v room) n).length +
      (if v = .quic39 then 1 else 0) : ℕ) : ℤ) =
      room - frame.left v room := by
  have hcast : ((frame.numBlocks v room * (frame.blockLength v + 1) : ℕ) : ℤ) =
      frame.numBlocks v room * (frame.blockLength v + 1) := by
    rfl
  rw [length_bodyBytes, hlen, left, available, ← hcast, getMinAckFrameSize]
  cases v <;> simp <;> split <;> omega

theorem length_fullBytes : ((frame.fullBytes v (frame.numBlocks v room)).length : ℤ) =
    room - frame.left v room + frame.timeStampSize := by
  have hbody := length_bodyBytes_left hstep hlen (UInt8.ofNat frame.receivedPacketTimes.length)
  rw [fullBytes, length_cons, length_append, length_tailBytes]
  omega

theorem length_cutBytes :
    ((frame.cutBytes v (frame.numBlocks v room)).length + (if v = .quic39 then 1 else 0 : ℕ) : ℤ) =
    room - frame.left v room + 1 := by
  have hbody := length_bodyBytes_left hstep hlen 0
  rw [cutBytes, length_cons, length_append, length_singleton]
  omega

end End

/-- What is written depends on the room that is left. -/
theorem append_iff_left (hstep : frame.info.numAckBlocks ≠ 0 ↔ 0 < frame.numBlocks v w.room)
    (hlen : (frame.blocks (frame.numBlocks v w.room)).length = frame.numBlocks v w.room) :
    appendAckFrameAndTypeByte v frame w = some w' ↔
      ((frame.timeStampSize : ℤ) ≤ frame.left v w.room ∧
        TimesEncodable frame.packets.largest frame.receivedPacketTimes ∧
        w.write (frame.fullBytes v (frame.numBlocks v w.room)) = some w') ∨
      (frame.left v w.room + (if v = .quic39 then 1 else 0 : ℕ) < frame.timeStampSize ∧
        w.write (frame.cutBytes v (frame.numBlocks v w.room)) = some w') := by
  have hbody := length_bodyBytes_left hstep hlen 0
  have hfull := length_fullBytes hstep hlen
  rw [appendAckFrameAndTypeByte_iff rfl]
  constructor
  · rintro (⟨-, henc, hw⟩ | ⟨hlt, hw⟩)
    · have := exists_write.1 ⟨w', hw⟩
      exact .inl ⟨by omega, henc, hw⟩
    · exact .inr ⟨by omega, hw⟩
  · rintro (⟨hle, henc, hw⟩ | ⟨hlt, hw⟩)
    · exact .inl ⟨by omega, henc, hw⟩
    · exact .inr ⟨by omega, hw⟩

theorem QuicAckFrame.Fits.survives (hrev : frame.packets.intervals.reverse = g :: gs)
    (h64 : g.hi < 2 ^ 64)
    (h : frame.Fits v w.room) : frame.Survives v last w := by
  have hrange := inRange hrev h64 h.numbers
  have hnum := numBlocks_le v frame w.room
  have hstep : frame.info.numAckBlocks ≠ 0 ↔ 0 < frame.numBlocks v w.room := by
    have := numBlocks_le_info v frame w.room
    exact ⟨h.announced, fun h => by omega⟩
  have hlen := length_blocks hrev (numBlocks_le_info v frame w.room)
  have hleft : 0 ≤ frame.left v w.room := sub_nonneg.2 (numBlocks_fit h.header)
  obtain ⟨s, hs, hi⟩ := exists_decoded hrev h64 h.gaps
  -- the two ways to end, and what is read in both
  have hend : ∃ w' body times, appendAckFrameAndTypeByte v frame w = some w' ∧ w'.capacity = w.capacity ∧
      w'.data = w.data ++ frame.typeByte v :: body ∧ processAckFrame v last (frame.typeByte v) body =
        .ok ((⟨frame.packets.largest, frame.roundedDelay, s.packets, times⟩, s.added), []) := by
    by_cases hts : (frame.timeStampSize : ℤ) ≤ frame.left v w.room
    · have henc := h.stamps hts
      have hread := reads_ack last (UInt8.ofNat frame.receivedPacketTimes.length)
        hrange hstep hnum hlen hrev h64 hs
        (by rw [toNat_timestampCount henc, decoded_largest hrev hi]; exact reads_timestamps henc) []
      rw [append_nil] at hread
      have hfull := length_fullBytes hstep hlen
      obtain ⟨w', hw⟩ :=
        exists_write.2 (by omega : (frame.fullBytes v (frame.numBlocks v w.room)).length ≤ w.room)
      obtain ⟨hc, hd⟩ := write_eq_some.1 hw
      exact ⟨w', _, _, (append_iff_left hstep hlen).2 (.inl ⟨hts, henc, hw⟩), hc, hd, hread⟩
    · cases v with
      | quic41 => exact absurd h.times hts
      | quic39 =>
        have htimes := h.times
        have hread := reads_ack last 0 hrange hstep hnum hlen hrev h64 hs Reads.pure []
        rw [append_nil] at hread
        have hcut := length_cutBytes hstep hlen
        rw [if_pos rfl] at hcut
        obtain ⟨w', hw⟩ := exists_write.2
          (by omega : (frame.cutBytes .quic39 (frame.numBlocks .quic39 w.room)).length ≤ w.room)
        obtain ⟨hc, hd⟩ := write_eq_some.1 hw
        exact ⟨w', _, _, (append_iff_left hstep hlen).2 (.inr ⟨by rw [if_pos rfl]; omega, hw⟩), hc,
          hd, hread⟩
  obtain ⟨w', body, times, happ, hc, hd, hread⟩ := hend
  refine ⟨w', _, body, _, s.added, happ, hc, hd, hread, decoded_subset hrev hi, ?_, rfl, ?_⟩
  · intro k hk x hlo hhi
    rw [getLast_eq hrev, Option.some.injEq] at hk
    subst hk
    exact decoded_newest hi hlo hhi
  · rw [decoded_eq_iff hrev hi]
    exact total_le_numBlocks_iff hrev h.header h.whole

/-! ### Out of step -/

theorem blocks_zero (frame : QuicAckFrame) : frame.blocks 0 = [] := by
  unfold blocks
  split
  · rfl
  · next g gs _ => cases gs <;> rfl

/-- With version 41 and without the number of blocks, every field is read one byte too late. -/
theorem largestAcked_shifted {t b c : UInt8} {data data₁ : List UInt8} {hd : AckHeader}
    (ht : extractBit t (hasMultipleAckBlocksOffset .quic41) = true)
    (h : readAckHeader .quic41 t (b :: c :: data) = .ok (hd, data₁)) :
    hd.numReceivedPackets = c.toNat ∧
      ∃ bs rest, bs.length = largestAckedLength .quic41 t ∧ data = bs ++ rest ∧
        hd.largestAcked = decode bs := by
  obtain ⟨n, data₂, h1, hrest⟩ := bind_ok.1 h
  have hb := (Reads.uintIf_pos (m := 0) (⟨rfl, ht⟩ : TransportVersion.quic41 = .quic41 ∧ _)
    (Reads.byte (e := "Unable to read num of ack blocks.") b)) (c :: data)
  obtain ⟨-, hd₂⟩ : n = b.toNat ∧ data₂ = c :: data := by
    simpa only [Except.ok.injEq, Prod.mk.injEq] using h1.symm.trans hb
  rw [hd₂] at hrest
  obtain ⟨m, data₃, h2, hrest⟩ := bind_ok.1 hrest
  have hc := (Reads.uintIf_pos (m := 0) (rfl : TransportVersion.quic41 = .quic41)
    (Reads.byte (e := "Unable to read num received packets.") c)) data
  obtain ⟨hm, hd₃⟩ : m = c.toNat ∧ data₃ = data := by
    simpa only [Except.ok.injEq, Prod.mk.injEq] using h2.symm.trans hc
  rw [hd₃] at hrest
  obtain ⟨largest, data₄, h3, hrest⟩ := bind_ok.1 hrest
  obtain ⟨_, data₅, -, hrest⟩ := bind_ok.1 hrest
  obtain ⟨_, data₆, -, hrest⟩ := bind_ok.1 hrest
  obtain ⟨_, data₇, -, hrest⟩ := bind_ok.1 hrest
  obtain ⟨bs, hlen, hdata, hval⟩ := uint_ok.1 h3
  have hhd := (Prod.mk.inj (pure_ok.1 hrest)).1
  rw [hhd]
  exact ⟨hm, bs, data₄, hlen, hdata, hval⟩

/-- If the first byte of a number is zero, the number that is read one byte late is a different one. -/
theorem decode_shifted {k n : ℕ} {b : UInt8} {bs rest rest' : List UInt8} (hn : 0 < n)
    (hlt : n < 256 ^ (k + 1))
    (h0 : (UInt8.ofNat (n / 256 ^ k)).toNat = 0) (hlen : bs.length = k + 1)
    (h : encode k n ++ b :: rest = bs ++ rest') : decode bs ≠ n := by
  have hbs : bs = encode k n ++ [b] := by
    have h' : (encode k n ++ [b]) ++ rest = bs ++ rest' := by rw [← h, append_assoc]; rfl
    exact (append_inj_left h' (by simp [hlen])).symm
  have hdiv : n / 256 ^ k < 256 := by
    rw [Nat.div_lt_iff_lt_mul (Nat.pow_pos (by decide))]
    rwa [Nat.pow_succ, Nat.mul_comm] at hlt
  rw [UInt8.toNat_ofNat', Nat.mod_eq_of_lt hdiv] at h0
  have hsmall : n < 256 ^ k := (Nat.div_eq_zero_iff_lt (Nat.pow_pos (by decide))).1 h0
  rw [hbs, decode_concat, decode_encode, Nat.mod_eq_of_lt hsmall]
  omega

/-- One to three timestamps are never as long as a count, blocks and timestamps. -/
theorem size_mismatch {length a b : ℕ} (count : ℕ)
    (hlen : length = 1 ∨ length = 2 ∨ length = 4 ∨ length = 6 ∨ length = 8)
    (ha : a = 0 ∨ 5 ≤ a ∧ a % 3 = 2) (hb : b = 0 ∨ 5 ≤ b ∧ b % 3 = 2) (hle : a ≤ length + 1) :
    a ≠ 1 + count * (length + 1) + b := by
  rcases hlen with rfl | rfl | rfl | rfl | rfl
  all_goals omega

/-- Blocks are announced but not even their number is written: the peer either fails, or does not
    read the frame to its end, or gets another largest packet. -/
theorem out_of_step {type : UInt8}
    (hroom : w.room < 2 ^ 31) (hinfo : frame.info.numAckBlocks ≠ 0) (hnum : frame.numBlocks v w.room = 0)
    (hpos : 0 < frame.packets.largest) (hlarge : frame.packets.largest < 256 ^ frame.largestLength v)
    (happ : appendAckFrameAndTypeByte v frame w = some w') (hd : w'.data = w.data ++ type :: body)
    (hproc : processAckFrame v last type body = .ok ((frame', added), [])) :
    frame'.largestObserved ≠ frame.packets.largest := by
  have havail := available_le_of_numBlocks hroom hinfo hnum
  obtain ⟨hbl, hll, hblocks⟩ := frame.typeByte_fields v
  have hB : ∀ n, (frame.bodyBytes v 0 n).length =
      (if v = .quic41 then 1 else 0) + frame.largestLength v + 2 +
      frame.blockLength v := by
    intro n
    rw [length_bodyBytes, blocks_zero, length_nil, Nat.zero_mul]
    simp
  have hle := w'.le
  obtain ⟨hd₀, data₁, n, hhead, hlargest, hn, hlength⟩ := processAckFrame_length hproc
  rw [available, if_pos hinfo, getMinAckFrameSize] at havail
  rcases (appendAckFrameAndTypeByte_iff hnum).1 happ with ⟨hfit, -, hw⟩ | ⟨-, hw⟩
  · -- all timestamps have been written, which are too few bytes for anything else
    obtain ⟨hc, hd'⟩ := write_eq_some.1 hw
    obtain ⟨rfl, rfl⟩ := cons.inj (append_cancel_left (hd.symm.trans hd'))
    exfalso
    have hts : frame.timeStampSize = 0 ∨ 5 ≤ frame.timeStampSize ∧ frame.timeStampSize % 3 = 2 := by
      unfold timeStampSize getAckFrameTimeStampSize
      split <;> omega
    have htz : timestampsSize n = 0 ∨ 5 ≤ timestampsSize n ∧ timestampsSize n % 3 = 2 := by
      unfold timestampsSize
      split <;> omega
    have hmem : frame.blockLength v = 1 ∨ frame.blockLength v = 2 ∨ frame.blockLength v = 4 ∨
        frame.blockLength v = 6 ∨
        frame.blockLength v = 8 := by
      have := getMinPacketNumberLength_mem v frame.info.maxBlockLength
      unfold blockLength
      split at this <;> omega
    rw [hblocks.2 hinfo, if_pos rfl, hbl, hll, length_append, hB, length_tailBytes, length_nil] at hlength
    rw [hd, hc, length_append, length_cons, length_append, hB, length_tailBytes] at hle
    unfold room at havail
    have hver : (if v = .quic41 then 1 else 0) + (if v = .quic39 then 1 else 0) = 1 := by cases v <;> rfl
    exact size_mismatch hd₀.numAckBlocks hmem hts htz (by omega) (by omega)
  · obtain ⟨rfl, rfl⟩ := cons.inj (append_cancel_left (hd.symm.trans (write_eq_some.1 hw).2))
    rw [hblocks.2 hinfo, if_pos rfl, hbl, hll, length_append, hB, length_singleton, length_nil] at hlength
    cases v with
    | quic39 =>
      simp only [reduceCtorEq, if_false] at hlength
      omega
    | quic41 =>
      simp only [if_true] at hlength
      have hn0 : hd₀.numReceivedPackets = 0 := by
        rw [← hn rfl]
        by_contra hne
        rw [timestampsSize, if_neg hne] at hlength
        omega
      obtain ⟨k, hk⟩ : ∃ k, frame.largestLength .quic41 = k + 1 := by
        have hmem := getMinPacketNumberLength_mem .quic41 frame.packets.largest
        rw [if_neg (by decide)] at hmem
        exact Nat.exists_eq_succ_of_ne_zero (by unfold largestLength; omega)
      have hbody : frame.bodyBytes .quic41 0 0 ++ [0] =
          0 :: UInt8.ofNat (frame.packets.largest / 256 ^ k) ::
          (encode k frame.packets.largest ++ (frame.delayBytes ++
            (encode (frame.blockLength .quic41) frame.info.firstBlockLength ++ [0]))) := by
        simp [bodyBytes, headBytes, blocks_zero, blockBytes, hk, encode]
      rw [hbody] at hhead
      obtain ⟨hshift, bs, rest, hlen, hdata, hval⟩ := largestAcked_shifted (hblocks.2 hinfo) hhead
      rw [hlargest, hval]
      rw [hk] at hlarge
      exact decode_shifted hpos hlarge (by rw [← hshift, hn0]) (by rw [hlen, hll, hk]) hdata

/-- Only the interval of all six-byte numbers has a length that does not fit into six bytes; it is
    then read as empty. -/
theorem first_lt_of_newest {n : UInt8}
    (hrev : frame.packets.intervals.reverse = g :: gs) (hlarge : frame.packets.largest < 2 ^ 48)
    (hstep : frame.info.numAckBlocks ≠ 0 ↔ 0 < num) (hbody : body = frame.bodyBytes .quic39 num n ++ tail)
    (hproc : processAckFrame .quic39 last (frame.typeByte .quic39) body = .ok ((frame', added), []))
    (hnewest : ∀ x, g.lo ≤ x → x < g.hi → x ∈ frame'.packets) : frame.info.firstBlockLength < 2 ^ 48 := by
  obtain ⟨hg, hdesc⟩ := newest_desc hrev
  have hlarge' := largest_eq hrev
  have hfirst := first_eq hrev
  by_contra hlt
  have hlo : g.lo = 0 := by omega
  have hhi : g.hi = 2 ^ 48 := by omega
  obtain rfl : gs = [] := by
    cases gs with
    | nil => rfl
    | cons k gs =>
      have := hdesc.2.1
      omega
  have hinfo : frame.info = ⟨2 ^ 48, 2 ^ 48, 0⟩ := by
    rw [info_eq hrev, ackFrameInfo, hlo, hhi, Nat.sub_zero]
  obtain rfl : num = 0 := by
    rw [hinfo] at hstep
    by_contra hne
    exact hstep.2 (by omega) rfl
  obtain ⟨hd, blocks, rest, hfields, -, -, -, -, -, hs⟩ := processAckFrame_ok hproc
  obtain ⟨hd', data₁, hhead, hrest⟩ := bind_ok.1 hfields
  obtain ⟨blocks', data₂, hread, hrest⟩ := bind_ok.1 hrest
  obtain ⟨⟨rfl, rfl⟩, -⟩ : (hd = hd' ∧ blocks = blocks') ∧ rest = data₂ := by
    simpa only [Prod.mk.injEq] using pure_ok.1 hrest
  have hheader := reads_headBytes (v := .quic39) hstep (by decide) n
    (blockBytes (frame.blockLength .quic39) (frame.blocks 0) ++ tail)
  rw [← append_assoc] at hheader
  change readAckHeader _ _ (frame.bodyBytes .quic39 0 n ++ tail) = _ at hheader
  rw [← hbody, hhead] at hheader
  obtain ⟨rfl, -⟩ : hd = _ ∧ data₁ = _ := by simpa only [Except.ok.injEq, Prod.mk.injEq] using hheader
  obtain ⟨rfl, -⟩ : blocks = [] ∧ _ := Prod.mk.inj (pure_ok.1 hread)
  have hzero : (frame.header .quic39 0 n).firstBlockLength = 0 := by
    simp only [header, blockLength, hinfo]
    decide
  have hempty : ∀ a, AckedPackets.empty.addRange a a = .empty := fun a =>
    AckedPackets.addRange_of_eq (by rw [addRange, if_pos le_rfl])
  rw [hzero, Nat.sub_zero, hempty] at hs
  have hpackets : AckedPackets.empty.packets = frame'.packets :=
    congrArg AckedPackets.packets (Option.some.inj hs)
  have hmem := hnewest 0 (by omega) (by omega)
  rw [← hpackets] at hmem
  exact AckedPackets.not_mem_empty hmem

theorem QuicAckFrame.Survives.fits (hrev : frame.packets.intervals.reverse = g :: gs)
    (h64 : g.hi < 2 ^ 64)
    (hroom : w.room < 2 ^ 31) (h : frame.Survives v last w) : frame.Fits v w.room := by
  obtain ⟨w', type, body, frame', added, happ, hc, hd, hproc, hsub, hnewest, hlargest, hwhole⟩ := h
  obtain ⟨hg, hdesc⟩ := newest_desc hrev
  have hlarge := largest_eq hrev
  have hnum := numBlocks_le v frame w.room
  have hlen := length_blocks hrev (numBlocks_le_info v frame w.room)
  -- the type byte is what has been written first
  obtain ⟨tail, n, hw⟩ :
      ∃ tail n, w.write (frame.typeByte v :: (frame.bodyBytes v (frame.numBlocks v w.room) n ++ tail)) =
      some w' := by
    rcases (appendAckFrameAndTypeByte_iff rfl).1 happ with ⟨-, -, hw⟩ | ⟨-, hw⟩
    · exact ⟨_, _, hw⟩
    · exact ⟨_, _, hw⟩
  obtain ⟨rfl, hbody⟩ := cons.inj (append_cancel_left (hd.symm.trans (write_eq_some.1 hw).2))
  obtain ⟨hbl, hll, hblocks⟩ := frame.typeByte_fields v
  obtain ⟨hd₁, data₁, n₁, hhead, hlargest₁, -⟩ := processAckFrame_length hproc
  -- whatever has been read as the largest packet has at most six bytes with version 39
  have hlarge256 : frame.packets.largest < 256 ^ frame.largestLength v := by
    rw [← hlargest, hlargest₁, ← hll]
    exact (readAckHeader_bounds hhead).1
  have hlarge48 : v = .quic39 → frame.packets.largest < 2 ^ 48 := by
    rintro rfl
    have hmem := getMinPacketNumberLength_mem .quic39 frame.packets.largest
    refine hlarge256.trans_le (Nat.pow_le_pow_right (by decide : 0 < 256) (?_ : _ ≤ 6))
    rw [if_pos rfl] at hmem
    unfold largestLength
    omega
  -- blocks that are announced are written
  have hstep : frame.info.numAckBlocks ≠ 0 ↔ 0 < frame.numBlocks v w.room := by
    refine ⟨fun hinfo => ?_, fun hpos => by have := numBlocks_le_info v frame w.room; omega⟩
    by_contra hnum0
    have hpos : 0 < frame.packets.largest := by
      cases gs with
      | nil =>
        rw [info_eq hrev] at hinfo
        exact absurd rfl hinfo
      | cons k gs =>
        have := hdesc.2.1
        omega
    exact out_of_step hroom hinfo (by omega) hpos hlarge256 happ hd hproc hlargest
  have hnumbers : v = .quic39 → frame.packets.largest < 2 ^ 48 ∧
      frame.info.firstBlockLength < 2 ^ 48 := by
    rintro rfl
    exact ⟨hlarge48 rfl,
      first_lt_of_newest hrev (hlarge48 rfl) hstep hbody hproc (hnewest g (getLast_eq hrev))⟩
  have hrange := inRange hrev h64 hnumbers
  -- so that the fields are read as they were written
  have hs : addBlocks g.lo (AckedPackets.empty.addRange g.lo g.hi)
      (ackBlocks g.lo (frame.numBlocks v w.room) gs) =
      some ⟨frame'.packets, added⟩ := by
    obtain ⟨hd₂, blocks, rest, hfields, -, -, -, -, -, hs⟩ := processAckFrame_ok hproc
    have hread := reads_ackFields hrange hstep hnum hlen n tail
    rw [← hbody, hfields] at hread
    obtain ⟨⟨rfl, rfl⟩, -⟩ : (hd₂ = _ ∧ blocks = _) ∧ rest = _ := by
      simpa only [Except.ok.injEq, Prod.mk.injEq] using hread
    obtain ⟨-, h2, htop, hlo⟩ := hrange.header hrev h64 (frame.numBlocks v w.room) n
    rwa [htop, h2, hlo, blocks_eq hrev] at hs
  have hgaps : frame.GapsFit (frame.numBlocks v w.room) := by
    rw [gapsFit_iff hrev]
    by_contra hn
    obtain ⟨x, hx, hlt, hmiss⟩ :=
      addBlocks_wrapped hdesc (by omega) hn (addRange_empty_intervals hg) rfl hs
    rcases (mem_frame hrev).1 (hsub x hx) with hx | hx
    · omega
    · exact hmiss hx
  obtain ⟨s, hs', hi⟩ := exists_decoded hrev h64 hgaps
  obtain rfl : s = ⟨frame'.packets, added⟩ := Option.some.inj (hs'.symm.trans hs)
  -- how the frame ends decides what there was room for
  have hend : 0 ≤ frame.left v w.room ∧
      ((frame.timeStampSize : ℤ) ≤ frame.left v w.room ∧
        TimesEncodable frame.packets.largest frame.receivedPacketTimes ∨
        v = .quic39 ∧ frame.left v w.room + 1 < frame.timeStampSize) := by
    rcases (append_iff_left hstep hlen).1 happ with ⟨hle, henc, -⟩ | ⟨hlt, hw⟩
    · exact ⟨by omega, .inl ⟨hle, henc⟩⟩
    · have hcut := length_cutBytes hstep hlen
      have hfit := exists_write.1 ⟨w', hw⟩
      cases v with
      | quic39 =>
        rw [if_pos rfl] at hcut hlt
        exact ⟨by omega, .inr ⟨rfl, by omega⟩⟩
      | quic41 =>
        -- one zero is left over
        exfalso
        have hbody' := (cons.inj (append_cancel_left (hd.symm.trans (write_eq_some.1 hw).2))).2
        have hread := reads_ack last 0 hrange hstep hnum hlen hrev h64 hs Reads.pure [0]
        rw [if_neg (by decide), append_nil, append_nil, ← hbody', hproc] at hread
        simp at hread
  have hheader : 0 ≤ frame.available v w.room := by
    have hpos : (0 : ℤ) ≤ frame.numBlocks v w.room * (frame.blockLength v + 1) :=
      Int.mul_nonneg (by omega) (by omega)
    have := hend.1
    unfold left at this
    omega
  refine ⟨hnumbers, hheader, hstep.1, fun h255 hfit => ?_, hgaps, ?_, ?_⟩
  · have heq := hwhole.2 ⟨h255, (total_fits_iff hrev h255).2 hfit⟩
    have hle := (decoded_eq_iff hrev hi).1 heq
    exact le_antisymm ((numBlocks_le_info v frame w.room).trans (info_le_total hrev)) hle
  · cases v with
    | quic39 =>
      rcases hend.2 with ⟨h, -⟩ | ⟨-, h⟩
      · omega
      · omega
    | quic41 =>
      rcases hend.2 with ⟨h, -⟩ | ⟨h, -⟩
      · exact h
      · cases h
  · intro hts
    rcases hend.2 with ⟨-, h⟩ | ⟨-, h⟩
    · exact h
    · omega

end Frame

/-- An ACK frame with packets survives if it meets the conditions, and, into a writer with less than
    2 GiB of room, only then.  (With more room a frame that is read out of step may by chance be
    read as the right one.) -/
theorem truncated_ack_iff (v : TransportVersion) (last : ℕ) (frame : QuicAckFrame) (w : Writer)
    (hne : frame.packets.intervals ≠ []) (h64 : ∀ x ∈ frame.packets, x + 1 < 2 ^ 64) :
    (frame.Fits v w.room → frame.Survives v last w) ∧
      (w.room < 2 ^ 31 → (frame.Survives v last w ↔ frame.Fits v w.room)) := by
  obtain ⟨g, gs, hrev⟩ : ∃ g gs, frame.packets.intervals.reverse = g :: gs :=
    exists_cons_of_ne_nil (by simpa using hne)
  obtain ⟨hg, -⟩ := newest_desc hrev
  have hhi : g.hi < 2 ^ 64 := by
    have := h64 (g.hi - 1) ((mem_frame hrev).2 (.inl ⟨by omega, by omega⟩))
    omega
  exact ⟨fun h => h.survives hrev hhi,
    fun hroom => ⟨fun h => h.fits hrev hhi hroom, fun h => h.survives hrev hhi⟩⟩

theorem PacketNumberQueue.succ_lt {q : PacketNumberQueue} {n : ℕ} (h : ∀ g ∈ q.intervals, g.hi < n) :
    ∀ x ∈ q, x + 1 < n := by
  rintro x ⟨g, hg, -, hhi⟩
  exact (Nat.succ_le_of_lt hhi).trans_lt (h g hg)

/-- An ACK frame for the packets up to 69999 but for some of the first ones. -/
def ackFrom (intervals : List Gap) (h : Sorted 0 intervals) : QuicAckFrame where
  largestObserved := 69999
  ackDelayTime := some 0
  packets := ⟨intervals, h⟩
  receivedPacketTimes := []

def threeIntervals : QuicAckFrame := ackFrom [⟨1, 2⟩, ⟨5, 6⟩, ⟨10, 70000⟩] (by simp [Sorted])

/-- Of the two blocks after the first one, one has room in 18 bytes. -/
theorem truncated_ack_cut :
    threeIntervals.total = 2 ∧ threeIntervals.numBlocks .quic41 18 = 1 ∧
      threeIntervals.Survives .quic41 0 ⟨18, [], by decide⟩ := by
  have hfits : threeIntervals.Fits .quic41 18 :=
    ⟨by decide, by decide, by decide, by decide, .inr ⟨by decide, fun _ => .inl (by decide)⟩,
      by decide, fun _ => ⟨by decide, fun p hp => absurd hp not_mem_nil⟩⟩
  exact ⟨by decide, by decide, (truncated_ack_iff .quic41 0 threeIntervals ⟨18, [], by decide⟩ (by decide)
    (PacketNumberQueue.succ_lt (by decide))).1 hfits⟩

def twoIntervals : QuicAckFrame := ackFrom [⟨1, 2⟩, ⟨10, 70000⟩] (by simp [Sorted])

/-- The frame takes 18 bytes.  With 15 the type byte announces blocks, but there is no room for one,
    and so not even their number is written. -/
theorem truncated_ack_out_of_step :
    twoIntervals.serializedLength .quic41 15 true = 15 ∧
      ((appendAckFrameAndTypeByte .quic41 twoIntervals ⟨15, [], by decide⟩).map Writer.data =
        some [0xba, 0, 0, 1, 0x11, 0x6f, 0, 0, 0, 1, 0x11, 0x66]) ∧
      (∀ last, processAckFrame .quic41 last 0xba [0, 0, 1, 0x11, 0x6f, 0, 0, 0, 1, 0x11, 0x66] =
        .error "Unable to read first ack block length.") ∧
      ∀ last, ¬ twoIntervals.Survives .quic41 last ⟨15, [], by decide⟩ := by
  refine ⟨by decide, by decide, fun last => rfl, fun last h => ?_⟩
  have hrev : twoIntervals.packets.intervals.reverse = ⟨10, 70000⟩ :: [⟨1, 2⟩] := rfl
  have hfits := h.fits hrev (by decide) (by decide)
  exact absurd (hfits.announced (by decide)) (by decide)

end Puic
