/-
  Reading from the receive buffer, byte by byte.

  `Readv` and `MarkConsumed` go through the readable bytes block by block.  Both come
  to the same as taking one byte after the other (`takeByte`), which retires a block
  at the same places: `consume_eq` and `readv_eq`.  What `Readv` copies on the way are
  the bytes of the stream, as long as the readable bytes are in their blocks
  (`Legible`), and taking a byte keeps them there.
-/
import Puic.BufferRead

namespace Puic

open GapList Function

/-- `n` bytes of the stream from `offset` on. -/
def slice (src : ℕ → UInt8) (offset n : ℕ) : List UInt8 := (List.range n).map fun i => src (offset + i)

variable {src : ℕ → UInt8} {offset n x : ℕ}

@[simp] theorem slice_length : (slice src offset n).length = n := by simp [slice]

theorem slice_add (src : ℕ → UInt8) (offset n k : ℕ) :
    slice src offset (n + k) = slice src offset n ++ slice src (offset + n) k := by
  simp [slice, List.range_add, comp_def, Nat.add_assoc]

theorem slice_getD {i : ℕ} (hi : i < (slice src offset n).length) :
    (slice src offset n).getD i 0 = src (offset + i) := by
  rw [List.getD_eq_getElem _ _ hi]
  simp [slice]

namespace SequencerBuffer

variable {b b' : SequencerBuffer}

/-! ## One byte -/

/-- What is left to read in the block that is read next. -/
def available (b : SequencerBuffer) : ℕ :=
  min b.readableBytes (getBlockCapacity b.cap b.nextBlockToRead - b.readOffset)

/-- A round of the loops of `Readv` and `MarkConsumed` that takes one byte. -/
def takeByte (b : SequencerBuffer) : SequencerBuffer :=
  if b.available = 1 then (b.advance 1).retireBlockIfEmpty b.nextBlockToRead else b.advance 1

theorem available_pos (hc : 0 < b.cap) (hr : 0 < b.readableBytes) : 0 < b.available := by
  have hoff : b.readOffset < getBlockCapacity b.cap b.nextBlockToRead := getInBlockOffset_lt hc
  unfold available
  omega

theorem advance_add (b : SequencerBuffer) (n k : ℕ) : (b.advance n).advance k = b.advance (n + k) := by
  simp only [advance, Nat.add_assoc, Nat.sub_sub]

/-- Before the end of what is available, the block stays the same. -/
theorem advance_available (hc : 0 < b.cap) (hn : n < b.available) :
    (b.advance n).nextBlockToRead = b.nextBlockToRead ∧ (b.advance n).available = b.available - n := by
  have hlt : getInBlockOffset b.cap b.totalBytesRead + n <
      getBlockCapacity b.cap (getBlockIndex b.cap b.totalBytesRead) := by
    unfold available nextBlockToRead readOffset at hn
    omega
  have he := block_end (getBlockIndex_lt (o := b.totalBytesRead) hc)
  have hblock := (getBlockIndex_add hc (by omega : n ≤ b.cap)).2 (.inl hlt)
  have hoff := getInBlockOffset_add hc hlt
  have hnext : (b.advance n).nextBlockToRead = b.nextBlockToRead := hblock
  refine ⟨hnext, ?_⟩
  have hread : (b.advance n).readableBytes = b.readableBytes - n := by
    unfold readableBytes
    show b.firstGap - (b.totalBytesRead + n) = _
    omega
  have hoff' : (b.advance n).readOffset = b.readOffset + n := hoff
  have hcap : (b.advance n).cap = b.cap := rfl
  unfold available
  rw [hnext, hread, hoff', hcap]
  omega

theorem takeByte_iterate (hc : 0 < b.cap) (hn : n < b.available) : takeByte^[n] b = b.advance n := by
  induction n with
  | zero => rfl
  | succ n ih =>
    rw [iterate_succ_apply', ih (by omega), takeByte,
      (advance_available hc (by omega)).2, if_neg (by omega), advance_add]

theorem round_eq (hc : 0 < b.cap) (hpos : 0 < n) (hn : n ≤ b.available) :
    (if b.available = n then (b.advance n).retireBlockIfEmpty b.nextBlockToRead else b.advance n) =
      takeByte^[n] b := by
  obtain ⟨m, rfl⟩ : ∃ m, n = m + 1 := ⟨n - 1, by omega⟩
  obtain ⟨hnext, havail⟩ := advance_available hc (by omega : m < b.available)
  rw [iterate_succ_apply', takeByte_iterate hc (by omega), takeByte, hnext, havail, advance_add]
  congr 1
  exact propext ⟨fun h => by omega, fun h => by omega⟩

theorem consumed_takeByte (hb : WF b) (hr : 0 < b.readableBytes) : Consumed b b.takeByte 1 :=
  consumed_round hb Nat.one_pos (available_pos hb.capPos hr)

theorem consumed_iterate (hb : WF b) (hn : n ≤ b.readableBytes) : Consumed b (takeByte^[n] b) n := by
  induction n with
  | zero => exact ⟨rfl, rfl, rfl, fun _ _ _ _ _ => rfl⟩
  | succ n ih =>
    have hprev := ih (by omega)
    have hwf := hb.consumed (by omega) hprev.cap hprev.total hprev.gaps
    rw [iterate_succ_apply']
    exact hprev.trans (consumed_takeByte hwf (by rw [hprev.readableBytes]; omega))

theorem WF.iterate (hb : WF b) (hn : n ≤ b.readableBytes) : WF (takeByte^[n] b) :=
  have h := consumed_iterate hb hn
  hb.consumed hn h.cap h.total h.gaps

theorem takeByte_buffered (b : SequencerBuffer) :
    b.takeByte.numBytesBuffered = b.numBytesBuffered - 1 := by
  unfold takeByte
  split
  · rcases retireBlockIfEmpty_cases (b.advance 1) b.nextBlockToRead with h | h <;> rw [h]
    · rfl
    · unfold retireBlock
      split <;> rfl
  · rfl

theorem iterate_buffered (b : SequencerBuffer) (n : ℕ) :
    (takeByte^[n] b).numBytesBuffered = b.numBytesBuffered - n := by
  induction n with
  | zero => rfl
  | succ n ih => rw [iterate_succ_apply', takeByte_buffered, ih, Nat.sub_sub]

/-! ## The loop of `MarkConsumed` -/

theorem consume_eq (fuel : ℕ) (hb : WF b) (hf : n ≤ fuel) (hn : n ≤ b.readableBytes) :
    consume fuel b n = takeByte^[n] b := by
  induction fuel generalizing b n with
  | zero =>
    obtain rfl := Nat.le_zero.1 hf
    rfl
  | succ fuel ih =>
    unfold consume
    split
    · next h => subst h; rfl
    next h0 =>
    have havail := available_pos hb.capPos (by omega)
    dsimp only
    rw [show min b.readableBytes _ = b.available from rfl]
    generalize hm : min n b.available = m
    rw [round_eq hb.capPos (by omega) (by omega)]
    have hround := consumed_iterate hb (by omega : m ≤ b.readableBytes)
    rw [ih (hb.iterate (by omega)) (by omega) (by rw [hround.readableBytes]; omega), ← iterate_add_apply]
    congr 1
    omega

theorem markConsumed_eq (hb : WF b) (hn : n ≤ b.readableBytes) :
    b.markConsumed n = some (takeByte^[n] b) := by
  unfold markConsumed
  rw [if_neg (by omega), consume_eq n hb le_rfl hn]

/-! ## The loops of `Readv` -/

/-- What can be read is in its blocks; there is a gap behind it. -/
structure Legible (src : ℕ → UInt8) (b : SequencerBuffer) : Prop where
  wf : WF b
  gaps : b.gaps ≠ []
  cell : ∀ x, b.totalBytesRead ≤ x → x < b.firstGap → b.cell x = some (src x)

theorem Carries.legible (h : Carries src b) : Legible src b where
  wf := h.wf
  gaps := h.closed.ne_nil
  cell x hx hx' := h.cell x hx (hx'.trans_le h.wf.firstGap_le_max) (h.wf.not_missing hx')

theorem Legible.take (h : Legible src b) (hr : 0 < b.readableBytes) : Legible src b.takeByte := by
  have hcons := consumed_takeByte h.wf hr
  have hfirst : b.takeByte.firstGap = b.firstGap := by unfold firstGap; rw [hcons.gaps]
  refine ⟨h.wf.consumed hr hcons.cap hcons.total hcons.gaps, hcons.gaps ▸ h.gaps, fun x hx hx' => ?_⟩
  rw [hcons.total] at hx
  rw [hfirst] at hx'
  rw [← h.cell x (by omega) hx']
  unfold takeByte
  split
  · next he =>
    have hwf : WF (b.advance 1) := h.wf.consumed hr rfl rfl rfl
    have hxl : x < b.lastGap := hx'.trans_le (first_le_last h.wf.sorted)
    refine retireBlockIfEmpty_cell hwf h.gaps (Nat.succ_pos _) ?_ hx hxl (h.wf.not_missing hx')
    -- the byte taken is the last one before the gap or in the block
    show b.firstGap = b.totalBytesRead + 1 ∨ getInBlockOffset b.cap b.totalBytesRead + 1 =
      getBlockCapacity b.cap (getBlockIndex b.cap b.totalBytesRead)
    unfold available nextBlockToRead readOffset readableBytes at he
    omega
  · rfl

theorem Legible.iterate (h : Legible src b) (hn : n ≤ b.readableBytes) :
    Legible src (takeByte^[n] b) := by
  induction n with
  | zero => exact h
  | succ n ih =>
    rw [iterate_succ_apply']
    refine (ih (by omega)).take ?_
    rw [(consumed_iterate h.wf (by omega : n ≤ b.readableBytes)).readableBytes]
    omega

/-- What is next to be read is in the block that `Readv` looks at. -/
theorem Legible.block (h : Legible src b) (hpos : 0 < n) (hn : n ≤ b.available) :
    ∃ block, b.blocks b.nextBlockToRead = some block ∧
      ((List.range n).map fun i => block (b.readOffset + i)) = slice src b.totalBytesRead n := by
  unfold available at hn
  have hcell : ∀ i < n, b.cell (b.totalBytesRead + i) = some (src (b.totalBytesRead + i)) := by
    intro i hi
    unfold readableBytes at hn
    exact h.cell _ (by omega) (by omega)
  obtain ⟨block, hblock, -⟩ := Option.map_eq_some_iff.1 (hcell 0 hpos)
  refine ⟨block, hblock, List.map_congr_left fun i hi => ?_⟩
  have hi := List.mem_range.1 hi
  have hin : getInBlockOffset b.cap b.totalBytesRead + i <
      getBlockCapacity b.cap (getBlockIndex b.cap b.totalBytesRead) := by
    unfold nextBlockToRead readOffset at hn
    omega
  have he := block_end (getBlockIndex_lt (o := b.totalBytesRead) h.wf.capPos)
  have hc := hcell i hi
  rw [SequencerBuffer.cell, (getBlockIndex_add h.wf.capPos (by omega)).2 (.inl hin),
    getInBlockOffset_add h.wf.capPos hin] at hc
  rw [Nat.add_zero] at hblock
  rw [hblock] at hc
  exact Option.some.inj hc

theorem retireSucceeds_of_some {idx : ℕ} (h : (b.blocks idx).isSome) : b.retireSucceeds idx = true := by
  unfold retireSucceeds
  split_ifs <;> first | rfl | exact h

theorem readvInto_eq (fuel : ℕ) {remaining : ℕ} (h : Legible src b) (hf : remaining ≤ fuel) :
    readvInto fuel b remaining = (takeByte^[min remaining b.readableBytes] b,
      slice src b.totalBytesRead (min remaining b.readableBytes), none) := by
  induction fuel generalizing b remaining with
  | zero =>
    obtain rfl := Nat.le_zero.1 hf
    rfl
  | succ fuel ih =>
    unfold readvInto
    split
    · next h0 =>
      rw [show min remaining b.readableBytes = 0 by omega]
      rfl
    next h0 =>
    have havail := available_pos h.wf.capPos (by omega)
    dsimp only
    rw [show min b.readableBytes _ = b.available from rfl]
    generalize hm : min b.available remaining = m
    have hle : m ≤ b.readableBytes := by unfold available at hm; omega
    obtain ⟨block, hblock, hbytes⟩ := h.block (n := m) (by omega) (by omega)
    have hret : (b.advance m).retireSucceeds b.nextBlockToRead = true :=
      retireSucceeds_of_some (by simp [advance, hblock])
    have hcons := consumed_iterate h.wf hle
    simp only [hblock, hbytes, hret, Bool.true_eq_false, and_false, if_false]
    rw [round_eq h.wf.capPos (by omega) (by omega), ih (h.iterate hle) (by omega), hcons.readableBytes,
      hcons.total, ← iterate_add_apply, ← slice_add]
    have hsum : min remaining b.readableBytes = m + min (remaining - m) (b.readableBytes - m) := by omega
    rw [hsum, Nat.add_comm (min _ _) m]

theorem readv_eq (lens : List ℕ) (h : Legible src b) : ∃ chunks, b.readv lens =
      (takeByte^[min lens.sum b.readableBytes] b, chunks, none) ∧
    chunks.flatten = slice src b.totalBytesRead (min lens.sum b.readableBytes) := by
  induction lens generalizing b with
  | nil => exact ⟨[], by simp [readv], by simp [slice]⟩
  | cons len lens ih =>
    unfold readv
    split
    · next h0 => exact ⟨[], by simp [h0], by simp [h0, slice]⟩
    have hle : min len b.readableBytes ≤ b.readableBytes := by omega
    have hcons := consumed_iterate h.wf hle
    obtain ⟨chunks, hrest, hflat⟩ := ih (h.iterate hle)
    have hsum : min (len :: lens).sum b.readableBytes = min len b.readableBytes +
        min lens.sum (b.readableBytes - min len b.readableBytes) := by
      rw [List.sum_cons]
      omega
    rw [hcons.readableBytes] at hrest hflat
    rw [hcons.total] at hflat
    refine ⟨slice src b.totalBytesRead (min len b.readableBytes) :: chunks, ?_, ?_⟩
    · simp only [readvInto_eq len h le_rfl, hrest]
      rw [← iterate_add_apply, hsum, Nat.add_comm (min _ _) (min len _)]
    · rw [List.flatten_cons, hflat, hsum, slice_add]

end SequencerBuffer
end Puic
