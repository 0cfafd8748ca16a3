/-
  Reading without copying.

  `GetReadableRegions` shows the readable bytes in place, and the application says
  afterwards how many it has used (`MarkConsumed`).  `regions_eq_readv`: the regions
  show what `Readv` would copy, as far as there is room for them, and consuming them
  leaves the very buffer that `Readv` leaves.

  There must be room for as many regions as the data visits blocks.  Data that fills
  the ring comes back to its first block, which then counts twice (`visits`): with
  room for every block touched, the last piece can still be missing
  (`regions_miss_wrapped_piece`).
-/
import Puic.BufferMap

namespace Puic

open GapList Machine Finset Option

/-- Everything that is done to a buffer. -/
inductive BufferOp where
  | call (c : BufferCall)
  | flushBufferedFrames
  | releaseWholeBuffer
deriving Repr, DecidableEq

/-- Two regions have no byte in common. -/
def Region.Disjoint (r r' : Region) : Prop :=
  r.block ≠ r'.block ∨ r.offset + r.len ≤ r'.offset ∨ r'.offset + r'.len ≤ r.offset

instance (r r' : Region) : Decidable (r.Disjoint r') := by unfold Region.Disjoint; infer_instance

variable {cap o o' : ℕ} {rs : List Region}

theorem Covers.len_pos {r : Region} (h : Covers cap o rs o') (hr : r ∈ rs) : 0 < r.len := by
  induction rs generalizing o with
  | nil => cases hr
  | cons k rs ih =>
    obtain ⟨-, -, hl, -, hrest⟩ := h
    rcases List.mem_cons.1 hr with rfl | hr
    · exact hl
    · exact ih hrest hr

/-- The regions lie in different places, since they show different offsets of one lap. -/
theorem Covers.disjoint (hc : 0 < cap) (h : Covers cap o rs o') (hlap : o' ≤ o + cap) :
    rs.Pairwise Region.Disjoint := by
  induction rs generalizing o with
  | nil => exact .nil
  | cons r rs ih =>
    obtain ⟨hb, ho, hl, hf, hrest⟩ := h
    refine .cons (fun r' hr' => ?_) (ih hrest (by omega))
    by_contra hcon
    simp only [Region.Disjoint, not_or, not_not, not_le] at hcon
    obtain ⟨hblock, h1, h2⟩ := hcon
    -- a place in both belongs to an offset of the first and to one of the second
    have hhead : Covers cap o [r] (o + r.len) := ⟨hb, ho, hl, hf, rfl⟩
    have hpos := hrest.len_pos hr'
    obtain ⟨x, hx1, hx2, hx3, hx4⟩ :=
      hhead.place hc r (.head _) (max r.offset r'.offset) (by omega) (by omega)
    obtain ⟨y, hy1, hy2, hy3, hy4⟩ := hrest.place hc r' hr' (max r.offset r'.offset) (by omega) (by omega)
    have := place_inj hc hx1 (by omega) (by omega) (by omega) (by rw [hx3, hy3, hblock])
      (hx4.trans hy4.symm)
    omega

namespace SequencerBuffer

variable {src : ℕ → UInt8} {b b' : SequencerBuffer} {count n e x : ℕ}

/-- Nothing is defined on a buffer without a gap, since all of it looks at `gaps_.front()` or
    `gaps_.back()`. -/
def opStep (src : ℕ → UInt8) (b : SequencerBuffer) : BufferOp → Option SequencerBuffer
  | .call c => if b.gaps ≠ [] ∧ c.Fits then some (b.call src c).1 else none
  | .flushBufferedFrames => if b.gaps ≠ [] then some b.flushBufferedFrames.1 else none
  | .releaseWholeBuffer => if b.gaps ≠ [] then some b.releaseWholeBuffer else none

/-- The number of blocks that hold readable bytes. -/
def touched (b : SequencerBuffer) : ℕ :=
  ((Finset.Ico b.totalBytesRead b.firstGap).image (getBlockIndex b.cap)).card

/-- The readable bytes come back to the block they begin in. -/
def Reenters (b : SequencerBuffer) : Prop :=
  ∃ x ∈ Finset.Ioo b.totalBytesRead b.firstGap, getInBlockOffset b.cap x = 0 ∧
    getBlockIndex b.cap x = b.nextBlockToRead

instance (b : SequencerBuffer) : Decidable b.Reenters := by unfold Reenters; infer_instance

/-- The number of blocks visited on the way through the readable bytes. -/
def visits (b : SequencerBuffer) : ℕ := b.touched + if b.Reenters then 1 else 0

/-! ## The readable bytes stay in place -/

/-- While the window ends before the last offset, all that has arrived is in its block.  After that
    nothing more is taken, and what can be read is in its block. -/
structure Sound (src : ℕ → UInt8) (b : SequencerBuffer) : Prop extends Legible src b where
  early : b.totalBytesRead + b.cap ≤ maxOffset → ∀ x, b.totalBytesRead ≤ x → x < maxOffset →
    ¬ Missing b.gaps x → b.cell x = some (src x)

/-- Before the window has reached the last offset, the last gap is open to the top. -/
theorem WF.closed (hb : WF b) (ht : b.totalBytesRead + b.cap < maxOffset) : Closed maxOffset b.gaps := by
  have hlast : Missing b.gaps (maxOffset - 1) := hb.window _ (by omega) (by omega)
  rcases List.eq_nil_or_concat b.gaps with hg | ⟨p, k, hg⟩
  · rw [hg] at hlast
    exact absurd hlast missing_nil
  rw [List.concat_eq_append] at hg
  refine ⟨p, k.lo, ?_⟩
  have hk : k.hi ≤ maxOffset := hb.bounded k (by simp [hg])
  have hs := hb.sorted
  rw [hg] at hs hlast
  obtain ⟨-, hp, -, hlt, -⟩ := hs.split
  obtain ⟨g, hmem, hlo, hhi⟩ := hlast
  rcases List.mem_append.1 hmem with hmem | hmem
  · have := hp g hmem
    omega
  · rw [List.mem_singleton.1 hmem] at hhi
    rw [hg, show maxOffset = k.hi by omega]

theorem Sound.take (h : Sound src b) (hr : 0 < b.readableBytes) : Sound src b.takeByte where
  toLegible := h.toLegible.take hr
  early := by
    have hcons := consumed_takeByte h.wf hr
    intro ht x hx hx' hm
    rw [hcons.cap, hcons.total] at ht
    rw [hcons.total] at hx
    rw [hcons.gaps] at hm
    rw [hcons.cell (h.wf.closed (by omega)) x hx hx' hm]
    exact h.early (by omega) x (by omega) hx' hm

theorem Sound.iterate (h : Sound src b) (hn : n ≤ b.readableBytes) : Sound src (takeByte^[n] b) := by
  induction n with
  | zero => exact h
  | succ n ih =>
    rw [Function.iterate_succ_apply']
    refine (ih (by omega)).take ?_
    rw [(consumed_iterate h.wf (by omega : n ≤ b.readableBytes)).readableBytes]
    omega

theorem Sound.stored {offset len : ℕ} (h : Sound src b) (hcap : b.cap < 2 ^ 64)
    (hst : Stored b b' offset (slice src offset len))
    (hwin : offset + len ≤ (b.totalBytesRead + b.cap) % 2 ^ 64) (hg : b'.gaps ≠ []) : Sound src b' := by
  have hwf := hst.wf h.wf
  -- a window that reaches beyond the last offset wraps, and takes nothing
  have hearly : b.totalBytesRead + b.cap ≤ maxOffset := by
    have hle := hst.firstGap_le_offset h.wf
    have htot := h.wf.total_le_firstGap
    unfold maxOffset at *
    omega
  have hall : ∀ x, b'.totalBytesRead ≤ x → x < maxOffset → ¬ Missing b'.gaps x →
      b'.cell x = some (src x) := by
    intro x hx hx' hm
    rw [hst.total] at hx
    by_cases hin : offset ≤ x ∧ x < offset + (slice src offset len).length
    · rw [hst.inside x hin.1 hin.2, slice_getD (by omega), Nat.add_sub_cancel' hin.1]
    · have hm' : ¬ Missing b.gaps x := fun h' => hm ((hst.missing h.wf).2 ⟨h', hin⟩)
      have hwin : x < b.totalBytesRead + b.cap := by
        by_contra hcon
        exact hm' (h.wf.window x (by omega) hx')
      exact hst.outside x hx hwin hin _ (h.early hearly x hx hx' hm')
  refine ⟨⟨hwf, hg, fun x hx hx' => ?_⟩, fun _ => hall⟩
  exact hall x hx (hx'.trans_le hwf.firstGap_le_max) (hwf.not_missing hx')

theorem Sound.call {c : BufferCall} (h : Sound src b) (hcap : b.cap < 2 ^ 64) (hf : c.Fits) :
    (b.call src c).1.cap = b.cap ∧ ((b.call src c).1.gaps ≠ [] → Sound src (b.call src c).1) := by
  cases c with
  | onStreamData offset len =>
    cases hr : b.onStreamData offset (slice src offset len) with
    | error e =>
      simp only [SequencerBuffer.call, hr]
      exact ⟨trivial, fun _ => h⟩
    | ok r =>
      simp only [SequencerBuffer.call, hr]
      rcases onStreamData_cases h.wf hf.1 (by simpa using hf.2) hr with ⟨-, rfl, -⟩ | ⟨-, hst, hwin⟩
      · exact ⟨rfl, fun _ => h⟩
      · exact ⟨hst.cap, h.stored hcap hst (by simpa using hwin)⟩
  | readv lens =>
    obtain ⟨chunks, hr, -⟩ := readv_eq lens h.toLegible
    have hle : min lens.sum b.readableBytes ≤ b.readableBytes := by omega
    simp only [SequencerBuffer.call, hr]
    exact ⟨(consumed_iterate h.wf hle).cap, fun _ => h.iterate hle⟩
  | markConsumed n =>
    by_cases hn : n ≤ b.readableBytes
    · simp only [SequencerBuffer.call, markConsumed_eq h.wf hn]
      exact ⟨(consumed_iterate h.wf hn).cap, fun _ => h.iterate hn⟩
    · have hr : b.markConsumed n = none := if_pos (by omega)
      simp only [SequencerBuffer.call, hr]
      exact ⟨trivial, fun _ => h⟩

theorem sound_of_gaps (hc : 0 < b.cap) (ht : b.totalBytesRead < maxOffset)
    (hg : b.gaps = [⟨b.totalBytesRead, maxOffset⟩]) : Sound src b where
  wf := wf_of_gaps hc ht hg
  gaps := by simp [hg]
  cell x hx hx' := by
    simp only [firstGap, first, hg, List.head?_cons, map_some, getD_some] at hx'
    omega
  early _ x hx hx' hm := absurd (hg ▸ ⟨_, .head _, hx, hx'⟩) hm

theorem sound_clear (hc : 0 < b.cap) (ht : b.totalBytesRead < maxOffset) : Sound src b.clear :=
  sound_of_gaps (by simpa using hc) (by simpa using ht) (by simp)

theorem Legible.firstGap_lt (h : Legible src b) : b.firstGap < maxOffset := by
  obtain ⟨g, gs, hg⟩ := List.exists_cons_of_ne_nil h.gaps
  have hs := h.wf.sorted
  rw [hg] at hs
  have hbound := h.wf.bounded g (by simp [hg])
  simp only [firstGap, first, hg, List.head?_cons, map_some, getD_some]
  exact hs.2.1.trans_le hbound

theorem Legible.lastGap_lt (h : Legible src b) : b.lastGap < maxOffset := by
  obtain ⟨g, hg⟩ := isSome_iff_exists.1 (List.getLast?_isSome.2 h.gaps)
  have hmem := List.mem_of_getLast? hg
  simp only [lastGap, last, hg, map_some, getD_some]
  exact (h.wf.sorted.lt_hi g hmem).trans_le (h.wf.bounded g hmem)

theorem sound_run {ops : List BufferOp} (hc : 0 < cap) (hcap : cap < 2 ^ 64)
    (h : run (opStep src) (new cap) ops = some b) (hg : b.gaps ≠ []) : Sound src b := by
  have hinv : b.cap = cap ∧ (b.gaps ≠ [] → Sound src b) := by
    refine run_inv (I := fun b => b.cap = cap ∧ (b.gaps ≠ [] → Sound src b)) (fun b op b' hb hs => ?_)
      ⟨rfl, fun _ => sound_of_gaps hc (by decide : 0 < maxOffset) rfl⟩ h
    cases op with
    | call c =>
      simp only [opStep, ite_none_right_eq_some, some.injEq] at hs
      obtain ⟨⟨hne, hf⟩, rfl⟩ := hs
      obtain ⟨hc', hsound⟩ := (hb.2 hne).call (hb.1 ▸ hcap) hf
      exact ⟨hc'.trans hb.1, hsound⟩
    | flushBufferedFrames =>
      simp only [opStep, ite_none_right_eq_some, some.injEq] at hs
      obtain ⟨hne, rfl⟩ := hs
      have hsound := hb.2 hne
      exact ⟨(clear_cap _).trans hb.1, fun _ => sound_clear hsound.wf.capPos hsound.lastGap_lt⟩
    | releaseWholeBuffer =>
      simp only [opStep, ite_none_right_eq_some, some.injEq] at hs
      obtain ⟨hne, rfl⟩ := hs
      have hsound := hb.2 hne
      have htot := hsound.wf.total_le_firstGap.trans_lt hsound.firstGap_lt
      exact ⟨(clear_cap b).trans hb.1, fun _ => sound_clear hsound.wf.capPos htot⟩
  exact hinv.2 hg

/-! ## The regions -/

/-- Between the first and the last readable byte, one block begins for each visit but the first. -/
theorem starts_lt_visits (hb : WF b) (hr : 0 < b.readableBytes) {o : ℕ} (ho : b.totalBytesRead < o) :
    starts b.cap o (b.firstGap - 1) < b.visits := by
  have hwin := hb.firstGap_le
  have hmem : ∀ x ∈ (Icc o (b.firstGap - 1)).filter (getInBlockOffset b.cap · = 0),
      b.totalBytesRead < x ∧ x < b.firstGap ∧ getInBlockOffset b.cap x = 0 := by
    intro x hx
    simp only [mem_filter, mem_Icc] at hx
    exact ⟨by omega, by omega, hx.2⟩
  -- the blocks that begin there are different ones
  have hcard : starts b.cap o (b.firstGap - 1) = (((Icc o (b.firstGap - 1)).filter
      (getInBlockOffset b.cap · = 0)).image (getBlockIndex b.cap)).card := by
    refine (card_image_of_injOn fun x hx y hy hxy => ?_).symm
    obtain ⟨hx1, hx2, hx3⟩ := hmem x hx
    obtain ⟨hy1, hy2, hy3⟩ := hmem y hy
    exact place_inj hb.capPos hx1.le (by omega) hy1.le (by omega) hxy (hx3.trans hy3.symm)
  have hsub : ((Icc o (b.firstGap - 1)).filter (getInBlockOffset b.cap · = 0)).image
      (getBlockIndex b.cap) ⊆ (Ico b.totalBytesRead b.firstGap).image (getBlockIndex b.cap) := by
    refine image_subset_image fun x hx => ?_
    have := hmem x hx
    rw [mem_Ico]
    omega
  unfold visits touched
  rw [hcard]
  split
  · have := card_le_card hsub
    omega
  · next hre =>
    -- the first block is not among them
    refine card_lt_card ((ssubset_iff_of_subset hsub).2 ⟨b.nextBlockToRead, ?_, fun hin => ?_⟩)
    · refine mem_image.2 ⟨b.totalBytesRead, mem_Ico.2 ⟨le_rfl, ?_⟩, rfl⟩
      unfold readableBytes at hr
      omega
    · obtain ⟨x, hx, hblock⟩ := mem_image.1 hin
      obtain ⟨h1, h2, h3⟩ := hmem x hx
      exact hre ⟨x, mem_Ioo.2 ⟨h1, h2⟩, h3, hblock⟩

/-- With room for a region on each visit, all that can be read is shown. -/
theorem getReadableRegions_whole (hb : WF b) (hr : 0 < b.readableBytes) (hroom : b.visits ≤ count) :
    Covers b.cap b.totalBytesRead (b.getReadableRegions count) b.firstGap := by
  obtain ⟨-, o', -, hcov, hall⟩ := getReadableRegions_covers count hb hr
  rwa [hall fun o ho => (starts_lt_visits hb hr ho).trans_le hroom] at hcov

theorem Legible.regions (h : Legible src b) (ho : o' ≤ b.firstGap)
    (hc : Covers b.cap b.totalBytesRead rs o') :
    rs.flatMap b.readRegion = slice src b.totalBytesRead (o' - b.totalBytesRead) := by
  rw [read_covers h.wf.capPos hc]
  refine List.map_congr_left fun i hi => ?_
  rw [List.mem_range] at hi
  rw [h.cell _ (by omega) (by omega), getD_some]

/-- What is said about the regions for which there is room. -/
structure ZeroCopy (b : SequencerBuffer) (count : ℕ) : Prop where
  begins : ∀ lens : List ℕ, b.readableBytes ≤ lens.sum →
    (b.getReadableRegions count).flatMap b.readRegion <+: (b.readv lens).2.1.flatten
  whole : ∀ lens : List ℕ, b.readableBytes ≤ lens.sum → b.visits ≤ count →
    (b.getReadableRegions count).flatMap b.readRegion = (b.readv lens).2.1.flatten
  nonempty : b.hasBytesToRead → (b.getReadableRegions count).flatMap b.readRegion ≠ []
  disjoint : (b.getReadableRegions count).Pairwise Region.Disjoint
  consume : ∀ lens : List ℕ, lens.sum ≤ ((b.getReadableRegions count).map Region.len).sum →
    b.markConsumed lens.sum = some (b.readv lens).1 ∧ (b.readv lens).2.1.flatten.length = lens.sum

theorem Legible.zeroCopy_of_empty (h : Legible src b) (hr : b.readableBytes = 0) : ZeroCopy b count := by
  have hregs : b.getReadableRegions count = [] := if_pos hr
  have hbytes : ∀ lens : List ℕ, (b.readv lens).2.1.flatten = [] := by
    intro lens
    obtain ⟨chunks, hread, hflat⟩ := readv_eq lens h
    rw [hread, hflat, hr, Nat.min_zero]
    rfl
  refine ⟨fun lens _ => ?_, fun lens _ _ => ?_, fun hh => ?_, ?_, fun lens hle => ?_⟩
  · simp [hregs]
  · simp [hregs, hbytes]
  · simp [hasBytesToRead, hr] at hh
  · simp [hregs]
  · rw [hregs] at hle
    have h0 : lens.sum = 0 := Nat.le_zero.1 hle
    obtain ⟨chunks, hread, -⟩ := readv_eq lens h
    rw [hbytes, hread, h0, markConsumed_eq h.wf (Nat.zero_le _), Nat.zero_min]
    exact ⟨rfl, rfl⟩

theorem Legible.zeroCopy (h : Legible src b) (count : ℕ) : ZeroCopy b count := by
  rcases Nat.eq_zero_or_pos b.readableBytes with hr | hr
  · exact h.zeroCopy_of_empty hr
  obtain ⟨hne, o', ho', hcov, -⟩ := getReadableRegions_covers count h.wf hr
  have hlt := hcov.lt hne
  have hsum := hcov.sum_len
  have hlap := h.wf.firstGap_le
  have hread : b.firstGap - b.totalBytesRead = b.readableBytes := rfl
  refine ⟨fun lens hlens => ?_, fun lens hlens hroom => ?_, fun _ => ?_, ?_, fun lens hlens => ?_⟩
  · obtain ⟨chunks, hrv, hflat⟩ := readv_eq lens h
    rw [hrv, hflat, h.regions ho' hcov, Nat.min_eq_right hlens]
    have hsplit : b.readableBytes = (o' - b.totalBytesRead) + (b.firstGap - o') := by omega
    rw [hsplit, slice_add]
    exact List.prefix_append _ _
  · obtain ⟨chunks, hrv, hflat⟩ := readv_eq lens h
    rw [hrv, hflat, h.regions le_rfl (getReadableRegions_whole h.wf hr hroom),
      Nat.min_eq_right hlens, hread]
  · intro hnil
    have hlen := congrArg List.length hnil
    rw [h.regions ho' hcov, slice_length, List.length_nil] at hlen
    omega
  · exact hcov.disjoint h.wf.capPos (by omega)
  · obtain ⟨chunks, hrv, hflat⟩ := readv_eq lens h
    have hmin : min lens.sum b.readableBytes = lens.sum := by omega
    rw [hrv, hflat, hmin, markConsumed_eq h.wf (by omega), slice_length]
    exact ⟨rfl, rfl⟩

/-- **Reading in place is reading by copy.**  In every state of a buffer of any capacity that still has
    a gap, and with room for any number of regions: the regions show the first bytes that `Readv`
    would copy, all of them if there is a region for each visit to a block; they do not overlap; and
    consuming bytes of theirs leaves the buffer as a `Readv` of as many bytes does. -/
theorem regions_eq_readv {ops : List BufferOp} (hc : 0 < cap) (hcap : cap < 2 ^ 64)
    (h : run (opStep src) (new cap) ops = some b) (hg : b.gaps ≠ []) (count : ℕ) : ZeroCopy b count :=
  (sound_run hc hcap h hg).toLegible.zeroCopy count

/-- Five bytes of which two are consumed, and one region. -/
theorem regions_eq_readv_five : ∃ b, run (opStep fun i => .ofNat i) (new (2 * kBlockSizeBytes))
      [.call (.onStreamData 2 3), .call (.onStreamData 0 2), .call (.markConsumed 2)] = some b ∧
    ZeroCopy b 1 := by
  obtain ⟨b, hb⟩ := isSome_iff_exists.1 (by decide +kernel :
    (run (opStep fun i => .ofNat i) (new (2 * kBlockSizeBytes))
      [.call (.onStreamData 2 3), .call (.onStreamData 0 2), .call (.markConsumed 2)]).isSome)
  have hgaps : b.gaps ≠ [] := by
    have hrun : ((run (opStep fun i => .ofNat i) (new (2 * kBlockSizeBytes))
      [.call (.onStreamData 2 3), .call (.onStreamData 0 2), .call (.markConsumed 2)]).map
        SequencerBuffer.gaps) ≠ some [] := by decide +kernel
    rw [hb] at hrun
    simpa using hrun
  exact ⟨b, hb, regions_eq_readv (by decide) (by decide) hb hgaps 1⟩

theorem touched_le (hc : 0 < b.cap) : b.touched ≤ blocksCount b.cap := by
  refine (card_le_card fun i hi => ?_).trans (card_range _).le
  obtain ⟨x, -, rfl⟩ := mem_image.1 hi
  exact mem_range.2 (getBlockIndex_lt hc)

theorem opStep_onStreamData {offset len : ℕ} (hg : b.gaps ≠ [])
    (hf : (BufferCall.onStreamData offset len).Fits)
    (hr : b.onStreamData offset (slice src offset len) = .ok (b', n)) :
    opStep src b (.call (.onStreamData offset len)) = some b' := by
  simp only [opStep, if_pos (And.intro hg hf), call, hr]

theorem opStep_markConsumed (hg : b.gaps ≠ []) (hr : b.markConsumed n = some b') :
    opStep src b (.call (.markConsumed n)) = some b' := by
  simp only [opStep, if_pos (And.intro hg (show (BufferCall.markConsumed n).Fits from trivial)), call, hr]

/-- A ring of two blocks, full from its second byte on: there is room for both blocks, and the byte that
    has come back to the first block is not shown. -/
theorem regions_miss_wrapped_piece : ∃ b, run (opStep fun _ => 0) (new (2 * kBlockSizeBytes))
      [.call (.onStreamData 0 1), .call (.markConsumed 1),
        .call (.onStreamData 1 (2 * kBlockSizeBytes))] = some b ∧
    b.gaps ≠ [] ∧ b.touched ≤ 2 ∧
    (b.getReadableRegions 2).flatMap b.readRegion ≠ (b.readv [b.readableBytes]).2.1.flatten := by
  have hc : 0 < 2 * kBlockSizeBytes := by decide
  have hring : 2 * kBlockSizeBytes = 16384 := rfl
  have hmax : maxOffset = 2 ^ 64 - 1 := rfl
  -- the first byte arrives and is consumed
  have hfirst : ∃ b', (new (2 * kBlockSizeBytes)).onStreamData 0 (slice (fun _ => 0) 0 1) =
      .ok (b', (slice (fun _ => 0) 0 1).length) ∧ b'.cap = 2 * kBlockSizeBytes ∧ b'.totalBytesRead = 0 ∧
      b'.gaps = cut ⟨0, maxOffset⟩ 0 (slice (fun _ => 0) 0 1).length :=
    onStreamData_single hc rfl rfl rfl (by simp) le_rfl le_rfl (by decide) (by decide) (by decide)
  obtain ⟨b₁, hr₁, hcap₁, htot₁, hgaps₁⟩ := hfirst
  have hstep₁ : opStep (fun _ => 0) (new (2 * kBlockSizeBytes)) (.call (.onStreamData 0 1)) = some b₁ :=
    opStep_onStreamData (by simp [new]) (by decide) hr₁
  have hrun₁ := run_cons.2 ⟨b₁, hstep₁, run_nil b₁⟩
  replace hgaps₁ : b₁.gaps = [⟨1, maxOffset⟩] := hgaps₁.trans (by decide)
  have hsound := sound_run hc (by decide) hrun₁ (by simp [hgaps₁])
  have hread₁ : 1 ≤ b₁.readableBytes := by
    simp [readableBytes, firstGap, first, hgaps₁, htot₁]
  have hcons := consumed_iterate hsound.wf hread₁
  -- the ring is filled
  have hfill : ∃ b', (takeByte^[1] b₁).onStreamData 1 (slice (fun _ => 0) 1 (2 * kBlockSizeBytes)) =
      .ok (b', (slice (fun _ => 0) 1 (2 * kBlockSizeBytes)).length) ∧ b'.cap = 2 * kBlockSizeBytes ∧
      b'.totalBytesRead = 1 ∧
      b'.gaps = cut ⟨1, maxOffset⟩ 1 (slice (fun _ => 0) 1 (2 * kBlockSizeBytes)).length := by
    have htot : (takeByte^[1] b₁).totalBytesRead = 1 := by rw [hcons.total, htot₁]
    exact onStreamData_single hc (hcons.cap.trans hcap₁) htot (hcons.gaps.trans hgaps₁)
      (by rw [slice_length]; omega) le_rfl le_rfl (by rw [slice_length]; omega) (by rw [slice_length])
      (by omega)
  obtain ⟨b, hr, hcap, htot, hgaps⟩ := hfill
  rw [slice_length] at hr hgaps
  replace hgaps : b.gaps = [⟨16385, maxOffset⟩] := hgaps.trans (by decide)
  have hrun : run (opStep fun _ => 0) (new (2 * kBlockSizeBytes)) [.call (.onStreamData 0 1),
      .call (.markConsumed 1), .call (.onStreamData 1 (2 * kBlockSizeBytes))] = some b := by
    refine run_cons.2 ⟨b₁, hstep₁, run_cons.2 ⟨takeByte^[1] b₁, ?_, run_cons.2 ⟨b, ?_, run_nil b⟩⟩⟩
    · exact opStep_markConsumed (by simp [hgaps₁]) (markConsumed_eq hsound.wf hread₁)
    · exact opStep_onStreamData (by rw [hcons.gaps, hgaps₁]; simp) (by decide) hr
  have hread : b.readableBytes = 16384 := by simp [readableBytes, firstGap, first, hgaps, htot]
  refine ⟨b, hrun, by simp [hgaps], ?_, fun heq => ?_⟩
  · exact (touched_le (by omega)).trans (by rw [hcap]; decide)
  · -- the two regions are one byte short
    obtain ⟨chunks, hrv, hflat⟩ := readv_eq [b.readableBytes]
      (sound_run hc (by decide) hrun (by simp [hgaps])).toLegible
    have hlen := congrArg List.length heq
    rw [hrv, hflat, slice_length, hread] at hlen
    have hregs : b.getReadableRegions 2 = [⟨0, 1, 8191⟩, ⟨1, 0, 8192⟩] := by
      simp only [getReadableRegions, hread, nextBlockToRead, readOffset, htot, hcap, firstGap,
        first, hgaps]
      decide
    rw [hregs] at hlen
    simp [readRegion] at hlen

end SequencerBuffer
end Puic
