/-
  Reading from the receive buffer and consuming what was read.

  `getReadableRegions` shows a run of offsets from the first unconsumed byte on,
  cut at the block boundaries (`Covers`).  `markConsumed` advances past it and
  frees the blocks that hold nothing else; what has arrived beyond stays stored.
-/
import Mathlib.Order.Interval.Finset.Nat
import Puic.SequencerBuffer

namespace Puic

open GapList List

variable {cap o o' n x : ℕ} {rs : List Region}

/-! ## Regions -/

/-- The regions show the offsets from `o` up to `o'`, in order and without holes. -/
def Covers (cap : ℕ) : ℕ → List Region → ℕ → Prop
  | o, [], o' => o = o'
  | o, r :: rs, o' => r.block = getBlockIndex cap o ∧ r.offset = getInBlockOffset cap o ∧
    0 < r.len ∧ r.offset + r.len ≤ getBlockCapacity cap r.block ∧ Covers cap (o + r.len) rs o'

theorem Covers.le : ∀ {o rs}, Covers cap o rs o' → o ≤ o'
  | _, [], h => Nat.le_of_eq h
  | _, _ :: _, ⟨_, _, _, _, h⟩ => by have := h.le; omega

theorem Covers.lt (h : Covers cap o rs o') (hne : rs ≠ []) : o < o' := by
  cases rs with
  | nil => exact absurd rfl hne
  | cons r rs =>
    obtain ⟨-, -, hr, -, h⟩ := h
    have := h.le
    omega

theorem Covers.sum_len : ∀ {o rs}, Covers cap o rs o' → o + (rs.map Region.len).sum = o'
  | _, [], h => h
  | _, r :: rs, ⟨_, _, _, _, h⟩ => by
    have := h.sum_len
    simp only [map_cons, sum_cons]
    omega

/-- A place in a region is the place of one of the offsets it shows. -/
theorem Covers.place : ∀ {o rs}, 0 < cap → Covers cap o rs o' → ∀ r ∈ rs, ∀ i, r.offset ≤ i →
    i < r.offset + r.len →
    ∃ x, o ≤ x ∧ x < o' ∧ getBlockIndex cap x = r.block ∧ getInBlockOffset cap x = i
  | o, r :: rs, hc, ⟨hb, ho, hl, hf, h⟩, k, hk, i, hi, hi' => by
    rcases mem_cons.1 hk with rfl | hk
    · have hle := h.le
      have hlt : getInBlockOffset cap o + (i - k.offset) <
          getBlockCapacity cap (getBlockIndex cap o) := by rw [← ho, ← hb]; omega
      have he := block_end (getBlockIndex_lt (o := o) hc)
      refine ⟨o + (i - k.offset), by omega, by omega, ?_, ?_⟩
      · rw [hb]
        exact (getBlockIndex_add hc (by omega)).2 (.inl hlt)
      · rw [getInBlockOffset_add hc hlt, ← ho]
        omega
    · obtain ⟨x, h1, h2, h3⟩ := h.place hc k hk i hi hi'
      exact ⟨x, by omega, h2, h3⟩

namespace SequencerBuffer

variable {b b' : SequencerBuffer}

theorem readRegion_covers (hc : 0 < b.cap) {r : Region} (hb : r.block = getBlockIndex b.cap o)
    (ho : r.offset = getInBlockOffset b.cap o)
    (hf : r.offset + r.len ≤ getBlockCapacity b.cap r.block) :
    b.readRegion r = (range r.len).map fun i => (b.cell (o + i)).getD 0 := by
  refine map_congr_left fun i hi => ?_
  rw [mem_range] at hi
  have hlt : getInBlockOffset b.cap o + i < getBlockCapacity b.cap (getBlockIndex b.cap o) := by
    rw [← ho, ← hb]; omega
  have he := block_end (getBlockIndex_lt (o := o) hc)
  have hblock := (getBlockIndex_add hc (by omega : i ≤ b.cap)).2 (.inl hlt)
  rw [cell, hblock, getInBlockOffset_add hc hlt, hb, ho]

theorem read_covers (hc : 0 < b.cap) : ∀ {o rs}, Covers b.cap o rs o' →
    rs.flatMap b.readRegion = (range (o' - o)).map fun i => (b.cell (o + i)).getD 0
  | o, [], h => by
    have : o' - o = 0 := by have : o = o' := h; omega
    simp [this]
  | o, r :: rs, ⟨hb, ho, hl, hf, h⟩ => by
    have hlen : o' - o = r.len + (o' - (o + r.len)) := by have := h.le; omega
    rw [flatMap_cons, readRegion_covers hc hb ho hf, read_covers hc h, hlen, range_add,
      map_append, map_map]
    simp only [Function.comp_def, Nat.add_assoc]

/-- The number of blocks that begin between two offsets. -/
def starts (cap o e : ℕ) : ℕ := ((Finset.Icc o e).filter (getInBlockOffset cap · = 0)).card

theorem starts_lt {e : ℕ} (o₂ : ℕ) (ho : getInBlockOffset cap o = 0) (hlt : o < o₂) (hle : o ≤ e) :
    starts cap o₂ e < starts cap o e := by
  refine Finset.card_lt_card (Finset.ssubset_iff_of_subset (fun x hx => ?_) |>.2 ⟨o, ?_, ?_⟩)
  · simp only [Finset.mem_filter, Finset.mem_Icc] at hx ⊢
    exact ⟨⟨by omega, hx.1.2⟩, hx.2⟩
  · simp only [Finset.mem_filter, Finset.mem_Icc]
    exact ⟨⟨le_rfl, hle⟩, ho⟩
  · simp only [Finset.mem_filter, Finset.mem_Icc]
    omega

/-- The loop over the blocks after the first one goes on up to the first gap, or until there is no
    room for another region: with room for one in each block that begins on the way, up to the gap. -/
theorem restRegions_covers (hc : 0 < cap) (start count : ℕ) {e : ℕ} :
    ∀ (fuel used o : ℕ), getInBlockOffset cap o = 0 →
      getBlockIndex cap o = (start + used) % blocksCount cap → o ≤ e → e < o + cap →
      ∃ o' ≤ e + 1, Covers cap o
        (restRegions cap start (getBlockIndex cap e) (getInBlockOffset cap e) count fuel used) o' ∧
        (starts cap o e ≤ fuel → used + starts cap o e ≤ count → o' = e + 1)
  | 0, used, o, ho, _, he, _ => by
    have hpos := starts_lt (e + 1) ho (by omega) he
    exact ⟨o, by omega, rfl, fun hfuel => by omega⟩
  | fuel + 1, used, o, ho, hi, he, he' => by
    have hpos := starts_lt (e + 1) ho (by omega) he
    unfold restRegions
    dsimp only
    rw [← hi]
    have hlt := getInBlockOffset_lt (o := o) hc
    have hsame := getBlockIndex_add (o := o) (d := e - o) hc (by omega)
    rw [Nat.add_sub_cancel' he, ho, Nat.zero_add] at hsame
    split
    · split
      · next hend =>
        -- the last block: the end is in the block that begins at `o`
        have hin : e - o < getBlockCapacity cap (getBlockIndex cap o) := by
          rcases hsame.1 hend.symm with h | h <;> omega
        have hoff := getInBlockOffset_add (o := o) (d := e - o) hc (by omega)
        rw [Nat.add_sub_cancel' he] at hoff
        refine ⟨e + 1, le_rfl, ⟨hend.symm, ho.symm, by simp, ?_, ?_⟩, fun _ _ => rfl⟩
        · rw [← hend]; dsimp only; omega
        · show o + (getInBlockOffset cap e + 1) = e + 1
          omega
      · next hend =>
        have hout : o + getBlockCapacity cap (getBlockIndex cap o) ≤ e := by
          by_contra hcon
          exact hend (hsame.2 (.inl (by omega))).symm
        obtain ⟨hz, hnext⟩ :=
          next_block (o := o) (d := getBlockCapacity cap (getBlockIndex cap o)) hc (by omega)
        obtain ⟨o', ho', hcov, hall⟩ := restRegions_covers hc start count fuel (used + 1) _
          hz (by rw [hnext, hi, Nat.mod_add_mod, Nat.add_assoc]) hout (by omega)
        have hless := starts_lt (o + getBlockCapacity cap (getBlockIndex cap o)) ho (by omega) he
        exact ⟨o', ho', ⟨rfl, ho.symm, by dsimp only; omega, by dsimp only; omega, hcov⟩,
          fun _ _ => hall (by omega) (by omega)⟩
    · exact ⟨o, by omega, rfl, fun _ hroom => by omega⟩

/-- If the last byte is in the block of the first and not before it, it is not a lap further on. -/
theorem single_block {e : ℕ} (hc : 0 < cap) (he : e < cap)
    (hi : getBlockIndex cap o = getBlockIndex cap (o + e))
    (ho : getInBlockOffset cap o ≤ getInBlockOffset cap (o + e)) :
    getInBlockOffset cap o + e < getBlockCapacity cap (getBlockIndex cap o) := by
  rcases (getBlockIndex_add hc he.le).1 hi.symm with hin | hlap
  · exact hin
  · have hp := place_eq cap o
    have hp' := place_eq cap (o + e)
    have hw := add_mod_cases (o := o) hc he.le
    rw [hi] at hp
    omega

/-- What can be read is shown from the first unconsumed byte on, and all of it if there is room for a
    region in each block that begins later. -/
theorem getReadableRegions_covers (count : ℕ) (hb : WF b) (hr : 0 < b.readableBytes) :
    b.getReadableRegions count ≠ [] ∧
      ∃ o' ≤ b.firstGap, Covers b.cap b.totalBytesRead (b.getReadableRegions count) o' ∧
        ((∀ o, b.totalBytesRead < o → starts b.cap o (b.firstGap - 1) < count) → o' = b.firstGap) := by
  have hc := hb.capPos
  have hwin := hb.firstGap_le
  have hlt := getInBlockOffset_lt (o := b.totalBytesRead) hc
  unfold readableBytes at hr
  obtain ⟨e, he⟩ : ∃ e, b.firstGap = b.totalBytesRead + e + 1 :=
    ⟨b.firstGap - b.totalBytesRead - 1, by omega⟩
  have hsame := getBlockIndex_add (o := b.totalBytesRead) (d := e) hc (by omega)
  unfold getReadableRegions
  rw [if_neg (by unfold readableBytes; omega)]
  simp only [readableBytes, nextBlockToRead, readOffset, he, Nat.add_sub_cancel]
  split
  · next h =>
    have hin := single_block hc (by omega) h.1 h.2
    have hlen : b.totalBytesRead + e + 1 - b.totalBytesRead = e + 1 := by omega
    rw [hlen]
    exact ⟨by simp, _, le_rfl, ⟨rfl, rfl, Nat.succ_pos e, hin, (Nat.add_assoc _ _ _).symm⟩, fun _ => rfl⟩
  · next h =>
    refine ⟨by simp, ?_⟩
    have hout : getBlockCapacity b.cap (getBlockIndex b.cap b.totalBytesRead) ≤
        getInBlockOffset b.cap b.totalBytesRead + e := by
      by_contra hcon
      have hoff := getInBlockOffset_add (o := b.totalBytesRead) (d := e) hc (by omega)
      exact h ⟨(hsame.2 (.inl (by omega))).symm, by omega⟩
    obtain ⟨hz, hnext⟩ := next_block (o := b.totalBytesRead)
      (d := getBlockCapacity b.cap (getBlockIndex b.cap b.totalBytesRead) -
        getInBlockOffset b.cap b.totalBytesRead) hc (by omega)
    obtain ⟨o', ho', hcov, hall⟩ := restRegions_covers hc _ count count 1 _ hz hnext
      (by omega : _ ≤ b.totalBytesRead + e) (by omega)
    refine ⟨o', by omega, ⟨rfl, rfl, by dsimp only; omega, by dsimp only; omega, hcov⟩, fun hroom => ?_⟩
    have hless := hroom _ (by omega : b.totalBytesRead < b.totalBytesRead + (getBlockCapacity b.cap
      (getBlockIndex b.cap b.totalBytesRead) - getInBlockOffset b.cap b.totalBytesRead))
    exact hall (by omega) (by omega)

/-! ## Consumption -/

theorem retireBlock_cases (b : SequencerBuffer) (idx : ℕ) :
    (b.retireBlock idx).cap = b.cap ∧ (b.retireBlock idx).totalBytesRead = b.totalBytesRead ∧
      (b.retireBlock idx).gaps = b.gaps ∧
      ∀ x, getBlockIndex b.cap x ≠ idx → (b.retireBlock idx).cell x = b.cell x := by
  unfold retireBlock
  split
  · simp
  · refine ⟨rfl, rfl, rfl, fun x hx => ?_⟩
    simp only [cell, Function.update_of_ne hx]

theorem retireBlockIfEmpty_cases (b : SequencerBuffer) (idx : ℕ) :
    b.retireBlockIfEmpty idx = b ∨ b.retireBlockIfEmpty idx = b.retireBlock idx := by
  unfold retireBlockIfEmpty
  split_ifs <;> simp

theorem retireBlockIfEmpty_fields (b : SequencerBuffer) (idx : ℕ) :
    (b.retireBlockIfEmpty idx).cap = b.cap ∧
      (b.retireBlockIfEmpty idx).totalBytesRead = b.totalBytesRead ∧
      (b.retireBlockIfEmpty idx).gaps = b.gaps := by
  obtain ⟨h1, h2, h3, -⟩ := retireBlock_cases b idx
  rcases retireBlockIfEmpty_cases b idx with h | h <;> rw [h]
  · simp
  · exact ⟨h1, h2, h3⟩

theorem WF.total_le_lastGap (hb : WF b) : b.totalBytesRead ≤ b.lastGap := by
  cases h : b.gaps.getLast? with
  | none => simpa [lastGap, last, h] using hb.total
  | some g =>
    simp only [lastGap, last, h, Option.map_some, Option.getD_some]
    exact hb.sorted.le_lo g (mem_of_getLast? h)

theorem WF.lastGap_le_max (hb : WF b) : b.lastGap ≤ maxOffset := by
  cases h : b.gaps.getLast? with
  | none => simp [lastGap, last, h]
  | some g =>
    have hg := mem_of_getLast? h
    simp only [lastGap, last, h, Option.map_some, Option.getD_some]
    exact (hb.sorted.lt_hi g hg).le.trans (hb.bounded g hg)

/-- What has arrived before the last gap ends within the window. -/
theorem WF.lastGap_le (hb : WF b) (hne : b.gaps ≠ []) : b.lastGap ≤ b.totalBytesRead + b.cap := by
  have hmax := hb.lastGap_le_max
  by_contra hcon
  have hlast := not_missing_last (t := maxOffset) hb.sorted hne (by unfold lastGap at hcon; omega)
  exact hlast (hb.window _ (by unfold lastGap at hcon; omega) (by unfold lastGap at hcon hmax; omega))

/-- The block behind the consumed bytes is only retired when nothing that has arrived is stored in
    it: neither further on in the same lap, behind a gap, nor a lap later. -/
theorem retireBlockIfEmpty_cell (hb : WF b) (hne : b.gaps ≠ []) (ht : 0 < b.totalBytesRead)
    (hend : b.firstGap = b.totalBytesRead ∨
      getInBlockOffset b.cap (b.totalBytesRead - 1) + 1 =
        getBlockCapacity b.cap (getBlockIndex b.cap (b.totalBytesRead - 1)))
    (hx : b.totalBytesRead ≤ x) (hxl : x < b.lastGap) (hr : ¬ Missing b.gaps x) :
    (b.retireBlockIfEmpty (getBlockIndex b.cap (b.totalBytesRead - 1))).cell x = b.cell x := by
  obtain ⟨t, ht⟩ : ∃ t, b.totalBytesRead = t + 1 := ⟨b.totalBytesRead - 1, by omega⟩
  rw [ht, Nat.add_sub_cancel] at hend ⊢
  have hcap := hb.capPos
  have hlast := hb.lastGap_le hne
  have hkeep := (retireBlock_cases b (getBlockIndex b.cap t)).2.2.2 x
  unfold retireBlockIfEmpty
  split
  · next hempty =>
    -- a single gap from the consumed bytes on: nothing has arrived
    simp only [empty, Bool.and_eq_true, decide_eq_true_eq] at hempty
    obtain ⟨hlen, hf⟩ := hempty
    obtain ⟨g, hg⟩ := length_eq_one_iff.1 hlen
    simp only [firstGap, lastGap, first, last, hg, head?_cons, getLast?_singleton,
      Option.map_some, Option.getD_some] at hf hxl
    omega
  split
  · rfl
  next hlap =>
  split
  · rfl
  next hgap =>
  refine hkeep fun hblock => ?_
  obtain ⟨d, rfl⟩ : ∃ d, x = t + d := ⟨x - t, by omega⟩
  rcases (getBlockIndex_add hcap (by omega)).1 hblock with hsame | hnext
  · -- in the same lap: then a gap has been reached, and it ends in this block
    have hnextBlock := (getBlockIndex_add (o := t) (d := 1) hcap (by omega)).2 (.inl (by omega))
    have hf : b.firstGap = t + 1 := by omega
    obtain ⟨g, gs, hg⟩ := exists_cons_of_ne_nil hne
    have hs := hb.sorted
    rw [hg] at hs
    simp only [firstGap, first, hg, head?_cons, Option.map_some, Option.getD_some] at hf
    have hge : g.hi ≤ t + d := by
      by_contra hcon
      exact hr ⟨g, by simp [hg], by omega, by omega⟩
    have hghi := hs.2.1
    refine hgap ⟨by rw [nextBlockToRead, ht, hnextBlock], ?_⟩
    rw [hg, head?_cons, Option.map_some, Option.getD_some]
    obtain ⟨k, hk⟩ : ∃ k, g.hi = t + k := ⟨g.hi - t, by omega⟩
    rw [hk]
    exact (getBlockIndex_add hcap (by omega)).2 (.inl (by omega))
  · -- a lap later: then the end of what has arrived is in this block too
    obtain ⟨k, hk⟩ : ∃ k, b.lastGap - 1 = t + k := ⟨b.lastGap - 1 - t, by omega⟩
    rw [hk] at hlap
    exact hlap ((getBlockIndex_add hcap (by omega)).2 (.inr (by omega)))

/-- `b'` is `b` with the next `n` bytes consumed. -/
structure Consumed (b b' : SequencerBuffer) (n : ℕ) : Prop where
  cap : b'.cap = b.cap
  total : b'.totalBytesRead = b.totalBytesRead + n
  gaps : b'.gaps = b.gaps
  cell : Closed maxOffset b.gaps → ∀ x, b.totalBytesRead + n ≤ x → x < maxOffset →
    ¬ Missing b.gaps x → b'.cell x = b.cell x

theorem WF.consumed (hb : WF b) (hn : n ≤ b.readableBytes) (h : b'.cap = b.cap)
    (ht : b'.totalBytesRead = b.totalBytesRead + n) (hg : b'.gaps = b.gaps) : WF b' := by
  have hle := hb.total_le_firstGap
  have hmax := hb.firstGap_le_max
  unfold readableBytes at hn
  refine ⟨h ▸ hb.capPos, by omega, ?_, hg ▸ hb.bounded, ?_⟩
  · have hs := hb.sorted
    rw [hg, ht]
    cases hgs : b.gaps with
    | nil => trivial
    | cons g gs =>
      rw [hgs] at hs
      simp only [firstGap, first, hgs, head?_cons, Option.map_some, Option.getD_some] at hn hle
      exact ⟨by omega, hs.2⟩
  · intro x hx hx'
    exact hg ▸ hb.window x (by omega) hx'

theorem Consumed.readableBytes (h : Consumed b b' n) : b'.readableBytes = b.readableBytes - n := by
  simp only [SequencerBuffer.readableBytes, firstGap, h.gaps, h.total]
  omega

theorem Consumed.trans {b'' : SequencerBuffer} {m : ℕ} (h : Consumed b b' n)
    (h' : Consumed b' b'' m) : Consumed b b'' (n + m) where
  cap := h'.cap.trans h.cap
  total := by rw [h'.total, h.total, Nat.add_assoc]
  gaps := h'.gaps.trans h.gaps
  cell hc x hx hx' hr := by
    rw [h'.cell (h.gaps ▸ hc) x (by rw [h.total]; omega) hx' (h.gaps ▸ hr)]
    exact h.cell hc x (by omega) hx' hr

/-- One round consumes up to the end of the block, up to the gap, or all that is asked for. -/
theorem consumed_round (hb : WF b) (hn : 0 < n)
    (hle : n ≤ min b.readableBytes (getBlockCapacity b.cap b.nextBlockToRead - b.readOffset)) :
    Consumed b (if min b.readableBytes (getBlockCapacity b.cap b.nextBlockToRead - b.readOffset) = n
      then (b.advance n).retireBlockIfEmpty b.nextBlockToRead else b.advance n) n := by
  have hwf : WF (b.advance n) := hb.consumed (by omega) rfl rfl rfl
  split
  · next he =>
    obtain ⟨h1, h2, h3⟩ := retireBlockIfEmpty_fields (b.advance n) b.nextBlockToRead
    refine ⟨h1, h2, h3, fun hc x hx hx' hr => ?_⟩
    unfold readOffset nextBlockToRead at he hle
    -- the last byte consumed is in the block that was read
    have hoff : getInBlockOffset b.cap b.totalBytesRead + (n - 1) <
        getBlockCapacity b.cap (getBlockIndex b.cap b.totalBytesRead) := by omega
    have hcap := block_end (getBlockIndex_lt (o := b.totalBytesRead) hb.capPos)
    have hidx := (getBlockIndex_add hb.capPos (by omega : n - 1 ≤ b.cap)).2 (.inl hoff)
    have hin := getInBlockOffset_add hb.capPos hoff
    have hpred : b.totalBytesRead + (n - 1) = (b.advance n).totalBytesRead - 1 := by
      simp only [advance]; omega
    rw [hpred] at hidx hin
    rw [nextBlockToRead, ← hidx]
    have hxl : x < b.lastGap := by
      by_contra hcon
      exact hr (hc.missing (not_lt.1 hcon) hx')
    refine retireBlockIfEmpty_cell hwf hc.ne_nil (by simp only [advance]; omega) ?_ hx hxl hr
    have hfirst : (b.advance n).firstGap = b.firstGap := rfl
    have htot : (b.advance n).totalBytesRead = b.totalBytesRead + n := rfl
    have hcap' : (b.advance n).cap = b.cap := rfl
    rw [hcap', hidx, hin]
    unfold readableBytes at he
    omega
  · exact ⟨rfl, rfl, rfl, fun _ _ _ _ _ => rfl⟩

theorem consumed_consume : ∀ (fuel : ℕ) (b : SequencerBuffer) (n : ℕ), WF b → n ≤ fuel →
    n ≤ b.readableBytes → Consumed b (consume fuel b n) n
  | 0, b, n, _, hf, _ => by
    obtain rfl := Nat.le_zero.1 hf
    exact ⟨rfl, rfl, rfl, fun _ _ _ _ _ => rfl⟩
  | fuel + 1, b, n, hb, hf, hr => by
    unfold consume
    split
    · next h => subst h; exact ⟨rfl, rfl, rfl, fun _ _ _ _ _ => rfl⟩
    next hn =>
    dsimp only
    have hoff : b.readOffset < getBlockCapacity b.cap b.nextBlockToRead := getInBlockOffset_lt hb.capPos
    generalize hm : min n _ = m
    have hround := consumed_round (n := m) hb (by omega) (by omega)
    have hb' := hb.consumed (by omega) hround.cap hround.total hround.gaps
    have hrest := consumed_consume fuel _ (n - m) hb' (by omega) (by rw [hround.readableBytes]; omega)
    have := hround.trans hrest
    rwa [Nat.add_sub_cancel' (by omega : m ≤ n)] at this

theorem markConsumed_consumed (hb : WF b) (h : b.markConsumed n = some b') :
    n ≤ b.readableBytes ∧ Consumed b b' n := by
  unfold markConsumed at h
  split at h
  · cases h
  · next hn =>
    cases h
    exact ⟨by omega, consumed_consume n b n hb le_rfl (by omega)⟩

theorem markConsumed_some (hn : n ≤ b.readableBytes) : ∃ b', b.markConsumed n = some b' := by
  unfold markConsumed
  rw [if_neg (by omega)]
  exact ⟨_, rfl⟩

/-! ## Clearing -/

theorem foldl_retireBlock : ∀ (l : List ℕ) (b : SequencerBuffer),
    (l.foldl retireBlock b).cap = b.cap ∧ (l.foldl retireBlock b).totalBytesRead = b.totalBytesRead
  | [], _ => ⟨rfl, rfl⟩
  | i :: l, b => by
    obtain ⟨h1, h2⟩ := foldl_retireBlock l (b.retireBlock i)
    obtain ⟨h3, h4, -⟩ := retireBlock_cases b i
    exact ⟨h1.trans h3, h2.trans h4⟩

@[simp] theorem clear_cap (b : SequencerBuffer) : b.clear.cap = b.cap :=
  (foldl_retireBlock _ b).1

@[simp] theorem clear_total (b : SequencerBuffer) : b.clear.totalBytesRead = b.totalBytesRead :=
  (foldl_retireBlock _ b).2

@[simp] theorem clear_gaps (b : SequencerBuffer) :
    b.clear.gaps = [⟨b.totalBytesRead, maxOffset⟩] := rfl

theorem byte_round {t : ℕ} {data : List UInt8} (hc : 0 < cap) (hcap : b.cap = cap)
    (ht : b.totalBytesRead = t) (hg : b.gaps = [⟨t, maxOffset⟩]) (hlen : data.length = 1)
    (hmax : t + 1 < maxOffset) (hwin : t + cap < 2 ^ 64) :
    ∃ b₁ b₂, b.onStreamData t data = .ok (b₁, 1) ∧ b₁.cap = cap ∧ b₁.totalBytesRead = t ∧
      b₁.gaps = [⟨t + 1, maxOffset⟩] ∧ b₁.markConsumed 1 = some b₂ ∧ b₂.cap = cap ∧
      b₂.totalBytesRead = t + 1 ∧ b₂.gaps = [⟨t + 1, maxOffset⟩] := by
  obtain ⟨b₁, h₁, hcap₁, htot₁, hgaps₁⟩ := onStreamData_single hc hcap ht hg
    (show 0 < data.length by omega) le_rfl le_rfl (by omega) (by omega) (by omega)
  have hcut : cut ⟨t, maxOffset⟩ t data.length = [⟨t + 1, maxOffset⟩] := by
    rw [hlen]
    exact if_pos ⟨rfl, by dsimp only; omega⟩
  rw [hcut] at hgaps₁
  rw [hlen] at h₁
  have hfirst : b₁.firstGap = t + 1 := by simp [firstGap, first, hgaps₁]
  have hwf : WF b₁ := by
    refine ⟨by omega, by omega, ?_, by simp [hgaps₁], fun x hx hx' => ?_⟩
    · rw [hgaps₁]
      exact ⟨by dsimp only; omega, by dsimp only; omega, trivial⟩
    · rw [hgaps₁]
      exact ⟨_, .head _, by dsimp only; omega, hx'⟩
  obtain ⟨b₂, h₂⟩ := markConsumed_some (b := b₁) (n := 1) (by unfold readableBytes; omega)
  obtain ⟨-, hcons⟩ := markConsumed_consumed hwf h₂
  exact ⟨b₁, b₂, h₁, hcap₁, htot₁, hgaps₁, h₂, hcons.cap.trans hcap₁, by rw [hcons.total, htot₁],
    hcons.gaps.trans hgaps₁⟩

theorem WF.congr (hb : WF b) (h : b'.cap = b.cap) (ht : b'.totalBytesRead = b.totalBytesRead)
    (hg : b'.gaps = b.gaps) : WF b' :=
  hb.consumed (Nat.zero_le _) h ht hg

theorem wf_of_gaps (hc : 0 < b.cap) (ht : b.totalBytesRead < maxOffset)
    (hg : b.gaps = [⟨b.totalBytesRead, maxOffset⟩]) : WF b where
  capPos := hc
  total := ht.le
  sorted := by rw [hg]; exact ⟨le_rfl, ht, trivial⟩
  bounded := by simp [hg]
  window x hx hx' := by rw [hg]; exact ⟨_, .head _, by dsimp only; omega, hx'⟩

theorem wf_clear (hc : 0 < b.cap) (ht : b.totalBytesRead < maxOffset) : WF b.clear :=
  wf_of_gaps (by simpa using hc) (by simpa using ht) (by simp)

/-! ## The stored bytes -/

/-- What has arrived and is not consumed are bytes of the stream `src`, at their offsets. -/
structure Carries (src : ℕ → UInt8) (b : SequencerBuffer) : Prop where
  wf : WF b
  closed : Closed maxOffset b.gaps
  cell : ∀ x, b.totalBytesRead ≤ x → x < maxOffset → ¬ Missing b.gaps x → b.cell x = some (src x)

variable {src : ℕ → UInt8} {B data : List UInt8} {offset : ℕ}

theorem Carries.stored (h : Carries src b) (hst : Stored b b' offset data)
    (hB : offset + data.length < maxOffset)
    (hdata : ∀ i < data.length, data.getD i 0 = src (offset + i)) : Carries src b' where
  wf := hst.wf h.wf
  closed := by
    obtain ⟨p, g, q, hg, hlo, -, hg'⟩ := hst.gaps
    have hc := h.closed
    rw [hg] at hc
    rw [hg']
    exact hc.replace hlo hB
  cell x hx hx' hm := by
    rw [hst.total] at hx
    by_cases hin : offset ≤ x ∧ x < offset + data.length
    · have hbyte := hdata (x - offset) (by omega)
      rw [Nat.add_sub_cancel' hin.1] at hbyte
      rw [hst.inside x hin.1 hin.2, hbyte]
    · have hm' : ¬ Missing b.gaps x := fun h' => hm ((hst.missing h.wf).2 ⟨h', hin⟩)
      have hwin : x < b.totalBytesRead + b.cap := by
        by_contra hcon
        exact hm' (h.wf.window x (by omega) hx')
      exact hst.outside x hx hwin hin _ (h.cell x hx hx' hm')

theorem Carries.consumed (h : Carries src b) (hn : n ≤ b.readableBytes) (hc : Consumed b b' n) :
    Carries src b' where
  wf := h.wf.consumed hn hc.cap hc.total hc.gaps
  closed := hc.gaps ▸ h.closed
  cell x hx hx' hm := by
    rw [hc.total] at hx
    rw [hc.gaps] at hm
    rw [hc.cell h.closed x hx hx' hm]
    exact h.cell x (by omega) hx' hm

/-- The stream is the list `B`, and nothing has arrived behind its end. -/
structure Holds (B : List UInt8) (b : SequencerBuffer) : Prop where
  wf : WF b
  closed : Closed maxOffset b.gaps
  bytes : ∀ x, b.totalBytesRead ≤ x → x < maxOffset → ¬ Missing b.gaps x → x < B.length ∧
    b.cell x = some (B.getD x 0)

theorem Holds.carries (h : Holds B b) : Carries (B.getD · 0) b :=
  ⟨h.wf, h.closed, fun x hx hx' hm => (h.bytes x hx hx' hm).2⟩

theorem Carries.holds (h : Carries (B.getD · 0) b)
    (hB : ∀ x, b.totalBytesRead ≤ x → x < maxOffset → ¬ Missing b.gaps x → x < B.length) : Holds B b :=
  ⟨h.wf, h.closed, fun x hx hx' hm => ⟨hB x hx hx' hm, h.cell x hx hx' hm⟩⟩

theorem Holds.firstGap_le (h : Holds B b) (hB : B.length < maxOffset)
    (ht : b.totalBytesRead ≤ B.length) : b.firstGap ≤ B.length := by
  by_contra hcon
  have := (h.bytes B.length ht hB (h.wf.not_missing (by omega))).1
  omega

theorem Holds.lastGap_le (h : Holds B b) (ht : b.totalBytesRead ≤ B.length) : b.lastGap ≤ B.length := by
  by_contra hcon
  have hmiss := not_missing_last (t := maxOffset)
    h.wf.sorted h.closed.ne_nil (by unfold lastGap at hcon; omega)
  have hlt := h.wf.lastGap_le_max
  have := (h.bytes (b.lastGap - 1) (by omega) (by omega) hmiss).1
  omega

theorem Holds.stored (h : Holds B b) (hst : Stored b b' offset data)
    (hB : offset + data.length < maxOffset)
    (hdata : ∀ i < data.length, offset + i < B.length ∧ data.getD i 0 = B.getD (offset + i) 0) :
    Holds B b' := by
  refine (h.carries.stored hst hB fun i hi => (hdata i hi).2).holds fun x hx hx' hm => ?_
  rw [hst.total] at hx
  by_cases hin : offset ≤ x ∧ x < offset + data.length
  · have hlt := (hdata (x - offset) (by omega)).1
    rwa [Nat.add_sub_cancel' hin.1] at hlt
  · exact (h.bytes x hx hx' fun h' => hm ((hst.missing h.wf).2 ⟨h', hin⟩)).1

theorem Holds.consumed (h : Holds B b) (hn : n ≤ b.readableBytes) (hc : Consumed b b' n) :
    Holds B b' := by
  refine (h.carries.consumed hn hc).holds fun x hx hx' hm => ?_
  rw [hc.total] at hx
  rw [hc.gaps] at hm
  exact (h.bytes x (by omega) hx' hm).1

theorem map_range_getD {a k : ℕ} (h : a + k ≤ B.length) :
    (range k).map (fun i => B.getD (a + i) 0) = (B.drop a).take k := by
  apply ext_getElem
  · simp; omega
  · intro i h1 h2
    rw [length_map, length_range] at h1
    rw [getElem_map, getElem_range, getElem_take, getElem_drop, getD_eq_getElem _ _ (by omega)]

theorem Holds.read (h : Holds B b) (hB : B.length < maxOffset) (ht : b.totalBytesRead ≤ B.length)
    (ho : o' ≤ b.firstGap) (hc : Covers b.cap b.totalBytesRead rs o') :
    B.take b.totalBytesRead ++ rs.flatMap b.readRegion = B.take o' := by
  have hle := hc.le
  have hfirst := h.firstGap_le hB ht
  rw [read_covers h.wf.capPos hc]
  have hbytes : ((range (o' - b.totalBytesRead)).map fun i =>
      (b.cell (b.totalBytesRead + i)).getD 0) =
      (range (o' - b.totalBytesRead)).map fun i => B.getD (b.totalBytesRead + i) 0 := by
    refine map_congr_left fun i hi => ?_
    rw [mem_range] at hi
    rw [(h.bytes (b.totalBytesRead + i) (by omega) (by omega) (h.wf.not_missing (by omega))).2,
      Option.getD_some]
  rw [hbytes, map_range_getD (by omega), ← take_add, Nat.add_sub_cancel' hle]

end SequencerBuffer
end Puic
