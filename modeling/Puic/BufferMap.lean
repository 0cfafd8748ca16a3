/-
  The receive buffer as a sparse map of bytes.

  A stream of bytes `src` arrives in pieces, at any offsets and in any order.  The
  map knows which offsets have been `received` and how far they are `consumed`; it
  says what `OnStreamData`, `Readv` and `MarkConsumed` have to answer
  (`ByteMap.Answers`).  `refines_byteMap` follows a buffer and its map through a
  run of calls.

  They part at the end of the 64-bit offsets.  `offset + size` is compared with the
  gaps before anything is known about it, so data that begins in a received byte
  and runs past `2 ^ 64` passes for a duplicate; and data that fills the last gap
  up to its end leaves no gap for what is still to come, which `Empty` and
  `RetireBlockIfEmpty` rely on.  `Within` leaves out these two.
-/
import Mathlib.Order.Interval.Finset.Nat
import Puic.Lib.Run
import Puic.ReadBytes

namespace Puic

open GapList Machine Finset

inductive BufferCall where
  | onStreamData (offset len : ℕ)
  | readv (lens : List ℕ)
  | markConsumed (n : ℕ)
deriving Repr, DecidableEq

inductive BufferResult where
  | buffered (n : ℕ)
  | rejected (e : DataError)
  | read (chunks : List (List UInt8)) (error : Option DataError)
  | consumed (ok : Bool)
deriving Repr, DecidableEq

/-- Offsets and sizes are 64-bit. -/
def BufferCall.Fits : BufferCall → Prop
  | .onStreamData offset len => offset < 2 ^ 64 ∧ len < 2 ^ 64
  | _ => True

instance : DecidablePred BufferCall.Fits
  | .onStreamData offset len => inferInstanceAs (Decidable (offset < 2 ^ 64 ∧ len < 2 ^ 64))
  | .readv _ => .isTrue trivial
  | .markConsumed _ => .isTrue trivial

def BufferResult.IsError : BufferResult → Prop
  | .rejected _ => True
  | .read _ error => error.isSome
  | .consumed ok => ok = false
  | .buffered _ => False

/-- A call on a buffer that receives the stream `src`. -/
def SequencerBuffer.call (src : ℕ → UInt8) (b : SequencerBuffer) :
    BufferCall → SequencerBuffer × BufferResult
  | .onStreamData offset len =>
    match b.onStreamData offset (slice src offset len) with
    | .ok (b', n) => (b', .buffered n)
    | .error e => (b, .rejected e)
  | .readv lens => ((b.readv lens).1, .read (b.readv lens).2.1 (b.readv lens).2.2)
  | .markConsumed n =>
    match b.markConsumed n with
    | some b' => (b', .consumed true)
    | none => (b, .consumed false)

/-! ## The map -/

structure ByteMap where
  received : Finset ℕ
  consumed : ℕ

namespace ByteMap

/-- The next `k` bytes can be read. -/
def Ready (m : ByteMap) (k : ℕ) : Prop := ∀ x, m.consumed ≤ x → x < m.consumed + k → x ∈ m.received

/-- What a call has to answer.  Data is taken as a whole or not at all, and `Readv` stops only at the
    first byte that has not been received or when it has no room left. -/
def Answers (src : ℕ → UInt8) (m : ByteMap) : BufferCall → BufferResult → Prop
  | .onStreamData offset len, .buffered n => n = (Finset.Ico offset (offset + len) \ m.received).card
  | .onStreamData _ _, .rejected e => e.code ≠ .streamSequencerInvalidState
  | .readv lens, .read chunks error => error = none ∧ ∃ k ≤ lens.sum, m.Ready k ∧
    (k < lens.sum → m.consumed + k ∉ m.received) ∧ chunks.flatten = slice src m.consumed k
  | .markConsumed n, .consumed ok => ok = true ↔ m.Ready n
  | _, _ => False

def update (m : ByteMap) : BufferCall → BufferResult → ByteMap
  | .onStreamData offset len, .buffered _ =>
    { m with received := m.received ∪ Finset.Ico offset (offset + len) }
  | .readv _, .read chunks _ => { m with consumed := m.consumed + chunks.flatten.length }
  | .markConsumed n, .consumed true => { m with consumed := m.consumed + n }
  | _, _ => m

end ByteMap

open ByteMap

/-- A buffer with the map of what it should hold. -/
structure BufferLog where
  buf : SequencerBuffer
  map : ByteMap

namespace BufferLog

open SequencerBuffer

def new (cap : ℕ) : BufferLog := ⟨.new cap, ⟨∅, 0⟩⟩

def step (src : ℕ → UInt8) (s : BufferLog) (c : BufferCall) : Option BufferLog :=
  if c.Fits then some ⟨(s.buf.call src c).1, s.map.update c (s.buf.call src c).2⟩ else none

/-- The buffer holds what the map says: the gaps are in order, do not touch, and are the offsets that
    have not been received; every byte that is not consumed is in its block. -/
structure Refines (src : ℕ → UInt8) (s : BufferLog) : Prop where
  sorted : Sorted s.map.consumed s.buf.gaps
  gaps : ∀ x, Missing s.buf.gaps x ↔ x < maxOffset ∧ x ∉ s.map.received
  count : s.buf.numBytesBuffered = (s.map.received.filter (s.map.consumed ≤ ·)).card
  total : s.buf.totalBytesRead = s.map.consumed
  cell : ∀ x ∈ s.map.received, s.map.consumed ≤ x → s.buf.cell x = some (src x)

/-- Data does not run past `2 ^ 64` from a byte that is there, and does not fill the last gap. -/
def Within (s : BufferLog) : BufferCall → Prop
  | .onStreamData offset len =>
    ¬ (2 ^ 64 ≤ offset + len ∧ offset ∈ s.map.received) ∧
      ¬ (0 < len ∧ offset + len = maxOffset ∧ (∀ x ∈ s.map.received, x < offset) ∧
        (s.map.consumed + s.buf.cap) % 2 ^ 64 = maxOffset)
  | _ => True

instance (s : BufferLog) : DecidablePred s.Within
  | .onStreamData offset len => inferInstanceAs (Decidable (
    ¬ (2 ^ 64 ≤ offset + len ∧ offset ∈ s.map.received) ∧
      ¬ (0 < len ∧ offset + len = maxOffset ∧ (∀ x ∈ s.map.received, x < offset) ∧
        (s.map.consumed + s.buf.cap) % 2 ^ 64 = maxOffset)))
  | .readv _ => .isTrue trivial
  | .markConsumed _ => .isTrue trivial

end BufferLog

/-! ## Counting -/

variable {src : ℕ → UInt8} {offset len n x : ℕ}

namespace SequencerBuffer

variable {b b' : SequencerBuffer}

theorem copyStreamData_buffered : ∀ (fuel : ℕ) (b : SequencerBuffer) (offset : ℕ) (data : List UInt8),
    (copyStreamData fuel b offset data).numBytesBuffered = b.numBytesBuffered
  | 0, _, _, _ => rfl
  | fuel + 1, b, offset, data => by
    unfold copyStreamData
    split
    · rfl
    · exact copyStreamData_buffered fuel _ _ _

theorem onStreamData_buffered {data : List UInt8} (h : b.onStreamData offset data = .ok (b', n)) :
    b'.numBytesBuffered = b.numBytesBuffered + n := by
  unfold onStreamData at h
  dsimp only at h
  split at h
  · cases h
  split at h
  · cases h
  split at h
  · cases h; rfl
  split at h
  · cases h
  split at h
  · cases h
  split at h
  · cases h
  split at h
  · cases h
  · cases h
    exact congrArg (· + data.length) (copyStreamData_buffered _ _ _ _)

theorem onStreamData_error {data : List UInt8} {e : DataError}
    (h : b.onStreamData offset data = .error e) : e.code ≠ .streamSequencerInvalidState := by
  unfold onStreamData at h
  dsimp only at h
  split at h
  · cases h; simp
  split at h
  · cases h; simp
  split_ifs at h <;> cases h <;> simp

/-- `b'` is `b` after the bytes `data` have been read, which are the next ones of the stream. -/
structure Read (src : ℕ → UInt8) (b b' : SequencerBuffer) (data : List UInt8) : Prop where
  readable : data.length ≤ b.readableBytes
  consumed : Consumed b b' data.length
  buffered : b'.numBytesBuffered = b.numBytesBuffered - data.length
  bytes : data = slice src b.totalBytesRead data.length

theorem Carries.read (h : Carries src b) (hn : n ≤ b.readableBytes) :
    Read src b (takeByte^[n] b) (slice src b.totalBytesRead n) where
  readable := by simpa using hn
  consumed := by simpa using consumed_iterate h.wf hn
  buffered := by simpa using iterate_buffered b n
  bytes := by simp

theorem Stored.was_missing {data : List UInt8} (h : Stored b b' offset data) (hx : offset ≤ x)
    (hx' : x < offset + data.length) : Missing b.gaps x := by
  obtain ⟨p, g, q, hg, hlo, hhi, -⟩ := h.gaps
  exact ⟨g, by simp [hg], by omega, by omega⟩

end SequencerBuffer

/-! ## The buffer follows its map -/

namespace BufferLog

open SequencerBuffer

variable {s : BufferLog} {b' : SequencerBuffer} {k : ℕ}

structure Tracks (src : ℕ → UInt8) (s : BufferLog) : Prop where
  carries : Carries src s.buf
  total : s.buf.totalBytesRead = s.map.consumed
  gaps : ∀ x, Missing s.buf.gaps x ↔ x < maxOffset ∧ x ∉ s.map.received
  lt_max : ∀ x ∈ s.map.received, x < maxOffset
  count : s.buf.numBytesBuffered = (s.map.received.filter (s.map.consumed ≤ ·)).card

theorem Tracks.not_missing (h : Tracks src s) (hx : x ∈ s.map.received) : ¬ Missing s.buf.gaps x :=
  fun hm => ((h.gaps x).1 hm).2 hx

theorem Tracks.received (h : Tracks src s) (hx : x < maxOffset) (hm : ¬ Missing s.buf.gaps x) :
    x ∈ s.map.received := by
  by_contra hr
  exact hm ((h.gaps x).2 ⟨hx, hr⟩)

theorem Tracks.refines (h : Tracks src s) : Refines src s where
  sorted := h.total ▸ h.carries.wf.sorted
  gaps := h.gaps
  count := h.count
  total := h.total
  cell x hx hc := h.carries.cell x (h.total ▸ hc) (h.lt_max x hx) (h.not_missing hx)

theorem Tracks.firstGap (h : Tracks src s) : s.buf.firstGap ∉ s.map.received := fun hr =>
  h.not_missing hr (missing_first h.carries.wf.sorted (h.lt_max _ hr))

theorem Tracks.ready_iff (h : Tracks src s) : s.map.Ready k ↔ k ≤ s.buf.readableBytes := by
  have hle := h.carries.wf.total_le_firstGap
  have hmax := h.carries.wf.firstGap_le_max
  have ht := h.total
  unfold readableBytes
  constructor
  · intro hr
    by_contra hcon
    exact h.firstGap (hr _ (by omega) (by omega))
  · intro hk x hx hx'
    exact h.received (by omega) (h.carries.wf.not_missing (by omega))

/-- New data is counted as a whole: none of it has been received before. -/
theorem Tracks.stored (h : Tracks src s) (hw : s.Within (.onStreamData offset len))
    (hst : Stored s.buf b' offset (slice src offset len))
    (hwin : offset + len ≤ (s.buf.totalBytesRead + s.buf.cap) % 2 ^ 64)
    (hnum : b'.numBytesBuffered = s.buf.numBytesBuffered + len) :
    Tracks src ⟨b', { s.map with received := s.map.received ∪ Ico offset (offset + len) }⟩ ∧
      len = (Ico offset (offset + len) \ s.map.received).card := by
  have hpos := hst.pos
  have hmiss := fun x hx hx' => hst.was_missing (x := x) hx hx'
  rw [slice_length] at hpos hmiss
  have hnew : ∀ x, offset ≤ x → x < offset + len → x < maxOffset ∧ x ∉ s.map.received :=
    fun x hx hx' => (h.gaps x).1 (hmiss x hx hx')
  -- the last gap is not filled
  have hend : offset + len < maxOffset := by
    have hlast := (hnew (offset + len - 1) (by omega) (by omega)).1
    by_contra hcon
    refine hw.2 ⟨hpos, by omega, fun x hx => ?_, ?_⟩
    · have := h.lt_max x hx
      by_contra hle
      exact (hnew x (by omega) (by omega)).2 hx
    · have := Nat.mod_lt (s.buf.totalBytesRead + s.buf.cap) (by decide : 0 < 2 ^ 64)
      rw [← h.total]
      unfold maxOffset at *
      omega
  have hc : s.map.consumed ≤ offset :=
    h.total ▸ h.carries.wf.sorted.missing_ge (hmiss offset le_rfl (by omega))
  have hdisj : Disjoint s.map.received (Ico offset (offset + len)) := by
    rw [disjoint_right]
    intro x hx
    rw [mem_Ico] at hx
    exact (hnew x hx.1 hx.2).2
  refine ⟨⟨h.carries.stored hst (by simpa using hend) fun i hi => slice_getD hi, hst.total.trans h.total,
    fun x => ?_, fun x hx => ?_, ?_⟩, ?_⟩
  · rw [hst.missing h.carries.wf, h.gaps x, slice_length, mem_union, mem_Ico]
    tauto
  · rcases mem_union.1 hx with hx | hx
    · exact h.lt_max x hx
    · exact (hnew x (mem_Ico.1 hx).1 (mem_Ico.1 hx).2).1
  · have hall : (Ico offset (offset + len)).filter (s.map.consumed ≤ ·) =
        Ico offset (offset + len) :=
      filter_true_of_mem fun x hx => hc.trans (mem_Ico.1 hx).1
    rw [filter_union, hall, card_union_of_disjoint (hdisj.mono_left (filter_subset _ _)), ← h.count,
      Nat.card_Ico, hnum]
    omega
  · rw [hdisj.symm.sdiff_eq_left, Nat.card_Ico]
    omega

theorem Tracks.read {data : List UInt8} (h : Tracks src s) (hr : Read src s.buf b' data) :
    Tracks src ⟨b', { s.map with consumed := s.map.consumed + data.length }⟩ := by
  have hready := h.ready_iff.2 hr.readable
  refine ⟨h.carries.consumed hr.readable hr.consumed, ?_,
    fun x => by rw [hr.consumed.gaps]; exact h.gaps x, h.lt_max, ?_⟩
  · rw [hr.consumed.total, h.total]
  · -- what was not consumed before is what is read and what is left
    have hsplit : s.map.received.filter (s.map.consumed ≤ ·) =
        s.map.received.filter (s.map.consumed + data.length ≤ ·) ∪
          Ico s.map.consumed (s.map.consumed + data.length) := by
      ext x
      simp only [mem_filter, mem_union, mem_Ico]
      constructor
      · rintro ⟨hx, hc⟩
        by_cases hlt : x < s.map.consumed + data.length
        · exact .inr ⟨hc, hlt⟩
        · exact .inl ⟨hx, by omega⟩
      · rintro (⟨hx, hc⟩ | ⟨hc, hlt⟩)
        · exact ⟨hx, by omega⟩
        · exact ⟨hready x hc hlt, hc⟩
    have hdisj : Disjoint (s.map.received.filter (s.map.consumed + data.length ≤ ·))
        (Ico s.map.consumed (s.map.consumed + data.length)) := by
      rw [disjoint_left]
      intro x hx hx'
      have := (mem_filter.1 hx).2
      have := (mem_Ico.1 hx').2
      omega
    rw [hr.buffered, h.count, hsplit, card_union_of_disjoint hdisj, Nat.card_Ico]
    dsimp only
    omega

/-- What a call that meets the condition does to the buffer and to the map. -/
structure Agrees (src : ℕ → UInt8) (s : BufferLog) (c : BufferCall) : Prop where
  tracks : Tracks src ⟨(s.buf.call src c).1, s.map.update c (s.buf.call src c).2⟩
  answers : s.map.Answers src c (s.buf.call src c).2
  error : (s.buf.call src c).2.IsError → (s.buf.call src c).1 = s.buf

theorem Tracks.onStreamData (h : Tracks src s) (hf : (BufferCall.onStreamData offset len).Fits)
    (hw : s.Within (.onStreamData offset len)) : Agrees src s (.onStreamData offset len) := by
  cases hr : s.buf.onStreamData offset (slice src offset len) with
  | error e =>
    refine ⟨?_, ?_, fun _ => ?_⟩ <;> simp only [call, hr]
    · exact h
    · exact onStreamData_error hr
  | ok r =>
    obtain ⟨b', n⟩ := r
    have hnum := onStreamData_buffered hr
    rcases onStreamData_cases h.carries.wf hf.1 (by simpa using hf.2) hr with
      ⟨rfl, rfl, hlt, hm, hall⟩ | ⟨rfl, hst, hwin⟩
    · -- a duplicate: it does not run past the end, so all of it has been received
      have hin := h.received hlt hm
      have hend : offset + len < 2 ^ 64 := by
        by_contra hcon
        exact hw.1 ⟨by omega, hin⟩
      have hsub : Ico offset (offset + len) ⊆ s.map.received := by
        intro x hx
        obtain ⟨hx, hx'⟩ := mem_Ico.1 hx
        rw [slice_length] at hall
        exact h.received (by unfold maxOffset; omega) (hall hend x hx hx')
      refine ⟨?_, ?_, fun _ => ?_⟩ <;> simp only [call, hr]
      · simpa only [update, union_eq_left.2 hsub] using h
      · simp only [Answers, sdiff_eq_empty_iff_subset.2 hsub, card_empty]
    · rw [slice_length] at hnum hwin
      obtain ⟨ht, hlen⟩ := h.stored hw hst hwin hnum
      refine ⟨?_, ?_, fun he => ?_⟩ <;> simp only [call, hr] at *
      · exact ht
      · simpa only [Answers, slice_length] using hlen
      · exact he.elim

theorem Tracks.readv (h : Tracks src s) (lens : List ℕ) : Agrees src s (.readv lens) := by
  obtain ⟨chunks, hr, hflat⟩ := readv_eq lens h.carries.legible
  have hle : min lens.sum s.buf.readableBytes ≤ s.buf.readableBytes := by omega
  refine ⟨?_, ?_, fun he => ?_⟩ <;> simp only [call, hr] at *
  · simpa [update, hflat] using h.read (h.carries.read hle)
  · refine ⟨rfl, _, by omega, h.ready_iff.2 hle, fun hlt => ?_, by rw [hflat, h.total]⟩
    -- there is room left, so the read went up to the first gap
    have hfirst := h.carries.wf.total_le_firstGap
    have hgap : s.map.consumed + min lens.sum s.buf.readableBytes = s.buf.firstGap := by
      have ht := h.total
      unfold readableBytes at *
      omega
    exact hgap ▸ h.firstGap
  · exact absurd he (by simp [BufferResult.IsError])

theorem Tracks.markConsumed (h : Tracks src s) (n : ℕ) : Agrees src s (.markConsumed n) := by
  by_cases hn : n ≤ s.buf.readableBytes
  · have hr := markConsumed_eq h.carries.wf hn
    refine ⟨?_, ?_, fun he => ?_⟩ <;> simp only [call, hr] at *
    · simpa [update] using h.read (h.carries.read hn)
    · exact ⟨fun _ => h.ready_iff.2 hn, fun _ => rfl⟩
    · exact absurd he (by simp [BufferResult.IsError])
  · have hr : s.buf.markConsumed n = none := if_pos (by omega)
    refine ⟨?_, ?_, fun _ => ?_⟩ <;> simp only [call, hr]
    · exact h
    · exact ⟨fun he => absurd he (by simp), fun hready => absurd (h.ready_iff.1 hready) hn⟩

theorem Tracks.agrees {c : BufferCall} (h : Tracks src s) (hf : c.Fits) (hw : s.Within c) :
    Agrees src s c := by
  cases c with
  | onStreamData offset len => exact h.onStreamData hf hw
  | readv lens => exact h.readv lens
  | markConsumed n => exact h.markConsumed n

theorem tracks_new {cap : ℕ} (hc : 0 < cap) : Tracks src (new cap) where
  carries :=
    { wf := wf_of_gaps hc (by decide : 0 < maxOffset) rfl
      closed := ⟨[], 0, rfl⟩
      cell := fun x _ hx hm => absurd ⟨⟨0, maxOffset⟩, .head _, Nat.zero_le x, hx⟩ hm }
  total := rfl
  gaps x := by simp [new, SequencerBuffer.new, missing_cons]
  lt_max := by simp [new]
  count := rfl

/-- **The receive buffer refines a sparse map of bytes**, of any capacity and in every run of calls that
    stay within the offsets: it holds what the map says, every call answers as the map does, and a
    call that fails changes nothing. -/
theorem refines_byteMap {cap : ℕ} {calls : List BufferCall} (hc : 0 < cap)
    (hw : Along (step src) Within (new cap) calls) (h : run (step src) (new cap) calls = some s) :
    Refines src s ∧ ∀ c : BufferCall, c.Fits → s.Within c →
      s.map.Answers src c (s.buf.call src c).2 ∧
        ((s.buf.call src c).2.IsError → (s.buf.call src c).1 = s.buf) := by
  have ht : Tracks src s := by
    refine run_inv_along (fun s c s' hs hwc hst => ?_) (tracks_new hc) hw h
    unfold step at hst
    split_ifs at hst with hf
    cases hst
    exact (hs.agrees hf hwc).tracks
  exact ⟨ht.refines, fun c hf hwc => ⟨(ht.agrees hf hwc).answers, (ht.agrees hf hwc).error⟩⟩

/-- Six bytes in two pieces, the later one first, of which four are read. -/
theorem refines_byteMap_six : ∃ s, run (step fun i => .ofNat i) (new (2 * kBlockSizeBytes))
      [.onStreamData 4 2, .onStreamData 0 4, .onStreamData 1 2, .readv [1, 3]] = some s ∧
    Refines (fun i => .ofNat i) s ∧
    s.map.Answers (fun i => .ofNat i) (.readv [3]) (s.buf.call (fun i => .ofNat i) (.readv [3])).2 := by
  obtain ⟨s, hs⟩ := Option.isSome_iff_exists.1 (by decide +kernel :
    (run (step fun i => .ofNat i) (new (2 * kBlockSizeBytes))
      [.onStreamData 4 2, .onStreamData 0 4, .onStreamData 1 2, .readv [1, 3]]).isSome)
  obtain ⟨h1, h2⟩ := refines_byteMap (by decide) (by decide +kernel) hs
  exact ⟨s, hs, h1, (h2 (.readv [3]) trivial trivial).1⟩

/-! ## The end of the offsets -/

/-- A byte arrives and is consumed, `t` times. -/
def rounds : ℕ → List BufferCall
  | 0 => []
  | t + 1 => rounds t ++ [.onStreamData t 1, .markConsumed 1]

/-- All of the first `t` bytes have been consumed, and nothing else has arrived. -/
structure Drained (cap t : ℕ) (s : BufferLog) : Prop where
  cap : s.buf.cap = cap
  total : s.buf.totalBytesRead = t
  gaps : s.buf.gaps = [⟨t, maxOffset⟩]
  received : ∀ x ∈ s.map.received, x < t
  consumed : s.map.consumed = t

theorem step_byte (src : ℕ → UInt8) (offset : ℕ) {cap t lo hi : ℕ} (hc : 0 < cap) (hcap : s.buf.cap = cap)
    (ht : s.buf.totalBytesRead = t) (hg : s.buf.gaps = [⟨lo, hi⟩]) (hlo : t ≤ lo) (ho : lo ≤ offset)
    (hhi : offset + 1 ≤ hi) (hw : offset + 1 ≤ t + cap) (hmax : t + cap < 2 ^ 64) :
    ∃ b', step src s (.onStreamData offset 1) =
        some ⟨b', { s.map with received := s.map.received ∪ Ico offset (offset + 1) }⟩ ∧
      b'.cap = cap ∧ b'.totalBytesRead = t ∧ b'.gaps = cut ⟨lo, hi⟩ offset 1 := by
  obtain ⟨b', hr, hb'⟩ := onStreamData_single hc hcap ht hg
    (by simp : 0 < (slice src offset 1).length) hlo ho
    (by simpa using hhi) (by simpa using hw) hmax
  refine ⟨b', ?_, hb'⟩
  unfold step
  rw [if_pos ⟨by omega, by decide⟩]
  simp only [call, hr, update]

theorem step_markConsumed (hr : s.buf.markConsumed n = some b') :
    step src s (.markConsumed n) = some ⟨b', { s.map with consumed := s.map.consumed + n }⟩ := by
  unfold step
  rw [if_pos (show (BufferCall.markConsumed n).Fits from trivial)]
  simp only [call, hr, update]

theorem drained_rounds (src : ℕ → UInt8) {cap : ℕ} (hc : 0 < cap) : ∀ t, t + cap ≤ maxOffset →
    ∃ s, run (step src) (new cap) (rounds t) = some s ∧ Drained cap t s
  | 0, _ => ⟨_, rfl, rfl, rfl, rfl, by simp [new], rfl⟩
  | t + 1, ht => by
    obtain ⟨s, hrun, hs⟩ := drained_rounds src hc t (by omega)
    have hmax : maxOffset = 2 ^ 64 - 1 := rfl
    obtain ⟨b', b'', h₁, -, -, -, h₂, hcap, htot, hgaps⟩ := byte_round hc hs.cap hs.total hs.gaps
      (show (slice src t 1).length = 1 by simp) (by omega) (by omega)
    have hbyte : step src s (.onStreamData t 1) =
        some ⟨b', { s.map with received := s.map.received ∪ Ico t (t + 1) }⟩ := by
      unfold step
      rw [if_pos ⟨by omega, by decide⟩]
      simp only [call, h₁, update]
    refine ⟨_, run_append.2 ⟨s, hrun, run_cons.2 ⟨_, hbyte, run_cons.2 ⟨_, step_markConsumed h₂, rfl⟩⟩⟩,
      hcap, htot, hgaps, fun x hx => ?_, ?_⟩
    · rcases mem_union.1 hx with hx | hx
      · have := hs.received x hx; omega
      · exact (mem_Ico.1 hx).2
    · exact congrArg (· + 1) hs.consumed

/-- A byte that is read before the only gap takes the block with it, whatever else is in there. -/
theorem markConsumed_one_cell {b : SequencerBuffer} {cap t hi : ℕ} (hc : 0 < cap) (hcap : b.cap = cap)
    (ht : b.totalBytesRead = t) (hg : b.gaps = [⟨t + 1, hi⟩])
    (hx : getBlockIndex cap x = getBlockIndex cap t) :
    ∃ b', b.markConsumed 1 = some b' ∧ b'.cell x = none := by
  have hread : b.readableBytes = 1 := by simp [readableBytes, SequencerBuffer.firstGap, first, hg, ht]
  have hoff := getInBlockOffset_lt (o := t) hc
  have havail : min b.readableBytes (getBlockCapacity b.cap b.nextBlockToRead - b.readOffset) = 1 := by
    unfold nextBlockToRead readOffset
    rw [hread, hcap, ht]
    omega
  have hempty : (b.advance 1).empty = true := by
    simp [empty, SequencerBuffer.firstGap, first, advance, hg, ht]
  refine ⟨_, if_neg (by omega), ?_⟩
  unfold consume
  rw [if_neg (by decide)]
  dsimp only
  rw [havail, Nat.min_self, if_pos rfl, Nat.sub_self]
  unfold consume retireBlockIfEmpty retireBlock
  rw [if_pos hempty]
  have hidx : getBlockIndex (b.advance 1).cap x = b.nextBlockToRead := by
    simp only [advance, nextBlockToRead, hcap, ht, hx]
  split
  · next h => simp [SequencerBuffer.cell, hidx, h]
  · simp [SequencerBuffer.cell, hidx]

/-- At the capacity of the streams, when the window has moved on to the end of the offsets: three bytes
    of which only the first has been received pass for a duplicate; and the byte at the last offset is
    lost when a byte before the gap is consumed. -/
theorem parts_at_last_offset :
    (∃ s, run (step fun _ => 0) (new kStreamReceiveWindowLimit)
        (rounds (maxOffset - kStreamReceiveWindowLimit) ++ [.onStreamData (maxOffset - 2) 1]) = some s ∧
      (s.buf.call (fun _ => 0) (.onStreamData (maxOffset - 2) 3)).2 = .buffered 0 ∧
      maxOffset - 1 ∉ s.map.received) ∧
    ∃ s, run (step fun _ => 0) (new kStreamReceiveWindowLimit)
        (rounds (maxOffset - kStreamReceiveWindowLimit) ++ [.onStreamData (maxOffset - 1) 1,
          .onStreamData (maxOffset - kStreamReceiveWindowLimit) 1, .markConsumed 1]) = some s ∧
      maxOffset - 1 ∈ s.map.received ∧ s.map.consumed ≤ maxOffset - 1 ∧
      s.buf.cell (maxOffset - 1) = none := by
  have hmax : maxOffset = 2 ^ 64 - 1 := rfl
  have hlim : kStreamReceiveWindowLimit = 2 ^ 24 := rfl
  have hpos : 0 < kStreamReceiveWindowLimit := by decide
  obtain ⟨s, hrun, hs⟩ :=
    drained_rounds (fun _ => 0) hpos (maxOffset - kStreamReceiveWindowLimit) (by omega)
  constructor
  · obtain ⟨b, h1, hcap, htot, hgaps⟩ := step_byte (fun _ => 0) (maxOffset - 2) hpos
      hs.cap hs.total hs.gaps le_rfl (by omega) (by omega) (by omega) (by omega)
    refine ⟨_, run_append.2 ⟨s, hrun, run_cons.2 ⟨_, h1, rfl⟩⟩, ?_, fun hx => ?_⟩
    · -- the end of the three bytes is `2 ^ 64`, which wraps to 0
      have hcut : b.gaps = [⟨maxOffset - kStreamReceiveWindowLimit, maxOffset - 2⟩,
          ⟨maxOffset - 1, maxOffset⟩] := hgaps.trans (by decide)
      have hloc : locate b.gaps (maxOffset - 2) = some ([⟨maxOffset - kStreamReceiveWindowLimit,
          maxOffset - 2⟩], ⟨maxOffset - 1, maxOffset⟩, []) := by rw [hcut]; decide
      have hdup : b.onStreamData (maxOffset - 2) (slice (fun _ => 0) (maxOffset - 2) 3) = .ok (b, 0) := by
        unfold SequencerBuffer.onStreamData
        rw [hloc, slice_length, if_neg (by decide)]
        dsimp only
        rw [if_pos (by decide)]
      simp only [call, hdup]
    · rcases mem_union.1 hx with hx | hx
      · have := hs.received _ hx; omega
      · have := (mem_Ico.1 hx).2; omega
  · obtain ⟨b, h1, hcap, htot, hgaps⟩ := step_byte (fun _ => 0) (maxOffset - 1) hpos
      hs.cap hs.total hs.gaps le_rfl (by omega) (by omega) (by omega) (by omega)
    have hcut : b.gaps = [⟨maxOffset - kStreamReceiveWindowLimit, maxOffset - 1⟩] :=
      hgaps.trans (by decide)
    obtain ⟨b', h2, hcap', htot', hgaps'⟩ := step_byte (s := ⟨b, _⟩) (fun _ => 0)
      (maxOffset - kStreamReceiveWindowLimit) hpos hcap htot hcut le_rfl le_rfl (by omega)
        (by omega) (by omega)
    have hcut' : b'.gaps = [⟨maxOffset - kStreamReceiveWindowLimit + 1, maxOffset - 1⟩] :=
      hgaps'.trans (by decide)
    obtain ⟨b'', hb'', hcell⟩ :=
      markConsumed_one_cell (x := maxOffset - 1) hpos hcap' htot' hcut' (by decide)
    refine ⟨_, run_append.2 ⟨s, hrun, run_cons.2 ⟨_, h1, run_cons.2 ⟨_, h2, run_cons.2
      ⟨_, step_markConsumed hb'', rfl⟩⟩⟩⟩, ?_, ?_, hcell⟩
    · exact mem_union_left _ (mem_union_right _ (mem_Ico.2 ⟨le_rfl, by omega⟩))
    · show s.map.consumed + 1 ≤ maxOffset - 1
      rw [hs.consumed]
      omega

end BufferLog
end Puic
