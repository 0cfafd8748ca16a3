/-
  The data of a stream that is kept for retransmission (`QuicStreamSendBuffer` of
  quic_stream_send_buffer.cc).

  Data is saved in slices and given back by offset; slices leave the buffer from the front
  when all their bytes were acked.  Which bytes were acked is recorded in an interval set
  if data may be acked more than once, and else in a counter for each slice.  A run makes
  any calls and records, beside the buffer, the bytes that were saved and the offsets
  that were acked.  `send_buffer_returns_saved`: as long as no byte is acked before it was
  consumed or twice, every range without acked bytes can be written again, the number of
  outstanding bytes is right, and when everything is acked the buffer is empty.
-/
import Mathlib.Data.Finset.Card
import Mathlib.Order.Interval.Finset.Nat
import Mathlib.Tactic.IntervalCases
import Puic.Lib.IntervalSet
import Puic.Lib.Run
import Puic.Lib.Wire

namespace Puic

open Wire Finset

structure BufferedSlice where
  slice : List UInt8
  offset : ℕ
  outstandingDataLength : ℕ
deriving Repr, DecidableEq

structure StreamSendBuffer where
  bufferedSlices : List BufferedSlice
  streamOffset : ℕ
  streamBytesWritten : ℕ
  streamBytesOutstanding : ℕ
  bytesAcked : IntervalSet
  allowMultipleAcksForData : Bool
  pendingRetransmissions : IntervalSet

namespace StreamSendBuffer

/-- `FLAGS_quic_send_buffer_max_data_slice_size`. -/
def maxDataSliceSize : ℕ := 4096

/-- The difference of two `uint64_t`. -/
def wrapSub (a b : ℕ) : ℕ := (a + 18446744073709551616 - b) % 18446744073709551616

def initial (allowMultipleAcks : Bool) : StreamSendBuffer :=
  ⟨[], 0, 0, 0, .empty, allowMultipleAcks, .empty⟩

variable (b : StreamSendBuffer)

def saveMemSlice (slice : List UInt8) : StreamSendBuffer :=
  if slice.isEmpty then b
  else
    { b with
      bufferedSlices := b.bufferedSlices ++ [⟨slice, b.streamOffset, slice.length⟩]
      streamOffset := b.streamOffset + slice.length }

/-- The loop of `SaveStreamData`. -/
def saveSlices : ℕ → StreamSendBuffer → List UInt8 → StreamSendBuffer
  | 0, b, _ => b
  | fuel + 1, b, data =>
    if data.isEmpty then b
    else saveSlices fuel (b.saveMemSlice (data.take maxDataSliceSize)) (data.drop maxDataSliceSize)

/-- Each round saves at least one byte. -/
def saveStreamData (data : List UInt8) : StreamSendBuffer := saveSlices data.length b data

def onStreamDataConsumed (bytesConsumed : ℕ) : StreamSendBuffer :=
  { b with
    streamBytesWritten := b.streamBytesWritten + bytesConsumed
    streamBytesOutstanding := b.streamBytesOutstanding + bytesConsumed }

/-- The loop of `WriteStreamData`. -/
def writeSlices : List BufferedSlice → ℕ → ℕ → Writer → Option Writer
  | [], _, dataLength, w => if dataLength = 0 then some w else none
  | s :: slices, offset, dataLength, w =>
    if offset < s.offset then if dataLength = 0 then some w else none
    else if s.offset + s.slice.length ≤ offset then writeSlices slices offset dataLength w
    else
      let sliceOffset := offset - s.offset
      let copyLength := min dataLength (s.slice.length - sliceOffset)
      (w.write ((s.slice.drop sliceOffset).take copyLength)).bind
        (writeSlices slices (offset + copyLength) (dataLength - copyLength))

def writeStreamData (offset dataLength : ℕ) (w : Writer) : Option Writer :=
  writeSlices b.bufferedSlices offset dataLength w

/-- The loop of `OnStreamDataAcked` when every byte is acked once. -/
def ackSlices : List BufferedSlice → ℕ → ℕ → List BufferedSlice
  | [], _, _ => []
  | s :: slices, offset, dataLength =>
    if offset < s.offset then s :: slices
    else if s.offset + s.slice.length ≤ offset then s :: ackSlices slices offset dataLength
    else
      let sliceOffset := offset - s.offset
      let removingLength := min dataLength (s.slice.length - sliceOffset)
      { s with outstandingDataLength := wrapSub s.outstandingDataLength removingLength } ::
        ackSlices slices (offset + removingLength) (dataLength - removingLength)

/-- The number of newly acked bytes and the buffer, or nothing if unsent data is acked. -/
def onStreamDataAcked (offset dataLength : ℕ) : Option (ℕ × StreamSendBuffer) :=
  if dataLength = 0 then some (0, b)
  else
    let acked := IntervalSet.empty.add offset (offset + dataLength)
    let newlyAcked := if b.allowMultipleAcksForData then acked.diff b.bytesAcked else acked
    if b.streamBytesOutstanding < newlyAcked.length then none
    else
      let b := { b with streamBytesOutstanding := b.streamBytesOutstanding - newlyAcked.length }
      if b.allowMultipleAcksForData then
        let bytesAcked := b.bytesAcked.add offset (offset + dataLength)
        some (newlyAcked.length,
          { b with
            bytesAcked := bytesAcked
            pendingRetransmissions := b.pendingRetransmissions.remove offset (offset + dataLength)
            bufferedSlices := b.bufferedSlices.dropWhile fun s =>
              bytesAcked.contains s.offset (s.offset + s.slice.length) })
      else
        some (newlyAcked.length,
          { b with
            bufferedSlices := (ackSlices b.bufferedSlices offset dataLength).dropWhile fun s =>
              decide (s.outstandingDataLength = 0) })

def onStreamDataLost (offset dataLength : ℕ) : StreamSendBuffer :=
  if dataLength = 0 then b
  else
    let bytesLost := (IntervalSet.empty.add offset (offset + dataLength)).diff b.bytesAcked
    if bytesLost.isEmpty then b
    else { b with pendingRetransmissions := b.pendingRetransmissions.addAll bytesLost }

def onStreamDataRetransmitted (offset dataLength : ℕ) : StreamSendBuffer :=
  if dataLength = 0 then b
  else { b with pendingRetransmissions := b.pendingRetransmissions.remove offset (offset + dataLength) }

def hasPendingRetransmission : Bool := !b.pendingRetransmissions.isEmpty

/-- Offset and length. -/
def nextPendingRetransmission : ℕ × ℕ :=
  match b.pendingRetransmissions.intervals with
  | pending :: _ => (pending.lo, pending.hi - pending.lo)
  | [] => (0, 0)

def isStreamDataOutstanding (offset dataLength : ℕ) : Bool :=
  decide (0 < dataLength) && !b.bytesAcked.contains offset (offset + dataLength)

def size : ℕ := b.bufferedSlices.length

/-! ## Runs -/

inductive SendBufferCall where
  | saveStreamData (data : List UInt8)
  | onStreamDataConsumed (bytesConsumed : ℕ)
  | onStreamDataAcked (offset dataLength : ℕ)
  | onStreamDataLost (offset dataLength : ℕ)
  | onStreamDataRetransmitted (offset dataLength : ℕ)

/-- The buffer, all bytes that were saved, and the offsets that were acked. -/
structure RecordedBuffer where
  buffer : StreamSendBuffer
  saved : List UInt8
  acked : Finset ℕ

def RecordedBuffer.initial (allowMultipleAcks : Bool) : RecordedBuffer :=
  ⟨.initial allowMultipleAcks, [], ∅⟩

/-- The stream has 64-bit offsets, and consumes only what was saved; only data that was sent is lost. -/
def bufferStep (s : RecordedBuffer) : SendBufferCall → Option RecordedBuffer
  | .saveStreamData data =>
    if s.buffer.streamOffset + data.length < 18446744073709551616 then
      some { s with buffer := s.buffer.saveStreamData data, saved := s.saved ++ data }
    else none
  | .onStreamDataConsumed n =>
    if s.buffer.streamBytesWritten + n ≤ s.buffer.streamOffset then
      some { s with buffer := s.buffer.onStreamDataConsumed n }
    else none
  | .onStreamDataAcked offset n =>
    if offset + n < 18446744073709551616 then
      match s.buffer.onStreamDataAcked offset n with
      | some r => some { s with buffer := r.2, acked := s.acked ∪ Finset.Ico offset (offset + n) }
      | none => some s
    else none
  | .onStreamDataLost offset n =>
    if offset + n ≤ s.buffer.streamBytesWritten then
      some { s with buffer := s.buffer.onStreamDataLost offset n }
    else none
  | .onStreamDataRetransmitted offset n =>
    if offset + n < 18446744073709551616 then
      some { s with buffer := s.buffer.onStreamDataRetransmitted offset n }
    else none

/-! ## Slices and the bytes they hold -/

/-- The slices hold the saved bytes from `a` on. -/
def Chunks (saved : List UInt8) : ℕ → List BufferedSlice → Prop
  | a, [] => a = saved.length
  | a, s :: slices =>
    s.offset = a ∧ s.slice ≠ [] ∧ saved.drop a = s.slice ++ saved.drop (a + s.slice.length) ∧
      Chunks saved (a + s.slice.length) slices

variable {saved data : List UInt8} {slices : List BufferedSlice} {s : BufferedSlice}
    {a offset n x : ℕ} {w : Writer}

theorem Chunks.le (h : Chunks saved a slices) : a ≤ saved.length := by
  induction slices generalizing a with
  | nil => exact h.le
  | cons s slices ih => exact (Nat.le_add_right _ _).trans (ih h.2.2.2)

theorem Chunks.mem (h : Chunks saved a slices) :
    ∀ s ∈ slices, a ≤ s.offset ∧ s.slice ≠ [] ∧ s.offset + s.slice.length ≤ saved.length := by
  induction slices generalizing a with
  | nil => exact fun s hs => absurd hs List.not_mem_nil
  | cons s slices ih =>
    intro s' hs'
    rcases List.mem_cons.1 hs' with rfl | hs'
    · exact ⟨h.1.ge, h.2.1, h.1 ▸ h.2.2.2.le⟩
    · obtain ⟨hle, hrest⟩ := ih h.2.2.2 s' hs'
      exact ⟨(Nat.le_add_right _ _).trans hle, hrest⟩

theorem Chunks.append (h : Chunks saved a slices) (hd : data ≠ []) :
    Chunks (saved ++ data) a (slices ++ [⟨data, saved.length, data.length⟩]) := by
  induction slices generalizing a with
  | nil =>
    obtain rfl : a = saved.length := h
    refine ⟨rfl, hd, ?_, ?_⟩
    · simp
    · exact (List.length_append ..).symm
  | cons s slices ih =>
    obtain ⟨ho, hs, heq, hrest⟩ := h
    refine ⟨ho, hs, ?_, ih hrest⟩
    have hle := hrest.le
    rw [List.drop_append_of_le_length (by omega), heq, List.drop_append_of_le_length hle,
      List.append_assoc]

theorem Chunks.dropWhile (p : BufferedSlice → Bool) (h : Chunks saved a slices) :
    ∃ b, Chunks saved b (slices.dropWhile p) ∧
      ∀ x, a ≤ x → x < b → ∃ s ∈ slices, p s = true ∧ s.offset ≤ x ∧ x < s.offset + s.slice.length := by
  induction slices generalizing a with
  | nil => exact ⟨a, h, fun x hax hxa => by omega⟩
  | cons s slices ih =>
    obtain ⟨rfl, hs, heq, hrest⟩ := h
    rw [List.dropWhile_cons]
    split
    · next hp =>
      obtain ⟨b, hb, hdropped⟩ := ih hrest
      refine ⟨b, hb, fun x hax hxb => ?_⟩
      by_cases hx : x < s.offset + s.slice.length
      · exact ⟨s, .head _, hp, hax, hx⟩
      · obtain ⟨s', hs', h'⟩ := hdropped x (by omega) hxb
        exact ⟨s', .tail _ hs', h'⟩
    · exact ⟨s.offset, ⟨rfl, hs, heq, hrest⟩, fun x hax hxa => by omega⟩

/-! ## Writing -/

theorem writeSlices_zero : writeSlices slices offset 0 w = some w := by
  induction slices with
  | nil => rfl
  | cons s slices ih =>
    unfold writeSlices
    split
    · exact if_pos rfl
    split
    · exact ih
    · simp [ih]

theorem Chunks.writeSlices (h : Chunks saved a slices) (ha : a ≤ offset)
    (hn : offset + n ≤ saved.length) :
    writeSlices slices offset n w = w.write ((saved.drop offset).take n) := by
  induction slices generalizing a offset n w with
  | nil =>
    obtain rfl : a = saved.length := h
    obtain rfl : n = 0 := by omega
    simp [StreamSendBuffer.writeSlices]
  | cons s slices ih =>
    obtain ⟨rfl, hs, heq, hrest⟩ := h
    unfold StreamSendBuffer.writeSlices
    rw [if_neg (by omega)]
    split
    · next hend => exact ih hrest hend hn
    next hend =>
    -- the bytes of this slice from `offset` on
    have hdrop : saved.drop offset = s.slice.drop (offset - s.offset) ++
        saved.drop (s.offset + s.slice.length) := by
      have hoff : saved.drop offset = (saved.drop s.offset).drop (offset - s.offset) := by
        rw [List.drop_drop, Nat.add_sub_cancel' ha]
      rw [hoff, heq, List.drop_append_of_le_length (by omega)]
    have hlen : (s.slice.drop (offset - s.offset)).length = s.slice.length - (offset - s.offset) :=
      List.length_drop ..
    dsimp only
    rcases le_or_gt n (s.slice.length - (offset - s.offset)) with hle | hgt
    · rw [min_eq_left hle, Nat.sub_self, hdrop, List.take_append_of_le_length (by omega)]
      simp [writeSlices_zero]
    · rw [min_eq_right hgt.le, List.take_of_length_le hlen.le, hdrop, List.take_append, hlen,
        List.take_of_length_le (by omega)]
      have hoff : offset + (s.slice.length - (offset - s.offset)) = s.offset + s.slice.length := by omega
      have htail : ∀ w, StreamSendBuffer.writeSlices slices
          (offset + (s.slice.length - (offset - s.offset)))
          (n - (s.slice.length - (offset - s.offset))) w =
          w.write ((saved.drop (s.offset + s.slice.length)).take
            (n - (s.slice.length - (offset - s.offset)))) := by
        intro w
        rw [hoff]
        exact ih hrest le_rfl (by omega)
      rw [funext htail]
      exact Writer.write_write

/-! ## Saving -/

/-- What saving changes: the offset and the slices at the end. -/
structure Saves (b b' : StreamSendBuffer) (saved data : List UInt8) : Prop where
  rest : b' = { b with bufferedSlices := b'.bufferedSlices, streamOffset := b'.streamOffset }
  offset : b'.streamOffset = b.streamOffset + data.length
  slices : ∃ new, b'.bufferedSlices = b.bufferedSlices ++ new ∧
    ∀ s ∈ new, saved.length ≤ s.offset ∧ s.outstandingDataLength = s.slice.length ∧ s.slice ≠ []
  chunks : ∀ a, Chunks saved a b.bufferedSlices → Chunks (saved ++ data) a b'.bufferedSlices

theorem saves_nil {b : StreamSendBuffer} : Saves b b saved [] :=
  ⟨rfl, rfl, ⟨[], by simp, by simp⟩, by simp⟩

theorem saves_saveMemSlice {b : StreamSendBuffer} (hb : b.streamOffset = saved.length) (hd : data ≠ []) :
    Saves b (b.saveMemSlice data) saved data := by
  have heq : b.saveMemSlice data = { b with
      bufferedSlices := b.bufferedSlices ++ [⟨data, b.streamOffset, data.length⟩]
      streamOffset := b.streamOffset + data.length } := if_neg (by simpa using hd)
  rw [heq]
  refine ⟨rfl, rfl, ⟨_, rfl, fun s hs => ?_⟩, fun a ha => ?_⟩
  · obtain rfl := List.mem_singleton.1 hs
    exact ⟨hb.ge, rfl, hd⟩
  · rw [hb]
    exact ha.append hd

theorem Saves.trans {b b₁ b₂ : StreamSendBuffer} {data₁ data₂ : List UInt8} (h₁ : Saves b b₁ saved data₁)
    (h₂ : Saves b₁ b₂ (saved ++ data₁) data₂) : Saves b b₂ saved (data₁ ++ data₂) := by
  obtain ⟨new₁, hs₁, hnew₁⟩ := h₁.slices
  obtain ⟨new₂, hs₂, hnew₂⟩ := h₂.slices
  refine ⟨?_, ?_, ⟨new₁ ++ new₂, ?_, ?_⟩, fun a ha => ?_⟩
  · rw [h₂.rest, h₁.rest]
  · rw [h₂.offset, h₁.offset, List.length_append, Nat.add_assoc]
  · rw [hs₂, hs₁, List.append_assoc]
  · intro s hs
    rcases List.mem_append.1 hs with hs | hs
    · exact hnew₁ s hs
    · obtain ⟨hle, h⟩ := hnew₂ s hs
      rw [List.length_append] at hle
      exact ⟨by omega, h⟩
  · rw [← List.append_assoc]
    exact h₂.chunks a (h₁.chunks a ha)

theorem saves_saveSlices {fuel : ℕ} {b : StreamSendBuffer} (hb : b.streamOffset = saved.length)
    (hfuel : data.length ≤ fuel) : Saves b (saveSlices fuel b data) saved data := by
  induction fuel generalizing b saved data with
  | zero =>
    obtain rfl : data = [] := List.length_eq_zero_iff.1 (by omega)
    exact saves_nil
  | succ fuel ih =>
    rcases eq_or_ne data [] with rfl | hd
    · exact saves_nil
    have hround : saveSlices (fuel + 1) b data =
        saveSlices fuel (b.saveMemSlice (data.take maxDataSliceSize)) (data.drop maxDataSliceSize) :=
      if_neg (by simpa using hd)
    have htake : data.take maxDataSliceSize ≠ [] := by simpa [maxDataSliceSize] using hd
    have h₁ := saves_saveMemSlice hb htake
    have h₂ : Saves (b.saveMemSlice (data.take maxDataSliceSize)) (saveSlices (fuel + 1) b data)
        (saved ++ data.take maxDataSliceSize) (data.drop maxDataSliceSize) := by
      rw [hround]
      exact ih (by rw [h₁.offset, hb, List.length_append])
        (by rw [List.length_drop, maxDataSliceSize]; omega)
    have h := h₁.trans h₂
    rwa [List.take_append_drop] at h

/-! ## Acks that count down the slices -/

/-- How many bytes of a slice lie in `[offset, offset + n)`. -/
def overlap (s : BufferedSlice) (offset n : ℕ) : ℕ :=
  min (offset + n) (s.offset + s.slice.length) - max offset s.offset

def countDown (offset n : ℕ) (s : BufferedSlice) : BufferedSlice :=
  { s with outstandingDataLength := s.outstandingDataLength - overlap s offset n }

theorem wrapSub_eq {a b : ℕ} (hb : b ≤ a) (ha : a < 18446744073709551616) : wrapSub a b = a - b := by
  unfold wrapSub
  omega

theorem countDown_eq_self (h : overlap s offset n = 0) : countDown offset n s = s := by
  rw [countDown, h, Nat.sub_zero]

theorem map_countDown_behind (h : Chunks saved a slices) (ha : offset + n ≤ a) :
    slices.map (countDown offset n) = slices := by
  induction slices generalizing a with
  | nil => rfl
  | cons s slices ih =>
    obtain ⟨rfl, -, -, hrest⟩ := h
    rw [List.map_cons, ih hrest (by omega), countDown_eq_self (by unfold overlap; omega)]

theorem Chunks.ackSlices (h : Chunks saved a slices) (ha : a ≤ offset)
    (hout : ∀ s ∈ slices, overlap s offset n ≤ s.outstandingDataLength ∧
      s.outstandingDataLength < 18446744073709551616) :
    ackSlices slices offset n = slices.map (countDown offset n) := by
  induction slices generalizing a offset n with
  | nil => rfl
  | cons s slices ih =>
    obtain ⟨rfl, hs, -, hrest⟩ := h
    obtain ⟨hle, hlt⟩ := hout s (.head _)
    have htail := fun s' hs' => hout s' (.tail s hs')
    unfold StreamSendBuffer.ackSlices
    rw [if_neg (by omega), List.map_cons]
    split
    · next hend =>
      rw [ih hrest hend htail, countDown_eq_self (by unfold overlap; omega)]
    next hend =>
    have hover : overlap s offset n = min n (s.slice.length - (offset - s.offset)) := by
      unfold overlap
      omega
    dsimp only
    rw [← hover, wrapSub_eq hle hlt]
    rw [show ({ s with
      outstandingDataLength := s.outstandingDataLength - overlap s offset n } : BufferedSlice) =
        countDown offset n s from rfl, List.cons.injEq]
    refine ⟨rfl, ?_⟩
    rcases lt_or_ge n (s.slice.length - (offset - s.offset)) with hn | hn
    · -- the range ends in this slice, before the next one begins
      rw [map_countDown_behind hrest (by omega), hover, min_eq_left hn.le, Nat.sub_self]
      cases slices with
      | nil => rfl
      | cons s' slices' =>
        have hs' := hrest.1
        exact if_pos (by omega)
    · -- the rest of the range begins where the next slice does
      rw [hover, min_eq_right hn]
      have hoff : offset + (s.slice.length - (offset - s.offset)) = s.offset + s.slice.length := by omega
      have hsame : ∀ s' ∈ slices, overlap s' (offset + (s.slice.length - (offset - s.offset)))
          (n - (s.slice.length - (offset - s.offset))) = overlap s' offset n := by
        intro s' hs'
        have := (hrest.mem s' hs').1
        unfold overlap
        omega
      rw [ih hrest hoff.ge fun s' hs' => by rw [hsame s' hs']; exact htail s' hs']
      refine List.map_congr_left fun s' hs' => ?_
      rw [countDown, countDown, hsame s' hs']

/-! ## What is known of the buffer -/

/-- The acked bytes of a slice. -/
def ackedIn (acked : Finset ℕ) (s : BufferedSlice) : ℕ :=
  ((Finset.Ico s.offset (s.offset + s.slice.length)).filter (· ∈ acked)).card

theorem ackedIn_le (acked : Finset ℕ) (s : BufferedSlice) : ackedIn acked s ≤ s.slice.length := by
  refine (card_filter_le _ _).trans ?_
  rw [Nat.card_Ico]
  omega

theorem ackedIn_eq_length {acked : Finset ℕ} : ackedIn acked s = s.slice.length ↔
    ∀ x, s.offset ≤ x → x < s.offset + s.slice.length → x ∈ acked := by
  have hcard : (Ico s.offset (s.offset + s.slice.length)).card = s.slice.length := by
    rw [Nat.card_Ico]
    omega
  have hiff := card_filter_eq_iff (s := Ico s.offset (s.offset + s.slice.length)) (p := (· ∈ acked))
  rw [hcard] at hiff
  rw [ackedIn, hiff]
  simp

theorem ackedIn_union {acked : Finset ℕ} (hnew : ∀ x ∈ Ico offset (offset + n), x ∉ acked) :
    ackedIn (acked ∪ Ico offset (offset + n)) s = ackedIn acked s + overlap s offset n := by
  have hsplit : (Ico s.offset (s.offset + s.slice.length)).filter (· ∈ acked ∪ Ico offset (offset + n)) =
      (Ico s.offset (s.offset + s.slice.length)).filter (· ∈ acked) ∪
        Ico (max offset s.offset) (min (offset + n) (s.offset + s.slice.length)) := by
    ext x
    simp only [mem_filter, mem_union, mem_Ico, max_le_iff, lt_min_iff]
    tauto
  have hdisj : Disjoint ((Ico s.offset (s.offset + s.slice.length)).filter (· ∈ acked))
      (Ico (max offset s.offset) (min (offset + n) (s.offset + s.slice.length))) := by
    rw [disjoint_left]
    intro x hx hx'
    rw [mem_Ico] at hx'
    exact hnew x (mem_Ico.2 ⟨by omega, by omega⟩) (mem_filter.1 hx).2
  rw [ackedIn, hsplit, card_union_of_disjoint hdisj, Nat.card_Ico]
  rfl

/-- What `OnStreamDataAcked` has recorded, in the way the flag says. -/
def Records (b : StreamSendBuffer) (acked : Finset ℕ) : Prop :=
  if b.allowMultipleAcksForData then ∀ x, x ∈ b.bytesAcked ↔ x ∈ acked
  else ∀ s ∈ b.bufferedSlices, s.outstandingDataLength + ackedIn acked s = s.slice.length

structure Sound (s : RecordedBuffer) : Prop where
  slices : ∃ a, Chunks s.saved a s.buffer.bufferedSlices ∧ ∀ x < a, x ∈ s.acked
  offset : s.buffer.streamOffset = s.saved.length
  bounded : s.saved.length < 18446744073709551616
  written : s.buffer.streamBytesWritten ≤ s.saved.length
  within : ∀ x ∈ s.acked, x < s.buffer.streamBytesWritten
  outstanding : s.buffer.streamBytesOutstanding + s.acked.card = s.buffer.streamBytesWritten
  clean : ∀ t, s.buffer.bufferedSlices.head? = some t → ∃ x, t.offset ≤ x ∧
    x < t.offset + t.slice.length ∧ x ∉ s.acked
  records : Records s.buffer s.acked

/-- Data is acked once, after it was consumed. -/
def AckedOnce (s : RecordedBuffer) : SendBufferCall → Prop
  | .onStreamDataAcked offset n => offset + n ≤ s.buffer.streamBytesWritten ∧
      ∀ x ∈ Finset.Ico offset (offset + n), x ∉ s.acked
  | _ => True

instance decidableAckedOnce (s : RecordedBuffer) : ∀ call, Decidable (AckedOnce s call)
  | .saveStreamData _ => isTrue trivial
  | .onStreamDataConsumed _ => isTrue trivial
  | .onStreamDataAcked offset n => inferInstanceAs (Decidable (offset + n ≤ s.buffer.streamBytesWritten ∧
      ∀ x ∈ Finset.Ico offset (offset + n), x ∉ s.acked))
  | .onStreamDataLost _ _ => isTrue trivial
  | .onStreamDataRetransmitted _ _ => isTrue trivial

/-! ## One call -/

variable {r r' : RecordedBuffer} {acked : Finset ℕ}

theorem sound_initial (allow : Bool) : Sound (.initial allow) := by
  refine ⟨⟨0, rfl, fun x hx => by omega⟩, rfl, by simp [RecordedBuffer.initial], le_rfl, ?_, rfl, ?_, ?_⟩
  · exact fun x hx => absurd hx (notMem_empty x)
  · exact fun t ht => absurd ht (by simp [RecordedBuffer.initial, initial])
  · cases allow
    · simp [Records, RecordedBuffer.initial, initial]
    · simp [Records, RecordedBuffer.initial, initial]

theorem Sound.saveStreamData (h : Sound r)
    (hlt : r.buffer.streamOffset + data.length < 18446744073709551616) :
    Sound { r with buffer := r.buffer.saveStreamData data, saved := r.saved ++ data } := by
  have hsaves : Saves r.buffer (r.buffer.saveStreamData data) r.saved data :=
    saves_saveSlices h.offset le_rfl
  obtain ⟨new, hslices, hnew⟩ := hsaves.slices
  obtain ⟨a, hchunks, hacked⟩ := h.slices
  have hwritten := h.written
  have hoffset := h.offset
  -- the new slices hold nothing that was acked
  have hfresh : ∀ x, r.saved.length ≤ x → x ∉ r.acked := fun x hx hx' => by
    have := h.within x hx'
    omega
  have hfields : (r.buffer.saveStreamData data).streamBytesWritten = r.buffer.streamBytesWritten ∧
      (r.buffer.saveStreamData data).streamBytesOutstanding = r.buffer.streamBytesOutstanding ∧
      (r.buffer.saveStreamData data).bytesAcked = r.buffer.bytesAcked ∧
      (r.buffer.saveStreamData data).allowMultipleAcksForData = r.buffer.allowMultipleAcksForData := by
    rw [hsaves.rest]
    exact ⟨rfl, rfl, rfl, rfl⟩
  obtain ⟨hw, ho, hb, hallow⟩ := hfields
  constructor
  · exact ⟨a, hsaves.chunks a hchunks, hacked⟩
  · rw [hsaves.offset, hoffset, List.length_append]
  · rw [List.length_append, ← hoffset]
    exact hlt
  · rw [hw, List.length_append]
    omega
  · rw [hw]
    exact h.within
  · rw [hw, ho]
    exact h.outstanding
  · intro t ht
    rw [hslices, List.head?_append] at ht
    rcases hhead : r.buffer.bufferedSlices.head? with _ | t'
    · rw [hhead, Option.none_or] at ht
      obtain ⟨hle, -, hne⟩ := hnew t (List.mem_of_head? ht)
      have := List.length_pos_iff.2 hne
      exact ⟨t.offset, le_rfl, by omega, hfresh _ hle⟩
    · rw [hhead, Option.some_or] at ht
      cases ht
      exact h.clean t hhead
  · have hrec := h.records
    unfold Records at hrec ⊢
    rw [hallow]
    split
    · next hon => rw [if_pos hon] at hrec; rwa [hb]
    · next hoff =>
      rw [if_neg hoff] at hrec
      intro s hs
      rw [hslices] at hs
      rcases List.mem_append.1 hs with hs | hs
      · exact hrec s hs
      · obtain ⟨hle, hlen, -⟩ := hnew s hs
        have hzero : ackedIn r.acked s = 0 := by
          rw [ackedIn, card_eq_zero, filter_eq_empty_iff]
          intro x hx
          exact hfresh x (hle.trans (mem_Ico.1 hx).1)
        rw [hlen, hzero, Nat.add_zero]

theorem Sound.onStreamDataConsumed (h : Sound r)
    (hle : r.buffer.streamBytesWritten + n ≤ r.buffer.streamOffset) :
    Sound { r with buffer := r.buffer.onStreamDataConsumed n } := by
  have hout := h.outstanding
  refine ⟨h.slices, h.offset, h.bounded, hle.trans h.offset.le, fun x hx => ?_, ?_, h.clean, h.records⟩
  · exact Nat.lt_add_right n (h.within x hx)
  · show r.buffer.streamBytesOutstanding + n + r.acked.card = r.buffer.streamBytesWritten + n
    omega

theorem Sound.pending (h : Sound r) (pending : IntervalSet) :
    Sound { r with buffer := { r.buffer with pendingRetransmissions := pending } } :=
  ⟨h.slices, h.offset, h.bounded, h.written, h.within, h.outstanding, h.clean, h.records⟩

theorem Chunks.settle {p : BufferedSlice → Bool} (h : Chunks saved a slices) (ha : ∀ x < a, x ∈ acked)
    (hp : ∀ s ∈ slices, p s = true ↔ ∀ x, s.offset ≤ x → x < s.offset + s.slice.length → x ∈ acked) :
    (∃ b, Chunks saved b (slices.dropWhile p) ∧ ∀ x < b, x ∈ acked) ∧
    ∀ t, (slices.dropWhile p).head? = some t → ∃ x, t.offset ≤ x ∧
      x < t.offset + t.slice.length ∧ x ∉ acked := by
  constructor
  · obtain ⟨b, hb, hdropped⟩ := h.dropWhile p
    refine ⟨b, hb, fun x hx => ?_⟩
    by_cases hxa : x < a
    · exact ha x hxa
    · obtain ⟨s, hs, hps, hle, hlt⟩ := hdropped x (by omega) hx
      exact (hp s hs).1 hps x hle hlt
  · intro t ht
    have hnot : p t ≠ true := by
      have := List.head?_dropWhile_not p slices
      rw [ht] at this
      simpa using this
    have hmem : t ∈ slices := (List.dropWhile_sublist p).subset (List.mem_of_head? ht)
    rw [ne_eq, hp t hmem] at hnot
    push Not at hnot
    exact hnot

theorem Chunks.contains_iff {t : IntervalSet} (h : Chunks saved a slices) (ht : ∀ x, x ∈ t ↔ x ∈ acked) :
    ∀ s ∈ slices, t.contains s.offset (s.offset + s.slice.length) = true ↔
      ∀ x, s.offset ≤ x → x < s.offset + s.slice.length → x ∈ acked := by
  intro s hs
  have hpos := List.length_pos_iff.2 (h.mem s hs).2.1
  simp only [IntervalSet.contains_iff, ht]
  exact and_iff_right (by omega)

theorem length_add (h : 0 < n) : (IntervalSet.empty.add offset (offset + n)).length = n := by
  simp [IntervalSet.add, IntervalSet.empty, IntervalSet.insertGap, IntervalSet.length, h]

theorem Chunks.map_countDown (h : Chunks saved a slices) :
    Chunks saved a (slices.map (countDown offset n)) := by
  induction slices generalizing a with
  | nil => exact h
  | cons s slices ih => exact ⟨h.1, h.2.1, h.2.2.1, ih h.2.2.2⟩

theorem Sound.acked_eq (h : Sound r) (hpos : 0 < n) (hle : offset + n ≤ r.buffer.streamBytesWritten)
    (hnew : ∀ x ∈ Ico offset (offset + n), x ∉ r.acked) :
    n ≤ r.buffer.streamBytesOutstanding ∧
    r.buffer.onStreamDataAcked offset n = some (n,
      if r.buffer.allowMultipleAcksForData then
        { r.buffer with
          streamBytesOutstanding := r.buffer.streamBytesOutstanding - n
          bytesAcked := r.buffer.bytesAcked.add offset (offset + n)
          pendingRetransmissions := r.buffer.pendingRetransmissions.remove offset (offset + n)
          bufferedSlices := r.buffer.bufferedSlices.dropWhile fun s =>
            (r.buffer.bytesAcked.add offset (offset + n)).contains s.offset (s.offset + s.slice.length) }
      else
        { r.buffer with
          streamBytesOutstanding := r.buffer.streamBytesOutstanding - n
          bufferedSlices := (StreamSendBuffer.ackSlices r.buffer.bufferedSlices offset n).dropWhile
            fun s =>
            decide (s.outstandingDataLength = 0) }) := by
  have hcard : n + r.acked.card ≤ r.buffer.streamBytesWritten := by
    have hsub : r.acked ∪ Ico offset (offset + n) ⊆ range r.buffer.streamBytesWritten := by
      intro x hx
      rw [mem_range]
      rcases mem_union.1 hx with hx | hx
      · exact h.within x hx
      · rw [mem_Ico] at hx
        omega
    have hdisj : Disjoint r.acked (Ico offset (offset + n)) :=
      disjoint_left.2 fun x hx hx' => hnew x hx' hx
    have hcards := card_le_card hsub
    rw [card_union_of_disjoint hdisj, Nat.card_Ico, card_range] at hcards
    omega
  have hout := h.outstanding
  have hlen : (if r.buffer.allowMultipleAcksForData then
      (IntervalSet.empty.add offset (offset + n)).diff r.buffer.bytesAcked
      else IntervalSet.empty.add offset (offset + n)).length = n := by
    split
    · next hon =>
      have hrec := h.records
      rw [Records, if_pos hon] at hrec
      rw [IntervalSet.diff_eq_self, length_add hpos]
      intro x hx hx'
      rw [IntervalSet.mem_add] at hx
      exact hnew x (mem_Ico.2 (hx.resolve_right IntervalSet.not_mem_empty)) ((hrec x).1 hx')
    · exact length_add hpos
  refine ⟨by omega, ?_⟩
  unfold StreamSendBuffer.onStreamDataAcked
  rw [if_neg (by omega)]
  dsimp only
  rw [hlen, if_neg (by omega)]
  split <;> rfl

theorem Sound.onStreamDataAcked (h : Sound r) (hle : offset + n ≤ r.buffer.streamBytesWritten)
    (hnew : ∀ x ∈ Ico offset (offset + n), x ∉ r.acked) :
    ∃ b, r.buffer.onStreamDataAcked offset n = some (n, b) ∧
      Sound { r with buffer := b, acked := r.acked ∪ Ico offset (offset + n) } := by
  rcases Nat.eq_zero_or_pos n with rfl | hpos
  · refine ⟨r.buffer, by simp [StreamSendBuffer.onStreamDataAcked], ?_⟩
    rwa [Nat.add_zero, Ico_self, union_empty]
  obtain ⟨hout, heq⟩ := h.acked_eq hpos hle hnew
  obtain ⟨a, hchunks, hacked⟩ := h.slices
  have hacked' : ∀ x < a, x ∈ r.acked ∪ Ico offset (offset + n) :=
    fun x hx => mem_union_left _ (hacked x hx)
  have hwritten := h.written
  have hwithin : ∀ x ∈ r.acked ∪ Ico offset (offset + n), x < r.buffer.streamBytesWritten := by
    intro x hx
    rcases mem_union.1 hx with hx | hx
    · exact h.within x hx
    · rw [mem_Ico] at hx
      omega
  have hcount : r.buffer.streamBytesOutstanding - n + (r.acked ∪ Ico offset (offset + n)).card =
      r.buffer.streamBytesWritten := by
    have hsum := h.outstanding
    have hdisj : Disjoint r.acked (Ico offset (offset + n)) :=
      disjoint_left.2 fun x hx hx' => hnew x hx' hx
    rw [card_union_of_disjoint hdisj, Nat.card_Ico]
    omega
  have hrec := h.records
  refine ⟨_, heq, ?_⟩
  split
  · next hon =>
    rw [Records, if_pos hon] at hrec
    have hmem : ∀ x, x ∈ r.buffer.bytesAcked.add offset (offset + n) ↔
        x ∈ r.acked ∪ Ico offset (offset + n) := by
      intro x
      rw [IntervalSet.mem_add, mem_union, mem_Ico, hrec, or_comm]
    obtain ⟨hslices, hclean⟩ := hchunks.settle hacked' (hchunks.contains_iff hmem)
    refine ⟨hslices, h.offset, h.bounded, hwritten, hwithin, hcount, hclean, ?_⟩
    rw [Records, if_pos hon]
    exact hmem
  · next hoff =>
    rw [Records, if_neg hoff] at hrec
    -- acked bytes come before the first slice, so the range begins in the slices
    have hstart : a ≤ offset := by
      by_contra hlt
      exact hnew offset (mem_Ico.2 ⟨le_rfl, by omega⟩) (hacked offset (by omega))
    have hunion := fun s => ackedIn_union (s := s) hnew
    have hshare : ∀ s ∈ r.buffer.bufferedSlices, overlap s offset n ≤ s.outstandingDataLength ∧
        s.outstandingDataLength < 18446744073709551616 := by
      intro s hs
      have hs' := hrec s hs
      have hfull := ackedIn_le (r.acked ∪ Ico offset (offset + n)) s
      rw [hunion] at hfull
      have hbound := (hchunks.mem s hs).2.2
      have := h.bounded
      exact ⟨by omega, by omega⟩
    have hrec' : ∀ s ∈ r.buffer.bufferedSlices.map (countDown offset n),
        s.outstandingDataLength + ackedIn (r.acked ∪ Ico offset (offset + n)) s = s.slice.length := by
      intro s hs
      obtain ⟨t, ht, rfl⟩ := List.mem_map.1 hs
      have hold := hrec t ht
      have hle := (hshare t ht).1
      show t.outstandingDataLength - overlap t offset n + ackedIn
        (r.acked ∪ Ico offset (offset + n)) t = _
      rw [hunion]
      show _ = t.slice.length
      omega
    have hp : ∀ s ∈ r.buffer.bufferedSlices.map (countDown offset n),
        decide (s.outstandingDataLength = 0) = true ↔
        ∀ x, s.offset ≤ x → x < s.offset + s.slice.length → x ∈ r.acked ∪ Ico offset (offset + n) := by
      intro s hs
      have hs' := hrec' s hs
      rw [decide_eq_true_iff, ← ackedIn_eq_length]
      constructor
      · intro h0
        omega
      · intro hall
        omega
    rw [hchunks.ackSlices hstart hshare]
    obtain ⟨hslices, hclean⟩ := (hchunks.map_countDown).settle hacked' hp
    refine ⟨hslices, h.offset, h.bounded, hwritten, hwithin, hcount, hclean, ?_⟩
    rw [Records, if_neg hoff]
    exact fun s hs => hrec' s ((List.dropWhile_sublist _).subset hs)

theorem Sound.step {call : SendBufferCall} (h : Sound r) (honce : AckedOnce r call)
    (hstep : bufferStep r call = some r') : Sound r' := by
  cases call with
  | saveStreamData data =>
    rw [bufferStep] at hstep
    split at hstep
    · next hlt =>
      cases hstep
      exact h.saveStreamData hlt
    · cases hstep
  | onStreamDataConsumed n =>
    rw [bufferStep] at hstep
    split at hstep
    · next hle =>
      cases hstep
      exact h.onStreamDataConsumed hle
    · cases hstep
  | onStreamDataAcked offset n =>
    obtain ⟨b, hb, hsound⟩ := h.onStreamDataAcked honce.1 honce.2
    rw [bufferStep, hb] at hstep
    split at hstep
    · cases hstep
      exact hsound
    · cases hstep
  | onStreamDataLost offset n =>
    rw [bufferStep] at hstep
    split at hstep
    · cases hstep
      unfold onStreamDataLost
      dsimp only
      split
      · exact h
      split
      · exact h
      · exact h.pending _
    · cases hstep
  | onStreamDataRetransmitted offset n =>
    rw [bufferStep] at hstep
    split at hstep
    · cases hstep
      unfold onStreamDataRetransmitted
      split
      · exact h
      · exact h.pending _
    · cases hstep

theorem sound_run {allow : Bool} {calls : List SendBufferCall}
    (h : Machine.run bufferStep (.initial allow) calls = some r)
    (honce : Machine.Along bufferStep AckedOnce (.initial allow) calls) : Sound r :=
  Machine.run_inv_along (fun _ _ _ hs hc hstep => hs.step hc hstep) (sound_initial allow) honce h

theorem writeStreamData_eq (hslices : ∃ a, Chunks r.saved a r.buffer.bufferedSlices ∧ ∀ x < a,
    x ∈ r.acked)
    (hle : offset + n ≤ r.saved.length) (hun : ∀ x, offset ≤ x → x < offset + n → x ∉ r.acked) :
    r.buffer.writeStreamData offset n w = w.write ((r.saved.drop offset).take n) := by
  obtain ⟨a, hchunks, hacked⟩ := hslices
  rcases Nat.eq_zero_or_pos n with rfl | hpos
  · rw [List.take_zero, Writer.write_nil]
    exact writeSlices_zero
  · refine hchunks.writeSlices ?_ hle
    by_contra hlt
    exact hun offset le_rfl (by omega) (hacked offset (by omega))

/-- **The send buffer returns what was saved**, after every sequence of calls that acks no byte
    before it was consumed or twice. -/
theorem send_buffer_returns_saved {allow : Bool} {calls : List SendBufferCall} {b : StreamSendBuffer}
    {saved : List UInt8} {acked : Finset ℕ}
    (h : Machine.run bufferStep (.initial allow) calls = some ⟨b, saved, acked⟩)
    (honce : Machine.Along bufferStep AckedOnce (.initial allow) calls) :
    (∀ offset n w, offset + n ≤ saved.length → (∀ x, offset ≤ x → x < offset + n → x ∉ acked) →
      n ≤ w.room →
      ∃ w', b.writeStreamData offset n w = some w' ∧ w'.data = w.data ++ (saved.drop offset).take n) ∧
    b.streamBytesOutstanding + acked.card = b.streamBytesWritten ∧
    ((∀ x < saved.length, x ∈ acked) → b.size = 0) := by
  have hs := sound_run h honce
  refine ⟨fun offset n w hle hun hroom => ?_, hs.outstanding, fun hall => ?_⟩
  · obtain ⟨w', hw'⟩ := Writer.exists_write.2 (show ((saved.drop offset).take n).length ≤ w.room by
      rw [List.length_take]
      omega)
    exact ⟨w', (writeStreamData_eq hs.slices hle hun).trans hw', (Writer.write_eq_some.1 hw').2⟩
  · rw [size, List.length_eq_zero_iff]
    rcases hb : b.bufferedSlices with _ | ⟨t, rest⟩
    · rfl
    · obtain ⟨x, hle, hlt, hx⟩ := hs.clean t (by dsimp only; rw [hb]; rfl)
      obtain ⟨a, hchunks, -⟩ := hs.slices
      have hlen := (hchunks.mem t (by dsimp only; rw [hb]; exact .head _)).2.2
      dsimp only at hlen
      exact absurd (hall x (by omega)) hx

/-- The second slice and then the first byte of the first one are acked. -/
def outOfOrder : List SendBufferCall :=
  [.saveStreamData [1, 2, 3], .saveStreamData [4, 5], .onStreamDataConsumed 5, .onStreamDataAcked 3 2,
    .onStreamDataAcked 0 1]

theorem send_buffer_returns_saved_outOfOrder : ∃ s w,
    Machine.run bufferStep (.initial false) outOfOrder = some s ∧ s.buffer.size = 2 ∧
    s.buffer.streamBytesOutstanding + s.acked.card = 5 ∧
    s.buffer.writeStreamData 1 2 ⟨8, [0], by decide⟩ = some w ∧ w.data = [0, 2, 3] := by
  obtain ⟨⟨b, saved, acked⟩, hrun, hs⟩ := Option.map_eq_some_iff.1 (by decide +kernel :
    (Machine.run bufferStep (.initial false) outOfOrder).map (fun s =>
      (s.buffer.size, s.buffer.streamBytesWritten, s.saved, s.acked)) =
        some (2, 5, [1, 2, 3, 4, 5], {0, 3, 4}))
  simp only [Prod.mk.injEq] at hs
  obtain ⟨hsize, hwritten, rfl, rfl⟩ := hs
  obtain ⟨hwrite, hout, -⟩ := send_buffer_returns_saved hrun (by decide +kernel)
  obtain ⟨w, hw, hdata⟩ := hwrite 1 2 ⟨8, [0], by decide⟩ (by decide) (by
    intro x hle hlt
    interval_cases x <;> decide) (by decide)
  exact ⟨_, w, hrun, hsize, hout.trans hwritten, hw, hdata⟩

end StreamSendBuffer

end Puic
