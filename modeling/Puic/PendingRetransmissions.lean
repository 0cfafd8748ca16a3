/-
  Which data of a stream waits for retransmission (quic_stream_send_buffer.cc).

  Lost ranges are added to `pendingRetransmissions`, without the bytes that `bytesAcked` holds.
  Only a buffer whose data may be acked more than once keeps `bytesAcked` and takes acked ranges
  off the pending ones; the other one counts down its slices.  `names_no_acked_iff`: in any run,
  with losses and acks in any order, the pending ranges and `isStreamDataOutstanding` name no
  acked byte exactly if the buffer is of the first kind or no data was acked.
-/
import Puic.StreamSendBuffer

namespace Puic

open IntervalSet

namespace StreamSendBuffer

open Wire

variable {allow : Bool} {r r' : RecordedBuffer} {call : SendBufferCall}
    {calls : List SendBufferCall} {offset n : ℕ}

structure NamesNoAcked (s : RecordedBuffer) : Prop where
  pending : ∀ x ∈ s.buffer.pendingRetransmissions, x ∉ s.acked
  producible : s.buffer.hasPendingRetransmission = true → ∀ w : Writer,
    s.buffer.nextPendingRetransmission.2 ≤ w.room → ∃ w',
      s.buffer.writeStreamData s.buffer.nextPendingRetransmission.1
        s.buffer.nextPendingRetransmission.2 w = some w'
  outstanding : ∀ offset n, (∀ x, offset ≤ x → x < offset + n → x ∈ s.acked) →
    s.buffer.isStreamDataOutstanding offset n = false

/-- The call acks data. -/
def Acks (s : RecordedBuffer) : SendBufferCall → Prop
  | .onStreamDataAcked _ n => 0 < n ∧ n ≤ s.buffer.streamBytesOutstanding
  | _ => False

/-- What the buffer keeps in every run; its slices and the pending ranges only as long as acks are
    recorded byte by byte, or there was none. -/
structure Keeps (allow : Bool) (s : RecordedBuffer) : Prop where
  flag : s.buffer.allowMultipleAcksForData = allow
  offset : s.buffer.streamOffset = s.saved.length
  written : s.buffer.streamBytesWritten ≤ s.saved.length
  records : ∀ x, x ∈ s.buffer.bytesAcked ↔ allow = true ∧ x ∈ s.acked
  slices : allow = true ∨ s.acked = ∅ → ∃ a, Chunks s.saved a s.buffer.bufferedSlices ∧
    ∀ x < a, x ∈ s.acked
  pending : allow = true ∨ s.acked = ∅ →
    ∀ x ∈ s.buffer.pendingRetransmissions, x < s.buffer.streamBytesWritten ∧ x ∉ s.acked

theorem keeps_initial (allow : Bool) : Keeps allow (.initial allow) := by
  refine ⟨rfl, rfl, le_rfl, fun x => ?_, fun _ => ⟨0, rfl, fun x hx => by omega⟩, fun _ x hx => ?_⟩
  · simp [RecordedBuffer.initial, initial]
  · exact absurd hx not_mem_empty

/-! ## One call -/

theorem Keeps.saveStreamData {data : List UInt8} (h : Keeps allow r) :
    Keeps allow { r with buffer := r.buffer.saveStreamData data, saved := r.saved ++ data } := by
  have hsaves : Saves r.buffer (r.buffer.saveStreamData data) r.saved data :=
    saves_saveSlices h.offset le_rfl
  have hrest := hsaves.rest
  have hwritten : (r.buffer.saveStreamData data).streamBytesWritten = r.buffer.streamBytesWritten := by
    rw [hrest]
  have hle := h.written
  constructor
  · rw [hrest]
    exact h.flag
  · rw [hsaves.offset, h.offset, List.length_append]
  · rw [hwritten, List.length_append]
    omega
  · rw [hrest]
    exact h.records
  · intro hkept
    obtain ⟨a, hchunks, ha⟩ := h.slices hkept
    exact ⟨a, hsaves.chunks a hchunks, ha⟩
  · rw [hwritten, hrest]
    exact h.pending

theorem Keeps.onStreamDataConsumed (h : Keeps allow r)
    (hle : r.buffer.streamBytesWritten + n ≤ r.buffer.streamOffset) :
    Keeps allow { r with buffer := r.buffer.onStreamDataConsumed n } := by
  refine ⟨h.flag, h.offset, hle.trans h.offset.le, h.records, h.slices, fun hkept x hx => ?_⟩
  obtain ⟨hlt, hun⟩ := h.pending hkept x hx
  exact ⟨Nat.lt_add_right n hlt, hun⟩

/-- A call that changes what is pending, and keeps it sent and unacked. -/
theorem Keeps.pending_of (h : Keeps allow r) {pending : IntervalSet}
    (hp : allow = true ∨ r.acked = ∅ → ∀ x ∈ pending,
      x ∈ r.buffer.pendingRetransmissions ∨ x < r.buffer.streamBytesWritten ∧ x ∉ r.acked) :
    Keeps allow { r with buffer := { r.buffer with pendingRetransmissions := pending } } := by
  refine ⟨h.flag, h.offset, h.written, h.records, h.slices, fun hkept x hx => ?_⟩
  rcases hp hkept x hx with hx | hx
  · exact h.pending hkept x hx
  · exact hx

theorem Keeps.onStreamDataLost (h : Keeps allow r) (hle : offset + n ≤ r.buffer.streamBytesWritten) :
    Keeps allow { r with buffer := r.buffer.onStreamDataLost offset n } := by
  unfold StreamSendBuffer.onStreamDataLost
  dsimp only
  split
  · exact h
  split
  · exact h
  refine h.pending_of fun hkept x hx => ?_
  rw [mem_addAll, mem_diff, mem_add] at hx
  rcases hx with ⟨hacked, hx⟩ | hx
  · rw [h.records] at hacked
    have hx := hx.resolve_right not_mem_empty
    refine .inr ⟨by omega, fun hmem => ?_⟩
    rcases hkept with hallow | hnone
    · exact hacked ⟨hallow, hmem⟩
    · rw [hnone] at hmem
      exact Finset.notMem_empty x hmem
  · exact .inl hx

theorem Keeps.onStreamDataRetransmitted (h : Keeps allow r) :
    Keeps allow { r with buffer := r.buffer.onStreamDataRetransmitted offset n } := by
  unfold StreamSendBuffer.onStreamDataRetransmitted
  split
  · exact h
  · exact h.pending_of fun _ x hx => .inl (mem_remove.1 hx).2

theorem onStreamDataAcked_recorded {b b' : StreamSendBuffer} {newlyAcked : ℕ} (hpos : 0 < n)
    (hallow : b.allowMultipleAcksForData = true)
    (hb : b.onStreamDataAcked offset n = some (newlyAcked, b')) :
    b' = { b with
      streamBytesOutstanding := b'.streamBytesOutstanding
      bytesAcked := b.bytesAcked.add offset (offset + n)
      pendingRetransmissions := b.pendingRetransmissions.remove offset (offset + n)
      bufferedSlices := b.bufferedSlices.dropWhile fun s =>
        (b.bytesAcked.add offset (offset + n)).contains s.offset (s.offset + s.slice.length) } := by
  unfold StreamSendBuffer.onStreamDataAcked at hb
  rw [if_neg (by omega)] at hb
  simp only [if_pos hallow] at hb
  split at hb
  · cases hb
  · cases hb
    rfl

theorem onStreamDataAcked_counted {b : StreamSendBuffer} (hpos : 0 < n)
    (hcount : b.allowMultipleAcksForData = false)
    (offset : ℕ) : (b.onStreamDataAcked offset n = none ↔ b.streamBytesOutstanding < n) ∧
    ∀ newlyAcked b', b.onStreamDataAcked offset n = some (newlyAcked, b') → b' = { b with
      streamBytesOutstanding := b'.streamBytesOutstanding
      bufferedSlices := b'.bufferedSlices } := by
  unfold StreamSendBuffer.onStreamDataAcked
  rw [if_neg (by omega)]
  simp only [hcount, Bool.false_eq_true, if_false, length_add hpos]
  split
  · next hlt => exact ⟨by simp [hlt], fun _ _ hb => absurd hb (by simp)⟩
  · next hge =>
    refine ⟨by simp [hge], fun newlyAcked b' hb => ?_⟩
    cases hb
    rfl

theorem Keeps.onStreamDataAcked {newlyAcked : ℕ} {b : StreamSendBuffer} (h : Keeps allow r)
    (hb : r.buffer.onStreamDataAcked offset n = some (newlyAcked, b)) :
    Keeps allow { r with buffer := b, acked := r.acked ∪ Finset.Ico offset (offset + n) } := by
  rcases Nat.eq_zero_or_pos n with rfl | hpos
  · cases hb
    rwa [Nat.add_zero, Finset.Ico_self, Finset.union_empty]
  cases allow with
  | true =>
    have hmem : ∀ x, x ∈ r.buffer.bytesAcked.add offset (offset + n) ↔
        x ∈ r.acked ∪ Finset.Ico offset (offset + n) := by
      intro x
      rw [mem_add, Finset.mem_union, Finset.mem_Ico, h.records, and_iff_right rfl, or_comm]
    obtain ⟨a, hchunks, ha⟩ := h.slices (.inl rfl)
    have hsettled := (hchunks.settle (fun x hx => Finset.mem_union_left _ (ha x hx))
      (hchunks.contains_iff hmem)).1
    rw [onStreamDataAcked_recorded hpos h.flag hb]
    refine ⟨h.flag, h.offset, h.written, fun x => ?_, fun _ => hsettled, fun _ x hx => ?_⟩
    · exact (hmem x).trans (and_iff_right rfl).symm
    · obtain ⟨hout, hx⟩ := mem_remove.1 hx
      obtain ⟨hlt, hun⟩ := h.pending (.inl rfl) x hx
      refine ⟨hlt, fun hx' => ?_⟩
      rcases Finset.mem_union.1 hx' with hx' | hx'
      · exact hun hx'
      · exact hout (Finset.mem_Ico.1 hx')
  | false =>
    -- from now on something was acked, and only the counters know
    have hsome : ¬(false = true ∨ r.acked ∪ Finset.Ico offset (offset + n) = ∅) := by
      rintro (hon | hnone)
      · cases hon
      · have hx : offset ∈ r.acked ∪ Finset.Ico offset (offset + n) :=
          Finset.mem_union_right _ (Finset.mem_Ico.2 ⟨le_rfl, by omega⟩)
        rw [hnone] at hx
        exact Finset.notMem_empty _ hx
    rw [(onStreamDataAcked_counted hpos h.flag offset).2 _ _ hb]
    refine ⟨h.flag, h.offset, h.written, fun x => ?_, fun hkept => absurd hkept hsome,
      fun hkept => absurd hkept hsome⟩
    have hx := h.records x
    simp only [Bool.false_eq_true, false_and] at hx ⊢
    exact hx

theorem Keeps.step (h : Keeps allow r) (hstep : bufferStep r call = some r') : Keeps allow r' := by
  cases call with
  | saveStreamData data =>
    rw [bufferStep] at hstep
    split at hstep
    · cases hstep
      exact h.saveStreamData
    · cases hstep
  | onStreamDataConsumed n =>
    rw [bufferStep] at hstep
    split at hstep
    · next hle =>
      cases hstep
      exact h.onStreamDataConsumed hle
    · cases hstep
  | onStreamDataAcked offset n =>
    rw [bufferStep] at hstep
    split at hstep
    · split at hstep
      · next b hb =>
        cases hstep
        exact h.onStreamDataAcked hb
      · cases hstep
        exact h
    · cases hstep
  | onStreamDataLost offset n =>
    rw [bufferStep] at hstep
    split at hstep
    · next hle =>
      cases hstep
      exact h.onStreamDataLost hle
    · cases hstep
  | onStreamDataRetransmitted offset n =>
    rw [bufferStep] at hstep
    split at hstep
    · cases hstep
      exact h.onStreamDataRetransmitted
    · cases hstep

theorem acked_step (hcount : r.buffer.allowMultipleAcksForData = false)
    (hstep : bufferStep r call = some r') :
    r'.acked = ∅ ↔ ¬Acks r call ∧ r.acked = ∅ := by
  cases call with
  | onStreamDataAcked offset n =>
    rw [bufferStep] at hstep
    split at hstep
    · rcases Nat.eq_zero_or_pos n with rfl | hpos
      · cases hstep
        simp [Acks]
      have hnone := (onStreamDataAcked_counted hpos hcount offset).1
      split at hstep
      · next b hb =>
        cases hstep
        have hle : n ≤ r.buffer.streamBytesOutstanding := by
          by_contra hlt
          rw [hnone.2 (by omega)] at hb
          cases hb
        simp [Acks, hpos, hle, Finset.union_eq_empty]
      · next hb =>
        cases hstep
        have hlt := hnone.1 hb
        simp [Acks, hlt]
    · cases hstep
  | _ =>
    rw [bufferStep] at hstep
    split at hstep
    · cases hstep
      simp [Acks]
    · cases hstep

/-! ## Whole runs -/

theorem Keeps.run (h : Keeps allow r) (hrun : Machine.run bufferStep r calls = some r') :
    Keeps allow r' :=
  Machine.run_inv (fun _ _ _ hs hstep => hs.step hstep) h hrun

theorem Keeps.acked_run (h : Keeps false r) (hrun : Machine.run bufferStep r calls = some r') :
    r'.acked = ∅ ↔ Machine.Along bufferStep (fun s call => ¬Acks s call) r calls ∧ r.acked = ∅ := by
  induction calls generalizing r with
  | nil =>
    cases hrun
    exact (and_iff_right trivial).symm
  | cons call calls ih =>
    obtain ⟨s, hstep, hrun⟩ := Machine.run_cons.1 hrun
    rw [ih (h.step hstep) hrun, acked_step h.flag hstep, Machine.along_cons hstep]
    tauto

theorem Keeps.producible (h : Keeps allow r) (hkept : allow = true ∨ r.acked = ∅)
    (hhas : r.buffer.hasPendingRetransmission = true) (w : Writer) :
    r.buffer.writeStreamData r.buffer.nextPendingRetransmission.1 r.buffer.nextPendingRetransmission.2 w =
      w.write ((r.saved.drop r.buffer.nextPendingRetransmission.1).take
        r.buffer.nextPendingRetransmission.2) := by
  obtain ⟨g, gs, hgs⟩ : ∃ g gs, r.buffer.pendingRetransmissions.intervals = g :: gs :=
    isEmpty_eq_false.1 (by simpa [hasPendingRetransmission] using hhas)
  have hmem : ∀ x, g.lo ≤ x → x < g.hi → x ∈ r.buffer.pendingRetransmissions := by
    intro x hlo hhi
    rw [mem_def, hgs]
    exact ⟨g, .head _, hlo, hhi⟩
  have hnext : r.buffer.nextPendingRetransmission = (g.lo, g.hi - g.lo) := by
    rw [nextPendingRetransmission, hgs]
  have hlt : g.lo < g.hi := by
    have hsorted := r.buffer.pendingRetransmissions.sorted
    rw [hgs] at hsorted
    exact hsorted.2.1
  have hwritten := h.written
  rw [hnext]
  refine writeStreamData_eq (h.slices hkept) ?_ fun x hlo hhi => ?_
  · have := (h.pending hkept (g.hi - 1) (hmem _ (by omega) (by omega))).1
    omega
  · exact (h.pending hkept x (hmem x hlo (by dsimp only at hhi; omega))).2

/-- **The bookkeeping of lost data names no acked data**, in any run, exactly if acks are recorded
    byte by byte or no call acked data. -/
theorem names_no_acked_iff (hrun : Machine.run bufferStep (.initial allow) calls = some r) :
    NamesNoAcked r ↔ allow = true ∨
      Machine.Along bufferStep (fun s call => ¬Acks s call) (.initial allow) calls := by
  have h := (keeps_initial allow).run hrun
  constructor
  · intro hnames
    cases allow with
    | true => exact .inl rfl
    | false =>
      refine .inr (((keeps_initial false).acked_run hrun).1 ?_).1
      rw [Finset.eq_empty_iff_forall_notMem]
      intro x hx
      -- a single acked byte still counts as outstanding
      have hout := hnames.outstanding x 1 fun y hle hlt => by
        obtain rfl : y = x := by omega
        exact hx
      simp only [isStreamDataOutstanding, Nat.lt_one_iff, decide_true, Bool.true_and,
        Bool.not_eq_eq_eq_not,
        Bool.not_false, contains_iff] at hout
      exact absurd ((h.records x).1 (hout.2 x le_rfl (by omega))).1 Bool.false_ne_true
  · intro hcond
    have hkept : allow = true ∨ r.acked = ∅ := by
      cases allow with
      | true => exact .inl rfl
      | false =>
        exact .inr (((keeps_initial false).acked_run hrun).2
          ⟨hcond.resolve_left Bool.false_ne_true, rfl⟩)
    refine ⟨fun x hx => (h.pending hkept x hx).2, fun hhas w hroom => ?_, fun offset n hacked => ?_⟩
    · rw [h.producible hkept hhas]
      refine Writer.exists_write.2 ?_
      rw [List.length_take]
      omega
    · rw [isStreamDataOutstanding, Bool.and_eq_false_iff, decide_eq_false_iff_not, Bool.not_eq_false',
        contains_iff]
      rcases Nat.eq_zero_or_pos n with rfl | hpos
      · exact .inl (lt_irrefl 0)
      refine .inr ⟨by omega, fun x hle hlt => ?_⟩
      rcases hkept with hallow | hnone
      · exact (h.records x).2 ⟨hallow, hacked x hle hlt⟩
      · have hx := hacked x hle hlt
        rw [hnone] at hx
        exact absurd hx (Finset.notMem_empty x)

/-- A sent range is lost, and then acked. -/
def lostThenAcked : List SendBufferCall :=
  [.saveStreamData [1, 2, 3], .onStreamDataConsumed 3, .onStreamDataLost 0 3, .onStreamDataAcked 0 2]

theorem names_no_acked_iff_recorded : ∃ s, Machine.run bufferStep (.initial true) lostThenAcked = some s ∧
    s.buffer.nextPendingRetransmission = (2, 1) ∧ NamesNoAcked s := by
  obtain ⟨s, hrun, hs⟩ := Option.map_eq_some_iff.1 (by decide +kernel :
    (Machine.run bufferStep (.initial true) lostThenAcked).map
      (·.buffer.nextPendingRetransmission) = some (2, 1))
  exact ⟨s, hrun, hs, (names_no_acked_iff hrun).2 (.inl rfl)⟩

/-- Without the record of acked bytes the range stays pending and outstanding; once all of it is
    acked the slice is gone, and the retransmission cannot be written. -/
theorem names_no_acked_counted : ∃ s,
    Machine.run bufferStep (.initial false) (lostThenAcked ++ [.onStreamDataAcked 2 1]) = some s ∧
    s.buffer.nextPendingRetransmission = (0, 3) ∧ s.acked = {0, 1, 2} ∧
    s.buffer.isStreamDataOutstanding 0 3 = true ∧
      s.buffer.writeStreamData 0 3 ⟨8, [], Nat.zero_le 8⟩ = none ∧
    ¬NamesNoAcked s := by
  obtain ⟨s, hrun, hs⟩ := Option.map_eq_some_iff.1 (by decide +kernel :
    (Machine.run bufferStep (.initial false) (lostThenAcked ++ [.onStreamDataAcked 2 1])).map (fun s =>
      (s.buffer.nextPendingRetransmission, s.acked, s.buffer.isStreamDataOutstanding 0 3,
        (s.buffer.writeStreamData 0 3 ⟨8, [], Nat.zero_le 8⟩).isNone)) =
          some ((0, 3), {0, 1, 2}, true, true))
  simp only [Prod.mk.injEq, Option.isNone_iff_eq_none] at hs
  obtain ⟨hnext, hacked, hout, hwrite⟩ := hs
  refine ⟨s, hrun, hnext, hacked, hout, hwrite, fun hnames => ?_⟩
  have hfalse := hnames.outstanding 0 3 fun x _ hlt => by
    rw [hacked]
    interval_cases x <;> decide
  rw [hout] at hfalse
  cases hfalse

end StreamSendBuffer

end Puic
