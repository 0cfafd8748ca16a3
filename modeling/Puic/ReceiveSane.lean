/-
  What every run of a stream keeps, whatever the peer sends and however the
  application reads.

  The window of a stream and the ring of its buffer belong to different objects.
  `Tied` says how they stay together: the window never reaches further than the ring
  does.  While somebody reads, everything in the buffer has been counted by the flow
  controller, and what has been counted fits (`Counted`).

  `Closes` is all that closing a side, the stream or the connection can do to this
  part of the state; the lemmas about the events rest on it.
-/
import Puic.BufferRead
import Puic.ReceiveStream

namespace Puic

open GapList Machine

/-! ## Buffers up to the last offset -/

namespace SequencerBuffer

variable {b b' : SequencerBuffer} {n x offset : ℕ} {data : List UInt8}

/-- A buffer that was cleared when everything had been consumed. -/
structure Spent (b : SequencerBuffer) : Prop where
  capPos : 0 < b.cap
  total : b.totalBytesRead = maxOffset
  gaps : b.gaps = [⟨maxOffset, maxOffset⟩]

def Live (b : SequencerBuffer) : Prop := WF b ∨ Spent b

theorem Live.capPos (h : Live b) : 0 < b.cap := h.elim WF.capPos Spent.capPos

theorem Live.total_le (h : Live b) : b.totalBytesRead ≤ maxOffset := h.elim WF.total fun h => h.total.le

theorem live_of_gaps (hc : 0 < b.cap) (ht : b.totalBytesRead ≤ maxOffset)
    (hg : b.gaps = [⟨b.totalBytesRead, maxOffset⟩]) : Live b := by
  rcases Nat.lt_or_ge b.totalBytesRead maxOffset with hlt | hge
  · exact .inl (wf_of_gaps hc hlt hg)
  · have he : b.totalBytesRead = maxOffset := by omega
    exact .inr ⟨hc, he, by rw [hg, he]⟩

theorem Spent.firstGap (h : Spent b) : b.firstGap = maxOffset := by
  simp [SequencerBuffer.firstGap, first, h.gaps]

theorem Live.total_le_firstGap (h : Live b) : b.totalBytesRead ≤ b.firstGap := by
  rcases h with h | h
  · exact h.total_le_firstGap
  · rw [h.total, h.firstGap]

theorem Live.firstGap_le_max (h : Live b) : b.firstGap ≤ maxOffset := by
  rcases h with h | h
  · exact h.firstGap_le_max
  · exact h.firstGap.le

theorem Live.missing_ge (h : Live b) (hm : Missing b.gaps x) : b.totalBytesRead ≤ x := by
  rcases h with h | h
  · exact h.sorted.missing_ge hm
  · obtain ⟨g, hg, hlo, hhi⟩ := hm
    rw [h.gaps, List.mem_singleton] at hg
    subst hg
    dsimp only at hlo hhi
    omega

theorem Live.not_missing (h : Live b) (hx : x < b.firstGap) : ¬ Missing b.gaps x := by
  rcases h with h | h
  · exact h.not_missing hx
  · rintro ⟨g, hg, hlo, hhi⟩
    rw [h.gaps, List.mem_singleton] at hg
    subst hg
    dsimp only at hlo hhi
    omega

theorem Live.consumed (h : Live b) (hn : n ≤ b.readableBytes) (hc : b'.cap = b.cap)
    (ht : b'.totalBytesRead = b.totalBytesRead + n) (hg : b'.gaps = b.gaps) : Live b' := by
  rcases h with h | h
  · exact .inl (h.consumed hn hc ht hg)
  · have hr : n = 0 := by
      rw [readableBytes, h.firstGap, h.total] at hn
      omega
    exact .inr ⟨hc ▸ h.capPos, by rw [ht, h.total, hr, Nat.add_zero], hg.trans h.gaps⟩

theorem Live.onStreamData (h : Live b) (ho : offset < 2 ^ 64) (hl : data.length < 2 ^ 64)
    (hr : b.onStreamData offset data = .ok (b', n)) :
    (n = 0 ∧ b' = b) ∨ (n = data.length ∧ WF b ∧ Stored b b' offset data ∧
      offset + data.length ≤ (b.totalBytesRead + b.cap) % 2 ^ 64) := by
  rcases h with h | h
  · rcases onStreamData_cases h ho hl hr with ⟨h0, hb, -⟩ | ⟨hn, hst, hwin⟩
    · exact .inl ⟨h0, hb⟩
    · exact .inr ⟨hn, h, hst, hwin⟩
  · refine .inl ?_
    unfold SequencerBuffer.onStreamData at hr
    dsimp only at hr
    split at hr
    · cases hr
    rw [h.gaps, locate] at hr
    have hend : (offset + data.length) % 2 ^ 64 ≤ maxOffset := by unfold maxOffset; omega
    by_cases hlt : maxOffset ≤ offset
    · rw [if_pos hlt] at hr
      cases hr
    · rw [if_neg hlt] at hr
      dsimp only at hr
      rw [if_pos ⟨by omega, hend⟩] at hr
      cases hr
      exact ⟨rfl, rfl⟩

theorem Live.markConsumed (h : Live b) (hm : b.markConsumed n = some b') :
    n ≤ b.readableBytes ∧ b'.cap = b.cap ∧ b'.totalBytesRead = b.totalBytesRead + n ∧
      b'.gaps = b.gaps := by
  rcases h with h | h
  · obtain ⟨hn, hc⟩ := markConsumed_consumed h hm
    exact ⟨hn, hc.cap, hc.total, hc.gaps⟩
  · -- nothing can be read, so nothing is consumed
    have hread : b.readableBytes = 0 := by
      rw [readableBytes, h.firstGap, h.total]
      omega
    unfold SequencerBuffer.markConsumed at hm
    split at hm
    · cases hm
    · obtain rfl : n = 0 := by omega
      cases hm
      exact ⟨by omega, rfl, rfl, rfl⟩

theorem Live.lastGap_le_max (h : Live b) : b.lastGap ≤ maxOffset := by
  rcases h with h | h
  · exact h.lastGap_le_max
  · simp [lastGap, last, h.gaps]

theorem Live.total_le_lastGap (h : Live b) : b.totalBytesRead ≤ b.lastGap := by
  rcases h with h | h
  · exact h.total_le_lastGap
  · simp [lastGap, last, h.gaps, h.total]

/-- `Readv` goes through readable bytes only, also when it stops with an error. -/
theorem readvInto_fields (fuel remaining : ℕ) (hle : b.totalBytesRead ≤ b.firstGap) :
    (readvInto fuel b remaining).1.cap = b.cap ∧ (readvInto fuel b remaining).1.gaps = b.gaps ∧
      (readvInto fuel b remaining).1.totalBytesRead =
        b.totalBytesRead + (readvInto fuel b remaining).2.1.length ∧
      (readvInto fuel b remaining).2.1.length ≤ b.readableBytes := by
  induction fuel generalizing b remaining with
  | zero => simp [readvInto]
  | succ fuel ih =>
    unfold readvInto
    split
    · simp
    dsimp only
    generalize hn : min (min b.readableBytes _) remaining = n
    have hread : n ≤ b.readableBytes := by omega
    split
    · simp
    split
    · simp only [List.length_map, List.length_range]
      exact ⟨rfl, rfl, rfl, hread⟩
    · have hround : ∀ b' : SequencerBuffer, b'.cap = b.cap → b'.gaps = b.gaps →
          b'.totalBytesRead = b.totalBytesRead + n →
          (readvInto fuel b' (remaining - n)).1.cap = b.cap ∧
          (readvInto fuel b' (remaining - n)).1.gaps = b.gaps ∧
          (readvInto fuel b' (remaining - n)).1.totalBytesRead =
            b.totalBytesRead + (n + (readvInto fuel b' (remaining - n)).2.1.length) ∧
          n + (readvInto fuel b' (remaining - n)).2.1.length ≤ b.readableBytes := by
        intro b' hc hg ht
        have hf : b'.firstGap = b.firstGap := by unfold SequencerBuffer.firstGap; rw [hg]
        have hrb : b'.readableBytes = b.readableBytes - n := by
          unfold readableBytes
          omega
        obtain ⟨h1, h2, h3, h4⟩ := ih (b := b') (remaining - n) (by unfold readableBytes at hread; omega)
        exact ⟨h1.trans hc, h2.trans hg, by omega, by omega⟩
      simp only [List.length_append, List.length_map, List.length_range]
      split
      · obtain ⟨h1, h2, h3⟩ := retireBlockIfEmpty_fields (b.advance n) b.nextBlockToRead
        exact hround _ h1 h3 h2
      · exact hround _ rfl rfl rfl

theorem readv_fields (lens : List ℕ) (hle : b.totalBytesRead ≤ b.firstGap) :
    (b.readv lens).1.cap = b.cap ∧ (b.readv lens).1.gaps = b.gaps ∧
      (b.readv lens).1.totalBytesRead = b.totalBytesRead + (b.readv lens).2.1.flatten.length ∧
      (b.readv lens).2.1.flatten.length ≤ b.readableBytes := by
  induction lens generalizing b with
  | nil => simp [readv]
  | cons len lens ih =>
    unfold readv
    split
    · simp
    obtain ⟨h1, h2, h3, h4⟩ := readvInto_fields len len hle
    revert h1 h2 h3 h4
    rcases readvInto len b len with ⟨b₁, bytes, _ | e⟩
    · intro h1 h2 h3 h4
      dsimp only at h1 h2 h3 h4 ⊢
      have hf : b₁.firstGap = b.firstGap := by unfold SequencerBuffer.firstGap; rw [h2]
      obtain ⟨k1, k2, k3, k4⟩ := ih (b := b₁) (by unfold readableBytes at h4; omega)
      rw [List.flatten_cons, List.length_append]
      refine ⟨k1.trans h1, k2.trans h2, by omega, ?_⟩
      unfold readableBytes at *
      omega
    · intro h1 h2 h3 h4
      simpa using ⟨h1, h2, h3, h4⟩

end SequencerBuffer

namespace ReceiveStream

open SequencerBuffer

variable {s s' s'' : ReceiveStream} {env : StreamEnv} {n : ℕ} {f : StreamFrame}

/-! ## Closing -/

/-- Something is closed on the way from `s` to `s'`: the buffer may have been cleared, but nothing was
    read, and the window of the stream is as it was. -/
structure Closes (s s' : ReceiveStream) : Prop where
  cap : s'.buf.cap = s.buf.cap
  total : s'.buf.totalBytesRead = s.buf.totalBytesRead
  gaps : s'.buf.gaps = s.buf.gaps ∨ s'.buf.gaps = [⟨s.buf.totalBytesRead, maxOffset⟩]
  closeOffset : s'.seq.closeOffset = s.seq.closeOffset
  ignoreReadData : s'.seq.ignoreReadData = s.seq.ignoreReadData
  window : s'.window = s.window
  callback : s'.callback = s.callback
  fins : s'.fins = s.fins
  taken : s'.taken = s.taken
  stopped : s'.stopped = s.stopped
  connected : s'.connected → s.connected
  reset : s.reset → s'.reset
  readSideClosed : s.readSideClosed → s'.readSideClosed
  closed : (s.closed → s.readSideClosed) → s'.closed → s'.readSideClosed

theorem Closes.refl (s : ReceiveStream) : Closes s s :=
  ⟨rfl, rfl, .inl rfl, rfl, rfl, rfl, rfl, rfl, rfl, rfl, id, id, id, id⟩

theorem Closes.trans (h : Closes s s') (h' : Closes s' s'') : Closes s s'' where
  cap := h'.cap.trans h.cap
  total := h'.total.trans h.total
  gaps := by
    rcases h'.gaps with hg | hg
    · rw [hg]
      exact h.gaps
    · exact .inr (by rw [hg, h.total])
  closeOffset := h'.closeOffset.trans h.closeOffset
  ignoreReadData := h'.ignoreReadData.trans h.ignoreReadData
  window := h'.window.trans h.window
  callback := h'.callback.trans h.callback
  fins := h'.fins.trans h.fins
  taken := h'.taken.trans h.taken
  stopped := h'.stopped.trans h.stopped
  connected := h.connected ∘ h'.connected
  reset := h'.reset ∘ h.reset
  readSideClosed := h'.readSideClosed ∘ h.readSideClosed
  closed := h'.closed ∘ h.closed

theorem closes_clearBuf (s : ReceiveStream) : Closes s s.clearBuf where
  cap := clear_cap _
  total := clear_total _
  gaps := .inr (clear_gaps _)
  closeOffset := rfl
  ignoreReadData := rfl
  window := rfl
  callback := rfl
  fins := rfl
  taken := rfl
  stopped := rfl
  connected := id
  reset := id
  readSideClosed := id
  closed := id

theorem closes_releaseRead (s : ReceiveStream) :
    Closes s s.releaseRead ∧ s.releaseRead.readSideClosed = true := by
  unfold releaseRead
  split
  · next h => exact ⟨.refl s, h⟩
  · exact ⟨⟨clear_cap _, clear_total _, .inr (clear_gaps _), rfl, rfl, rfl, rfl, rfl, rfl, rfl, id, id,
      fun _ => rfl, fun _ _ => rfl⟩, rfl⟩

theorem closes_consumeRest (s : ReceiveStream) (env : StreamEnv) :
    Closes s (s.consumeRest env) ∧ (s.consumeRest env).readSideClosed = s.readSideClosed := by
  unfold consumeRest
  split
  · exact ⟨.refl s, rfl⟩
  · exact ⟨⟨rfl, rfl, .inl rfl, rfl, rfl, rfl, rfl, rfl, rfl, rfl, id, id, id, id⟩, rfl⟩

theorem closes_closeStream (s : ReceiveStream) (env : StreamEnv) : Closes s (s.closeStream env) := by
  unfold closeStream
  split
  · exact .refl s
  generalize (if s.finReceived || s.rstReceived then s.lateOffset
    else some s.window.highestReceivedByteOffset) = late
  obtain ⟨h, hread⟩ := closes_releaseRead { s with closed := true, lateOffset := late }
  have h₁ : Closes s { s with closed := true, lateOffset := late }.releaseRead :=
    { h with closed := fun _ _ => hread }
  refine h₁.trans (.trans ?_ (closes_consumeRest _ env).1)
  exact ⟨rfl, rfl, .inl rfl, rfl, rfl, rfl, rfl, rfl, rfl, rfl, id, id, id, id⟩

theorem closes_closeReadSide (s : ReceiveStream) (env : StreamEnv) :
    Closes s (s.closeReadSide env) ∧ (s.closeReadSide env).readSideClosed = true := by
  obtain ⟨h, hread⟩ := closes_releaseRead s
  unfold closeReadSide
  split
  · next hr => exact ⟨.refl s, hr⟩
  split
  · have hs := closes_closeStream s.releaseRead env
    exact ⟨h.trans hs, hs.readSideClosed hread⟩
  · exact ⟨h, hread⟩

theorem closes_closeWriteSide (s : ReceiveStream) (env : StreamEnv) :
    Closes s (s.closeWriteSide env) := by
  have hw : Closes s { s with writeSideClosed := true } :=
    ⟨rfl, rfl, .inl rfl, rfl, rfl, rfl, rfl, rfl, rfl, rfl, id, id, id, id⟩
  unfold closeWriteSide
  split
  · exact .refl s
  split
  · exact hw.trans (closes_closeStream _ env)
  · exact hw

theorem closes_closeConnection (s : ReceiveStream) (env : StreamEnv) :
    Closes s (s.closeConnection env) := by
  have hd : Closes s { s with connected := false } :=
    ⟨rfl, rfl, .inl rfl, rfl, rfl, rfl, rfl, rfl, rfl, rfl, (nomatch ·), id, id, id⟩
  unfold closeConnection
  split
  · split
    · exact hd
    · exact (hd.trans (closes_closeWriteSide _ env)).trans (closes_closeReadSide _ env).1
  · exact .refl s

theorem closes_resetStream (s : ReceiveStream) (env : StreamEnv) : Closes s (s.resetStream env) := by
  have hr : Closes s { s with reset := true } :=
    ⟨rfl, rfl, .inl rfl, rfl, rfl, rfl, rfl, rfl, rfl, rfl, id, fun _ => rfl, id, id⟩
  unfold resetStream
  split
  · exact (hr.trans (closes_closeConnection _ env)).trans (closes_closeStream _ env)
  · exact hr.trans (closes_closeStream _ env)

/-! ## What every run keeps -/

/-- The window of the stream and its buffer; `consumed` and `offset` tie them together. -/
structure Tied (s : ReceiveStream) : Prop where
  live : Live s.buf
  cap : s.buf.cap = kStreamReceiveWindowLimit
  bounded : s.window.Bounded
  limit : s.window.receiveWindowSizeLimit = kStreamReceiveWindowLimit
  consumed : s.window.bytesConsumed ≤ s.buf.totalBytesRead
  offset : s.window.receiveWindowOffset ≤ s.buf.totalBytesRead + kStreamReceiveWindowLimit
  closed : s.closed → s.readSideClosed
  pending : ∀ d, s.callback = some d → s.seq.closeOffset ≤ s.buf.totalBytesRead ∧
    ∀ f, d = some f → f.endOffset = s.seq.closeOffset

/-- What has arrived has been counted, and what has been counted fits. -/
structure Counted (s : ReceiveStream) : Prop where
  total : s.buf.totalBytesRead ≤ s.window.highestReceivedByteOffset
  received : ∀ x, s.buf.totalBytesRead ≤ x → x < maxOffset → ¬ Missing s.buf.gaps x →
    x < s.window.highestReceivedByteOffset
  fits : s.window.highestReceivedByteOffset ≤ s.buf.totalBytesRead + kStreamReceiveWindowLimit

structure Sane (s : ReceiveStream) : Prop extends Tied s where
  counted : s.readSideClosed = false → Counted s

theorem Closes.isOpen (h : Closes s s') (hr : s'.readSideClosed = false) : s.readSideClosed = false := by
  cases hs : s.readSideClosed with
  | false => rfl
  | true => rw [h.readSideClosed hs] at hr; cases hr

theorem Tied.closes (h : Tied s) (hc : Closes s s') : Tied s' where
  live := by
    rcases hc.gaps with hg | hg
    · exact h.live.consumed (Nat.zero_le _) hc.cap hc.total hg
    · refine live_of_gaps (hc.cap ▸ h.live.capPos) (hc.total ▸ h.live.total_le) ?_
      rw [hg, hc.total]
  cap := hc.cap.trans h.cap
  bounded := hc.window ▸ h.bounded
  limit := hc.window ▸ h.limit
  consumed := by rw [hc.window, hc.total]; exact h.consumed
  offset := by rw [hc.window, hc.total]; exact h.offset
  closed := hc.closed h.closed
  pending := by rw [hc.callback, hc.closeOffset, hc.total]; exact h.pending

theorem Counted.closes (h : Counted s) (hc : Closes s s') : Counted s' where
  total := by rw [hc.window, hc.total]; exact h.total
  received x hx hx' hm := by
    rw [hc.total] at hx
    rw [hc.window]
    rcases hc.gaps with hg | hg
    · exact h.received x hx hx' (hg ▸ hm)
    · exact absurd (hg ▸ ⟨_, .head _, hx, hx'⟩) hm
  fits := by rw [hc.window, hc.total]; exact h.fits

theorem Sane.closes (h : Sane s) (hc : Closes s s') : Sane s' :=
  ⟨h.toTied.closes hc, fun hr => (h.counted (hc.isOpen hr)).closes hc⟩

theorem Sane.congr (h : Sane s) (hb : s'.buf = s.buf) (hw : s'.window = s.window)
    (hcl : s'.closed = s.closed) (hr : s'.readSideClosed = s.readSideClosed)
    (hp : ∀ d, s'.callback = some d → s'.seq.closeOffset ≤ s.buf.totalBytesRead ∧
      ∀ f, d = some f → f.endOffset = s'.seq.closeOffset) : Sane s' where
  live := hb ▸ h.live
  cap := hb ▸ h.cap
  bounded := hw ▸ h.bounded
  limit := hw ▸ h.limit
  consumed := by rw [hb, hw]; exact h.consumed
  offset := by rw [hb, hw]; exact h.offset
  closed := by rw [hcl, hr]; exact h.closed
  pending := hb ▸ hp
  counted ho := by
    obtain ⟨h1, h2, h3⟩ := h.counted (hr ▸ ho)
    constructor
    · rw [hb, hw]; exact h1
    · rw [hb, hw]; exact h2
    · rw [hb, hw]; exact h3

theorem Sane.consumeStream (h : Sane s) (hn : s.window.bytesConsumed + n ≤ s.buf.totalBytesRead) :
    Sane (s.consumeStream env n) := by
  unfold ReceiveStream.consumeStream
  split
  · exact h
  have hm := h.bounded.moved_addBytesConsumed env.fast n
  have hmod : (s.window.bytesConsumed + n) % 2 ^ 64 = s.window.bytesConsumed + n := by
    have htop := h.live.total_le
    unfold maxOffset at htop
    omega
  rw [hmod] at hm
  have hb : ({ s.window with bytesConsumed := s.window.bytesConsumed + n } : ReceiveWindow).Bounded := by
    refine ⟨?_, h.bounded.offset, h.bounded.size, h.bounded.limit⟩
    rw [← hmod]
    exact Nat.mod_lt _ (by decide)
  refine ⟨⟨h.live, h.cap, hm.bounded hb, hm.limit.trans h.limit, ?_, ?_, h.closed, h.pending⟩,
    fun hr => ?_⟩
  · rw [hm.consumed]
    exact hn
  · -- the window has not moved, or reaches one size behind the consumed bytes
    rcases hm.offset with ⟨ho, -⟩ | ⟨ho, -⟩
    · rw [ho]
      exact h.offset
    · have hsize := hm.size_le
      have hlim := h.limit
      dsimp only at ho hsize
      show (s.window.addBytesConsumed env.fast n).1.receiveWindowOffset ≤ s.buf.totalBytesRead + _
      omega
  · obtain ⟨h1, h2, h3⟩ := h.counted hr
    exact ⟨by rw [hm.highest]; exact h1, by rw [hm.highest]; exact h2, by rw [hm.highest]; exact h3⟩

theorem Sane.addBytesConsumed (h : Sane s) (hn : s.window.bytesConsumed + n ≤ s.buf.totalBytesRead) :
    Sane (s.addBytesConsumed env n) := by
  have hc : Sane (s.consumeStream env n) := h.consumeStream hn
  have hs : Sane ((s.consumeStream env n).consumeConn env n) := hc.congr rfl rfl rfl rfl hc.pending
  unfold ReceiveStream.addBytesConsumed
  split
  · exact hs.closes (closes_closeConnection _ env)
  · exact hs

theorem Sane.advance {b : SequencerBuffer} (h : Sane s) (hn : n ≤ s.buf.readableBytes)
    (hc : b.cap = s.buf.cap) (ht : b.totalBytesRead = s.buf.totalBytesRead + n)
    (hg : b.gaps = s.buf.gaps) : Sane { s.setBuf b with taken := s.taken + n } where
  live := h.live.consumed hn hc ht hg
  cap := hc.trans h.cap
  bounded := h.bounded
  limit := h.limit
  consumed := by
    have := h.consumed
    show s.window.bytesConsumed ≤ b.totalBytesRead
    omega
  offset := by
    have := h.offset
    show s.window.receiveWindowOffset ≤ b.totalBytesRead + _
    omega
  closed := h.closed
  pending d hd := by
    obtain ⟨h1, h2⟩ := h.pending d hd
    refine ⟨?_, h2⟩
    show s.seq.closeOffset ≤ b.totalBytesRead
    omega
  counted hr := by
    obtain ⟨h1, h2, h3⟩ := h.counted hr
    have hle := h.live.total_le_firstGap
    have hmax := h.live.firstGap_le_max
    have hread : s.buf.firstGap = s.buf.totalBytesRead + s.buf.readableBytes := by
      unfold readableBytes; omega
    refine ⟨?_, fun x hx hx' hm => ?_, ?_⟩
    · show b.totalBytesRead ≤ s.window.highestReceivedByteOffset
      rcases Nat.eq_zero_or_pos n with rfl | hpos
      · omega
      · have := h2 (s.buf.totalBytesRead + n - 1) (by omega) (by omega)
          (h.live.not_missing (by omega))
        omega
    · refine h2 x ?_ hx' (hg ▸ hm)
      have : b.totalBytesRead ≤ x := hx
      omega
    · show s.window.highestReceivedByteOffset ≤ b.totalBytesRead + _
      omega

theorem Sane.readv (h : Sane s) (lens : List ℕ) : Sane (s.readv env lens) := by
  obtain ⟨h1, h2, h3, h4⟩ := readv_fields lens h.live.total_le_firstGap
  unfold ReceiveStream.readv
  revert h1 h2 h3 h4
  rcases s.buf.readv lens with ⟨b, chunks, _ | e⟩
  · intro hc hg ht hn
    have ht' : b.totalBytesRead = s.buf.totalBytesRead + chunks.flatten.length := ht
    refine (h.advance hn hc ht' hg).addBytesConsumed ?_
    show s.window.bytesConsumed + _ ≤ b.totalBytesRead
    have := h.consumed
    omega
  · intro hc hg ht hn
    exact (h.advance hn hc ht hg).closes (closes_closeConnection _ env)

theorem Sane.markConsumed (h : Sane s) (n : ℕ) : Sane (s.markConsumed env n) := by
  unfold ReceiveStream.markConsumed
  split
  · exact h.closes (closes_resetStream s env)
  · next b hb =>
    obtain ⟨hn, hc, ht, hg⟩ := h.live.markConsumed hb
    refine (h.advance hn hc ht hg).addBytesConsumed ?_
    show s.window.bytesConsumed + n ≤ b.totalBytesRead
    have := h.consumed
    omega

theorem closes_maybeFinRead (s : ReceiveStream) (env : StreamEnv) : Closes s (s.maybeFinRead env) := by
  have hf : Closes s { s with finReceived := true } :=
    ⟨rfl, rfl, .inl rfl, rfl, rfl, rfl, rfl, rfl, rfl, rfl, id, id, id, id⟩
  unfold maybeFinRead
  split
  · exact (hf.trans (closes_closeReadSide _ env).1).trans (closes_clearBuf _)
  · exact .refl s

theorem Sane.lastGap_le (h : Sane s) (hr : s.readSideClosed = false) :
    s.buf.lastGap ≤ s.window.highestReceivedByteOffset := by
  obtain ⟨h1, h2, -⟩ := h.counted hr
  have hle := h.live.total_le_lastGap
  have hmax := h.live.lastGap_le_max
  rcases Nat.eq_or_lt_of_le hle with he | hlt
  · omega
  · have hnm : ¬ Missing s.buf.gaps (s.buf.lastGap - 1) := by
      rcases h.live with hw | hsp
      · by_cases hne : s.buf.gaps = []
        · rw [hne]; exact missing_nil
        · exact not_missing_last hw.sorted hne (by unfold lastGap at hlt; omega)
      · simp [lastGap, last, hsp.gaps, hsp.total] at hlt
    have := h2 (s.buf.lastGap - 1) (by omega) (by omega) hnm
    omega

theorem Sane.flushBufferedFrames (h : Sane s) : Sane (s.flushBufferedFrames env) := by
  have hle := h.live.total_le_lastGap
  have hmax := h.live.lastGap_le_max
  have htot : s.seq.flush.bufferedFrames.totalBytesRead = s.buf.lastGap := clear_total _
  have hgaps : s.seq.flush.bufferedFrames.gaps = [⟨s.buf.lastGap, maxOffset⟩] := clear_gaps _
  have hcap : s.seq.flush.bufferedFrames.cap = s.buf.cap := clear_cap _
  have hs : Sane { s with seq := s.seq.flush } := by
    refine ⟨⟨live_of_gaps ?_ ?_ ?_, hcap.trans h.cap, h.bounded, h.limit, ?_, ?_, h.closed, ?_⟩, ?_⟩
    · show 0 < s.seq.flush.bufferedFrames.cap
      rw [hcap]
      exact h.live.capPos
    · show s.seq.flush.bufferedFrames.totalBytesRead ≤ maxOffset
      rwa [htot]
    · show s.seq.flush.bufferedFrames.gaps = [⟨s.seq.flush.bufferedFrames.totalBytesRead, maxOffset⟩]
      rw [htot, hgaps]
    · show s.window.bytesConsumed ≤ s.seq.flush.bufferedFrames.totalBytesRead
      have := h.consumed
      omega
    · show s.window.receiveWindowOffset ≤ s.seq.flush.bufferedFrames.totalBytesRead + _
      have := h.offset
      omega
    · intro d hd
      obtain ⟨h1, h2⟩ := h.pending d hd
      refine ⟨?_, h2⟩
      show s.seq.closeOffset ≤ s.seq.flush.bufferedFrames.totalBytesRead
      omega
    · intro hr
      have hlast := h.lastGap_le hr
      have hfits := (h.counted hr).fits
      refine ⟨by show s.seq.flush.bufferedFrames.totalBytesRead ≤ _; rwa [htot], fun x hx hx' hm => ?_, ?_⟩
      · refine absurd ?_ hm
        show Missing s.seq.flush.bufferedFrames.gaps x
        rw [hgaps]
        have hx : s.seq.flush.bufferedFrames.totalBytesRead ≤ x := hx
        exact ⟨_, .head _, by dsimp only; omega, hx'⟩
      · show s.window.highestReceivedByteOffset ≤ s.seq.flush.bufferedFrames.totalBytesRead + _
        omega
  refine (hs.addBytesConsumed ?_).closes (closes_maybeFinRead _ env)
  show s.window.bytesConsumed + (s.buf.lastGap - s.buf.totalBytesRead) ≤
    s.seq.flush.bufferedFrames.totalBytesRead
  have := h.consumed
  omega

theorem Sane.ignoreReadData (h : Sane s) :
    Sane { s with seq := { s.seq with ignoreReadData := true } } :=
  h.congr rfl rfl rfl rfl h.pending

theorem Sane.stopReading (h : Sane s) : Sane (s.stopReading env) := by
  unfold ReceiveStream.stopReading
  split
  · exact h
  · exact h.ignoreReadData.flushBufferedFrames

theorem Sane.isEOF (h : Sane s) : Sane (s.isEOF env) := by
  unfold ReceiveStream.isEOF
  split
  · exact h.stopReading
  · exact h

/-! ## Frames -/

theorem Tied.maybeIncreaseHighestReceivedOffset (h : Tied s) (n : ℕ) :
    Tied (s.maybeIncreaseHighestReceivedOffset n) := by
  unfold ReceiveStream.maybeIncreaseHighestReceivedOffset
  split
  · exact h
  rw [ReceiveWindow.updateHighestReceivedOffset_eq]
  exact ⟨h.live, h.cap, ⟨h.bounded.consumed, h.bounded.offset, h.bounded.size, h.bounded.limit⟩, h.limit,
    h.consumed, h.offset, h.closed, h.pending⟩

theorem Tied.counted (h : Tied s) (f : StreamFrame) : Tied (s.counted f) := by
  unfold ReceiveStream.counted
  split
  · exact h
  · exact h.maybeIncreaseHighestReceivedOffset _

theorem counted_cases (s : ReceiveStream) (f : StreamFrame) :
    (s.counted f = s ∧ (f.data ≠ [] → f.endOffset ≤ s.window.highestReceivedByteOffset)) ∨
      (f.data ≠ [] ∧ s.window.highestReceivedByteOffset < f.endOffset ∧
        ∃ conn, s.counted f = { s with
          window := { s.window with highestReceivedByteOffset := f.endOffset }
          conn := conn }) := by
  unfold ReceiveStream.counted
  split
  · next h => exact .inl ⟨rfl, fun hne => absurd h hne⟩
  next hne =>
  unfold ReceiveStream.maybeIncreaseHighestReceivedOffset
  split
  · next h => exact .inl ⟨rfl, fun _ => h⟩
  next hlt =>
  have hwin : (s.window.updateHighestReceivedOffset f.endOffset).1 =
      { s.window with highestReceivedByteOffset := f.endOffset } := by
    rw [ReceiveWindow.updateHighestReceivedOffset_eq, Nat.max_eq_right (by omega)]
  rw [hwin]
  exact .inr ⟨hne, by omega, _, rfl⟩

theorem counted_fields (s : ReceiveStream) (f : StreamFrame) :
    (s.counted f).seq = s.seq ∧ (s.counted f).callback = s.callback ∧
      (s.counted f).readSideClosed = s.readSideClosed ∧ (s.counted f).connected = s.connected ∧
      (s.counted f).closed = s.closed ∧
      (f.data ≠ [] → f.endOffset ≤ (s.counted f).window.highestReceivedByteOffset) := by
  rcases counted_cases s f with ⟨he, hle⟩ | ⟨-, -, conn, he⟩
  · rw [he]
    exact ⟨rfl, rfl, rfl, rfl, rfl, hle⟩
  · rw [he]
    exact ⟨rfl, rfl, rfl, rfl, rfl, fun _ => le_rfl⟩

theorem counted_noteFin (s : ReceiveStream) (f : StreamFrame) :
    (s.noteFin f).counted f = (s.counted f).noteFin f := by
  unfold counted maybeIncreaseHighestReceivedOffset
  by_cases hd : f.data = []
  · rw [if_pos hd, if_pos hd]
  rw [if_neg hd, if_neg hd]
  have hwin : (s.noteFin f).window = s.window := rfl
  rw [hwin]
  by_cases hle : f.endOffset ≤ s.window.highestReceivedByteOffset
  · rw [if_pos hle, if_pos hle]
  · rw [if_neg hle, if_neg hle]
    rfl

theorem violates_noteFin (s : ReceiveStream) (f : StreamFrame) :
    (s.noteFin f).violates f = s.violates f := by
  unfold violates
  rw [counted_noteFin]
  rfl

/-- A frame that passes the test of flow control ends within the ring. -/
theorem Sane.counted_frame (h : Sane s) (hv : s.violates f = false) : Sane (s.counted f) := by
  refine ⟨h.toTied.counted f, fun hr => ?_⟩
  rcases counted_cases s f with ⟨he, -⟩ | ⟨hne, hlt, conn, he⟩
  · rw [he] at hr ⊢
    exact h.counted hr
  · rw [he] at hr
    obtain ⟨h1, h2, h3⟩ := h.counted hr
    have hwin : f.endOffset ≤ s.window.receiveWindowOffset := by
      simp only [violates, he, flowControlViolation, ReceiveWindow.flowControlViolation,
        Bool.and_eq_false_iff, Bool.or_eq_false_iff, decide_eq_false_iff_not, not_lt] at hv
      rcases hv with (hv | hv) | hv
      · exact absurd hne hv
      · exact absurd hlt (by omega)
      · exact hv.1
    have hoff := h.offset
    rw [he]
    refine ⟨h1.trans hlt.le, fun x hx hx' hm => (h2 x hx hx' hm).trans hlt, ?_⟩
    show f.endOffset ≤ s.buf.totalBytesRead + _
    omega

/-- The data of a frame that has been counted, as far as somebody still reads. -/
theorem Sane.onFrameData (h : Sane s)
    (hf : s.readSideClosed = false → f.data ≠ [] → f.endOffset ≤ s.window.highestReceivedByteOffset) :
    Sane (s.onFrameData env f) := by
  unfold ReceiveStream.onFrameData
  split
  · exact h.closes (closes_closeConnection s env)
  next b n hb =>
  have hl := f.data_lt
  rcases h.live.onStreamData f.offset_lt (by omega) hb with ⟨rfl, rfl⟩ | ⟨rfl, hwf, hst, -⟩
  · exact h
  have hpos := hst.pos
  have hend : f.endOffset = f.offset + f.data.length := by
    obtain ⟨p, g, q, hg, -, hhi, -⟩ := hst.gaps
    have hmax := hwf.bounded g (by simp [hg])
    unfold maxOffset at hmax
    exact Nat.mod_eq_of_lt (by omega)
  have hs : Sane (s.setBuf b) := by
    refine ⟨⟨.inl (hst.wf hwf), hst.cap.trans h.cap, h.bounded, h.limit, ?_, ?_, h.closed, ?_⟩,
      fun hr => ?_⟩
    · show _ ≤ b.totalBytesRead
      rw [hst.total]
      exact h.consumed
    · show _ ≤ b.totalBytesRead + _
      rw [hst.total]
      exact h.offset
    · show ∀ d, s.callback = some d → s.seq.closeOffset ≤ b.totalBytesRead ∧ _
      rw [hst.total]
      exact h.pending
    · obtain ⟨h1, h2, h3⟩ := h.counted hr
      refine ⟨?_, fun x hx hx' hm => ?_, ?_⟩
      · show b.totalBytesRead ≤ _
        rw [hst.total]
        exact h1
      · by_cases hin : f.offset ≤ x ∧ x < f.offset + f.data.length
        · have := hf hr (List.length_pos_iff.1 hpos)
          show x < s.window.highestReceivedByteOffset
          omega
        · have hx : b.totalBytesRead ≤ x := hx
          rw [hst.total] at hx
          exact h2 x hx hx' fun hm' => hm ((hst.missing hwf).2 ⟨hm', hin⟩)
      · show _ ≤ b.totalBytesRead + _
        rw [hst.total]
        exact h3
  rw [if_neg (by omega)]
  unfold notify
  split
  · exact hs.flushBufferedFrames
  · exact hs

theorem acceptFin_isClosed (s : ReceiveStream) (offset : ℕ) :
    (s.acceptFin offset).seq.isClosed = decide (offset ≤ s.buf.totalBytesRead) := rfl

/-- The FIN of a frame is taken: the stream is reset, or the offset accepted. -/
theorem takeFin_cases (s : ReceiveStream) (env : StreamEnv) (f : StreamFrame) :
    (s.takeFin env f = s ∧ f.fin = false) ∨
      (s.takeFin env f = s.resetStream env ∧ f.fin = true ∧ s.seq.closeMismatch f.endOffset = true) ∨
      (f.fin = true ∧ s.seq.closeMismatch f.endOffset = false ∧
        ((s.takeFin env f = s.acceptFin f.endOffset ∧ s.buf.totalBytesRead < f.endOffset) ∨
          (f.endOffset ≤ s.buf.totalBytesRead ∧
            (s.takeFin env f = (s.acceptFin f.endOffset).maybeFinRead env ∨
              (s.takeFin env f = { s.acceptFin f.endOffset with callback := some none } ∧
                s.seq.ignoreReadData = false))))) := by
  unfold takeFin
  split
  · next hfin =>
    unfold closeStreamAtOffset
    split
    · next hmis => exact .inr (.inl ⟨rfl, hfin, hmis⟩)
    next hmis =>
    refine .inr (.inr ⟨hfin, by simpa using hmis, ?_⟩)
    have hclosed := acceptFin_isClosed s f.endOffset
    unfold maybeCloseStream
    by_cases hend : f.endOffset ≤ s.buf.totalBytesRead
    · rw [decide_eq_true hend] at hclosed
      refine .inr ⟨hend, ?_⟩
      by_cases hign : s.seq.ignoreReadData = true
      · exact .inl (if_pos hign)
      · have hign' : ¬ (s.acceptFin f.endOffset).seq.ignoreReadData = true := hign
        rw [if_neg hign', if_pos hclosed]
        exact .inr ⟨rfl, Bool.eq_false_of_not_eq_true hign⟩
    · rw [decide_eq_false hend] at hclosed
      refine .inl ⟨?_, by omega⟩
      unfold maybeFinRead
      rw [hclosed, if_neg Bool.false_ne_true, if_neg Bool.false_ne_true, ite_self]
  · next hfin => exact .inl ⟨rfl, by simpa using hfin⟩

theorem takeFin_window (s : ReceiveStream) (env : StreamEnv) (f : StreamFrame) :
    (s.takeFin env f).window = s.window ∧ (s.takeFin env f).buf.totalBytesRead = s.buf.totalBytesRead ∧
      (s.takeFin env f).buf.cap = s.buf.cap := by
  have hc := closes_resetStream s env
  have hf := closes_maybeFinRead (s.acceptFin f.endOffset) env
  rcases takeFin_cases s env f with ⟨he, -⟩ | ⟨he, -⟩ | ⟨-, -, ⟨he, -⟩ | ⟨-, he | ⟨he, -⟩⟩⟩
  · rw [he]; exact ⟨rfl, rfl, rfl⟩
  · rw [he]; exact ⟨hc.window, hc.total, hc.cap⟩
  · rw [he]; exact ⟨rfl, rfl, rfl⟩
  · rw [he]; exact ⟨hf.window, hf.total, hf.cap⟩
  · rw [he]; exact ⟨rfl, rfl, rfl⟩

theorem Sane.acceptFin (h : Sane s) (hcb : s.callback = none) (n : ℕ) : Sane (s.acceptFin n) :=
  h.congr rfl rfl rfl rfl fun d hd => by
    have hnone : (s.acceptFin n).callback = none := hcb
    rw [hnone] at hd
    cases hd

theorem Sane.takeFin (h : Sane s) (hcb : s.callback = none) (env : StreamEnv) (f : StreamFrame) :
    Sane (s.takeFin env f) ∧ ∀ d, (s.takeFin env f).callback = some d →
      (s.takeFin env f).seq.closeOffset = f.endOffset := by
  have hs := h.acceptFin hcb f.endOffset
  have hc := closes_resetStream s env
  have hf := closes_maybeFinRead (s.acceptFin f.endOffset) env
  rcases takeFin_cases s env f with ⟨he, -⟩ | ⟨he, -⟩ | ⟨-, -, ⟨he, -⟩ | ⟨hle, he | ⟨he, -⟩⟩⟩
  · rw [he]
    exact ⟨h, fun d hd => by rw [hcb] at hd; cases hd⟩
  · rw [he]
    exact ⟨h.closes hc, fun d hd => by rw [hc.callback, hcb] at hd; cases hd⟩
  · rw [he]
    exact ⟨hs, fun _ _ => rfl⟩
  · rw [he]
    exact ⟨hs.closes hf, fun _ _ => hf.closeOffset⟩
  · rw [he]
    refine ⟨hs.congr rfl rfl rfl rfl fun d hd => ⟨hle, fun f' hf' => ?_⟩, fun _ _ => rfl⟩
    simp only [Option.some.injEq] at hd
    rw [← hd] at hf'
    cases hf'

theorem Sane.sequence (h : Sane s) (hcb : s.callback = none)
    (hf : f.data ≠ [] → f.endOffset ≤ s.window.highestReceivedByteOffset) : Sane (s.sequence env f) := by
  obtain ⟨ht, hcl⟩ := h.takeFin hcb env f
  unfold ReceiveStream.sequence
  dsimp only
  split
  · exact ht
  next hne =>
  split
  · next d hd =>
    obtain ⟨h1, -⟩ := ht.pending d hd
    refine ht.congr rfl rfl rfl rfl fun d' hd' => ⟨h1, fun f' hf' => ?_⟩
    simp only [Option.some.injEq] at hd'
    rw [← hd', Option.some.injEq] at hf'
    rw [← hf']
    exact (hcl d hd).symm
  · refine ht.onFrameData fun _ hd => ?_
    rw [(takeFin_window s env f).1]
    exact hf hd

theorem closeConnection_closed (hc : s.connected = true) (env : StreamEnv) :
    (s.closeConnection env).readSideClosed = true := by
  unfold closeConnection
  rw [if_pos hc]
  split
  · next h => exact (Bool.and_eq_true_iff.1 h).1
  · exact (closes_closeReadSide _ env).2

theorem Tied.sane (h : Tied s) (hr : s.readSideClosed = true) : Sane s :=
  ⟨h, fun ho => by rw [hr] at ho; cases ho⟩

theorem Sane.onStreamFrame (h : Sane s) (hcb : s.callback = none) (hconn : s.connected = true) :
    Sane (s.onStreamFrame env f) := by
  have hs : Sane (s.noteFin f) := h.congr rfl rfl rfl rfl h.pending
  obtain ⟨-, hcb', -, hconn', -, hend⟩ := counted_fields (s.noteFin f) f
  unfold ReceiveStream.onStreamFrame
  split
  · exact hs
  split
  · exact ((hs.toTied.counted f).closes (closes_closeConnection _ env)).sane
      (closeConnection_closed (hconn'.trans hconn) env)
  · next hv =>
    have hpass : (s.noteFin f).violates f = false := by rw [violates_noteFin]; simpa using hv
    exact (hs.counted_frame hpass).sequence (hcb'.trans hcb) hend

theorem maybeIncrease_connected (s : ReceiveStream) (n : ℕ) :
    (s.maybeIncreaseHighestReceivedOffset n).connected = s.connected := by
  unfold maybeIncreaseHighestReceivedOffset
  split <;> rfl

theorem Sane.onStreamReset (h : Sane s) (hconn : s.connected = true) : Sane (s.onStreamReset env n) := by
  have hs : Sane { s with rstReceived := true, reset := true } := h.congr rfl rfl rfl rfl h.pending
  have ht : Tied (s.noteRst n) := hs.toTied.maybeIncreaseHighestReceivedOffset n
  have hc : (s.noteRst n).connected = true := (maybeIncrease_connected _ n).trans hconn
  unfold ReceiveStream.onStreamReset
  split
  · exact (ht.closes (closes_closeConnection _ env)).sane (closeConnection_closed hc env)
  · obtain ⟨hcl, hr⟩ := closes_closeReadSide ((s.noteRst n).closeWriteSide env) env
    exact ((ht.closes (closes_closeWriteSide _ env)).closes hcl).sane hr

theorem Sane.resume {d : Option StreamFrame} (h : Sane s) (hd : s.callback = some d) :
    Sane (s.resume env d) := by
  have hn : Sane { s with callback := none } := h.congr rfl rfl rfl rfl fun d hd => by cases hd
  have hs := hn.closes (closes_clearBuf _)
  obtain ⟨hle, hf⟩ := h.pending d hd
  cases d with
  | none => exact hs
  | some f =>
    refine hs.onFrameData fun hr _ => ?_
    have hend := hf f rfl
    have htot := (h.counted hr).total
    show f.endOffset ≤ s.window.highestReceivedByteOffset
    omega

theorem Sane.updateReceiveWindowSize (h : Sane s) (hn : n ≤ kStreamReceiveWindowLimit) :
    Sane { s with window := s.window.updateReceiveWindowSize n } := by
  unfold ReceiveWindow.updateReceiveWindowSize
  split
  · exact h
  · have hlim : kStreamReceiveWindowLimit < 2 ^ 64 := by decide
    refine ⟨⟨h.live, h.cap, ⟨h.bounded.consumed, ?_, ?_, h.bounded.limit⟩, h.limit, h.consumed, ?_,
      h.closed, h.pending⟩, fun hr => ?_⟩
    · exact hn.trans_lt hlim
    · show n ≤ s.window.receiveWindowSizeLimit
      rw [h.limit]
      exact hn
    · exact hn.trans (Nat.le_add_left _ _)
    · obtain ⟨h1, h2, h3⟩ := h.counted hr
      exact ⟨h1, h2, h3⟩

theorem Sane.step {e : ReceiveEvent} (h : Sane s) (hs : s.step e = some s') : Sane s' := by
  cases e with
  | frame f env =>
    simp only [ReceiveStream.step] at hs
    split at hs
    · next hc =>
      simp only [Bool.and_eq_true, Option.isNone_iff_eq_none] at hc
      cases hs
      exact h.onStreamFrame hc.2 hc.1.1
    · cases hs
  | rstStream byteOffset env =>
    simp only [ReceiveStream.step] at hs
    split at hs
    · next hc =>
      simp only [Bool.and_eq_true] at hc
      cases hs
      exact h.onStreamReset hc.1.1.1
    · cases hs
  | readv lens env => cases hs; exact h.readv lens
  | markConsumed n env => cases hs; exact h.markConsumed n
  | isEOF env => cases hs; exact h.isEOF
  | stopReading env =>
    cases hs
    exact Sane.stopReading (h.congr rfl rfl rfl rfl h.pending)
  | reset env => cases hs; exact h.closes (closes_resetStream s env)
  | finSent env => cases hs; exact h.closes (closes_closeWriteSide s env)
  | connClosed env => cases hs; exact h.closes (closes_closeConnection s env)
  | updateReceiveWindowSize size =>
    simp only [ReceiveStream.step] at hs
    split at hs
    · next hn => cases hs; exact h.updateReceiveWindowSize hn
    · cases hs
  | connWindow w =>
    cases hs
    exact h.congr rfl rfl rfl rfl h.pending
  | ret env =>
    obtain ⟨d, hd, rfl⟩ := Option.map_eq_some_iff.1 hs
    exact h.resume hd

theorem sane_new {autoTune : Bool} {conn : ReceiveWindow} (hn : n ≤ kStreamReceiveWindowLimit) :
    Sane (new n autoTune conn) where
  live := .inl (wf_of_gaps (by decide : 0 < kStreamReceiveWindowLimit) (by decide : 0 < maxOffset) rfl)
  cap := rfl
  bounded :=
    ⟨(by decide : 0 < 2 ^ 64), hn.trans_lt (by decide : kStreamReceiveWindowLimit < 2 ^ 64), hn,
      (by decide : kStreamReceiveWindowLimit < 2 ^ 63)⟩
  limit := rfl
  consumed := le_rfl
  offset := hn.trans (Nat.le_add_left _ _)
  closed h := by cases h
  pending d hd := by cases hd
  counted _ := by
    refine ⟨le_rfl, fun x hx hx' hm => ?_, Nat.zero_le _⟩
    exact absurd ⟨⟨0, maxOffset⟩, .head _, Nat.zero_le x, hx'⟩ hm

theorem sane_run {autoTune : Bool} {conn : ReceiveWindow} {es : List ReceiveEvent}
    (hn : n ≤ kStreamReceiveWindowLimit) (h : run step (new n autoTune conn) es = some s) : Sane s :=
  run_inv (fun _ _ _ hs hst => hs.step hst) (sane_new hn) h

/-- **A stream holds no more than `kStreamReceiveWindowLimit` bytes**, whatever the peer sends:
    while its read side is open, what has arrived is counted, and lies within that many bytes of
    what has been read. -/
theorem received_within_limit {autoTune : Bool} {conn : ReceiveWindow} {es : List ReceiveEvent}
    (hn : n ≤ kStreamReceiveWindowLimit) (h : run step (new n autoTune conn) es = some s)
    (hr : s.readSideClosed = false) :
    s.window.bytesConsumed ≤ s.buf.totalBytesRead ∧
    s.buf.totalBytesRead ≤ s.window.highestReceivedByteOffset ∧
    s.window.highestReceivedByteOffset ≤ s.buf.totalBytesRead + kStreamReceiveWindowLimit ∧
    ∀ x, s.buf.totalBytesRead ≤ x → x < maxOffset → ¬ Missing s.buf.gaps x →
      x < s.window.highestReceivedByteOffset := by
  have hs := sane_run hn h
  obtain ⟨htotal, hreceived, hfits⟩ := hs.counted hr
  exact ⟨hs.consumed, htotal, hfits, hreceived⟩

/-- Three bytes and a sixth one arrive, and two of them are read: the sixth is held behind a gap. -/
theorem received_within_limit_gap : ∃ s, run step (new 9 true (.new 9 9 true))
      [.frame (.ofBytes 0 [5, 6, 7] false) .calm, .frame (.ofBytes 5 [9] false) .calm,
        .readv [2] .calm] = some s ∧
      s.buf.totalBytesRead = 2 ∧ Missing s.buf.gaps 4 ∧ s.window.bytesConsumed ≤ s.buf.totalBytesRead ∧
      5 < s.window.highestReceivedByteOffset ∧
      s.window.highestReceivedByteOffset ≤ s.buf.totalBytesRead + kStreamReceiveWindowLimit := by
  obtain ⟨s, hs, hr, ht, hgap, hm⟩ : ∃ s, run step (new 9 true (.new 9 9 true))
      [.frame (.ofBytes 0 [5, 6, 7] false) .calm, .frame (.ofBytes 5 [9] false) .calm,
        .readv [2] .calm] = some s ∧
      s.readSideClosed = false ∧ s.buf.totalBytesRead = 2 ∧ Missing s.buf.gaps 4 ∧
        ¬ Missing s.buf.gaps 5 :=
    ⟨_, rfl, by decide +kernel⟩
  obtain ⟨hconsumed, -, hfits, hcounted⟩ := received_within_limit (by decide) hs hr
  exact ⟨s, hs, ht, hgap, hconsumed, hcounted 5 (by omega) (by decide) hm, hfits⟩

end ReceiveStream
end Puic
