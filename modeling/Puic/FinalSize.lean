/-
  The final size of a stream.

  Once a FIN has been accepted, nothing at or behind its offset should become
  readable, no later FIN should name another offset, and the application should see
  the end only when it has read everything before it (`FinalSize`).

  The code compares a FIN with an earlier FIN, but neither a FIN with the data that
  has arrived nor data with the FIN; and a FIN at the last offset is taken for no FIN
  at all.  `Lawful` says which frames get past these missing checks; `final_size`
  follows the runs without them, and `final_size_broken` has one run for each.
-/
import Puic.StreamWindow

namespace Puic

open GapList Machine SequencerBuffer

namespace ReceiveStream

variable {s s' : ReceiveStream} {env : StreamEnv} {f : StreamFrame} {n : ℕ} {P : Prop}

/-- The law of the final size, for every final offset that was accepted: no byte at or behind it can
    be read; it was not smaller than what had been received, unless the stream was reset or the
    connection closed; and the stream ends only when everything before it has been consumed - by the
    application, if it has not called `StopReading`. -/
structure FinalSize (s : ReceiveStream) : Prop where
  readable : ∀ p ∈ s.fins, ∀ x, s.buf.totalBytesRead ≤ x → x < s.buf.firstGap → x < p.1
  received : ∀ p ∈ s.fins, s.connected = true → s.reset = false → p.2 ≤ p.1
  eof : ∀ p ∈ s.fins, s.seq.isClosed = true → p.1 ≤ s.buf.totalBytesRead ∧
    (s.stopped = false → p.1 ≤ s.taken)

/-- A FIN that is accepted names at least the end of what has been received, or comes with data that
    is rejected since its end wraps; and it names the last offset again if that is what an earlier one
    did. -/
def LawfulFin (s : ReceiveStream) (f : StreamFrame) : Prop :=
  ((s.counted f).window.highestReceivedByteOffset ≤ f.endOffset ∨
      (2 ^ 64 ≤ f.offset + f.data.length ∧ s.buf.totalBytesRead < f.endOffset)) ∧
    (s.fins ≠ [] → s.seq.closeOffset = maxOffset → f.endOffset = maxOffset)

/-- The data of the frame is taken, and with it every byte up to `offset` has arrived. -/
def FillsUpTo (s : ReceiveStream) (f : StreamFrame) (offset : ℕ) : Prop :=
  f.data ≠ [] ∧ f.offset = first maxOffset (s.gapsFor f) ∧
    f.offset + f.data.length ≤ (s.buf.totalBytesRead + s.buf.cap) % 2 ^ 64 ∧
    (∀ x, f.offset ≤ x → x < f.offset + f.data.length → Missing (s.gapsFor f) x) ∧
    ∀ x ≤ offset, Missing (s.gapsFor f) x → x < f.offset + f.data.length

/-- No frame gets past a check that is missing. -/
def Lawful (s : ReceiveStream) : ReceiveEvent → Prop
  | .frame f _ => s.Passes f →
    (f.fin = true → s.seq.closeMismatch f.endOffset = false → s.LawfulFin f) ∧
      ∀ p ∈ s.fins, ¬ s.FillsUpTo f p.1
  | _ => True

/-! ## What lawful runs keep -/

/-- While `IsEOF` closes the read side, `settled` is left open. -/
structure Law (settled : Prop) (s : ReceiveStream) : Prop where
  last : ∀ p ∈ s.fins, p.1 = s.seq.closeOffset
  unset : s.fins = [] → s.seq.closeOffset = maxOffset
  received : ∀ p ∈ s.fins, s.connected = true → s.reset = false → p.2 ≤ p.1
  readable : s.fins ≠ [] → s.buf.totalBytesRead < s.buf.firstGap → s.buf.firstGap ≤ s.seq.closeOffset
  taken : s.stopped = false → s.seq.ignoreReadData = false → s.taken = s.buf.totalBytesRead
  ended : s.stopped = false → s.seq.ignoreReadData = true →
    s.seq.closeOffset ≤ s.taken ∧ (settled → s.readSideClosed = true)

theorem Law.finalSize (h : Law P s) : FinalSize s where
  readable p hp x hx hx' := by
    rw [h.last p hp]
    exact hx'.trans_le (h.readable (List.ne_nil_of_mem hp) (hx.trans_lt hx'))
  received := h.received
  eof p hp hcl := by
    have hle : s.seq.closeOffset ≤ s.buf.totalBytesRead := by
      simpa [Sequencer.isClosed, buf] using hcl
    rw [h.last p hp]
    refine ⟨hle, fun hst => ?_⟩
    cases hign : s.seq.ignoreReadData with
    | false => rwa [h.taken hst hign]
    | true => exact (h.ended hst hign).1

theorem Law.congr (h : Law P s) (hq : s'.seq = s.seq) (hf : s'.fins = s.fins)
    (hc : s'.connected = true → s.connected = true) (hr : s'.reset = false → s.reset = false)
    (ht : s'.taken = s.taken) (hst : s'.stopped = false → s.stopped = false)
    (ho : s.readSideClosed = true → s'.readSideClosed = true) : Law P s' where
  last := by rw [hf, hq]; exact h.last
  unset := by rw [hf, hq]; exact h.unset
  received := by
    rw [hf]
    exact fun p hp h1 h2 => h.received p hp (hc h1) (hr h2)
  readable := by
    rw [hf, buf, hq]
    exact h.readable
  taken := by
    rw [ht, buf, hq]
    exact fun h1 => h.taken (hst h1)
  ended := by
    rw [ht, hq]
    exact fun h1 h2 => ⟨(h.ended (hst h1) h2).1, fun hp => ho ((h.ended (hst h1) h2).2 hp)⟩

theorem firstGap_of_gaps {b : SequencerBuffer} {lo hi : ℕ} (h : b.gaps = [⟨lo, hi⟩]) :
    b.firstGap = lo := by
  simp [firstGap, first, h]

theorem Law.closes (h : Law P s) (hc : Closes s s') : Law P s' where
  last := by rw [hc.fins, hc.closeOffset]; exact h.last
  unset := by rw [hc.fins, hc.closeOffset]; exact h.unset
  received := by
    rw [hc.fins]
    intro p hp h1 h2
    refine h.received p hp (hc.connected h1) ?_
    cases hr : s.reset with
    | false => rfl
    | true => rw [hc.reset hr] at h2; cases h2
  readable := by
    rw [hc.fins, hc.closeOffset, hc.total]
    rcases hc.gaps with hg | hg
    · have hfirst : s'.buf.firstGap = s.buf.firstGap := by unfold firstGap; rw [hg]
      rw [hfirst]
      exact h.readable
    · rw [firstGap_of_gaps hg]
      exact fun _ hlt => absurd hlt (lt_irrefl _)
  taken := by rw [hc.stopped, hc.ignoreReadData, hc.taken, hc.total]; exact h.taken
  ended := by
    rw [hc.stopped, hc.ignoreReadData, hc.taken, hc.closeOffset]
    exact fun h1 h2 => ⟨(h.ended h1 h2).1, fun hp => hc.readSideClosed ((h.ended h1 h2).2 hp)⟩

/-! ## Consumption -/

theorem Law.addBytesConsumed (h : Law P s) (n : ℕ) : Law P (s.addBytesConsumed env n) := by
  have hs : Law P ((s.consumeStream env n).consumeConn env n) := by
    unfold consumeStream
    split
    · exact h.congr rfl rfl id id rfl id id
    · exact h.congr rfl rfl id id rfl id id
  unfold ReceiveStream.addBytesConsumed
  split
  · exact hs.closes (closes_closeConnection _ env)
  · exact hs

theorem Law.advance {b : SequencerBuffer} (h : Law P s) (ht : b.totalBytesRead = s.buf.totalBytesRead + n)
    (hg : b.gaps = s.buf.gaps) : Law P { s.setBuf b with taken := s.taken + n } where
  last := h.last
  unset := h.unset
  received := h.received
  readable hf hlt := by
    have hfirst : b.firstGap = s.buf.firstGap := by unfold firstGap; rw [hg]
    have hlt : b.totalBytesRead < b.firstGap := hlt
    show b.firstGap ≤ s.seq.closeOffset
    rw [hfirst] at hlt ⊢
    exact h.readable hf (by omega)
  taken h1 h2 := by
    have := h.taken h1 h2
    show s.taken + n = b.totalBytesRead
    omega
  ended h1 h2 := by
    have := h.ended h1 h2
    exact ⟨by show s.seq.closeOffset ≤ s.taken + n; omega, this.2⟩

theorem Law.readv (h : Law P s) (hs : Sane s) (lens : List ℕ) : Law P (s.readv env lens) := by
  obtain ⟨-, h2, h3, -⟩ := readv_fields lens hs.live.total_le_firstGap
  unfold ReceiveStream.readv
  revert h2 h3
  rcases s.buf.readv lens with ⟨b, chunks, _ | e⟩
  · intro hg ht
    exact (h.advance ht hg).addBytesConsumed _
  · intro hg ht
    exact (h.advance ht hg).closes (closes_closeConnection _ env)

theorem Law.markConsumed (h : Law P s) (hs : Sane s) (n : ℕ) : Law P (s.markConsumed env n) := by
  unfold ReceiveStream.markConsumed
  split
  · exact h.closes (closes_resetStream s env)
  · next b hb =>
    obtain ⟨-, -, ht, hg⟩ := hs.live.markConsumed hb
    exact (h.advance ht hg).addBytesConsumed n

/-! ## The end of the stream -/

theorem Law.flush (h : Law P s) (hign : s.seq.ignoreReadData = true) :
    Law P { s with seq := s.seq.flush } := by
  have htot : s.seq.flush.bufferedFrames.totalBytesRead = s.buf.lastGap := clear_total _
  have hgaps : s.seq.flush.bufferedFrames.gaps = [⟨s.buf.lastGap, maxOffset⟩] := clear_gaps _
  refine ⟨h.last, h.unset, h.received, fun _ hlt => ?_, fun _ h2 => ?_, h.ended⟩
  · have hlt : s.seq.flush.bufferedFrames.totalBytesRead < s.seq.flush.bufferedFrames.firstGap := hlt
    rw [htot, firstGap_of_gaps hgaps] at hlt
    exact absurd hlt (lt_irrefl _)
  · have h2 : s.seq.ignoreReadData = false := h2
    rw [hign] at h2
    cases h2

theorem Law.flushBufferedFrames (h : Law P s) (hign : s.seq.ignoreReadData = true) :
    Law P (s.flushBufferedFrames env) :=
  ((h.flush hign).addBytesConsumed _).closes (closes_maybeFinRead _ env)

theorem maybeFinRead_closed (hcl : s.seq.isClosed = true) (env : StreamEnv) :
    (s.maybeFinRead env).readSideClosed = true := by
  unfold maybeFinRead
  rw [if_pos hcl]
  exact (closes_closeReadSide { s with finReceived := true } env).2

theorem addBytesConsumed_seq (s : ReceiveStream) (env : StreamEnv) (n : ℕ) :
    (s.addBytesConsumed env n).seq.closeOffset = s.seq.closeOffset ∧
      (s.addBytesConsumed env n).buf.totalBytesRead = s.buf.totalBytesRead := by
  have hseq : ((s.consumeStream env n).consumeConn env n).seq = s.seq := by
    unfold consumeStream
    split <;> rfl
  have hc := closes_closeConnection ((s.consumeStream env n).consumeConn env n) env
  unfold addBytesConsumed
  split
  · exact ⟨by rw [hc.closeOffset, hseq], by rw [hc.total, buf, hseq]; rfl⟩
  · exact ⟨by rw [hseq], by rw [buf, hseq]; rfl⟩

theorem Law.isEOF (h : Law P s) (hs : Sane s) : Law P (s.isEOF env) := by
  unfold ReceiveStream.isEOF
  split
  swap
  · exact h
  next hcl =>
  unfold ReceiveStream.stopReading
  split
  · exact h
  next hign =>
  have hign : s.seq.ignoreReadData = false := by simpa using hign
  have hle : s.seq.closeOffset ≤ s.buf.totalBytesRead := by simpa [Sequencer.isClosed, buf] using hcl
  have h₁ : Law False { s with seq := { s.seq with ignoreReadData := true } } :=
    ⟨h.last, h.unset, h.received, h.readable, fun _ h2 => Bool.noConfusion h2,
      fun h1 _ => ⟨(h.taken h1 hign).symm ▸ hle, False.elim⟩⟩
  have h₂ : Law False (ReceiveStream.flushBufferedFrames _ env) := h₁.flushBufferedFrames rfl
  refine ⟨h₂.last, h₂.unset, h₂.received, h₂.readable, h₂.taken,
    fun h1 h3 => ⟨(h₂.ended h1 h3).1, fun _ => ?_⟩⟩
  refine maybeFinRead_closed ?_ env
  obtain ⟨hoff, htot⟩ := addBytesConsumed_seq { s with seq :=
    ({ s.seq with ignoreReadData := true } : Sequencer).flush } env s.buf.flushBufferedFrames.2
  have hflush : ({ s.seq with ignoreReadData := true } : Sequencer).flush.bufferedFrames.totalBytesRead =
    s.buf.lastGap := clear_total _
  have hlast := hs.live.total_le_lastGap
  rw [Sequencer.isClosed, decide_eq_true_iff]
  refine hoff.le.trans (le_trans ?_ htot.ge)
  show s.seq.closeOffset ≤
    ({ s.seq with ignoreReadData := true } : Sequencer).flush.bufferedFrames.totalBytesRead
  omega

theorem Law.stop (h : Law P s) : Law P { s with stopped := true } :=
  h.congr rfl rfl id id rfl (nomatch ·) id

theorem Law.stopReading (h : Law P s) (hst : s.stopped = true) : Law P (s.stopReading env) := by
  unfold ReceiveStream.stopReading
  split
  · exact h
  · refine Law.flushBufferedFrames ⟨h.last, h.unset, h.received, h.readable, fun h1 => ?_,
      fun h1 => ?_⟩ rfl
    · have h1 : s.stopped = false := h1
      rw [hst] at h1
      cases h1
    · have h1 : s.stopped = false := h1
      rw [hst] at h1
      cases h1

/-! ## Frames -/

/-- The data of a frame, if it does not go past the end when it is stored. -/
theorem Law.onFrameData (h : Law P s) (hs : Sane s)
    (hdata : ∀ b, WF s.buf → Stored s.buf b f.offset f.data → f.offset + f.data.length ≤
      (s.buf.totalBytesRead + s.buf.cap) % 2 ^ 64 → s.fins ≠ [] → s.buf.firstGap = f.offset →
      b.firstGap ≤ s.seq.closeOffset) : Law P (s.onFrameData env f) := by
  unfold ReceiveStream.onFrameData
  split
  · exact h.closes (closes_closeConnection s env)
  next b n hb =>
  have hl := f.data_lt
  rcases hs.live.onStreamData f.offset_lt (by omega) hb with ⟨rfl, rfl⟩ | ⟨rfl, hwf, hst, hwin⟩
  · exact h
  have hs' : Law P (s.setBuf b) := by
    refine ⟨h.last, h.unset, h.received, fun hne hlt => ?_, ?_, h.ended⟩
    · show b.firstGap ≤ s.seq.closeOffset
      have hlt : b.totalBytesRead < b.firstGap := hlt
      by_cases hfirst : s.buf.firstGap = f.offset
      · exact hdata b hwf hst hwin hne hfirst
      · rw [hst.firstGap_eq hfirst, hst.total] at hlt
        rw [hst.firstGap_eq hfirst]
        exact h.readable hne hlt
    · show _ → _ → s.taken = b.totalBytesRead
      rw [hst.total]
      exact h.taken
  have hpos := hst.pos
  rw [if_neg (by omega)]
  unfold notify
  split
  · next hn => exact hs'.flushBufferedFrames hn.2
  · exact hs'

theorem Sane.firstGap_le (h : Sane s) (hr : s.readSideClosed = false)
    (hlt : s.buf.totalBytesRead < s.buf.firstGap) :
    s.buf.firstGap ≤ s.window.highestReceivedByteOffset := by
  have hmax := h.live.firstGap_le_max
  have := (h.counted hr).received (s.buf.firstGap - 1) (by omega) (by omega)
    (h.live.not_missing (by omega))
  omega

theorem Law.fin_eq (h : Law P s) (hm : s.seq.closeMismatch n = false)
    (hmax : s.fins ≠ [] → s.seq.closeOffset = maxOffset → n = maxOffset) :
    ∀ p ∈ s.fins, p.1 = n := by
  intro p hp
  by_cases hoff : s.seq.closeOffset = maxOffset
  · rw [h.last p hp, hoff, hmax (List.ne_nil_of_mem hp) hoff]
  · simp [Sequencer.closeMismatch, hoff] at hm
    rw [h.last p hp, hm]

/-- A FIN that names at least the end of what has been received is accepted. -/
theorem Law.acceptFin (h : Law P s) (hs : Sane s) (hr : s.readSideClosed = false) (hp : P)
    (hm : s.seq.closeMismatch n = false) (hle : s.window.highestReceivedByteOffset ≤ n)
    (hmax : s.fins ≠ [] → s.seq.closeOffset = maxOffset → n = maxOffset) : Law P (s.acceptFin n) where
  last p hp := by
    rcases List.mem_cons.1 hp with rfl | hp
    · rfl
    · exact h.fin_eq hm hmax p hp
  unset hf := by cases hf
  received p hp h1 h2 := by
    rcases List.mem_cons.1 hp with rfl | hp
    · exact hle
    · exact h.received p hp h1 h2
  readable _ hlt := (hs.firstGap_le hr hlt).trans hle
  taken := h.taken
  ended h1 h2 := by
    have hcl := (h.ended h1 h2).2 hp
    rw [hr] at hcl
    cases hcl

theorem Law.takeFin (h : Law P s) (hs : Sane s) (hr : s.readSideClosed = false) (hp : P)
    (hfin : f.fin = true → s.seq.closeMismatch f.endOffset = false →
      s.window.highestReceivedByteOffset ≤ f.endOffset ∧
        (s.fins ≠ [] → s.seq.closeOffset = maxOffset → f.endOffset = maxOffset)) :
    Law P (s.takeFin env f) := by
  rcases takeFin_cases s env f with ⟨ht, hf⟩ | ⟨ht, hf, hm⟩ | ⟨hf, hm, ⟨ht, -⟩ | ⟨hle, ht | ⟨ht, -⟩⟩⟩
  · rw [ht]
    exact h
  · rw [ht]
    exact h.closes (closes_resetStream s env)
  all_goals
    have hacc := h.acceptFin hs hr hp hm (hfin hf hm).1 (hfin hf hm).2
    rw [ht]
  · exact hacc
  · exact hacc.closes (closes_maybeFinRead _ env)
  · exact hacc.congr rfl rfl id id rfl id id

/-- Data whose end wraps, before a FIN that has not been reached, is rejected. -/
theorem Sane.wrapped_rejected (h : Sane s) (hw : 2 ^ 64 ≤ f.offset + f.data.length)
    (ht : s.buf.totalBytesRead < f.endOffset) : ∃ e, s.buf.onStreamData f.offset f.data = .error e := by
  have hl := f.data_lt
  have ho := f.offset_lt
  have hcap := h.cap
  have hlim := ring_size
  have hmax : maxOffset = 2 ^ 64 - 1 := rfl
  have hend : f.endOffset = f.offset + f.data.length - 2 ^ 64 := by
    unfold StreamFrame.endOffset
    omega
  cases hr : s.buf.onStreamData f.offset f.data with
  | error e => exact ⟨e, rfl⟩
  | ok r =>
    rcases h.live with hwf | hsp
    · rcases onStreamData_cases hwf ho (by omega) hr with ⟨-, -, hlt, hm, -⟩ | ⟨-, hst, hwin⟩
      · exact absurd (hwf.window _ (by omega) hlt) hm
      · have := Nat.mod_lt (s.buf.totalBytesRead + s.buf.cap) (by decide : 0 < 2 ^ 64)
        omega
    · have := hsp.total
      omega

theorem takeFin_gaps (h : Sane s) (hp : Receptive s) (hpos : 0 < f.data.length)
    (hend : f.endOffset = f.offset + f.data.length)
    (hm : Missing (s.takeFin env f).buf.gaps f.offset) : (s.takeFin env f).buf.gaps = s.gapsFor f := by
  rcases takeFin_cases s env f with ⟨ht, hf⟩ | ⟨ht, hf, hmis⟩ | ⟨hf, hmis, ⟨ht, -⟩ | ⟨hle, -⟩⟩
  · simp [ht, gapsFor, hf]
  · have hclear := resetStream_cleared hp env
    rw [Cleared, (closes_resetStream s env).total] at hclear
    simp [ht, gapsFor, hf, hmis, hclear]
  · rw [ht, gapsFor, hf, hmis]
    rfl
  · -- the end has been consumed before
    have := (h.takeFin hp.idle env f).1.live.missing_ge hm
    rw [(takeFin_window s env f).2.1] at this
    omega

theorem takeFin_fins (s : ReceiveStream) (env : StreamEnv) (f : StreamFrame) :
    ((s.takeFin env f).fins = s.fins ∧ (s.takeFin env f).seq.closeOffset = s.seq.closeOffset) ∨
      (f.fin = true ∧ s.seq.closeMismatch f.endOffset = false ∧
        (s.takeFin env f).seq.closeOffset = f.endOffset) := by
  have hc := closes_maybeFinRead (s.acceptFin f.endOffset) env
  rcases takeFin_cases s env f with ⟨ht, hf⟩ | ⟨ht, hf, hm⟩ | ⟨hf, hm, ⟨ht, -⟩ | ⟨hle, ht | ⟨ht, -⟩⟩⟩
  · rw [ht]
    exact .inl ⟨rfl, rfl⟩
  · rw [ht]
    exact .inl ⟨(closes_resetStream s env).fins, (closes_resetStream s env).closeOffset⟩
  all_goals
    rw [ht]
    refine .inr ⟨hf, hm, ?_⟩
  · rfl
  · exact hc.closeOffset
  · rfl

/-- The data is stored: it does not close the gap before the final offset. -/
theorem Law.sequence_data {b : SequencerBuffer} (h : Law P s) (hs : Sane s)
    (hp : Receptive s)
    (hfin : f.fin = true → s.seq.closeMismatch f.endOffset = false →
      s.window.highestReceivedByteOffset ≤ f.endOffset)
    (hfill : ∀ p ∈ s.fins, ¬ s.FillsUpTo f p.1) (hwf : WF (s.takeFin env f).buf)
    (hst : Stored (s.takeFin env f).buf b f.offset f.data)
    (hwin : f.offset + f.data.length ≤
      ((s.takeFin env f).buf.totalBytesRead + (s.takeFin env f).buf.cap) % 2 ^ 64)
    (hne : (s.takeFin env f).fins ≠ []) (hfirst : (s.takeFin env f).buf.firstGap = f.offset) :
    b.firstGap ≤ (s.takeFin env f).seq.closeOffset := by
  obtain ⟨-, htot, hcap⟩ := takeFin_window s env f
  rw [htot, hcap] at hwin
  have hpos := hst.pos
  have hend : f.endOffset = f.offset + f.data.length := Nat.mod_eq_of_lt (by omega)
  have hmiss : ∀ x, f.offset ≤ x → x < f.offset + f.data.length →
      Missing (s.takeFin env f).buf.gaps x := by
    obtain ⟨p, g, q, hg, hlo, hhi, -⟩ := hst.gaps
    exact fun x hx hx' => ⟨g, by simp [hg], by omega, by omega⟩
  have hgaps := takeFin_gaps hs hp hpos hend (hmiss f.offset le_rfl (by omega))
  -- an offset that stays missing bounds the first gap
  have hbound : ∀ x, Missing (s.takeFin env f).buf.gaps x → f.offset + f.data.length ≤ x →
      b.firstGap ≤ x :=
    fun x hx hx' => first_le (hst.wf hwf).sorted ((hst.missing hwf).2 ⟨hx, by omega⟩)
  rcases takeFin_fins s env f with ⟨hfins, hclose⟩ | ⟨hf, hm, hclose⟩
  · obtain ⟨p, hpm⟩ := List.exists_mem_of_ne_nil _ (hfins ▸ hne)
    have hnot := hfill p hpm
    rw [hclose, ← h.last p hpm]
    by_contra hcon
    refine hnot ⟨List.length_pos_iff.1 hpos, ?_, hwin, hgaps ▸ hmiss, fun x hx hxm => ?_⟩
    · rw [← hgaps]
      exact hfirst.symm
    · by_contra hge
      have := hbound x (hgaps ▸ hxm) (by omega)
      omega
  · -- the frame carries the FIN: nothing behind it has been received
    have hle := hfin hf hm
    have hcount := hs.counted hp.reading
    have htop := (hst.wf hwf).firstGap_le_max
    rw [hclose]
    by_cases hmax : f.endOffset < maxOffset
    · refine hbound _ ?_ hend.ge
      have hs' : Missing s.buf.gaps f.endOffset := by
        by_contra hnm
        have := hcount.received f.endOffset (hcount.total.trans hle) hmax hnm
        omega
      rw [hgaps, gapsFor, hf, hm]
      exact hs'
    · omega

theorem closeConnection_connected (s : ReceiveStream) (env : StreamEnv) :
    (s.closeConnection env).connected = false := by
  unfold closeConnection
  split
  · split
    · rfl
    · have hc := (closes_closeWriteSide { s with connected := false } env).trans
        (closes_closeReadSide _ env).1
      exact Bool.eq_false_of_not_eq_true fun h => nomatch hc.connected h
  · next h => simpa using h

theorem Law.dropped (h : Law P s) (hP : P) (hp : Receptive s) (env : StreamEnv)
    (hlast : ∀ p ∈ s.fins, p.1 = n) : Law P ((s.acceptFin n).closeConnection env) := by
  have hc := closes_closeConnection (s.acceptFin n) env
  have hconn := closeConnection_connected (s.acceptFin n) env
  have hclear := closeConnection_cleared (s := s.acceptFin n) hp.connected hp.reading env
  refine ⟨fun p hpm => ?_, fun hf => ?_, fun p _ h1 => ?_, fun _ hlt => ?_, ?_, fun h1 h2 => ?_⟩
  · rw [hc.fins] at hpm
    rw [hc.closeOffset]
    rcases List.mem_cons.1 hpm with rfl | hpm
    · rfl
    · exact hlast p hpm
  · rw [hc.fins] at hf
    cases hf
  · rw [hconn] at h1
    cases h1
  · rw [firstGap_of_gaps hclear] at hlt
    exact absurd hlt (lt_irrefl _)
  · rw [hc.stopped, hc.ignoreReadData, hc.taken, hc.total]
    exact h.taken
  · rw [hc.stopped] at h1
    rw [hc.ignoreReadData] at h2
    have hcl := (h.ended h1 h2).2 hP
    rw [hp.reading] at hcl
    cases hcl

theorem Law.sequence (h : Law P s) (hs : Sane s) (hP : P) (hp : Receptive s)
    (hfin : f.fin = true → s.seq.closeMismatch f.endOffset = false →
      (s.window.highestReceivedByteOffset ≤ f.endOffset ∨
        (2 ^ 64 ≤ f.offset + f.data.length ∧ s.buf.totalBytesRead < f.endOffset)) ∧
        (s.fins ≠ [] → s.seq.closeOffset = maxOffset → f.endOffset = maxOffset))
    (hfill : ∀ p ∈ s.fins, ¬ s.FillsUpTo f p.1) : Law P (s.sequence env f) := by
  by_cases hwrap : f.fin = true ∧ s.seq.closeMismatch f.endOffset = false ∧
      2 ^ 64 ≤ f.offset + f.data.length ∧ s.buf.totalBytesRead < f.endOffset
  · -- the data is rejected after the FIN has been accepted
    obtain ⟨hf, hm, hw, ht⟩ := hwrap
    have hne : f.data ≠ [] := by
      intro hnil
      have := f.offset_lt
      rw [hnil, List.length_nil] at hw
      omega
    have htake : s.takeFin env f = s.acceptFin f.endOffset := by
      rcases takeFin_cases s env f with ⟨-, hf'⟩ | ⟨-, -, hm'⟩ | ⟨-, -, ⟨he, -⟩ | ⟨hle, -⟩⟩
      · rw [hf] at hf'; cases hf'
      · rw [hm] at hm'; cases hm'
      · exact he
      · omega
    obtain ⟨e, he⟩ := hs.wrapped_rejected hw ht
    have hbuf : (s.acceptFin f.endOffset).buf.onStreamData f.offset f.data = .error e := he
    have hcb : (s.acceptFin f.endOffset).callback = Option.none := hp.idle
    unfold ReceiveStream.sequence
    rw [htake, if_neg (fun hd => hne hd.2), hcb]
    simp only [ReceiveStream.onFrameData, hbuf]
    exact h.dropped hP hp env (h.fin_eq hm (hfin hf hm).2)
  · have hfin' : f.fin = true → s.seq.closeMismatch f.endOffset = false →
        s.window.highestReceivedByteOffset ≤ f.endOffset := by
      intro hf hm
      rcases (hfin hf hm).1 with hle | hw
      · exact hle
      · exact absurd ⟨hf, hm, hw⟩ hwrap
    have ht : Law P (s.takeFin env f) :=
      h.takeFin hs hp.reading hP fun hf hm => ⟨hfin' hf hm, (hfin hf hm).2⟩
    unfold ReceiveStream.sequence
    dsimp only
    split
    · exact ht
    split
    · exact ht.congr rfl rfl id id rfl id id
    · exact ht.onFrameData (hs.takeFin hp.idle env f).1 fun b hwf hst hwin hne hfirst =>
        h.sequence_data hs hp hfin' hfill hwf hst hwin hne hfirst

theorem Law.counted (h : Law P s) (f : StreamFrame) : Law P (s.counted f) := by
  rcases counted_cases s f with ⟨he, -⟩ | ⟨-, -, conn, he⟩
  · rw [he]
    exact h
  · rw [he]
    exact h.congr rfl rfl id id rfl id id

theorem Law.noteFin (h : Law P s) (f : StreamFrame) : Law P (s.noteFin f) :=
  h.congr rfl rfl id id rfl id id

theorem Law.onStreamFrame (h : Law P s) (hs : Sane s) (hP : P) (hidle : s.callback = Option.none)
    (hconn : s.connected = true) (hcl : s.closed = false) (hl : s.Lawful (.frame f env)) :
    Law P (s.onStreamFrame env f) := by
  have hsane : Sane (s.noteFin f) := hs.congr rfl rfl rfl rfl hs.pending
  unfold ReceiveStream.onStreamFrame
  split
  · exact h.noteFin f
  next hr =>
  split
  · exact ((h.noteFin f).counted f).closes (closes_closeConnection _ env)
  next hv =>
  have hr : s.readSideClosed = false := by simpa using hr
  have hv : s.violates f = false := by simpa using hv
  obtain ⟨hfin, hfill⟩ := hl ⟨⟨hconn, hcl, hidle, hr⟩, hv⟩
  obtain ⟨hseq, hcb', hr', hconn', hcl', -⟩ := counted_fields s f
  have hsc : Sane ((s.noteFin f).counted f) := hsane.counted_frame (by rw [violates_noteFin]; exact hv)
  have hfins : (s.counted f).fins = s.fins := by
    rcases counted_cases s f with ⟨he, -⟩ | ⟨-, -, conn, he⟩ <;> rw [he]
  rw [counted_noteFin] at hsc ⊢
  have hbuf : ((s.counted f).noteFin f).buf = s.buf := congrArg Sequencer.bufferedFrames hseq
  have hgaps : ((s.counted f).noteFin f).gapsFor f = s.gapsFor f := by
    show (if f.fin && (s.counted f).seq.closeMismatch f.endOffset then
      [⟨(s.counted f).seq.bufferedFrames.totalBytesRead, maxOffset⟩]
      else (s.counted f).seq.bufferedFrames.gaps) = _
    rw [hseq]
    rfl
  refine ((h.counted f).noteFin f).sequence hsc hP
    ⟨hconn'.trans hconn, hcl'.trans hcl, hcb'.trans hidle, hr'.trans hr⟩ ?_ ?_
  · show _ → (s.counted f).seq.closeMismatch _ = _ → _ ∧ ((s.counted f).fins ≠ [] →
      (s.counted f).seq.closeOffset = _ → _)
    rw [hseq, hfins, hbuf]
    exact hfin
  · show ∀ p ∈ (s.counted f).fins, _
    rw [hfins]
    unfold FillsUpTo
    rw [hbuf, hgaps]
    exact hfill

theorem Law.onStreamReset (h : Law P s) : Law P (s.onStreamReset env n) := by
  have hn : Law P (s.noteRst n) := by
    unfold noteRst maybeIncreaseHighestReceivedOffset
    split
    · exact h.congr rfl rfl id (nomatch ·) rfl id id
    · exact h.congr rfl rfl id (nomatch ·) rfl id id
  unfold ReceiveStream.onStreamReset
  split
  · exact hn.closes (closes_closeConnection _ env)
  · exact (hn.closes (closes_closeWriteSide _ env)).closes (closes_closeReadSide _ env).1

/-- The data of a frame whose FIN has been reached is not stored. -/
theorem Law.resume {d : Option StreamFrame} (h : Law P s) (hs : Sane s) (hd : s.callback = some d) :
    Law P (s.resume env d) := by
  have hn : Law P { s with callback := Option.none } := h.congr rfl rfl id id rfl id id
  have hsn : Sane { s with callback := Option.none } := hs.congr rfl rfl rfl rfl fun d hd => by cases hd
  have hcl := closes_clearBuf { s with callback := Option.none }
  obtain ⟨hle, hend⟩ := hs.pending d hd
  cases d with
  | none => exact hn.closes hcl
  | some f =>
    refine (hn.closes hcl).onFrameData (hsn.closes hcl) fun b hwf hst hwin _ _ => ?_
    have hsum : f.endOffset = f.offset + f.data.length := Nat.mod_eq_of_lt (by omega)
    have hpos := hst.pos
    have hge := (hst.firstGap_le_offset hwf).trans' hwf.total_le_firstGap
    have htot : { s with callback := Option.none }.clearBuf.buf.totalBytesRead =
        s.buf.totalBytesRead := hcl.total
    have := hend f rfl
    omega

theorem Law.step {e : ReceiveEvent} (h : Law True s) (hs : Sane s) (hl : s.Lawful e)
    (hst : s.step e = some s') : Law True s' := by
  cases e with
  | frame f env =>
    simp only [ReceiveStream.step] at hst
    split at hst
    · next hc =>
      simp only [Bool.and_eq_true, Option.isNone_iff_eq_none, Bool.not_eq_true'] at hc
      cases hst
      exact h.onStreamFrame hs trivial hc.2 hc.1.1 hc.1.2 hl
    · cases hst
  | rstStream byteOffset env =>
    simp only [ReceiveStream.step] at hst
    split at hst
    · cases hst
      exact h.onStreamReset
    · cases hst
  | readv lens env => cases hst; exact h.readv hs lens
  | markConsumed n env => cases hst; exact h.markConsumed hs n
  | isEOF env => cases hst; exact h.isEOF hs
  | stopReading env => cases hst; exact h.stop.stopReading rfl
  | reset env => cases hst; exact h.closes (closes_resetStream s env)
  | finSent env => cases hst; exact h.closes (closes_closeWriteSide s env)
  | connClosed env => cases hst; exact h.closes (closes_closeConnection s env)
  | updateReceiveWindowSize size =>
    simp only [ReceiveStream.step] at hst
    split at hst
    · cases hst
      exact h.congr rfl rfl id id rfl id id
    · cases hst
  | connWindow w => cases hst; exact h.congr rfl rfl id id rfl id id
  | ret env =>
    obtain ⟨d, hd, rfl⟩ := Option.map_eq_some_iff.1 hst
    exact h.resume hs hd

theorem law_new {autoTune : Bool} {conn : ReceiveWindow} : Law P (new n autoTune conn) where
  last p hp := by cases hp
  unset _ := rfl
  received p hp := by cases hp
  readable hf := absurd rfl hf
  taken _ _ := rfl
  ended _ h := by cases h

/-- **The final size of a stream** is respected in every run in which no frame gets past a check that
    is missing, whatever else the peer sends and however the application reads. -/
theorem final_size {autoTune : Bool} {conn : ReceiveWindow} {es : List ReceiveEvent}
    (hn : n ≤ kStreamReceiveWindowLimit) (hl : Along step Lawful (new n autoTune conn) es)
    (h : run step (new n autoTune conn) es = some s) : FinalSize s := by
  have hinv : Sane s ∧ Law True s := by
    refine run_inv_along (I := fun s => Sane s ∧ Law True s) (fun s e s' hi hle hst => ?_)
      ⟨sane_new hn, law_new⟩ hl h
    exact ⟨hi.1.step hst, hi.2.step hi.1 hle hst⟩
  exact hinv.2.finalSize

/-- A stream with windows of 64 KB. -/
def fresh : ReceiveStream := new 65536 false (.new 65536 65536 false)

/-- The end of a stream of four bytes arrives before its beginning. -/
def backwards : List ReceiveEvent :=
  [.frame (.ofBytes 2 [7, 8] true) .calm, .frame (.ofBytes 0 [5, 6] false) .calm, .readv [4] .calm,
    .isEOF .calm]

theorem lawful_backwards : Along step Lawful fresh backwards := by
  refine ⟨fun _ => ⟨fun _ _ => ⟨.inl (by decide), fun h => absurd rfl h⟩, fun p hp => nomatch hp⟩, ?_⟩
  intro s₁ h₁
  refine ⟨fun _ => ⟨fun hf => (nomatch hf), fun p hp hfill => ?_⟩,
    fun _ _ => ⟨trivial, fun _ _ => ⟨trivial, fun _ _ => trivial⟩⟩⟩
  have h₁ : fresh.onStreamFrame .calm (.ofBytes 2 [7, 8] true) = s₁ := Option.some.inj h₁
  subst h₁
  have hfins : (fresh.onStreamFrame .calm (.ofBytes 2 [7, 8] true)).fins = [(4, 4)] := by decide +kernel
  have hgaps : (fresh.onStreamFrame .calm (.ofBytes 2 [7, 8] true)).gapsFor (.ofBytes 0 [5, 6] false) =
      [⟨0, 2⟩, ⟨4, maxOffset⟩] := by decide +kernel
  rw [hfins, List.mem_singleton] at hp
  subst hp
  -- the byte at the final offset itself is still missing and lies behind the second frame
  have hlt := hfill.2.2.2.2 4 le_rfl (hgaps ▸ ⟨⟨4, maxOffset⟩, by simp, by decide, by decide⟩)
  exact absurd hlt (by decide)

theorem final_size_backwards : ∃ s, run step fresh backwards = some s ∧ s.seq.isClosed = true ∧
    FinalSize s := by
  obtain ⟨s, hs, hcl⟩ := Option.map_eq_some_iff.1
    (by decide +kernel : (run step fresh backwards).map (·.seq.isClosed) = some true)
  exact ⟨s, hs, hcl, final_size (by decide) lawful_backwards hs⟩

/-! ## The missing checks -/

/-- What `FinalSize` looks at. -/
def observed (s : ReceiveStream) : List (ℕ × ℕ) × ℕ × ℕ × Bool × Bool × Bool :=
  (s.fins, s.buf.totalBytesRead, s.buf.firstGap, s.connected, s.reset, s.seq.isClosed)

theorem exists_broken {as : List ReceiveEvent} {v} (hv : (run step fresh as).map observed = some v)
    (h : ∀ s, FinalSize s → s.observed ≠ v) :
    ∃ s, run step fresh as = some s ∧ s.observed = v ∧ ¬ FinalSize s := by
  obtain ⟨s, hs, hp⟩ := Option.map_eq_some_iff.1 hv
  exact ⟨s, hs, hp, fun hf => h s hf hp⟩

/-- Four streams that break the law: a FIN at the second of two received bytes; a byte behind the FIN;
    one that comes with a second FIN; and a second FIN after one at the last offset. -/
theorem final_size_broken :
    (∃ s, run step fresh [.frame (.ofBytes 0 [5, 6] false) .calm,
      .frame (.ofBytes 1 [] true) .calm] = some s ∧
      s.observed = ([(1, 2)], 0, 2, true, false, false) ∧ ¬ FinalSize s) ∧
    (∃ s, run step fresh [.frame (.ofBytes 0 [5] true) .calm, .frame (.ofBytes 1 [6] false) .calm] =
      some s ∧
      s.observed = ([(1, 1)], 0, 2, true, false, false) ∧ ¬ FinalSize s) ∧
    (∃ s, run step fresh [.frame (.ofBytes 0 [5] true) .calm, .readv [1] .calm,
        .frame (.ofBytes 1 [6] true) .calm] = some s ∧
      s.observed = ([(1, 1)], 1, 2, true, true, true) ∧ ¬ FinalSize s) ∧
    ∃ s, run step fresh [.frame (.ofBytes maxOffset [] true) .calm,
      .frame (.ofBytes 0 [] true) .calm] = some s ∧
      s.observed = ([(0, 0), (maxOffset, 0)], 0, 0, true, false, true) ∧ ¬ FinalSize s := by
  refine ⟨exists_broken (by decide +kernel) fun s h hp => ?_,
    exists_broken (by decide +kernel) fun s h hp => ?_,
    exists_broken (by decide +kernel) fun s h hp => ?_, exists_broken (by decide +kernel)
      fun s h hp => ?_⟩
  all_goals
    simp only [observed, Prod.mk.injEq] at hp
    obtain ⟨h1, h2, h3, h4, h5, h6⟩ := hp
  · have := h.received (1, 2) (by simp [h1]) h4 h5
    omega
  · have := h.readable (1, 1) (by simp [h1]) 1 (by omega) (by omega)
    omega
  · have := h.readable (1, 1) (by simp [h1]) 1 (by omega) (by omega)
    omega
  · have hle := (h.eof (maxOffset, 0) (by simp [h1]) h6).1
    rw [h2] at hle
    exact absurd hle (by decide)

end ReceiveStream
end Puic
