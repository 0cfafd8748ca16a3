/-
  What flow control accepts fits into the buffer.

  A frame within the window of its stream is not rejected for lying beyond the ring,
  until `BytesConsumed() + kStreamReceiveWindowLimit` passes `2 ^ 64`: from then on
  the end of the ring, as `OnStreamData` computes it, lies before everything that can
  still arrive.  `fits_ring` says exactly which frames are rejected, and
  `rejected_at_the_end` gets to one.
-/
import Puic.ReceiveSane

namespace Puic

open GapList Machine

def beyondRange : DataError := ⟨.internalError, "Received data beyond available range."⟩

namespace SequencerBuffer

variable {b : SequencerBuffer} {offset : ℕ} {data : List UInt8}

/-- Data within the ring is rejected for lying beyond it when it is new and the end of the ring has
    wrapped. -/
theorem Live.beyond_iff (h : Live b) (hcap : b.cap ≤ 2 ^ 64) (he : offset + data.length < 2 ^ 64)
    (hfit : offset + data.length ≤ b.totalBytesRead + b.cap) :
    b.onStreamData offset data = .error beyondRange ↔
      data ≠ [] ∧ 2 ^ 64 ≤ b.totalBytesRead + b.cap ∧
        ∀ x, offset ≤ x → x < offset + data.length → Missing b.gaps x := by
  have hmax : maxOffset = 2 ^ 64 - 1 := rfl
  rcases h with h | h
  · unfold SequencerBuffer.onStreamData
    dsimp only
    rw [Nat.mod_eq_of_lt he]
    split
    · next hsize =>
      have hnil := List.length_eq_zero_iff.1 hsize
      simp [beyondRange, hnil]
    next hsize =>
    have hne : data ≠ [] := fun hd => hsize (by simp [hd])
    split
    · next hloc =>
      constructor
      · intro hr
        simp [beyondRange] at hr
      · rintro ⟨-, -, hall⟩
        obtain ⟨g, hg, -, hhi⟩ := hall offset le_rfl (by omega)
        have := locate_none hloc g hg
        omega
    next p g q hloc =>
    obtain ⟨hgaps, hp, hg⟩ := locate_some hloc
    have hs := h.sorted
    rw [hgaps] at hs
    obtain ⟨-, -, hlo, hlt, hq⟩ := hs.split
    have hmiss : ∀ x, offset ≤ x → Missing b.gaps x → g.lo ≤ x ∧ (x < g.hi ∨ g.hi + 1 ≤ x) := by
      intro x hx hm
      rw [hgaps, missing_append, missing_cons] at hm
      rcases hm with ⟨k, hk, -, hm⟩ | hm | hm
      · have := hp k hk
        omega
      · omega
      · have := hq.missing_ge hm
        omega
    by_cases hbefore : offset < g.lo
    · -- the first byte has arrived before
      have hnot : ¬ ∀ x, offset ≤ x → x < offset + data.length → Missing b.gaps x := fun hall => by
        have := hmiss offset le_rfl (hall offset le_rfl (by omega))
        omega
      rcases le_or_gt (offset + data.length) g.lo with hend | hend
      · rw [if_pos ⟨hbefore, hend⟩]
        simp [hnot]
      · rw [if_neg (by omega), if_pos ⟨hbefore, hend⟩]
        simp [hnot, beyondRange]
    rw [if_neg (by omega), if_neg (by omega)]
    split
    · next hend =>
      have hnot : ¬ ∀ x, offset ≤ x → x < offset + data.length → Missing b.gaps x := fun hall => by
        have := hmiss g.hi (by omega) (hall g.hi (by omega) (by omega))
        omega
      simp [hnot, beyondRange]
    next hend =>
    have hall : ∀ x, offset ≤ x → x < offset + data.length → Missing b.gaps x :=
      fun x hx hx' => ⟨g, by simp [hgaps], by omega, by omega⟩
    split
    · next hbeyond =>
      refine ⟨fun _ => ⟨hne, ?_, hall⟩, fun _ => rfl⟩
      by_contra hcon
      omega
    next hin =>
    have hsmall : ¬ 2 ^ 64 ≤ b.totalBytesRead + b.cap := by omega
    simp only [hsmall, false_and, and_false, iff_false]
    split <;> simp [beyondRange]
  · have hnot : ∀ x, ¬ Missing b.gaps x := by
      rintro x ⟨g, hg, hlo, hhi⟩
      rw [h.gaps, List.mem_singleton] at hg
      subst hg
      dsimp only at hlo hhi
      omega
    constructor
    · intro hr
      unfold SequencerBuffer.onStreamData at hr
      dsimp only at hr
      rw [Nat.mod_eq_of_lt he, h.gaps, locate] at hr
      split at hr
      · simp [beyondRange] at hr
      by_cases hlt : maxOffset ≤ offset
      · rw [if_pos hlt] at hr
        simp [locate, beyondRange] at hr
      · rw [if_neg hlt] at hr
        dsimp only at hr
        rw [if_pos ⟨by omega, by omega⟩] at hr
        cases hr
    · rintro ⟨hne, -, hall⟩
      have := List.length_pos_iff.2 hne
      exact absurd (hall offset le_rfl (by omega)) (hnot offset)

end SequencerBuffer

namespace ReceiveStream

open SequencerBuffer

variable {s : ReceiveStream} {env : StreamEnv} {f : StreamFrame} {n : ℕ}

/-- Somebody reads, and a frame can be processed. -/
structure Receptive (s : ReceiveStream) : Prop where
  connected : s.connected = true
  opened : s.closed = false
  idle : s.callback = none
  reading : s.readSideClosed = false

/-- A frame that gets to the sequencer: flow control finds no violation. -/
structure Passes (s : ReceiveStream) (f : StreamFrame) : Prop extends Receptive s where
  within : s.violates f = false

/-- The data of the frame is rejected for lying beyond the available range. -/
def Rejects (s : ReceiveStream) (f : StreamFrame) : Prop :=
  s.buf.onStreamData f.offset f.data = .error beyondRange

/-- It is so in the course of `OnStreamFrame`. -/
def RejectsFrame (s : ReceiveStream) (env : StreamEnv) (f : StreamFrame) : Prop :=
  (((s.noteFin f).counted f).takeFin env f).callback = none ∧
    (((s.noteFin f).counted f).takeFin env f).Rejects f

/-- The gaps that the data of a frame meets: a FIN at a second offset has reset the stream. -/
def gapsFor (s : ReceiveStream) (f : StreamFrame) : List Gap :=
  if f.fin && s.seq.closeMismatch f.endOffset then [⟨s.buf.totalBytesRead, maxOffset⟩] else s.buf.gaps

/-- New data comes when the end of the ring has passed `2 ^ 64`. -/
def Overshoots (s : ReceiveStream) (f : StreamFrame) : Prop :=
  f.data ≠ [] ∧ 2 ^ 64 ≤ s.buf.totalBytesRead + s.buf.cap ∧
    ∀ x, f.offset ≤ x → x < f.offset + f.data.length → Missing (s.gapsFor f) x

structure FitsRing (s : ReceiveStream) : Prop where
  window : (s.window.receiveWindowOffset : ℤ) - s.buf.totalBytesRead ≤ kStreamReceiveWindowLimit
  frame : ∀ f env, s.Passes f → f.offset + f.data.length < 2 ^ 64 →
    (s.RejectsFrame env f ↔ s.Overshoots f)
  resumed : ∀ f, s.callback = some (some f) → f.offset + f.data.length < 2 ^ 64 →
    ¬ { s with callback := none }.clearBuf.Rejects f

/-! ## What a reset leaves -/

def Cleared (s : ReceiveStream) : Prop := s.buf.gaps = [⟨s.buf.totalBytesRead, maxOffset⟩]

theorem Cleared.closes {s' : ReceiveStream} (h : Cleared s) (hc : Closes s s') : Cleared s' := by
  unfold Cleared at *
  rw [hc.total]
  rcases hc.gaps with hg | hg
  · rw [hg, h]
  · exact hg

theorem releaseRead_cleared (hr : s.readSideClosed = false) : Cleared s.releaseRead := by
  unfold releaseRead
  rw [if_neg (by simp [hr])]
  show [_] = [_]
  simp [buf, Sequencer.releaseBuffer, releaseWholeBuffer]

theorem closeStream_cleared (hc : s.closed = false) (hr : s.readSideClosed = false) (env : StreamEnv) :
    Cleared (s.closeStream env) := by
  unfold closeStream
  rw [if_neg (by simp [hc])]
  generalize (if s.finReceived || s.rstReceived then s.lateOffset
    else some s.window.highestReceivedByteOffset) = late
  have h : Cleared { s with closed := true, lateOffset := late }.releaseRead := releaseRead_cleared hr
  exact Cleared.closes (s := { { s with closed := true, lateOffset := late }.releaseRead with
    writeSideClosed := true }) h (closes_consumeRest _ env).1

theorem closeReadSide_cleared (hr : s.readSideClosed = false) (env : StreamEnv) :
    Cleared (s.closeReadSide env) := by
  unfold closeReadSide
  rw [if_neg (by simp [hr])]
  split
  · exact (releaseRead_cleared hr).closes (closes_closeStream _ env)
  · exact releaseRead_cleared hr

theorem closeConnection_cleared (hc : s.connected = true) (hr : s.readSideClosed = false)
    (env : StreamEnv) : Cleared (s.closeConnection env) := by
  unfold closeConnection
  rw [if_pos hc, if_neg (by simp [hr])]
  refine closeReadSide_cleared ?_ env
  unfold closeWriteSide
  split
  · exact hr
  · rw [if_neg (by simp [hr])]
    exact hr

theorem resetStream_cleared (hp : Receptive s) (env : StreamEnv) : Cleared (s.resetStream env) := by
  unfold resetStream
  split
  · exact (closeConnection_cleared (s := { s with reset := true }) hp.connected hp.reading env).closes
      (closes_closeStream _ env)
  · exact closeStream_cleared (s := { s with reset := true }) hp.opened hp.reading env

/-! ## Frames within the window -/

/-- The data of a frame meets the gaps as they were, or those that a reset leaves; where the FIN ends
    the stream they do not matter. -/
theorem takeFin_missing (env : StreamEnv) (h : Sane s) (hp : Receptive s)
    (he : f.offset + f.data.length < 2 ^ 64) (hd : f.data ≠ []) :
    ((s.takeFin env f).callback = s.callback ∧
        ((∀ x, f.offset ≤ x → x < f.offset + f.data.length → Missing (s.takeFin env f).buf.gaps x) ↔
          ∀ x, f.offset ≤ x → x < f.offset + f.data.length → Missing (s.gapsFor f) x)) ∨
      ((s.takeFin env f).callback ≠ none ∧ ¬ Missing (s.gapsFor f) f.offset) := by
  have hpos := List.length_pos_iff.2 hd
  have hend : f.endOffset = f.offset + f.data.length := Nat.mod_eq_of_lt he
  rcases takeFin_cases s env f with ⟨ht, hf⟩ | ⟨ht, hf, hm⟩ | ⟨hf, hm, ⟨ht, -⟩ | ⟨hle, ht | ⟨ht, -⟩⟩⟩
  · simp [ht, gapsFor, hf]
  · have hclear := resetStream_cleared hp env
    rw [Cleared, (closes_resetStream s env).total] at hclear
    refine .inl ⟨ht ▸ (closes_resetStream s env).callback, ?_⟩
    simp [ht, gapsFor, hf, hm, hclear]
  · rw [ht]
    refine .inl ⟨rfl, ?_⟩
    simp only [gapsFor, hf, hm, Bool.and_false, if_neg Bool.false_ne_true]
    rfl
  · -- the end has been consumed before, and nothing of the frame is missing
    have hcl := closes_maybeFinRead (s.acceptFin f.endOffset) env
    have hlive := ((h.acceptFin hp.idle f.endOffset).closes hcl).live
    have htot : ((s.acceptFin f.endOffset).maybeFinRead env).buf.totalBytesRead =
        s.buf.totalBytesRead := hcl.total
    rw [ht]
    refine .inl ⟨hcl.callback, ?_⟩
    simp only [gapsFor, hf, hm, Bool.and_false, if_neg Bool.false_ne_true]
    constructor
    · intro hall
      have := hlive.missing_ge (hall f.offset le_rfl (by omega))
      omega
    · intro hall
      have := h.live.missing_ge (hall f.offset le_rfl (by omega))
      omega
  · refine .inr ⟨by rw [ht]; simp, fun hmiss => ?_⟩
    simp only [gapsFor, hf, hm, Bool.and_false, if_neg Bool.false_ne_true] at hmiss
    have := h.live.missing_ge hmiss
    omega

theorem Sane.rejectsFrame_iff (h : Sane s) (hp : s.Passes f) (he : f.offset + f.data.length < 2 ^ 64)
    (env : StreamEnv) : s.RejectsFrame env f ↔ s.Overshoots f := by
  have hn : Sane (s.noteFin f) := h.congr rfl rfl rfl rfl h.pending
  have hc : Sane ((s.noteFin f).counted f) := hn.counted_frame (by rw [violates_noteFin]; exact hp.within)
  obtain ⟨hseq, hcb, hread, hconn, hcl, hend⟩ := counted_fields (s.noteFin f) f
  unfold RejectsFrame Overshoots
  generalize (s.noteFin f).counted f = s₁ at hc hseq hcb hread hconn hcl hend ⊢
  have hseq : s₁.seq = s.seq := hseq
  have hr : Receptive s₁ :=
    ⟨hconn.trans hp.connected, hcl.trans hp.opened, hcb.trans hp.idle, hread.trans hp.reading⟩
  have hgaps : s₁.gapsFor f = s.gapsFor f := by
    unfold gapsFor buf
    rw [hseq]
  by_cases hd : f.data = []
  · -- an empty frame is rejected for being empty
    simp only [hd, ne_eq, not_true, false_and, iff_false, not_and]
    intro _ hr
    simp [Rejects, onStreamData, hd, beyondRange] at hr
  have hpos := List.length_pos_iff.2 hd
  have hend : f.offset + f.data.length ≤ s₁.window.highestReceivedByteOffset := by
    have := hend hd
    rwa [StreamFrame.endOffset, Nat.mod_eq_of_lt he] at this
  have hfits := (hc.counted hr.reading).fits
  have hbuf : s₁.buf = s.buf := congrArg Sequencer.bufferedFrames hseq
  obtain ⟨-, htot, hcap⟩ := takeFin_window s₁ env f
  have hcap₁ := hc.cap
  have ht := (hc.takeFin hr.idle env f).1
  rcases takeFin_missing env hc hr he hd with ⟨hcb', hmiss⟩ | ⟨hcb', hmiss⟩
  · have hlim : kStreamReceiveWindowLimit ≤ 2 ^ 64 := by decide
    rw [Rejects, ht.live.beyond_iff (by omega) he (by omega), hmiss, htot, hcap, hbuf, hgaps]
    exact ⟨fun hr => hr.2, fun ho => ⟨hcb'.trans hr.idle, ho⟩⟩
  · refine ⟨fun hr => absurd hr.1 hcb', fun hr => ?_⟩
    rw [hgaps] at hmiss
    exact absurd (hr.2.2 f.offset le_rfl (by omega)) hmiss

theorem Sane.fitsRing (h : Sane s) : FitsRing s where
  window := by
    have := h.offset
    omega
  frame f env hp he := h.rejectsFrame_iff hp he env
  resumed f hf he := by
    obtain ⟨hle, hend⟩ := h.pending _ hf
    have hend : f.offset + f.data.length = s.seq.closeOffset := by
      rw [← hend f rfl, StreamFrame.endOffset, Nat.mod_eq_of_lt he]
    have hn : Sane { s with callback := none } := h.congr rfl rfl rfl rfl fun d hd => by cases hd
    have hcl := closes_clearBuf { s with callback := none }
    have hs := hn.closes hcl
    have htot : { s with callback := none }.clearBuf.buf.totalBytesRead = s.buf.totalBytesRead :=
      hcl.total
    have hcap := hs.cap
    have hlim : kStreamReceiveWindowLimit ≤ 2 ^ 64 := by decide
    rw [Rejects, hs.live.beyond_iff (by omega) he (by omega)]
    rintro ⟨hne, -, hall⟩
    have := List.length_pos_iff.2 hne
    have := hs.live.missing_ge (hall f.offset le_rfl (by omega))
    omega

/-- **What flow control accepts fits into the ring** of the buffer, in every run, with any window up
    to the limit: the window reaches at most one ring behind the consumed bytes, and a frame that
    passes is rejected for lying beyond the ring only if the end of the ring has wrapped. -/
theorem fits_ring {autoTune : Bool} {conn : ReceiveWindow} {es : List ReceiveEvent}
    (hn : n ≤ kStreamReceiveWindowLimit) (h : run step (new n autoTune conn) es = some s) : FitsRing s :=
  (sane_run hn h).fitsRing

/-- Two bytes arrive, the second one first. -/
theorem fits_ring_two :
    ∃ s, run step (new kStreamReceiveWindowLimit true (.new 65536 (24 * 1024 * 1024) true))
      [.frame (.ofBytes 1 [7] true) .calm, .frame (.ofBytes 0 [5] false) .calm, .readv [1] .calm] =
        some s ∧
    FitsRing s := by
  obtain ⟨s, hs⟩ := Option.isSome_iff_exists.1 (by decide +kernel : (run step
    (new kStreamReceiveWindowLimit true (.new 65536 (24 * 1024 * 1024) true))
      [.frame (.ofBytes 1 [7] true) .calm, .frame (.ofBytes 0 [5] false) .calm, .readv [1] .calm]).isSome)
  exact ⟨s, hs, fits_ring le_rfl hs⟩

/-! ## The end of the offsets -/

def byteAt (t : ℕ) : StreamFrame := .ofBytes t [0] false

@[simp] theorem byteAt_fin (t : ℕ) : (byteAt t).fin = false := rfl

/-- A byte arrives and is consumed, `t` times. -/
def byteRounds : ℕ → List ReceiveEvent
  | 0 => []
  | t + 1 => byteRounds t ++ [.frame (byteAt t) .calm, .markConsumed 1 .calm]

/-- A window of the size of the ring, last moved when `c` bytes were consumed. -/
def windowAt (t highest c limit : ℕ) : ReceiveWindow where
  bytesConsumed := t
  highestReceivedByteOffset := highest
  receiveWindowOffset := c + kStreamReceiveWindowLimit
  receiveWindowSize := kStreamReceiveWindowLimit
  receiveWindowSizeLimit := limit
  autoTuneReceiveWindow := false

theorem ring_size : kStreamReceiveWindowLimit = 16777216 := rfl

/-- The next byte is consumed.  If half of the window is used up it is moved, always before its end
    has wrapped. -/
theorem windowAt_next {t c : ℕ} (hdvd : kStreamReceiveWindowLimit / 2 + 1 ∣ c) (hc : c ≤ t)
    (ht : t ≤ c + kStreamReceiveWindowLimit / 2) (hmax : t + kStreamReceiveWindowLimit < 2 ^ 64) :
    ∃ c', kStreamReceiveWindowLimit / 2 + 1 ∣ c' ∧ c' ≤ t + 1 ∧
      t + 1 ≤ c' + kStreamReceiveWindowLimit / 2 ∧ ∀ highest limit,
      ((windowAt t highest c limit).addBytesConsumed false 1).1 = windowAt (t + 1) highest c' limit := by
  have hlim := ring_size
  have hmod : (t + 1) % 2 ^ 64 = t + 1 := Nat.mod_eq_of_lt (by omega)
  have havail : sub64 (c + kStreamReceiveWindowLimit) (t + 1) = c + kStreamReceiveWindowLimit - (t + 1) :=
    sub64_of_le (by omega)
  by_cases hle : t + 1 ≤ c + kStreamReceiveWindowLimit / 2
  · refine ⟨c, hdvd, by omega, hle, fun highest limit => ?_⟩
    simp only [ReceiveWindow.addBytesConsumed, ReceiveWindow.maybeSendWindowUpdate, windowAt, hmod,
      havail,
      ReceiveWindow.windowUpdateThreshold]
    rw [if_pos (by omega)]
  · have hnext : t + 1 = c + (kStreamReceiveWindowLimit / 2 + 1) := by omega
    have hdvd' : kStreamReceiveWindowLimit / 2 + 1 ∣ t + 1 := hnext ▸ Nat.dvd_add hdvd (dvd_refl _)
    have hne : t + 1 ≠ 2 ^ 64 - kStreamReceiveWindowLimit := by
      intro he
      rw [he] at hdvd'
      exact absurd hdvd' (by decide)
    have hmove := @move_window (c + kStreamReceiveWindowLimit) (t + 1) kStreamReceiveWindowLimit
      (by omega) (by omega) (by omega)
    rw [havail, Nat.mod_eq_of_lt (by omega : t + 1 + kStreamReceiveWindowLimit < 2 ^ 64)] at hmove
    refine ⟨t + 1, hdvd', le_rfl, by omega, fun highest limit => ?_⟩
    simp only [ReceiveWindow.addBytesConsumed, ReceiveWindow.maybeSendWindowUpdate, windowAt, hmod,
      havail,
      ReceiveWindow.windowUpdateThreshold]
    rw [if_neg (by omega)]
    simp only [ReceiveWindow.maybeIncreaseMaxWindowSize,
      ReceiveWindow.updateReceiveWindowOffsetAndSendWindowUpdate, Bool.and_false,
      if_neg Bool.false_ne_true,
      hmove]

/-- `t` bytes have arrived and been consumed, and the windows were moved each time half of them was
    used up. -/
structure Consumed (t : ℕ) (s : ReceiveStream) : Prop where
  cap : s.buf.cap = kStreamReceiveWindowLimit
  total : s.buf.totalBytesRead = t
  gaps : s.buf.gaps = [⟨t, maxOffset⟩]
  reading : s.seq.ignoreReadData = false
  connected : s.connected = true
  opened : s.closed = false
  idle : s.callback = none
  readable : s.readSideClosed = false
  windows : ∃ c, kStreamReceiveWindowLimit / 2 + 1 ∣ c ∧ c ≤ t ∧ t ≤ c + kStreamReceiveWindowLimit / 2 ∧
    s.window = windowAt t t c kStreamReceiveWindowLimit ∧ s.conn = windowAt t t c (24 * 1024 * 1024)

theorem counted_byte {t c : ℕ} (hw : s.window = windowAt t t c kStreamReceiveWindowLimit)
    (hconn : s.conn = windowAt t t c (24 * 1024 * 1024)) (ht : t ≤ c + kStreamReceiveWindowLimit / 2)
    (hmax : t + 1 < 2 ^ 64) :
    s.violates (byteAt t) = false ∧ s.counted (byteAt t) = { s with
      window := windowAt t (t + 1) c kStreamReceiveWindowLimit
      conn := windowAt t (t + 1) c (24 * 1024 * 1024) } := by
  have hlim := ring_size
  have hoff : (byteAt t).endOffset = t + 1 := by
    simp only [StreamFrame.endOffset, byteAt, StreamFrame.ofBytes, List.take_succ_cons, List.take_nil,
      List.length_singleton]
    omega
  have hsub : sub64 (t + 1) t = 1 := by
    rw [sub64_of_le (by omega)]
    omega
  have hcount : s.counted (byteAt t) = { s with
      window := windowAt t (t + 1) c kStreamReceiveWindowLimit
      conn := windowAt t (t + 1) c (24 * 1024 * 1024) } := by
    have hstep : t + 1 ≤ t ↔ False := iff_false_intro (by omega)
    simp only [ReceiveStream.counted, maybeIncreaseHighestReceivedOffset, hoff, hw, hconn,
      ReceiveWindow.updateHighestReceivedOffset, windowAt, hsub, Nat.mod_eq_of_lt hmax, hstep, if_false]
    rfl
  refine ⟨?_, hcount⟩
  have hle : t + 1 ≤ c + kStreamReceiveWindowLimit := by omega
  simp only [violates, hcount, flowControlViolation, ReceiveWindow.flowControlViolation, windowAt,
    Bool.and_eq_false_iff, Bool.or_eq_false_iff, decide_eq_false_iff_not, not_lt]
  exact .inr ⟨hle, hle⟩

theorem Consumed.passes {t : ℕ} (h : Consumed t s) (hmax : t + 1 < 2 ^ 64) : s.Passes (byteAt t) := by
  obtain ⟨c, -, -, ht, hw, hconn⟩ := h.windows
  exact ⟨⟨h.connected, h.opened, h.idle, h.readable⟩, (counted_byte hw hconn ht hmax).1⟩

theorem Consumed.arrives {t : ℕ} {b : SequencerBuffer} (h : Consumed t s) (hmax : t + 1 < 2 ^ 64)
    (hb : s.buf.onStreamData t [0] = .ok (b, 1)) :
    s.step (.frame (byteAt t) .calm) = some (((s.noteFin (byteAt t)).counted (byteAt t)).setBuf b) := by
  have hviol := (h.passes hmax).within
  obtain ⟨hseq, hcb, -⟩ := counted_fields (s.noteFin (byteAt t)) (byteAt t)
  have hoff : (byteAt t).offset = t := Nat.mod_eq_of_lt (by omega)
  show (if (s.connected && !s.closed && s.callback.isNone) = true then _ else _) = _
  rw [if_pos (by simp [h.connected, h.opened, h.idle]), onStreamFrame, if_neg (by simp [h.readable]),
    if_neg (by simp [hviol])]
  generalize (s.noteFin (byteAt t)).counted (byteAt t) = s₁ at hseq hcb ⊢
  have hseq : s₁.seq = s.seq := hseq
  have hdata : s₁.buf.onStreamData (byteAt t).offset (byteAt t).data = .ok (b, 1) := by
    rw [hoff, buf, hseq]
    exact hb
  have htake : s₁.takeFin .calm (byteAt t) = s₁ := if_neg (by simp)
  have hign : ¬ ((byteAt t).offset = (s₁.setBuf b).buf.totalBytesRead ∧
      (s₁.setBuf b).seq.ignoreReadData = true) := by
    rintro ⟨-, hign⟩
    have hign : s₁.seq.ignoreReadData = true := hign
    rw [hseq, h.reading] at hign
    cases hign
  rw [sequence, htake, if_neg (by simp), hcb.trans h.idle]
  simp only [onFrameData, hdata, notify, if_neg hign, if_neg Nat.one_ne_zero]

theorem markConsumed_byte {t c c' : ℕ} {b b' : SequencerBuffer} (hb : s.buf = b)
    (hr : s.readSideClosed = false) (hm : b.markConsumed 1 = some b')
    (hw : s.window = windowAt t (t + 1) c kStreamReceiveWindowLimit)
    (hconn : s.conn = windowAt t (t + 1) c (24 * 1024 * 1024))
    (hnext : ∀ highest limit, ((windowAt t highest c limit).addBytesConsumed false 1).1 =
      windowAt (t + 1) highest c' limit) :
    s.markConsumed .calm 1 = { s.setBuf b' with
      window := windowAt (t + 1) (t + 1) c' kStreamReceiveWindowLimit
      conn := windowAt (t + 1) (t + 1) c' (24 * 1024 * 1024)
      taken := s.taken + 1 } := by
  have hsize : ¬ s.window.receiveWindowSize <
      (windowAt (t + 1) (t + 1) c' kStreamReceiveWindowLimit).receiveWindowSize := by
    rw [hw]
    exact lt_irrefl _
  unfold markConsumed
  rw [hb, hm]
  simp only [addBytesConsumed, consumeStream, consumeConn, setBuf, hr, StreamEnv.calm,
    if_neg Bool.false_ne_true]
  rw [hw] at hsize ⊢
  simp only [hnext, if_neg hsize, hconn]

theorem Consumed.round {t : ℕ} (h : Consumed t s) (hmax : t + kStreamReceiveWindowLimit < 2 ^ 64) :
    ∃ s', run step s [.frame (byteAt t) .calm, .markConsumed 1 .calm] = some s' ∧
      Consumed (t + 1) s' := by
  have hlim := ring_size
  have htop : maxOffset = 2 ^ 64 - 1 := rfl
  obtain ⟨c, hdvd, hc, ht, hw, hconn⟩ := h.windows
  obtain ⟨b₁, b₂, h₁, -, -, -, h₂, hcap, htot, hgaps⟩ := byte_round (by decide) h.cap h.total h.gaps
    (show ([0] : List UInt8).length = 1 from rfl) (by omega) hmax
  obtain ⟨-, hcount⟩ := counted_byte (s := s.noteFin (byteAt t)) hw hconn ht (by omega)
  obtain ⟨c', hdvd', hc', ht', hnext⟩ := windowAt_next hdvd hc ht hmax
  obtain ⟨s₁, hfirst, hseq, hw₁, hconn₁, h3, h4, h5, h6⟩ :
      ∃ s₁, s.step (.frame (byteAt t) .calm) = some s₁ ∧
      s₁.seq = { s.seq with bufferedFrames := b₁ } ∧
      s₁.window = windowAt t (t + 1) c kStreamReceiveWindowLimit ∧
      s₁.conn = windowAt t (t + 1) c (24 * 1024 * 1024) ∧ s₁.connected = true ∧ s₁.closed = false ∧
      s₁.callback = none ∧ s₁.readSideClosed = false := by
    refine ⟨_, h.arrives (by omega) h₁, ?_⟩
    rw [hcount]
    exact ⟨rfl, rfl, rfl, h.connected, h.opened, h.idle, h.readable⟩
  have hbuf : s₁.buf = b₁ := by rw [buf, hseq]
  refine ⟨_, run_cons.2 ⟨_, hfirst, run_cons.2 ⟨_, rfl, rfl⟩⟩, ?_⟩
  rw [markConsumed_byte hbuf h6 h₂ hw₁ hconn₁ hnext]
  refine ⟨hcap, htot, hgaps, ?_, h3, h4, h5, h6, c', hdvd', hc', ht', rfl, rfl⟩
  show s₁.seq.ignoreReadData = false
  rw [hseq]
  exact h.reading

theorem consumed_rounds : ∀ t, t + kStreamReceiveWindowLimit ≤ 2 ^ 64 → ∃ s,
    run step (new kStreamReceiveWindowLimit false
      (.new kStreamReceiveWindowLimit (24 * 1024 * 1024) false)) (byteRounds t) = some s ∧ Consumed t s
  | 0, _ => ⟨_, rfl, rfl, rfl, rfl, rfl, rfl, rfl, rfl, rfl, 0, ⟨0, rfl⟩, le_rfl, Nat.zero_le _, rfl, rfl⟩
  | t + 1, ht => by
    obtain ⟨s, hrun, hs⟩ := consumed_rounds t (by omega)
    obtain ⟨s', hround, hs'⟩ := hs.round (by omega)
    exact ⟨s', run_append.2 ⟨s, hrun, hround⟩, hs'⟩

/-- After `2 ^ 64 - kStreamReceiveWindowLimit` bytes the next one is within the window of the stream
    and of the connection, and is rejected. -/
theorem rejected_at_the_end : ∃ es s f,
    run step (new kStreamReceiveWindowLimit false
      (.new kStreamReceiveWindowLimit (24 * 1024 * 1024) false)) es = some s ∧
    s.Passes f ∧ f.offset + f.data.length < 2 ^ 64 ∧ s.RejectsFrame .calm f := by
  obtain ⟨s, hrun, hs⟩ := consumed_rounds (2 ^ 64 - kStreamReceiveWindowLimit) (by decide)
  have hp := hs.passes (by decide)
  have he : (byteAt (2 ^ 64 - kStreamReceiveWindowLimit)).offset +
      (byteAt (2 ^ 64 - kStreamReceiveWindowLimit)).data.length < 2 ^ 64 := by decide
  refine ⟨_, s, _, hrun, hp, he, ((sane_run le_rfl hrun).rejectsFrame_iff hp he _).2 ?_⟩
  refine ⟨by decide, ?_, fun x hx hx' => ?_⟩
  · rw [hs.total, hs.cap]
    decide
  · rw [gapsFor, if_neg (by simp), hs.gaps]
    have htop : maxOffset = 2 ^ 64 - 1 := rfl
    have hoff : (byteAt (2 ^ 64 - kStreamReceiveWindowLimit)).offset =
        2 ^ 64 - kStreamReceiveWindowLimit := by
      decide
    exact ⟨_, .head _, by dsimp only; omega, by dsimp only; omega⟩

end ReceiveStream
end Puic
