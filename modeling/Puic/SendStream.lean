/-
  The sending half of a stream (quic_stream.cc; the counters and the lost ranges
  of quic_stream_send_buffer.cc; the send window of quic_flow_controller.cc).

  A stream saves what the application writes and offers it to the connection as
  far as its own send window and that of the connection allow.  Whatever it
  cannot send now has to be sent later, and nothing but the session's list of
  blocked streams or a larger stream window brings it back: `WriteBufferedData`
  must put the stream on the list on every exit that leaves something unsent.

  A call into the sending code takes what the session and the connection answer
  (`WriteEnv`) and returns the new stream together with what it asks of the
  session (`Written`).  The bytes themselves do not occur here, only how many
  were saved, sent, acknowledged and lost.
-/
import Mathlib.Data.List.Basic
import Mathlib.Tactic.Cases

namespace Puic

/-! ## The send window -/

/-- `QuicFlowController` as far as sending goes; a stream has one, and so has the connection. -/
structure FlowController where
  bytesSent : ℕ
  sendWindowOffset : ℕ
deriving Repr, DecidableEq

namespace FlowController

variable (f : FlowController)

def sendWindowSize : ℕ := f.sendWindowOffset - f.bytesSent

def isBlocked : Bool := f.sendWindowSize == 0

/-- Sending beyond the window is an error that closes the connection. -/
def addBytesSent (n : ℕ) : FlowController :=
  { f with
    bytesSent := if f.sendWindowOffset < f.bytesSent + n then f.sendWindowOffset
      else f.bytesSent + n }

/-- Returns whether the new offset takes the flow from blocked to unblocked. -/
def updateSendWindowOffset (offset : ℕ) : FlowController × Bool :=
  if offset ≤ f.sendWindowOffset then (f, false)
  else ({ f with sendWindowOffset := offset }, f.isBlocked)

variable {f : FlowController} {n : ℕ}

theorem isBlocked_iff : f.isBlocked = true ↔ f.sendWindowSize = 0 := by simp [isBlocked]

theorem sendWindowSize_addBytesSent : (f.addBytesSent n).sendWindowSize = f.sendWindowSize - n := by
  simp only [addBytesSent, sendWindowSize]
  split <;> omega

end FlowController

/-! ## Sets of intervals -/

/-- The result of `Add(a, b)`: the intervals that `[a, b)` meets or touches become one with it. -/
def addInterval (l : List (ℕ × ℕ)) (a b : ℕ) : List (ℕ × ℕ) :=
  l.filter (·.2 < a) ++ [((l.filter fun i => a ≤ i.2 ∧ i.1 ≤ b).foldl (fun m i => min m i.1) a,
      (l.filter fun i => a ≤ i.2 ∧ i.1 ≤ b).foldl (fun m i => max m i.2) b)] ++ l.filter (b < ·.1)

/-- The result of `Difference(a, b)`. -/
def removeInterval (l : List (ℕ × ℕ)) (a b : ℕ) : List (ℕ × ℕ) :=
  l.flatMap fun i => [(i.1, min i.2 a), (max i.1 b, i.2)].filter fun j => j.1 < j.2

/-! ## The stream -/

/-- `QuicConsumedData`: how much `SendStreamData` takes of what it is offered. -/
structure Consumed where
  bytes : ℕ
  fin : Bool
deriving Repr, DecidableEq

/-- The connection takes no more than it is offered, and the FIN only after all the data. -/
def Consumed.clip (r : Consumed) (length : ℕ) (fin : Bool) : Consumed :=
  ⟨min r.bytes length, r.fin && fin && decide (length ≤ r.bytes)⟩

/-- What the environment of a stream answers while it writes: `ShouldYield`, the send window of the
    connection, the encryption level, and what the connection takes in the calls of
    `SendStreamData` to come; when the list is used up it takes nothing. -/
structure WriteEnv where
  yield : Bool
  connWindow : ℕ
  level : ℕ
  replies : List Consumed
deriving Repr

/-- `levels` is `bytes_consumed_` of the crypto stream, by encryption level, and empty for every
    other stream. -/
structure SendStream where
  streamOffset : ℕ
  bytesWritten : ℕ
  bytesOutstanding : ℕ
  pending : List (ℕ × ℕ)
  levels : List (List (ℕ × ℕ))
  finBuffered : Bool
  finSent : Bool
  finOutstanding : Bool
  finLost : Bool
  writeSideClosed : Bool
  /-- `stream_contributes_to_connection_flow_control_` -/
  contributes : Bool
  flow : FlowController
deriving Repr, DecidableEq

/-- What a call into the sending code leaves: the stream, the replies not used, the new bytes the
    connection took, whether the stream asked for `MarkConnectionLevelWriteBlocked`, and whether
    it sent its FIN and now closes its write side. -/
structure Written where
  stream : SendStream
  rest : List Consumed
  sent : ℕ
  marked : Bool
  finished : Bool
deriving Repr

namespace SendStream

/-- A new stream with the peer's initial window; `levels` and `contributes` tell the crypto stream
    from the others. -/
def new (window : ℕ) (levels : List (List (ℕ × ℕ))) (contributes : Bool) : SendStream where
  streamOffset := 0
  bytesWritten := 0
  bytesOutstanding := 0
  pending := []
  levels := levels
  finBuffered := false
  finSent := false
  finOutstanding := false
  finLost := false
  writeSideClosed := false
  contributes := contributes
  flow := ⟨0, window⟩

variable (st : SendStream) (e : WriteEnv)

def bufferedDataBytes : ℕ := st.streamOffset - st.bytesWritten

def hasBufferedData : Bool := decide (st.bytesWritten < st.streamOffset)

/-- Saved data that was not sent, or a FIN that was not. -/
def hasUnsent : Bool := st.hasBufferedData || (st.finBuffered && !st.finSent)

def hasPendingRetransmission : Bool := !st.pending.isEmpty || st.finLost

/-- A FIN with no data left before it. -/
def finWithZeroData : Bool := st.finBuffered && st.bufferedDataBytes == 0

/-- How much flow control permits to be written. -/
def sendWindow (connWindow : ℕ) : ℕ :=
  if st.contributes then min st.flow.sendWindowSize connWindow else st.flow.sendWindowSize

/-- `MaybeSendBlocked`: whether the stream is put on the list because only the connection blocks
    it. -/
def marksBlocked (connWindow : ℕ) : Bool :=
  st.contributes && connWindow == 0 && !st.flow.isBlocked

/-- `OnStreamDataConsumed` and `AddBytesSent`. -/
def consume (level n : ℕ) : SendStream :=
  { st with
    bytesWritten := st.bytesWritten + n
    bytesOutstanding := st.bytesOutstanding + n
    levels := if n = 0 then st.levels
      else st.levels.modify level (addInterval · st.bytesWritten (st.bytesWritten + n))
    flow := st.flow.addBytesSent n }

/-- The window of the connection after the stream has sent `n` bytes. -/
def connWindowAfter (connWindow n : ℕ) : ℕ :=
  if st.contributes then connWindow - n else connWindow

/-- `WriteBufferedData` from the call of `WritevDataInner` on, with `c` consumed of `length` bytes
    and, if `fin`, the FIN. -/
def afterWrite (length : ℕ) (fin : Bool) (c : Consumed) :
    Written :=
  if c.bytes = length then
    if fin && c.fin then
      { stream := { st.consume e.level c.bytes with finSent := true, finOutstanding := true }
        rest := e.replies.tail
        sent := c.bytes
        marked := !st.finWithZeroData && (st.consume e.level c.bytes).marksBlocked
          (st.connWindowAfter e.connWindow c.bytes)
        finished := true }
    else
      { stream := st.consume e.level c.bytes
        rest := e.replies.tail
        sent := c.bytes
        marked := (!st.finWithZeroData && (st.consume e.level c.bytes).marksBlocked
          (st.connWindowAfter e.connWindow c.bytes)) || fin
        finished := false }
  else ⟨st.consume e.level c.bytes, e.replies.tail, c.bytes, true, false⟩

def writeBufferedData : Written :=
  if e.yield then ⟨st, e.replies, 0, true, false⟩
  else if st.sendWindow e.connWindow = 0 ∧ st.finWithZeroData = false then
    ⟨st, e.replies, 0, st.marksBlocked e.connWindow, false⟩
  else if st.sendWindow e.connWindow < st.bufferedDataBytes then
    -- the FIN is not sent unless all the data is
    st.afterWrite e (st.sendWindow e.connWindow) false
      ((e.replies.headD ⟨0, false⟩).clip (st.sendWindow e.connWindow) false)
  else
    st.afterWrite e st.bufferedDataBytes st.finBuffered
      ((e.replies.headD ⟨0, false⟩).clip st.bufferedDataBytes st.finBuffered)

/-- A call that sends nothing. -/
def unwritten : Written := ⟨st, e.replies, 0, false, false⟩

/-- The stream with the data and the FIN saved. -/
def save (n : ℕ) (fin : Bool) : SendStream :=
  { st with finBuffered := fin, streamOffset := st.streamOffset + n }

def writeOrBufferData (n : ℕ) (fin : Bool) (e : WriteEnv) : Written :=
  if (n = 0 ∧ fin = false) ∨ st.finBuffered = true ∨ st.writeSideClosed = true then st.unwritten e
  else if !st.hasBufferedData && ((st.save n fin).hasBufferedData || fin) then
    (st.save n fin).writeBufferedData e
  else (st.save n fin).unwritten e

/-! ## Loss -/

/-- `OnStreamFrameLost`; the acknowledged ranges it would leave out are not recorded with
    `allow_multiple_acks_for_data_` off. -/
def onStreamFrameLost (offset length : ℕ) (fin : Bool) : SendStream :=
  { st with
    pending := if length = 0 then st.pending else addInterval st.pending offset (offset + length)
    finLost := st.finLost || (fin && st.finOutstanding) }

def onStreamFrameRetransmitted (offset length : ℕ) (fin : Bool) : SendStream :=
  { st with
    pending := if length = 0 then st.pending
      else removeInterval st.pending offset (offset + length)
    finLost := st.finLost && !fin }

/-- `OnStreamFrameAcked`; acknowledging what was not sent closes the connection. -/
def onStreamFrameAcked (length : ℕ) (fin : Bool) : Option SendStream :=
  if st.bytesOutstanding < length ∨ (fin = true ∧ st.finSent = false) then none
  else some { st with
    bytesOutstanding := st.bytesOutstanding - length
    finOutstanding := st.finOutstanding && !fin
    finLost := st.finLost && !fin }

/-- The part of the first lost range that is sent again at once: the crypto stream takes no more
    than was first sent at one encryption level. -/
def retransmission (lo hi : ℕ) : ℕ × ℕ :=
  (st.levels.findSome? fun l => (l.filterMap fun i =>
    if max lo i.1 < min hi i.2 then some (max lo i.1, min hi i.2) else none).head?).getD (lo, hi)

/-- `WritePendingRetransmission`: lost ranges are offered again until the connection takes no
    more. -/
def writePendingRetransmission (st : SendStream) : List Consumed → SendStream × List Consumed
  | [] => (st, [])
  | r :: rs =>
    match st.pending with
    | [] =>
      if st.finLost then ({ st with finLost := !r.fin }, rs) else (st, r :: rs)
    | (lo, hi) :: _ =>
      let p := st.retransmission lo hi
      let fin := st.finLost && p.2 == st.bytesWritten
      let c := r.clip (p.2 - p.1) fin
      let st' := st.onStreamFrameRetransmitted p.1 c.bytes c.fin
      if c.bytes < p.2 - p.1 ∨ (fin = true ∧ c.fin = false) then (st', rs)
      else writePendingRetransmission st' rs

/-- `QuicStream::OnCanWrite`.  Lost data goes first, and then the call returns. -/
def onCanWrite : Written :=
  if st.hasPendingRetransmission then
    let p := st.writePendingRetransmission e.replies
    ⟨p.1, p.2, 0, false, false⟩
  else if st.writeSideClosed then st.unwritten e
  else if st.hasUnsent then st.writeBufferedData e
  else st.unwritten e

/-! ## What the calls do -/

variable {st : SendStream} {e : WriteEnv}

theorem hasBufferedData_iff : st.hasBufferedData = true ↔ 0 < st.bufferedDataBytes := by
  simp only [hasBufferedData, bufferedDataBytes, decide_eq_true_eq]; omega

theorem bufferedDataBytes_consume {level n : ℕ} :
    (st.consume level n).bufferedDataBytes = st.bufferedDataBytes - n := by
  simp only [bufferedDataBytes, consume]; omega

/-- The stream needs no further call: nothing is unsent, or its own window is used up. -/
def Settled (st : SendStream) : Prop := st.hasUnsent = false ∨ st.flow.isBlocked = true

/-- With all the window sent, the stream is blocked itself or puts itself on the list. -/
theorem marked_of_window_sent {connWindow level : ℕ}
    (h : (st.consume level (st.sendWindow connWindow)).marksBlocked
      (st.connWindowAfter connWindow (st.sendWindow connWindow)) = false) :
    (st.consume level (st.sendWindow connWindow)).flow.isBlocked = true := by
  by_contra hb
  rw [Bool.not_eq_true] at hb
  have hc : (st.consume level (st.sendWindow connWindow)).contributes = st.contributes := rfl
  simp only [marksBlocked, hc, hb, Bool.not_false, Bool.and_true, Bool.and_eq_false_iff,
    beq_eq_false_iff_ne] at h
  have hw : ¬st.flow.sendWindowSize - st.sendWindow connWindow = 0 := by
    rw [← FlowController.sendWindowSize_addBytesSent, ← FlowController.isBlocked_iff]
    exact Bool.not_eq_true _ ▸ hb
  rcases h with h | h
  · rw [sendWindow, if_neg (by simp [h])] at hw; omega
  · by_cases hs : st.contributes = true
    · simp only [connWindowAfter, sendWindow, if_pos hs] at h hw; omega
    · rw [sendWindow, if_neg hs] at hw; omega

/-- What `WriteBufferedData` can do.  It sends nothing; or a part of what is saved; or all of it and
    the FIN.  The stream is then settled or has put itself on the list. -/
theorem writeBufferedData_cases (st : SendStream) (e : WriteEnv) :
    (∃ m, st.writeBufferedData e = ⟨st, e.replies, 0, m, false⟩ ∧ (m = true ∨ st.Settled)) ∨
    (∃ k m, k ≤ st.bufferedDataBytes ∧
      st.writeBufferedData e = ⟨st.consume e.level k, e.replies.tail, k, m, false⟩ ∧
      (m = true ∨ (st.consume e.level k).Settled)) ∨
    (∃ m, st.finBuffered = true ∧ st.writeBufferedData e =
      ⟨{ st.consume e.level st.bufferedDataBytes with finSent := true, finOutstanding := true },
        e.replies.tail, st.bufferedDataBytes, m, true⟩) := by
  unfold writeBufferedData
  split
  · exact .inl ⟨true, rfl, .inl rfl⟩
  split
  · next h =>
    -- nothing can be sent: the stream's own window is zero, or that of the connection is
    refine .inl ⟨_, rfl, ?_⟩
    by_cases hb : st.flow.isBlocked = true
    · exact .inr (.inr hb)
    · refine .inl ?_
      have hw := h.1
      rw [FlowController.isBlocked_iff] at hb
      rw [sendWindow] at hw
      split at hw
      · next hc =>
        have hf : st.flow.isBlocked = false := Bool.eq_false_iff.2 fun hf =>
          hb (FlowController.isBlocked_iff.1 hf)
        simp [marksBlocked, hc, hf, show e.connWindow = 0 by omega]
      · exact absurd hw hb
  next hw =>
  refine .inr ?_
  split
  · next hlt =>
    -- the window cuts the write short
    refine .inl ?_
    generalize hr : (e.replies.headD ⟨0, false⟩).clip (st.sendWindow e.connWindow) false = c
    have hle : c.bytes ≤ st.sendWindow e.connWindow := by rw [← hr]; exact Nat.min_le_right _ _
    rw [afterWrite]
    split
    · next heq =>
      have hz : st.finWithZeroData = false := by
        rw [finWithZeroData, Bool.and_eq_false_iff, beq_eq_false_iff_ne]; omega
      refine ⟨c.bytes, _, by omega, rfl, ?_⟩
      cases hm : (st.consume e.level c.bytes).marksBlocked (st.connWindowAfter e.connWindow c.bytes)
      · right; right; rw [heq] at hm ⊢; exact marked_of_window_sent hm
      · left; simp [hz]
    · exact ⟨c.bytes, true, by omega, rfl, .inl rfl⟩
  · next hge =>
    generalize hr : (e.replies.headD ⟨0, false⟩).clip st.bufferedDataBytes st.finBuffered = c
    have hle : c.bytes ≤ st.bufferedDataBytes := by rw [← hr]; exact Nat.min_le_right _ _
    rw [afterWrite]
    split
    · next heq =>
      have hall : (st.consume e.level c.bytes).hasBufferedData = false := by
        rw [Bool.eq_false_iff, Ne, hasBufferedData_iff, bufferedDataBytes_consume]; omega
      split
      · next hfin =>
        rw [Bool.and_eq_true] at hfin
        exact .inr ⟨_, hfin.1, by rw [heq]⟩
      · next hfin =>
        refine .inl ⟨c.bytes, _, hle, rfl, ?_⟩
        cases hf : st.finBuffered
        · right; left
          rw [hasUnsent, hall, Bool.false_or, Bool.and_eq_false_iff]
          exact .inl hf
        · left; simp
    · exact .inl ⟨c.bytes, true, hle, rfl, .inl rfl⟩

/-- What acknowledgements, losses and retransmissions leave alone: all that sending new data goes
    by.  What is not acknowledged yet does not become more. -/
structure Keeps (st st' : SendStream) : Prop where
  bytesOutstanding : st'.bytesOutstanding ≤ st.bytesOutstanding
  finOutstanding : st'.finOutstanding = true → st.finOutstanding = true
  streamOffset : st'.streamOffset = st.streamOffset
  bytesWritten : st'.bytesWritten = st.bytesWritten
  finBuffered : st'.finBuffered = st.finBuffered
  finSent : st'.finSent = st.finSent
  writeSideClosed : st'.writeSideClosed = st.writeSideClosed
  flow : st'.flow = st.flow

theorem Keeps.refl (st : SendStream) : Keeps st st := ⟨Nat.le_refl _, id, rfl, rfl, rfl, rfl, rfl, rfl⟩

theorem Keeps.trans {st st₁ st₂ : SendStream} (h₁ : Keeps st st₁) (h₂ : Keeps st₁ st₂) :
    Keeps st st₂ where
  bytesOutstanding := Nat.le_trans h₂.bytesOutstanding h₁.bytesOutstanding
  finOutstanding h := h₁.finOutstanding (h₂.finOutstanding h)
  streamOffset := h₂.streamOffset.trans h₁.streamOffset
  bytesWritten := h₂.bytesWritten.trans h₁.bytesWritten
  finBuffered := h₂.finBuffered.trans h₁.finBuffered
  finSent := h₂.finSent.trans h₁.finSent
  writeSideClosed := h₂.writeSideClosed.trans h₁.writeSideClosed
  flow := h₂.flow.trans h₁.flow

theorem Keeps.bufferedDataBytes {st' : SendStream} (h : Keeps st st') :
    st'.bufferedDataBytes = st.bufferedDataBytes := by
  rw [SendStream.bufferedDataBytes, h.streamOffset, h.bytesWritten, SendStream.bufferedDataBytes]

theorem Keeps.hasUnsent {st' : SendStream} (h : Keeps st st') : st'.hasUnsent = st.hasUnsent := by
  rw [SendStream.hasUnsent, hasBufferedData, h.streamOffset, h.bytesWritten, h.finBuffered,
    h.finSent, SendStream.hasUnsent, hasBufferedData]

theorem keeps_lost (st : SendStream) (offset length : ℕ) (fin : Bool) :
    Keeps st (st.onStreamFrameLost offset length fin) :=
  ⟨Nat.le_refl _, id, rfl, rfl, rfl, rfl, rfl, rfl⟩

theorem keeps_retransmitted (st : SendStream) (offset length : ℕ) (fin : Bool) :
    Keeps st (st.onStreamFrameRetransmitted offset length fin) :=
  ⟨Nat.le_refl _, id, rfl, rfl, rfl, rfl, rfl, rfl⟩

theorem keeps_acked {st st' : SendStream} {length : ℕ} {fin : Bool}
    (h : st.onStreamFrameAcked length fin = some st') : Keeps st st' := by
  rw [onStreamFrameAcked] at h
  split at h
  · cases h
  · cases h
    exact ⟨Nat.sub_le _ _, fun h => (Bool.and_eq_true _ _ ▸ h).1, rfl, rfl, rfl, rfl, rfl, rfl⟩

theorem keeps_writePendingRetransmission (st : SendStream) (rs : List Consumed) :
    Keeps st (st.writePendingRetransmission rs).1 := by
  induction rs generalizing st with
  | nil => exact .refl st
  | cons r rs ih =>
    rw [writePendingRetransmission]
    split
    · split
      · exact ⟨Nat.le_refl _, id, rfl, rfl, rfl, rfl, rfl, rfl⟩
      · exact .refl st
    · dsimp only
      split
      · exact keeps_retransmitted st _ _ _
      · exact (keeps_retransmitted st _ _ _).trans (ih _)

/-- What `OnCanWrite` can do: send something again, or nothing, or write as far as it can. -/
theorem onCanWrite_cases (st : SendStream) (e : WriteEnv) :
    (st.hasPendingRetransmission = true ∧ ∃ st' rs, Keeps st st' ∧
      st.onCanWrite e = ⟨st', rs, 0, false, false⟩) ∨
    (st.hasPendingRetransmission = false ∧ st.onCanWrite e = ⟨st, e.replies, 0, false, false⟩ ∧
      (st.writeSideClosed = true ∨ st.hasUnsent = false)) ∨
    (st.hasPendingRetransmission = false ∧ st.writeSideClosed = false ∧ st.hasUnsent = true ∧
      st.onCanWrite e = st.writeBufferedData e) := by
  unfold onCanWrite
  split
  · next h => exact .inl ⟨h, _, _, keeps_writePendingRetransmission st e.replies, rfl⟩
  next h =>
  rw [Bool.not_eq_true] at h
  split
  · next hc => exact .inr (.inl ⟨h, rfl, .inl hc⟩)
  next hc =>
  split
  · next hu => exact .inr (.inr ⟨h, by simpa using hc, hu, rfl⟩)
  · next hu => exact .inr (.inl ⟨h, rfl, .inr (by simpa using hu)⟩)

/-- What `WriteOrBufferData` can do: turn the data away, save it, or save it and write. -/
theorem writeOrBufferData_cases (st : SendStream) (n : ℕ) (fin : Bool) (e : WriteEnv) :
    st.writeOrBufferData n fin e = ⟨st, e.replies, 0, false, false⟩ ∨
    (st.finBuffered = false ∧ st.writeSideClosed = false ∧
      (((st.hasBufferedData = true ∨ (st.save n fin).hasUnsent = false) ∧
          st.writeOrBufferData n fin e = ⟨st.save n fin, e.replies, 0, false, false⟩) ∨
        st.writeOrBufferData n fin e = (st.save n fin).writeBufferedData e)) := by
  unfold writeOrBufferData
  split
  · exact .inl rfl
  next h =>
  simp only [not_or, Bool.not_eq_true] at h
  refine .inr ⟨h.2.1, h.2.2, ?_⟩
  split
  · exact .inr rfl
  · next hb =>
    refine .inl ⟨?_, rfl⟩
    rcases Bool.eq_false_or_eq_true st.hasBufferedData with hd | hd
    · exact .inl hd
    · simp only [hd, Bool.not_false, Bool.true_and, Bool.or_eq_true, not_or, Bool.not_eq_true] at hb
      exact .inr (by rw [hasUnsent, hb.1, Bool.false_or, Bool.and_eq_false_iff]; exact .inl hb.2)

end SendStream
end Puic
