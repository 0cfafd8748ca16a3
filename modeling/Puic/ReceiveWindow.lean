/-
  The receiving half of a flow controller (quic_flow_controller.cc).

  A stream has one and so has the connection.  Bytes that are consumed open the
  window again: once less than half of it is left, the window is moved to
  `receiveWindowSize` bytes behind the consumed ones, and the peer is told the new
  `receiveWindowOffset`.

  All quantities are 64-bit in the source and computed modulo `2 ^ 64` here.  The
  clock enters as a Boolean `fast`: the last window update is less than two round
  trips ago.
-/
import Mathlib.Algebra.Order.Ring.Nat
import Mathlib.Data.Nat.Basic

namespace Puic

/-- Subtraction of unsigned 64-bit numbers. -/
def sub64 (a b : ℕ) : ℕ := if b ≤ a then a - b else a + 2 ^ 64 - b

theorem sub64_of_le {a b : ℕ} (h : b ≤ a) : sub64 a b = a - b := if_pos h

/-- Moving a window by what is missing to its size puts it behind the consumed bytes, wherever it
    was. -/
theorem move_window {o c size : ℕ} (ho : o < 2 ^ 64) (hc : c < 2 ^ 64) (hs : size < 2 ^ 64) :
    (o + sub64 size (sub64 o c)) % 2 ^ 64 = (c + size) % 2 ^ 64 := by
  unfold sub64
  split_ifs <;> omega

/-- The `float` nearest to a number (24 bits, ties to even). -/
def toFloat (x : ℕ) : ℕ :=
  if x < 16777216 then x
  else
    let unit := 2 ^ (x.log2 - 23)
    let below := x / unit
    let rest := x % unit
    if unit < 2 * rest ∨ (2 * rest = unit ∧ below % 2 = 1) then (below + 1) * unit else below * unit

/-- `kSessionFlowControlMultiplier * window`, a `float` that is passed on as an integer. -/
def multiplied (window : ℕ) : ℕ := toFloat (3 * toFloat window) / 2

structure ReceiveWindow where
  bytesConsumed : ℕ
  highestReceivedByteOffset : ℕ
  receiveWindowOffset : ℕ
  receiveWindowSize : ℕ
  receiveWindowSizeLimit : ℕ
  autoTuneReceiveWindow : Bool
deriving Repr, DecidableEq

namespace ReceiveWindow

def new (window limit : ℕ) (autoTune : Bool) : ReceiveWindow where
  bytesConsumed := 0
  highestReceivedByteOffset := 0
  receiveWindowOffset := window
  receiveWindowSize := window
  receiveWindowSizeLimit := limit
  autoTuneReceiveWindow := autoTune

variable (w : ReceiveWindow)

/-- `UpdateHighestReceivedOffset`, with its result. -/
def updateHighestReceivedOffset (newOffset : ℕ) : ReceiveWindow × Bool :=
  if newOffset ≤ w.highestReceivedByteOffset then (w, false)
  else ({ w with highestReceivedByteOffset := newOffset }, true)

def flowControlViolation : Bool :=
  w.receiveWindowOffset < w.highestReceivedByteOffset

def increaseWindowSize : ReceiveWindow :=
  { w with receiveWindowSize := min (w.receiveWindowSize * 2 % 2 ^ 64) w.receiveWindowSizeLimit }

/-- `MaybeIncreaseMaxWindowSize`, but for the call of `EnsureWindowAtLeast` on the window of the
    session. -/
def maybeIncreaseMaxWindowSize (fast : Bool) : ReceiveWindow :=
  if w.autoTuneReceiveWindow && fast then w.increaseWindowSize else w

def windowUpdateThreshold : ℕ := w.receiveWindowSize / 2

/-- The offset is also what the WINDOW_UPDATE frame carries. -/
def updateReceiveWindowOffsetAndSendWindowUpdate (available : ℕ) :
    ReceiveWindow :=
  { w with receiveWindowOffset := (w.receiveWindowOffset + sub64 w.receiveWindowSize available) % 2 ^ 64 }

/-- `MaybeSendWindowUpdate`, with the offset of the WINDOW_UPDATE frame if it sends one. -/
def maybeSendWindowUpdate (fast : Bool) : ReceiveWindow × Option ℕ :=
  let available := sub64 w.receiveWindowOffset w.bytesConsumed
  if w.windowUpdateThreshold ≤ available then (w, none)
  else
    let w' := (w.maybeIncreaseMaxWindowSize fast).updateReceiveWindowOffsetAndSendWindowUpdate available
    (w', some w'.receiveWindowOffset)

def addBytesConsumed (fast : Bool) (bytes : ℕ) : ReceiveWindow × Option ℕ :=
  { w with bytesConsumed := (w.bytesConsumed + bytes) % 2 ^ 64 }.maybeSendWindowUpdate fast

/-- `EnsureWindowAtLeast`.  The test is against the limit of the window, not against its size. -/
def ensureWindowAtLeast (windowSize : ℕ) : ReceiveWindow × Option ℕ :=
  if windowSize ≤ w.receiveWindowSizeLimit then (w, none)
  else
    let available := sub64 w.receiveWindowOffset w.bytesConsumed
    let w' := w.increaseWindowSize.updateReceiveWindowOffsetAndSendWindowUpdate available
    (w', some w'.receiveWindowOffset)

/-- `UpdateReceiveWindowSize` has no effect once a window update has been sent. -/
def updateReceiveWindowSize (size : ℕ) : ReceiveWindow :=
  if w.receiveWindowSize ≠ w.receiveWindowOffset then w
  else { w with receiveWindowSize := size, receiveWindowOffset := size }

variable {w : ReceiveWindow} {fast : Bool} {n : ℕ}

/-- The 64-bit ranges, and a size within its limit. -/
structure Bounded (w : ReceiveWindow) : Prop where
  consumed : w.bytesConsumed < 2 ^ 64
  offset : w.receiveWindowOffset < 2 ^ 64
  size : w.receiveWindowSize ≤ w.receiveWindowSizeLimit
  limit : w.receiveWindowSizeLimit < 2 ^ 63

/-- `w'` is `w` with a window that has not moved, or that reaches `receiveWindowSize` bytes behind
    the consumed ones. -/
structure Moved (w w' : ReceiveWindow) (update : Option ℕ) : Prop where
  consumed : w'.bytesConsumed = w.bytesConsumed
  highest : w'.highestReceivedByteOffset = w.highestReceivedByteOffset
  limit : w'.receiveWindowSizeLimit = w.receiveWindowSizeLimit
  size : w.receiveWindowSize ≤ w'.receiveWindowSize
  size_le : w'.receiveWindowSize ≤ w.receiveWindowSizeLimit
  offset : (w'.receiveWindowOffset = w.receiveWindowOffset ∧ update = none) ∨
    (w'.receiveWindowOffset = (w.bytesConsumed + w'.receiveWindowSize) % 2 ^ 64 ∧
      update = some w'.receiveWindowOffset)

theorem Bounded.unmoved (h : Bounded w) : Moved w w none :=
  ⟨rfl, rfl, rfl, le_rfl, h.size, .inl ⟨rfl, rfl⟩⟩

theorem Moved.bounded {w' : ReceiveWindow} {u : Option ℕ} (hm : Moved w w' u) (h : Bounded w) :
    Bounded w' where
  consumed := hm.consumed ▸ h.consumed
  offset := by
    rcases hm.offset with ⟨ho, -⟩ | ⟨ho, -⟩
    · exact ho ▸ h.offset
    · exact ho ▸ Nat.mod_lt _ (by decide)
  size := hm.limit ▸ hm.size_le
  limit := hm.limit ▸ h.limit

theorem Bounded.increaseWindowSize (h : Bounded w) : Bounded w.increaseWindowSize :=
  ⟨h.consumed, h.offset, Nat.min_le_right _ _, h.limit⟩

theorem Bounded.size_le_increase (h : Bounded w) :
    w.receiveWindowSize ≤ w.increaseWindowSize.receiveWindowSize := by
  have hs := h.size
  have hl := h.limit
  simp only [ReceiveWindow.increaseWindowSize]
  omega

theorem Bounded.moved_update {w' : ReceiveWindow} (h : Bounded w) (h' : Bounded w')
    (hc : w'.bytesConsumed = w.bytesConsumed)
    (hh : w'.highestReceivedByteOffset = w.highestReceivedByteOffset)
    (hl : w'.receiveWindowSizeLimit = w.receiveWindowSizeLimit)
    (ho : w'.receiveWindowOffset = w.receiveWindowOffset)
    (hs : w.receiveWindowSize ≤ w'.receiveWindowSize) :
    Moved w
      (w'.updateReceiveWindowOffsetAndSendWindowUpdate (sub64 w.receiveWindowOffset w.bytesConsumed))
      (some (w'.updateReceiveWindowOffsetAndSendWindowUpdate
        (sub64 w.receiveWindowOffset w.bytesConsumed)).receiveWindowOffset) := by
  have hsl : w'.receiveWindowSize ≤ w.receiveWindowSizeLimit := hl ▸ h'.size
  refine ⟨hc, hh, hl, hs, hsl, .inr ⟨?_, rfl⟩⟩
  have hlim := h'.limit
  simp only [updateReceiveWindowOffsetAndSendWindowUpdate, ho]
  exact move_window h.offset h.consumed (by omega)

theorem Bounded.moved_maybeSendWindowUpdate (h : Bounded w) (fast : Bool) :
    Moved w (w.maybeSendWindowUpdate fast).1 (w.maybeSendWindowUpdate fast).2 := by
  unfold maybeSendWindowUpdate
  dsimp only
  split
  · exact h.unmoved
  · unfold maybeIncreaseMaxWindowSize
    split
    · exact h.moved_update h.increaseWindowSize rfl rfl rfl rfl h.size_le_increase
    · exact h.moved_update h rfl rfl rfl rfl le_rfl

theorem Bounded.moved_addBytesConsumed (h : Bounded w) (fast : Bool) (n : ℕ) :
    Moved { w with bytesConsumed := (w.bytesConsumed + n) % 2 ^ 64 }
      (w.addBytesConsumed fast n).1 (w.addBytesConsumed fast n).2 := by
  have h' : Bounded { w with bytesConsumed := (w.bytesConsumed + n) % 2 ^ 64 } :=
    ⟨Nat.mod_lt _ (by decide), h.offset, h.size, h.limit⟩
  exact h'.moved_maybeSendWindowUpdate fast

theorem updateHighestReceivedOffset_eq (w : ReceiveWindow) (n : ℕ) :
    (w.updateHighestReceivedOffset n).1 =
      { w with highestReceivedByteOffset := max w.highestReceivedByteOffset n } := by
  unfold updateHighestReceivedOffset
  split
  · next h => rw [max_eq_left h]
  · next h => rw [max_eq_right (by omega)]

end ReceiveWindow
end Puic
