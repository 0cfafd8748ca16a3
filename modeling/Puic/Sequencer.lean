/-
  The receive side of a stream: STREAM frames and `QuicStreamSequencer`
  (quic_stream_sequencer.cc).

  The sequencer calls back into its stream, which may call the application, which
  may call the sequencer again.  Its functions are therefore given here up to the
  callbacks; the modules that model a stream put them together.  `blocked_` is
  never set on a `PuicStream` and is left out.
-/
import Puic.SequencerBuffer

namespace Puic

/-- A STREAM frame as the framer delivers it: a 64-bit offset and a 16-bit length. -/
structure StreamFrame where
  offset : ℕ
  data : List UInt8
  fin : Bool
  offset_lt : offset < 2 ^ 64
  data_lt : data.length < 2 ^ 16

/-- A frame with as much of the data as its length can say. -/
def StreamFrame.ofBytes (offset : ℕ) (data : List UInt8) (fin : Bool) : StreamFrame where
  offset := offset % 2 ^ 64
  data := data.take 65535
  fin := fin
  offset_lt := Nat.mod_lt _ (by decide)
  data_lt := by
    rw [List.length_take]
    omega

theorem StreamFrame.zero_lt : 0 < 2 ^ 64 := by decide

/-- `frame.offset + data_len`, in 64-bit arithmetic. -/
def StreamFrame.endOffset (f : StreamFrame) : ℕ := (f.offset + f.data.length) % 2 ^ 64

structure Sequencer where
  bufferedFrames : SequencerBuffer
  closeOffset : ℕ
  ignoreReadData : Bool

namespace Sequencer

def new : Sequencer where
  bufferedFrames := .new kStreamReceiveWindowLimit
  closeOffset := maxOffset
  ignoreReadData := false

variable (q : Sequencer)

def isClosed : Bool := q.closeOffset ≤ q.bufferedFrames.totalBytesRead

/-- A second termination offset that differs from the first. -/
def closeMismatch (offset : ℕ) : Bool :=
  q.closeOffset ≠ maxOffset && offset ≠ q.closeOffset

def clear : Sequencer := { q with bufferedFrames := q.bufferedFrames.clear }

def releaseBuffer : Sequencer :=
  { q with bufferedFrames := q.bufferedFrames.releaseWholeBuffer }

def flush : Sequencer :=
  { q with bufferedFrames := q.bufferedFrames.flushBufferedFrames.1 }

end Sequencer
end Puic
