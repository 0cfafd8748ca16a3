/-
  The receive window of the connection beside those of the streams (quic_flow_controller.cc).

  When auto-tuning makes the window of a stream larger, `EnsureWindowAtLeast` is called on the
  window of the connection, with one and a half times the new size.  It compares that size with the
  limit of the window, not with the window: a stream window is at most 16 MB and the limit is 24 MB,
  so the call never does anything (`ensureWindowAtLeast_multiplied`).  `session_window_keeps_up_iff`:
  in any run, the window of the connection is large enough after such a call exactly if it was
  before.
-/
import Puic.Lib.Run
import Puic.ReceiveWindow
import Puic.SequencerBuffer

namespace Puic

def kSessionReceiveWindowLimit : ℕ := 24 * 1024 * 1024

structure SessionWindows where
  session : ReceiveWindow
  streams : ℕ → Option ReceiveWindow

namespace SessionWindows

open ReceiveWindow

/-- `MaybeIncreaseMaxWindowSize` of a stream, with its call on the window of the connection. -/
def maybeIncreaseMaxWindowSize (stream session : ReceiveWindow) (fast : Bool) :
    ReceiveWindow × ReceiveWindow :=
  let stream' := stream.maybeIncreaseMaxWindowSize fast
  (stream',
    if stream.receiveWindowSize < stream'.receiveWindowSize then
      (session.ensureWindowAtLeast (multiplied stream'.receiveWindowSize)).1
    else session)

/-- `AddBytesConsumed` of a stream: both windows. -/
def addBytesConsumed (stream session : ReceiveWindow) (fast : Bool) (bytes : ℕ) :
    ReceiveWindow × ReceiveWindow :=
  let stream := { stream with bytesConsumed := (stream.bytesConsumed + bytes) % 2 ^ 64 }
  let available := sub64 stream.receiveWindowOffset stream.bytesConsumed
  if stream.windowUpdateThreshold ≤ available then (stream, session)
  else
    let r := maybeIncreaseMaxWindowSize stream session fast
    (r.1.updateReceiveWindowOffsetAndSendWindowUpdate available, r.2)

theorem addBytesConsumed_fst (stream session : ReceiveWindow) (fast : Bool) (bytes : ℕ) :
    (addBytesConsumed stream session fast bytes).1 = (stream.addBytesConsumed fast bytes).1 := by
  unfold addBytesConsumed ReceiveWindow.addBytesConsumed maybeSendWindowUpdate
  dsimp only
  split
  · rfl
  · rfl

inductive WindowCall where
  | createStream (id window : ℕ)
  | closeStream (id : ℕ)
  | addBytesConsumed (id bytes : ℕ) (fast sessionFast : Bool)
  | skipBytes (bytes : ℕ) (fast : Bool)
  | adjustInitialFlowControlWindows (streamWindow sessionWindow : ℕ)

def initial (window : ℕ) (autoTune : Bool) : SessionWindows :=
  ⟨.new window kSessionReceiveWindowLimit autoTune, fun _ => none⟩

/-- Consumed bytes count for the stream and then for the connection, those of a stream that is no longer
    read only for the connection. -/
def windowStep (s : SessionWindows) : WindowCall → Option SessionWindows
  | .createStream id window =>
    let stream := ReceiveWindow.new window kStreamReceiveWindowLimit s.session.autoTuneReceiveWindow
    some { s with streams := Function.update s.streams id (some stream) }
  | .closeStream id => some { s with streams := Function.update s.streams id none }
  | .addBytesConsumed id bytes fast sessionFast =>
    match s.streams id with
    | some stream =>
      let r := addBytesConsumed stream s.session fast bytes
      some ⟨(r.2.addBytesConsumed sessionFast bytes).1, Function.update s.streams id (some r.1)⟩
    | none => none
  | .skipBytes bytes fast => some { s with session := (s.session.addBytesConsumed fast bytes).1 }
  | .adjustInitialFlowControlWindows streamWindow sessionWindow =>
    some ⟨s.session.updateReceiveWindowSize sessionWindow,
      fun id => (s.streams id).map (·.updateReceiveWindowSize streamWindow)⟩

/-- The limits that the windows are made with. -/
structure Limited (s : SessionWindows) : Prop where
  session : s.session.receiveWindowSizeLimit = kSessionReceiveWindowLimit
  streams : ∀ id stream, s.streams id = some stream →
    stream.receiveWindowSizeLimit = kStreamReceiveWindowLimit

variable {s s' : SessionWindows} {call : WindowCall} {calls : List WindowCall}
    {w stream session : ReceiveWindow}
  {fast : Bool} {bytes id : ℕ}

/-! ## Floats -/

theorem toFloat_eq {x : ℕ} (h : x ≤ 16777216) : toFloat x = x := by
  rcases Nat.lt_or_eq_of_le h with h | rfl
  · exact if_pos h
  · decide

theorem toFloat_le {x : ℕ} (h : x ≤ 50331648) : toFloat x ≤ 50331648 := by
  unfold toFloat
  split
  · omega
  next hge =>
  have hlog : x.log2 = 24 ∨ x.log2 = 25 := by
    have hlow : 24 ≤ x.log2 := (Nat.le_log2 (by omega)).2 (by omega)
    have hhigh : x.log2 < 26 := (Nat.log2_lt (by omega)).2 (by omega)
    omega
  rcases hlog with hlog | hlog
  · rw [hlog]
    dsimp only
    split <;> omega
  · rw [hlog]
    dsimp only
    split <;> omega

/-- One and a half times the size of a stream window is within the limit of the connection. -/
theorem multiplied_le {size : ℕ} (h : size ≤ kStreamReceiveWindowLimit) :
    multiplied size ≤ kSessionReceiveWindowLimit := by
  unfold kStreamReceiveWindowLimit at h
  unfold multiplied kSessionReceiveWindowLimit
  rw [toFloat_eq h]
  have := toFloat_le (show 3 * size ≤ 50331648 by omega)
  omega

theorem ensureWindowAtLeast_multiplied {size : ℕ}
    (hlimit : w.receiveWindowSizeLimit = kSessionReceiveWindowLimit)
    (hsize : size ≤ kStreamReceiveWindowLimit) : w.ensureWindowAtLeast (multiplied size) = (w, none) :=
  if_pos (hlimit ▸ multiplied_le hsize)

/-! ## Limits -/

theorem limit_addBytesConsumed :
    (w.addBytesConsumed fast bytes).1.receiveWindowSizeLimit = w.receiveWindowSizeLimit := by
  unfold ReceiveWindow.addBytesConsumed maybeSendWindowUpdate
  dsimp only
  split
  · rfl
  · unfold ReceiveWindow.maybeIncreaseMaxWindowSize
    split
    · rfl
    · rfl

theorem limit_updateReceiveWindowSize {size : ℕ} :
    (w.updateReceiveWindowSize size).receiveWindowSizeLimit = w.receiveWindowSizeLimit := by
  unfold updateReceiveWindowSize
  split
  · rfl
  · rfl

/-- An increased window is twice as large, or as large as it may get. -/
theorem size_increased (hlimit : w.receiveWindowSizeLimit = kStreamReceiveWindowLimit)
    (h : w.receiveWindowSize < (w.maybeIncreaseMaxWindowSize fast).receiveWindowSize) :
    (w.maybeIncreaseMaxWindowSize fast).receiveWindowSize =
      min (2 * w.receiveWindowSize) w.receiveWindowSizeLimit := by
  unfold ReceiveWindow.maybeIncreaseMaxWindowSize at h ⊢
  split
  · next hfast =>
    rw [if_pos hfast] at h
    unfold increaseWindowSize at h ⊢
    dsimp only at h ⊢
    omega
  · next hslow =>
    rw [if_neg hslow] at h
    exact absurd h (lt_irrefl _)

theorem size_addBytesConsumed (hlimit : w.receiveWindowSizeLimit = kStreamReceiveWindowLimit)
    (h : w.receiveWindowSize < (w.addBytesConsumed fast bytes).1.receiveWindowSize) :
    (w.addBytesConsumed fast bytes).1.receiveWindowSize =
      min (2 * w.receiveWindowSize) w.receiveWindowSizeLimit := by
  unfold ReceiveWindow.addBytesConsumed maybeSendWindowUpdate at h ⊢
  dsimp only at h ⊢
  split
  · next hleft =>
    rw [if_pos hleft] at h
    exact absurd h (lt_irrefl _)
  · next hused =>
    rw [if_neg hused] at h
    exact size_increased hlimit h

/-- The window of the connection does not change when a stream consumes bytes. -/
theorem addBytesConsumed_snd (hsession : session.receiveWindowSizeLimit = kSessionReceiveWindowLimit)
    (hstream : stream.receiveWindowSizeLimit = kStreamReceiveWindowLimit) :
    (addBytesConsumed stream session fast bytes).2 = session := by
  unfold addBytesConsumed maybeIncreaseMaxWindowSize
  dsimp only
  split
  · rfl
  split
  · next hlt =>
    have heq := size_increased
      (w := { stream with bytesConsumed := (stream.bytesConsumed + bytes) % 2 ^ 64 }) hstream hlt
    rw [ensureWindowAtLeast_multiplied hsession (heq.trans_le ((Nat.min_le_right _ _).trans hstream.le))]
  · rfl

theorem limited_initial (window : ℕ) (autoTune : Bool) : Limited (initial window autoTune) :=
  ⟨rfl, fun _ _ h => by cases h⟩

theorem Limited.step (h : Limited s) (hstep : windowStep s call = some s') : Limited s' := by
  have hput : ∀ id w, w.receiveWindowSizeLimit = kStreamReceiveWindowLimit →
      ∀ id' w', Function.update s.streams id (some w) id' = some w' →
        w'.receiveWindowSizeLimit = kStreamReceiveWindowLimit := by
    intro id w hw id' w' hw'
    rw [Function.update_apply] at hw'
    split at hw'
    · cases hw'
      exact hw
    · exact h.streams id' w' hw'
  cases call with
  | createStream id window =>
    cases hstep
    exact ⟨h.session, hput id _ rfl⟩
  | closeStream id =>
    cases hstep
    refine ⟨h.session, fun id' w' hw' => ?_⟩
    dsimp only at hw'
    rw [Function.update_apply] at hw'
    split at hw'
    · cases hw'
    · exact h.streams id' w' hw'
  | addBytesConsumed id bytes fast sessionFast =>
    rw [windowStep] at hstep
    split at hstep
    · next stream hstream =>
      cases hstep
      have hlimit := h.streams id stream hstream
      refine ⟨?_, hput id _ ?_⟩
      · dsimp only
        rw [limit_addBytesConsumed, addBytesConsumed_snd h.session hlimit, h.session]
      · rw [addBytesConsumed_fst, limit_addBytesConsumed, hlimit]
    · cases hstep
  | skipBytes bytes fast =>
    cases hstep
    exact ⟨limit_addBytesConsumed.trans h.session, h.streams⟩
  | adjustInitialFlowControlWindows streamWindow sessionWindow =>
    cases hstep
    refine ⟨limit_updateReceiveWindowSize.trans h.session, fun id w hw => ?_⟩
    obtain ⟨w', hw', rfl⟩ := Option.map_eq_some_iff.1 hw
    exact limit_updateReceiveWindowSize.trans (h.streams id w' hw')

/-- **The window of the connection keeps up with a stream window** that becomes larger exactly if it was
    large enough for the new size before: `EnsureWindowAtLeast` adds nothing. -/
theorem session_window_keeps_up_iff {window : ℕ} {autoTune : Bool}
    (hrun : Machine.run windowStep (initial window autoTune) calls = some s)
    (hstream : s.streams id = some stream)
    (hlarger : stream.receiveWindowSize <
      (addBytesConsumed stream s.session fast bytes).1.receiveWindowSize) :
    min (3 * (addBytesConsumed stream s.session fast bytes).1.receiveWindowSize)
        (2 * (addBytesConsumed stream s.session fast bytes).2.receiveWindowSizeLimit) ≤
      2 * (addBytesConsumed stream s.session fast bytes).2.receiveWindowSize ↔
    3 * min (2 * stream.receiveWindowSize) stream.receiveWindowSizeLimit ≤
      2 * s.session.receiveWindowSize := by
  have hlim : Limited s :=
    Machine.run_inv (fun _ _ _ hs hstep => hs.step hstep) (limited_initial window autoTune) hrun
  have hlimit := hlim.streams id stream hstream
  rw [addBytesConsumed_fst] at hlarger ⊢
  rw [addBytesConsumed_snd hlim.session hlimit, size_addBytesConsumed hlimit hlarger, hlim.session,
    hlimit]
  unfold kStreamReceiveWindowLimit kSessionReceiveWindowLimit
  constructor
  · intro h
    omega
  · intro h
    omega

/-- A connection whose window is as large as it may get. -/
theorem session_window_keeps_up_iff_largest : ∃ s stream,
    Machine.run windowStep (initial kSessionReceiveWindowLimit true) [.createStream 3 524288] = some s ∧
    s.streams 3 = some stream ∧
    (addBytesConsumed stream s.session true 300000).1.receiveWindowSize = 1048576 ∧
    3 * 1048576 ≤ 2 * (addBytesConsumed stream s.session true 300000).2.receiveWindowSize := by
  refine ⟨_, _, rfl, rfl, by decide +kernel, ?_⟩
  have hiff := @session_window_keeps_up_iff _ [.createStream 3 524288]
    _ true 300000 3 kSessionReceiveWindowLimit true
    rfl rfl (by decide +kernel)
  exact le_trans (by decide +kernel) (hiff.2 (by decide +kernel))

/-- With the default windows, 512 KB for a stream and 768 KB for the connection, the stream goes to 1 MB
    and the connection stays. -/
theorem session_window_keeps_up_default : ∃ s stream,
    Machine.run windowStep (initial 786432 true) [.createStream 3 524288] = some s ∧
      s.streams 3 = some stream ∧
    (addBytesConsumed stream s.session true 300000).1.receiveWindowSize = 1048576 ∧
    (addBytesConsumed stream s.session true 300000).2.receiveWindowSize = 786432 ∧
    ¬ min (3 * (addBytesConsumed stream s.session true 300000).1.receiveWindowSize)
        (2 * (addBytesConsumed stream s.session true 300000).2.receiveWindowSizeLimit) ≤
      2 * (addBytesConsumed stream s.session true 300000).2.receiveWindowSize :=
  ⟨_, _, rfl, rfl, by decide +kernel, by decide +kernel, by decide +kernel⟩

end SessionWindows

end Puic
