/-
  The congestion window of BBR (bbr_sender.cc).

  What may be in flight is bounded by the congestion window, in recovery by the recovery window too,
  and while the sender probes for the round-trip time by the smallest window.  `UpdateRecoveryState`
  stores a zero in the recovery window, and the function that puts a window there is skipped in some
  modes.  `getCongestionWindow_bounded`: no such zero is returned, and every window is within its
  bounds, whatever is measured.
-/
import Puic.Epoch
import Puic.Frames

namespace Puic

def kDefaultTCPMSS : ℕ := 1460

def kMinimumCongestionWindow : ℕ := 4 * kDefaultTCPMSS

/-- 200 ms. -/
def kProbeRttTime : ℕ := 200000

inductive BbrMode where
  | startup
  | drain
  | probeBw
  | probeRtt
deriving DecidableEq

inductive BbrRecoveryState where
  | notInRecovery
  | conservation
  | mediumGrowth
  | growth
deriving DecidableEq

/-- The connection options that change more than how something is measured or paced. -/
inductive BbrOption where
  | lrtt
  | oneRtt
  | twoRtt
  | bbrr
  | bbs1
  | bbs2
  | bbs3
  | bbr6

/-- The flags of the options, with their defaults. -/
structure BbrFlags where
  bbrRateRecovery : Bool := false
  bbrConservationInStartup : Bool := true
  bbrLessProbeRtt : Bool := false

/-- The gains that a target window is computed with. -/
inductive BbrGain where
  | one
  | moderateProbeRtt
  | congestionWindow

/-- The congestion window with its bounds. -/
structure BbrWindow where
  congestionWindow : ℕ
  initialCongestionWindow : ℕ
  maxCongestionWindow : ℕ
  probeRttBasedOnBdp : Bool := false

structure BbrSender extends BbrWindow where
  mode : BbrMode := .startup
  lastSentPacket : ℕ := 0
  currentRoundTripEnd : ℕ := 0
  numStartupRtts : ℕ := 3
  exitStartupOnLoss : Bool := false
  isAtFullBandwidth : Bool := false
  roundsWithoutBandwidthGain : ℕ := 0
  exitingQuiescence : Bool := false
  exitProbeRttAt : ℕ := 0
  probeRttRoundPassed : Bool := false
  recoveryState : BbrRecoveryState := .notInRecovery
  endRecoveryAt : ℕ := 0
  recoveryWindow : ℕ
  rateBasedRecovery : Bool := false
  rateBasedStartup : Bool := false
  initialConservationInStartup : BbrRecoveryState := .conservation

/-- A call of `OnCongestionEvent`, with what the sampler, the filters and the other estimates say in
    it. -/
structure BbrEvent where
  lastAcked : Option ℕ
  bytesLost : List ℕ
  now : ℕ
  bytesInFlight : ℕ
  bytesAcked : ℕ
  totalBytesAcked : ℕ
  minRttExpired : Bool
  isAppLimited : Bool
  bandwidthGrows : Bool
  /-- A gain times the bandwidth-delay product, or times the initial window. -/
  product : BbrGain → ℕ
  /-- What the ack height or the variance of the round-trip time adds. -/
  extra : ℕ

def getTargetCongestionWindow (product : BbrGain → ℕ) (gain : BbrGain) : ℕ :=
  max (product gain) kMinimumCongestionWindow

namespace BbrSender

def new (initialTcpCongestionWindow maxTcpCongestionWindow : ℕ) : BbrSender where
  congestionWindow := wrap64 (initialTcpCongestionWindow * kDefaultTCPMSS)
  initialCongestionWindow := wrap64 (initialTcpCongestionWindow * kDefaultTCPMSS)
  maxCongestionWindow := wrap64 (maxTcpCongestionWindow * kDefaultTCPMSS)
  recoveryWindow := wrap64 (maxTcpCongestionWindow * kDefaultTCPMSS)

variable (s : BbrSender) (e : BbrEvent)

def inRecovery : Bool := s.recoveryState ≠ .notInRecovery

def probeRttCongestionWindow (product : BbrGain → ℕ) : ℕ :=
  if s.probeRttBasedOnBdp then getTargetCongestionWindow product .moderateProbeRtt
  else kMinimumCongestionWindow

def getCongestionWindow (product : BbrGain → ℕ) : ℕ :=
  if s.mode = .probeRtt then s.probeRttCongestionWindow product
  else if s.inRecovery && !s.rateBasedRecovery && !(s.rateBasedStartup && s.mode = .startup) then
    min s.congestionWindow s.recoveryWindow
  else s.congestionWindow

def setFromConfig (flags : BbrFlags) (has : BbrOption → Bool) : BbrSender :=
  { s with
    exitStartupOnLoss := s.exitStartupOnLoss || has .lrtt
    numStartupRtts := if has .twoRtt then 2 else if has .oneRtt then 1 else s.numStartupRtts
    rateBasedRecovery := s.rateBasedRecovery || flags.bbrRateRecovery && has .bbrr
    rateBasedStartup := s.rateBasedStartup || flags.bbrConservationInStartup && has .bbs1
    initialConservationInStartup :=
      if flags.bbrConservationInStartup && has .bbs3 then .growth
      else if flags.bbrConservationInStartup && has .bbs2 then .mediumGrowth
      else s.initialConservationInStartup
    probeRttBasedOnBdp := s.probeRttBasedOnBdp || flags.bbrLessProbeRtt && has .bbr6 }

def onPacketSent (packetNumber bytesInFlight : ℕ) (isAppLimited : Bool) : BbrSender :=
  { s with
    lastSentPacket := packetNumber
    exitingQuiescence := s.exitingQuiescence || (bytesInFlight = 0 && isAppLimited) }

def updateRoundTripCounter (lastAcked : ℕ) : BbrSender × Bool :=
  if s.currentRoundTripEnd < lastAcked then
    ({ s with currentRoundTripEnd := s.lastSentPacket }, true) else (s, false)

def updateRecoveryState (lastAcked : ℕ) (hasLosses isRoundStart : Bool) : BbrSender :=
  let s := if hasLosses then { s with endRecoveryAt := s.lastSentPacket } else s
  if s.recoveryState = .notInRecovery then
    if hasLosses then
      { s with
        recoveryState := if s.mode = .startup then s.initialConservationInStartup else .conservation
        recoveryWindow := 0
        currentRoundTripEnd := s.lastSentPacket }
    else s
  else
    -- the cases of conservation fall through to that of growth
    let s := if isRoundStart then { s with recoveryState := .growth } else s
    if !hasLosses && s.endRecoveryAt < lastAcked then { s with recoveryState := .notInRecovery }
    else s

def checkIfFullBandwidthReached : BbrSender :=
  if e.isAppLimited then s
  else if e.bandwidthGrows then { s with roundsWithoutBandwidthGain := 0 }
  else
    let s := { s with roundsWithoutBandwidthGain := s.roundsWithoutBandwidthGain + 1 }
    if s.numStartupRtts ≤ s.roundsWithoutBandwidthGain ∨ s.exitStartupOnLoss ∧ s.inRecovery then
      { s with isAtFullBandwidth := true }
    else s

def maybeExitStartupOrDrain : BbrSender :=
  let s := if s.mode = .startup ∧ s.isAtFullBandwidth then { s with mode := .drain } else s
  if s.mode = .drain ∧ e.bytesInFlight ≤ getTargetCongestionWindow e.product .one then
    { s with mode := .probeBw } else s

/-- A round in `PROBE_RTT`. -/
def probeRttRound (isRoundStart : Bool) : BbrSender :=
  if s.exitProbeRttAt = 0 then
    if e.bytesInFlight < s.probeRttCongestionWindow e.product + kMaxPacketSize then
      { s with exitProbeRttAt := e.now + kProbeRttTime, probeRttRoundPassed := false }
    else s
  else
    let s := { s with probeRttRoundPassed := s.probeRttRoundPassed || isRoundStart }
    if s.exitProbeRttAt ≤ e.now ∧ s.probeRttRoundPassed then
      { s with mode := if s.isAtFullBandwidth then .probeBw else .startup }
    else s

def maybeEnterOrExitProbeRtt (isRoundStart minRttExpired : Bool) : BbrSender :=
  let s := if minRttExpired ∧ !s.exitingQuiescence ∧ s.mode ≠ .probeRtt then
    { s with mode := .probeRtt, exitProbeRttAt := 0 } else s
  let s := if s.mode = .probeRtt then s.probeRttRound e isRoundStart else s
  { s with exitingQuiescence := false }

def calculateCongestionWindow : BbrSender :=
  if s.mode = .probeRtt then s
  else
    let target := wrap64 (getTargetCongestionWindow e.product .congestionWindow + e.extra)
    let window :=
      if s.isAtFullBandwidth then min target (wrap64 (s.congestionWindow + e.bytesAcked))
      else if s.congestionWindow < target ∨ e.totalBytesAcked < s.initialCongestionWindow then
        wrap64 (s.congestionWindow + e.bytesAcked)
      else s.congestionWindow
    { s with congestionWindow := min (max window kMinimumCongestionWindow) s.maxCongestionWindow }

def calculateRecoveryWindow : BbrSender :=
  let allowed := wrap64 (e.bytesInFlight + e.bytesAcked)
  let lost := wrap64 e.bytesLost.sum
  if s.rateBasedRecovery || (s.rateBasedStartup && s.mode = .startup) then s
  else if s.recoveryState = .notInRecovery then s
  else if s.recoveryWindow = 0 then
    { s with recoveryWindow := max kMinimumCongestionWindow allowed }
  else
    let window := if lost ≤ s.recoveryWindow then s.recoveryWindow - lost else kDefaultTCPMSS
    let window := match s.recoveryState with
      | .growth => wrap64 (window + e.bytesAcked)
      | .mediumGrowth => wrap64 (window + e.bytesAcked / 2)
      | _ => window
    { s with recoveryWindow := max kMinimumCongestionWindow (max window allowed) }

/-- What comes before the windows are computed. -/
def updateModel : BbrSender :=
  let (s, isRoundStart) := match e.lastAcked with
    | none => (s, false)
    | some lastAcked =>
      let (s, isRoundStart) := s.updateRoundTripCounter lastAcked
      (s.updateRecoveryState lastAcked (!e.bytesLost.isEmpty) isRoundStart, isRoundStart)
  let s := if isRoundStart && !s.isAtFullBandwidth then s.checkIfFullBandwidthReached e else s
  (s.maybeExitStartupOrDrain e).maybeEnterOrExitProbeRtt e isRoundStart
    (e.lastAcked.isSome && e.minRttExpired)

def onCongestionEvent : BbrSender :=
  ((s.updateModel e).calculateCongestionWindow e).calculateRecoveryWindow e

end BbrSender

inductive BbrCall where
  | setFromConfig (has : BbrOption → Bool)
  | onPacketSent (packetNumber bytesInFlight : ℕ) (isAppLimited : Bool)
  | onCongestionEvent (e : BbrEvent)

namespace BbrSender

/-- A call under the default flags. -/
def call (s : BbrSender) : BbrCall → BbrSender
  | .setFromConfig has => s.setFromConfig {} has
  | .onPacketSent packetNumber bytesInFlight isAppLimited =>
    s.onPacketSent packetNumber bytesInFlight isAppLimited
  | .onCongestionEvent e => s.onCongestionEvent e

variable {s : BbrSender} {e : BbrEvent}

@[simp] theorem updateRecoveryState_window {lastAcked : ℕ} {hasLosses isRoundStart : Bool} :
    (s.updateRecoveryState lastAcked hasLosses isRoundStart).toBbrWindow = s.toBbrWindow := by
  unfold updateRecoveryState
  dsimp only
  split_ifs <;> rfl

@[simp] theorem updateRoundTripCounter_window {lastAcked : ℕ} :
    (s.updateRoundTripCounter lastAcked).1.toBbrWindow = s.toBbrWindow := by
  unfold updateRoundTripCounter
  split <;> rfl

@[simp] theorem checkIfFullBandwidthReached_window :
    (s.checkIfFullBandwidthReached e).toBbrWindow = s.toBbrWindow := by
  unfold checkIfFullBandwidthReached
  dsimp only
  split_ifs <;> rfl

@[simp] theorem maybeExitStartupOrDrain_window :
    (s.maybeExitStartupOrDrain e).toBbrWindow = s.toBbrWindow := by
  unfold maybeExitStartupOrDrain
  dsimp only
  split_ifs <;> rfl

theorem probeRttRound_window {isRoundStart : Bool} :
    (s.probeRttRound e isRoundStart).toBbrWindow = s.toBbrWindow := by
  unfold probeRttRound
  dsimp only
  split_ifs <;> rfl

@[simp] theorem maybeEnterOrExitProbeRtt_window {isRoundStart minRttExpired : Bool} :
    (s.maybeEnterOrExitProbeRtt e isRoundStart minRttExpired).toBbrWindow = s.toBbrWindow := by
  unfold maybeEnterOrExitProbeRtt
  dsimp only
  split_ifs
  · exact probeRttRound_window
  · rfl
  · exact probeRttRound_window
  · rfl

/-- Only the last two functions of an event compute windows. -/
theorem updateModel_window : (s.updateModel e).toBbrWindow = s.toBbrWindow := by
  unfold updateModel
  cases e.lastAcked with
  | none => simp
  | some lastAcked =>
    simp only [maybeEnterOrExitProbeRtt_window, maybeExitStartupOrDrain_window]
    split <;> simp

/-- The invariant: the recovery window is only as large as it must be where it is used. -/
structure Bounded (s : BbrSender) : Prop where
  lower : kMinimumCongestionWindow ≤ s.congestionWindow
  upper : s.congestionWindow ≤ s.maxCongestionWindow
  probe : s.probeRttBasedOnBdp = false
  recovery : s.inRecovery = true → s.rateBasedRecovery = false →
    (s.rateBasedStartup && s.mode = .startup) = false →
    kMinimumCongestionWindow ≤ s.recoveryWindow

theorem Bounded.getCongestionWindow (h : s.Bounded) (product : BbrGain → ℕ) :
    kMinimumCongestionWindow ≤ s.getCongestionWindow product ∧
      s.getCongestionWindow product ≤ s.maxCongestionWindow := by
  have hmax := h.lower.trans h.upper
  unfold BbrSender.getCongestionWindow probeRttCongestionWindow
  rw [h.probe]
  split
  · exact ⟨le_rfl, hmax⟩
  · split
    · next huse =>
      simp only [Bool.and_eq_true, Bool.not_eq_true'] at huse
      have hrecovery := h.recovery huse.1.1 huse.1.2 huse.2
      exact ⟨le_min h.lower hrecovery, (min_le_left _ _).trans h.upper⟩
    · exact ⟨h.lower, h.upper⟩

/-- Where the recovery window is used it has been computed, and is no longer zero. -/
theorem bounded_calculateRecoveryWindow (hlower : kMinimumCongestionWindow ≤ s.congestionWindow)
    (hupper : s.congestionWindow ≤ s.maxCongestionWindow) (hprobe : s.probeRttBasedOnBdp = false) :
    (s.calculateRecoveryWindow e).Bounded := by
  unfold calculateRecoveryWindow
  split
  · next hskip =>
    refine ⟨hlower, hupper, hprobe, fun _ hrate hstartup => ?_⟩
    simp [hrate, hstartup] at hskip
  · split
    · next hnot =>
      refine ⟨hlower, hupper, hprobe, fun hin => ?_⟩
      simp [inRecovery, hnot] at hin
    · split
      · exact ⟨hlower, hupper, hprobe, fun _ _ _ => le_max_left _ _⟩
      · exact ⟨hlower, hupper, hprobe, fun _ _ _ => le_max_left _ _⟩

theorem Bounded.onCongestionEvent (h : s.Bounded) : (s.onCongestionEvent e).Bounded := by
  have hwindow := updateModel_window (s := s) (e := e)
  have hlower : kMinimumCongestionWindow ≤ (s.updateModel e).congestionWindow := hwindow ▸ h.lower
  have hupper : (s.updateModel e).congestionWindow ≤ (s.updateModel e).maxCongestionWindow :=
    hwindow ▸ h.upper
  have hprobe : (s.updateModel e).probeRttBasedOnBdp = false := hwindow ▸ h.probe
  unfold BbrSender.onCongestionEvent calculateCongestionWindow
  split
  · exact bounded_calculateRecoveryWindow hlower hupper hprobe
  · exact bounded_calculateRecoveryWindow (le_min (le_max_right _ _) (hlower.trans hupper))
      (min_le_right _ _) hprobe

theorem Bounded.call (h : s.Bounded) (c : BbrCall) : (s.call c).Bounded := by
  cases c with
  | setFromConfig has =>
    refine ⟨h.lower, h.upper,
      by simp [BbrSender.call, setFromConfig, h.probe], fun hin hrate hstartup => ?_⟩
    simp only [BbrSender.call, setFromConfig, Bool.or_eq_false_iff, Bool.and_eq_false_iff]
      at hrate hstartup
    exact h.recovery hin hrate.1 (Bool.and_eq_false_iff.2 (hstartup.imp_left And.left))
  | onPacketSent => exact ⟨h.lower, h.upper, h.probe, h.recovery⟩
  | onCongestionEvent e => exact h.onCongestionEvent

/-- **The window is within its bounds** after every sequence of calls, if it is so in the beginning.
    -/
theorem getCongestionWindow_bounded (initial max : ℕ)
    (hmin : kMinimumCongestionWindow ≤ (new initial max).congestionWindow)
    (hmax : (new initial max).congestionWindow ≤ (new initial max).maxCongestionWindow)
    (calls : List BbrCall) (product : BbrGain → ℕ) :
    kMinimumCongestionWindow ≤ (calls.foldl call (new initial max)).getCongestionWindow product ∧
      (calls.foldl call (new initial max)).getCongestionWindow product ≤
        (calls.foldl call (new initial max)).maxCongestionWindow := by
  have hnew : (new initial max).Bounded := ⟨hmin, hmax, rfl, nofun⟩
  have hall : (calls.foldl call (new initial max)).Bounded :=
    List.foldlRecOn calls call hnew fun _ h c _ => h.call c
  exact hall.getCongestionWindow product

/-- The sender of a connection, which begins with 32 packets and may have 2000 in flight, loses one
    of three. -/
def lossInStartup : List BbrCall :=
  [.setFromConfig fun _ => true, .onPacketSent 1 0 true, .onPacketSent 2 1452 true,
    .onPacketSent 3 2904 true,
    .onCongestionEvent ⟨some 3, [1452], 100000, 1452, 1452, 1452, false, false, true,
      fun _ => 0, 0⟩]

theorem getCongestionWindow_bounded_loss :
    (lossInStartup.foldl call (new 32 2000)).recoveryWindow = 0 ∧
      kMinimumCongestionWindow ≤ (lossInStartup.foldl call (new 32 2000)).getCongestionWindow
        fun _ => 0 :=
  ⟨by decide, (getCongestionWindow_bounded 32 2000 (by decide) (by decide) lossInStartup fun _ => 0).1⟩

end BbrSender

end Puic
