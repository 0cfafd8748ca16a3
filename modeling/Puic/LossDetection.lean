/-
  Which packets count as lost (`GeneralLossAlgorithm` of general_loss_algorithm.cc).

  `detectLosses` goes through the unacked packets up to the largest newly acked one.  A packet
  in flight is lost if three later packets were acked, if its early retransmit is due, or if it
  was sent more than an RTT before the largest newly acked packet.  The loop stops at the first
  packet whose early retransmit is not due yet.  `detectLosses_exact_iff`: the packets found are
  exactly those that one of the rules names, unless a packet of the third rule comes after the
  one where the loop stops; the timeout is always the earliest deadline.
-/
import Puic.SentPackets

namespace Puic

open Indexed

inductive LossDetectionType where
  | nack
  | time
  | adaptiveTime
  | lazyFack
deriving Repr, DecidableEq

/-- Durations in microseconds. -/
structure RttStats where
  smoothedRtt : ℕ
  previousSrtt : ℕ
  latestRtt : ℕ
deriving Repr, DecidableEq

/-- The unacked packets with the times at which they were sent. -/
structure TimedPacketMap extends UnackedPacketMap where
  sentTime : ℕ → ℕ
  largestSentRetransmittablePacket : ℕ

structure LostPacket where
  packetNumber : ℕ
  bytesLost : ℕ
deriving Repr, DecidableEq

/-- `GeneralLossAlgorithm`; the timeout is 0 (`QuicTime::Zero`) if there is none. -/
structure LossAlgorithm where
  lossDetectionTimeout : ℕ
  lossType : LossDetectionType
  reorderingShift : ℕ
  largestPreviouslyAcked : ℕ
deriving Repr, DecidableEq

namespace LossAlgorithm

def kMinLossDelayMs : ℕ := 5

def kDefaultLossDelayShift : ℕ := 2

def kDefaultAdaptiveLossDelayShift : ℕ := 4

def kNumberOfNacksBeforeRetransmission : ℕ := 3

def new (lossType : LossDetectionType) : LossAlgorithm :=
  ⟨0, lossType, if lossType = .adaptiveTime then
    kDefaultAdaptiveLossDelayShift else kDefaultLossDelayShift, 0⟩

variable (a : LossAlgorithm) (m : TimedPacketMap)

def lossDelay (rtt : RttStats) : ℕ :=
  let maxRtt := max rtt.previousSrtt rtt.latestRtt
  max (kMinLossDelayMs * 1000) (maxRtt + maxRtt >>> a.reorderingShift)

/-- What one round of the loop finds. -/
inductive Verdict where
  | notLost
  | lost
  | notYet (whenLost : ℕ)
deriving Repr, DecidableEq

def earlyRetransmits (largestNewlyAcked : ℕ) (i : TransmissionInfo) : Bool :=
  (!i.retransmittableFrames.isEmpty && decide (m.largestSentRetransmittablePacket ≤ largestNewlyAcked)) ||
    decide (a.lossType = .time ∨ a.lossType = .adaptiveTime)

/-- FACK, at once or after two acks in order. -/
def fack (largestNewlyAcked p : ℕ) : Bool :=
  match a.lossType with
  | .nack => decide (kNumberOfNacksBeforeRetransmission ≤ largestNewlyAcked - p)
  | .lazyFack => decide (a.largestPreviouslyAcked < largestNewlyAcked ∧ p < a.largestPreviouslyAcked ∧
      kNumberOfNacksBeforeRetransmission - 1 ≤ a.largestPreviouslyAcked - p)
  | _ => false

def judge (time : ℕ) (rtt : RttStats) (largestNewlyAcked p : ℕ)
    (i : TransmissionInfo) : Verdict :=
  if !i.inFlight then .notLost
  else if a.fack largestNewlyAcked p then .lost
  else if a.earlyRetransmits m largestNewlyAcked i then
    let whenLost := m.sentTime p + a.lossDelay rtt
    if time < whenLost then .notYet whenLost else .lost
  else if m.sentTime p + rtt.smoothedRtt < m.sentTime largestNewlyAcked then .lost
  else .notLost

/-- The loop of `DetectLosses` from packet `p` on: the timeout and the lost packets. -/
def detectFrom (judge : ℕ → TransmissionInfo → Verdict) (largestNewlyAcked : ℕ) :
    ℕ → List TransmissionInfo → List LostPacket → ℕ × List LostPacket
  | _, [], packetsLost => (0, packetsLost)
  | p, i :: infos, packetsLost =>
    if largestNewlyAcked < p then (0, packetsLost)
    else
      match judge p i with
      | .notLost => detectFrom judge largestNewlyAcked (p + 1) infos packetsLost
      | .lost => detectFrom judge largestNewlyAcked (p + 1) infos (packetsLost ++ [⟨p, i.bytesSent⟩])
      | .notYet whenLost => (whenLost, packetsLost)

def detectLosses (time : ℕ) (rtt : RttStats) (largestNewlyAcked : ℕ)
    (packetsLost : List LostPacket) : LossAlgorithm × List LostPacket :=
  let r := detectFrom (a.judge m time rtt largestNewlyAcked) largestNewlyAcked m.leastUnacked
    m.unackedPackets.items
    packetsLost
  ({ a with lossDetectionTimeout := r.1, largestPreviouslyAcked := largestNewlyAcked }, r.2)

def getLossTimeout : ℕ := a.lossDetectionTimeout

/-! ## The loop -/

section Loop

variable {judge : ℕ → TransmissionInfo → Verdict} {largest p q : ℕ} {i j : TransmissionInfo}
  {infos : List TransmissionInfo} {packetsLost : List LostPacket}

/-- The loop comes to packet `p`: it is not above `largest`, and nothing before it is not due yet. -/
def Reaches (judge : ℕ → TransmissionInfo → Verdict) (largest : ℕ) (d : Indexed TransmissionInfo)
    (p : ℕ) : Prop :=
  p ≤ largest ∧ ∀ q j t, q < p → d.get? q = some j → judge q j ≠ .notYet t

theorem base_le (h : (⟨p, infos⟩ : Indexed TransmissionInfo).get? q = some j) : p ≤ q := (lt_top h).1

theorem reaches_cons (infos : List TransmissionInfo) (hne : ∀ t, judge p i ≠ .notYet t) :
    Reaches judge largest ⟨p, i :: infos⟩ q ↔ Reaches judge largest ⟨p + 1, infos⟩ q := by
  refine and_congr_right fun _ => forall_congr' fun r => ?_
  simp only [get?_cons]
  split
  · next hr =>
    subst hr
    constructor
    · intro _ j t _ hj
      have := base_le hj
      omega
    · intro _ j t _ hj
      cases hj
      exact hne t
  · rfl

theorem detectFrom_spec : ∃ new, (detectFrom judge largest p infos packetsLost).2 = packetsLost ++ new ∧
    (new.map LostPacket.packetNumber).Pairwise (· < ·) ∧
    ∀ x, x ∈ new ↔ ∃ i, (⟨p, infos⟩ : Indexed TransmissionInfo).get? x.packetNumber = some i ∧
      x.bytesLost = i.bytesSent ∧ judge x.packetNumber i = .lost ∧
        Reaches judge largest ⟨p, infos⟩ x.packetNumber := by
  induction infos generalizing p packetsLost with
  | nil => exact ⟨[], by simp [detectFrom], .nil, fun x => by simp [get?]⟩
  | cons i infos ih =>
    unfold detectFrom
    split
    · next hlt =>
      refine ⟨[], by simp, .nil, fun x => ?_⟩
      simp only [List.not_mem_nil, false_iff]
      rintro ⟨j, hj, -, -, hreach⟩
      have := base_le hj
      have := hreach.1
      omega
    next hle =>
    split
    · next hi =>
      obtain ⟨new, hnew, hsorted, hmem⟩ := @ih (p + 1) packetsLost
      refine ⟨new, hnew, hsorted, fun x => (hmem x).trans (exists_congr fun j => ?_)⟩
      rw [reaches_cons infos (by simp [hi]), get?_cons]
      split
      · next hx =>
        constructor
        · rintro ⟨hj, -⟩
          have := base_le hj
          omega
        · rintro ⟨hj, -, hlost, -⟩
          cases hj
          rw [hx, hi] at hlost
          cases hlost
      · rfl
    · next hi =>
      obtain ⟨new, hnew, hsorted, hmem⟩ := @ih (p + 1) (packetsLost ++ [⟨p, i.bytesSent⟩])
      refine ⟨⟨p, i.bytesSent⟩ :: new, by rw [hnew]; simp, ?_, fun x => ?_⟩
      · rw [List.map_cons, List.pairwise_cons]
        refine ⟨fun q hq => ?_, hsorted⟩
        obtain ⟨x, hx, rfl⟩ := List.mem_map.1 hq
        obtain ⟨j, hj, -⟩ := (hmem x).1 hx
        exact base_le hj
      · rw [List.mem_cons, hmem]
        simp only [reaches_cons infos (show ∀ t, judge p i ≠ .notYet t by simp [hi]), get?_cons]
        constructor
        · rintro (rfl | ⟨j, hj, hx⟩)
          · refine ⟨i, if_pos rfl, rfl, hi, Nat.le_of_not_lt hle, fun q j t hq hj => ?_⟩
            have := base_le hj
            dsimp only at hq
            omega
          · have := base_le hj
            exact ⟨j, by rwa [if_neg (by omega)], hx⟩
        · rintro ⟨j, hj, hbytes, hx⟩
          split at hj
          · next hp =>
            cases hj
            exact .inl (by cases x; cases hp; cases hbytes; rfl)
          · exact .inr ⟨j, hj, hbytes, hx⟩
    · next t hi =>
      refine ⟨[], by simp, .nil, fun x => ?_⟩
      simp only [List.not_mem_nil, false_iff]
      rintro ⟨j, hj, -, hlost, hreach⟩
      rcases Nat.eq_or_lt_of_le (base_le hj) with hx | hx
      · rw [get?_cons, if_pos hx.symm] at hj
        cases hj
        rw [← hx, hi] at hlost
        cases hlost
      · exact hreach.2 p i t hx (by rw [get?_cons, if_pos rfl]) hi

/-- The timeout is 0 if the loop goes to its end, and else the deadline of the packet where it stops. -/
def Stops (judge : ℕ → TransmissionInfo → Verdict) (largest : ℕ) (d : Indexed TransmissionInfo)
    (timeout : ℕ) : Prop :=
  (timeout = 0 ∧ ∀ q j t, d.get? q = some j → q ≤ largest → judge q j ≠ .notYet t) ∨
    ∃ q j, d.get? q = some j ∧ judge q j = .notYet timeout ∧ Reaches judge largest d q

theorem stops_cons {timeout : ℕ} (hne : ∀ t, judge p i ≠ .notYet t)
    (h : Stops judge largest ⟨p + 1, infos⟩ timeout) :
    Stops judge largest ⟨p, i :: infos⟩ timeout := by
  unfold Stops
  simp only [reaches_cons infos hne, get?_cons]
  rcases h with ⟨hzero, hnone⟩ | ⟨q, j, hj, hq⟩
  · refine .inl ⟨hzero, fun q j t hj hle => ?_⟩
    split at hj
    · next hq =>
      cases hj
      rw [hq]
      exact hne t
    · exact hnone q j t hj hle
  · have := base_le hj
    exact .inr ⟨q, j, by rwa [if_neg (by omega)], hq⟩

theorem detectFrom_timeout :
    Stops judge largest ⟨p, infos⟩ (detectFrom judge largest p infos packetsLost).1 := by
  induction infos generalizing p packetsLost with
  | nil => exact .inl ⟨rfl, fun q j t hj => by simp [get?] at hj⟩
  | cons i infos ih =>
    unfold detectFrom
    split
    · next hlt =>
      refine .inl ⟨rfl, fun q j t hj hle => ?_⟩
      have := base_le hj
      omega
    next hle =>
    split
    · next hi => exact stops_cons (by simp [hi]) ih
    · next hi => exact stops_cons (by simp [hi]) ih
    · next t hi =>
      refine .inr ⟨p, i, by rw [get?_cons, if_pos rfl], hi, Nat.le_of_not_lt hle, fun q j t hq hj => ?_⟩
      have := base_le hj
      omega

def Verdict.at (later : ℕ) : Verdict → Verdict
  | .notYet whenLost => if later < whenLost then .notYet whenLost else .lost
  | v => v

theorem detectFrom_later {judge' : ℕ → TransmissionInfo → Verdict} {time later : ℕ}
    (hjudge : ∀ p i, judge' p i = (judge p i).at later ∧ ∀ t, judge p i = .notYet t → time < t) :
    let r := detectFrom judge largest p infos packetsLost
    let r' := detectFrom judge' largest p infos packetsLost
    r' = r ∧ (r.1 = 0 ∨ later < r.1) ∨ (time < r.1 ∧ r.1 ≤ later) ∧ ∃ x new, r'.2 = r.2 ++ x :: new := by
  induction infos generalizing p packetsLost with
  | nil => exact .inl ⟨rfl, .inl rfl⟩
  | cons i infos ih =>
    unfold detectFrom
    split
    · exact .inl ⟨rfl, .inl rfl⟩
    rw [(hjudge p i).1]
    cases hi : judge p i with
    | notLost => exact ih
    | lost => exact ih
    | notYet t =>
      by_cases ht : later < t
      · simp [Verdict.at, ht]
      · obtain ⟨new, hnew, -⟩ :=
          @detectFrom_spec judge' largest (p + 1) infos (packetsLost ++ [⟨p, i.bytesSent⟩])
        rw [List.append_assoc] at hnew
        rw [Verdict.at, if_neg ht]
        exact .inr ⟨⟨(hjudge p i).2 t hi, not_lt.1 ht⟩, _, new, hnew⟩

end Loop

/-! ## The three rules -/

section Rules

variable (m : TimedPacketMap) (time : ℕ) (rtt : RttStats) (largest : ℕ)

/-- Early retransmit applies to a packet with retransmittable frames once nothing retransmittable
    was sent after the acked packet. -/
def EarlyRetransmit (i : TransmissionInfo) : Prop :=
  i.retransmittableFrames ≠ [] ∧ m.largestSentRetransmittablePacket ≤ largest

/-- The delay of an early retransmit: 5 ms, or a quarter more than an RTT. -/
def delay : ℕ := max 5000 (max rtt.previousSrtt rtt.latestRtt + max rtt.previousSrtt rtt.latestRtt / 4)

def IsLost (p : ℕ) (i : TransmissionInfo) : Prop :=
  i.inFlight = true ∧ p ≤ largest ∧
    (3 ≤ largest - p ∨ (EarlyRetransmit m largest i ∧ m.sentTime p + delay rtt ≤ time) ∨
      (¬EarlyRetransmit m largest i ∧ m.sentTime p + rtt.smoothedRtt < m.sentTime largest))

/-- A packet that waits for its early retransmit. -/
def Waits (p : ℕ) (i : TransmissionInfo) : Prop :=
  i.inFlight = true ∧ p ≤ largest ∧ largest - p < 3 ∧ EarlyRetransmit m largest i ∧
    time < m.sentTime p + delay rtt

/-- What `DetectLosses` should add to the lost packets, and the timeout it should leave. -/
structure Exact (new : List LostPacket) (timeout : ℕ) : Prop where
  ascending : (new.map LostPacket.packetNumber).Pairwise (· < ·)
  lost : ∀ x, x ∈ new ↔ ∃ i, m.info? x.packetNumber = some i ∧ x.bytesLost = i.bytesSent ∧
    IsLost m time rtt largest x.packetNumber i
  timeout : (timeout = 0 ∧ ∀ p i, m.info? p = some i → ¬Waits m time rtt largest p i) ∨
    ∃ p i, m.info? p = some i ∧ Waits m time rtt largest p i ∧ timeout = m.sentTime p + delay rtt ∧
      ∀ q j, m.info? q = some j → Waits m time rtt largest q j → timeout ≤ m.sentTime q + delay rtt

/-- Behind a packet that waits for its early retransmit there is one without retransmittable frames
    that was sent more than an RTT before the acked packet. -/
def Overtakes : Prop :=
  ∃ p i q j, p < q ∧ m.info? p = some i ∧ m.info? q = some j ∧ Waits m time rtt largest p i ∧
    j.inFlight = true ∧ q ≤ largest ∧ j.retransmittableFrames = [] ∧
    m.sentTime q + rtt.smoothedRtt < m.sentTime largest

end Rules

section Nack

variable {m : TimedPacketMap} {time largest p t : ℕ} {rtt : RttStats} {i : TransmissionInfo}
    {a : LossAlgorithm}

theorem lossDelay_eq (h : a.reorderingShift = kDefaultLossDelayShift) : a.lossDelay rtt = delay rtt := by
  have hshift (x : ℕ) : x >>> kDefaultLossDelayShift = x / 4 := Nat.shiftRight_eq_div_pow x 2
  have hmin : kMinLossDelayMs * 1000 = 5000 := rfl
  unfold lossDelay
  rw [h, hmin]
  exact congrArg (fun x => max 5000 (max rtt.previousSrtt rtt.latestRtt + x)) (hshift _)

theorem earlyRetransmits_iff (h : a.lossType = .nack) :
    a.earlyRetransmits m largest i = true ↔ EarlyRetransmit m largest i := by
  simp [earlyRetransmits, EarlyRetransmit, h]

theorem fack_iff (h : a.lossType = .nack) : a.fack largest p = true ↔ 3 ≤ largest - p := by
  rw [fack, h]
  exact decide_eq_true_iff

theorem judge_eq (hn : a.lossType = .nack) (hs : a.reorderingShift = kDefaultLossDelayShift)
    (hle : p ≤ largest) :
    (a.judge m time rtt largest p i = .lost ↔ IsLost m time rtt largest p i) ∧
    ∀ t, a.judge m time rtt largest p i = .notYet t ↔
      Waits m time rtt largest p i ∧ t = m.sentTime p + delay rtt := by
  unfold judge IsLost Waits
  simp only [lossDelay_eq hs, ← earlyRetransmits_iff hn, ← Nat.not_le, ← fack_iff hn, Bool.not_eq_true',
    and_iff_right hle]
  cases i.inFlight with
  | false => simp
  | true =>
    cases a.fack largest p with
    | true => simp
    | false =>
      cases a.earlyRetransmits m largest i with
      | true =>
        by_cases htime : m.sentTime p + delay rtt ≤ time
        · simp [htime]
        · simp [htime, eq_comm]
      | false =>
        by_cases hrtt : m.sentTime p + rtt.smoothedRtt < m.sentTime largest
        · simp [hrtt]
        · simp [hrtt]

theorem overtakes_iff (hmono : ∀ p q i j, p ≤ q → m.info? p = some i → m.info? q = some j →
    i.inFlight = true →
      j.inFlight = true → m.sentTime p ≤ m.sentTime q) :
    Overtakes m time rtt largest ↔ ∃ p i q j, p < q ∧ m.info? p = some i ∧ m.info? q = some j ∧
      Waits m time rtt largest p i ∧ IsLost m time rtt largest q j := by
  constructor
  · rintro ⟨p, i, q, j, hpq, hi, hj, hwaits, hfly, hle, hnil, hsent⟩
    exact ⟨p, i, q, j, hpq, hi, hj, hwaits, hfly, hle, .inr (.inr ⟨fun hearly => hearly.1 hnil, hsent⟩)⟩
  · rintro ⟨p, i, q, j, hpq, hi, hj, hwaits, hfly, hle, hrule⟩
    obtain ⟨hfly', hle', hnear, hearly, htime⟩ := hwaits
    have hsent := hmono p q i j hpq.le hi hj hfly' hfly
    -- fewer than three packets are left, and a later early retransmit is due later
    rcases hrule with hfack | ⟨hearly', hdue⟩ | ⟨hnot, hrtt⟩
    · omega
    · omega
    · refine ⟨p, i, q, j, hpq, hi, hj, ⟨hfly', hle', hnear, hearly, htime⟩, hfly, hle, ?_, hrtt⟩
      by_contra hne
      exact hnot ⟨hne, hearly.2⟩

theorem reaches_iff (hn : a.lossType = .nack) (hs : a.reorderingShift = kDefaultLossDelayShift) :
    Reaches (a.judge m time rtt largest) largest m.unackedPackets p ↔
      p ≤ largest ∧ ∀ q j, q < p → m.info? q = some j → ¬Waits m time rtt largest q j := by
  refine and_congr_right fun hle => forall_congr' fun q => forall_congr' fun j => ?_
  constructor
  · intro h hq hj hwaits
    exact h _ hq hj (((judge_eq hn hs (by omega)).2 _).2 ⟨hwaits, rfl⟩)
  · intro h t hq hj hjudge
    exact h hq hj (((judge_eq hn hs (by omega)).2 t).1 hjudge).1

theorem detectLosses_lost (m : TimedPacketMap) (time : ℕ) (rtt : RttStats) (largest : ℕ)
    (hn : a.lossType = .nack)
    (hs : a.reorderingShift = kDefaultLossDelayShift) (packetsLost : List LostPacket) :
    ∃ new, (a.detectLosses m time rtt largest packetsLost).2 = packetsLost ++ new ∧
    (new.map LostPacket.packetNumber).Pairwise (· < ·) ∧
    ∀ x, x ∈ new ↔ ∃ i, m.info? x.packetNumber = some i ∧ x.bytesLost = i.bytesSent ∧
      IsLost m time rtt largest x.packetNumber i ∧
      ∀ q j, q < x.packetNumber → m.info? q = some j → ¬Waits m time rtt largest q j := by
  obtain ⟨new, hnew, hascending, hmem⟩ :=
    @detectFrom_spec (a.judge m time rtt largest) largest m.leastUnacked
    m.unackedPackets.items packetsLost
  refine ⟨new, hnew, hascending, fun x => (hmem x).trans (exists_congr fun i => ?_)⟩
  refine and_congr_right fun _ => and_congr_right fun _ => ?_
  refine (and_congr_right fun _ => reaches_iff hn hs).trans ?_
  constructor
  · rintro ⟨hjudge, hle, hnone⟩
    exact ⟨(judge_eq hn hs hle).1.1 hjudge, hnone⟩
  · rintro ⟨hlost, hnone⟩
    have hle := hlost.2.1
    exact ⟨(judge_eq hn hs hle).1.2 hlost, hle, hnone⟩

/-- The timeout is the earliest deadline, since packets were sent in order. -/
theorem getLossTimeout_spec (hn : a.lossType = .nack) (hs : a.reorderingShift = kDefaultLossDelayShift)
    (hmono : ∀ p q i j, p ≤ q → m.info? p = some i → m.info? q = some j → i.inFlight = true →
      j.inFlight = true → m.sentTime p ≤ m.sentTime q) (packetsLost : List LostPacket) :
    ((a.detectLosses m time rtt largest packetsLost).1.getLossTimeout = 0 ∧
      ∀ p i, m.info? p = some i → ¬Waits m time rtt largest p i) ∨
    ∃ p i, m.info? p = some i ∧ Waits m time rtt largest p i ∧
      (a.detectLosses m time rtt largest packetsLost).1.getLossTimeout = m.sentTime p + delay rtt ∧
      ∀ q j, m.info? q = some j → Waits m time rtt largest q j →
        (a.detectLosses m time rtt largest packetsLost).1.getLossTimeout ≤ m.sentTime q + delay rtt := by
  have hstops : Stops (a.judge m time rtt largest) largest m.unackedPackets
      (a.detectLosses m time rtt largest packetsLost).1.getLossTimeout := detectFrom_timeout
  rcases hstops with ⟨hzero, hnone⟩ | ⟨p, i, hi, hjudge, hreach⟩
  · refine .inl ⟨hzero, fun p i hi hwaits => ?_⟩
    have hle := hwaits.2.1
    exact hnone p i _ hi hle (((judge_eq hn hs hle).2 _).2 ⟨hwaits, rfl⟩)
  · obtain ⟨hle, hfirst⟩ := (reaches_iff hn hs).1 hreach
    obtain ⟨hwaits, htimeout⟩ := ((judge_eq hn hs hle).2 _).1 hjudge
    refine .inr ⟨p, i, hi, hwaits, htimeout, fun q j hj hq => ?_⟩
    have hpq : p ≤ q := by
      by_contra hlt
      exact hfirst q j (by omega) hj hq
    have hsent := hmono p q i j hpq hi hj hwaits.1 hq.1
    omega

/-- **Loss detection is exact**, for any unacked packets sent in order, unless a packet of the third
    rule comes after one that waits for its early retransmit. -/
theorem detectLosses_exact_iff {packetsLost : List LostPacket} (hn : a.lossType = .nack)
    (hs : a.reorderingShift = kDefaultLossDelayShift)
    (hmono : ∀ p q i j, p ≤ q → m.info? p = some i → m.info? q = some j → i.inFlight = true →
      j.inFlight = true → m.sentTime p ≤ m.sentTime q) :
    (∃ new, (a.detectLosses m time rtt largest packetsLost).2 = packetsLost ++ new ∧
      Exact m time rtt largest new (a.detectLosses m time rtt largest packetsLost).1.getLossTimeout) ↔
    ¬Overtakes m time rtt largest := by
  obtain ⟨new, hnew, hascending, hmem⟩ := detectLosses_lost m time rtt largest hn hs packetsLost
  constructor
  · rintro ⟨new', hnew', hexact⟩ hover
    obtain rfl : new' = new := List.append_cancel_left (hnew'.symm.trans hnew)
    obtain ⟨p, i, q, j, hpq, hi, hj, hwaits, hlost⟩ := (overtakes_iff hmono).1 hover
    obtain ⟨-, -, -, -, hnone⟩ := (hmem ⟨q, j.bytesSent⟩).1 ((hexact.lost _).2 ⟨j, hj, rfl, hlost⟩)
    exact hnone p i hpq hi hwaits
  · intro hover
    refine ⟨new, hnew, hascending, fun x => (hmem x).trans (exists_congr fun j => ?_),
      getLossTimeout_spec hn hs hmono _⟩
    refine and_congr_right fun hj => and_congr_right fun _ => and_iff_left_of_imp fun hlost => ?_
    intro p i hp hi hwaits
    exact hover ((overtakes_iff hmono).2 ⟨p, i, _, j, hp, hi, hj, hwaits, hlost⟩)

/-- Packets 1 and 2 are in flight, and the frames of packet 2 went elsewhere; packet 3 was acked. -/
def framesMoved : TimedPacketMap where
  unackedPackets := ⟨1, [⟨[⟨0, some 5⟩], .forwardSecure, 1000, true, false, false, 0, 0, []⟩,
    ⟨[], .forwardSecure, 1000, true, false, false, 0, 0, []⟩,
    ⟨[], .forwardSecure, 1000, false, true, false, 0, 0, []⟩]⟩
  largestSentPacket := 3
  largestObserved := 3
  bytesInFlight := 2000
  pendingCryptoPacketCount := 0
  sentTime p := if p < 3 then 1000 else 3000
  largestSentRetransmittablePacket := 3

/-- Later both packets are lost: the early retransmit of packet 1 is due, and packet 2 was sent more than
    an RTT before packet 3. -/
theorem detectLosses_exact_iff_due :
    ((new .nack).detectLosses framesMoved 6000 ⟨1000, 1000, 1000⟩ 3 []).2 = [⟨1, 1000⟩, ⟨2, 1000⟩] ∧
    Exact framesMoved 6000 ⟨1000, 1000, 1000⟩ 3 [⟨1, 1000⟩, ⟨2, 1000⟩] 0 := by
  have hlost : ((new .nack).detectLosses framesMoved 6000 ⟨1000, 1000, 1000⟩ 3 []).2 =
      [⟨1, 1000⟩, ⟨2, 1000⟩] := by
    decide +kernel
  have hzero : ((new .nack).detectLosses framesMoved 6000 ⟨1000, 1000, 1000⟩
      3 []).1.getLossTimeout = 0 := by
    decide +kernel
  have hover : ¬Overtakes framesMoved 6000 ⟨1000, 1000, 1000⟩ 3 := by
    rintro ⟨p, i, q, j, hpq, hi, -, hwaits, -, hq, -⟩
    have htime := hwaits.2.2.2.2
    rw [framesMoved] at htime
    dsimp only at htime
    rw [if_pos (by omega)] at htime
    exact absurd htime (by decide)
  have hmono : ∀ p q i j, p ≤ q → framesMoved.info? p = some i → framesMoved.info? q = some j →
      i.inFlight = true → j.inFlight = true → framesMoved.sentTime p ≤ framesMoved.sentTime q := by
    intro p q _ _ hpq _ _ _ _
    simp only [framesMoved]
    split <;> split <;> omega
  obtain ⟨found, hnew, hexact⟩ :=
    (@detectLosses_exact_iff framesMoved 6000 3 ⟨1000, 1000, 1000⟩ (new .nack) [] rfl rfl hmono).2 hover
  rw [hlost, List.nil_append] at hnew
  rw [hzero, ← hnew] at hexact
  exact ⟨hlost, hexact⟩

/-- As long as packet 1 waits, the loop does not come to packet 2. -/
theorem detectLosses_exact_overtaken :
    ((new .nack).detectLosses framesMoved 4000 ⟨1000, 1000, 1000⟩ 3 []).2 = [] ∧
    (∃ j, framesMoved.info? 2 = some j ∧ IsLost framesMoved 4000 ⟨1000, 1000, 1000⟩ 3 2 j) ∧
    ¬∃ found, ((new .nack).detectLosses framesMoved 4000 ⟨1000, 1000, 1000⟩ 3 []).2 = [] ++ found ∧
      Exact framesMoved 4000 ⟨1000, 1000, 1000⟩ 3 found
        ((new .nack).detectLosses framesMoved 4000 ⟨1000, 1000, 1000⟩ 3 []).1.getLossTimeout := by
  have hnone : ((new .nack).detectLosses framesMoved 4000 ⟨1000, 1000, 1000⟩ 3 []).2 = [] := by
    decide +kernel
  have hlost : IsLost framesMoved 4000 ⟨1000, 1000, 1000⟩ 3 2
      ⟨[], .forwardSecure, 1000, true, false, false, 0, 0, []⟩ :=
    ⟨rfl, by decide, .inr (.inr ⟨fun hearly => hearly.1 rfl, by decide⟩)⟩
  refine ⟨hnone, ⟨_, rfl, hlost⟩, ?_⟩
  rintro ⟨found, hfound, hexact⟩
  subst hfound
  exact absurd ((hexact.lost ⟨2, 1000⟩).2 ⟨_, rfl, rfl, hlost⟩) List.not_mem_nil

theorem judge_later {later : ℕ} (hle : time ≤ later) :
    a.judge m later rtt largest p i = (a.judge m time rtt largest p i).at later ∧
      ∀ t, a.judge m time rtt largest p i = .notYet t → time < t := by
  unfold judge
  split_ifs <;> grind [Verdict.at]

/-- **The loss timer is exact**, in every mode.  Had the call come later, it would have found the same as
    long as the timer is not due, and at least one packet more as soon as it is. -/
theorem loss_timer_exact {later : ℕ} (hle : time ≤ later) (packetsLost : List LostPacket) :
    let r := a.detectLosses m time rtt largest packetsLost
    let r' := a.detectLosses m later rtt largest packetsLost
    r' = r ∧ (r.1.getLossTimeout = 0 ∨ later < r.1.getLossTimeout) ∨
      (time < r.1.getLossTimeout ∧ r.1.getLossTimeout ≤ later) ∧ ∃ x new, r'.2 = r.2 ++ x :: new := by
  have hfrom := @detectFrom_later _ largest m.leastUnacked m.unackedPackets.items packetsLost _ time later
    fun p i => @judge_later m time largest p rtt i a later hle
  refine hfrom.imp_left fun ⟨he, ht⟩ => ⟨?_, ht⟩
  unfold detectLosses
  rw [he]

theorem loss_timer_exact_due :
    ∃ x found, ((new .nack).detectLosses framesMoved 6000 ⟨1000, 1000, 1000⟩ 3 []).2 =
    ((new .nack).detectLosses framesMoved 4000 ⟨1000, 1000, 1000⟩ 3 []).2 ++ x :: found :=
  ((@loss_timer_exact framesMoved 4000 3 ⟨1000, 1000, 1000⟩ (new .nack) 6000 (by decide) []).resolve_left
    (by decide +kernel)).2

end Nack

end LossAlgorithm

end Puic
