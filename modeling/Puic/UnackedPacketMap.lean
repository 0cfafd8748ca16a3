/-
  The packets a sender still cares about (`QuicUnackedPacketMap`).

  Every sent packet has a `TransmissionInfo` until nothing depends on it any more.
  The retransmittable frames of a packet move to its retransmission, and the old
  packet is linked to the new one, so that an ACK of either settles the frames
  (`RemoveRetransmittability` goes along the links and deletes the frames at their
  end).  `Accounts` is what every operation keeps: the two counters are what they
  should be, links rise, and only the end of a chain holds frames.

  `serial` and `carried` are not part of the code: the first tells frames apart (in
  the code they are objects), the second remembers which frames a packet was sent
  with, as long as an ACK of the packet counts for them.
-/
import Puic.Lib.Indexed
import Puic.Lib.Links
import Mathlib.Algebra.Order.Ring.Nat
import Mathlib.Algebra.Order.Group.Multiset

namespace Puic

open Indexed Option

inductive EncryptionLevel where
  | none
  | initial
  | forwardSecure
deriving Repr, DecidableEq

inductive TransmissionType where
  | notRetransmission
  | handshakeRetransmission
  | allUnackedRetransmission
  | allInitialRetransmission
  | lossRetransmission
  | rtoRetransmission
  | tlpRetransmission
  | probingRetransmission
deriving Repr, DecidableEq

/-- After a change of version or encryption, old packets are not linked to new ones. -/
def TransmissionType.unlinked (type : TransmissionType) : Bool :=
  type = .allInitialRetransmission || type = .allUnackedRetransmission

/-- A retransmittable frame; `stream` is the stream of a STREAM frame. -/
structure SentFrame where
  serial : ℕ
  stream : Option ℕ
deriving Repr, DecidableEq

/-- `SerializedPacket`. -/
structure SerializedPacket where
  packetNumber : ℕ
  encryptedLength : ℕ
  encryptionLevel : EncryptionLevel
  hasCryptoHandshake : Bool
  retransmittableFrames : List SentFrame
  originalPacketNumber : ℕ
  transmissionType : TransmissionType
  largestAcked : ℕ
deriving Repr, DecidableEq

/-- `QuicTransmissionInfo`. -/
structure TransmissionInfo where
  retransmittableFrames : List SentFrame
  encryptionLevel : EncryptionLevel
  bytesSent : ℕ
  inFlight : Bool
  isUnackable : Bool
  hasCryptoHandshake : Bool
  retransmission : ℕ
  largestAcked : ℕ
  carried : List SentFrame
deriving Repr, DecidableEq

namespace TransmissionInfo

/-- The entry for a packet number that was never sent. -/
def unsent : TransmissionInfo := ⟨[], .none, 0, false, true, false, 0, 0, []⟩

/-- A packet that is about to be entered. -/
def ofPacket (packet : SerializedPacket) : TransmissionInfo :=
  ⟨[], packet.encryptionLevel, packet.encryptedLength, false, false, packet.hasCryptoHandshake, 0,
    packet.largestAcked, []⟩

def flying (i : TransmissionInfo) : ℕ := if i.inFlight then i.bytesSent else 0

def crypto (i : TransmissionInfo) : ℕ :=
  if i.hasCryptoHandshake ∧ i.retransmittableFrames ≠ [] then 1 else 0

end TransmissionInfo

/-- `QuicUnackedPacketMap`: `unacked_packets_` is numbered from `least_unacked_` on. -/
structure UnackedPacketMap where
  unackedPackets : Indexed TransmissionInfo
  largestSentPacket : ℕ
  largestObserved : ℕ
  bytesInFlight : ℕ
  pendingCryptoPacketCount : ℕ

namespace UnackedPacketMap

open TransmissionInfo

def new : UnackedPacketMap := ⟨⟨1, []⟩, 0, 0, 0, 0⟩

variable (m : UnackedPacketMap) (p : ℕ)

def leastUnacked : ℕ := m.unackedPackets.base

def info? : Option TransmissionInfo := m.unackedPackets.get? p

def modify (f : TransmissionInfo → TransmissionInfo) : UnackedPacketMap :=
  { m with unackedPackets := m.unackedPackets.modify p f }

def frames : List SentFrame := (m.info? p).elim [] (·.retransmittableFrames)

/-- All frames that are waiting for an ACK. -/
def held : Multiset SentFrame :=
  Indexed.total (fun i => (i.retransmittableFrames : Multiset SentFrame)) m.unackedPackets

/-- The packet that `p` was retransmitted as. -/
def next : ℕ := (m.info? p).elim 0 (·.retransmission)

/-- `IsPacketUseless`. -/
def isPacketUseless (largestObserved p : ℕ) (i : TransmissionInfo) : Bool :=
  let usefulForMeasuringRtt := !i.isUnackable && decide (largestObserved < p)
  let usefulForCongestionControl := i.inFlight
  let usefulForRetransmittableData :=
    !i.retransmittableFrames.isEmpty || decide (largestObserved < i.retransmission)
  !usefulForMeasuringRtt && !usefulForCongestionControl && !usefulForRetransmittableData

def isUnacked : Bool :=
  match m.info? p with
  | some i => !isPacketUseless m.largestObserved p i
  | none => false

def removeObsoletePackets : UnackedPacketMap :=
  { m with unackedPackets :=
      .popWhile (isPacketUseless m.largestObserved) m.unackedPackets.base m.unackedPackets.items }

/-- What a retransmission does to the old packet: its frames are swapped for those of the new one. -/
def handOver (new : ℕ) (type : TransmissionType) (frames : List SentFrame) (i : TransmissionInfo) :
    TransmissionInfo :=
  { i with
    retransmittableFrames := frames
    hasCryptoHandshake := false
    isUnackable := i.isUnackable || type.unlinked
    retransmission := if type.unlinked then i.retransmission else new }

/-- An ACK of a packet no longer counts for the frames. -/
def disown (frames : List SentFrame) (i : TransmissionInfo) : TransmissionInfo :=
  { i with carried := i.carried.filter (· ∉ frames) }

/-- The map after the old packet `i` has handed over its frames. -/
def handedOver (old new : ℕ) (type : TransmissionType) (frames : List SentFrame)
    (i : TransmissionInfo) : UnackedPacketMap :=
  let m := m.modify old (handOver new type frames)
  if type.unlinked then
    { m with unackedPackets := m.unackedPackets.map (disown i.retransmittableFrames) } else m

/-- The entry of a retransmission of `i`. -/
def takeOver (info i : TransmissionInfo) : TransmissionInfo :=
  { info with
    retransmittableFrames := i.retransmittableFrames
    hasCryptoHandshake := i.hasCryptoHandshake
    carried := i.retransmittableFrames }

/-- `TransferRetransmissionInfo` also fills in the entry of the new packet. -/
def transferRetransmissionInfo (old new : ℕ) (type : TransmissionType)
    (info : TransmissionInfo) : UnackedPacketMap × TransmissionInfo :=
  if old < m.leastUnacked then (m, info)
  else if m.largestSentPacket < old then (m, info)
  else match m.info? old with
    | none => (m, info)
    | some i => ((m.handedOver old new type info.retransmittableFrames i).removeObsoletePackets,
        takeOver info i)

/-- The numbers that were skipped are entered as unackable. -/
def skipTo (n : ℕ) : UnackedPacketMap :=
  { m with unackedPackets := m.unackedPackets.pad unsent (n - m.unackedPackets.top) }

/-- The end of `AddSentPacket`. -/
def enter (n : ℕ) (info : TransmissionInfo) (setInFlight : Bool) : UnackedPacketMap :=
  { m with
    largestSentPacket := n
    bytesInFlight := if setInFlight then m.bytesInFlight + info.bytesSent else m.bytesInFlight
    unackedPackets := m.unackedPackets.push { info with inFlight := setInFlight } }

/-- The entry of a new packet, which takes the frames along. -/
def firstSent (packet : SerializedPacket) : TransmissionInfo :=
  { ofPacket packet with
    retransmittableFrames := packet.retransmittableFrames, carried := packet.retransmittableFrames }

def countCrypto (hasCryptoHandshake : Bool) : UnackedPacketMap :=
  { m with pendingCryptoPacketCount :=
      if hasCryptoHandshake then m.pendingCryptoPacketCount + 1 else m.pendingCryptoPacketCount }

def addSentPacket (packet : SerializedPacket) (old : ℕ) (type : TransmissionType)
    (setInFlight : Bool) : UnackedPacketMap :=
  let n := packet.packetNumber
  let m := m.skipTo n
  if 0 < old then
    let (m, info) := m.transferRetransmissionInfo old n type (ofPacket packet)
    m.enter n info setInFlight
  else (m.countCrypto packet.hasCryptoHandshake).enter n (firstSent packet) setInFlight

def removeFromInFlight : UnackedPacketMap :=
  match m.info? p with
  | some i =>
    if i.inFlight then
      { m.modify p ({ · with inFlight := false }) with bytesInFlight := m.bytesInFlight - i.bytesSent }
    else m
  | none => m

/-- `DeleteFrames` and the end of the handshake data of a packet. -/
def deleteFrames (i : TransmissionInfo) : UnackedPacketMap :=
  { m.modify p ({ · with retransmittableFrames := [], hasCryptoHandshake := false }) with
    pendingCryptoPacketCount :=
      if i.hasCryptoHandshake then m.pendingCryptoPacketCount - 1 else m.pendingCryptoPacketCount }

/-- `RemoveRetransmittability`: the links are followed for at most `fuel` steps. -/
def removeRetransmittabilityFor : ℕ → ℕ → UnackedPacketMap → UnackedPacketMap
  | 0, _, m => m
  | fuel + 1, p, m =>
    match m.info? p with
    | some i =>
      if i.retransmission ≠ 0 then
        removeRetransmittabilityFor fuel i.retransmission (m.modify p ({ · with retransmission := 0 }))
      else m.deleteFrames p i
    | none => m

/-- A chain has at most as many links as there are packets. -/
def removeRetransmittability : UnackedPacketMap :=
  removeRetransmittabilityFor m.unackedPackets.items.length p m

/-- `GetNewestRetransmission`. -/
def newestRetransmission : ℕ :=
  Links.follow m.next m.unackedPackets.items.length p

/-- One packet of `CancelRetransmissionsForStream`. -/
def cancelIn (id : ℕ) (m : UnackedPacketMap) (p : ℕ) : UnackedPacketMap :=
  match m.info? p with
  | some i =>
    if i.retransmittableFrames = [] then m
    else
      let frames := i.retransmittableFrames.filter (·.stream ≠ some id)
      let m := m.modify p ({ · with retransmittableFrames := frames })
      if frames = [] then m.removeRetransmittability p else m
  | none => m

def cancelRetransmissionsForStream (id : ℕ) : UnackedPacketMap :=
  m.unackedPackets.numbers.foldl (cancelIn id) m

/-! ## What the map accounts for -/

variable {m m' : UnackedPacketMap} {p q n b c bound : ℕ} {i j : TransmissionInfo} {id : ℕ}
  {f : TransmissionInfo → TransmissionInfo}

/-- Handshake data is data, links rise, and a packet that was retransmitted has handed over its frames. -/
structure Entry (bound p : ℕ) (i : TransmissionInfo) : Prop where
  handshake : i.hasCryptoHandshake = true → i.retransmittableFrames ≠ []
  link : i.retransmission ≠ 0 → p < i.retransmission ∧ i.retransmission ≤ bound
  tail : i.retransmittableFrames ≠ [] → i.retransmission = 0

/-- The counters and the entries are right; `c` handshake packets are not in the map yet. -/
structure Booked (bound c : ℕ) (m : UnackedPacketMap) : Prop where
  bytes : m.bytesInFlight = Indexed.total flying m.unackedPackets
  crypto : m.pendingCryptoPacketCount = Indexed.total crypto m.unackedPackets + c
  entry : ∀ p i, m.info? p = some i → Entry bound p i
  least : 0 < m.leastUnacked

structure Accounts (m : UnackedPacketMap) : Prop extends Booked m.largestSentPacket 0 m where
  top : m.unackedPackets.top = m.largestSentPacket + 1

theorem accounts_new : Accounts new where
  bytes := rfl
  crypto := rfl
  entry p i h := by simp [info?, new, get?] at h
  least := by decide
  top := rfl

@[simp] theorem modify_least : (m.modify p f).leastUnacked = m.leastUnacked := modify_base

theorem info?_modify : (m.modify p f).info? q = if q = p then (m.info? q).map f else m.info? q :=
  get?_modify

theorem Entry.mono (h : Entry bound p i) (hb : bound ≤ b) : Entry b p i :=
  ⟨h.handshake, fun hl => ⟨(h.link hl).1, (h.link hl).2.trans hb⟩, h.tail⟩

theorem Booked.update (h : Booked bound c m) (hi : m.info? p = some i) (he : Entry bound p (f i))
    {bytes count d : ℕ}
    (hb : bytes + flying i = m.bytesInFlight + flying (f i))
    (hc : count + TransmissionInfo.crypto i + c =
      m.pendingCryptoPacketCount + TransmissionInfo.crypto (f i) + d) :
    Booked bound d { m.modify p f with bytesInFlight := bytes, pendingCryptoPacketCount := count } where
  bytes := by
    have ht : _ + _ = _ + _ := total_modify (f := f) flying hi
    have := h.bytes
    show bytes = total flying (m.unackedPackets.modify p f)
    omega
  crypto := by
    have ht : _ + _ = _ + _ := total_modify (f := f) TransmissionInfo.crypto hi
    have := h.crypto
    show count = total TransmissionInfo.crypto (m.unackedPackets.modify p f) + d
    omega
  entry q j hq := by
    have hq' : (m.modify p f).info? q = some j := hq
    rw [info?_modify] at hq'
    split at hq'
    · next hqp =>
      rw [hqp, hi] at hq'
      exact hqp ▸ some.inj hq' ▸ he
    · exact h.entry q j hq'
  least := by
    show 0 < (m.modify p f).leastUnacked
    rw [modify_least]
    exact h.least

theorem Accounts.update (h : Accounts m) (hi : m.info? p = some i)
    (he : Entry m.largestSentPacket p (f i))
    (hb : b + flying i = m.bytesInFlight + flying (f i))
    (hc : c + TransmissionInfo.crypto i = m.pendingCryptoPacketCount + TransmissionInfo.crypto (f i)) :
    Accounts { m.modify p f with bytesInFlight := b, pendingCryptoPacketCount := c } :=
  ⟨h.toBooked.update hi he hb hc, by
    show (m.unackedPackets.modify p f).top = _
    rw [modify_top]
    exact h.top⟩

/-- A change that neither the counters nor the links depend on. -/
theorem Accounts.modify (h : Accounts m) (hi : m.info? p = some i)
    (he : Entry m.largestSentPacket p (f i))
    (hb : flying (f i) = flying i) (hc : TransmissionInfo.crypto (f i) = TransmissionInfo.crypto i) :
    Accounts (m.modify p f) :=
  h.update hi he (by rw [hb]) (by rw [hc])

theorem Accounts.modify' (h : Accounts m)
    (hf : ∀ i, Entry m.largestSentPacket p i → Entry m.largestSentPacket p (f i) ∧
    flying (f i) = flying i ∧ TransmissionInfo.crypto (f i) = TransmissionInfo.crypto i) :
    Accounts (m.modify p f) := by
  cases hi : m.info? p with
  | some i =>
    obtain ⟨he, hb, hc⟩ := hf i (h.entry p i hi)
    exact h.modify hi he hb hc
  | none =>
    have he : m.unackedPackets.modify p f = m.unackedPackets :=
      modify_self fun i hi' => absurd (hi.symm.trans hi') nofun
    unfold UnackedPacketMap.modify
    rw [he]
    exact h

theorem Accounts.removeFromInFlight (h : Accounts m) : Accounts (m.removeFromInFlight p) := by
  unfold UnackedPacketMap.removeFromInFlight
  split
  · next i hi =>
    split
    · next hf =>
      have he := h.entry p i hi
      have hfly : flying i = i.bytesSent := if_pos hf
      have hle : flying i ≤ _ := le_total flying hi
      have hb := h.bytes
      refine h.update hi ⟨he.handshake, he.link, he.tail⟩ ?_ rfl
      show m.bytesInFlight - i.bytesSent + flying i = m.bytesInFlight + 0
      omega
    · exact h
  · exact h

theorem Accounts.deleteFrames (h : Accounts m) (hi : m.info? p = some i) :
    Accounts (m.deleteFrames p i) := by
  have he := h.entry p i hi
  have hle : TransmissionInfo.crypto i ≤ _ := le_total TransmissionInfo.crypto hi
  have hc := h.crypto
  refine h.update hi ⟨fun hf => Bool.noConfusion hf, he.link, fun hf => absurd rfl hf⟩ rfl ?_
  show (if i.hasCryptoHandshake then m.pendingCryptoPacketCount - 1 else m.pendingCryptoPacketCount) +
    TransmissionInfo.crypto i = m.pendingCryptoPacketCount + 0
  by_cases hcr : i.hasCryptoHandshake = true
  · have hone : TransmissionInfo.crypto i = 1 := if_pos ⟨hcr, he.handshake hcr⟩
    rw [if_pos hcr]
    omega
  · have hzero : TransmissionInfo.crypto i = 0 := if_neg fun hcr' => hcr hcr'.1
    rw [if_neg hcr]
    omega

theorem Accounts.removeRetransmittabilityFor (h : Accounts m) (fuel : ℕ) :
    Accounts (UnackedPacketMap.removeRetransmittabilityFor fuel p m) := by
  induction fuel generalizing m p with
  | zero => exact h
  | succ fuel ih =>
    unfold UnackedPacketMap.removeRetransmittabilityFor
    split
    · next i hi =>
      have he := h.entry p i hi
      split
      · exact ih (h.modify hi ⟨he.handshake, fun hl => absurd rfl hl, fun _ => rfl⟩ rfl rfl)
      · exact h.deleteFrames hi
    · exact h

theorem Accounts.removeRetransmittability (h : Accounts m) : Accounts (m.removeRetransmittability p) :=
  h.removeRetransmittabilityFor _

/-- A packet that was not retransmitted is the end of its chain. -/
theorem removeRetransmittability_tail (hi : m.info? p = some i) (ht : i.retransmission = 0) :
    m.removeRetransmittability p = m.deleteFrames p i := by
  obtain ⟨h1, h2⟩ := lt_top hi
  obtain ⟨fuel, hfuel⟩ : ∃ fuel, m.unackedPackets.items.length = fuel + 1 :=
    Nat.exists_eq_succ_of_ne_zero (by unfold Indexed.top at h2; omega)
  rw [removeRetransmittability, hfuel, removeRetransmittabilityFor, hi]
  exact if_neg (not_not.2 ht)

variable {old new t : ℕ} {type : TransmissionType} {m₁ : UnackedPacketMap} {α : Type}

theorem deleteFrames_modify {frames : List SentFrame} :
    (m.modify p ({ · with retransmittableFrames := frames })).deleteFrames p
      { i with retransmittableFrames := frames } =
      m.deleteFrames p i := by
  unfold deleteFrames UnackedPacketMap.modify Indexed.modify
  split <;> simp only [List.modify_modify_eq, Function.comp_def]

theorem info?_modify_self (hi : m.info? p = some i) : (m.modify p f).info? p = some (f i) :=
  get?_modify_self hi

theorem cancelIn_cases (h : Accounts m) :
    (cancelIn id m p = m ∧ ∀ i, m.info? p = some i → i.retransmittableFrames = []) ∨
      ∃ i, m.info? p = some i ∧ i.retransmittableFrames ≠ [] ∧
      ((i.retransmittableFrames.filter (·.stream ≠ some id) = [] ∧ cancelIn id m p = m.deleteFrames p i) ∨
        (i.retransmittableFrames.filter (·.stream ≠ some id) ≠ [] ∧ cancelIn id m p = m.modify p
          ({ · with retransmittableFrames := i.retransmittableFrames.filter (·.stream ≠ some id) }))) := by
  unfold cancelIn
  split
  · next i hi =>
    split
    · next hnil => exact .inl ⟨rfl, fun j hj => some.inj (hi.symm.trans hj) ▸ hnil⟩
    next hne =>
    refine .inr ⟨i, hi, hne, ?_⟩
    dsimp only
    split
    · next hnil =>
      refine .inl ⟨hnil, ?_⟩
      rw [removeRetransmittability_tail (info?_modify_self hi) ((h.entry p i hi).tail hne),
        deleteFrames_modify]
    · next hf => exact .inr ⟨hf, rfl⟩
  · next hi => exact .inl ⟨rfl, fun j hj => absurd (hi.symm.trans hj) nofun⟩

theorem Accounts.cancelIn (h : Accounts m) : Accounts (UnackedPacketMap.cancelIn id m p) := by
  rcases cancelIn_cases h with ⟨he, -⟩ | ⟨i, hi, hne, ⟨-, he⟩ | ⟨hf, he⟩⟩
  · rwa [he]
  · rw [he]
    exact h.deleteFrames hi
  · rw [he]
    have hen := h.entry p i hi
    refine h.modify hi ⟨fun _ => hf, hen.link, fun _ => hen.tail hne⟩ rfl ?_
    exact if_congr (and_congr_right fun _ => iff_of_true hf hne) rfl rfl

theorem Accounts.cancelRetransmissionsForStream (h : Accounts m) :
    Accounts (m.cancelRetransmissionsForStream id) :=
  List.foldlRecOn (motive := Accounts) _ _ h fun _ hm _ _ => hm.cancelIn

/-! ## Sending -/

theorem isPacketUseless_iff {largestObserved : ℕ} : isPacketUseless largestObserved p i = true ↔
    (i.isUnackable = true ∨ p ≤ largestObserved) ∧ i.inFlight = false ∧ i.retransmittableFrames = [] ∧
      i.retransmission ≤ largestObserved := by
  unfold isPacketUseless
  simp only [Bool.and_eq_true, Bool.not_eq_true', Bool.and_eq_false_iff, Bool.or_eq_false_iff,
    Bool.not_eq_false', decide_eq_false_iff_not, not_lt, List.isEmpty_iff]
  tauto

/-- `RemoveObsoletePackets` keeps what is in flight or holds frames. -/
theorem info?_removeObsoletePackets (hi : m.info? p = some i)
    (hu : i.inFlight = true ∨ i.retransmittableFrames ≠ []) :
    m.removeObsoletePackets.info? p = some i := by
  by_cases hp : m.removeObsoletePackets.leastUnacked ≤ p
  · exact (get?_popWhile _ _ hp).trans hi
  · have hgone := popWhile_gone _ _ hi (not_le.1 hp)
    obtain ⟨-, hf, hn, -⟩ := isPacketUseless_iff.1 hgone
    rcases hu with hu | hu
    · rw [hf] at hu
      cases hu
    · exact absurd hn hu

theorem info?_of_removeObsoletePackets (hi : m.removeObsoletePackets.info? p = some i) :
    m.info? p = some i :=
  (get?_popWhile _ _ (lt_top hi).1).symm.trans hi

theorem Booked.removeObsoletePackets (h : Booked bound c m) : Booked bound c m.removeObsoletePackets where
  bytes := by
    rw [show m.removeObsoletePackets.bytesInFlight = m.bytesInFlight from rfl, h.bytes]
    refine (total_popWhile flying (fun p i hu => ?_) _ _).symm
    obtain ⟨-, hf, -⟩ := isPacketUseless_iff.1 hu
    simp [flying, hf]
  crypto := by
    rw [show m.removeObsoletePackets.pendingCryptoPacketCount = m.pendingCryptoPacketCount from rfl,
      h.crypto]
    refine congrArg (· + c) (total_popWhile TransmissionInfo.crypto (fun p i hu => ?_) _ _).symm
    obtain ⟨-, -, hn, -⟩ := isPacketUseless_iff.1 hu
    simp [TransmissionInfo.crypto, hn]
  entry p i hi := h.entry p i (info?_of_removeObsoletePackets hi)
  least := h.least.trans_le (le_popWhile_base _ _)

@[simp] theorem removeObsoletePackets_top :
    m.removeObsoletePackets.unackedPackets.top = m.unackedPackets.top :=
  popWhile_top _ _

theorem Accounts.removeObsoletePackets (h : Accounts m) : Accounts m.removeObsoletePackets :=
  ⟨h.toBooked.removeObsoletePackets, removeObsoletePackets_top.trans h.top⟩

/-- Frames that are disowned only concern the record of what was carried. -/
theorem Booked.disown (h : Booked bound c m) (frames : List SentFrame) :
    Booked bound c { m with unackedPackets := m.unackedPackets.map (UnackedPacketMap.disown frames) } where
  bytes := h.bytes.trans (total_map (f := UnackedPacketMap.disown frames) flying fun _ => rfl).symm
  crypto := by
    have ht : _ = total TransmissionInfo.crypto m.unackedPackets :=
      total_map (f := UnackedPacketMap.disown frames) TransmissionInfo.crypto fun _ => rfl
    exact h.crypto.trans (congrArg (· + c) ht.symm)
  entry p i hi := by
    obtain ⟨j, hj, rfl⟩ := map_eq_some_iff.1 (get?_map.symm.trans hi)
    have he := h.entry p j hj
    exact ⟨he.handshake, he.link, he.tail⟩
  least := h.least

theorem Booked.handedOver (h : Booked bound 0 m) (hi : m.info? old = some i) (hlt : old < bound)
    (type : TransmissionType) :
    Booked bound (TransmissionInfo.crypto i) (m.handedOver old bound type [] i) := by
  have he := h.entry old i hi
  have hm : Booked bound (TransmissionInfo.crypto i) (m.modify old (handOver bound type [])) := by
    refine h.update hi ⟨fun hf => Bool.noConfusion hf, fun hl => ?_, fun hf => absurd rfl hf⟩ rfl ?_
    · unfold handOver at hl ⊢
      split
      · next hu =>
        rw [if_pos hu] at hl
        exact he.link hl
      · exact ⟨hlt, le_rfl⟩
    · show m.pendingCryptoPacketCount + TransmissionInfo.crypto i + 0 =
        m.pendingCryptoPacketCount + 0 + TransmissionInfo.crypto i
      omega
  unfold UnackedPacketMap.handedOver
  split
  · exact hm.disown _
  · exact hm

@[simp] theorem handedOver_top {frames : List SentFrame} :
    (m.handedOver old new type frames i).unackedPackets.top = m.unackedPackets.top := by
  unfold handedOver
  split
  · rw [map_top]
    exact modify_top
  · exact modify_top

theorem Booked.skipTo (h : Booked bound c m) (hb : bound ≤ n) : Booked n c (m.skipTo n) where
  bytes := h.bytes.trans (total_pad flying _ rfl).symm
  crypto := h.crypto.trans (congrArg (· + c) (total_pad TransmissionInfo.crypto _ rfl).symm)
  entry p i hi := by
    rcases get?_pad _ hi with hi | rfl
    · exact (h.entry p i hi).mono hb
    · exact ⟨fun hf => Bool.noConfusion hf, fun hl => absurd rfl hl, fun _ => rfl⟩
  least := by
    show 0 < (m.unackedPackets.pad _ _).base
    rw [pad_base]
    exact h.least

theorem skipTo_top (hn : m.unackedPackets.top ≤ n) : (m.skipTo n).unackedPackets.top = n := by
  unfold skipTo
  rw [pad_top]
  omega

theorem Booked.enter (h : Booked n (TransmissionInfo.crypto i) m) (htop : m.unackedPackets.top = n)
    (he : Entry n n i)
    (setInFlight : Bool) : Accounts (m.enter n i setInFlight) where
  bytes := by
    have ht : _ = _ := total_push (d := m.unackedPackets) (x := { i with inFlight := setInFlight }) flying
    have hb := h.bytes
    refine Eq.trans ?_ ht.symm
    cases setInFlight
    · exact hb
    · exact congrArg (· + i.bytesSent) hb
  crypto := by
    have ht : _ = _ := total_push (d := m.unackedPackets) (x := { i with inFlight := setInFlight })
      TransmissionInfo.crypto
    exact h.crypto.trans ht.symm
  entry p j hj := by
    have hj' : (m.unackedPackets.push { i with inFlight := setInFlight }).get? p = some j := hj
    rw [get?_push] at hj'
    split at hj'
    · next hp =>
      rw [hp, htop]
      cases hj'
      exact ⟨he.handshake, he.link, he.tail⟩
    · exact h.entry p j hj'
  least := h.least
  top := by
    show (m.unackedPackets.push _).top = n + 1
    rw [push_top, htop]

/-- Packets are sent in the order of their numbers; a new handshake packet has handshake data, and a
    retransmission takes everything from the old packet. -/
structure Sendable (m : UnackedPacketMap) (packet : SerializedPacket) : Prop where
  later : m.largestSentPacket < packet.packetNumber
  fresh : packet.originalPacketNumber = 0 → packet.hasCryptoHandshake = true →
    packet.retransmittableFrames ≠ []
  again : packet.originalPacketNumber ≠ 0 → packet.hasCryptoHandshake = false ∧
    packet.retransmittableFrames = []
  original : packet.originalPacketNumber ≤ m.largestSentPacket

/-- What `TransferRetransmissionInfo` does on behalf of `AddSentPacket`. -/
theorem transferRetransmissionInfo_cases (m : UnackedPacketMap) (n old : ℕ) (type : TransmissionType)
    (packet : SerializedPacket) :
    ((m.info? old = none ∨ m.largestSentPacket < old) ∧
        m.transferRetransmissionInfo old n type (ofPacket packet) = (m, ofPacket packet)) ∨
      ∃ i, m.info? old = some i ∧ old ≤ m.largestSentPacket ∧
        m.transferRetransmissionInfo old n type (ofPacket packet) =
          ((m.handedOver old n type [] i).removeObsoletePackets, takeOver (ofPacket packet) i) := by
  unfold transferRetransmissionInfo
  split_ifs with h1 h2
  · exact .inl ⟨.inl (get?_eq_none (.inl h1)), rfl⟩
  · exact .inl ⟨.inr h2, rfl⟩
  · split
    · next hi => exact .inl ⟨.inl hi, rfl⟩
    · next i hi => exact .inr ⟨i, hi, not_lt.1 h2, rfl⟩

theorem Accounts.addSentPacket {packet : SerializedPacket} (h : Accounts m) (hs : Sendable m packet)
    (setInFlight : Bool) :
    Accounts (m.addSentPacket packet packet.originalPacketNumber packet.transmissionType
      setInFlight) := by
  have htop := h.top
  have hlater := hs.later
  have hskip := h.toBooked.skipTo hlater.le
  have hst : (m.skipTo packet.packetNumber).unackedPackets.top = packet.packetNumber :=
    skipTo_top (by omega)
  unfold UnackedPacketMap.addSentPacket
  dsimp only
  split
  · next hold =>
    have hcr := (hs.again (by omega)).1
    rcases transferRetransmissionInfo_cases (m.skipTo packet.packetNumber) packet.packetNumber
      packet.originalPacketNumber packet.transmissionType packet with ⟨-, he⟩ | ⟨i, hi, hle, he⟩
    · rw [he]
      have hzero : TransmissionInfo.crypto (ofPacket packet) = 0 := if_neg fun hc => hc.2 rfl
      refine (hzero ▸ hskip).enter hst ⟨fun hf => ?_, fun hl => absurd rfl hl, fun _ => rfl⟩ _
      rw [show (ofPacket packet).hasCryptoHandshake = packet.hasCryptoHandshake from rfl, hcr] at hf
      cases hf
    · rw [he]
      have hlt : packet.originalPacketNumber < packet.packetNumber := hle.trans_lt hlater
      have hh := (hskip.handedOver hi hlt packet.transmissionType).removeObsoletePackets
      have hent := hskip.entry _ i hi
      refine Booked.enter (i := takeOver (ofPacket packet) i) hh ?_
        ⟨hent.handshake, fun hl => absurd rfl hl, fun _ => rfl⟩ _
      rw [removeObsoletePackets_top, handedOver_top, hst]
  · next hold =>
    have hfresh := hs.fresh (by omega)
    have hbook : Booked packet.packetNumber (TransmissionInfo.crypto (firstSent packet))
        ((m.skipTo packet.packetNumber).countCrypto packet.hasCryptoHandshake) := by
      refine ⟨hskip.bytes, ?_, hskip.entry, hskip.least⟩
      have hc := hskip.crypto
      show (if packet.hasCryptoHandshake then _ + 1 else _) =
        _ + TransmissionInfo.crypto (firstSent packet)
      by_cases hcr : packet.hasCryptoHandshake = true
      · have hone : TransmissionInfo.crypto (firstSent packet) = 1 := if_pos ⟨hcr, hfresh hcr⟩
        rw [if_pos hcr, hone, hc]
        rfl
      · have hzero : TransmissionInfo.crypto (firstSent packet) = 0 := if_neg fun h => hcr h.1
        rw [if_neg hcr, hzero, hc]
        rfl
    exact hbook.enter hst ⟨hfresh, fun hl => absurd rfl hl, fun _ => rfl⟩ _

/-! ## Retransmission chains -/

theorem next_of_info (hi : m.info? p = some i) : m.next p = i.retransmission := by simp [next, hi]

theorem next_of_none (hi : m.info? p = none) : m.next p = 0 := by simp [next, hi]

theorem Booked.rising (h : Booked bound c m) : Links.Rising m.next bound := by
  intro p hp
  cases hi : m.info? p with
  | none => exact absurd (next_of_none hi) hp
  | some i =>
    rw [next_of_info hi] at hp ⊢
    exact (h.entry p i hi).link hp

theorem Accounts.fuel (h : Accounts m) (hi : m.info? p = some i) :
    m.largestSentPacket < p + m.unackedPackets.items.length := by
  have htop := h.top
  have := (lt_top hi).1
  unfold Indexed.top at htop
  omega

theorem Accounts.leads_newest (h : Accounts m) (hi : m.info? p = some i) :
    Links.Leads m.next p (m.newestRetransmission p) :=
  Links.leads_follow h.rising (h.fuel hi)

theorem Accounts.info_end (h : Accounts m) (hi : m.info? p = some i) (hl : Links.Leads m.next p q) :
    ∃ j, m.info? q = some j := by
  obtain ⟨h1, h2⟩ := lt_top hi
  have htop := h.top
  have hle := hl.le h.rising
  have hb := hl.le_bound h.rising (by omega)
  exact exists_get? (h1.trans hle) (by omega)

/-- The frames at the end `t` of a chain are gone, and maybe some links that led there; nothing else
    has changed. -/
structure Released (m m' : UnackedPacketMap) (t : ℕ) : Prop where
  cut : Links.Cut m.next m'.next t
  info : ∀ q, m'.info? q = (m.info? q).map fun i => { i with
    retransmission := m'.next q
    retransmittableFrames := if q = t then [] else i.retransmittableFrames
    hasCryptoHandshake := if q = t then false else i.hasCryptoHandshake }
  least : m'.leastUnacked = m.leastUnacked
  top : m'.unackedPackets.top = m.unackedPackets.top
  sent : m'.largestSentPacket = m.largestSentPacket
  observed : m'.largestObserved = m.largestObserved
  held : m'.held + (m.frames t : Multiset SentFrame) = m.held

theorem frames_of_info (hi : m.info? p = some i) :
    m.frames p = i.retransmittableFrames := by simp [frames, hi]

theorem frames_of_none (hi : m.info? p = none) : m.frames p = [] := by simp [frames, hi]

section Modify

variable (f) (hf : ∀ i, (f i).retransmittableFrames = i.retransmittableFrames)

theorem next_modify (hf : ∀ i, (f i).retransmission = i.retransmission) : (m.modify p f).next = m.next :=
  funext fun _ => elim_modify hf

include hf

theorem frames_modify : (m.modify p f).frames q = m.frames q := elim_modify hf

theorem held_modify : (m.modify p f).held = m.held := by
  cases hi : m.info? p with
  | none => exact congrArg (total _) (modify_self fun i h => absurd (hi.symm.trans h) nofun)
  | some i =>
    have ht := total_modify (f := f) (fun i => (i.retransmittableFrames : Multiset SentFrame)) hi
    rw [hf i] at ht
    exact add_right_cancel ht

end Modify

theorem next_modify_retransmission (hi : m.info? p = some i) :
    (m.modify p ({ · with retransmission := 0 })).next = fun q => if q = p then 0 else m.next q := by
  funext q
  unfold next
  rw [info?_modify]
  split
  · next hq =>
    rw [hq, hi]
    rfl
  · rfl

theorem released_deleteFrames (hi : m.info? p = some i) : Released m (m.deleteFrames p i) p := by
  have hinfo : ∀ q, (m.deleteFrames p i).info? q = if q = p then
      (m.info? q).map ({ · with retransmittableFrames := [], hasCryptoHandshake := false })
        else m.info? q :=
    fun q => info?_modify
  have hnext : (m.deleteFrames p i).next = m.next :=
    next_modify ({ · with retransmittableFrames := [], hasCryptoHandshake := false }) fun _ => rfl
  have hheld : (m.deleteFrames p i).held + (m.frames p : Multiset SentFrame) = m.held := by
    rw [frames_of_info hi]
    exact (total_modify _ hi).trans (add_zero _)
  refine ⟨hnext ▸ .refl, fun q => ?_, modify_least, modify_top, rfl, rfl, hheld⟩
  rw [hinfo, hnext]
  by_cases hq : q = p
  · subst hq
    simp [hi, next]
  · simp only [if_neg hq]
    cases hj : m.info? q with
    | none => rfl
    | some j => simp [next, hj]

theorem released_removeRetransmittabilityFor (hr : Links.Rising m.next bound)
    (hl : Links.Leads m.next p t)
    (hdom : ∀ q, p ≤ q → q ≤ t → (m.info? q).isSome) {fuel : ℕ} (hf : bound < p + fuel) (hp : p ≤ bound) :
    Released m (removeRetransmittabilityFor fuel p m) t := by
  induction fuel generalizing m p with
  | zero => omega
  | succ fuel ih =>
    have hpt := hl.le hr
    obtain ⟨i, hi⟩ := isSome_iff_exists.1 (hdom p le_rfl hpt)
    have hnext := next_of_info hi
    unfold removeRetransmittabilityFor
    rw [hi]
    dsimp only
    split
    · next hne =>
      rw [← hnext] at hne ⊢
      obtain ⟨hlt, hle⟩ := hr p hne
      have hl' : Links.Leads m.next (m.next p) t := by
        cases hl with
        | tail h => exact absurd h hne
        | step _ h => exact h
      have hnext₁ := next_modify_retransmission hi
      have hr₁ : Links.Rising (m.modify p ({ · with retransmission := 0 })).next bound := by
        intro q hq
        rw [hnext₁] at hq ⊢
        dsimp only at hq ⊢
        split at hq
        · exact absurd rfl hq
        · next hqp => rw [if_neg hqp]; exact hr q hq
      have hl₁ : Links.Leads (m.modify p ({ · with retransmission := 0 })).next (m.next p) t := by
        refine hl'.congr hr fun q hq => ?_
        rw [hnext₁]
        exact if_neg (by omega)
      have h₁ := ih hr₁ hl₁ (fun q hq hqt => ?_) (by omega) hle
      · refine ⟨?_, fun q => ?_, h₁.least.trans modify_least, h₁.top.trans modify_top, h₁.sent,
          h₁.observed, ?_⟩
        · exact .cons hr hne hl (hnext₁ ▸ h₁.cut)
        · rw [h₁.info q, info?_modify]
          by_cases hqp : q = p
          · rw [if_pos hqp, map_map]
            rfl
          · rw [if_neg hqp]
        · rw [← frames_modify ({ · with retransmission := 0 }) fun _ => rfl]
          exact h₁.held.trans (held_modify _ fun _ => rfl)
      · rw [info?_modify]
        split
        · rw [isSome_map]
          exact hdom q (by omega) hqt
        · exact hdom q (by omega) hqt
    · next hz =>
      rw [not_not, ← hnext] at hz
      rw [hl.eq_of_end hz]
      exact released_deleteFrames hi

/-- `RemoveRetransmittability` releases the frames of the newest retransmission. -/
theorem Accounts.released (h : Accounts m) (hi : m.info? p = some i) :
    Released m (m.removeRetransmittability p) (m.newestRetransmission p) := by
  have hl := h.leads_newest hi
  obtain ⟨h1, h2⟩ := lt_top hi
  have htop := h.top
  have hb := hl.le_bound h.rising (by omega)
  refine released_removeRetransmittabilityFor h.rising hl (fun q hq hqt => ?_) (h.fuel hi) (by omega)
  exact isSome_iff_exists.2 (exists_get? (h1.trans hq) (by omega))

/-! ## What the other operations leave alone -/

/-- Only the packets in flight and the counters differ. -/
structure Alike (m m' : UnackedPacketMap) : Prop where
  info : ∀ q, (m'.info? q).map ({ · with inFlight := false }) =
    (m.info? q).map ({ · with inFlight := false })
  least : m'.leastUnacked = m.leastUnacked
  top : m'.unackedPackets.top = m.unackedPackets.top
  sent : m'.largestSentPacket = m.largestSentPacket
  observed : m'.largestObserved = m.largestObserved
  held : m'.held = m.held

theorem Alike.trans (h : Alike m m₁) (h' : Alike m₁ m') : Alike m m' :=
  ⟨fun q => (h'.info q).trans (h.info q), h'.least.trans h.least, h'.top.trans h.top,
    h'.sent.trans h.sent,
    h'.observed.trans h.observed, h'.held.trans h.held⟩

theorem Alike.refl : Alike m m := ⟨fun _ => rfl, rfl, rfl, rfl, rfl, rfl⟩

theorem alike_removeFromInFlight : Alike m (m.removeFromInFlight p) := by
  unfold removeFromInFlight
  split
  · next i hi =>
    split
    · refine ⟨fun q => ?_, modify_least, modify_top, rfl, rfl, ?_⟩
      · show ((m.modify p ({ · with inFlight := false })).info? q).map _ = _
        rw [info?_modify]
        split
        · rw [map_map]
          rfl
        · rfl
      · exact held_modify ({ · with inFlight := false }) fun _ => rfl
    · exact .refl
  · exact .refl

theorem Alike.info_some (h : Alike m m') (hi : m'.info? q = some i) :
    ∃ j, m.info? q = some j ∧ i = { j with inFlight := i.inFlight } := by
  have he := h.info q
  rw [hi] at he
  obtain ⟨j, hj, hij⟩ := map_eq_some_iff.1 he.symm
  refine ⟨j, hj, ?_⟩
  rcases i with ⟨⟩
  simpa [TransmissionInfo.mk.injEq] using hij.symm

theorem Alike.symm (h : Alike m m') : Alike m' m :=
  ⟨fun q => (h.info q).symm, h.least.symm, h.top.symm, h.sent.symm, h.observed.symm, h.held.symm⟩

theorem Alike.map_info (h : Alike m m') {g : TransmissionInfo → α}
    (hg : ∀ i, g { i with inFlight := false } = g i) (q : ℕ) : (m'.info? q).map g = (m.info? q).map g := by
  have hcomp : g ∘ ({ · with inFlight := false }) = g := funext hg
  have he := congrArg (Option.map g) (h.info q)
  rwa [Option.map_map, Option.map_map, hcomp] at he

theorem Alike.elim_info (h : Alike m m') {z : α} {g : TransmissionInfo → α}
    (hg : ∀ i, g { i with inFlight := false } = g i) (q : ℕ) :
    (m'.info? q).elim z g = (m.info? q).elim z g := by
  have he := congrArg (Option.elim · z id) (h.map_info hg q)
  rwa [Option.elim_map, Option.elim_map] at he

theorem Alike.frames (h : Alike m m') : m'.frames q = m.frames q := h.elim_info (fun _ => rfl) q

theorem Alike.next (h : Alike m m') : m'.next = m.next := funext (h.elim_info fun _ => rfl)

theorem Alike.newest (h : Alike m m') : m'.newestRetransmission p = m.newestRetransmission p := by
  unfold newestRetransmission
  have hlen : m'.unackedPackets.items.length = m.unackedPackets.items.length := by
    have h1 : m'.unackedPackets.base = m.unackedPackets.base := h.least
    have h2 := h.top
    unfold Indexed.top at h2
    omega
  rw [h.next, hlen]

/-- What `CancelRetransmissionsForStream` does to an entry. -/
def cancelEntry (id : ℕ) (i : TransmissionInfo) : TransmissionInfo :=
  if i.retransmittableFrames = [] then i
  else if i.retransmittableFrames.filter (·.stream ≠ some id) = [] then
    { i with retransmittableFrames := [], hasCryptoHandshake := false }
  else { i with retransmittableFrames := i.retransmittableFrames.filter (·.stream ≠ some id) }

theorem cancelIn_unackedPackets (h : Accounts m) :
    (cancelIn id m p).unackedPackets = m.unackedPackets.modify p (cancelEntry id) := by
  rcases cancelIn_cases h with ⟨he, hnil⟩ | ⟨i, hi, hne, ⟨hf, he⟩ | ⟨hf, he⟩⟩
  · rw [he]
    exact (modify_self fun i hi => if_pos (hnil i hi)).symm
  · rw [he]
    refine modify_congr fun j hj => ?_
    cases hi.symm.trans hj
    unfold cancelEntry
    rw [if_neg hne, if_pos hf]
  · rw [he]
    refine modify_congr fun j hj => ?_
    cases hi.symm.trans hj
    unfold cancelEntry
    rw [if_neg hne, if_neg hf]

theorem cancelRetransmissionsForStream_unackedPackets (h : Accounts m) :
    (m.cancelRetransmissionsForStream id).unackedPackets = m.unackedPackets.map (cancelEntry id) := by
  rw [← foldl_modify_numbers]
  unfold cancelRetransmissionsForStream
  generalize m.unackedPackets.numbers = ps
  induction ps generalizing m with
  | nil => rfl
  | cons p ps ih => rw [List.foldl_cons, List.foldl_cons, ih h.cancelIn, cancelIn_unackedPackets h]

theorem cancelEntry_frames : (cancelEntry id i).retransmittableFrames =
    i.retransmittableFrames.filter (·.stream ≠ some id) := by
  unfold cancelEntry
  split_ifs with h1 h2
  · rw [h1]
    rfl
  · exact h2.symm
  · rfl

theorem cancelEntry_kept : (cancelEntry id i).retransmission = i.retransmission ∧
    (cancelEntry id i).carried = i.carried ∧
    (cancelEntry id i).isUnackable = i.isUnackable ∧
      (cancelEntry id i).encryptionLevel = i.encryptionLevel := by
  unfold cancelEntry
  split_ifs <;> exact ⟨rfl, rfl, rfl, rfl⟩

section Cancel

variable (h : Accounts m)
include h

theorem Accounts.info?_cancel (q : ℕ) :
    (m.cancelRetransmissionsForStream id).info? q = (m.info? q).map (cancelEntry id) := by
  unfold info?
  rw [cancelRetransmissionsForStream_unackedPackets h, get?_map]

theorem Accounts.frames_cancel (q : ℕ) :
    (m.cancelRetransmissionsForStream id).frames q = (m.frames q).filter (·.stream ≠ some id) := by
  unfold UnackedPacketMap.frames
  rw [h.info?_cancel]
  cases m.info? q with
  | none => rfl
  | some i => exact cancelEntry_frames

theorem Accounts.next_cancel : (m.cancelRetransmissionsForStream id).next = m.next := by
  funext q
  unfold next
  rw [h.info?_cancel]
  cases m.info? q with
  | none => rfl
  | some i => exact cancelEntry_kept.1

theorem cancelIn_largest : (cancelIn id m p).largestSentPacket = m.largestSentPacket := by
  rcases cancelIn_cases h with ⟨he, -⟩ | ⟨i, -, -, ⟨-, he⟩ | ⟨-, he⟩⟩ <;> rw [he] <;> rfl

theorem cancelRetransmissionsForStream_largest :
    (m.cancelRetransmissionsForStream id).largestSentPacket = m.largestSentPacket := by
  unfold cancelRetransmissionsForStream
  generalize m.unackedPackets.numbers = ps
  induction ps generalizing m with
  | nil => rfl
  | cons p ps ih => exact (ih h.cancelIn).trans (cancelIn_largest h)

theorem Accounts.held_cancel (id : ℕ) : (m.cancelRetransmissionsForStream id).held +
    total (fun i => (i.retransmittableFrames.filter (·.stream = some id) : Multiset SentFrame))
      m.unackedPackets = m.held := by
  unfold held
  rw [cancelRetransmissionsForStream_unackedPackets h]
  refine total_map_add fun i => ?_
  rw [cancelEntry_frames, add_comm]
  have := Multiset.filter_add_not (fun f : SentFrame => f.stream = some id)
    (i.retransmittableFrames : Multiset SentFrame)
  simpa only [Multiset.filter_coe] using this

end Cancel

/-! ## What sending does to frames and links -/

theorem info?_skipTo (hi : m.info? q = some i) : (m.skipTo n).info? q = some i :=
  (get?_pad_of_lt _ (lt_top hi).2).trans hi

theorem frames_skipTo : (m.skipTo n).frames q = m.frames q := elim_pad _ rfl

theorem held_skipTo : (m.skipTo n).held = m.held := total_pad _ _ rfl

theorem frames_removeObsoletePackets : m.removeObsoletePackets.frames q = m.frames q :=
  elim_popWhile (r := TransmissionInfo.retransmittableFrames)
    (fun _ _ hu => (isPacketUseless_iff.1 hu).2.2.1) _ _

theorem held_removeObsoletePackets : m.removeObsoletePackets.held = m.held := by
  refine total_popWhile _ (fun p i hu => ?_) _ _
  obtain ⟨-, -, hn, -⟩ := isPacketUseless_iff.1 hu
  rw [hn]
  rfl

theorem info?_enter (htop : m.unackedPackets.top = n) {fl : Bool} :
    (m.enter n i fl).info? q = if q = n then some { i with inFlight := fl } else m.info? q := by
  unfold info? enter
  rw [get?_push, htop]

theorem held_enter {fl : Bool} :
    (m.enter n i fl).held = m.held + (i.retransmittableFrames : Multiset SentFrame) :=
  total_push _

/-! ## What a call can do to the map -/

/-- `p` is done with, and the frames at the end `t` of its chain are gone. -/
structure Settled (m m' : UnackedPacketMap) (p t : ℕ) : Prop where
  cut : Links.Cut m.next m'.next t
  frames : ∀ q, m'.frames q = if q = t then [] else m.frames q
  kept : ∀ q, (m'.info? q).map (fun i => (i.carried, i.encryptionLevel)) =
    (m.info? q).map fun i => (i.carried, i.encryptionLevel)
  ackable : ∀ q, q ≠ p → (m'.info? q).map (·.isUnackable) = (m.info? q).map (·.isUnackable)
  sent : m'.largestSentPacket = m.largestSentPacket
  held : m'.held + (m.frames t : Multiset SentFrame) = m.held

/-- An entry keeps the record of its frames and its encryption level. -/
theorem Settled.info_some (h : Settled m m' p t) (hj : m'.info? q = some j) :
    ∃ i, m.info? q = some i ∧ j.carried = i.carried ∧ j.encryptionLevel = i.encryptionLevel := by
  have hk := h.kept q
  rw [hj] at hk
  obtain ⟨i, hi, he⟩ := map_eq_some_iff.1 hk.symm
  obtain ⟨hc, hl⟩ := Prod.mk.inj he
  exact ⟨i, hi, hc.symm, hl.symm⟩

theorem Released.settled (h : Released m m' t) : Settled m m' p t where
  cut := h.cut
  frames q := by
    unfold UnackedPacketMap.frames
    rw [h.info, elim_map]
    cases m.info? q with
    | none => exact (ite_self _).symm
    | some i => rfl
  kept q := by
    rw [h.info, map_map]
    rfl
  ackable q _ := by
    rw [h.info, map_map]
    rfl
  sent := h.sent
  held := h.held

theorem Settled.of_alike (h : Alike m m₁) (hs : Settled m₁ m' p t) : Settled m m' p t where
  cut := h.next ▸ hs.cut
  frames q := by rw [hs.frames, h.frames]
  kept q := (hs.kept q).trans (h.map_info (fun _ => rfl) q)
  ackable q hq := (hs.ackable q hq).trans (h.map_info (fun _ => rfl) q)
  sent := hs.sent.trans h.sent
  held := by
    rw [← h.held, ← hs.held, h.frames]

theorem Settled.unackable (hs : Settled m m' p t) :
    Settled m (m'.modify p ({ · with isUnackable := true })) p t where
  cut := by
    rw [next_modify _ fun _ => by rfl]
    exact hs.cut
  frames q := by
    rw [frames_modify _ fun _ => by rfl]
    exact hs.frames q
  kept q := by
    rw [← hs.kept q, info?_modify]
    split
    · rw [map_map]
      rfl
    · rfl
  ackable q hq := by
    rw [info?_modify, if_neg hq]
    exact hs.ackable q hq
  sent := hs.sent
  held := by
    rw [held_modify _ fun _ => by rfl]
    exact hs.held

/-- What a sent packet changes: its entry is new, and the packet it retransmits has handed over its
    frames. -/
structure Added (m m' : UnackedPacketMap) (packet : SerializedPacket) : Prop where
  sent : m'.largestSentPacket = packet.packetNumber
  frames : ∀ q, m'.frames q = if q = packet.packetNumber then
      (if packet.originalPacketNumber = 0 then
        packet.retransmittableFrames else m.frames packet.originalPacketNumber)
    else if q = packet.originalPacketNumber then [] else m.frames q
  entered : ∀ i, m'.info? packet.packetNumber = some i → i.encryptionLevel = packet.encryptionLevel ∧
    i.carried = i.retransmittableFrames ∧ i.retransmission = 0 ∧ i.isUnackable = false
  old : ∀ q i, q ≠ packet.packetNumber → m'.info? q = some i → (m.info? q = none ∧ i = unsent) ∨ ∃ j,
    m.info? q = some j ∧
    i.encryptionLevel = j.encryptionLevel ∧
    i.carried = (if packet.transmissionType.unlinked then
      j.carried.filter (· ∉ m.frames packet.originalPacketNumber) else j.carried) ∧
    i.retransmission = (if q = packet.originalPacketNumber ∧ packet.transmissionType.unlinked = false then
      packet.packetNumber else j.retransmission) ∧
    (i.isUnackable = true → j.isUnackable = true ∨
      (q = packet.originalPacketNumber ∧ packet.transmissionType.unlinked = true))
  held : m'.held = m.held + (packet.retransmittableFrames : Multiset SentFrame)

theorem Accounts.info?_zero (h : Accounts m) : m.info? 0 = none := get?_eq_none (.inl h.least)

theorem Accounts.frames_zero (h : Accounts m) : m.frames 0 = [] := frames_of_none h.info?_zero

theorem Accounts.info?_unsent (h : Accounts m) (hp : m.largestSentPacket < p) : m.info? p = none :=
  get?_eq_none (.inr (by rw [h.top]; exact hp))

theorem Accounts.info?_skipTo_sent (h : Accounts m) (hp : p ≤ m.largestSentPacket) :
    (m.skipTo n).info? p = m.info? p :=
  get?_pad_of_lt _ (by rw [h.top]; omega)

theorem info?_handedOver {frames : List SentFrame} :
    (m.handedOver old new type frames i).info? q = (m.info? q).map fun j =>
      let j := if q = old then handOver new type frames j else j
      if type.unlinked then UnackedPacketMap.disown i.retransmittableFrames j else j := by
  have hmod : (m.modify old (handOver new type frames)).info? q =
      (m.info? q).map fun j => if q = old then handOver new type frames j else j := by
    rw [info?_modify]
    split
    · rfl
    · cases m.info? q <;> rfl
  unfold handedOver
  split
  · unfold info?
    rw [get?_map]
    refine (congrArg (Option.map _) hmod).trans ?_
    rw [Option.map_map]
    rfl
  · exact hmod

theorem held_handedOver (hi : m.info? old = some i) :
    (m.handedOver old new type [] i).held + (i.retransmittableFrames : Multiset SentFrame) = m.held := by
  have hmod : (m.modify old (handOver new type [])).held +
      (i.retransmittableFrames : Multiset SentFrame) = m.held :=
    (total_modify _ hi).trans (add_zero _)
  unfold handedOver
  split
  · refine Eq.trans (congrArg (· + _) ?_) hmod
    exact total_map _ fun _ => rfl
  · exact hmod

theorem frames_handedOver :
    (m.handedOver old new type [] i).frames q = if q = old then [] else m.frames q := by
  unfold frames
  rw [info?_handedOver, elim_map]
  cases m.info? q with
  | none => exact (ite_self _).symm
  | some j =>
    split_ifs <;> rfl

theorem frames_enter (htop : m.unackedPackets.top = n) {fl : Bool} :
    (m.enter n i fl).frames q = if q = n then i.retransmittableFrames else m.frames q := by
  unfold frames
  rw [info?_enter htop]
  split <;> rfl

theorem info?_skipTo_cases (hi : (m.skipTo n).info? q = some i) :
    (m.info? q = none ∧ i = unsent) ∨ m.info? q = some i := by
  cases hj : m.info? q with
  | some j => exact .inr ((info?_skipTo hj).symm.trans hi)
  | none =>
    rcases get?_pad _ hi with hm | hu
    · exact .inr (hj.symm.trans hm)
    · exact .inl ⟨rfl, hu⟩

section Added

variable {packet : SerializedPacket} {fl : Bool} (h : Accounts m) (hs : Sendable m packet)
include h hs

theorem Accounts.top_skipTo :
    (m.skipTo packet.packetNumber).unackedPackets.top = packet.packetNumber := by
  refine skipTo_top ?_
  rw [h.top]
  exact hs.later

/-- A packet that takes nothing over: it is new, or what it retransmits is no longer in the map. -/
theorem Accounts.added_new {m₁ : UnackedPacketMap}
    (hm : m₁.unackedPackets = (m.skipTo packet.packetNumber).unackedPackets)
    (hn : m.info? packet.originalPacketNumber = none)
    (hf : i.retransmittableFrames = packet.retransmittableFrames)
    (hi : i.encryptionLevel = packet.encryptionLevel ∧ i.carried = i.retransmittableFrames ∧
      i.retransmission = 0 ∧
      i.isUnackable = false) : Added m (m₁.enter packet.packetNumber i fl) packet := by
  have htop : m₁.unackedPackets.top = packet.packetNumber := hm ▸ h.top_skipTo hs
  have hinfo : ∀ q, m₁.info? q = (m.skipTo packet.packetNumber).info? q := fun q => congrArg (get? · q) hm
  have hframes : ∀ q, m₁.frames q = m.frames q :=
    fun q => (congrArg (Option.elim · _ _) (hinfo q)).trans frames_skipTo
  have hnone := frames_of_none hn
  refine ⟨rfl, fun q => ?_, fun j hj => ?_, fun q j hq hj => ?_, ?_⟩
  · rw [frames_enter htop, hframes, hf]
    have hagain := hs.again
    grind
  · rw [info?_enter htop, if_pos rfl] at hj
    cases hj
    exact hi
  · rw [info?_enter htop, if_neg hq, hinfo] at hj
    rcases info?_skipTo_cases hj with hu | hj
    · exact .inl hu
    · have hqo : q ≠ packet.originalPacketNumber := by
        rintro rfl
        exact absurd (hn.symm.trans hj) nofun
      exact .inr ⟨j, hj, rfl, by simp [hnone], by simp [hqo], .inl⟩
  · rw [held_enter, hf]
    exact congrArg (· + _) ((congrArg (total _) hm).trans held_skipTo)

theorem Accounts.added_again (hi : m.info? packet.originalPacketNumber = some i) :
    Added m ((((m.skipTo packet.packetNumber).handedOver packet.originalPacketNumber packet.packetNumber
      packet.transmissionType [] i).removeObsoletePackets).enter packet.packetNumber
        (takeOver (ofPacket packet) i) fl) packet := by
  have ho : packet.originalPacketNumber ≠ 0 := by
    intro ho
    rw [ho, h.info?_zero] at hi
    cases hi
  have htop : ((m.skipTo packet.packetNumber).handedOver packet.originalPacketNumber packet.packetNumber
      packet.transmissionType [] i).removeObsoletePackets.unackedPackets.top = packet.packetNumber := by
    rw [removeObsoletePackets_top, handedOver_top, h.top_skipTo hs]
  refine ⟨rfl, fun q => ?_, fun j hj => ?_, fun q j hq hj => ?_, ?_⟩
  · rw [frames_enter htop, if_neg ho, frames_of_info hi]
    refine if_congr Iff.rfl rfl ?_
    rw [frames_removeObsoletePackets, frames_handedOver, frames_skipTo]
  · rw [info?_enter htop, if_pos rfl] at hj
    cases hj
    exact ⟨rfl, rfl, rfl, rfl⟩
  · rw [info?_enter htop, if_neg hq] at hj
    have hj' := info?_of_removeObsoletePackets hj
    rw [info?_handedOver] at hj'
    obtain ⟨k, hk, rfl⟩ := map_eq_some_iff.1 hj'
    rcases info?_skipTo_cases hk with ⟨hnone, rfl⟩ | hk
    · have hqo : q ≠ packet.originalPacketNumber := by
        rintro rfl
        exact absurd (hnone.symm.trans hi) nofun
      simp only [if_neg hqo]
      exact .inl ⟨hnone, by split <;> rfl⟩
    · refine .inr ⟨k, hk, ?_, ?_, ?_, ?_⟩
      · split_ifs <;> rfl
      · rw [frames_of_info hi]
        split_ifs <;> rfl
      · by_cases hqo : q = packet.originalPacketNumber <;> cases hu : packet.transmissionType.unlinked <;>
          simp [hqo, hu, handOver, disown]
      · by_cases hqo : q = packet.originalPacketNumber <;> cases hu : packet.transmissionType.unlinked <;>
          simp [hqo, hu, handOver, disown]
  · rw [held_enter, (hs.again ho).2, held_removeObsoletePackets]
    exact (held_handedOver (info?_skipTo hi)).trans (held_skipTo.trans (add_zero _).symm)

theorem Accounts.added : Added m
    (m.addSentPacket packet packet.originalPacketNumber packet.transmissionType fl) packet := by
  unfold UnackedPacketMap.addSentPacket
  dsimp only
  split
  · next ho =>
    rcases transferRetransmissionInfo_cases (m.skipTo packet.packetNumber) packet.packetNumber
      packet.originalPacketNumber packet.transmissionType packet with ⟨hn, he⟩ | ⟨i, hi, -, he⟩
    · rw [he]
      refine h.added_new hs rfl ?_ (hs.again (by omega)).2.symm ⟨rfl, rfl, rfl, rfl⟩
      rcases hn with hn | hn
      · rwa [h.info?_skipTo_sent hs.original] at hn
      · exact absurd hs.original (not_le.2 hn)
    · rw [he]
      rw [h.info?_skipTo_sent hs.original] at hi
      exact h.added_again hs hi
  · next ho =>
    have ho : packet.originalPacketNumber = 0 := by omega
    exact h.added_new hs rfl (ho ▸ h.info?_zero) rfl ⟨rfl, rfl, rfl, rfl⟩

end Added

end UnackedPacketMap

end Puic
