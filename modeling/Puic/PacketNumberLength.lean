/-
  How many bytes of a packet number are sent (`UpdatePacketNumberLength` and
  `ReserializeAllFrames` of quic_packet_creator.cc, called from quic_connection.cc).

  The length is chosen again each time a packet has gone to the socket.  A
  retransmission is sent with the length of the packet it repeats, and leaves that
  length behind; a packet that waits in the queue and a connectivity probe choose none.

  `packet_numbers_recoverable`: which of the packets that leave the creator can be read
  by a peer that has seen anything from the least unacked packet on; with a length that
  has just been chosen, and is not the longest one, all of them.
-/
import Puic.SentAccounting
import Puic.Frames

namespace Puic

open Machine UnackedPacketMap Option

/-! ## The code -/

namespace PacketSender

def leastUnacked (s : PacketSender) : ℕ := s.manager.unackedPackets.leastUnacked

/-- Whether `WritePacket` comes to `OnPacketSent`. -/
def writes (s : PacketSender) (packet : SerializedPacket) (outcome : WriteOutcome) : Bool :=
  s.manager.unackedPackets.largestSentPacket ≤ packet.packetNumber && !s.shouldDiscardPacket
    packet && outcome = .sent

/-- Whether a serialized packet is written at once. -/
def sends (s : PacketSender) (packet : SerializedPacket) (outcome : WriteOutcome) : Bool :=
  s.queuedPackets.isEmpty && s.writes packet outcome

end PacketSender

/-- A packet as it leaves the creator: its number, how many bytes of it are sent, and the least
    unacked packet then.  It is `fresh` if the length was chosen for it. -/
structure Emission where
  number : ℕ
  length : ℕ
  least : ℕ
  fresh : Bool
deriving Repr, DecidableEq

/-- A sender with the `packet_number_length` of its packet creator.  `fresh` is not part of the
    code, and what is `emitted` only for the lengths of the packets. -/
structure NumberedSender where
  sender : PacketSender
  packetNumberLength : ℕ
  fresh : Bool
  emitted : List Emission

inductive NumberedEvent where
  | send (packet : NewPacket) (outcome : WriteOutcome) (maxPacketsInFlight : Fin (2 ^ 62))
  /-- The length does not change while frames are queued in the creator. -/
  | writeQueued (outcome : WriteOutcome) (maxPacketsInFlight : Fin (2 ^ 62)) (framesQueued : Bool)
  | writePendingRetransmission (flushed : List (NewPacket × WriteOutcome × Fin (2 ^ 62))) (length : ℕ)
      (outcome : WriteOutcome) (maxPacketsInFlight : Fin (2 ^ 62))
  /-- `SendConnectivityProbingPacket`. -/
  | connectivityProbe
  | other (e : SenderEvent)

/-- The events that have their own form above. -/
def SenderEvent.serializes : SenderEvent → Bool
  | .send .. => true
  | .writeQueued .. => true
  | .writePendingRetransmission .. => true
  | _ => false

namespace NumberedSender

def new (maxTailLossProbes longTermMtu : ℕ) : NumberedSender :=
  ⟨.new maxTailLossProbes longTermMtu, 1, true, []⟩

variable (v : TransportVersion) (s : NumberedSender)

/-- `UpdatePacketNumberLength`.  The estimate is a number of bytes over the bytes of a packet. -/
def updatePacketNumberLength (maxPacketsInFlight : Fin (2 ^ 62)) (s : NumberedSender) :
    NumberedSender :=
  let currentDelta := wrap64 (s.sender.packetNumber + 1 + 2 ^ 64 - s.sender.leastUnacked)
  let delta := max currentDelta maxPacketsInFlight
  { s with packetNumberLength := getMinPacketNumberLength v (wrap64 (delta * 4)), fresh := true }

/-- `FillPacketHeader`: the next number, with `length` bytes. -/
def fillPacketHeader (length : ℕ) (fresh : Bool) : NumberedSender :=
  { s with
    packetNumberLength := length
    fresh := false
    emitted := s.emitted ++ [⟨s.sender.packetNumber + 1, length, s.sender.leastUnacked, fresh⟩] }

/-- The length in the `QuicTransmissionInfo` of a packet. -/
def lengthOf (p : ℕ) : ℕ := (s.emitted.find? (·.number = p)).elim 1 (·.length)

/-- The packet is handed over; the length is chosen again if it was written. -/
def handOver (sender : PacketSender) (written : Bool)
    (maxPacketsInFlight : Fin (2 ^ 62)) : NumberedSender :=
  let s := { s with sender }
  if written then s.updatePacketNumberLength v maxPacketsInFlight else s

def send (packet : NewPacket) (outcome : WriteOutcome)
    (maxPacketsInFlight : Fin (2 ^ 62)) : NumberedSender :=
  (s.fillPacketHeader s.packetNumberLength s.fresh).handOver v (s.sender.send packet outcome)
    (s.sender.sends (s.sender.serializePacket packet) outcome) maxPacketsInFlight

def flush (flushed : List (NewPacket × WriteOutcome × Fin (2 ^ 62))) :
    NumberedSender :=
  flushed.foldl (fun s e => s.send v e.1 e.2.1 e.2.2) s

/-- `ReserializeAllFrames`. -/
def resend (p : ℕ) (type : TransmissionType) (i : TransmissionInfo)
    (length : ℕ) (outcome : WriteOutcome) (maxPacketsInFlight : Fin (2 ^ 62)) : NumberedSender :=
  (s.fillPacketHeader (s.lengthOf p) false).handOver v (s.sender.resend p type i length outcome)
    (s.sender.sends (s.sender.reserializeAllFrames p type i length) outcome) maxPacketsInFlight

def step : NumberedEvent → Option NumberedSender
  | .send packet outcome n => if s.sender.connected then some (s.send v packet outcome n) else none
  | .writeQueued outcome n framesQueued =>
    (s.sender.step (.writeQueued outcome)).map fun sender =>
      s.handOver v sender
        (s.sender.queuedPackets.head?.any (s.sender.writes · outcome) && !framesQueued) n
  | .writePendingRetransmission flushed length outcome n =>
    if s.sender.connected ∧ s.sender.queuedPackets = [] ∧ length ≤ s.sender.longTermMtu then
      s.sender.manager.nextPendingRetransmission.map fun (p, type, i) =>
        (s.flush v flushed).resend v p type i length outcome n
    else none
  | .connectivityProbe =>
    if s.sender.connected then
      some { s.fillPacketHeader s.packetNumberLength s.fresh with sender := s.sender.taken 0 }
    else none
  | .other e => if e.serializes then none else (s.sender.step e).map fun sender => { s with sender }

end NumberedSender

/-! ## The least unacked packet -/

namespace UnackedPacketMap

variable {m : UnackedPacketMap} {p : ℕ}

theorem least_removeFromInFlight : (m.removeFromInFlight p).leastUnacked = m.leastUnacked :=
  alike_removeFromInFlight.least

theorem least_removeRetransmittability :
    (m.removeRetransmittability p).leastUnacked = m.leastUnacked := by
  have hfuel (fuel : ℕ) : (removeRetransmittabilityFor fuel p m).leastUnacked = m.leastUnacked := by
    induction fuel generalizing p m with
    | zero => rfl
    | succ fuel ih =>
      rw [removeRetransmittabilityFor]
      split
      · split
        · exact ih.trans modify_least
        · exact modify_least
      · rfl
  exact hfuel _

theorem least_cancelIn {id : ℕ} : (cancelIn id m p).leastUnacked = m.leastUnacked := by
  unfold cancelIn
  split
  · split
    · rfl
    · dsimp only
      split
      · exact least_removeRetransmittability.trans modify_least
      · exact modify_least
  · rfl

theorem least_cancelRetransmissionsForStream {id : ℕ} :
    (m.cancelRetransmissionsForStream id).leastUnacked = m.leastUnacked := by
  unfold cancelRetransmissionsForStream
  generalize m.unackedPackets.numbers = ps
  induction ps generalizing m with
  | nil => rfl
  | cons p ps ih => exact ih.trans least_cancelIn

theorem least_le_removeObsoletePackets : m.leastUnacked ≤ m.removeObsoletePackets.leastUnacked :=
  Indexed.le_popWhile_base _ _

theorem least_le_addSentPacket {packet : SerializedPacket} {old : ℕ} {type : TransmissionType}
    {inFlight : Bool} :
    m.leastUnacked ≤ (m.addSentPacket packet old type inFlight).leastUnacked := by
  have hskip (n : ℕ) : (m.skipTo n).leastUnacked = m.leastUnacked := Indexed.pad_base _
  unfold addSentPacket
  split
  · change _ ≤ ((m.skipTo packet.packetNumber).transferRetransmissionInfo old packet.packetNumber type
      (TransmissionInfo.ofPacket packet)).1.leastUnacked
    unfold transferRetransmissionInfo
    rw [← hskip packet.packetNumber]
    split
    · rfl
    split
    · rfl
    split
    · rfl
    · refine le_trans ?_ least_le_removeObsoletePackets
      unfold handedOver
      split
      · exact (Eq.symm modify_least).le
      · exact (Eq.symm modify_least).le
  · exact (Eq.symm (hskip _)).le

end UnackedPacketMap

namespace SentPacketManager

variable {s s' : SentPacketManager}

theorem least_markPacketHandled {p : ℕ} :
    (s.markPacketHandled p).unackedPackets.leastUnacked = s.unackedPackets.leastUnacked := by
  unfold markPacketHandled
  refine modify_least.trans (least_removeRetransmittability.trans (least_removeFromInFlight.trans ?_))
  split
  · exact least_removeFromInFlight
  · rfl

theorem least_neuterFor {p : ℕ} :
    (s.neuterFor p).unackedPackets.leastUnacked = s.unackedPackets.leastUnacked := by
  unfold neuterFor
  split
  · split
    · exact least_removeRetransmittability.trans least_removeFromInFlight
    · rfl
  · rfl

theorem Move.least_le (h : Move s s') :
    s.unackedPackets.leastUnacked ≤ s'.unackedPackets.leastUnacked := by
  cases h with
  | timers => rfl
  | observe n => rfl
  | land p => exact least_removeFromInFlight.ge
  | mark hf hn type => rfl
  | handle hi hu => exact least_markPacketHandled.ge
  | neuter hf => exact least_neuterFor.ge
  | cancel id => exact least_cancelRetransmissionsForStream.ge
  | obsolete => exact least_le_removeObsoletePackets

theorem least_le_onPacketSent {packet : SerializedPacket} :
    s.unackedPackets.leastUnacked ≤ (s.onPacketSent packet).unackedPackets.leastUnacked := by
  unfold onPacketSent
  dsimp only
  split <;> exact least_le_addSentPacket

end SentPacketManager

namespace PacketSender

variable {s s' : PacketSender}

theorem Works.least_le {a b : SentPacketManager} (h : Works a b) :
    a.unackedPackets.leastUnacked ≤ b.unackedPackets.leastUnacked :=
  h.inv (I := fun c => a.unackedPackets.leastUnacked ≤ c.unackedPackets.leastUnacked)
    (fun _ _ hm ha => ha.trans hm.least_le)
      (fun _ _ ha => ha.trans SentPacketManager.least_le_onPacketSent) le_rfl

theorem packetNumber_writeQueued {outcome : WriteOutcome} (hw : s.writeQueued outcome = some s') :
    s'.packetNumber = s.packetNumber := by
  obtain ⟨packet, rest, -, ⟨c, rfl | rfl⟩ | ⟨rfl, -⟩⟩ := writeQueued_cases hw <;> rfl

theorem packetNumber_step {e : SenderEvent} (he : e.serializes = false) (hs : s.step e = some s') :
    s'.packetNumber = s.packetNumber := by
  unfold PacketSender.step at hs
  split at hs
  swap
  · cases hs
  cases e <;> try cases he
  all_goals dsimp only at hs
  all_goals repeat' split at hs
  all_goals cases hs <;> rfl

theorem Ordered.least_pos (h : s.Ordered) : 0 < s.leastUnacked := h.accounts.least

theorem Ordered.least_le (h : s.Ordered) : s.leastUnacked ≤ s.packetNumber + 1 := by
  have htop := h.accounts.top
  have hlargest := h.largest
  unfold leastUnacked UnackedPacketMap.leastUnacked
  unfold Indexed.top at htop
  omega

theorem Ordered.taken (h : s.Ordered) : (s.taken 0).Ordered where
  accounts := h.accounts
  serviceable := h.serviceable
  largest := h.largest.trans (Nat.le_succ _)
  ready packet hp :=
    have hr := h.ready packet hp
    { hr with numbered := hr.numbered.trans (Nat.le_succ _) }
  order := h.order
  secure := h.secure
  custody := h.custody
  tagged := h.tagged

end PacketSender

/-! ## Lengths -/

/-- `QuicPacketNumberLength`. -/
def IsLength (length : ℕ) : Prop := length = 1 ∨ length = 2 ∨ length = 4 ∨ length = 6 ∨ length = 8

theorem isLength_getMinPacketNumberLength (v : TransportVersion) (n : ℕ) :
    IsLength (getMinPacketNumberLength v n) := by
  unfold getMinPacketNumberLength IsLength
  cases v <;> split_ifs <;> omega

/-- Every length but the longest one is chosen because the number has room in it. -/
theorem lt_of_getMinPacketNumberLength {v : TransportVersion} {n : ℕ}
    (h : getMinPacketNumberLength v n < 6) :
    n < 2 ^ (8 * getMinPacketNumberLength v n) := by
  unfold getMinPacketNumberLength at h ⊢
  cases v <;> split_ifs at h ⊢ <;> omega

/-- The span of a fresh length is a quarter of an epoch at most. -/
def Quartered (length number least : ℕ) : Prop :=
  length < 6 → number < 2 ^ 62 → 4 * (number - least) < 2 ^ (8 * length)

theorem quartered_of_max (v : TransportVersion) {number least n : ℕ} (hpos : 0 < least)
    (hle : least ≤ number)
    (hn : n < 2 ^ 62) :
    Quartered (getMinPacketNumberLength v (wrap64 (max (wrap64 (number + 2 ^ 64 - least)) n * 4)))
    number least := by
  intro h6 h62
  have hdelta : wrap64 (number + 2 ^ 64 - least) = number - least := by
    unfold wrap64
    omega
  rw [hdelta] at h6 ⊢
  have hmax : wrap64 (max (number - least) n * 4) = max (number - least) n * 4 :=
    Nat.mod_eq_of_lt (by omega)
  rw [hmax] at h6 ⊢
  have hlt := lt_of_getMinPacketNumberLength h6
  omega

namespace Emission

structure Sound (e : Emission) : Prop where
  length : IsLength e.length
  pos : 0 < e.least
  le : e.least ≤ e.number
  fresh : e.fresh = true → Quartered e.length e.number e.least

end Emission

namespace NumberedSender

variable {v : TransportVersion} {s s' : NumberedSender} {sender : PacketSender} {n : Fin (2 ^ 62)}

/-- The invariant. -/
structure Sound (s : NumberedSender) : Prop where
  ordered : s.sender.Ordered
  length : IsLength s.packetNumberLength
  fresh : s.fresh = true →
    Quartered s.packetNumberLength (s.sender.packetNumber + 1) s.sender.leastUnacked
  emitted : ∀ e ∈ s.emitted, e.Sound

theorem sound_new (maxTailLossProbes longTermMtu : ℕ) : (new maxTailLossProbes longTermMtu).Sound where
  ordered := PacketSender.ordered_new _ _
  length := .inl rfl
  fresh _ _ _ := by
    show 4 * (0 + 1 - 1) < 2 ^ (8 * 1)
    decide
  emitted _ he := absurd he List.not_mem_nil

theorem Sound.lengthOf (h : s.Sound) (p : ℕ) : IsLength (s.lengthOf p) := by
  unfold NumberedSender.lengthOf
  cases hf : s.emitted.find? (·.number = p) with
  | none => exact .inl rfl
  | some e => exact (h.emitted e (List.mem_of_find?_eq_some hf)).length

theorem Sound.move (h : s.Sound) (hs : sender.Ordered) (hn : sender.packetNumber = s.sender.packetNumber)
    (hl : s.sender.leastUnacked ≤ sender.leastUnacked) : ({ s with sender } : NumberedSender).Sound where
  ordered := hs
  length := h.length
  fresh hf h6 h62 := by
    have hspan := h.fresh hf h6 (hn ▸ h62)
    refine lt_of_le_of_lt ?_ hspan
    show 4 * (sender.packetNumber + 1 - sender.leastUnacked) ≤ _
    rw [hn]
    omega
  emitted := h.emitted

@[simp] theorem updatePacketNumberLength_sender : (s.updatePacketNumberLength v n).sender = s.sender := by
  rw [updatePacketNumberLength]

@[simp] theorem updatePacketNumberLength_emitted :
    (s.updatePacketNumberLength v n).emitted = s.emitted := by
  rw [updatePacketNumberLength]

theorem Sound.updatePacketNumberLength (h : s.Sound) : (s.updatePacketNumberLength v n).Sound where
  ordered := by
    rw [updatePacketNumberLength_sender]
    exact h.ordered
  length := isLength_getMinPacketNumberLength _ _
  fresh _ := by
    rw [updatePacketNumberLength_sender]
    exact quartered_of_max v h.ordered.least_pos h.ordered.least_le n.isLt
  emitted := by
    rw [updatePacketNumberLength_emitted]
    exact h.emitted

/-- A packet leaves with the length that was chosen for it, or with another one. -/
theorem Sound.fillPacketHeader {length : ℕ} {fresh : Bool} (h : s.Sound) (hl : IsLength length)
    (hf : fresh = true → length = s.packetNumberLength ∧ s.fresh = true) (hs : sender.Ordered) :
    ({ s.fillPacketHeader length fresh with sender } : NumberedSender).Sound where
  ordered := hs
  length := hl
  fresh hf := Bool.noConfusion hf
  emitted e he := by
    rcases List.mem_append.1 he with he | he
    · exact h.emitted e he
    · obtain rfl := List.mem_singleton.1 he
      refine ⟨hl, h.ordered.least_pos, h.ordered.least_le, fun hfresh => ?_⟩
      obtain ⟨rfl, hs⟩ := hf hfresh
      exact h.fresh hs

theorem Sound.handOver {written : Bool} (h : ({ s with sender } : NumberedSender).Sound) :
    (s.handOver v sender written n).Sound := by
  unfold NumberedSender.handOver
  split
  · exact h.updatePacketNumberLength
  · exact h

theorem Sound.send (h : s.Sound) (packet : NewPacket) (outcome : WriteOutcome) :
    (s.send v packet outcome n).Sound :=
  (h.fillPacketHeader h.length (fun hf => ⟨rfl, hf⟩) (h.ordered.send packet)).handOver

@[simp] theorem handOver_sender {written : Bool} : (s.handOver v sender written n).sender = sender := by
  unfold handOver
  split
  · exact updatePacketNumberLength_sender
  · rfl

theorem Sound.flush (h : s.Sound) (v : TransportVersion)
    (flushed : List (NewPacket × WriteOutcome × Fin (2 ^ 62))) :
    (s.flush v flushed).Sound ∧
      (s.flush v flushed).sender = (flushed.map fun e => (e.1, e.2.1)).foldl
        (fun s e => s.send e.1 e.2) s.sender := by
  unfold NumberedSender.flush
  induction flushed generalizing s with
  | nil => exact ⟨h, rfl⟩
  | cons e flushed ih =>
    obtain ⟨hsound, hsender⟩ := ih (h.send e.1 e.2.1)
    refine ⟨hsound, hsender.trans ?_⟩
    rw [List.map_cons, List.foldl_cons, NumberedSender.send, handOver_sender]

theorem Sound.writePendingRetransmission {flushed : List (NewPacket × WriteOutcome × Fin (2 ^ 62))}
    {length : ℕ}
    {outcome : WriteOutcome} {p : ℕ} {type : TransmissionType} {i : TransmissionInfo} (h : s.Sound)
    (hq : s.sender.queuedPackets = [])
    (hnext : s.sender.manager.nextPendingRetransmission = some (p, type, i)) :
    ((s.flush v flushed).resend v p type i length outcome n).Sound := by
  obtain ⟨hflush, hsender⟩ := h.flush v flushed
  refine (hflush.fillPacketHeader (hflush.lengthOf p) Bool.noConfusion ?_).handOver
  have hw : s.sender.writePendingRetransmission (flushed.map fun e => (e.1, e.2.1)) length outcome =
      some ((s.flush v flushed).sender.resend p type i length outcome) := by
    rw [PacketSender.writePendingRetransmission, hnext, hsender]
    rfl
  exact h.ordered.writePendingRetransmission hq hw

theorem Sound.step {e : NumberedEvent} (h : s.Sound) (hs : s.step v e = some s') : s'.Sound := by
  cases e with
  | send packet outcome n =>
    obtain ⟨-, hs⟩ := ite_none_right_eq_some.1 hs
    cases hs
    exact h.send packet outcome
  | writeQueued outcome n framesQueued =>
    obtain ⟨sender, hw, rfl⟩ := map_eq_some_iff.1 hs
    have hn : sender.packetNumber = s.sender.packetNumber := by
      obtain ⟨-, hw⟩ := ite_none_right_eq_some.1 hw
      exact PacketSender.packetNumber_writeQueued hw
    exact (h.move (h.ordered.step hw) hn (PacketSender.works_step hw).least_le).handOver
  | writePendingRetransmission flushed length outcome n =>
    obtain ⟨⟨-, hq, -⟩, hs⟩ := ite_none_right_eq_some.1 hs
    obtain ⟨⟨p, type, i⟩, hnext, rfl⟩ := map_eq_some_iff.1 hs
    exact h.writePendingRetransmission hq hnext
  | connectivityProbe =>
    obtain ⟨-, hs⟩ := ite_none_right_eq_some.1 hs
    cases hs
    exact h.fillPacketHeader h.length (fun hf => ⟨rfl, hf⟩) h.ordered.taken
  | other e =>
    obtain ⟨he, hs⟩ := ite_none_left_eq_some.1 hs
    obtain ⟨sender, hw, rfl⟩ := map_eq_some_iff.1 hs
    have hn := PacketSender.packetNumber_step (Bool.eq_false_iff.2 he) hw
    exact h.move (h.ordered.step hw) hn (PacketSender.works_step hw).least_le

theorem sound_run {maxTailLossProbes longTermMtu : ℕ} {es : List NumberedEvent}
    (hr : run (step v) (new maxTailLossProbes longTermMtu) es = some s) : s.Sound :=
  run_inv (fun _ _ _ h hs => h.step hs) (sound_new _ _) hr

end NumberedSender

/-! ## The result -/

theorem Narrow.fits {length p least : ℕ} (h : Narrow length p least) (h1 : 0 < least) :
    p - least < 2 ^ (8 * length) := by
  have hpos : 0 < 2 ^ (8 * length) := Nat.pow_pos (by decide)
  unfold Narrow at h
  dsimp only at h
  omega

theorem isSome_appendStopWaitingFrame {h : FrameHeader} {leastUnacked : ℕ} {w : Wire.Writer}
    (hl : IsLength h.packetNumberLength) (hle : leastUnacked ≤ h.packetNumber)
    (h64 : h.packetNumber < 2 ^ 64)
    (hfit : h.packetNumber - leastUnacked < 2 ^ (h.packetNumberLength * 8 % 64))
    (hroom : h.packetNumberLength ≤ w.room) :
    (appendStopWaitingFrame h leastUnacked w).isSome = true := by
  have hdelta : wrap64 (h.packetNumber + 2 ^ 64 - leastUnacked) = h.packetNumber - leastUnacked := by
    unfold wrap64
    omega
  unfold appendStopWaitingFrame appendPacketNumber
  dsimp only
  rw [hdelta, Nat.div_eq_of_lt hfit, if_neg (Nat.lt_irrefl 0), if_neg (by unfold IsLength at hl; omega)]
  rw [isSome_iff_exists, Wire.Writer.exists_write, Wire.length_encode]
  exact hroom

namespace Emission

/-- What the peer needs: the number, whatever it has seen, and STOP_WAITING frames. -/
def Readable (e : Emission) : Prop :=
  Recovers e.length e.number e.least ∧
    ∀ w : Wire.Writer, e.length ≤ w.room →
      (appendStopWaitingFrame ⟨e.number, e.length⟩ e.least w).isSome = true

/-- The length is enough.  One of eight bytes is enough for hardly any number. -/
def Enough (e : Emission) : Prop :=
  if e.length = 8 then e.number = e.least ∧ e.number ≤ 2 else Narrow e.length e.number e.least

theorem Sound.readable_iff {e : Emission} (h : e.Sound) (h64 : e.number < 2 ^ 64) :
    e.Readable ↔ e.Enough := by
  unfold Readable Enough
  by_cases h8 : e.length = 8
  · rw [if_pos h8, h8, recovers_eight_iff h.pos h.le h64]
    refine and_iff_left_of_imp fun heq w hroom => ?_
    refine isSome_appendStopWaitingFrame (h8 ▸ h.length) h.le h64 ?_ hroom
    show e.number - e.least < 2 ^ (8 * 8 % 64)
    rw [heq.1, Nat.sub_self]
    decide
  · have h6 : 0 < e.length ∧ e.length ≤ 6 := by
      have := h.length
      unfold IsLength at this
      omega
    rw [if_neg h8, recovers_iff h.pos h.le h64 h6.1 h6.2]
    refine and_iff_left_of_imp fun hn w hroom => ?_
    refine isSome_appendStopWaitingFrame h.length h.le h64 ?_ hroom
    show e.number - e.least < 2 ^ (e.length * 8 % 64)
    rw [Nat.mod_eq_of_lt (by omega), Nat.mul_comm]
    exact hn.fits h.pos

theorem Sound.enough {e : Emission} (h : e.Sound) (hf : e.fresh = true) (h6 : e.length < 6)
    (h62 : e.number < 2 ^ 62) :
    e.Enough := by
  have hspan := h.fresh hf h6 h62
  rw [Enough, if_neg (by omega)]
  exact .inr (.inl (by omega))

end Emission

theorem packet_numbers_recoverable {v : TransportVersion} {maxTailLossProbes longTermMtu : ℕ}
    {es : List NumberedEvent}
    {s : NumberedSender}
    (hr : run (NumberedSender.step v) (.new maxTailLossProbes longTermMtu) es = some s)
    {e : Emission} (he : e ∈ s.emitted) (h64 : e.number < 2 ^ 64) :
    (e.Readable ↔ e.Enough) ∧ (e.fresh = true → e.length < 6 → e.number < 2 ^ 62 → e.Readable) := by
  have hsound := (NumberedSender.sound_run hr).emitted e he
  exact ⟨hsound.readable_iff h64, fun hf h6 h62 => (hsound.readable_iff h64).2 (hsound.enough hf h6 h62)⟩

/-- A packet with data, `n` packets that carry ACKs, and the first one again. -/
def probeAfter (n : ℕ) : List NumberedEvent :=
  .send ⟨[some 5], .forwardSecure, 90, 0⟩ .sent 10 ::
    (List.replicate n (.send ⟨[], .forwardSecure, 40, 7⟩ .sent 10) ++
      [.other (.retransmissionTimeout false []), .other .tailLossProbe,
        .writePendingRetransmission [] 90 .sent 10])

theorem packet_numbers_recoverable_probe :
    ∃ s, run (NumberedSender.step .quic41) (.new 2 1350) (probeAfter 2) = some s ∧
      s.emitted = [⟨1, 1, 1, true⟩, ⟨2, 1, 1, true⟩, ⟨3, 1, 1, true⟩, ⟨4, 1, 1, false⟩] ∧
      (⟨3, 1, 1, true⟩ : Emission).Readable ∧ (⟨4, 1, 1, false⟩ : Emission).Readable := by
  obtain ⟨s, hr, hs⟩ := map_eq_some_iff.1
    (by decide +kernel : (run (NumberedSender.step .quic41) (.new 2 1350) (probeAfter 2)).map (·.emitted) =
      some [⟨1, 1, 1, true⟩, ⟨2, 1, 1, true⟩, ⟨3, 1, 1, true⟩, ⟨4, 1, 1, false⟩])
  refine ⟨s, hr, hs, ?_, ?_⟩
  · exact (packet_numbers_recoverable hr (by simp [hs]) (by decide)).2 rfl (by decide) (by decide)
  · exact (packet_numbers_recoverable hr (by simp [hs]) (by decide)).1.2 (.inl (by decide))

/-- The first packet is sent with one byte of its number, and so is its repetition as packet 300: a
    peer that has seen none of the others takes that for packet 44, and a STOP_WAITING frame has no
    room in it. -/
theorem packet_numbers_recoverable_late_probe :
    ∃ s e, run (NumberedSender.step .quic41) (.new 2 1350) (probeAfter 298) = some s ∧ e ∈ s.emitted ∧
      e = ⟨300, 1, 1, false⟩ ∧
        calculatePacketNumberFromWire e.length 0 (e.number % 2 ^ (8 * e.length)) = 44 ∧
      (∀ w, appendStopWaitingFrame ⟨e.number, e.length⟩ e.least w = none) ∧ ¬ e.Readable := by
  obtain ⟨s, hr, hs⟩ := map_eq_some_iff.1
    (by decide +kernel : (run (NumberedSender.step .quic41) (.new 2 1350) (probeAfter 298)).map
      (fun s => s.emitted.getLast?) = some (some ⟨300, 1, 1, false⟩))
  refine ⟨s, ⟨300, 1, 1, false⟩, hr, List.mem_of_getLast? hs, rfl, by decide, fun w => ?_, fun h => ?_⟩
  · rfl
  · exact absurd (h.1 0 le_rfl (by decide)) (by decide)

end Puic
