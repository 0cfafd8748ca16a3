/-
  What the calls of `QuicSentPacketManager` are made of.

  Apart from `OnPacketSent`, every call is a sequence of moves: a packet leaves the
  flight, is marked for retransmission, is done with, is neutered, loses the frames of
  a stream, or leaves the map.  A property of the manager is proved for one move and
  for `OnPacketSent`.
-/
import Puic.SentPackets
import Mathlib.Logic.Relation
import Mathlib.Tactic.Abel

namespace Puic

namespace SentPacketManager

open UnackedPacketMap

inductive Move (s : SentPacketManager) : SentPacketManager → Prop
  | timers (handshakeConfirmed : Bool)
    (pendingTimerTransmissionCount consecutiveTlpCount consecutiveRtoCount
      largestPacketPeerKnowsIsAcked : ℕ) :
    Move s { s with
      handshakeConfirmed, pendingTimerTransmissionCount, consecutiveTlpCount, consecutiveRtoCount,
      largestPacketPeerKnowsIsAcked }
  | observe (n : ℕ) : Move s (s.setUnacked { s.unackedPackets with largestObserved := n })
  | land (p : ℕ) : Move s (s.removeFromInFlight p)
  | mark {p : ℕ} (hf : s.frames p ≠ []) (hn : s.pendingRetransmissions.any (·.1 = p) = false)
    (type : TransmissionType) :
    Move s { s with pendingRetransmissions := s.pendingRetransmissions ++ [(p, type)] }
  | handle {p : ℕ} {i : TransmissionInfo} (hi : s.info? p = some i) (hu : i.isUnackable = false) :
    Move s (s.markPacketHandled p)
  | neuter {p : ℕ} (hf : s.frames p ≠ []) : Move s (s.neuterFor p)
  | cancel (id : ℕ) : Move s (s.cancelRetransmissionsForStream id)
  | obsolete : Move s s.removeObsoletePackets

abbrev Moves : SentPacketManager → SentPacketManager → Prop := Relation.ReflTransGen Move

variable {s s' : SentPacketManager} {p q : ℕ} {i : TransmissionInfo} {type : TransmissionType} {id : ℕ}

theorem Moves.foldl {g : SentPacketManager → ℕ → SentPacketManager} (hg : ∀ s p, Moves s (g s p))
    (ps : List ℕ) :
    Moves s (ps.foldl g s) := by
  induction ps generalizing s with
  | nil => exact .refl
  | cons p ps ih => exact (hg s p).trans ih

/-! ## The calls -/

theorem frames_removeFromInFlight : (s.removeFromInFlight p).frames q = s.frames q :=
  (alike_removeFromInFlight).frames

theorem frames_of_info (hi : s.info? p = some i) : s.frames p = i.retransmittableFrames :=
  UnackedPacketMap.frames_of_info hi

theorem moves_markForRetransmission (hf : s.frames p ≠ []) :
    Moves s (s.markForRetransmission p type) := by
  unfold markForRetransmission
  have hmark : ∀ s : SentPacketManager, s.frames p ≠ [] →
      Moves s (if s.pendingRetransmissions.any (·.1 = p) then s
      else { s with pendingRetransmissions := s.pendingRetransmissions ++ [(p, type)] }) := by
    intro s hf
    split
    · exact .refl
    · next hn => exact .single (.mark hf (Bool.eq_false_iff.2 hn) type)
  by_cases ht : type ≠ .tlpRetransmission ∧ type ≠ .probingRetransmission ∧ type ≠ .rtoRetransmission
  · rw [if_pos ht]
    exact .head (.land p) (hmark _ (by rwa [frames_removeFromInFlight]))
  · rw [if_neg ht]
    exact hmark s hf

theorem moves_handleAckFor (ack : AckFrame) : Moves s (s.handleAckFor ack p) := by
  unfold handleAckFor
  split
  · next i hi =>
    split
    · exact .refl
    · next hu =>
      refine .head (.timers s.handshakeConfirmed s.pendingTimerTransmissionCount s.consecutiveTlpCount
        s.consecutiveRtoCount (max s.largestPacketPeerKnowsIsAcked i.largestAcked))
          (.single (.handle hi ?_))
      simp only [Bool.or_eq_true, not_or] at hu
      simpa using hu.1
  · exact .refl

theorem moves_loseFor : Moves s (s.loseFor p) := by
  unfold loseFor
  split
  · next hf => exact moves_markForRetransmission hf
  · exact .single (.land p)

theorem moves_invokeLossDetection (lost : List ℕ) : Moves s (s.invokeLossDetection lost) :=
  Moves.foldl (fun _ _ => moves_loseFor) lost

theorem moves_ackPackets (ack : AckFrame) : Moves s (s.ackPackets ack) :=
  .head (.observe ack.largestAcked) (Moves.foldl (fun _ _ => moves_handleAckFor ack) _)

theorem moves_onIncomingAck (ack : AckFrame) (lost : List ℕ) : Moves s (s.onIncomingAck ack lost) := by
  have h : Moves s ((s.ackPackets ack).invokeLossDetection lost).removeObsoletePackets :=
    ((moves_ackPackets ack).trans (moves_invokeLossDetection lost)).tail .obsolete
  unfold onIncomingAck
  dsimp only
  split
  · exact h.tail (.timers _ _ _ _ _)
  · exact h

theorem moves_retransmitUnackedPackets (type : TransmissionType) :
    Moves s (s.retransmitUnackedPackets type) := by
  refine Moves.foldl (fun s p => ?_) _
  unfold retransmitUnackedFor
  split
  · next i hi =>
    split
    · next hc => exact moves_markForRetransmission (frames_of_info hi ▸ hc.1)
    · exact .refl
  · exact .refl

theorem moves_neuterFor : Moves s (s.neuterFor p) := by
  by_cases hf : s.frames p = []
  · have he : s.neuterFor p = s := by
      unfold neuterFor
      split
      · next i hi => rw [if_neg fun hc => hc.1 (frames_of_info hi ▸ hf)]
      · rfl
    rw [he]
  · exact .single (.neuter hf)

theorem moves_neuterUnencryptedPackets : Moves s s.neuterUnencryptedPackets :=
  Moves.foldl (fun _ _ => moves_neuterFor) _

theorem moves_retransmitCryptoFor : Moves s (s.retransmitCryptoFor p) := by
  unfold retransmitCryptoFor
  split
  · next i hi =>
    split
    · next hc => exact (moves_markForRetransmission (frames_of_info hi ▸ hc.2.1)).tail (.timers _ _ _ _ _)
    · exact .refl
  · exact .refl

theorem moves_maybeRetransmitOldestPacket (type : TransmissionType) :
    Moves s (s.maybeRetransmitOldestPacket type) := by
  unfold maybeRetransmitOldestPacket
  split
  · next p hp =>
    have hany := List.find?_some hp
    obtain ⟨i, hi, hc⟩ := (Option.any_eq_true _ _).1 hany
    simp only [Bool.and_eq_true, Bool.not_eq_true', List.isEmpty_eq_false_iff] at hc
    exact moves_markForRetransmission (frames_of_info hi ▸ hc.2)
  · exact .refl

theorem moves_maybeRetransmitTailLossProbe : Moves s s.maybeRetransmitTailLossProbe := by
  unfold maybeRetransmitTailLossProbe
  split
  · exact .refl
  · exact moves_maybeRetransmitOldestPacket _

theorem moves_retransmitRtoFor : Moves s (s.retransmitRtoFor p) := by
  unfold retransmitRtoFor
  split
  · next i hi =>
    have hland : ∀ s : SentPacketManager, Moves s
        (if i.retransmittableFrames = [] ∧ i.inFlight ∧
          i.retransmission = 0 then s.removeFromInFlight p else s) := by
      intro s
      split
      · exact .single (.land p)
      · exact .refl
    by_cases hc : i.retransmittableFrames ≠ [] ∧
      s.pendingTimerTransmissionCount < kMaxRetransmissionsOnTimeout
    · rw [if_pos hc]
      exact ((moves_markForRetransmission (frames_of_info hi ▸ hc.1)).tail
        (.timers _ _ _ _ _)).trans (hland _)
    · rw [if_neg hc]
      exact hland s
  · exact .refl

theorem moves_onRetransmissionTimeout (lossTimeout : Bool) (lost : List ℕ) :
    Moves s (s.onRetransmissionTimeout lossTimeout lost) := by
  unfold onRetransmissionTimeout
  split
  · exact Moves.foldl (fun _ _ => moves_retransmitCryptoFor) _
  · exact moves_invokeLossDetection lost
  · exact .single (.timers _ _ _ _ _)
  · have h : Moves s (s.numbers.foldl retransmitRtoFor s) :=
      Moves.foldl (fun _ _ => moves_retransmitRtoFor) _
    unfold retransmitRtoPackets
    dsimp only
    split
    · exact h.tail (.timers _ _ _ _ _)
    · exact h

/-! ## A packet is done with -/

/-- The frames that were acked, cancelled or neutered. -/
def gone (s : SentPacketManager) : Multiset SentFrame := ↑s.acked + ↑s.cancelled + ↑s.neutered

/-- `p` is done with: the frames at the end `t` of its chain are gone and need no retransmission. -/
structure Done (s s' : SentPacketManager) (p t : ℕ) : Prop where
  accounts : Accounts s'.unackedPackets
  leads : Links.Leads s.unackedPackets.next p t
  settled : Settled s.unackedPackets s'.unackedPackets p t
  pending : s'.pendingRetransmissions = s.pendingRetransmissions.filter (·.1 ≠ t)
  gone : s'.gone = s.gone + (s.frames t : Multiset SentFrame)
  sent : s'.sent = s.sent

/-- Whatever has left the flight before, `RemoveRetransmittability` releases the newest retransmission. -/
theorem settled_removeRetransmittability (hi : s.info? p = some i) {m : UnackedPacketMap}
    (hl : Alike s.unackedPackets m) (hm : Accounts m) :
    Settled s.unackedPackets (m.removeRetransmittability p)
    p (s.unackedPackets.newestRetransmission p) := by
  obtain ⟨j, hj, -⟩ := hl.symm.info_some hi
  have hr := hm.released hj
  rw [hl.newest] at hr
  exact .of_alike hl hr.settled

section Done

variable (ha : Accounts s.unackedPackets)
include ha

theorem settled_markPacketHandled (hi : s.info? p = some i) :
    Accounts (s.markPacketHandled p).unackedPackets ∧
    Settled s.unackedPackets (s.markPacketHandled p).unackedPackets p
      (s.unackedPackets.newestRetransmission p) := by
  have hdone : ∀ m : UnackedPacketMap, Alike s.unackedPackets m → Accounts m →
      Accounts ((m.removeRetransmittability p).modify p ({ · with isUnackable := true })) ∧
      Settled s.unackedPackets
        ((m.removeRetransmittability p).modify p ({ · with isUnackable := true })) p
        (s.unackedPackets.newestRetransmission p) := by
    intro m hl hm
    refine ⟨hm.removeRetransmittability.modify' ?_, (settled_removeRetransmittability hi hl hm).unackable⟩
    exact fun j he => ⟨⟨he.handshake, he.link, he.tail⟩, rfl, rfl⟩
  have hland : ∀ m : UnackedPacketMap, Alike s.unackedPackets m → Accounts m →
      Alike s.unackedPackets (m.removeFromInFlight p) ∧ Accounts (m.removeFromInFlight p) :=
    fun m hl hm => ⟨hl.trans alike_removeFromInFlight, hm.removeFromInFlight⟩
  unfold markPacketHandled
  dsimp only
  split
  · obtain ⟨hl, hm⟩ := hland _ alike_removeFromInFlight
      (ha.removeFromInFlight)
    exact hdone _ hl hm
  · obtain ⟨hl, hm⟩ := hland _ .refl ha
    exact hdone _ hl hm

theorem done_markPacketHandled (hi : s.info? p = some i) :
    Done s (s.markPacketHandled p) p (s.unackedPackets.newestRetransmission p) where
  accounts := (settled_markPacketHandled ha hi).1
  leads := ha.leads_newest hi
  settled := (settled_markPacketHandled ha hi).2
  pending := by
    unfold markPacketHandled
    dsimp only
    split <;> rfl
  gone := by
    have hacked : (s.markPacketHandled p).acked =
        (s.frames (s.unackedPackets.newestRetransmission p)).reverse ++ s.acked := by
      unfold markPacketHandled
      dsimp only
      split <;> rfl
    have hrest : (s.markPacketHandled p).cancelled = s.cancelled ∧
        (s.markPacketHandled p).neutered = s.neutered := by
      unfold markPacketHandled
      dsimp only
      split <;> exact ⟨rfl, rfl⟩
    unfold SentPacketManager.gone
    rw [hacked, hrest.1, hrest.2, ← Multiset.coe_add, Multiset.coe_reverse]
    abel
  sent := by
    unfold markPacketHandled
    dsimp only
    split <;> rfl

theorem next_of_frames (hf : s.frames p ≠ []) : s.unackedPackets.next p = 0 := by
  cases hi : s.info? p with
  | none => exact absurd (UnackedPacketMap.frames_of_none hi) hf
  | some i =>
    rw [next_of_info hi]
    exact (ha.entry p i hi).tail (frames_of_info hi ▸ hf)

theorem newest_of_frames (hf : s.frames p ≠ []) : s.unackedPackets.newestRetransmission p = p := by
  cases hi : s.info? p with
  | none => exact absurd (UnackedPacketMap.frames_of_none hi) hf
  | some i => exact (ha.leads_newest hi).eq_of_end (next_of_frames ha hf)

theorem done_neuterFor (hf : s.frames p ≠ []) :
    (s.neuterFor p = s ∧ ∀ i, s.info? p = some i → i.encryptionLevel ≠ .none) ∨
      Done s (s.neuterFor p) p p := by
  unfold neuterFor
  split
  · next i hi =>
    split
    · next hc =>
      have hl := alike_removeFromInFlight (m := s.unackedPackets) (p := p)
      have hset := settled_removeRetransmittability hi hl ha.removeFromInFlight
      rw [newest_of_frames ha hf] at hset
      refine .inr ⟨ha.removeFromInFlight.removeRetransmittability, .tail (next_of_frames ha hf),
        hset, rfl, ?_, rfl⟩
      show (s.acked : Multiset SentFrame) + s.cancelled + ↑(i.retransmittableFrames ++ s.neutered) = _
      rw [frames_of_info hi, ← Multiset.coe_add]
      unfold SentPacketManager.gone
      abel
    · next hc =>
      refine .inl ⟨rfl, fun j hj hl => hc ?_⟩
      rw [hi] at hj
      rw [Option.some.inj hj]
      exact ⟨Option.some.inj hj ▸ frames_of_info hi ▸ hf, hl⟩
  · next hi => exact .inl ⟨rfl, fun j hj => absurd (hi.symm.trans hj) nofun⟩

end Done

/-! ## What every move keeps -/

/-- Frames only leave, no packet gets a retransmission, and the rest of an entry stays. -/
structure Wanes (s s' : SentPacketManager) : Prop where
  frames : ∀ q, (s'.frames q).Sublist (s.frames q)
  ends : ∀ q, s.unackedPackets.next q = 0 → s'.unackedPackets.next q = 0
  level : ∀ q i', s'.info? q = some i' → ∃ i, s.info? q = some i ∧ i'.encryptionLevel = i.encryptionLevel
  largest : s'.unackedPackets.largestSentPacket = s.unackedPackets.largestSentPacket
  sent : s'.sent = s.sent

theorem Wanes.refl : Wanes s s := ⟨fun _ => .refl _, fun _ h => h, fun _ i hi => ⟨i, hi, rfl⟩, rfl, rfl⟩

theorem Wanes.trans {s₁ : SentPacketManager} (h : Wanes s s₁) (h' : Wanes s₁ s') : Wanes s s' where
  frames q := (h'.frames q).trans (h.frames q)
  ends q hq := h'.ends q (h.ends q hq)
  level q i' hi' := by
    obtain ⟨i, hi, he⟩ := h'.level q i' hi'
    obtain ⟨j, hj, he'⟩ := h.level q i hi
    exact ⟨j, hj, he.trans he'⟩
  largest := h'.largest.trans h.largest
  sent := h'.sent.trans h.sent

theorem Done.wanes {t : ℕ} (h : Done s s' p t) : Wanes s s' where
  frames q := by
    rw [show s'.frames q = _ from h.settled.frames q]
    split
    · exact List.nil_sublist _
    · exact .refl _
  ends q hq := by
    rcases h.settled.cut q with he | ⟨he, -⟩
    · rw [he, hq]
    · exact he
  level q i' hi' := by
    obtain ⟨i, hi, -, hl⟩ := h.settled.info_some hi'
    exact ⟨i, hi, hl⟩
  largest := h.settled.sent
  sent := h.sent

theorem wanes_of_alike (hl : Alike s.unackedPackets s'.unackedPackets) (hs : s'.sent = s.sent) :
    Wanes s s' where
  frames q := by
    rw [show s'.frames q = _ from hl.frames]
    exact .refl _
  ends q hq := by rwa [hl.next]
  level q i' hi' := by
    obtain ⟨i, hi, he⟩ := hl.info_some hi'
    exact ⟨i, hi, by rw [he]⟩
  largest := hl.sent
  sent := hs

theorem Move.accounts (h : Move s s') (ha : Accounts s.unackedPackets) : Accounts s'.unackedPackets := by
  cases h with
  | timers => exact ha
  | observe => exact ⟨⟨ha.bytes, ha.crypto, ha.entry, ha.least⟩, ha.top⟩
  | land => exact ha.removeFromInFlight
  | mark => exact ha
  | handle hi => exact (done_markPacketHandled ha hi).accounts
  | neuter hf =>
    rcases done_neuterFor ha hf with ⟨he, -⟩ | hd
    · rwa [he]
    · exact hd.accounts
  | cancel => exact ha.cancelRetransmissionsForStream
  | obsolete => exact ha.removeObsoletePackets

theorem Move.wanes (h : Move s s') (ha : Accounts s.unackedPackets) : Wanes s s' := by
  cases h with
  | timers => exact wanes_of_alike .refl rfl
  | observe => exact ⟨fun _ => .refl _, fun _ hq => hq, fun _ i hi => ⟨i, hi, rfl⟩, rfl, rfl⟩
  | land => exact wanes_of_alike alike_removeFromInFlight rfl
  | mark => exact wanes_of_alike .refl rfl
  | handle hi => exact (done_markPacketHandled ha hi).wanes
  | neuter hf =>
    rcases done_neuterFor ha hf with ⟨he, -⟩ | hd
    · rw [he]
      exact .refl
    · exact hd.wanes
  | cancel id =>
    refine ⟨fun q => ?_, fun q hq => ?_, fun q i' hi' => ?_, ?_, rfl⟩
    · rw [show (s.cancelRetransmissionsForStream id).frames q = _ from ha.frames_cancel q]
      exact List.filter_sublist
    · rwa [show (s.cancelRetransmissionsForStream id).unackedPackets.next = _ from ha.next_cancel]
    · rw [show (s.cancelRetransmissionsForStream id).info? q = _ from ha.info?_cancel q] at hi'
      obtain ⟨i, hi, rfl⟩ := Option.map_eq_some_iff.1 hi'
      exact ⟨i, hi, cancelEntry_kept.2.2.2⟩
    · exact cancelRetransmissionsForStream_largest ha
  | obsolete =>
    refine ⟨fun q => ?_, fun q hq => ?_, fun q i' hi' => ?_, rfl, rfl⟩
    · rw [show s.removeObsoletePackets.frames q = _ from frames_removeObsoletePackets]
      exact .refl _
    · cases hi : s.removeObsoletePackets.unackedPackets.info? q with
      | none => exact next_of_none hi
      | some i =>
        rw [next_of_info hi, ← hq]
        exact (next_of_info (info?_of_removeObsoletePackets hi)).symm
    · exact ⟨i', info?_of_removeObsoletePackets hi', rfl⟩

theorem Moves.inv {I : SentPacketManager → Prop}
    (hI : ∀ s s', Accounts s.unackedPackets → Move s s' → I s → I s')
    (h : Moves s s') (ha : Accounts s.unackedPackets) (hs : I s) : Accounts s'.unackedPackets ∧ I s' := by
  induction h with
  | refl => exact ⟨ha, hs⟩
  | tail _ hm ih => exact ⟨hm.accounts ih.1, hI _ _ ih.1 hm ih.2⟩

theorem Moves.accounts (h : Moves s s') (ha : Accounts s.unackedPackets) : Accounts s'.unackedPackets :=
  (h.inv (fun _ _ _ _ _ => trivial) ha trivial).1

theorem Moves.wanes (h : Moves s s') (ha : Accounts s.unackedPackets) : Wanes s s' :=
  (h.inv (fun _ _ ha hm hw => hw.trans (hm.wanes ha)) ha .refl).2

/-! ## Sending -/

section Sending

variable {packet : SerializedPacket}

/-- A packet that may be sent under a number up to `n`. -/
structure Ready (s : SentPacketManager) (n : ℕ) (packet : SerializedPacket) : Prop extends
    Sendable s.unackedPackets packet where
  numbered : packet.packetNumber ≤ n
  tail : s.unackedPackets.next packet.originalPacketNumber = 0

theorem added_onPacketSent (ha : Accounts s.unackedPackets)
    (hs : Sendable s.unackedPackets packet) :
    Added s.unackedPackets (s.onPacketSent packet).unackedPackets packet := by
  unfold onPacketSent
  dsimp only
  split <;> exact ha.added hs

theorem accounts_onPacketSent (ha : Accounts s.unackedPackets)
    (hs : Sendable s.unackedPackets packet) : Accounts (s.onPacketSent packet).unackedPackets := by
  unfold onPacketSent
  dsimp only
  split <;> exact ha.addSentPacket hs _

theorem pending_onPacketSent : (s.onPacketSent packet).pendingRetransmissions =
    if packet.originalPacketNumber ≠ 0 then
      s.pendingRetransmissions.filter (·.1 ≠ packet.originalPacketNumber)
      else s.pendingRetransmissions := by
  unfold onPacketSent
  dsimp only
  split <;> rfl

theorem le_largest_of_frames (ha : Accounts s.unackedPackets) (hf : s.frames p ≠ []) :
    p ≤ s.unackedPackets.largestSentPacket := by
  by_contra hp
  exact hf (UnackedPacketMap.frames_of_none (ha.info?_unsent (not_le.1 hp)))

theorem ne_zero_of_frames (ha : Accounts s.unackedPackets) (hf : s.frames p ≠ []) : p ≠ 0 := by
  rintro rfl
  exact hf ha.frames_zero

theorem frames_onPacketSent (ha : Accounts s.unackedPackets)
    (hs : Sendable s.unackedPackets packet) (hf : s.frames p ≠ [])
    (hp : p ≠ packet.originalPacketNumber) :
    (s.onPacketSent packet).frames p = s.frames p := by
  have hle := le_largest_of_frames ha hf
  have hlater := hs.later
  rw [show (s.onPacketSent packet).frames p = _ from (added_onPacketSent ha hs).frames p,
    if_neg (by omega), if_neg hp]
  rfl

end Sending

end SentPacketManager

end Puic
