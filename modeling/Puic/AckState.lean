/-
  What an endpoint remembers about acknowledgements, and what can change it.

  Of the received packets only the largest number matters here: neither the cap on the
  ranges of an ACK frame nor what the peer has given up ever removes it.  The sending
  half remembers the largest number the peer has acknowledged (`largest_observed_`),
  which only an ACK frame moves, and with every packet the largest number that the ACK
  frame in it acknowledged.  These never exceed what had been received by then
  (`Bounded`).
-/
import Puic.Replay
import Puic.PacketNumberLength

namespace Puic

open List

/-! ## The largest received number -/

namespace PacketNumberQueue

variable {q : PacketNumberQueue} {n k : ℕ}

theorem max_le (h : ∀ x ∈ q, x ≤ n) : q.max ≤ n := by
  cases he : q.isEmpty with
  | true =>
    have hnil : q.intervals = [] := List.isEmpty_iff.1 he
    simp [PacketNumberQueue.max, hnil]
  | false => exact h _ (max_mem he)

theorem max_add : (q.add n).max = Nat.max q.max n := by
  refine le_antisymm (max_le fun x hx => ?_) (Nat.max_le.2 ⟨max_le fun x hx => ?_, ?_⟩)
  · rcases mem_add.1 hx with rfl | hx
    · exact Nat.le_max_right _ _
    · exact (le_max hx).trans (Nat.le_max_left _ _)
  · exact le_max (mem_add.2 (.inr hx))
  · exact le_max (mem_add.2 (.inl rfl))

theorem max_removeUpTo (h : n ≤ q.max) : (q.removeUpTo n).1.max = q.max := by
  refine le_antisymm (max_le fun x hx => le_max (mem_removeUpTo.1 hx).2) ?_
  cases he : q.isEmpty with
  | true => rw [removeUpTo, if_pos he]
  | false => exact le_max (mem_removeUpTo.2 ⟨h, max_mem he⟩)

/-- `RemoveSmallestInterval`, `k` times. -/
def dropSmallest (q : PacketNumberQueue) : ℕ → PacketNumberQueue
  | 0 => q
  | k + 1 => q.removeSmallestInterval.dropSmallest k

theorem max_dropSmallest (h : k < q.numIntervals ∨ k = 0) : (q.dropSmallest k).max = q.max := by
  induction k generalizing q with
  | zero => rfl
  | succ k ih =>
    obtain ⟨g, g', gs, hq⟩ : ∃ g g' gs, q.intervals = g :: g' :: gs := by
      unfold numIntervals at h
      match hq : q.intervals with
      | [] => simp [hq] at h
      | [_] => simp [hq] at h
      | g :: g' :: gs => exact ⟨g, g', gs, rfl⟩
    have htail : q.removeSmallestInterval.intervals = g' :: gs := by
      show q.intervals.tail = g' :: gs
      rw [hq]
      rfl
    rw [dropSmallest, ih]
    · rw [PacketNumberQueue.max, PacketNumberQueue.max, htail, hq, getLast?_cons_cons]
    · left
      rw [numIntervals, hq, length_cons] at h
      rw [numIntervals, htail]
      omega

/-- The ranges that have room in an ACK frame with `blocks` blocks after the first one. -/
def newest (q : PacketNumberQueue) (blocks : ℕ) : PacketNumberQueue :=
  q.dropSmallest (q.numIntervals - (blocks + 1))

@[simp] theorem max_newest {blocks : ℕ} : (q.newest blocks).max = q.max := max_dropSmallest (by omega)

end PacketNumberQueue

theorem AckFrame.largestAcked_eq (ack : AckFrame) : ack.largestAcked = ack.packets.max := by
  unfold AckFrame.largestAcked
  split
  · next he =>
    have hnil : ack.packets.intervals = [] := List.isEmpty_iff.1 he
    simp [PacketNumberQueue.max, hnil]
  · rfl

namespace ReceivedPacketManager

variable {m : ReceivedPacketManager} {n k : ℕ}

theorem largestAcked_eq : m.largestAcked = m.packets.max := AckFrame.largestAcked_eq ⟨m.packets⟩

theorem largestAcked_recordPacketReceived :
    (m.recordPacketReceived n).largestAcked = Nat.max m.largestAcked n := by
  rw [largestAcked_eq, largestAcked_eq]
  exact PacketNumberQueue.max_add

theorem packets_removeSmallest : (m.removeSmallest k).packets = m.packets.dropSmallest k := by
  induction k generalizing m with
  | zero => rfl
  | succ k ih => exact ih

theorem largestAcked_getUpdatedAckFrame : m.getUpdatedAckFrame.largestAcked = m.largestAcked := by
  rw [largestAcked_eq, largestAcked_eq]
  unfold getUpdatedAckFrame
  dsimp only
  split
  · rw [packets_removeSmallest]
    exact PacketNumberQueue.max_dropSmallest (by dsimp only; omega)
  · rfl

theorem largestAcked_dontWaitForPacketsBefore (h : n ≤ m.largestAcked) :
    (m.dontWaitForPacketsBefore n).largestAcked = m.largestAcked := by
  rw [largestAcked_eq] at h ⊢
  rw [largestAcked_eq]
  unfold dontWaitForPacketsBefore
  split
  · exact PacketNumberQueue.max_removeUpTo h
  · rfl

end ReceivedPacketManager

/-! ## What the sent packets acknowledged -/

namespace UnackedPacketMap

variable {m m' m'' : UnackedPacketMap} {p : ℕ} {f : TransmissionInfo → TransmissionInfo}

/-- The `largest_acked` of all packets in the map. -/
def ackedFields (m : UnackedPacketMap) : List ℕ := m.unackedPackets.items.map (·.largestAcked)

/-- No ACK frame was processed, and no packet was sent. -/
structure SameAcks (m m' : UnackedPacketMap) : Prop where
  observed : m'.largestObserved = m.largestObserved
  fields : m'.ackedFields ⊆ m.ackedFields

theorem SameAcks.refl : SameAcks m m := ⟨rfl, Subset.refl _⟩

theorem SameAcks.trans (h : SameAcks m m') (h' : SameAcks m' m'') : SameAcks m m'' :=
  ⟨h'.observed.trans h.observed, Subset.trans h'.fields h.fields⟩

theorem ackedFields_modify (hf : ∀ i, (f i).largestAcked = i.largestAcked) :
    (m.modify p f).ackedFields = m.ackedFields := by
  unfold ackedFields modify Indexed.modify
  split
  · rfl
  · refine ext_getElem? fun k => ?_
    rw [getElem?_map, getElem?_map, getElem?_modify]
    cases m.unackedPackets.items[k]? with
    | none => rfl
    | some i =>
      split
      · exact congrArg some (hf i)
      · rfl

theorem sameAcks_modify (hf : ∀ i, (f i).largestAcked = i.largestAcked) : SameAcks m (m.modify p f) :=
  ⟨rfl, fun _ hn => ackedFields_modify hf ▸ hn⟩

theorem sameAcks_removeFromInFlight : SameAcks m (m.removeFromInFlight p) := by
  unfold removeFromInFlight
  split
  · split
    · exact ⟨rfl, (sameAcks_modify (f := ({ · with inFlight := false })) fun _ => rfl).fields⟩
    · exact .refl
  · exact .refl

theorem sameAcks_deleteFrames {i : TransmissionInfo} : SameAcks m (m.deleteFrames p i) :=
  ⟨rfl, (sameAcks_modify (f := ({ · with retransmittableFrames := [], hasCryptoHandshake := false }))
    fun _ => rfl).fields⟩

theorem sameAcks_removeRetransmittability : SameAcks m (m.removeRetransmittability p) := by
  have hfuel (fuel : ℕ) : SameAcks m (removeRetransmittabilityFor fuel p m) := by
    induction fuel generalizing p m with
    | zero => exact .refl
    | succ fuel ih =>
      rw [removeRetransmittabilityFor]
      split
      · split
        · exact (sameAcks_modify fun _ => by rfl).trans ih
        · exact sameAcks_deleteFrames
      · exact .refl
  exact hfuel _

variable {id old : ℕ} {packet : SerializedPacket} {type : TransmissionType} {inFlight : Bool}

theorem sameAcks_cancelIn : SameAcks m (cancelIn id m p) := by
  unfold cancelIn
  split
  · split
    · exact .refl
    · dsimp only
      split
      · exact (sameAcks_modify fun _ => by rfl).trans sameAcks_removeRetransmittability
      · exact sameAcks_modify fun _ => by rfl
  · exact .refl

theorem sameAcks_cancelRetransmissionsForStream : SameAcks m (m.cancelRetransmissionsForStream id) := by
  unfold cancelRetransmissionsForStream
  generalize m.unackedPackets.numbers = ps
  induction ps generalizing m with
  | nil => exact .refl
  | cons p ps ih => exact sameAcks_cancelIn.trans ih

theorem sameAcks_removeObsoletePackets : SameAcks m m.removeObsoletePackets where
  observed := rfl
  fields := by
    have hpop (u : ℕ → TransmissionInfo → Bool) (base : ℕ) (l : List TransmissionInfo) :
        (Indexed.popWhile u base l).items ⊆ l := by
      induction l generalizing base with
      | nil => exact Subset.refl _
      | cons i l ih =>
        rw [Indexed.popWhile]
        split
        · exact Subset.trans (ih _) (subset_cons_self _ _)
        · exact Subset.refl _
    exact map_subset _ (hpop _ _ _)

theorem observed_addSentPacket :
    (m.addSentPacket packet old type inFlight).largestObserved = m.largestObserved := by
  unfold addSentPacket transferRetransmissionInfo
  dsimp only
  split
  · split
    · rfl
    split
    · rfl
    split
    · rfl
    · unfold handedOver
      split <;> rfl
  · rfl

/-- The packet brings its own field along; the numbers that were skipped have none. -/
theorem ackedFields_addSentPacket {n : ℕ}
    (hn : n ∈ (m.addSentPacket packet old type inFlight).ackedFields) :
    n ∈ m.ackedFields ∨ n = packet.largestAcked ∨ n = 0 := by
  have hskip : ∀ n ∈ (m.skipTo packet.packetNumber).ackedFields, n ∈ m.ackedFields ∨ n = 0 := by
    intro n hn
    obtain ⟨i, hi, rfl⟩ := mem_map.1 hn
    obtain ⟨q, hq⟩ := Indexed.mem_items.1 hi
    rcases Indexed.get?_pad _ hq with hg | rfl
    · exact .inl (mem_map.2 ⟨i, Indexed.mem_items.2 ⟨q, hg⟩, rfl⟩)
    · exact .inr rfl
  have henter : ∀ (m₁ : UnackedPacketMap) (info : TransmissionInfo),
      m₁.ackedFields ⊆ (m.skipTo packet.packetNumber).ackedFields →
      info.largestAcked = packet.largestAcked →
        n ∈ (m₁.enter packet.packetNumber info inFlight).ackedFields →
      n ∈ m.ackedFields ∨ n = packet.largestAcked ∨ n = 0 := by
    intro m₁ info hsub hinfo hn
    have hitems : (m₁.enter packet.packetNumber info inFlight).ackedFields =
        m₁.ackedFields ++ [info.largestAcked] := by
      simp [ackedFields, enter, Indexed.push]
    rw [hitems, mem_append, mem_singleton, hinfo] at hn
    rcases hn with hn | rfl
    · exact (hskip n (hsub hn)).imp_right .inr
    · exact .inr (.inl rfl)
  unfold addSentPacket at hn
  dsimp only at hn
  split at hn
  · unfold transferRetransmissionInfo at hn
    split at hn
    · exact henter _ _ (Subset.refl _) rfl hn
    split at hn
    · exact henter _ _ (Subset.refl _) rfl hn
    split at hn
    · exact henter _ _ (Subset.refl _) rfl hn
    · refine henter _ _ (Subset.trans sameAcks_removeObsoletePackets.fields ?_) rfl hn
      unfold handedOver
      split
      · have hdisown (m : UnackedPacketMap) (frames : List SentFrame) :
            ({ m with unackedPackets := m.unackedPackets.map (disown frames) }
              : UnackedPacketMap).ackedFields = m.ackedFields := by
          unfold ackedFields Indexed.map
          rw [map_map]
          rfl
        rw [hdisown]
        exact (sameAcks_modify fun _ => by rfl).fields
      · exact (sameAcks_modify fun _ => by rfl).fields
  · exact henter _ _ (Subset.refl _) rfl hn

end UnackedPacketMap

namespace SentPacketManager

open UnackedPacketMap

variable {s s' s'' : SentPacketManager} {p : ℕ}

structure SameAcks (s s' : SentPacketManager) : Prop where
  unacked : s.unackedPackets.SameAcks s'.unackedPackets
  known : s'.largestPacketPeerKnowsIsAcked = s.largestPacketPeerKnowsIsAcked

theorem SameAcks.refl : SameAcks s s := ⟨.refl, rfl⟩

theorem SameAcks.trans (h : SameAcks s s') (h' : SameAcks s' s'') : SameAcks s s'' :=
  ⟨h.unacked.trans h'.unacked, h'.known.trans h.known⟩

theorem SameAcks.of_eq (h : s'.unackedPackets = s.unackedPackets)
    (hk : s'.largestPacketPeerKnowsIsAcked = s.largestPacketPeerKnowsIsAcked) : SameAcks s s' :=
  ⟨h ▸ .refl, hk⟩

theorem SameAcks.foldl {f : SentPacketManager → ℕ → SentPacketManager}
    (hf : ∀ s p, SameAcks s (f s p)) (ps : List ℕ) :
    SameAcks s (ps.foldl f s) := by
  induction ps generalizing s with
  | nil => exact .refl
  | cons p ps ih => exact (hf s p).trans ih

theorem sameAcks_setUnacked {m : UnackedPacketMap} (h : s.unackedPackets.SameAcks m) :
    SameAcks s (s.setUnacked m) := ⟨h, rfl⟩

theorem sameAcks_removeFromInFlight : SameAcks s (s.removeFromInFlight p) :=
  sameAcks_setUnacked UnackedPacketMap.sameAcks_removeFromInFlight

variable {type : TransmissionType} {lost : List ℕ} {packet : SerializedPacket}

theorem sameAcks_markForRetransmission : SameAcks s (s.markForRetransmission p type) := by
  unfold markForRetransmission
  dsimp only
  split
  · split
    · exact sameAcks_removeFromInFlight
    · exact sameAcks_removeFromInFlight.trans (.of_eq rfl rfl)
  · split
    · exact .refl
    · exact .of_eq rfl rfl

theorem sameAcks_markPacketHandled : SameAcks s (s.markPacketHandled p) := by
  refine .trans ?_ (sameAcks_setUnacked (sameAcks_modify fun _ => by rfl))
  refine .trans ?_ (sameAcks_setUnacked sameAcks_removeRetransmittability)
  refine .trans ?_ sameAcks_removeFromInFlight
  split
  · refine .trans ?_ sameAcks_removeFromInFlight
    exact .of_eq rfl rfl
  · exact .of_eq rfl rfl

theorem sameAcks_invokeLossDetection : SameAcks s (s.invokeLossDetection lost) := by
  refine .foldl (fun s p => ?_) lost
  unfold loseFor
  split
  · exact sameAcks_markForRetransmission
  · exact sameAcks_removeFromInFlight

theorem sameAcks_removeObsoletePackets : SameAcks s s.removeObsoletePackets :=
  sameAcks_setUnacked UnackedPacketMap.sameAcks_removeObsoletePackets

theorem sameAcks_retransmitUnackedPackets : SameAcks s (s.retransmitUnackedPackets type) := by
  refine .foldl (fun s p => ?_) _
  unfold retransmitUnackedFor
  split
  · split
    · exact sameAcks_markForRetransmission
    · exact .refl
  · exact .refl

theorem sameAcks_neuterUnencryptedPackets : SameAcks s s.neuterUnencryptedPackets := by
  refine .foldl (fun s p => ?_) _
  unfold neuterFor
  split
  · split
    · refine .trans ?_ (sameAcks_setUnacked sameAcks_removeRetransmittability)
      refine .trans ?_ sameAcks_removeFromInFlight
      exact .of_eq rfl rfl
    · exact .refl
  · exact .refl

theorem sameAcks_maybeRetransmitOldestPacket : SameAcks s (s.maybeRetransmitOldestPacket type) := by
  unfold maybeRetransmitOldestPacket
  split
  · exact sameAcks_markForRetransmission
  · exact .refl

theorem sameAcks_maybeRetransmitTailLossProbe : SameAcks s s.maybeRetransmitTailLossProbe := by
  unfold maybeRetransmitTailLossProbe
  split
  · exact .refl
  · exact sameAcks_maybeRetransmitOldestPacket

theorem sameAcks_retransmitRtoPackets : SameAcks s s.retransmitRtoPackets := by
  have hfold : SameAcks s (s.numbers.foldl retransmitRtoFor s) := by
    refine .foldl (fun s p => ?_) _
    unfold retransmitRtoFor
    split
    · next i _ =>
      have hmark : SameAcks s (if i.retransmittableFrames ≠ [] ∧
          s.pendingTimerTransmissionCount < kMaxRetransmissionsOnTimeout
          then { s.markForRetransmission p .rtoRetransmission with
            pendingTimerTransmissionCount := s.pendingTimerTransmissionCount + 1 } else s) := by
        split
        · exact sameAcks_markForRetransmission.trans (.of_eq rfl rfl)
        · exact .refl
      dsimp only
      split
      · exact hmark.trans sameAcks_removeFromInFlight
      · exact hmark
    · exact .refl
  unfold retransmitRtoPackets
  dsimp only
  split
  · exact hfold.trans (.of_eq rfl rfl)
  · exact hfold

theorem sameAcks_onRetransmissionTimeout {lossTimeout : Bool} :
    SameAcks s (s.onRetransmissionTimeout lossTimeout lost) := by
  unfold onRetransmissionTimeout
  split
  · refine .foldl (fun s p => ?_) _
    unfold retransmitCryptoFor
    split
    · split
      · exact sameAcks_markForRetransmission.trans (.of_eq rfl rfl)
      · exact .refl
    · exact .refl
  · exact sameAcks_invokeLossDetection
  · exact .of_eq rfl rfl
  · exact sameAcks_retransmitRtoPackets

theorem sameAcks_cancelRetransmissionsForStream {id : ℕ} :
    SameAcks s (s.cancelRetransmissionsForStream id) :=
  ⟨UnackedPacketMap.sameAcks_cancelRetransmissionsForStream, rfl⟩

/-- No packet that was sent acknowledged more than `bound`. -/
structure Bounded (bound : ℕ) (s : SentPacketManager) : Prop where
  fields : ∀ n ∈ s.unackedPackets.ackedFields, n ≤ bound
  known : s.largestPacketPeerKnowsIsAcked ≤ bound

variable {bound : ℕ}

theorem SameAcks.bounded (h : SameAcks s s') (hb : s.Bounded bound) : s'.Bounded bound :=
  ⟨fun n hn => hb.fields n (h.unacked.fields hn), h.known ▸ hb.known⟩

theorem Bounded.mono {b : ℕ} (h : s.Bounded bound) (hb : bound ≤ b) : s.Bounded b :=
  ⟨fun n hn => (h.fields n hn).trans hb, h.known.trans hb⟩

theorem Bounded.onPacketSent (h : s.Bounded bound) (hp : packet.largestAcked ≤ bound) :
    (s.onPacketSent packet).Bounded bound := by
  unfold SentPacketManager.onPacketSent
  dsimp only
  refine ⟨fun n hn => ?_, ?_⟩
  · have hold : ∀ s₁ : SentPacketManager, s₁.unackedPackets = s.unackedPackets →
        n ∈ (s₁.unackedPackets.addSentPacket packet packet.originalPacketNumber packet.transmissionType
          (decide (packet.transmissionType ≠ .notRetransmission ∨
            packet.retransmittableFrames ≠ []))).ackedFields →
        n ≤ bound := by
      intro s₁ hs₁ hn
      rcases ackedFields_addSentPacket hn with hn | rfl | rfl
      · exact h.fields n (hs₁ ▸ hn)
      · exact hp
      · exact Nat.zero_le _
    split at hn <;> exact hold _ rfl hn
  · split <;> exact h.known

theorem observed_onPacketSent :
    (s.onPacketSent packet).unackedPackets.largestObserved = s.unackedPackets.largestObserved := by
  unfold onPacketSent
  dsimp only
  split <;> exact observed_addSentPacket

/-- One packet of an ACK frame: what the packet acknowledged is known to the peer. -/
theorem Bounded.handleAckFor (h : s.Bounded bound) (ack : AckFrame) (p : ℕ) :
    (s.handleAckFor ack p).Bounded bound ∧
      (s.handleAckFor ack p).unackedPackets.largestObserved = s.unackedPackets.largestObserved := by
  unfold SentPacketManager.handleAckFor
  split
  · next i hi =>
    split
    · exact ⟨h, rfl⟩
    · have hfield : i.largestAcked ≤ bound :=
        h.fields _ (mem_map.2 ⟨i, Indexed.mem_items.2 ⟨p, hi⟩, rfl⟩)
      have hknown : Bounded bound { s with
          largestPacketPeerKnowsIsAcked := max s.largestPacketPeerKnowsIsAcked i.largestAcked } :=
        ⟨h.fields, max_le h.known hfield⟩
      exact ⟨sameAcks_markPacketHandled.bounded hknown, sameAcks_markPacketHandled.unacked.observed⟩
  · exact ⟨h, rfl⟩

theorem Bounded.ackPackets (h : s.Bounded bound) (ack : AckFrame) :
    (s.ackPackets ack).Bounded bound ∧ (s.ackPackets ack).unackedPackets.largestObserved =
      ack.largestAcked := by
  have hfold : ∀ (ps : List ℕ) (s : SentPacketManager), s.Bounded bound →
      (ps.foldl (SentPacketManager.handleAckFor ack) s).Bounded bound ∧
        (ps.foldl (SentPacketManager.handleAckFor ack) s).unackedPackets.largestObserved =
          s.unackedPackets.largestObserved := by
    intro ps
    induction ps with
    | nil => exact fun s h => ⟨h, rfl⟩
    | cons p ps ih =>
      intro s h
      obtain ⟨hb, ho⟩ := h.handleAckFor ack p
      obtain ⟨hb', ho'⟩ := ih _ hb
      exact ⟨hb', ho'.trans ho⟩
  exact hfold _ _ ⟨h.fields, h.known⟩

theorem Bounded.onIncomingAck (h : s.Bounded bound) (ack : AckFrame) (lost : List ℕ) :
    (s.onIncomingAck ack lost).Bounded bound ∧
      (s.onIncomingAck ack lost).unackedPackets.largestObserved = ack.largestAcked := by
  obtain ⟨hb, ho⟩ := h.ackPackets ack
  have hsame : SameAcks (s.ackPackets ack)
      ((s.ackPackets ack).invokeLossDetection lost).removeObsoletePackets :=
    sameAcks_invokeLossDetection.trans sameAcks_removeObsoletePackets
  have hall : SameAcks (s.ackPackets ack) (s.onIncomingAck ack lost) := by
    unfold SentPacketManager.onIncomingAck
    dsimp only
    split
    · exact hsame.trans (.of_eq rfl rfl)
    · exact hsame
  exact ⟨hall.bounded hb, hall.unacked.observed.trans ho⟩

end SentPacketManager

namespace PacketSender

open SentPacketManager

variable {s s' : PacketSender} {bound : ℕ} {outcome : WriteOutcome}

/-- Neither the sent packets nor those that wait for the socket acknowledge more than `bound`. -/
structure Bounded (bound : ℕ) (s : PacketSender) : Prop where
  manager : s.manager.Bounded bound
  queue : ∀ packet ∈ s.queuedPackets, packet.largestAcked ≤ bound

theorem Bounded.mono {b : ℕ} (h : s.Bounded bound) (hb : bound ≤ b) : s.Bounded b :=
  ⟨h.manager.mono hb, fun packet hp => (h.queue packet hp).trans hb⟩

/-- The largest number the peer has acknowledged. -/
def largestObserved (s : PacketSender) : ℕ := s.manager.unackedPackets.largestObserved

theorem Bounded.sendOrQueuePacket {packet : SerializedPacket} (h : s.Bounded bound)
    (hp : packet.largestAcked ≤ bound) :
    (s.sendOrQueuePacket packet outcome).Bounded bound ∧
      (s.sendOrQueuePacket packet outcome).largestObserved = s.largestObserved := by
  unfold largestObserved
  rcases sendOrQueuePacket_cases s packet outcome with ⟨hm, hq⟩ | ⟨hm, hq⟩
  · rw [hm]
    refine ⟨⟨hm ▸ h.manager, fun a ha => ?_⟩, rfl⟩
    rcases hq with hq | hq
    · exact h.queue a (hq ▸ ha)
    · rw [hq, mem_append, mem_singleton] at ha
      rcases ha with ha | rfl
      · exact h.queue a ha
      · exact hp
  · rw [hm]
    exact ⟨⟨hm ▸ h.manager.onPacketSent hp, fun a ha => h.queue a (hq ▸ ha)⟩, observed_onPacketSent⟩

theorem Bounded.send {packet : NewPacket} (h : s.Bounded bound) (hp : packet.largestAcked ≤ bound)
    (outcome : WriteOutcome) :
    (s.send packet outcome).Bounded bound ∧ (s.send packet outcome).largestObserved = s.largestObserved :=
  Bounded.sendOrQueuePacket ⟨h.manager, h.queue⟩ hp

theorem Bounded.resend (h : s.Bounded bound) (p : ℕ) (type : TransmissionType)
    (i : TransmissionInfo) (length : ℕ)
    (outcome : WriteOutcome) :
    (s.resend p type i length outcome).Bounded bound ∧
      (s.resend p type i length outcome).largestObserved = s.largestObserved :=
  Bounded.sendOrQueuePacket ⟨h.manager, h.queue⟩ (Nat.zero_le _)

theorem Bounded.writeQueued (h : s.Bounded bound) (hw : s.writeQueued outcome = some s') :
    s'.Bounded bound ∧ s'.largestObserved = s.largestObserved := by
  obtain ⟨packet, rest, hq, hs⟩ := writeQueued_cases hw
  have hrest : ∀ a ∈ rest, a.largestAcked ≤ bound := fun a ha => h.queue a (hq ▸ .tail _ ha)
  obtain ⟨c, rfl | rfl⟩ | ⟨rfl, -⟩ := hs
  · exact ⟨⟨h.manager, h.queue⟩, rfl⟩
  · exact ⟨⟨h.manager, hrest⟩, rfl⟩
  · exact ⟨⟨h.manager.onPacketSent (h.queue packet (hq ▸ .head _)), hrest⟩, observed_onPacketSent⟩

/-- An event of one's own neither serializes a packet nor brings an ACK frame. -/
def isLocal : SenderEvent → Bool
  | .send .. => false
  | .writePendingRetransmission .. => false
  | .ack .. => false
  | _ => true

theorem Bounded.step {e : SenderEvent} (he : isLocal e = true) (h : s.Bounded bound)
    (hs : s.step e = some s') :
    s'.Bounded bound ∧ s'.largestObserved = s.largestObserved ∧ s'.packetNumber = s.packetNumber := by
  have hsame : ∀ m, SameAcks s.manager m → (s.setManager m).Bounded bound ∧
      (s.setManager m).largestObserved = s.largestObserved ∧
        (s.setManager m).packetNumber = s.packetNumber :=
    fun m hm => ⟨⟨hm.bounded h.manager, h.queue⟩, hm.unacked.observed, rfl⟩
  unfold PacketSender.step at hs
  split at hs
  swap
  · cases hs
  cases e with
  | send packet outcome => cases he
  | writePendingRetransmission flushed length outcome => cases he
  | ack frame lost => cases he
  | writeQueued outcome =>
    obtain ⟨hb, ho⟩ := h.writeQueued hs
    exact ⟨hb, ho, packetNumber_writeQueued hs⟩
  | retransmissionTimeout lossTimeout lost =>
    obtain ⟨-, hs⟩ := Option.ite_none_right_eq_some.1 hs
    cases hs
    exact hsame _ sameAcks_onRetransmissionTimeout
  | tailLossProbe =>
    cases hs
    exact hsame _ sameAcks_maybeRetransmitTailLossProbe
  | probe =>
    cases hs
    exact hsame _ sameAcks_maybeRetransmitOldestPacket
  | retransmitUnackedPackets type =>
    obtain ⟨-, hs⟩ := Option.ite_none_right_eq_some.1 hs
    cases hs
    exact hsame _ sameAcks_retransmitUnackedPackets
  | neuterUnencryptedPackets =>
    cases hs
    exact hsame _ sameAcks_neuterUnencryptedPackets
  | setEncryptionLevel level =>
    obtain ⟨-, hs⟩ := Option.ite_none_right_eq_some.1 hs
    cases hs
    exact ⟨⟨h.manager, h.queue⟩, rfl, rfl⟩
  | forwardSecure =>
    cases hs
    exact ⟨⟨sameAcks_neuterUnencryptedPackets.bounded h.manager, h.queue⟩,
      sameAcks_neuterUnencryptedPackets.unacked.observed, rfl⟩
  | setHandshakeConfirmed =>
    cases hs
    exact hsame _ (.of_eq rfl rfl)
  | cancelStream id =>
    cases hs
    refine ⟨⟨sameAcks_cancelRetransmissionsForStream.bounded h.manager, fun packet hp => ?_⟩,
      sameAcks_cancelRetransmissionsForStream.unacked.observed, rfl⟩
    obtain ⟨a, ha, hc⟩ := mem_filterMap.1 hp
    obtain ⟨frames, rfl, -⟩ := cancelPacket_cases hc
    exact h.queue a ha
  | setMaxPacketLength length =>
    cases hs
    exact ⟨⟨h.manager, h.queue⟩, rfl, rfl⟩
  | migrated =>
    cases hs
    exact hsame _ (.of_eq rfl rfl)

end PacketSender

end Puic
