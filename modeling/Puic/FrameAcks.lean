/-
  What an ACK does for the frames of a packet.

  An ACK of a packet whose entry is still in the unacked map settles all the frames that
  the packet was sent with and that are still waiting, wherever in its chain they are
  (`frames_acked_once`).

  The map forgets a packet once nothing depends on it: an entry that was retransmitted
  is dropped when a packet after its retransmission has been acked ("allow for an extra
  1 RTT before stopping to track old packets").  `late_ack_ignored` is a run in which an
  ACK comes for such a packet; the frame is not reported and is sent once more.
-/
import Puic.SentAccounting

namespace Puic

open Machine Multiset List

namespace SentPacketManager

open UnackedPacketMap

variable {s s' : SentPacketManager} {p q : ℕ} {i : TransmissionInfo} {f : SentFrame} {ack : AckFrame}

/-- The frame has been acked, or an ACK of `p` would find it. -/
def Reachable (s : SentPacketManager) (p : ℕ) (f : SentFrame) : Prop :=
  f ∈ s.acked ∨ ∃ i q, s.info? p = some i ∧ f ∈ i.carried ∧ f ∈ s.frames q

theorem acked_markPacketHandled : (s.markPacketHandled p).acked =
    (s.frames (s.unackedPackets.newestRetransmission p)).reverse ++ s.acked := by
  unfold markPacketHandled
  dsimp only
  split <;> rfl

/-- Handling a packet keeps the frames of the others within reach. -/
theorem Reachable.markPacketHandled (h : Reachable s p f) (ha : Accounts s.unackedPackets)
    (hi : s.info? q = some i) :
    Reachable (s.markPacketHandled q) p f := by
  have hd := done_markPacketHandled ha hi
  have hacked := acked_markPacketHandled (s := s) (p := q)
  rcases h with h | ⟨j, x, hj, hc, hx⟩
  · exact .inl (hacked ▸ mem_append_right _ h)
  · by_cases hxt : x = s.unackedPackets.newestRetransmission q
    · rw [hxt] at hx
      exact .inl (hacked ▸ mem_append_left _ (mem_reverse.2 hx))
    · obtain ⟨j', hj'⟩ : ∃ j', (s.markPacketHandled q).info? p = some j' := by
        have hk := hd.settled.kept p
        rw [show s.unackedPackets.info? p = some j from hj] at hk
        obtain ⟨j', hj', -⟩ := Option.map_eq_some_iff.1 hk
        exact ⟨j', hj'⟩
      obtain ⟨k, hk, hcar, -⟩ := hd.settled.info_some hj'
      obtain rfl : k = j := Option.some.inj (hk.symm.trans hj)
      refine .inr ⟨j', x, hj', hcar ▸ hc, ?_⟩
      rw [show (s.markPacketHandled q).frames x = _ from hd.settled.frames x, if_neg hxt]
      exact hx

theorem Reachable.handleAckFor (h : Reachable s p f) (ha : Accounts s.unackedPackets) :
    Reachable (s.handleAckFor ack q) p f := by
  unfold SentPacketManager.handleAckFor
  split
  · next i hi =>
    split
    · exact h
    · exact Reachable.markPacketHandled h ha hi
  · exact h

theorem Reachable.acked (h : Reachable s p f) (hs : Custody s) (ha : Accounts s.unackedPackets)
    (hp : p ∈ ack.packets) :
    f ∈ (s.handleAckFor ack p).acked := by
  rcases h with h | ⟨i, q, hi, hc, hq⟩
  · unfold SentPacketManager.handleAckFor
    split
    · split
      · exact h
      · rw [acked_markPacketHandled]
        exact mem_append_right _ h
    · exact h
  · obtain ⟨hlead, hun⟩ := hs.chain p i f q hi hc hq
    unfold SentPacketManager.handleAckFor
    rw [hi]
    dsimp only
    rw [if_neg (by simp [hun, hp]), acked_markPacketHandled]
    refine mem_append_left _ (mem_reverse.2 ?_)
    rwa [(ha.leads_newest hi).unique hlead]

theorem mem_acked_handleAckFor (h : f ∈ s.acked) : f ∈ (s.handleAckFor ack p).acked := by
  unfold SentPacketManager.handleAckFor
  split
  · split
    · exact h
    · rw [acked_markPacketHandled]
      exact mem_append_right _ h
  · exact h

theorem acked_foldl (ps : List ℕ) (hp : p ∈ ps) (hin : p ∈ ack.packets) (h : Reachable s p f)
    (hs : Custody s)
    (ha : Accounts s.unackedPackets) : f ∈ (ps.foldl (SentPacketManager.handleAckFor ack) s).acked := by
  have hkeep : ∀ (ps : List ℕ) (s : SentPacketManager), f ∈ s.acked →
      f ∈ (ps.foldl (SentPacketManager.handleAckFor ack) s).acked := by
    intro ps
    induction ps with
    | nil => exact fun _ h => h
    | cons q ps ih => exact fun s h => ih _ (mem_acked_handleAckFor h)
  induction ps generalizing s with
  | nil => cases hp
  | cons q ps ih =>
    by_cases hpq : p = q
    · subst hpq
      exact hkeep ps _ (h.acked hs ha hin)
    · have hnext := (moves_handleAckFor (p := q) ack).inv (fun _ _ ha hm hc => hm.custody ha hc) ha hs
      exact ih ((mem_cons.1 hp).resolve_left hpq) (h.handleAckFor ha) hnext.2 hnext.1

theorem mem_takeWhile_le {l : List ℕ} (hl : l.Pairwise (· < ·)) {b : ℕ} (hp : p ∈ l) (hb : p ≤ b) :
    p ∈ l.takeWhile (· ≤ b) := by
  induction l with
  | nil => cases hp
  | cons a l ih =>
    obtain ⟨ha, hl⟩ := pairwise_cons.1 hl
    rcases mem_cons.1 hp with rfl | hp
    · rw [takeWhile_cons_of_pos (by simpa using hb)]
      exact .head _
    · have hle : a ≤ b := (ha p hp).le.trans hb
      rw [takeWhile_cons_of_pos (by simpa using hle)]
      exact .tail _ (ih hl hp)

theorem le_largestAcked (hp : p ∈ ack.packets) : p ≤ ack.largestAcked := by
  unfold AckFrame.largestAcked
  rw [if_neg (by simp [PacketNumberQueue.isEmpty_false hp])]
  exact PacketNumberQueue.le_max hp

theorem Move.acked (hm : Move s s') (h : f ∈ s.acked) : f ∈ s'.acked := by
  cases hm with
  | handle =>
    rw [acked_markPacketHandled]
    exact mem_append_right _ h
  | neuter =>
    unfold neuterFor
    split
    · split <;> exact h
    · exact h
  | _ => exact h

theorem Moves.acked (hm : Moves s s') (h : f ∈ s.acked) : f ∈ s'.acked := by
  induction hm with
  | refl => exact h
  | tail _ hm ih => exact hm.acked ih

theorem acked_onIncomingAck (h : Reachable s p f) (hs : Custody s) (ha : Accounts s.unackedPackets)
    (hi : s.info? p = some i) (hp : p ∈ ack.packets) (lost : List ℕ) :
    f ∈ (s.onIncomingAck ack lost).acked := by
  have hfold : f ∈ (s.ackPackets ack).acked := by
    refine acked_foldl _ (mem_takeWhile_le ?_ ?_ (le_largestAcked hp)) hp h
      ⟨hs.conserved, hs.nodup, hs.reported, hs.carried, hs.chain⟩
      ⟨⟨ha.bytes, ha.crypto, ha.entry, ha.least⟩, ha.top⟩
    · exact pairwise_lt_range'
    · exact Indexed.mem_numbers.2 (Indexed.lt_top hi)
  have hrest : f ∈ ((s.ackPackets ack).invokeLossDetection lost).removeObsoletePackets.acked :=
    Moves.acked ((moves_invokeLossDetection lost).tail .obsolete) hfold
  unfold onIncomingAck
  dsimp only
  split
  · exact hrest
  · exact hrest

theorem Custody.holder (h : Custody s) (hf : f ∈ s.sent) (hg : f ∉ s.gone) : ∃! p, f ∈ s.frames p := by
  have hmem : f ∈ s.unackedPackets.held + s.gone := h.conserved ▸ mem_coe.2 hf
  obtain ⟨p, hp⟩ := mem_held.1 ((mem_add.1 hmem).resolve_right hg)
  exact ⟨p, hp, fun q hq => holder_unique h.held_nodup hq hp⟩

theorem Custody.frames_nodup (h : Custody s) (hi : s.info? p = some i) :
    i.retransmittableFrames.Nodup := by
  have hn := h.held_nodup
  rw [held_eq, coe_nodup, nodup_flatMap] at hn
  exact hn.1 i (Indexed.mem_items.2 ⟨p, hi⟩)

theorem Custody.gone_nodup (h : Custody s) : (s.acked ++ s.cancelled ++ s.neutered).Nodup := by
  have hn : s.gone.Nodup := by
    refine nodup_of_le (le_add_left _ _) ?_ (t := s.unackedPackets.held + s.gone)
    rw [h.conserved]
    exact coe_nodup.2 h.nodup
  have he : s.gone = ↑(s.acked ++ s.cancelled ++ s.neutered) := by
    rfl
  exact coe_nodup.1 (he ▸ hn)

end SentPacketManager

namespace PacketSender

open SentPacketManager UnackedPacketMap

variable {s s' : PacketSender}

theorem acked_run {es : List SenderEvent} {f : SentFrame} (hr : run step s es = some s')
    (hf : f ∈ s.manager.acked) :
    f ∈ s'.manager.acked := by
  refine run_inv (I := fun s => f ∈ s.manager.acked) (fun s e s' hf hs => ?_) hf hr
  refine (works_step hs).inv (fun _ _ hm h => hm.acked h) (fun m packet h => ?_) hf
  rwa [show (m.onPacketSent packet).acked = m.acked from logs_onPacketSent.2.2]

/-- In every run of the sender, a frame that was sent and has not been acked, cancelled or neutered
    is held by one packet, once; no frame is gone twice, and the ACKs that were reported are those
    of the STREAM frames.  An ACK of a packet that is in the map settles every waiting frame the
    packet was sent with, for good, and `NextPendingRetransmission` never returns a frame that is
    gone. -/
theorem frames_acked_once {maxTailLossProbes longTermMtu : ℕ} {es : List SenderEvent}
    (hr : run step (new maxTailLossProbes longTermMtu) es = some s) :
    (∀ f ∈ s.manager.sent, f ∉ s.manager.acked ++ s.manager.cancelled ++ s.manager.neutered →
      ∃! p, ∃ i, s.manager.info? p = some i ∧ i.retransmittableFrames.count f = 1) ∧
    (s.manager.acked ++ s.manager.cancelled ++ s.manager.neutered).Nodup ∧
    s.manager.reported = s.manager.acked.filter (·.stream ≠ none) ∧
    (∀ frame lost s' p i f, s.step (.ack frame lost) = some s' → s'.connected = true → p ∈ frame.packets →
      s.manager.info? p = some i → f ∈ i.carried →
      f ∉ s.manager.acked ++ s.manager.cancelled ++ s.manager.neutered →
      ∀ es' s'', run step s' es' = some s'' → f ∈ s''.manager.acked) ∧
    ∀ p type i, s.manager.nextPendingRetransmission = some (p, type, i) → ∀ f ∈ i.retransmittableFrames,
      f ∉ s.manager.acked ++ s.manager.cancelled ++ s.manager.neutered := by
  have h := ordered_run hr
  have hgone : ∀ f, f ∈ s.manager.gone ↔
      f ∈ s.manager.acked ++ s.manager.cancelled ++ s.manager.neutered := by
    intro f
    simp [gone]
  refine ⟨fun f hf hg => ?_, h.custody.gone_nodup, h.custody.reported, ?_, fun p type i hn f hf => ?_⟩
  · obtain ⟨p, hp, huniq⟩ := h.custody.holder hf ((hgone f).not.2 hg)
    have hcount : ∀ q, (∃ i, s.manager.info? q = some i ∧ i.retransmittableFrames.count f = 1) ↔
        f ∈ s.manager.frames q := by
      intro q
      constructor
      · rintro ⟨i, hi, hc⟩
        rw [SentPacketManager.frames_of_info hi]
        exact count_pos_iff.1 (hc ▸ Nat.zero_lt_one)
      · intro hq
        cases hi : s.manager.info? q with
        | none =>
          rw [show s.manager.frames q = [] from UnackedPacketMap.frames_of_none hi] at hq
          cases hq
        | some i =>
          exact ⟨i, rfl, count_eq_one_of_mem (h.custody.frames_nodup hi)
            (SentPacketManager.frames_of_info hi ▸ hq)⟩
    exact ⟨p, (hcount p).2 hp, fun q hq => huniq q ((hcount q).1 hq)⟩
  · intro frame lost s' p i f hs hc hp hi hf hg es' s'' hr'
    refine acked_run hr' ?_
    obtain ⟨q, hq, -⟩ := h.custody.holder (h.custody.carried p i hi f hf) ((hgone f).not.2 hg)
    unfold step at hs
    split at hs
    swap
    · cases hs
    dsimp only at hs
    split at hs
    · rw [← Option.some.inj hs] at hc
      cases hc
    · split at hs
      · cases hs
        exact acked_onIncomingAck (.inr ⟨i, q, hi, hf, hq⟩) h.custody h.accounts hi hp lost
      · cases hs
  · obtain ⟨-, hi⟩ := pending_of_next hn
    exact (hgone f).not.1 (h.custody.disjoint (SentPacketManager.frames_of_info hi ▸ hf))

/-- Packet 1 is lost and sent again as packet 5, and packet 6 is acked. -/
def forgotten : List SenderEvent :=
  List.replicate 4 (.send ⟨[some 5], .initial, 100, 0⟩ .sent) ++
    [.ack ⟨((PacketNumberQueue.empty.add 2).add 3).add 4⟩ [1], .writePendingRetransmission [] 100 .sent,
      .send ⟨[some 5], .initial, 100, 0⟩ .sent,
      .ack ⟨(((PacketNumberQueue.empty.add 2).add 3).add 4).add 6⟩ []]

/-- The ACK of the lost packet settles the frame although packet 5 holds it. -/
theorem frames_acked_once_original : ∃ s s', run step (new 2 1000) (forgotten.take 6) = some s ∧
    s.step (.ack ⟨(((PacketNumberQueue.empty.add 1).add 2).add 3).add 4⟩ []) = some s' ∧
    (⟨0, some 5⟩ : SentFrame) ∈ s'.manager.acked := by
  obtain ⟨s, hs, hv⟩ :=
    Option.map_eq_some_iff.1 (by decide +kernel : (run step (new 2 1000) (forgotten.take 6)).map
    (fun s => (s.manager.info? 1).any (fun i => decide ((⟨0, some 5⟩ : SentFrame) ∈ i.carried)) &&
      decide ((⟨0, some 5⟩ : SentFrame) ∉ s.manager.acked ++ s.manager.cancelled ++ s.manager.neutered) &&
      ((s.step (.ack ⟨(((PacketNumberQueue.empty.add 1).add 2).add 3).add 4⟩ [])).any
        (·.connected))) = some true)
  simp only [Bool.and_eq_true, Option.any_eq_true, decide_eq_true_eq] at hv
  obtain ⟨⟨⟨i, hi, hc⟩, hg⟩, s', hs', hconn⟩ := hv
  exact ⟨s, s', hs, hs',
    (frames_acked_once hs).2.2.2.1 _ _ _ 1 i _ hs' hconn (by decide +kernel) hi hc hg [] s' rfl⟩

/-- Packet 1 carried the first frame.  An ACK of packet 1 that comes when the map has forgotten the
    packet is valid, but the frame is not reported, and once packet 5 is lost too,
    `NextPendingRetransmission` returns it again. -/
theorem late_ack_ignored :
    (∃ s i, run step (new 2 1000) (forgotten.take 1) = some s ∧ s.manager.info? 1 = some i ∧
      i.retransmittableFrames = [⟨0, some 5⟩]) ∧
    ∃ s p type i, run step (new 2 1000) (forgotten ++
        [.ack ⟨((((PacketNumberQueue.empty.add 1).add 2).add 3).add 4).add 6⟩ [5]]) = some s ∧
      s.connected = true ∧ (⟨0, some 5⟩ : SentFrame) ∉ s.manager.reported ∧
      s.manager.nextPendingRetransmission = some (p, type, i) ∧
        (⟨0, some 5⟩ : SentFrame) ∈ i.retransmittableFrames := by
  constructor
  · obtain ⟨s, hs, hv⟩ :=
      Option.map_eq_some_iff.1 (by decide +kernel : (run step (new 2 1000) (forgotten.take 1)).map
      (fun s => (s.manager.info? 1).map (·.retransmittableFrames)) = some (some [⟨0, some 5⟩]))
    obtain ⟨i, hi, hf⟩ := Option.map_eq_some_iff.1 hv
    exact ⟨s, i, hs, hi, hf⟩
  · obtain ⟨s, hs, hv⟩ :=
      Option.map_eq_some_iff.1 (by decide +kernel : (run step (new 2 1000) (forgotten ++
        [.ack ⟨((((PacketNumberQueue.empty.add 1).add 2).add 3).add 4).add 6⟩ [5]])).map
      (fun s => s.connected && decide ((⟨0, some 5⟩ : SentFrame) ∉ s.manager.reported) &&
        s.manager.nextPendingRetransmission.any fun e =>
          decide ((⟨0, some 5⟩ : SentFrame) ∈ e.2.2.retransmittableFrames)) = some true)
    simp only [Bool.and_eq_true, Option.any_eq_true, decide_eq_true_eq] at hv
    obtain ⟨⟨hc, hrep⟩, ⟨p, type, i⟩, hn, hf⟩ := hv
    exact ⟨s, p, type, i, hs, hc, hrep, hn, hf⟩

end PacketSender

end Puic
