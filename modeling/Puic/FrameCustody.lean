/-
  Who is responsible for a frame.

  Every frame that was sent is held by one packet of the unacked map, or it has been
  acked, cancelled or neutered (`Custody.conserved`).  A packet that was sent with the
  frame leads to the packet that holds it (`Custody.chain`), so an ACK of any packet of
  the chain finds the frame.
-/
import Puic.SentMoves

namespace Puic

open Machine Indexed Multiset

namespace SentPacketManager

open UnackedPacketMap

variable {s s' : SentPacketManager} {p q n : ℕ} {i : TransmissionInfo} {f : SentFrame}
    {packet : SerializedPacket}

structure Custody (s : SentPacketManager) : Prop where
  conserved : s.unackedPackets.held + s.gone = (s.sent : Multiset SentFrame)
  nodup : s.sent.Nodup
  reported : s.reported = s.acked.filter (·.stream ≠ none)
  carried : ∀ p i, s.info? p = some i → ∀ f ∈ i.carried, f ∈ s.sent
  chain : ∀ p i f q, s.info? p = some i → f ∈ i.carried → f ∈ s.frames q →
    Links.Leads s.unackedPackets.next p q ∧ i.isUnackable = false

theorem custody_new (maxTailLossProbes : ℕ) : Custody (new maxTailLossProbes) where
  conserved := rfl
  nodup := List.nodup_nil
  reported := rfl
  carried p i hi := by simp [info?, new, UnackedPacketMap.new, UnackedPacketMap.info?, get?] at hi
  chain p i f q hi := by simp [info?, new, UnackedPacketMap.new, UnackedPacketMap.info?, get?] at hi

/-! ## Frames that are held -/

theorem held_eq (m : UnackedPacketMap) :
    m.held = ↑(m.unackedPackets.items.flatMap (·.retransmittableFrames)) := by
  unfold UnackedPacketMap.held total
  generalize m.unackedPackets.items = l
  induction l with
  | nil => rfl
  | cons i l ih => rw [List.map_cons, List.sum_cons, ih, List.flatMap_cons, coe_add]

theorem mem_held : f ∈ s.unackedPackets.held ↔ ∃ p, f ∈ s.frames p := by
  rw [held_eq, mem_coe, List.mem_flatMap]
  constructor
  · rintro ⟨i, hi, hf⟩
    obtain ⟨p, hp⟩ := mem_items.1 hi
    exact ⟨p, frames_of_info hp ▸ hf⟩
  · rintro ⟨p, hf⟩
    cases hi : s.info? p with
    | none => rw [show s.frames p = [] from UnackedPacketMap.frames_of_none hi] at hf; cases hf
    | some i => exact ⟨i, mem_items.2 ⟨p, hi⟩, frames_of_info hi ▸ hf⟩

theorem holder_unique (hn : s.unackedPackets.held.Nodup) (hp : f ∈ s.frames p)
    (hq : f ∈ s.frames q) : p = q := by
  rw [held_eq, coe_nodup, List.nodup_flatMap] at hn
  have hidx : ∀ p, f ∈ s.frames p → ∃ i, s.unackedPackets.leastUnacked ≤ p ∧
      s.unackedPackets.unackedPackets.items[p - s.unackedPackets.leastUnacked]? = some i ∧
      f ∈ i.retransmittableFrames := by
    intro p hp
    cases hi : s.info? p with
    | none => rw [show s.frames p = [] from UnackedPacketMap.frames_of_none hi] at hp; cases hp
    | some i =>
      obtain ⟨hle, hget⟩ := get?_eq_some.1 hi
      exact ⟨i, hle, hget, frames_of_info hi ▸ hp⟩
  obtain ⟨i, hple, hi, hfi⟩ := hidx p hp
  obtain ⟨j, hqle, hj, hfj⟩ := hidx q hq
  obtain ⟨hil, rfl⟩ := List.getElem?_eq_some_iff.1 hi
  obtain ⟨hjl, rfl⟩ := List.getElem?_eq_some_iff.1 hj
  have hdis := List.pairwise_iff_getElem.1 hn.2
  by_contra hne
  rcases Nat.lt_or_gt_of_ne hne with hlt | hlt
  · exact hdis _ _ hil hjl (by omega) hfi hfj
  · exact hdis _ _ hjl hil (by omega) hfj hfi

theorem Custody.held_nodup (h : Custody s) : s.unackedPackets.held.Nodup := by
  refine nodup_of_le ?_ (coe_nodup.2 h.nodup)
  rw [← h.conserved]
  exact le_add_right _ _

theorem Custody.disjoint (h : Custody s) (hf : f ∈ s.frames p) : f ∉ s.gone := by
  have hn : (s.unackedPackets.held + s.gone).Nodup := h.conserved ▸ coe_nodup.2 h.nodup
  exact (disjoint_left.1 (nodup_add.1 hn).2.2) (mem_held.2 ⟨p, hf⟩)

/-! ## The moves -/

theorem Custody.of_alike (h : Custody s) (hl : Alike s.unackedPackets s'.unackedPackets)
    (hg : s'.gone = s.gone)
    (hs : s'.sent = s.sent) (hr : s'.reported = s.reported) (hk : s'.acked = s.acked) : Custody s' where
  conserved := by rw [hl.held, hg, hs]; exact h.conserved
  nodup := hs ▸ h.nodup
  reported := by rw [hr, hk]; exact h.reported
  carried p i hi f hf := by
    obtain ⟨j, hj, he⟩ := hl.info_some hi
    rw [he] at hf
    exact hs ▸ h.carried p j hj f hf
  chain p i f q hi hf hq := by
    obtain ⟨j, hj, he⟩ := hl.info_some hi
    rw [he] at hf
    rw [show s'.frames q = s.frames q from hl.frames] at hq
    rw [hl.next, he]
    exact h.chain p j f q hj hf hq

theorem Done.custody {t : ℕ} (hd : Done s s' p t) (h : Custody s)
    (hr : s'.reported = s'.acked.filter (·.stream ≠ none)) :
    Custody s' where
  conserved := by
    rw [hd.gone, hd.sent, ← h.conserved, ← hd.settled.held]
    abel
  nodup := hd.sent ▸ h.nodup
  reported := hr
  carried q i' hi' f hf := by
    obtain ⟨i, hi, hcar, -⟩ := hd.settled.info_some hi'
    rw [hd.sent]
    exact h.carried q i hi f (hcar ▸ hf)
  chain q i' f x hi' hf hx := by
    obtain ⟨i, hi, hcar, -⟩ := hd.settled.info_some hi'
    rw [show s'.frames x = _ from hd.settled.frames x] at hx
    split at hx
    · cases hx
    next hxt =>
    obtain ⟨hlead, hun⟩ := h.chain q i f x hi (hcar ▸ hf) hx
    refine ⟨hd.settled.cut.leads hlead hxt, ?_⟩
    -- the packet that is done with leads to `t` only
    have hqp : q ≠ p := by
      rintro rfl
      exact hxt (hlead.unique hd.leads)
    have hun' := hd.settled.ackable q hqp
    rw [show s'.unackedPackets.info? q = some i' from hi',
      show s.unackedPackets.info? q = some i from hi] at hun'
    exact (Option.some.inj hun').trans hun

theorem gone_cancel (id : ℕ) :
    (s.cancelRetransmissionsForStream id).gone = s.gone + (s.framesOf id : Multiset SentFrame) := by
  show (s.acked : Multiset SentFrame) + ↑(s.framesOf id ++ s.cancelled) + s.neutered = _
  unfold gone
  rw [← coe_add]
  abel

theorem framesOf_eq (id : ℕ) : (s.framesOf id : Multiset SentFrame) = total
    (fun i => (i.retransmittableFrames.filter (·.stream = some id) : Multiset SentFrame))
      s.unackedPackets.unackedPackets := by
  unfold framesOf total
  generalize s.unackedPackets.unackedPackets.items = l
  induction l with
  | nil => rfl
  | cons i l ih => rw [List.map_cons, List.sum_cons, ← ih, List.flatMap_cons, coe_add]

theorem Custody.cancel (h : Custody s) (ha : Accounts s.unackedPackets) (id : ℕ) :
    Custody (s.cancelRetransmissionsForStream id) where
  conserved := by
    rw [gone_cancel, framesOf_eq]
    show (s.unackedPackets.cancelRetransmissionsForStream id).held + _ = (s.sent : Multiset SentFrame)
    rw [← h.conserved, ← ha.held_cancel id]
    abel
  nodup := h.nodup
  reported := h.reported
  carried p i' hi' f hf := by
    rw [show (s.cancelRetransmissionsForStream id).info? p = _ from ha.info?_cancel p] at hi'
    obtain ⟨i, hi, rfl⟩ := Option.map_eq_some_iff.1 hi'
    exact h.carried p i hi f (cancelEntry_kept.2.1 ▸ hf)
  chain p i' f q hi' hf hq := by
    rw [show (s.cancelRetransmissionsForStream id).info? p = _ from ha.info?_cancel p] at hi'
    obtain ⟨i, hi, rfl⟩ := Option.map_eq_some_iff.1 hi'
    rw [show (s.cancelRetransmissionsForStream id).frames q = _ from ha.frames_cancel q] at hq
    rw [show (s.cancelRetransmissionsForStream id).unackedPackets.next = _ from ha.next_cancel,
      cancelEntry_kept.2.2.1]
    exact h.chain p i f q hi (cancelEntry_kept.2.1 ▸ hf) (List.mem_of_mem_filter hq)

theorem Custody.obsolete (h : Custody s) (ha : Accounts s.unackedPackets) :
    Custody s.removeObsoletePackets where
  conserved := by
    show s.unackedPackets.removeObsoletePackets.held + s.gone = _
    rw [held_removeObsoletePackets]
    exact h.conserved
  nodup := h.nodup
  reported := h.reported
  carried p i hi := h.carried p i (info?_of_removeObsoletePackets hi)
  chain p i f q hi hf hq := by
    rw [show s.removeObsoletePackets.frames q = _ from frames_removeObsoletePackets] at hq
    obtain ⟨hlead, hun⟩ := h.chain p i f q (info?_of_removeObsoletePackets hi) hf hq
    refine ⟨hlead.congr ha.rising fun x hx => ?_, hun⟩
    -- what comes after an entry that has stayed has stayed
    unfold UnackedPacketMap.next
    rw [show s.removeObsoletePackets.unackedPackets.info? x = s.unackedPackets.info? x from
      get?_popWhile _ _ ((lt_top hi).1.trans hx)]

theorem Move.custody (hm : Move s s') (ha : Accounts s.unackedPackets) (h : Custody s) : Custody s' := by
  cases hm with
  | timers => exact h.of_alike .refl rfl rfl rfl rfl
  | observe => exact ⟨h.conserved, h.nodup, h.reported, h.carried, h.chain⟩
  | land => exact h.of_alike alike_removeFromInFlight rfl rfl rfl rfl
  | mark => exact h.of_alike .refl rfl rfl rfl rfl
  | @handle p i hi _ =>
    refine (done_markPacketHandled ha hi).custody h ?_
    have hlog : (s.markPacketHandled p).acked =
          (s.frames (s.unackedPackets.newestRetransmission p)).reverse ++ s.acked ∧
        (s.markPacketHandled p).reported =
          (s.frames (s.unackedPackets.newestRetransmission p)).reverse.filter
            (·.stream ≠ none) ++ s.reported := by
      unfold markPacketHandled
      dsimp only
      split <;> exact ⟨rfl, rfl⟩
    rw [hlog.1, hlog.2, List.filter_append, h.reported]
  | @neuter p hf =>
    rcases done_neuterFor ha hf with ⟨he, -⟩ | hd
    · rwa [he]
    · refine hd.custody h ?_
      have hlog : (s.neuterFor p).acked = s.acked ∧ (s.neuterFor p).reported = s.reported := by
        unfold neuterFor
        split
        · split <;> exact ⟨rfl, rfl⟩
        · exact ⟨rfl, rfl⟩
      rw [hlog.1, hlog.2, h.reported]
  | cancel id => exact h.cancel ha id
  | obsolete => exact h.obsolete ha

/-! ## Sending -/

/-- In a retransmission the links from an entry that stays have stayed, but for the one of the old
    packet. -/
theorem next_onPacketSent (ha : Accounts s.unackedPackets) (hr : Ready s n packet)
    (hi : (s.onPacketSent packet).info? p = some i) (hx : p ≤ q) (hne : s.unackedPackets.next q ≠ 0) :
    (s.onPacketSent packet).unackedPackets.next q = s.unackedPackets.next q := by
  have hadd := added_onPacketSent ha hr.toSendable
  have ha' := accounts_onPacketSent ha hr.toSendable
  have hq : q ≤ s.unackedPackets.largestSentPacket := by
    have hrise := ha.rising q hne
    omega
  have hlater := hr.later
  obtain ⟨j, hj⟩ : ∃ j, (s.onPacketSent packet).unackedPackets.info? q = some j := by
    refine exists_get? ((lt_top hi).1.trans hx) ?_
    rw [ha'.top, hadd.sent]
    omega
  rw [next_of_info hj]
  rcases hadd.old q j (by omega) hj with ⟨hnone, -⟩ | ⟨k, hk, -, -, hret, -⟩
  · exact absurd (next_of_none hnone) hne
  · rw [hret, if_neg]
    · exact (next_of_info hk).symm
    · rintro ⟨rfl, -⟩
      exact hne hr.tail

theorem next_entered (ha : Accounts s.unackedPackets) (hr : Ready s n packet) :
    (s.onPacketSent packet).unackedPackets.next packet.packetNumber = 0 := by
  have hadd := added_onPacketSent ha hr.toSendable
  cases hi : (s.onPacketSent packet).unackedPackets.info? packet.packetNumber with
  | none => exact next_of_none hi
  | some i => exact (next_of_info hi).trans (hadd.entered i hi).2.2.1

theorem next_zero_onPacketSent (ha : Accounts s.unackedPackets) (hr : Ready s n packet)
    (hq : s.unackedPackets.next q = 0) (hqo : q ≠ packet.originalPacketNumber) :
    (s.onPacketSent packet).unackedPackets.next q = 0 := by
  by_cases hqn : q = packet.packetNumber
  · rw [hqn]
    exact next_entered ha hr
  cases hi : (s.onPacketSent packet).unackedPackets.info? q with
  | none => exact next_of_none hi
  | some i =>
    rw [next_of_info hi]
    rcases (added_onPacketSent ha hr.toSendable).old q i hqn hi with ⟨-, rfl⟩ | ⟨j, hj, -, -, hret, -⟩
    · rfl
    · rw [hret, if_neg fun hc => hqo hc.1]
      exact (next_of_info hj).symm.trans hq

/-- The old packet is linked to the new one, if it still has an entry. -/
theorem next_original (ha : Accounts s.unackedPackets) (hr : Ready s n packet)
    (hlinked : packet.transmissionType.unlinked = false) (hf : s.frames packet.originalPacketNumber ≠ [])
    (hi : (s.onPacketSent packet).info? p = some i) (hp : p ≤ packet.originalPacketNumber) :
    (s.onPacketSent packet).unackedPackets.next packet.originalPacketNumber = packet.packetNumber := by
  have hadd := added_onPacketSent ha hr.toSendable
  have hlater := hr.later
  have horig := hr.original
  obtain ⟨k, hk⟩ : ∃ k, (s.onPacketSent packet).unackedPackets.info?
      packet.originalPacketNumber = some k := by
    refine exists_get? ((lt_top hi).1.trans hp) ?_
    rw [(accounts_onPacketSent ha hr.toSendable).top, hadd.sent]
    omega
  rw [next_of_info hk]
  rcases hadd.old _ k (by omega) hk with ⟨hnone, -⟩ | ⟨j, -, -, -, hret, -⟩
  · exact absurd (UnackedPacketMap.frames_of_none hnone) hf
  · rw [hret, if_pos ⟨rfl, hlinked⟩]

theorem sent_onPacketSent : (s.onPacketSent packet).sent =
    if packet.originalPacketNumber = 0 then packet.retransmittableFrames ++ s.sent else s.sent := by
  unfold onPacketSent
  dsimp only
  by_cases ho : packet.originalPacketNumber = 0
  · rw [if_pos ho, if_pos ho, if_neg (not_not.2 ho)]
  · rw [if_neg ho, if_neg ho, if_pos ho]
    rfl

theorem logs_onPacketSent : (s.onPacketSent packet).gone = s.gone ∧
    (s.onPacketSent packet).reported = s.reported ∧
    (s.onPacketSent packet).acked = s.acked := by
  unfold onPacketSent
  dsimp only
  split <;> exact ⟨rfl, rfl, rfl⟩

/-- The frames of a new packet are new. -/
def Fresh (s : SentPacketManager) (packet : SerializedPacket) : Prop :=
  packet.retransmittableFrames.Nodup ∧ ∀ f ∈ packet.retransmittableFrames, f ∉ s.sent

section Sending

variable (h : Custody s) (ha : Accounts s.unackedPackets) (hr : Ready s n packet) (hf : Fresh s packet)
include h ha hr hf

theorem Custody.conserved_onPacketSent :
    (s.onPacketSent packet).unackedPackets.held + (s.onPacketSent packet).gone =
      ((s.onPacketSent packet).sent : Multiset SentFrame) ∧ (s.onPacketSent packet).sent.Nodup := by
  rw [(added_onPacketSent ha hr.toSendable).held, logs_onPacketSent.1, sent_onPacketSent]
  split
  · refine ⟨?_, List.nodup_append.2 ⟨hf.1, h.nodup, fun a ha b hb hab => hf.2 a ha (hab ▸ hb)⟩⟩
    rw [← coe_add, ← h.conserved]
    abel
  · next ho =>
    rw [(hr.again ho).2, ← h.conserved]
    exact ⟨by simp, h.nodup⟩

theorem Custody.carried_onPacketSent (hi : (s.onPacketSent packet).info? p = some i) :
    ∀ f ∈ i.carried, f ∈ (s.onPacketSent packet).sent := by
  have hadd := added_onPacketSent ha hr.toSendable
  have hsent : ∀ f ∈ s.sent, f ∈ (s.onPacketSent packet).sent := by
    intro f hf
    rw [sent_onPacketSent]
    split
    · exact List.mem_append_right _ hf
    · exact hf
  intro f hc
  by_cases hp : p = packet.packetNumber
  · -- what the new packet carries is what it holds
    subst hp
    obtain ⟨-, hcar, -⟩ := hadd.entered i hi
    have hheld : f ∈ (s.onPacketSent packet).unackedPackets.held :=
      mem_held.2 ⟨_, frames_of_info hi ▸ hcar ▸ hc⟩
    have hcons := (h.conserved_onPacketSent ha hr hf).1
    exact mem_coe.1 (hcons ▸ mem_add.2 (.inl hheld))
  · rcases hadd.old p i hp hi with ⟨-, rfl⟩ | ⟨j, hj, -, hcar, -⟩
    · cases hc
    · rw [hcar] at hc
      split at hc
      · exact hsent f (h.carried p j hj f (List.mem_of_mem_filter hc))
      · exact hsent f (h.carried p j hj f hc)

theorem Custody.chain_onPacketSent (hi : (s.onPacketSent packet).info? p = some i) (hc : f ∈ i.carried)
    (hq : f ∈ (s.onPacketSent packet).frames q) :
    Links.Leads (s.onPacketSent packet).unackedPackets.next p q ∧ i.isUnackable = false := by
  have hadd := added_onPacketSent ha hr.toSendable
  have hend := next_entered ha hr
  by_cases hp : p = packet.packetNumber
  · subst hp
    obtain ⟨-, hcar, -, hun⟩ := hadd.entered i hi
    have hheld : (s.onPacketSent packet).unackedPackets.held.Nodup := by
      obtain ⟨hcons, hnodup⟩ := h.conserved_onPacketSent ha hr hf
      exact nodup_of_le (le_add_right _ _) (hcons ▸ coe_nodup.2 hnodup)
    have hself : f ∈ (s.onPacketSent packet).frames packet.packetNumber := frames_of_info hi ▸ hcar ▸ hc
    rw [holder_unique hheld hq hself]
    exact ⟨.tail hend, hun⟩
  rcases hadd.old p i hp hi with ⟨-, rfl⟩ | ⟨j, hj, -, hcar, -, hun⟩
  · cases hc
  have hkeep : ∀ x, p ≤ x → s.unackedPackets.next x ≠ 0 →
      (s.onPacketSent packet).unackedPackets.next x = s.unackedPackets.next x :=
    fun x hx hne => next_onPacketSent ha hr hi hx hne
  have hcj : f ∈ j.carried := by
    rw [hcar] at hc
    split at hc
    · exact List.mem_of_mem_filter hc
    · exact hc
  rw [show (s.onPacketSent packet).frames q = _ from hadd.frames q] at hq
  split at hq
  · next hqn =>
    subst hqn
    -- the frame has just been handed over by the packet that `p` leads to
    have ho : packet.originalPacketNumber ≠ 0 := by
      intro ho
      rw [if_pos ho] at hq
      exact hf.2 f hq (h.carried p j hj f hcj)
    rw [if_neg ho] at hq
    have hlinked : packet.transmissionType.unlinked = false := by
      by_contra hu
      rw [hcar, if_pos (by simpa using hu)] at hc
      exact (of_decide_eq_true (List.mem_filter.1 hc).2) hq
    obtain ⟨hlead, hunj⟩ := h.chain p j f _ hj hcj hq
    refine ⟨hlead.extend ha.rising hkeep ?_ (Nat.ne_of_gt (Nat.zero_lt_of_lt hr.later)) hend, ?_⟩
    · exact next_original ha hr hlinked (List.ne_nil_of_mem hq) hi (hlead.le ha.rising)
    · by_contra hne
      rcases hun (by simpa using hne) with hu | ⟨-, hu⟩
      · rw [hunj] at hu
        cases hu
      · rw [hlinked] at hu
        cases hu
  · next hqn =>
    split at hq
    · cases hq
    next hqo =>
    obtain ⟨hlead, hunj⟩ := h.chain p j f q hj hcj hq
    refine ⟨hlead.keep ha.rising hkeep ?_, ?_⟩
    · exact next_zero_onPacketSent ha hr hlead.end_eq hqo
    · by_contra hne
      rcases hun (by simpa using hne) with hu | ⟨rfl, -⟩
      · rw [hunj] at hu
        cases hu
      · exact hqo (hlead.eq_of_end hr.tail)

end Sending

theorem Custody.onPacketSent (h : Custody s) (ha : Accounts s.unackedPackets) (hr : Ready s n packet)
    (hf : Fresh s packet) : Custody (s.onPacketSent packet) where
  conserved := (h.conserved_onPacketSent ha hr hf).1
  nodup := (h.conserved_onPacketSent ha hr hf).2
  reported := by
    rw [logs_onPacketSent.2.1, logs_onPacketSent.2.2]
    exact h.reported
  carried _ _ hi := h.carried_onPacketSent ha hr hf hi
  chain _ _ _ _ hi hc hq := h.chain_onPacketSent ha hr hf hi hc hq

end SentPacketManager

end Puic
