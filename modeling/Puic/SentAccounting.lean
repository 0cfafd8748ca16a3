/-
  The accounts of the unacked map, and the packets that wait for a retransmission.

  `Ordered` is the invariant of a sender: the map accounts for its packets, what is
  pending can be retransmitted, and what is queued can be sent in its order.  It is
  kept by a packet that is queued, by one that leaves the queue, and by the moves of the
  manager.  `accounting` and `retransmissions_serviceable` follow for every run.
-/
import Puic.FrameCustody

namespace Puic

open Machine List

namespace SentPacketManager

open UnackedPacketMap

variable {s s' : SentPacketManager} {p q : ℕ} {i : TransmissionInfo}

/-- What is pending holds frames, and nothing is pending twice. -/
structure Serviceable (s : SentPacketManager) : Prop where
  nodup : (s.pendingRetransmissions.map Prod.fst).Nodup
  frames : ∀ e ∈ s.pendingRetransmissions, s.frames e.1 ≠ []

theorem Serviceable.filter {c : ℕ × TransmissionType → Bool} (h : Serviceable s)
    (hp : s'.pendingRetransmissions = s.pendingRetransmissions.filter c)
    (hf : ∀ e ∈ s.pendingRetransmissions, c e = true → s'.frames e.1 ≠ []) : Serviceable s' where
  nodup := by
    rw [hp]
    exact h.nodup.sublist (filter_sublist.map _)
  frames e he := by
    rw [hp, mem_filter] at he
    exact hf e he.1 he.2

theorem Serviceable.of_frames (h : Serviceable s)
    (hp : s'.pendingRetransmissions = s.pendingRetransmissions)
    (hf : ∀ q, s'.frames q = s.frames q) : Serviceable s' where
  nodup := by rw [hp]; exact h.nodup
  frames e he := by
    rw [hp] at he
    rw [hf]
    exact h.frames e he

theorem Done.serviceable {t : ℕ} (hd : Done s s' p t) (h : Serviceable s) : Serviceable s' := by
  refine h.filter hd.pending fun e he hc => ?_
  rw [show s'.frames e.1 = _ from hd.settled.frames e.1, if_neg (by simpa using hc)]
  exact h.frames e he

theorem Move.serviceable (hm : Move s s') (ha : Accounts s.unackedPackets) (h : Serviceable s) :
    Serviceable s' := by
  cases hm with
  | timers => exact ⟨h.nodup, h.frames⟩
  | observe => exact ⟨h.nodup, h.frames⟩
  | land => exact h.of_frames rfl fun _ => frames_removeFromInFlight
  | @mark p hf hn type =>
    have hnew : p ∉ s.pendingRetransmissions.map Prod.fst := by
      intro hin
      obtain ⟨e, he, hep⟩ := mem_map.1 hin
      exact any_eq_false.1 hn e he (by simpa using hep)
    refine ⟨?_, fun e he => ?_⟩
    · rw [map_append, nodup_append]
      refine ⟨h.nodup, nodup_singleton _, fun a ha b hb hab => hnew ?_⟩
      rwa [← show a = p from hab.trans (mem_singleton.1 hb)]
    · rcases mem_append.1 he with he | he
      · exact h.frames e he
      · rw [mem_singleton.1 he]
        exact hf
  | handle hi => exact (done_markPacketHandled ha hi).serviceable h
  | neuter hf =>
    rcases done_neuterFor ha hf with ⟨he, -⟩ | hd
    · rwa [he]
    · exact hd.serviceable h
  | cancel id => exact h.filter rfl fun e _ hc => of_decide_eq_true hc
  | obsolete => exact h.of_frames rfl fun _ => frames_removeObsoletePackets

/-! ## Sending -/

theorem Serviceable.onPacketSent {packet : SerializedPacket} (h : Serviceable s)
    (ha : Accounts s.unackedPackets)
    (hs : Sendable s.unackedPackets packet) : Serviceable (s.onPacketSent packet) := by
  by_cases ho : packet.originalPacketNumber = 0
  · have hp : (s.onPacketSent packet).pendingRetransmissions = s.pendingRetransmissions := by
      rw [pending_onPacketSent, if_neg (not_not.2 ho)]
    refine ⟨by rw [hp]; exact h.nodup, fun e he => ?_⟩
    rw [hp] at he
    have hf := h.frames e he
    rw [frames_onPacketSent ha hs hf (ho ▸ ne_zero_of_frames ha hf)]
    exact hf
  · refine h.filter (by rw [pending_onPacketSent, if_pos ho]) fun e he hc => ?_
    rw [frames_onPacketSent ha hs (h.frames e he) (by simpa using hc)]
    exact h.frames e he

/-- Only packets with encryption hold frames. -/
def Secure (s : SentPacketManager) : Prop :=
  ∀ q i, s.info? q = some i → i.encryptionLevel = .none → s.frames q = []

theorem Wanes.secure (hw : Wanes s s') (h : Secure s) : Secure s' := by
  intro q i' hi' hl
  obtain ⟨i, hi, he⟩ := hw.level q i' hi'
  exact sublist_nil.1 (h q i hi (he ▸ hl) ▸ hw.frames q)

theorem Secure.onPacketSent {packet : SerializedPacket} (h : Secure s) (ha : Accounts s.unackedPackets)
    (hs : Sendable s.unackedPackets packet) (hl : packet.encryptionLevel ≠ .none) :
    Secure (s.onPacketSent packet) := by
  have hadd := added_onPacketSent ha hs
  intro q i hi hnone
  by_cases hq : q = packet.packetNumber
  · rw [hq] at hi
    exact absurd ((hadd.entered i hi).1.symm.trans hnone) hl
  · rcases hadd.old q i hq hi with ⟨-, rfl⟩ | ⟨j, hj, hlevel, -⟩
    · exact UnackedPacketMap.frames_of_info hi
    · rw [show (s.onPacketSent packet).frames q = _ from hadd.frames q, if_neg hq]
      split
      · rfl
      · exact h q j hj (hlevel ▸ hnone)

/-- `NeuterUnencryptedPackets` leaves no frames in packets without encryption. -/
theorem secure_neuterUnencryptedPackets (ha : Accounts s.unackedPackets) :
    Secure s.neuterUnencryptedPackets := by
  have hfold : ∀ (ps : List ℕ) (s : SentPacketManager), Accounts s.unackedPackets → ∀ q ∈ ps, ∀ i,
      (ps.foldl neuterFor s).info? q = some i → i.encryptionLevel = .none →
        (ps.foldl neuterFor s).frames q = [] := by
    intro ps
    induction ps with
    | nil => intro s _ q hq; cases hq
    | cons p ps ih =>
      intro s ha q hq i hi hl
      have ha' := (moves_neuterFor (p := p)).accounts ha
      rcases mem_cons.1 hq with rfl | hq
      · have hrest : Moves (s.neuterFor q) (ps.foldl neuterFor (s.neuterFor q)) :=
          Moves.foldl (fun _ _ => moves_neuterFor) ps
        have hw := hrest.wanes ha'
        obtain ⟨i', hi', he⟩ := hw.level q i hi
        have hcleared : (s.neuterFor q).frames q = [] := by
          by_cases hf : s.frames q = []
          · exact sublist_nil.1 (hf ▸ (moves_neuterFor.wanes ha).frames q)
          · rcases done_neuterFor ha hf with ⟨hsame, hne⟩ | hd
            · rw [hsame] at hi'
              exact absurd (he ▸ hl) (hne i' hi')
            · rw [show (s.neuterFor q).frames q = _ from hd.settled.frames q, if_pos rfl]
        exact sublist_nil.1 (hcleared ▸ hw.frames q)
      · exact ih _ ha' q hq i hi hl
  intro q i hi hl
  refine hfold s.numbers s ha q ?_ i hi hl
  obtain ⟨j, hj, -⟩ := (moves_neuterUnencryptedPackets.wanes ha).level q i hi
  exact Indexed.mem_numbers.2 (Indexed.lt_top hj)

theorem pending_of_next {type : TransmissionType} (hn : s.nextPendingRetransmission = some (p, type, i)) :
    (p, type) ∈ s.pendingRetransmissions ∧ s.info? p = some i := by
  obtain ⟨e, hc, hi⟩ := Option.bind_eq_some_iff.1 hn
  obtain ⟨j, hj, he⟩ := Option.map_eq_some_iff.1 hi
  have hmem : e ∈ s.pendingRetransmissions := by
    split at hc
    · rcases Option.or_eq_some_iff.1 hc with hc | ⟨-, hc⟩
      · exact mem_of_find?_eq_some hc
      · exact mem_of_mem_head? hc
    · exact mem_of_mem_head? hc
  obtain ⟨rfl, rfl, rfl⟩ : e.1 = p ∧ e.2 = type ∧ j = i := by simpa using he
  exact ⟨hmem, hj⟩

theorem Serviceable.exists_next (h : Serviceable s) (hne : s.pendingRetransmissions ≠ []) :
    ∃ p type i, s.nextPendingRetransmission = some (p, type, i) := by
  have hsome : ∀ e ∈ s.pendingRetransmissions, ∃ i, s.info? e.1 = some i := by
    intro e he
    cases hi : s.info? e.1 with
    | none => exact absurd (UnackedPacketMap.frames_of_none hi) (h.frames e he)
    | some i => exact ⟨i, rfl⟩
  obtain ⟨first, hfirst⟩ : ∃ e, s.pendingRetransmissions.head? = some e :=
    Option.isSome_iff_exists.1 (isSome_head?.2 hne)
  unfold nextPendingRetransmission
  rw [hfirst]
  split
  · cases hc : s.pendingRetransmissions.find? fun e => (s.info? e.1).any (·.hasCryptoHandshake) with
    | none =>
      obtain ⟨i, hi⟩ := hsome first (mem_of_mem_head? hfirst)
      exact ⟨first.1, first.2, i, by simp [hi]⟩
    | some e =>
      obtain ⟨i, hi⟩ := hsome e (mem_of_find?_eq_some hc)
      exact ⟨e.1, e.2, i, by simp [hi]⟩
  · obtain ⟨i, hi⟩ := hsome first (mem_of_mem_head? hfirst)
    exact ⟨first.1, first.2, i, by simp [hi]⟩

/-- The frames that are queued or sent are told apart by their numbers below `serial`. -/
structure Tagged (queue : List SerializedPacket) (sent : List SentFrame) (serial : ℕ) : Prop where
  nodup : (queue.flatMap (·.retransmittableFrames) ++ sent).Nodup
  below : ∀ f ∈ queue.flatMap (·.retransmittableFrames) ++ sent, f.serial < serial

/-- The invariant of a sender that has serialized `n` packets, some of which are in `queue`. -/
structure Ordered (s : SentPacketManager) (queue : List SerializedPacket) (n : ℕ)
    (level : EncryptionLevel)
    (serial : ℕ) : Prop where
  accounts : Accounts s.unackedPackets
  serviceable : Serviceable s
  largest : s.unackedPackets.largestSentPacket ≤ n
  ready : ∀ packet ∈ queue, Ready s n packet
  -- a retransmission is serialized only when no other one is queued
  order : queue.Pairwise fun a b =>
    a.packetNumber < b.packetNumber ∧ (a.originalPacketNumber = 0 ∨ b.originalPacketNumber = 0)
  secure : level = .forwardSecure → Secure s
  custody : Custody s
  tagged : Tagged queue s.sent serial

section Ordered

variable {queue : List SerializedPacket} {n serial : ℕ} {level : EncryptionLevel}
    {packet : SerializedPacket}
  {log : List SentFrame}

theorem Tagged.sublist {queue' : List SerializedPacket} (h : Tagged queue log serial)
    (hs : (queue'.flatMap (·.retransmittableFrames)).Sublist (queue.flatMap (·.retransmittableFrames))) :
    Tagged queue' log serial :=
  ⟨h.nodup.sublist (hs.append (.refl _)), fun f hf => h.below f ((hs.append (.refl _)).subset hf)⟩

theorem Tagged.tail (h : Tagged (packet :: queue) log serial) : Tagged queue log serial :=
  h.sublist (sublist_append_right _ _)

theorem Tagged.fresh (h : Tagged (packet :: queue) s.sent serial) : Fresh s packet := by
  obtain ⟨hq, -, hdis⟩ := nodup_append.1 h.nodup
  exact ⟨(nodup_append.1 hq).1, fun f hf hs => hdis f (mem_append_left _ hf) f hs rfl⟩

/-- The frames of a packet that is sent leave the queue for the log. -/
theorem Tagged.sent (h : Tagged (packet :: queue) log serial) :
    Tagged queue (packet.retransmittableFrames ++ log) serial := by
  have hp : (queue.flatMap (·.retransmittableFrames) ++ (packet.retransmittableFrames ++ log)).Perm
      ((packet :: queue).flatMap (·.retransmittableFrames) ++ log) := by
    rw [flatMap_cons, ← append_assoc]
    exact perm_append_comm.append_right log
  exact ⟨hp.nodup_iff.2 h.nodup, fun f hf => h.below f (hp.subset hf)⟩

theorem Ready.wanes (h : Ready s n packet) (hw : Wanes s s') : Ready s' n packet where
  later := hw.largest ▸ h.later
  fresh := h.fresh
  again := h.again
  original := hw.largest ▸ h.original
  numbered := h.numbered
  tail := hw.ends _ h.tail

theorem Ordered.moves (h : Ordered s queue n level serial) (hm : Moves s s') :
    Ordered s' queue n level serial := by
  have hw := hm.wanes h.accounts
  have hs := hm.inv (fun _ _ ha hm hs => hm.serviceable ha hs) h.accounts h.serviceable
  have hc := hm.inv (fun _ _ ha hm hc => hm.custody ha hc) h.accounts h.custody
  exact ⟨hs.1, hs.2, hw.largest ▸ h.largest, fun packet hp => (h.ready packet hp).wanes hw, h.order,
    fun hl => hw.secure (h.secure hl), hc.2, hw.sent ▸ h.tagged⟩

theorem Ordered.push {serial' : ℕ} (h : Ordered s queue n level serial) (hr : Ready s (n + 1) packet)
    (hn : packet.packetNumber = n + 1) (ht : Tagged (queue ++ [packet]) s.sent serial')
    (ho : packet.originalPacketNumber = 0 ∨ ∀ a ∈ queue, a.originalPacketNumber = 0) :
    Ordered s (queue ++ [packet]) (n + 1) level serial' where
  accounts := h.accounts
  serviceable := h.serviceable
  largest := h.largest.trans n.le_succ
  ready a ha := by
    rcases mem_append.1 ha with ha | ha
    · have hra := h.ready a ha
      exact ⟨hra.toSendable, hra.numbered.trans n.le_succ, hra.tail⟩
    · rw [mem_singleton.1 ha]
      exact hr
  order := by
    refine pairwise_append.2 ⟨h.order, pairwise_singleton _ _, fun a ha b hb => ?_⟩
    rw [mem_singleton.1 hb, hn]
    refine ⟨Nat.lt_succ_of_le (h.ready a ha).numbered, ?_⟩
    rcases ho with ho | ho
    · exact .inr ho
    · exact .inl (ho a ha)
  secure := h.secure
  custody := h.custody
  tagged := ht

theorem Ordered.tail {packet : SerializedPacket} (h : Ordered s (packet :: queue) n level serial) :
    Ordered s queue n level serial :=
  ⟨h.accounts, h.serviceable, h.largest, fun a ha => h.ready a (.tail _ ha),
    (pairwise_cons.1 h.order).2, h.secure, h.custody, h.tagged.tail⟩

theorem Ready.onPacketSent {b : SerializedPacket} (h : Ready s n b) (ha : Accounts s.unackedPackets)
    (hs : Sendable s.unackedPackets packet) (hlt : packet.packetNumber < b.packetNumber)
    (ho : packet.originalPacketNumber = 0 ∨ b.originalPacketNumber = 0) :
    Ready (s.onPacketSent packet) n b := by
  have hadd := added_onPacketSent ha hs
  have hlater := hs.later
  have horig := h.original
  refine ⟨⟨hadd.sent ▸ hlt, h.fresh, h.again, hadd.sent ▸ horig.trans hlater.le⟩, h.numbered, ?_⟩
  cases hi : (s.onPacketSent packet).unackedPackets.info? b.originalPacketNumber with
  | none => exact next_of_none hi
  | some i =>
    rw [next_of_info hi]
    rcases hadd.old _ i (by omega) hi with ⟨-, rfl⟩ | ⟨j, hj, -, -, hret, -⟩
    · rfl
    · rw [hret, if_neg]
      · exact (next_of_info hj).symm.trans h.tail
      · -- the only retransmission here is `b`, and zero is not the number of a packet
        rintro ⟨he, -⟩
        have hb : b.originalPacketNumber = 0 := by
          rcases ho with ho | ho
          · exact he.trans ho
          · exact ho
        rw [hb, ha.info?_zero] at hj
        cases hj

theorem Ordered.sent (h : Ordered s (packet :: queue) n level serial)
    (hl : level = .forwardSecure → packet.encryptionLevel ≠ .none) :
    Ordered (s.onPacketSent packet) queue n level serial := by
  have hr := h.ready packet (.head _)
  have hs := hr.toSendable
  obtain ⟨hq, hrest⟩ := pairwise_cons.1 h.order
  exact
    { accounts := accounts_onPacketSent h.accounts hs
      serviceable := h.serviceable.onPacketSent h.accounts hs
      largest := (added_onPacketSent h.accounts hs).sent ▸ hr.numbered
      ready := fun b hb => (h.ready b (.tail _ hb)).onPacketSent h.accounts hs (hq b hb).1 (hq b hb).2
      order := hrest
      secure := fun hsec => (h.secure hsec).onPacketSent h.accounts hs (hl hsec)
      custody := h.custody.onPacketSent h.accounts hr h.tagged.fresh
      tagged := by
        rw [sent_onPacketSent]
        split
        · exact h.tagged.sent
        · exact h.tagged.tail }

end Ordered

end SentPacketManager

namespace PacketSender

open SentPacketManager UnackedPacketMap

variable {s s' : PacketSender} {packet : SerializedPacket} {outcome : WriteOutcome}

def Ordered (s : PacketSender) : Prop :=
  s.manager.Ordered s.queuedPackets s.packetNumber s.encryptionLevel s.nextSerial

/-- The outcomes of `WritePacket`: nothing, the end of the connection, or the packet is sent. -/
theorem writePacket_cases (s : PacketSender) (packet : SerializedPacket) (outcome : WriteOutcome) :
    (∃ c done, s.writePacket packet outcome = ({ s with connected := c }, done)) ∨
      (s.writePacket packet outcome = (s.setManager (s.manager.onPacketSent packet), true) ∧
        s.shouldDiscardPacket packet = false) := by
  unfold writePacket
  split
  · exact .inl ⟨_, _, rfl⟩
  split
  · exact .inl ⟨s.connected, _, rfl⟩
  · next hd =>
    cases outcome with
    | sent => exact .inr ⟨rfl, by simpa using hd⟩
    | blocked => exact .inl ⟨s.connected, _, rfl⟩
    | failed => exact .inl ⟨_, _, rfl⟩
    | messageTooBig =>
      dsimp only
      split
      · exact .inl ⟨s.connected, _, rfl⟩
      · exact .inl ⟨_, _, rfl⟩

theorem level_of_not_discarded (h : s.shouldDiscardPacket packet = false)
    (hl : s.encryptionLevel = .forwardSecure) :
    packet.encryptionLevel ≠ .none := by
  intro hn
  simp [shouldDiscardPacket, hl, hn] at h

theorem Ordered.sendOrQueuePacket
    (h : s.manager.Ordered (s.queuedPackets ++ [packet]) s.packetNumber s.encryptionLevel
      s.nextSerial) :
    (s.sendOrQueuePacket packet outcome).Ordered := by
  unfold PacketSender.sendOrQueuePacket
  split
  · exact h
  · next hq =>
    rw [not_not] at hq
    rw [hq, nil_append] at h
    rcases writePacket_cases s packet outcome with ⟨c, done, he⟩ | ⟨he, hd⟩
    · rw [he]
      dsimp only
      split
      · show s.manager.Ordered s.queuedPackets s.packetNumber s.encryptionLevel s.nextSerial
        rw [hq]
        exact h.tail
      · exact h
    · rw [he]
      show (s.manager.onPacketSent packet).Ordered s.queuedPackets s.packetNumber s.encryptionLevel
        s.nextSerial
      rw [hq]
      exact h.sent (level_of_not_discarded hd)

theorem ready_fresh (h : s.Ordered) (ho : packet.originalPacketNumber = 0)
    (hn : packet.packetNumber = s.packetNumber + 1)
    (hc : packet.hasCryptoHandshake = true → packet.retransmittableFrames ≠ []) :
    s.manager.Ready (s.packetNumber + 1) packet where
  later := hn ▸ Nat.lt_succ_of_le h.largest
  fresh _ := hc
  again hne := absurd ho hne
  original := ho ▸ Nat.zero_le _
  numbered := hn.le
  tail := by
    rw [ho]
    exact next_of_none h.accounts.info?_zero

theorem ready_serializePacket (h : s.Ordered) (packet : NewPacket) :
    s.manager.Ready (s.packetNumber + 1) (s.serializePacket packet) := by
  refine ready_fresh h rfl rfl fun hc hnil => ?_
  obtain ⟨f, hf, -⟩ := any_eq_true.1 hc
  rw [show numberFrames s.nextSerial packet.frames = [] from hnil] at hf
  cases hf

theorem mem_numberFrames {serial : ℕ} {streams : List (Option ℕ)} {f : SentFrame}
    (h : f ∈ numberFrames serial streams) :
    serial ≤ f.serial ∧ f.serial < serial + streams.length := by
  obtain ⟨⟨stream, k⟩, he, rfl⟩ := mem_map.1 h
  have hk := (mem_zipIdx' he).1
  exact ⟨Nat.le_add_right _ _, by dsimp only; omega⟩

theorem nodup_numberFrames (serial : ℕ) (streams : List (Option ℕ)) :
    (numberFrames serial streams).Nodup := by
  refine Nodup.of_map SentFrame.serial ?_
  have hmap : (numberFrames serial streams).map SentFrame.serial =
      (streams.zipIdx.map Prod.snd).map (serial + ·) := by
    unfold numberFrames
    rw [map_map, map_map]
    rfl
  rw [hmap, zipIdx_map_snd]
  exact Nodup.map (add_right_injective serial) (nodup_range' _)

theorem tagged_serializePacket (h : s.Ordered) (packet : NewPacket) :
    Tagged (s.queuedPackets ++ [s.serializePacket packet])
    s.manager.sent (s.nextSerial + packet.frames.length) := by
  have hold := h.tagged
  have hflat : (s.queuedPackets ++ [s.serializePacket packet]).flatMap (·.retransmittableFrames) ++
      s.manager.sent =
      s.queuedPackets.flatMap (·.retransmittableFrames) ++
        (numberFrames s.nextSerial packet.frames ++ s.manager.sent) := by
    simp [serializePacket]
  have hperm : (s.queuedPackets.flatMap (·.retransmittableFrames) ++
      (numberFrames s.nextSerial packet.frames ++ s.manager.sent)).Perm
        (numberFrames s.nextSerial packet.frames ++
        (s.queuedPackets.flatMap (·.retransmittableFrames) ++ s.manager.sent)) :=
          perm_append_comm_assoc _ _ _
  refine ⟨?_, fun f hf => ?_⟩
  · rw [hflat, hperm.nodup_iff, nodup_append]
    refine ⟨nodup_numberFrames _ _, hold.nodup, fun a ha b hb hab => ?_⟩
    have h1 := mem_numberFrames ha
    have h2 := hold.below b hb
    rw [hab] at h1
    omega
  · rw [hflat] at hf
    rcases mem_append.1 (hperm.subset hf) with hf | hf
    · exact (mem_numberFrames hf).2
    · exact (hold.below f hf).trans_le (Nat.le_add_right _ _)

theorem Ordered.send (h : s.Ordered) (packet : NewPacket) : (s.send packet outcome).Ordered :=
  Ordered.sendOrQueuePacket
    (SentPacketManager.Ordered.push h (ready_serializePacket h packet)
      rfl (tagged_serializePacket h packet) (.inl rfl))

/-! ## Retransmissions -/

/-- A packet that is done with leaves the queue alone; another one is put at its end. -/
theorem sendOrQueuePacket_cases (s : PacketSender) (packet : SerializedPacket) (outcome : WriteOutcome) :
    ((s.sendOrQueuePacket packet outcome).manager = s.manager ∧
      ((s.sendOrQueuePacket packet outcome).queuedPackets = s.queuedPackets ∨
        (s.sendOrQueuePacket packet outcome).queuedPackets = s.queuedPackets ++ [packet])) ∨
    ((s.sendOrQueuePacket packet outcome).manager = s.manager.onPacketSent packet ∧
      (s.sendOrQueuePacket packet outcome).queuedPackets = s.queuedPackets) := by
  unfold PacketSender.sendOrQueuePacket
  split
  · exact .inl ⟨rfl, .inr rfl⟩
  · next hq =>
    rw [not_not] at hq
    rcases writePacket_cases s packet outcome with ⟨c, done, he⟩ | ⟨he, -⟩
    · rw [he]
      dsimp only
      split
      · exact .inl ⟨rfl, .inl rfl⟩
      · exact .inl ⟨rfl, .inr (by rw [hq]; rfl)⟩
    · rw [he]
      exact .inr ⟨rfl, rfl⟩

theorem sendOrQueuePacket_rest (s : PacketSender) (packet : SerializedPacket) (outcome : WriteOutcome) :
    (s.sendOrQueuePacket packet outcome).packetNumber = s.packetNumber ∧
    (s.sendOrQueuePacket packet outcome).encryptionLevel = s.encryptionLevel ∧
    (s.sendOrQueuePacket packet outcome).longTermMtu = s.longTermMtu ∧
    (s.sendOrQueuePacket packet outcome).nextSerial = s.nextSerial := by
  unfold PacketSender.sendOrQueuePacket
  split
  · exact ⟨rfl, rfl, rfl, rfl⟩
  · rcases writePacket_cases s packet outcome with ⟨c, done, he⟩ | ⟨he, -⟩
    · rw [he]
      dsimp only
      split <;> exact ⟨rfl, rfl, rfl, rfl⟩
    · rw [he]
      exact ⟨rfl, rfl, rfl, rfl⟩

/-- What holds of a sender while `p` is about to be retransmitted: the packets flushed before it are
    new ones. -/
structure Flushing (p : ℕ) (s₀ s : PacketSender) : Prop where
  ordered : s.Ordered
  fresh : ∀ a ∈ s.queuedPackets, a.originalPacketNumber = 0
  frames : s.manager.frames p = s₀.manager.frames p
  pending : s.manager.pendingRetransmissions = s₀.manager.pendingRetransmissions
  level : s.encryptionLevel = s₀.encryptionLevel
  mtu : s.longTermMtu = s₀.longTermMtu

variable {p : ℕ} {s₀ : PacketSender}

theorem Flushing.send (h : Flushing p s₀ s) (hf : s₀.manager.frames p ≠ []) (packet : NewPacket) :
    Flushing p s₀ (s.send packet outcome) := by
  obtain ⟨-, hlevel, hmtu, -⟩ :=
    sendOrQueuePacket_rest (s.taken packet.frames.length) (s.serializePacket packet) outcome
  have hord : (s.send packet outcome).Ordered := h.ordered.send packet
  have hp : s.manager.frames p ≠ [] := h.frames ▸ hf
  have hready := (ready_serializePacket h.ordered packet).toSendable
  rcases sendOrQueuePacket_cases (s.taken packet.frames.length) (s.serializePacket packet) outcome with
    ⟨hm, hq⟩ | ⟨hm, hq⟩
  · refine ⟨hord, fun a ha => ?_, ?_, ?_, hlevel.trans h.level, hmtu.trans h.mtu⟩
    · rcases hq with hq | hq
      · exact h.fresh a (hq ▸ ha)
      · rcases mem_append.1 (hq ▸ ha : a ∈ s.queuedPackets ++ _) with ha | ha
        · exact h.fresh a ha
        · rw [mem_singleton.1 ha]
          rfl
    · rw [← h.frames]
      exact congrArg (SentPacketManager.frames · p) hm
    · rw [← h.pending]
      exact congrArg SentPacketManager.pendingRetransmissions hm
  · refine ⟨hord, fun a ha => h.fresh a (hq ▸ ha), ?_, ?_, hlevel.trans h.level, hmtu.trans h.mtu⟩
    · rw [← h.frames, ← frames_onPacketSent h.ordered.accounts hready hp
        (ne_zero_of_frames h.ordered.accounts hp)]
      exact congrArg (SentPacketManager.frames · p) hm
    · rw [← h.pending]
      exact (congrArg SentPacketManager.pendingRetransmissions hm).trans
        (pending_onPacketSent.trans (if_neg (not_not.2 rfl)))

theorem Flushing.foldl (flushed : List (NewPacket × WriteOutcome)) (h : Flushing p s₀ s)
    (hf : s₀.manager.frames p ≠ []) :
    Flushing p s₀ (flushed.foldl (fun s e => s.send e.1 e.2) s) := by
  induction flushed generalizing s with
  | nil => exact h
  | cons e flushed ih => exact ih (h.send hf e.1)

variable {type : TransmissionType} {i : TransmissionInfo} {length : ℕ}

theorem Flushing.ready (h : Flushing p s₀ s) (hf : s₀.manager.frames p ≠ []) :
    s.manager.Ready (s.packetNumber + 1) (s.reserializeAllFrames p type i length) := by
  have hp : s.manager.frames p ≠ [] := h.frames ▸ hf
  have ha := h.ordered.accounts
  exact ⟨⟨Nat.lt_succ_of_le h.ordered.largest, fun _ hc => Bool.noConfusion hc, fun _ => ⟨rfl, rfl⟩,
    le_largest_of_frames ha hp⟩, le_rfl, next_of_frames ha hp⟩

theorem Flushing.tagged (h : Flushing p s₀ s) :
    Tagged (s.queuedPackets ++ [s.reserializeAllFrames p type i length]) s.manager.sent s.nextSerial := by
  refine h.ordered.tagged.sublist ?_
  simp [reserializeAllFrames]

theorem Flushing.resend (h : Flushing p s₀ s) (hf : s₀.manager.frames p ≠ []) :
    (s.resend p type i length outcome).Ordered :=
  Ordered.sendOrQueuePacket
    (SentPacketManager.Ordered.push h.ordered (h.ready hf) rfl h.tagged (.inr h.fresh))

theorem Ordered.writePendingRetransmission (h : s.Ordered) (hq : s.queuedPackets = [])
    {flushed : List (NewPacket × WriteOutcome)}
    (hw : s.writePendingRetransmission flushed length outcome = some s') :
    s'.Ordered := by
  obtain ⟨⟨p, type, i⟩, hn, rfl⟩ := Option.map_eq_some_iff.1 hw
  obtain ⟨hmem, -⟩ := pending_of_next hn
  have hf := h.serviceable.frames _ hmem
  have hflush : Flushing p s s := ⟨h, fun a ha => absurd (hq ▸ ha) not_mem_nil, rfl, rfl, rfl, rfl⟩
  exact (hflush.foldl flushed hf).resend hf

theorem writeQueued_cases (hw : s.writeQueued outcome = some s') :
    ∃ packet rest, s.queuedPackets = packet :: rest ∧
      ((∃ c, s' = { s with connected := c } ∨ s' = { s with connected := c, queuedPackets := rest }) ∨
        s' = { s.setManager (s.manager.onPacketSent packet) with queuedPackets := rest } ∧
          s.shouldDiscardPacket packet = false) := by
  unfold PacketSender.writeQueued at hw
  split at hw
  · cases hw
  next packet rest hq =>
  refine ⟨packet, rest, hq, ?_⟩
  rcases writePacket_cases s packet outcome with ⟨c, done, he⟩ | ⟨he, hd⟩
  · rw [he] at hw
    cases hw
    cases done with
    | true => exact .inl ⟨c, .inr rfl⟩
    | false => exact .inl ⟨c, .inl rfl⟩
  · rw [he] at hw
    cases hw
    exact .inr ⟨rfl, hd⟩

theorem Ordered.writeQueued (h : s.Ordered) (hw : s.writeQueued outcome = some s') : s'.Ordered := by
  obtain ⟨packet, rest, hq, hs⟩ := writeQueued_cases hw
  have hall := h
  unfold Ordered at hall
  rw [hq] at hall
  obtain ⟨c, rfl | rfl⟩ | ⟨rfl, hd⟩ := hs
  · exact h
  · exact hall.tail
  · exact hall.sent (level_of_not_discarded hd)

/-- Cancelling a stream only takes frames out of a packet, and never all of them. -/
theorem cancelPacket_cases {id : ℕ} {packet' : SerializedPacket}
    (h : cancelPacket id packet = some packet') :
    ∃ frames, packet' = { packet with retransmittableFrames := frames } ∧
      frames.Sublist packet.retransmittableFrames ∧
        (packet.retransmittableFrames ≠ [] → frames ≠ []) := by
  unfold cancelPacket at h
  dsimp only at h
  split_ifs at h with h1 h2
  · exact ⟨packet.retransmittableFrames, (Option.some.inj h).symm, .refl _, fun hne => hne⟩
  · exact ⟨_, (Option.some.inj h).symm, filter_sublist, fun _ => h2⟩

theorem Ordered.cancelQueued (h : s.Ordered) (id : ℕ) :
    s.manager.Ordered (PacketSender.cancelQueued id s.queuedPackets)
    s.packetNumber s.encryptionLevel s.nextSerial where
  accounts := h.accounts
  serviceable := h.serviceable
  largest := h.largest
  ready packet' hp := by
    obtain ⟨packet, hq, hc⟩ := mem_filterMap.1 hp
    obtain ⟨frames, rfl, hsub, hne⟩ := cancelPacket_cases hc
    have hr := h.ready packet hq
    refine ⟨⟨hr.later, fun ho hcr => hne (hr.fresh ho hcr), fun ho => ⟨(hr.again ho).1, ?_⟩, hr.original⟩,
      hr.numbered, hr.tail⟩
    exact sublist_nil.1 ((hr.again ho).2 ▸ hsub)
  order := by
    refine Pairwise.filterMap (cancelPacket id) (fun a b hab a' ha b' hb => ?_) h.order
    obtain ⟨_, rfl, -⟩ := cancelPacket_cases ha
    obtain ⟨_, rfl, -⟩ := cancelPacket_cases hb
    exact hab
  secure := h.secure
  custody := h.custody
  tagged := by
    refine h.tagged.sublist ?_
    unfold PacketSender.cancelQueued
    generalize s.queuedPackets = queue
    induction queue with
    | nil => exact .refl _
    | cons packet queue ih =>
      rw [filterMap_cons, flatMap_cons]
      split
      · exact ih.trans (sublist_append_right _ _)
      · next hc =>
        obtain ⟨frames, rfl, hsub, -⟩ := cancelPacket_cases hc
        exact hsub.append ih

theorem Ordered.step (h : s.Ordered) {e : SenderEvent} (hs : s.step e = some s') : s'.Ordered := by
  unfold PacketSender.step at hs
  split at hs
  swap
  · cases hs
  have hmoves : ∀ m, Moves s.manager m → (s.setManager m).Ordered :=
    fun m hm => SentPacketManager.Ordered.moves h hm
  cases e with
  | send packet outcome =>
    cases hs
    exact h.send packet
  | writeQueued outcome => exact h.writeQueued hs
  | writePendingRetransmission flushed length outcome =>
    dsimp only at hs
    split at hs
    · next hc => exact h.writePendingRetransmission hc.1 hs
    · cases hs
  | ack frame lost =>
    dsimp only at hs
    split at hs
    · cases hs
      exact h
    · split at hs
      · cases hs
        exact hmoves _ (moves_onIncomingAck frame lost)
      · cases hs
  | retransmissionTimeout lossTimeout lost =>
    dsimp only at hs
    split at hs
    · cases hs
      exact hmoves _ (moves_onRetransmissionTimeout lossTimeout lost)
    · cases hs
  | tailLossProbe =>
    cases hs
    exact hmoves _ moves_maybeRetransmitTailLossProbe
  | probe =>
    cases hs
    exact hmoves _ (moves_maybeRetransmitOldestPacket _)
  | retransmitUnackedPackets type =>
    dsimp only at hs
    split at hs
    · cases hs
      exact hmoves _ (moves_retransmitUnackedPackets type)
    · cases hs
  | neuterUnencryptedPackets =>
    cases hs
    exact hmoves _ moves_neuterUnencryptedPackets
  | setEncryptionLevel level =>
    dsimp only at hs
    split at hs
    · next hc =>
      cases hs
      exact { h with secure := fun hl => absurd hl hc.2 }
    · cases hs
  | forwardSecure =>
    cases hs
    exact { hmoves _ moves_neuterUnencryptedPackets with
      secure := fun _ => secure_neuterUnencryptedPackets h.accounts }
  | setHandshakeConfirmed =>
    cases hs
    exact hmoves _ (.single (.timers _ _ _ _ _))
  | cancelStream id =>
    cases hs
    exact SentPacketManager.Ordered.moves (h.cancelQueued id) (.single (.cancel id))
  | setMaxPacketLength length =>
    cases hs
    exact h
  | migrated =>
    cases hs
    exact hmoves _ (.single (.timers _ _ _ _ _))

/-- What a step does to the manager: moves, and packets that are sent. -/
def Works : SentPacketManager → SentPacketManager → Prop :=
  Relation.ReflTransGen fun a b => Move a b ∨ ∃ packet, b = a.onPacketSent packet

theorem Works.inv {I : SentPacketManager → Prop} {a b : SentPacketManager} (h : Works a b)
    (hm : ∀ a b, Move a b → I a → I b) (hs : ∀ a packet, I a → I (a.onPacketSent packet))
    (ha : I a) : I b := by
  induction h with
  | refl => exact ha
  | tail _ hstep ih =>
    rcases hstep with hmove | ⟨packet, rfl⟩
    · exact hm _ _ hmove ih
    · exact hs _ packet ih

theorem works_of_moves {a b : SentPacketManager} (h : Moves a b) : Works a b := by
  induction h with
  | refl => exact .refl
  | tail _ hm ih => exact ih.tail (.inl hm)

theorem works_sendOrQueuePacket (s : PacketSender) (packet : SerializedPacket) (outcome : WriteOutcome) :
    Works s.manager (s.sendOrQueuePacket packet outcome).manager := by
  rcases sendOrQueuePacket_cases s packet outcome with ⟨he, -⟩ | ⟨he, -⟩
  · rw [he]
    exact .refl
  · rw [he]
    exact .single (.inr ⟨packet, rfl⟩)

theorem works_flush (s : PacketSender) (flushed : List (NewPacket × WriteOutcome)) :
    Works s.manager (flushed.foldl (fun s e => s.send e.1 e.2) s).manager := by
  induction flushed generalizing s with
  | nil => exact .refl
  | cons e flushed ih =>
    exact (works_sendOrQueuePacket (s.taken e.1.frames.length) (s.serializePacket e.1) e.2).trans (ih _)

theorem works_writeQueued (hw : s.writeQueued outcome = some s') : Works s.manager s'.manager := by
  obtain ⟨packet, rest, -, ⟨c, rfl | rfl⟩ | ⟨rfl, -⟩⟩ := writeQueued_cases hw
  · exact .refl
  · exact .refl
  · exact .single (.inr ⟨packet, rfl⟩)

theorem works_step {e : SenderEvent} (hs : s.step e = some s') : Works s.manager s'.manager := by
  unfold PacketSender.step at hs
  split at hs
  swap
  · cases hs
  cases e with
  | send packet outcome =>
    cases hs
    exact works_sendOrQueuePacket (s.taken packet.frames.length) _ _
  | writeQueued outcome => exact works_writeQueued hs
  | writePendingRetransmission flushed length outcome =>
    dsimp only at hs
    split at hs
    · obtain ⟨⟨p, type, i⟩, -, rfl⟩ := Option.map_eq_some_iff.1 hs
      have hsent := works_sendOrQueuePacket ((flushed.foldl (fun s e => s.send e.1 e.2) s).taken 0)
        ((flushed.foldl (fun s e => s.send e.1 e.2) s).reserializeAllFrames p type i length) outcome
      exact (works_flush s flushed).trans hsent
    · cases hs
  | ack frame lost =>
    dsimp only at hs
    split at hs
    · cases hs
      exact .refl
    · split at hs
      · cases hs
        exact works_of_moves (moves_onIncomingAck frame lost)
      · cases hs
  | retransmissionTimeout lossTimeout lost =>
    dsimp only at hs
    split at hs
    · cases hs
      exact works_of_moves (moves_onRetransmissionTimeout lossTimeout lost)
    · cases hs
  | tailLossProbe =>
    cases hs
    exact works_of_moves moves_maybeRetransmitTailLossProbe
  | probe =>
    cases hs
    exact works_of_moves (moves_maybeRetransmitOldestPacket _)
  | retransmitUnackedPackets type =>
    dsimp only at hs
    split at hs
    · cases hs
      exact works_of_moves (moves_retransmitUnackedPackets type)
    · cases hs
  | neuterUnencryptedPackets =>
    cases hs
    exact works_of_moves moves_neuterUnencryptedPackets
  | setEncryptionLevel level =>
    dsimp only at hs
    split at hs
    · cases hs
      exact .refl
    · cases hs
  | forwardSecure =>
    cases hs
    exact works_of_moves moves_neuterUnencryptedPackets
  | setHandshakeConfirmed =>
    cases hs
    exact works_of_moves (.single (.timers _ _ _ _ _))
  | cancelStream id =>
    cases hs
    exact works_of_moves (.single (.cancel id))
  | setMaxPacketLength length =>
    cases hs
    exact .refl
  | migrated =>
    cases hs
    exact works_of_moves (.single (.timers _ _ _ _ _))

theorem ordered_new (maxTailLossProbes longTermMtu : ℕ) :
    (new maxTailLossProbes longTermMtu).Ordered where
  accounts := accounts_new
  serviceable := ⟨nodup_nil, fun _ he => absurd he not_mem_nil⟩
  largest := le_rfl
  ready _ hp := absurd hp not_mem_nil
  order := Pairwise.nil
  secure hl := EncryptionLevel.noConfusion hl
  custody := custody_new _
  tagged := ⟨nodup_nil, fun _ hf => absurd hf not_mem_nil⟩

theorem ordered_run {maxTailLossProbes longTermMtu : ℕ} {es : List SenderEvent}
    (hr : run step (new maxTailLossProbes longTermMtu) es = some s) : s.Ordered :=
  run_inv (fun _ _ _ h hs => h.step hs) (ordered_new _ _) hr

/-! ## The results -/

theorem sum_crypto (l : List TransmissionInfo) : (l.map TransmissionInfo.crypto).sum =
    l.countP fun i => i.hasCryptoHandshake && !i.retransmittableFrames.isEmpty := by
  induction l with
  | nil => rfl
  | cons i l ih =>
    rw [map_cons, sum_cons, countP_cons, ih, add_comm]
    refine congrArg (Nat.add _) (if_congr ?_ rfl rfl)
    simp

/-- In every run of the sender: `bytes_in_flight_` is the sum over the packets in flight,
    `pending_crypto_packet_count_` counts the handshake packets with frames, links rise and stay in
    the map, so that chains end in it, and `RemoveObsoletePackets` drops nothing that is in flight
    or holds frames. -/
theorem accounting {maxTailLossProbes longTermMtu : ℕ} {es : List SenderEvent}
    (hr : run step (new maxTailLossProbes longTermMtu) es = some s) :
    let m := s.manager.unackedPackets
    m.bytesInFlight = (m.unackedPackets.items.map fun i => if i.inFlight then i.bytesSent else 0).sum ∧
    m.pendingCryptoPacketCount =
      m.unackedPackets.items.countP (fun i => i.hasCryptoHandshake && !i.retransmittableFrames.isEmpty) ∧
    (∀ p i, m.info? p = some i → i.retransmission ≠ 0 →
      p < i.retransmission ∧ i.retransmission ≤ m.largestSentPacket ∧ (m.info? i.retransmission).isSome) ∧
    (∀ p i, m.info? p = some i → ∃ t, Links.Leads m.next p t ∧ (m.info? t).isSome) ∧
    ∀ (m : UnackedPacketMap) p i, m.info? p = some i → i.inFlight = true ∨ i.retransmittableFrames ≠ [] →
      m.removeObsoletePackets.info? p = some i := by
  intro m
  have ha : Accounts m := (ordered_run hr).accounts
  refine ⟨ha.bytes, ?_, fun p i hi hne => ?_, fun p i hi => ?_,
    fun m p i hi hu => info?_removeObsoletePackets hi hu⟩
  · rw [← sum_crypto]
    exact ha.crypto
  · obtain ⟨hlt, hle⟩ := (ha.entry p i hi).link hne
    refine ⟨hlt, hle, Option.isSome_iff_exists.2 (Indexed.exists_get? ?_ ?_)⟩
    · exact (Indexed.lt_top hi).1.trans hlt.le
    · rw [ha.top]
      exact Nat.lt_succ_of_le hle
  · exact ⟨_, ha.leads_newest hi, Option.isSome_iff_exists.2 (ha.info_end hi (ha.leads_newest hi))⟩

/-- Two packets are sent, the first is lost and sent again as the third. -/
def lostOnce : List SenderEvent :=
  [.send ⟨[some 1], .none, 100, 0⟩ .sent, .send ⟨[some 5], .initial, 200, 0⟩ .sent,
    .ack ⟨PacketNumberQueue.empty.add 2⟩ [1], .writePendingRetransmission [] 90 .sent]

theorem accounting_lost : ∃ s, run step (new 2 1000) lostOnce = some s ∧
    s.manager.unackedPackets.bytesInFlight = 90 ∧
    s.manager.unackedPackets.bytesInFlight =
      (s.manager.unackedPackets.unackedPackets.items.map fun i => if i.inFlight then
        i.bytesSent else 0).sum := by
  obtain ⟨s, hs, hv⟩ := Option.map_eq_some_iff.1 (by decide +kernel : (run step (new 2 1000) lostOnce).map
    (fun s => s.manager.unackedPackets.bytesInFlight) = some 90)
  exact ⟨s, hs, hv, (accounting hs).1⟩

/-- A retransmission leaves the pending ones, unless it has to wait for the socket. -/
theorem Flushing.progress (type : TransmissionType) (outcome : WriteOutcome) (h : Flushing p s₀ s)
    (hf : s₀.manager.frames p ≠ []) (hi : s₀.manager.info? p = some i)
    (h₀ : s₀.Ordered) (hmtu : length ≤ s₀.longTermMtu) :
    (s.resend p type i length outcome).connected = false ∨
      (s.resend p type i length outcome).queuedPackets ≠ [] ∨
      (s.resend p type i length outcome).manager.pendingRetransmissions =
        s₀.manager.pendingRetransmissions.filter (·.1 ≠ p) := by
  have hready : s.manager.Ready (s.packetNumber + 1) (s.reserializeAllFrames p type i length) :=
    h.ready hf
  have hp0 : p ≠ 0 := ne_zero_of_frames h₀.accounts hf
  unfold PacketSender.resend PacketSender.sendOrQueuePacket
  split
  · exact .inr (.inl (append_ne_nil_of_right_ne_nil _ (cons_ne_nil _ _)))
  -- nothing is queued, so the packet is written at once
  have hlater : ¬ (s.reserializeAllFrames p type i length).packetNumber <
    (s.taken 0).manager.unackedPackets.largestSentPacket := not_lt.2 hready.later.le
  unfold writePacket
  rw [if_neg hlater]
  by_cases hc : s.connected = false
  · rw [if_pos (by simp [shouldDiscardPacket, taken, hc])]
    exact .inl hc
  have hkeep : (s.taken 0).shouldDiscardPacket (s.reserializeAllFrames p type i length) = false := by
    have hlevel : s.encryptionLevel = .forwardSecure →
        (s.reserializeAllFrames p type i length).encryptionLevel ≠ .none := by
      intro hl hn
      unfold reserializeAllFrames at hn
      split at hn
      · exact hf (h₀.secure (h.level ▸ hl) p i hi hn)
      · cases hn
    simp only [shouldDiscardPacket, taken, Bool.or_eq_false_iff, Bool.and_eq_false_iff]
    refine ⟨by simpa using hc, ?_⟩
    by_cases hl : s.encryptionLevel = .forwardSecure
    · exact .inr (decide_eq_false (hlevel hl))
    · exact .inl (decide_eq_false hl)
  rw [if_neg (by simp [hkeep])]
  cases outcome with
  | blocked => exact .inr (.inl (cons_ne_nil _ _))
  | failed => exact .inl rfl
  | messageTooBig =>
    have hfit : ¬ ((s.reserializeAllFrames p type i length).retransmittableFrames = [] ∧
        (s.taken 0).longTermMtu < (s.reserializeAllFrames p type i length).encryptedLength) := by
      rintro ⟨-, hlt⟩
      have hm := h.mtu
      change s.longTermMtu < length at hlt
      omega
    rw [if_neg hfit]
    exact .inl rfl
  | sent =>
    refine .inr (.inr ?_)
    refine (pending_onPacketSent.trans (if_pos hp0)).trans ?_
    exact congrArg (filter _) h.pending

theorem length_filter_lt {l : List (ℕ × TransmissionType)} (h : (p, type) ∈ l) :
    (l.filter (·.1 ≠ p)).length < l.length := by
  refine length_filter_lt_length_iff_exists.2 ⟨_, h, ?_⟩
  simp

/-- In every run of the sender: a packet that is pending is in the map, is the newest of its chain
    and holds frames, and none is pending twice.  So the next retransmission has frames, and a round
    of `WritePendingRetransmissions` takes one packet off, unless the socket blocks or the
    connection ends. -/
theorem retransmissions_serviceable {maxTailLossProbes longTermMtu : ℕ} {es : List SenderEvent}
    (hr : run step (new maxTailLossProbes longTermMtu) es = some s) :
    (∀ e ∈ s.manager.pendingRetransmissions, ∃ i, s.manager.info? e.1 = some i ∧
      s.manager.unackedPackets.newestRetransmission e.1 = e.1 ∧ i.retransmittableFrames ≠ []) ∧
    (s.manager.pendingRetransmissions.map Prod.fst).Nodup ∧
    (s.manager.pendingRetransmissions ≠ [] → ∃ p type i,
      s.manager.nextPendingRetransmission = some (p, type, i) ∧
      (p, type) ∈ s.manager.pendingRetransmissions ∧ i.retransmittableFrames ≠ []) ∧
    (s.connected = true → s.queuedPackets = [] → s.manager.pendingRetransmissions ≠ [] →
      ∀ flushed length outcome, length ≤ s.longTermMtu →
        ∃ s', s.step (.writePendingRetransmission flushed length outcome) = some s' ∧
          (s'.connected = false ∨ s'.queuedPackets ≠ [] ∨
            s'.manager.pendingRetransmissions.length < s.manager.pendingRetransmissions.length)) := by
  have h := ordered_run hr
  have hserv := h.serviceable
  refine ⟨fun e he => ?_, hserv.nodup, fun hne => ?_, fun hc hq hne flushed length outcome hmtu => ?_⟩
  · have hf := hserv.frames e he
    cases hi : s.manager.info? e.1 with
    | none => exact absurd (UnackedPacketMap.frames_of_none hi) hf
    | some i => exact ⟨i, rfl, newest_of_frames h.accounts hf, SentPacketManager.frames_of_info hi ▸ hf⟩
  · obtain ⟨p, type, i, hn⟩ := hserv.exists_next hne
    obtain ⟨hmem, hi⟩ := pending_of_next hn
    exact ⟨p, type, i, hn, hmem, SentPacketManager.frames_of_info hi ▸ hserv.frames _ hmem⟩
  · obtain ⟨p, type, i, hn⟩ := hserv.exists_next hne
    obtain ⟨hmem, hi⟩ := pending_of_next hn
    have hf := hserv.frames _ hmem
    have hflush : Flushing p s s := ⟨h, fun a ha => absurd (hq ▸ ha) not_mem_nil, rfl, rfl, rfl, rfl⟩
    refine ⟨(flushed.foldl (fun s e => s.send e.1 e.2) s).resend p type i length outcome, ?_, ?_⟩
    · unfold step
      rw [if_pos hc]
      dsimp only
      rw [if_pos ⟨hq, hmtu⟩, writePendingRetransmission, hn]
      rfl
    · rcases (hflush.foldl flushed hf).progress type outcome hf hi h hmtu with hd | hqn | hp
      · exact .inl hd
      · exact .inr (.inl hqn)
      · refine .inr (.inr ?_)
        rw [hp]
        exact length_filter_lt hmem

/-- The lost packet waits for its retransmission. -/
theorem retransmissions_serviceable_lost : ∃ s, run step (new 2 1000) (lostOnce.take 3) = some s ∧
    s.manager.pendingRetransmissions = [(1, .lossRetransmission)] ∧
    ∃ p type i, s.manager.nextPendingRetransmission = some (p, type, i) ∧
      (p, type) ∈ s.manager.pendingRetransmissions ∧ i.retransmittableFrames ≠ [] := by
  obtain ⟨s, hs, hv⟩ :=
    Option.map_eq_some_iff.1 (by decide +kernel : (run step (new 2 1000) (lostOnce.take 3)).map
    (fun s => s.manager.pendingRetransmissions) = some [(1, .lossRetransmission)])
  exact ⟨s, hs, hv, (retransmissions_serviceable hs).2.2.1 (hv ▸ cons_ne_nil _ _)⟩

end PacketSender

end Puic
