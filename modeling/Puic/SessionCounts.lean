/-
  The bookkeeping of a server's streams.

  The counters of a session are the sizes of the sets they count (`StreamCounts.Exact`),
  an id is in one class only, and an id that was closed is closed for good.  All of
  this rests on ids being given out once.  The handshake breaks that: it sets
  `largest_peer_created_stream_id_` to that of the preset stream, whatever it was
  (`largest_decreases`).  `bookkeeping_exact` is the theorem for the runs in which it
  was not greater.
-/
import Puic.SessionSteps

namespace Puic

open Finset

variable {id k : ℕ}

theorem sizeSub_eq {a b : ℕ} (h : b ≤ a) (ha : a < 2 ^ 64) : sizeSub a b = a - b := by
  unfold sizeSub
  omega

/-- How many ids of the set are of streams that the client opens. -/
def oddCard (ids : Finset ℕ) : ℕ := (ids.filter fun id => id % 2 = 1).card

theorem oddCard_insert {ids : Finset ℕ} (h : id ∉ ids) :
    oddCard (insert id ids) = oddCard ids + if id % 2 = 1 then 1 else 0 := by
  rw [oddCard, filter_insert]
  split
  · exact card_insert_of_notMem fun hm => h (mem_filter.1 hm).1
  · rfl

theorem oddCard_erase {ids : Finset ℕ} (h : id ∈ ids) :
    oddCard (ids.erase id) + (if id % 2 = 1 then 1 else 0) = oddCard ids := by
  conv_rhs => rw [← insert_erase h, oddCard_insert (notMem_erase id ids)]

theorem oddCard_le_card (ids : Finset ℕ) : oddCard ids ≤ ids.card := card_filter_le ..

theorem oddCard_mono {ids ids' : Finset ℕ} (h : ids ⊆ ids') : oddCard ids ≤ oddCard ids' :=
  card_le_card (filter_subset_filter _ h)

theorem card_sub_oddCard_mono {ids ids' : Finset ℕ} (h : ids ⊆ ids') :
    ids.card - oddCard ids ≤ ids'.card - oddCard ids' := by
  have hcard : ∀ S : Finset ℕ, S.card - oddCard S = (S.filter fun id => ¬id % 2 = 1).card := by
    intro S
    have := card_filter_add_card_filter_not (s := S) (fun id => id % 2 = 1)
    rw [oddCard]
    omega
  rw [hcard, hcard]
  exact card_le_card (filter_subset_filter _ h)

theorem oddCard_lt {ids : Finset ℕ} (h : ∀ id ∈ ids, id % 2 = 1 → id < 2 ^ 32) :
    oddCard ids ≤ 2 ^ 32 := by
  have hsub : (ids.filter fun id => id % 2 = 1) ⊆ range (2 ^ 32) := fun id hid =>
    mem_range.2 (h id (mem_filter.1 hid).1 (mem_filter.1 hid).2)
  simpa [oddCard] using card_le_card hsub

/-! ## The counters -/

/-- The counters, for the set of open streams. -/
structure StreamCounts.Exact (c : StreamCounts) (ids : Finset ℕ) : Prop where
  dynamic : c.numDynamicIncoming = oddCard ids
  draining : c.numDrainingIncoming = oddCard c.drainingStreams
  locallyClosed : c.numLocallyClosedIncoming = oddCard c.locallyClosed
  draining_open : c.drainingStreams ⊆ ids
  lt : ∀ id ∈ ids ∪ c.locallyClosed, id % 2 = 1 → id < 2 ^ 32

namespace StreamCounts.Exact

variable {c : StreamCounts} {ids : Finset ℕ}

theorem dynamic_lt (h : c.Exact ids) : c.numDynamicIncoming < 2 ^ 64 := by
  have := oddCard_lt fun id hid => h.lt id (mem_union_left _ hid)
  rw [h.dynamic]; omega

theorem draining_le (h : c.Exact ids) : c.numDrainingIncoming ≤ c.numDynamicIncoming := by
  rw [h.draining, h.dynamic]
  exact oddCard_mono h.draining_open

theorem locallyClosed_lt (h : c.Exact ids) : c.numLocallyClosedIncoming ≤ 2 ^ 32 := by
  rw [h.locallyClosed]
  exact oddCard_lt fun id hid => h.lt id (mem_union_right _ hid)

theorem close (h : c.Exact ids) (hid : id ∈ ids) (hl : id ∉ c.locallyClosed) (final : Bool) :
    (c.close id (decide (id % 2 = 1)) final).Exact (ids.erase id) := by
  have hd := oddCard_erase hid
  have hlt := h.dynamic_lt
  have hle := h.draining_le
  refine ⟨?_, ?_, ?_, erase_subset_erase id h.draining_open, ?_⟩
  · simp only [StreamCounts.close, decide_eq_true_eq]
    split
    · next ho =>
      rw [if_pos ho, ← h.dynamic] at hd
      rw [sizeSub_eq (by omega) hlt]; omega
    · next ho => rw [if_neg ho, ← h.dynamic] at hd; omega
  · simp only [StreamCounts.close, decide_eq_true_eq]
    by_cases hdr : id ∈ c.drainingStreams
    · have hd' := oddCard_erase hdr
      rw [← h.draining] at hd'
      split
      · next ho =>
        rw [if_pos ho.2] at hd'
        rw [sizeSub_eq (by omega) (by omega)]; omega
      · next ho => rw [if_neg fun h => ho ⟨hdr, h⟩] at hd'; omega
    · rw [if_neg fun h => hdr h.1, erase_eq_of_notMem hdr, h.draining]
  · simp only [StreamCounts.close, decide_eq_true_eq]
    cases final
    · simp only [Bool.false_eq_true, if_false]
      rw [oddCard_insert hl, h.locallyClosed]
    · exact h.locallyClosed
  · intro k hk
    refine h.lt k ?_
    simp only [StreamCounts.close] at hk
    rcases mem_union.1 hk with hk | hk
    · exact mem_union_left _ (mem_of_mem_erase hk)
    · split at hk
      · exact mem_union_right _ hk
      · rcases mem_insert.1 hk with rfl | hk
        · exact mem_union_left _ hid
        · exact mem_union_right _ hk

end StreamCounts.Exact

namespace Session

variable {s t : Session} {st st' : Stream} {l : Label}

/-- The ids of the open streams. -/
def openIds (s : Session) : Finset ℕ := s.dynamicStreams.keys.toFinset

theorem mem_openIds : id ∈ s.openIds ↔ s.isDynamic id = true := by
  rw [openIds, List.mem_toFinset, ← AList.mem_keys, ← AList.lookup_isSome]
  rfl

theorem card_openIds : s.openIds.card = s.dynamicStreams.keys.length :=
  List.toFinset_card_of_nodup s.dynamicStreams.keys_nodup

theorem openIds_of_isDynamic (h : ∀ k, t.isDynamic k = true ↔ s.isDynamic k = true) :
    t.openIds = s.openIds := by
  ext k; rw [mem_openIds, mem_openIds, h]

theorem openIds_setOpen (h : s.dynamicStreams.lookup id = some st) :
    (s.setOpen id st').openIds = s.openIds := by
  refine openIds_of_isDynamic fun k => isDynamic_setOpen.trans (or_iff_right_of_imp ?_)
  rintro rfl
  exact isDynamic_iff.2 ⟨st, h⟩

theorem openIds_opened {priority : Fin 8} : (s.opened id priority).openIds = insert id s.openIds := by
  ext k; rw [mem_openIds, opened_isDynamic, mem_insert, mem_openIds]

variable {st'' : Stream} {hd : Handle} {a : SessionAct} {as : List SessionAct}

theorem openIds_closes (h : s.dynamicStreams.lookup id = some st)
    (hc : (s.setOpen id st').Closes id st'' t) : t.openIds = s.openIds.erase id := by
  ext k
  rw [mem_openIds, mem_erase, mem_openIds]
  rcases eq_or_ne k id with rfl | hne
  · simp [isDynamic, hc.dynamic, AList.lookup_erase]
  · simp [isDynamic, hc.dynamic, AList.lookup_erase_ne hne, lookup_setOpen_ne hne, hne]

theorem isIncomingStream_server (hs : s.Sound) (hsv : s.server = true) :
    s.isIncomingStream id = decide (id % 2 = 1) := by
  have hp := hs.parity.1
  rw [hsv, if_pos rfl] at hp
  rw [Bool.eq_iff_iff, isIncomingStream_iff, hp, decide_eq_true_eq]
  omega

/-- What the bookkeeping of a server rests on. -/
structure Exact (s : Session) : Prop where
  server : s.server = true
  counts : s.toStreamCounts.Exact s.openIds
  /-- an open id was given out and is not offered again -/
  retired : ∀ id, s.isDynamic id = true → s.isRetired id = true
  locallyClosed : ∀ id ∈ s.locallyClosed, s.isRetired id = true ∧ s.isDynamic id = false
  early : s.confirmed = false → s.locallyClosed = ∅
  available : ∀ id ∈ s.availableStreams, 1 < id ∧ id < s.largestPeerCreatedStreamId
  largest : 1 ≤ s.largestPeerCreatedStreamId

theorem exact_init (maxIncoming maxOutgoing window : ℕ) :
    (init true maxIncoming maxOutgoing window).Exact where
  server := rfl
  counts := ⟨rfl, rfl, rfl, fun _ h => absurd h (notMem_empty _), fun _ h => by
    simp [init, openIds] at h⟩
  retired _ h := nomatch h
  locallyClosed _ h := absurd h (notMem_empty _)
  early _ := rfl
  available _ h := absurd h (notMem_empty _)
  largest := Nat.le_refl 1

/-- At a handshake that does not lower the largest id, no id is available. -/
theorem Exact.available_empty (h : s.Exact) (hs : s.Sound)
    (hle : s.largestPeerCreatedStreamId ≤ kPresetStreamId) (hid : id ∈ s.availableStreams) :
    False := by
  obtain ⟨h₁, h₂⟩ := h.available id hid
  have hp := hs.parity.1
  have hp' := (hs.available id hid).2
  rw [h.server, if_pos rfl] at hp
  rw [kPresetStreamId] at hle
  omega

/-- **What was closed stays closed.** -/
theorem Move.isRetired (hm : Move s l t) (hs : s.Sound) (hserver : s.server = true)
    (hl : l = .handshake → s.confirmed = false → s.largestPeerCreatedStreamId ≤ kPresetStreamId)
    (hk : s.isRetired k = true) : t.isRetired k = true := by
  rcases hm.ids_cases hs with hi | ⟨id, -, -, hi⟩ | ⟨id, -, -, hi⟩ | ⟨-, n, hi⟩ | ⟨-, -, -, b, hi⟩ |
    ⟨hd, hc, -, hi⟩ | ⟨-, -, hsv, -⟩
  · rw [hi]; exact hk
  · rw [hi]; exact isRetired_offered hk
  · rw [hi]; exact @isRetired_offered s id k hk
  · rw [hi]; exact isRetired_drawn hk
  · rw [hi]; exact hk
  · have hle := hl hd hc
    rw [hi]
    rw [StreamIds.isRetired_iff] at hk ⊢
    exact hk.imp_right fun ⟨h₁, h₂, h₃⟩ => ⟨h₁, h₂.trans hle, h₃⟩
  · exact absurd (hsv.symm.trans hserver) Bool.false_ne_true

theorem Move.largest_le (hm : Move s l t) (hs : s.Sound)
    (hl : l = .handshake → s.confirmed = false → s.largestPeerCreatedStreamId ≤ kPresetStreamId) :
    s.largestPeerCreatedStreamId ≤ t.largestPeerCreatedStreamId := by
  rcases hm.ids_cases hs with hi | ⟨id, -, -, hi⟩ | ⟨id, -, -, hi⟩ | ⟨-, n, hi⟩ | ⟨-, -, -, b, hi⟩ |
    ⟨hd, hc, -, hi⟩ | ⟨-, -, -, hi⟩ <;> rw [hi]
  · exact Nat.le_max_left _ _
  · exact Nat.le_max_left _ _
  · exact hl hd hc

/-! ## Every move keeps the books -/

theorem Exact.of_same (h : s.Exact) (hids : t.toStreamIds = s.toStreamIds)
    (hc : t.toStreamCounts = s.toStreamCounts) (hd : t.openIds = s.openIds) : t.Exact := by
  have hk : ∀ k, t.isDynamic k = s.isDynamic k := fun k => by
    rw [Bool.eq_iff_iff, ← mem_openIds, hd, mem_openIds]
  refine ⟨by rw [hids]; exact h.server, by rw [hc, hd]; exact h.counts, fun id hid => ?_,
    fun id hid => ?_, ?_, ?_, ?_⟩
  · rw [hids]; exact h.retired id (hk id ▸ hid)
  · rw [hc] at hid
    rw [hids, hk]; exact h.locallyClosed id hid
  · rw [hids, hc]; exact h.early
  · rw [hids]; exact h.available
  · rw [hids]; exact h.largest

theorem Exact.closes (h : s.Exact) (hs : s.Sound) (hst : s.dynamicStreams.lookup id = some st)
    (hc : (s.setOpen id st').Closes id st'' t) : t.Exact := by
  have hids : t.toStreamIds = s.toStreamIds := hc.ids
  have hopen := openIds_closes hst hc
  have hd : s.isDynamic id = true := isDynamic_iff.2 ⟨st, hst⟩
  have hl : id ∉ s.locallyClosed := fun hm => by
    rw [(h.locallyClosed id hm).2] at hd; cases hd
  have hcounts : t.toStreamCounts = s.toStreamCounts.close id (decide (id % 2 = 1))
      st''.hasFinalReceivedByteOffset :=
    isIncomingStream_server hs h.server ▸ hc.counts
  have hk : ∀ k, t.isDynamic k = true ↔ k ≠ id ∧ s.isDynamic k = true := fun k => by
    rw [← mem_openIds, hopen, mem_erase, mem_openIds]
  refine ⟨by rw [hids]; exact h.server, ?_, fun k hk' => ?_, fun k hk' => ?_, fun hcf => ?_,
    by rw [hids]; exact h.available, by rw [hids]; exact h.largest⟩
  · rw [hcounts, hopen]
    exact h.counts.close (mem_openIds.2 hd) hl _
  · rw [hids]; exact h.retired k ((hk k).1 hk').2
  · rw [hcounts, StreamCounts.close] at hk'
    rw [hids, ← Bool.not_eq_true, hk]
    split at hk'
    · obtain ⟨h₁, h₂⟩ := h.locallyClosed k hk'
      exact ⟨h₁, fun hd => by rw [hd.2] at h₂; cases h₂⟩
    · rcases mem_insert.1 hk' with rfl | hk'
      · exact ⟨h.retired k hd, fun hd => hd.1 rfl⟩
      · obtain ⟨h₁, h₂⟩ := h.locallyClosed k hk'
        exact ⟨h₁, fun hd => by rw [hd.2] at h₂; cases h₂⟩
  · rw [hids] at hcf
    exact absurd (.inl hd) ((hs.early_of_unconfirmed h.server hcf).1 id)

theorem Exact.drain (h : s.Exact) (hs : s.Sound) (hst : s.dynamicStreams.lookup id = some st) :
    (s.streamDraining id).Exact := by
  unfold streamDraining
  split
  · exact h
  next hn =>
  refine ⟨h.server, ⟨h.counts.dynamic, ?_, h.counts.locallyClosed, ?_, h.counts.lt⟩, h.retired,
    h.locallyClosed, h.early, h.available, h.largest⟩
  · simp only [isIncomingStream_server hs h.server, decide_eq_true_eq]
    rw [oddCard_insert hn, h.counts.draining]
  · exact insert_subset (mem_openIds.2 (isDynamic_iff.2 ⟨st, hst⟩)) h.counts.draining_open

theorem Exact.final (h : s.Exact) (hs : s.Sound) (id : ℕ) : (s.onFinalByteOffsetReceived id).Exact := by
  unfold onFinalByteOffsetReceived
  split
  swap
  · exact h
  next hm =>
  refine ⟨h.server, ⟨h.counts.dynamic, h.counts.draining, ?_, h.counts.draining_open, ?_⟩, h.retired,
    fun k hk => h.locallyClosed k (mem_of_mem_erase hk), fun hc => ?_, h.available, h.largest⟩
  · have hc := oddCard_erase hm
    have hlt := h.counts.locallyClosed_lt
    simp only [isIncomingStream_server hs h.server, decide_eq_true_eq]
    rw [← h.counts.locallyClosed] at hc
    split
    · next ho =>
      rw [if_pos ho] at hc
      rw [sizeSub_eq (by omega) (by omega)]; omega
    · next ho => rw [if_neg ho] at hc; omega
  · intro k hk
    refine h.counts.lt k ?_
    rcases mem_union.1 hk with hk | hk
    · exact mem_union_left _ hk
    · exact mem_union_right _ (mem_of_mem_erase hk)
  · rw [show _ = (∅ : Finset ℕ) from h.early hc] at hm
    exact absurd hm (notMem_empty _)

theorem Exact.offered (h : s.Exact) (id : ℕ) : (s.offered id).Exact := by
  refine ⟨h.server, h.counts, fun k hk => isRetired_offered (h.retired k hk), fun k hk => ?_,
    h.early, fun k hk => ?_, h.largest.trans (Nat.le_max_left _ _)⟩
  · obtain ⟨h₁, h₂⟩ := h.locallyClosed k hk
    exact ⟨isRetired_offered h₁, h₂⟩
  · have hl := h.largest
    rcases (mem_available_offered hk).2 with hk | ⟨h₁, h₂, -⟩
    · obtain ⟨h₁, h₂⟩ := h.available k hk
      exact ⟨h₁, h₂.trans_le (Nat.le_max_left _ _)⟩
    · exact ⟨by omega, h₂.trans_le (Nat.le_max_right _ _)⟩

theorem Exact.drawn (h : s.Exact) : s.drawn.Exact := by
  refine ⟨h.server, h.counts, fun k hk => isRetired_drawn (h.retired k hk), fun k hk => ?_,
    h.early, h.available, h.largest⟩
  obtain ⟨h₁, h₂⟩ := h.locallyClosed k hk
  exact ⟨isRetired_drawn h₁, h₂⟩

theorem Exact.opened (h : s.Exact) (hs : s.Sound) (hd : s.isDynamic id = false)
    (hr : s.isRetired id = true) (hl : id ∉ s.locallyClosed) (hlt : id % 2 = 1 → id < 2 ^ 32)
    (priority : Fin 8) : (s.opened id priority).Exact := by
  have hid : id ∉ s.openIds := fun hm => by rw [mem_openIds.1 hm] at hd; cases hd
  refine ⟨h.server, ?_, fun k hk => ?_, fun k hk => ?_, h.early, h.available, h.largest⟩
  · rw [openIds_opened]
    refine ⟨?_, h.counts.draining, h.counts.locallyClosed,
      h.counts.draining_open.trans (subset_insert id _), fun k hk => ?_⟩
    · have hi : (({ s with writeBlocked := s.writeBlocked.registerStream id priority } :
          Session).isIncomingStream id) = decide (id % 2 = 1) :=
        (isIncomingStream_server hs h.server : s.isIncomingStream id = _)
      simp only [Session.opened, activateStream, hi, decide_eq_true_eq]
      rw [oddCard_insert hid, h.counts.dynamic]
    · rw [insert_union] at hk
      rcases mem_insert.1 hk with rfl | hk
      · exact hlt
      · exact h.counts.lt k hk
  · rcases opened_isDynamic.1 hk with rfl | hk
    · exact hr
    · exact h.retired k hk
  · obtain ⟨h₁, h₂⟩ := h.locallyClosed k hk
    refine ⟨h₁, Bool.eq_false_iff.2 fun hdk => ?_⟩
    rcases opened_isDynamic.1 hdk with rfl | hdk
    · exact hl hk
    · rw [hdk] at h₂; cases h₂

theorem Exact.confirmServer (h : s.Exact) (hs : s.Sound) (hc : s.confirmed = false)
    (hle : s.largestPeerCreatedStreamId ≤ kPresetStreamId) : s.confirmServer.Exact := by
  have hnd : ∀ k, s.isDynamic k ≠ true := fun k hk =>
    (hs.early_of_unconfirmed h.server hc).1 k (.inl hk)
  refine ⟨h.server, h.counts, fun k hk => absurd hk (hnd k), fun k hk => ?_, nofun,
    fun k hk => (h.available_empty hs hle hk).elim, (by decide : 1 ≤ kPresetStreamId)⟩
  rw [show s.confirmServer.locallyClosed = ∅ from h.early hc] at hk
  exact absurd hk (notMem_empty _)

theorem openIds_setDelegate : (s.setDelegate hd).openIds = s.openIds := by
  unfold setDelegate
  split
  · rfl
  · next st hst => exact openIds_setOpen hst

theorem setDelegate_counts : (s.setDelegate hd).toStreamCounts = s.toStreamCounts := by
  unfold setDelegate
  split <;> rfl

theorem Exact.handshake (h : s.Exact) (hs : s.Sound) (hc : s.confirmed = false)
    (hle : s.largestPeerCreatedStreamId ≤ kPresetStreamId) : s.handshakeConfirmed.Exact := by
  have hcs := h.confirmServer hs hc hle
  have hnd : s.isDynamic kPresetStreamId = false := Bool.eq_false_iff.2 fun hk =>
    (hs.early_of_unconfirmed h.server hc).1 _ (.inl hk)
  have hr : s.confirmServer.isRetired kPresetStreamId = true := by
    have hp := hs.parity.1
    rw [h.server, if_pos rfl] at hp
    rw [StreamIds.isRetired_iff]
    refine .inr ⟨?_, Nat.le_refl _, fun hm => h.available_empty hs hle hm⟩
    rw [show s.confirmServer.nextOutgoingStreamId = s.nextOutgoingStreamId from rfl, hp]
    decide
  have hl : kPresetStreamId ∉ s.confirmServer.locallyClosed := by
    rw [show s.confirmServer.locallyClosed = ∅ from h.early hc]
    exact notMem_empty _
  have ho := hcs.opened (hs.confirmServer h.server hc) hnd hr hl (fun _ => by decide) kHighestPriority
  rw [handshakeConfirmed_server hs h.server hc]
  have hp : ((s.confirmServer.opened kPresetStreamId kHighestPriority).withPreset
      ⟨kPresetStreamId, s.nextObj⟩).Exact :=
    ⟨ho.server, ho.counts, ho.retired, ho.locallyClosed, ho.early, ho.available, ho.largest⟩
  exact hp.of_same setDelegate_ids setDelegate_counts openIds_setDelegate

theorem Move.exact (hm : Move s l t) (hs : s.Sound)
    (hl : l = .handshake → s.confirmed = false → s.largestPeerCreatedStreamId ≤ kPresetStreamId)
    (h : s.Exact) : t.Exact := by
  cases hm with
  | quiet hq =>
    refine h.of_same (congrArg (·.toStreamIds) hq.table) (congrArg (·.toStreamCounts) hq.table) ?_
    have hd : t.dynamicStreams = s.dynamicStreams := congrArg (·.dynamicStreams) hq.table
    rw [openIds, hd, openIds]
  | update hst hu _ => exact h.of_same rfl rfl (openIds_setOpen hst)
  | close hst hu => exact h.closes hs hst (closeStream_closes (hs.ne_crypto hst) lookup_setOpen).1
  | reset hst =>
    obtain ⟨st', -, hc, -⟩ := resetOpen_closes hs hst
    exact h.closes hs hst hc
  | zombie | call | postProcess | flush => exact h.of_same rfl rfl rfl
  | drain hst => exact h.drain hs hst
  | done => unfold onStreamDoneWaitingForAcks; split <;> exact h.of_same rfl rfl rfl
  | final id => exact h.final hs id
  | offer => exact h.offered _
  | @create id ho he =>
    rw [createIncomingDynamicStream_eq ho]
    refine (h.offered id).opened (hs.offered ho) ho.notDynamic (isRetired_offered_self ho)
      (fun hm => ?_) (fun _ => ho.lt) _
    have hr := (h.locallyClosed id hm).1
    rw [ho.notRetired] at hr; cases hr
  | draw priority =>
    cases he : s.established
    · rw [createOutgoingDynamicStream, if_neg (by simp [he])]
      exact h.drawn
    · rw [createOutgoingDynamicStream_eq hs he]
      have hp := hs.parity.1
      rw [h.server, if_pos rfl] at hp
      refine h.drawn.opened hs.drawn (Bool.eq_false_iff.2 fun hd => hs.not_held_next (.inl hd)) ?_
        (fun hm => ?_) (fun ho => by omega) _
      · rw [StreamIds.isRetired_iff]
        exact .inl ⟨by simp [Session.drawn], by simp [Session.drawn]⟩
      · rcases StreamIds.isRetired_iff.1 (h.locallyClosed _ hm).1 with ⟨-, hlt⟩ | ⟨hne, -⟩
        · exact absurd hlt (Nat.lt_irrefl _)
        · exact hne rfl
  | encryption b hsv => exact absurd (hsv.symm.trans h.server) Bool.false_ne_true
  | handshake hc he => exact h.handshake hs hc (hl rfl hc)

/-! ## No id is used twice -/

/-- A stream that is open and was not had an id that was never given out. -/
theorem Move.isDynamic_or (hm : Move s l t) (hs : s.Sound) (hc : s.confirmed = true)
    (hk : t.isDynamic k = true) : s.isDynamic k = true ∨ s.isRetired k = false := by
  cases hm with
  | quiet hq => exact .inl ((hq.shrinks hs).isDynamic hk)
  | update h hu hd => exact .inl ((shrinks_update hs h hu.later hu.idle hd).isDynamic hk)
  | close h _ => exact .inl ((shrinks_close hs h).isDynamic hk)
  | reset h => exact .inl ((shrinks_reset hs h).isDynamic hk)
  | done id => exact .inl ((shrinks_done hs id).isDynamic hk)
  | zombie | call | postProcess | flush | offer | encryption => exact .inl hk
  | drain => unfold streamDraining at hk; split at hk <;> exact .inl hk
  | final => unfold onFinalByteOffsetReceived at hk; split at hk <;> exact .inl hk
  | create ho he =>
    rw [createIncomingDynamicStream_eq ho] at hk
    rcases opened_isDynamic.1 hk with rfl | hk
    · exact .inr ho.notRetired
    · exact .inl hk
  | draw priority =>
    cases he : s.established
    · rw [createOutgoingDynamicStream, if_neg (by simp [he])] at hk
      exact .inl hk
    · rw [createOutgoingDynamicStream_eq hs he] at hk
      rcases opened_isDynamic.1 hk with rfl | hk
      · refine .inr (Bool.eq_false_iff.2 fun hr => ?_)
        rcases StreamIds.isRetired_iff.1 hr with ⟨-, hlt⟩ | ⟨hne, -⟩
        · exact absurd hlt (Nat.lt_irrefl _)
        · exact hne rfl
      · exact .inl hk
  | handshake hcf _ => exact absurd (hcf.symm.trans hc) Bool.false_ne_true

/-- The id was given out; after the handshake this is for good. -/
structure Spent (s : Session) (id : ℕ) : Prop where
  sound : s.Sound
  server : s.server = true
  confirmed : s.confirmed = true
  retired : s.isRetired id = true

theorem Move.spent (hm : Move s l t) (h : s.Spent id) : t.Spent id := by
  obtain ⟨hs, hsv, hc, hr⟩ := h
  have hids : t.server = s.server ∧ (s.confirmed = true → t.confirmed = true) := by
    rcases hm.ids_cases hs with hi | ⟨id, -, -, hi⟩ | ⟨id, -, -, hi⟩ | ⟨-, n, hi⟩ |
      ⟨-, -, -, b, hi⟩ | ⟨-, hcf, -⟩ | ⟨-, hcf, -⟩
    · rw [hi]; exact ⟨rfl, fun h => h⟩
    · rw [hi]; exact ⟨rfl, fun h => h⟩
    · rw [hi]; exact ⟨rfl, fun h => h⟩
    · rw [hi]; exact ⟨rfl, fun h => h⟩
    · rw [hi]; exact ⟨rfl, fun h => h⟩
    · exact absurd (hcf.symm.trans hc) Bool.false_ne_true
    · exact absurd (hcf.symm.trans hc) Bool.false_ne_true
  refine ⟨hm.sound hs, hids.1.trans hsv, hids.2 hc, hm.isRetired hs hsv (fun _ hcf => ?_) hr⟩
  exact absurd (hcf.symm.trans hc) Bool.false_ne_true

theorem step_spent (hstep : s.step a = some t) (h : s.Spent id) :
    t.Spent id ∧ (s.isDynamic id = false → t.isDynamic id = false) := by
  refine (step_moves h.sound hstep).keeps
    (I := fun u => u.Spent id ∧ (s.isDynamic id = false → u.isDynamic id = false))
    (fun u l v _ hm ⟨hu, hd⟩ => ⟨hm.spent hu, fun hn => ?_⟩) ⟨h, fun hn => hn⟩
  refine Bool.eq_false_iff.2 fun hv => ?_
  rcases hm.isDynamic_or hu.sound hu.confirmed hv with hk | hk
  · rw [hd hn] at hk; cases hk
  · rw [hu.retired] at hk; cases hk

theorem run_spent (h : s.Spent id)
    (hrun : Machine.run step s as = some t) :
    t.Spent id ∧ (s.isDynamic id = false → t.isDynamic id = false) :=
  Machine.run_inv (I := fun u => u.Spent id ∧ (s.isDynamic id = false → u.isDynamic id = false))
    (fun _ _ _ hI hs => ⟨(step_spent hs hI.1).1, fun hn => (step_spent hs hI.1).2 (hI.2 hn)⟩)
    ⟨h, fun hn => hn⟩ hrun

/-! ## Every run -/

/-- The handshake finds no greater id of the peer than that of the preset stream. -/
def OrderlyHandshake (s : Session) (a : SessionAct) : Prop :=
  a = .handshake → s.largestPeerCreatedStreamId ≤ kPresetStreamId

theorem step_exact (hs : s.Sound) (hstep : s.step a = some t)
    (ha : s.OrderlyHandshake a) (h : s.Exact) :
    t.Exact ∧ s.largestPeerCreatedStreamId ≤ t.largestPeerCreatedStreamId := by
  by_cases he : a = .handshake
  · subst he
    have hle := ha rfl
    unfold step at hstep
    split at hstep
    · dsimp only at hstep
      split at hstep
      · cases hstep
      next hn =>
      rw [not_or, Bool.not_eq_true] at hn
      cases hstep
      have hm : Move s .handshake s.handshakeConfirmed :=
        .handshake hn.1 fun hsv => absurd (hsv.symm.trans h.server) Bool.false_ne_true
      exact ⟨h.handshake hs hn.1 hle, hm.largest_le hs fun _ _ => hle⟩
    · cases hstep
  · have hl : ∀ l, l = .inner ∨ l ∈ s.labels a → l ≠ .handshake := by
      rintro l hl rfl
      exact he (hl.resolve_left fun h => nomatch h)
    exact ((step_moves hs hstep).keeps (I := fun u => u.Sound ∧ u.Exact ∧
      s.largestPeerCreatedStreamId ≤ u.largestPeerCreatedStreamId)
      (fun u l v hl' hm ⟨hu, hx, hle⟩ =>
        ⟨hm.sound hu, hm.exact hu (fun h => absurd h (hl l hl')) hx,
          hle.trans (hm.largest_le hu fun h => absurd h (hl l hl'))⟩)
      ⟨hs, h, Nat.le_refl _⟩).2

theorem run_exact (hs : s.Sound) (h : s.Exact)
    (hC : Machine.Along step OrderlyHandshake s as) (hrun : Machine.run step s as = some t) :
    t.Sound ∧ t.Exact ∧ s.largestPeerCreatedStreamId ≤ t.largestPeerCreatedStreamId :=
  Machine.run_inv_along (I := fun u => u.Sound ∧ u.Exact ∧
      s.largestPeerCreatedStreamId ≤ u.largestPeerCreatedStreamId)
    (fun _ _ _ ⟨hu, hx, hle⟩ ha hs => ⟨step_sound hu hs, (step_exact hu hs ha hx).1,
      hle.trans (step_exact hu hs ha hx).2⟩)
    ⟨hs, h, Nat.le_refl _⟩ hC hrun

theorem Exact.classes (h : s.Exact) (hid : id ≠ kCryptoStreamId)
    (hin : s.isIncomingStream id = true) (hle : id ≤ s.largestPeerCreatedStreamId) :
    (s.isDynamic id = true ∧ id ∉ s.availableStreams ∧ s.isClosedStream id = false) ∨
    (s.isDynamic id = false ∧ id ∈ s.availableStreams ∧ s.isClosedStream id = false) ∨
    (s.isDynamic id = false ∧ id ∉ s.availableStreams ∧ s.isClosedStream id = true) := by
  have hp := isIncomingStream_iff.1 hin
  have hret : s.isRetired id = true ↔ id ∉ s.availableStreams := by
    rw [StreamIds.isRetired_iff]
    exact ⟨fun h => h.elim (fun h => absurd h.1 hp) fun h => h.2.2, fun h => .inr ⟨hp, hle, h⟩⟩
  have hcl : s.isClosedStream id = true ↔ s.isDynamic id = false ∧ id ∉ s.availableStreams := by
    rw [isClosedStream_iff, isOpenStream_eq hid, hret]
  cases hd : s.isDynamic id
  · right
    by_cases hav : id ∈ s.availableStreams
    · exact .inl ⟨rfl, hav, Bool.eq_false_iff.2 fun hc => (hcl.1 hc).2 hav⟩
    · exact .inr ⟨rfl, hav, hcl.2 ⟨hd, hav⟩⟩
  · refine .inl ⟨rfl, hret.1 (h.retired id hd), Bool.eq_false_iff.2 fun hc => ?_⟩
    exact absurd (hd.symm.trans (hcl.1 hc).1) Bool.noConfusion

theorem Exact.oddCard_eq (h : s.Exact) (hs : s.Sound) (ids : Finset ℕ) :
    (ids.filter fun id => s.isIncomingStream id = true).card = oddCard ids := by
  congr 2
  funext id
  rw [isIncomingStream_server hs h.server, decide_eq_true_eq]

/-- **The bookkeeping of a server is exact and no id is used twice**, in every run in which the
    handshake finds no greater id of the peer than that of the preset stream. -/
theorem bookkeeping_exact {maxIncoming maxOutgoing window : ℕ} {as : List SessionAct}
    (hC : Machine.Along step OrderlyHandshake (init true maxIncoming maxOutgoing window) as)
    (h : Machine.run step (init true maxIncoming maxOutgoing window) as = some s) :
    -- every id of the peer is in one class
    (∀ id, id ≠ kCryptoStreamId → s.isIncomingStream id = true →
      id ≤ s.largestPeerCreatedStreamId →
      (s.isDynamic id = true ∧ id ∉ s.availableStreams ∧ s.isClosedStream id = false) ∨
      (s.isDynamic id = false ∧ id ∈ s.availableStreams ∧ s.isClosedStream id = false) ∨
      (s.isDynamic id = false ∧ id ∉ s.availableStreams ∧ s.isClosedStream id = true)) ∧
    -- the counters count
    (s.numDynamicIncoming = (s.openIds.filter fun id => s.isIncomingStream id = true).card ∧
      s.numDrainingIncoming = (s.drainingStreams.filter fun id => s.isIncomingStream id = true).card ∧
      s.numLocallyClosedIncoming = (s.locallyClosed.filter fun id => s.isIncomingStream id = true).card) ∧
    -- no subtraction wraps
    (s.numDrainingIncoming ≤ s.numDynamicIncoming ∧
      s.numDynamicIncoming ≤ s.dynamicStreams.keys.length ∧
      s.numLocallyClosedIncoming ≤ s.locallyClosed.card ∧
      s.numDrainingIncoming ≤ s.drainingStreams.card ∧
      s.drainingStreams.card - s.numDrainingIncoming ≤
        s.dynamicStreams.keys.length - s.numDynamicIncoming +
          (s.locallyClosed.card - s.numLocallyClosedIncoming)) ∧
    -- the largest id never decreases
    (∀ bs t, Machine.Along step OrderlyHandshake s bs → Machine.run step s bs = some t →
      s.largestPeerCreatedStreamId ≤ t.largestPeerCreatedStreamId) ∧
    -- a stream that was closed is not opened again
    ∀ id bs t cs u, s.isDynamic id = true → Machine.run step s bs = some t →
      t.isDynamic id = false → Machine.run step t cs = some u → u.isDynamic id = false := by
  obtain ⟨hs, hx, -⟩ := run_exact (sound_init ..) (exact_init ..) hC h
  refine ⟨fun id hid hin hle => hx.classes hid hin hle, ?_, ?_,
    fun bs t hC' h' => (run_exact hs hx hC' h').2.2, fun id bs t cs u hd ht hn hu => ?_⟩
  · simp only [hx.oddCard_eq hs]
    exact ⟨hx.counts.dynamic, hx.counts.draining, hx.counts.locallyClosed⟩
  · have hout := card_sub_oddCard_mono hx.counts.draining_open
    rw [← card_openIds]
    refine ⟨hx.counts.draining_le, ?_, ?_, ?_, ?_⟩
    · rw [hx.counts.dynamic]; exact oddCard_le_card _
    · rw [hx.counts.locallyClosed]; exact oddCard_le_card _
    · rw [hx.counts.draining]; exact oddCard_le_card _
    · rw [hx.counts.draining, hx.counts.dynamic]
      exact hout.trans (Nat.le_add_right _ _)
  · have he : s.established = true := by
      by_contra he
      exact (hs.early hx.server (by simpa using he)).1 id (.inl hd)
    have hsp : s.Spent id := ⟨hs, hx.server, hs.established hx.server he, hx.retired id hd⟩
    exact (run_spent (run_spent hsp ht).1 hu).2 hn

/-- The peer opens two streams, and one of them is reset. -/
def twoStreams : List SessionAct :=
  [.handshake, .streamFrame 9 false false [.available], .cancelStream 9]

theorem bookkeeping_exact_twoStreams : ∃ s : Session,
    Machine.run step (init true 10 10 1000) twoStreams = some s ∧
    s.largestPeerCreatedStreamId = 9 ∧ s.availableStreams = {5, 7} ∧
    (∀ bs t, Machine.Along step OrderlyHandshake s bs → Machine.run step s bs = some t →
      s.largestPeerCreatedStreamId ≤ t.largestPeerCreatedStreamId) ∧
    s.numLocallyClosedIncoming =
      (s.locallyClosed.filter fun id => s.isIncomingStream id = true).card := by
  have hC : Machine.Along step OrderlyHandshake (init true 10 10 1000) twoStreams :=
    ⟨fun _ => by decide, fun _ _ => ⟨nofun, fun _ _ => ⟨nofun, fun _ _ => trivial⟩⟩⟩
  obtain ⟨-, ⟨-, -, hl⟩, -, hm, -⟩ := @bookkeeping_exact _ 10 10 1000 twoStreams hC rfl
  exact ⟨_, rfl, rfl, by decide +kernel, hm, hl⟩

/-- A RST_STREAM for stream 9 before the handshake: the largest id decreases, and the preset stream is
    open while its id is available. -/
theorem largest_decreases : ∃ s t : Session,
    Machine.run step (init true 10 10 1000) [.rstStream 9 true] = some s ∧
    s.step .handshake = some t ∧
    t.largestPeerCreatedStreamId < s.largestPeerCreatedStreamId ∧
    t.isDynamic kPresetStreamId = true ∧ kPresetStreamId ∈ t.availableStreams := by
  refine ⟨_, _, rfl, rfl, by decide +kernel, by decide +kernel, by decide +kernel⟩

end Session
end Puic
