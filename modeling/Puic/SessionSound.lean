/-
  What is true of every session.

  Most of it says that the bookkeeping of the ids works: what is in a map has been
  given out, a stream that is listed as blocked is open or closed (so that
  `OnCanWrite` never creates a stream), and the scheduler knows every open stream.
  One id is an exception: on a server the id of the preset stream may be offered to
  the peer once more.  A second stream under that id (`Twin`) is reachable to no one
  and stays idle.

  `Move.sound` is the step lemma; the theorem about runs is `sound_run` in
  `SessionSteps`.
-/
import Puic.SessionMoves

namespace Puic

open PriorityWriteScheduler WriteBlockedList

/-- A stream under the preset id that is not the preset stream. -/
structure StreamIds.Twin (ids : StreamIds) (id obj : ℕ) : Prop where
  server : ids.server = true
  id_eq : id = kPresetStreamId
  preset : ids.presetStream ≠ some ⟨id, obj⟩

theorem StreamIds.Twin.congr {i j : StreamIds} {id obj : ℕ} (h : i.Twin id obj)
    (hs : j.server = i.server) (hp : j.presetStream = i.presetStream) : j.Twin id obj :=
  ⟨hs.trans h.server, h.id_eq, hp ▸ h.preset⟩

/-- The id has been given out. -/
def StreamIds.Used (ids : StreamIds) (id : ℕ) : Prop :=
  ids.isRetired id = true ∨ (ids.server = true ∧ id = kPresetStreamId)

namespace Session

variable {s t : Session} {id k : ℕ} {st st' : Stream} {l : Label}

/-- There is a stream under `id` that is open or waits for acknowledgements. -/
def Held (s : Session) (id : ℕ) : Prop :=
  s.isDynamic id = true ∨ (s.zombieStreams.lookup id).isSome = true

structure Sound (s : Session) : Prop where
  parity : s.nextOutgoingStreamId % 2 = (if s.server then 0 else 1) ∧ 2 ≤ s.nextOutgoingStreamId ∧
    s.largestPeerCreatedStreamId % 2 ≠ s.nextOutgoingStreamId % 2
  available : ∀ id ∈ s.availableStreams, id ≠ 0 ∧ id % 2 ≠ s.nextOutgoingStreamId % 2
  confirmed : s.confirmed = true → s.established = true
  established : s.server = true → s.established = true → s.confirmed = true
  preset : ∀ h, s.presetStream = some h → s.confirmed = true ∧ h.obj < s.nextObj
  used : ∀ id, s.Held id → id ≠ 0 ∧ id ≠ kCryptoStreamId ∧ s.Used id
  open_ : ∀ id st, s.dynamicStreams.lookup id = some st → st.closed = false ∧ ¬st.Done
  zombie : ∀ id st, s.zombieStreams.lookup id = some st → st.closed = true ∧
    st.send.writeSideClosed = true
  twin : ∀ id st, s.dynamicStreams.lookup id = some st → (s.zombieStreams.lookup id).isSome = true →
    s.Twin id st.obj
  idle : ∀ id st, s.dynamicStreams.lookup id = some st → s.Twin id st.obj → st.send.Idle
  consistent : s.writeBlocked.scheduler.Consistent
  registered : ∀ k, s.isDynamic k = true → s.writeBlocked.scheduler.Registered k
  listed : ∀ k ∈ s.writeBlocked.streams, s.isOpenStream k = true ∨ s.isRetired k = true
  early : s.server = true → s.established = false → (∀ id, ¬s.Held id) ∧
    ∀ k, ¬s.writeBlocked.scheduler.Registered k
  crypto : s.crypto.finReceived = false

theorem sound_init (server : Bool) (maxIncoming maxOutgoing window : ℕ) :
    (init server maxIncoming maxOutgoing window).Sound where
  parity := by cases server <;> simp [init]
  available _ h := absurd h (Finset.notMem_empty _)
  confirmed h := nomatch h
  established _ h := nomatch h
  preset _ h := nomatch h
  used _ h := h.elim (fun h => nomatch h) fun h => nomatch h
  open_ _ _ h := nomatch h
  zombie _ _ h := nomatch h
  twin _ _ h := nomatch h
  idle _ _ h := nomatch h
  consistent := consistent_empty
  registered _ h := nomatch h
  listed _ h := by
    rcases mem_streams.1 h with ⟨h, -⟩ | ⟨p, h⟩
    · cases h
    · cases h
  early _ _ := ⟨fun _ h => h.elim (fun h => nomatch h) (fun h => nomatch h), fun _ h => nomatch h⟩
  crypto := rfl

theorem Sound.ne_crypto (hs : s.Sound) (h : s.dynamicStreams.lookup id = some st) :
    id ≠ kCryptoStreamId := (hs.used id (.inl (isDynamic_iff.2 ⟨st, h⟩))).2.1

theorem resolve_twin (h : s.Twin id st.obj) : (s.resolve ⟨id, st.obj⟩).isSome = false := by
  have hid : id ≠ kCryptoStreamId := by rw [h.id_eq]; decide
  rw [resolve, if_neg hid, if_pos ⟨h.server, h.id_eq, h.preset⟩]
  rfl

/-! ## Moves that give out no id -/

/-- What most moves are: some streams change or leave. -/
structure Shrinks (s t : Session) : Prop where
  ids : t.toStreamIds = s.toStreamIds
  crypto : t.crypto.finReceived = s.crypto.finReceived
  dynamic : ∀ id st', t.dynamicStreams.lookup id = some st' →
    ∃ st, s.dynamicStreams.lookup id = some st ∧ st.Later st' ∧ s.StaysIdle id st st' ∧ ¬st'.Done
  zombie : ∀ id st', t.zombieStreams.lookup id = some st' →
    st'.closed = true ∧ st'.send.writeSideClosed = true ∧
      ((s.zombieStreams.lookup id).isSome = true ∨ (s.isDynamic id = true ∧ t.isDynamic id = false))
  consistent : t.writeBlocked.scheduler.Consistent
  registered : ∀ k, t.writeBlocked.scheduler.Registered k → s.writeBlocked.scheduler.Registered k
  kept : ∀ k, t.isDynamic k = true → s.writeBlocked.scheduler.Registered k →
    t.writeBlocked.scheduler.Registered k
  listed : ∀ k ∈ t.writeBlocked.streams, k ∈ s.writeBlocked.streams ∨ s.isOpenStream k = true
  open_ : ∀ k ∈ t.writeBlocked.streams, s.isOpenStream k = true → t.isOpenStream k = true ∨
    t.isRetired k = true

theorem Shrinks.isDynamic (h : s.Shrinks t) (hk : t.isDynamic k = true) : s.isDynamic k = true := by
  obtain ⟨st', hst'⟩ := isDynamic_iff.1 hk
  obtain ⟨st, hst, -⟩ := h.dynamic k st' hst'
  exact isDynamic_iff.2 ⟨st, hst⟩

theorem Shrinks.held (h : s.Shrinks t) (hk : t.Held k) : s.Held k := by
  rcases hk with hk | hk
  · exact .inl (h.isDynamic hk)
  · obtain ⟨st', hst'⟩ := Option.isSome_iff_exists.1 hk
    exact (h.zombie k st' hst').2.2.elim .inr fun hd => .inl hd.1

theorem Shrinks.sound (h : s.Shrinks t) (hs : s.Sound) : t.Sound := by
  have hids := h.ids
  obtain ⟨hparity, havail, hconf, hest, hpre, hused, hopen, hzom, htwin, hidle, -, hreg, hlist,
      hearly, hcr⟩ := hs
  constructor
  · rw [hids]; exact hparity
  · rw [hids]; exact havail
  · rw [hids]; exact hconf
  · rw [hids]; exact hest
  · rw [hids]; exact hpre
  · rw [hids]; exact fun id hk => hused id (h.held hk)
  · intro id st' hst'
    obtain ⟨st, hst, hl, -, hd⟩ := h.dynamic id st' hst'
    exact ⟨hl.closed.trans (hopen id st hst).1, hd⟩
  · intro id st' hst'
    obtain ⟨hc, hw, -⟩ := h.zombie id st' hst'
    exact ⟨hc, hw⟩
  · intro id st' hst' hz
    obtain ⟨st, hst, hl, -⟩ := h.dynamic id st' hst'
    obtain ⟨zt, hzt⟩ := Option.isSome_iff_exists.1 hz
    rcases (h.zombie id zt hzt).2.2 with hz | ⟨-, hd⟩
    · rw [hids, hl.obj]; exact htwin id st hst hz
    · rw [isDynamic_eq_false, hst'] at hd; cases hd
  · intro id st' hst' ht
    obtain ⟨st, hst, hl, hi, -⟩ := h.dynamic id st' hst'
    rw [hids, hl.obj] at ht
    refine (hi (hidle id st hst ht)).resolve_right fun hr => ?_
    rw [resolve_twin ht] at hr; cases hr
  · exact h.consistent
  · exact fun k hk => h.kept k hk (hreg k (h.isDynamic hk))
  · intro k hk
    rcases h.listed k hk with hk' | hk'
    · rcases hlist k hk' with hk' | hk'
      · exact h.open_ k hk hk'
      · rw [hids]; exact .inr hk'
    · exact h.open_ k hk hk'
  · rw [hids]
    intro h₁ h₂
    obtain ⟨hd, hr⟩ := hearly h₁ h₂
    exact ⟨fun id hk => hd id (h.held hk), fun k hk => hr k (h.registered k hk)⟩
  · rw [h.crypto]; exact hcr

theorem Sound.dynamic_refl (hs : s.Sound) (h : s.dynamicStreams.lookup id = some st) :
    ∃ st₀, s.dynamicStreams.lookup id = some st₀ ∧ st₀.Later st ∧ s.StaysIdle id st₀ st ∧ ¬st.Done :=
  ⟨st, h, .refl st, .inl, (hs.open_ id st h).2⟩

theorem Sound.zombie_refl (hs : s.Sound) (h : s.zombieStreams.lookup id = some st) :
    st.closed = true ∧ st.send.writeSideClosed = true ∧
      ((s.zombieStreams.lookup id).isSome = true ∨ (s.isDynamic id = true ∧ t.isDynamic id = false)) :=
  ⟨(hs.zombie id st h).1, (hs.zombie id st h).2, .inl (by rw [h]; rfl)⟩

theorem Quiet.shrinks (h : s.Quiet t) (hs : s.Sound) : s.Shrinks t := by
  have hd : t.dynamicStreams = s.dynamicStreams := congrArg (·.dynamicStreams) h.table
  have hz : t.zombieStreams = s.zombieStreams := congrArg (·.zombieStreams) h.table
  have hkd : ∀ k, t.isDynamic k = s.isDynamic k := fun k => by rw [isDynamic, hd, isDynamic]
  refine ⟨congrArg (·.toStreamIds) h.table, h.crypto, ?_, ?_, h.consistent hs.consistent,
    h.registered, fun k hk => h.kept k (hkd k ▸ hk), h.listed hs.consistent, ?_⟩
  · rw [hd]; exact fun _ _ hst => hs.dynamic_refl hst
  · rw [hz]; exact fun _ _ hst => hs.zombie_refl hst
  · intro k _ hk
    rw [isOpenStream, hkd]
    exact .inl hk

/-- A change that leaves the scheduler alone and takes no stream away. -/
theorem Shrinks.of_keys (hs : s.Sound) (hids : t.toStreamIds = s.toStreamIds)
    (hcr : t.crypto.finReceived = s.crypto.finReceived) (hwb : t.writeBlocked = s.writeBlocked)
    (hkeys : ∀ k, s.isDynamic k = true → t.isDynamic k = true)
    (hd : ∀ id st', t.dynamicStreams.lookup id = some st' →
      ∃ st, s.dynamicStreams.lookup id = some st ∧ st.Later st' ∧ s.StaysIdle id st st' ∧ ¬st'.Done)
    (hz : ∀ id st', t.zombieStreams.lookup id = some st' →
      st'.closed = true ∧ st'.send.writeSideClosed = true ∧
        ((s.zombieStreams.lookup id).isSome = true ∨
          (s.isDynamic id = true ∧ t.isDynamic id = false))) : s.Shrinks t := by
  refine ⟨hids, hcr, hd, hz, hwb ▸ hs.consistent, ?_, ?_, ?_, ?_⟩
  · rw [hwb]; exact fun _ h => h
  · rw [hwb]; exact fun _ _ h => h
  · rw [hwb]; exact fun _ h => .inl h
  · intro k _ hk
    left
    simp only [isOpenStream, Bool.or_eq_true] at hk ⊢
    exact hk.imp_right (hkeys k)

theorem isDynamic_setOpen : (s.setOpen id st).isDynamic k = true ↔ k = id ∨ s.isDynamic k = true := by
  rcases eq_or_ne k id with rfl | hne
  · simp [isDynamic, setOpen, AList.lookup_insert]
  · simp [isDynamic, setOpen, AList.lookup_insert_ne hne, hne]

theorem lookup_setOpen : (s.setOpen id st).dynamicStreams.lookup id = some st := AList.lookup_insert _

theorem lookup_setOpen_ne (h : k ≠ id) :
    (s.setOpen id st).dynamicStreams.lookup k = s.dynamicStreams.lookup k :=
  AList.lookup_insert_ne h

theorem shrinks_update (hs : s.Sound) (h : s.dynamicStreams.lookup id = some st)
    (hl : st.Later st') (hi : s.StaysIdle id st st') (hd : ¬st'.Done) :
    s.Shrinks (s.setOpen id st') := by
  refine .of_keys hs rfl rfl rfl (fun k hk => isDynamic_setOpen.2 (.inr hk)) ?_ fun _ _ hst =>
    hs.zombie_refl hst
  intro k st'' hst''
  rcases eq_or_ne k id with rfl | hne
  · rw [lookup_setOpen, Option.some.injEq] at hst''
    subst hst''
    exact ⟨st, h, hl, hi, hd⟩
  · rw [lookup_setOpen_ne hne] at hst''
    exact hs.dynamic_refl hst''

theorem shrinks_zombie (hs : s.Sound) (h : s.zombieStreams.lookup id = some st)
    (hl : st.Later st') :
    s.Shrinks { s with zombieStreams := s.zombieStreams.insert id st' } := by
  refine .of_keys hs rfl rfl rfl (fun _ hk => hk) (fun _ _ hst => hs.dynamic_refl hst) ?_
  intro k st'' hst''
  rcases eq_or_ne k id with rfl | hne
  · rw [AList.lookup_insert, Option.some.injEq] at hst''
    subst hst''
    obtain ⟨hc, hw⟩ := hs.zombie k st h
    exact ⟨hl.closed.trans hc, hl.writeSideClosed hw, .inl (by rw [h]; rfl)⟩
  · rw [AList.lookup_insert_ne hne] at hst''
    exact hs.zombie_refl hst''

/-- A stream leaves; its registration may stay if its id counts as closed. -/
theorem Closes.shrinks (hs : s.Sound) (h : s.dynamicStreams.lookup id = some st)
    {st'' : Stream} (hc : (s.setOpen id st').Closes id st'' t)
    (hwb : (t.writeBlocked = s.writeBlocked ∧ s.isRetired id = true) ∨
      t.writeBlocked = s.writeBlocked.unregisterStream id) : s.Shrinks t := by
  have hid := hs.ne_crypto h
  have hids : t.toStreamIds = s.toStreamIds := hc.ids
  have hdid : t.isDynamic id = false := by
    rw [isDynamic_eq_false, hc.dynamic, AList.lookup_erase]
  have hdk : ∀ k, k ≠ id → t.dynamicStreams.lookup k = s.dynamicStreams.lookup k := fun k hk => by
    rw [hc.dynamic, AList.lookup_erase_ne hk, lookup_setOpen_ne hk]
  have hne : ∀ k, t.isDynamic k = true → k ≠ id := fun k hk he => by
    rw [he, hdid] at hk; cases hk
  refine ⟨hids, by rw [hc.crypto]; rfl, ?_, ?_, ?_, ?_, ?_, ?_, ?_⟩
  · intro k st₂ hst₂
    have hk : k ≠ id := hne k (isDynamic_iff.2 ⟨st₂, hst₂⟩)
    rw [hdk k hk] at hst₂
    exact hs.dynamic_refl hst₂
  · intro k st₂ hst₂
    rw [hc.zombie] at hst₂
    split at hst₂
    · rcases eq_or_ne k id with rfl | hk
      · rw [AList.lookup_insert, Option.some.injEq] at hst₂
        subst hst₂
        exact ⟨rfl, rfl, .inr ⟨isDynamic_iff.2 ⟨st, h⟩, hdid⟩⟩
      · rw [AList.lookup_insert_ne hk] at hst₂
        exact hs.zombie_refl hst₂
    · exact hs.zombie_refl hst₂
  · rcases hwb with ⟨hwb, -⟩ | hwb
    · rw [hwb]; exact hs.consistent
    · rw [hwb]; exact hs.consistent.unregisterStream
  · intro k hk
    rcases hwb with ⟨hwb, -⟩ | hwb
    · rwa [hwb] at hk
    · rw [hwb] at hk
      exact (registered_unregisterStream.1 hk).1
  · intro k hk hr
    rcases hwb with ⟨hwb, -⟩ | hwb
    · rwa [hwb]
    · rw [hwb]
      exact registered_unregisterStream.2 ⟨hr, hne k hk⟩
  · intro k hk
    rcases hwb with ⟨hwb, -⟩ | hwb
    · rw [hwb] at hk; exact .inl hk
    · rw [hwb] at hk
      exact .inl (mem_of_mem_unregisterStream hs.consistent hid hk).1
  · intro k hk ho
    rcases eq_or_ne k id with rfl | hne
    · rcases hwb with ⟨-, hr⟩ | hwb
      · rw [hids]; exact .inr hr
      · rw [hwb] at hk
        exact absurd rfl (mem_of_mem_unregisterStream hs.consistent hid hk).2
    · left
      rw [isOpenStream, isDynamic, hdk k hne]
      exact ho

theorem shrinks_close (hs : s.Sound) (h : s.dynamicStreams.lookup id = some st) :
    s.Shrinks ((s.setOpen id st').closeStream id) := by
  have hl : (s.setOpen id st').dynamicStreams.lookup id = some st' := lookup_setOpen
  obtain ⟨hc, hwb⟩ := closeStream_closes (hs.ne_crypto h) hl
  exact hc.shrinks hs h (.inr hwb)

/-- What `Reset` does to an open stream.  The scheduler forgets the stream only if its id does not count
    as closed. -/
theorem resetOpen_closes (hs : s.Sound) (h : s.dynamicStreams.lookup id = some st) :
    ∃ st' : Stream, s.Updates id st st' ∧
      (s.setOpen id st').Closes id (st'.leaving true) (s.resetOpen id) ∧
      (s.resetOpen id).writeBlocked =
        if s.isRetired id then s.writeBlocked else s.writeBlocked.unregisterStream id := by
  have hl : (s.setOpen id { st with error := true }).dynamicStreams.lookup id =
    some { st with error := true } := lookup_setOpen
  obtain ⟨hc, hwb₁, hwb₂, -⟩ := closeStreamInner_closes (hs.ne_crypto h) hl true
  rw [resetOpen, h]
  refine ⟨{ st with error := true }, ⟨⟨rfl, rfl, fun h => h⟩, rfl, .inl⟩, hc, ?_⟩
  cases hr : s.isRetired id
  · exact hwb₁ (hs.open_ id st h).2 hr
  · exact hwb₂ hr

theorem shrinks_reset (hs : s.Sound) (h : s.dynamicStreams.lookup id = some st) :
    s.Shrinks (s.resetOpen id) := by
  obtain ⟨st', -, hc, hwb⟩ := resetOpen_closes hs h
  refine hc.shrinks hs h ?_
  split at hwb
  · next hr => exact .inl ⟨hwb, hr⟩
  · exact .inr hwb

theorem shrinks_done (hs : s.Sound) (id : ℕ) : s.Shrinks (s.onStreamDoneWaitingForAcks id) := by
  unfold onStreamDoneWaitingForAcks
  split
  · exact .of_keys hs rfl rfl rfl (fun _ hk => hk) (fun _ _ hst => hs.dynamic_refl hst)
      fun _ _ hst => hs.zombie_refl hst
  · refine .of_keys hs rfl rfl rfl (fun _ hk => hk) (fun _ _ hst => hs.dynamic_refl hst) ?_
    intro k st' hst'
    rcases eq_or_ne k id with rfl | hne
    · rw [AList.lookup_erase] at hst'; cases hst'
    · rw [AList.lookup_erase_ne hne] at hst'
      exact hs.zombie_refl hst'

theorem shrinks_flush (hs : s.Sound) : s.Shrinks { s with
    closedStreams := s.closedStreams ++ s.zombieStreams.entries.map fun e => (e.1, e.2)
    zombieStreams := ∅ } := by
  refine .of_keys hs rfl rfl rfl (fun _ hk => hk) (fun _ _ hst => hs.dynamic_refl hst) ?_
  intro k st' hst'
  cases hst'

/-- A change of the counters, the calls or the streams to be destroyed. -/
theorem shrinks_of_same (hs : s.Sound) (hids : t.toStreamIds = s.toStreamIds)
    (hcr : t.crypto = s.crypto) (hwb : t.writeBlocked = s.writeBlocked)
    (hd : t.dynamicStreams = s.dynamicStreams) (hz : t.zombieStreams = s.zombieStreams) :
    s.Shrinks t := by
  refine .of_keys hs hids (by rw [hcr]) hwb ?_ ?_ ?_
  · intro k hk; rw [isDynamic, hd]; exact hk
  · rw [hd]; exact fun _ _ hst => hs.dynamic_refl hst
  · rw [hz]; exact fun _ _ hst => hs.zombie_refl hst

/-! ## Moves that give out ids -/

theorem isIncomingStream_iff : s.isIncomingStream id = true ↔ id % 2 ≠ s.nextOutgoingStreamId % 2 := by
  simp [isIncomingStream]

theorem mem_newlyAvailable (h : id ∈ s.newlyAvailable k) (hk : s.largestPeerCreatedStreamId < k) :
    s.largestPeerCreatedStreamId < id ∧ id < k ∧ id % 2 = s.largestPeerCreatedStreamId % 2 := by
  obtain ⟨i, hi, rfl⟩ := Finset.mem_image.1 h
  rw [Finset.mem_range] at hi
  omega

theorem mem_available_offered (h : k ∈ (s.offered id).availableStreams) :
    k ≠ id ∧ (k ∈ s.availableStreams ∨ (s.largestPeerCreatedStreamId < k ∧ k < id ∧
      k % 2 = s.largestPeerCreatedStreamId % 2)) := by
  simp only [offered] at h
  split at h
  · exact ⟨Finset.ne_of_mem_erase h, .inl (Finset.mem_of_mem_erase h)⟩
  · next hle =>
    rcases Finset.mem_union.1 h with h | h
    · exact ⟨Finset.ne_of_mem_erase h, .inl (Finset.mem_of_mem_erase h)⟩
    · have hk := mem_newlyAvailable h (by omega)
      exact ⟨by omega, .inr hk⟩

theorem isRetired_offered (h : s.isRetired k = true) : (s.offered id).isRetired k = true := by
  rw [StreamIds.isRetired_iff] at h ⊢
  refine h.imp_right fun ⟨hp, hle, hav⟩ => ⟨hp, ?_, fun hk => ?_⟩
  · exact hle.trans (Nat.le_max_left _ _)
  · rcases (mem_available_offered hk).2 with hk | ⟨hlt, -⟩
    · exact hav hk
    · omega

theorem isRetired_offered_self (h : s.Offerable id) : (s.offered id).isRetired id = true := by
  rw [StreamIds.isRetired_iff]
  exact .inr ⟨isIncomingStream_iff.1 h.incoming, Nat.le_max_right _ _,
    fun hk => (mem_available_offered hk).1 rfl⟩

theorem Sound.offered (hs : s.Sound) (h : s.Offerable id) : (s.offered id).Sound := by
  have hp := isIncomingStream_iff.1 h.incoming
  refine { hs with parity := ?_, available := ?_, used := ?_, twin := ?_, idle := ?_, listed := ?_ }
  · refine ⟨hs.parity.1, hs.parity.2.1, ?_⟩
    have hl := hs.parity.2.2
    rcases Nat.le_total s.largestPeerCreatedStreamId id with hle | hle
    · rwa [Session.offered, Nat.max_eq_right hle]
    · rwa [Session.offered, Nat.max_eq_left hle]
  · intro k hk
    rcases (mem_available_offered hk).2 with hk | ⟨hlt, -, hkp⟩
    · exact hs.available k hk
    · exact ⟨by omega, hkp ▸ hs.parity.2.2⟩
  · intro k hk
    obtain ⟨h₀, h₁, hu⟩ := hs.used k hk
    exact ⟨h₀, h₁, hu.imp_left isRetired_offered⟩
  · exact fun k st hst hz => (hs.twin k st hst hz).congr rfl rfl
  · exact fun k st hst ht => hs.idle k st hst (ht.congr rfl rfl)
  · exact fun k hk => (hs.listed k hk).imp_right isRetired_offered

variable {priority : Fin 8} {h : Handle}

theorem opened_isDynamic :
    (s.opened id priority).isDynamic k = true ↔ k = id ∨ s.isDynamic k = true := isDynamic_setOpen

theorem opened_lookup
    (h : (s.opened id priority).dynamicStreams.lookup k = some st) :
    (k = id ∧ st = .new s.nextObj s.initialWindow) ∨ (k ≠ id ∧ s.dynamicStreams.lookup k = some st) := by
  rcases eq_or_ne k id with rfl | hne
  · refine .inl ⟨rfl, ?_⟩
    exact (Option.some.inj ((AList.lookup_insert _).symm.trans h)).symm
  · exact .inr ⟨hne, (AList.lookup_insert_ne hne).symm.trans h⟩

theorem Sound.opened (hs : s.Sound) (h₀ : id ≠ 0) (h₁ : id ≠ kCryptoStreamId) (hu : s.Used id)
    (hz : (s.zombieStreams.lookup id).isSome = true → s.server = true ∧ id = kPresetStreamId)
    (he : s.established = true) (priority : Fin 8) : (s.opened id priority).Sound := by
  refine { hs with
    preset := ?_, used := ?_, open_ := ?_, twin := ?_, idle := ?_, consistent := ?_,
    registered := ?_, listed := ?_, early := ?_ }
  · exact fun h hh => ⟨(hs.preset h hh).1, Nat.lt_succ_of_lt (hs.preset h hh).2⟩
  · rintro k (hk | hk)
    · rcases opened_isDynamic.1 hk with rfl | hk
      · exact ⟨h₀, h₁, hu⟩
      · exact hs.used k (.inl hk)
    · exact hs.used k (.inr hk)
  · intro k st hst
    rcases opened_lookup hst with ⟨rfl, rfl⟩ | ⟨-, hst⟩
    · exact ⟨rfl, fun hd => by cases hd.1⟩
    · exact hs.open_ k st hst
  · intro k st hst hzk
    rcases opened_lookup hst with ⟨rfl, rfl⟩ | ⟨-, hst⟩
    · obtain ⟨hsv, hk⟩ := hz hzk
      exact ⟨hsv, hk, fun hp => absurd (hs.preset _ hp).2 (Nat.lt_irrefl _)⟩
    · exact (hs.twin k st hst hzk).congr rfl rfl
  · intro k st hst ht
    rcases opened_lookup hst with ⟨rfl, rfl⟩ | ⟨-, hst⟩
    · exact SendStream.idle_new _ _ _
    · exact hs.idle k st hst (ht.congr rfl rfl)
  · exact hs.consistent.registerStream priority
  · intro k hk
    rcases opened_isDynamic.1 hk with rfl | hk
    · exact registered_registerStream.2 (.inr ⟨rfl, h₀⟩)
    · exact registered_registerStream.2 (.inl (hs.registered k hk))
  · intro k hk
    refine (hs.listed k (mem_registerStream.1 hk)).imp_left fun ho => ?_
    simp only [isOpenStream, Bool.or_eq_true] at ho ⊢
    exact ho.imp_right fun hk => opened_isDynamic.2 (.inr hk)
  · intro _ hn
    rw [show (s.opened id priority).established = s.established from rfl, he] at hn
    cases hn

/-- The next outgoing id is drawn. -/
def drawn (s : Session) : Session := { s with nextOutgoingStreamId := s.nextOutgoingStreamId + 2 }

theorem isRetired_drawn (h : s.isRetired k = true) : s.drawn.isRetired k = true := by
  rw [StreamIds.isRetired_iff] at h ⊢
  simp only [drawn, Nat.add_mod_right]
  exact h.imp_left fun ⟨hp, hlt⟩ => ⟨hp, by omega⟩

theorem Sound.drawn (hs : s.Sound) : s.drawn.Sound := by
  refine { hs with parity := ?_, available := ?_, used := ?_, twin := ?_, idle := ?_, listed := ?_ }
  · obtain ⟨h₁, h₂, h₃⟩ := hs.parity
    simp only [Session.drawn, Nat.add_mod_right]
    exact ⟨h₁, by omega, h₃⟩
  · intro k hk
    simp only [Session.drawn, Nat.add_mod_right]
    exact hs.available k hk
  · intro k hk
    obtain ⟨h₀, h₁, hu⟩ := hs.used k hk
    exact ⟨h₀, h₁, hu.imp_left isRetired_drawn⟩
  · exact fun k st hst hz => (hs.twin k st hst hz).congr rfl rfl
  · exact fun k st hst ht => hs.idle k st hst (ht.congr rfl rfl)
  · exact fun k hk => (hs.listed k hk).imp_right isRetired_drawn

theorem Sound.not_held_next (hs : s.Sound) : ¬s.Held s.nextOutgoingStreamId := by
  intro hk
  obtain ⟨hp, -⟩ := hs.parity
  rcases (hs.used _ hk).2.2 with hr | ⟨hsv, hid⟩
  · rcases StreamIds.isRetired_iff.1 hr with ⟨-, hlt⟩ | ⟨hne, -⟩
    · omega
    · exact hne rfl
  · rw [hsv, if_pos rfl, hid] at hp; cases hp

theorem Sound.next_ne (hs : s.Sound) :
    s.nextOutgoingStreamId ≠ 0 ∧ s.nextOutgoingStreamId ≠ kCryptoStreamId := by
  have := hs.parity.2.1
  rw [kCryptoStreamId]; omega

theorem createOutgoingDynamicStream_eq (hs : s.Sound) (he : s.established = true)
    (priority : Fin 8) : s.createOutgoingDynamicStream priority =
      (s.drawn.opened s.nextOutgoingStreamId priority, some ⟨s.nextOutgoingStreamId, s.nextObj⟩) := by
  have ho : s.drawn.isOpenStream s.nextOutgoingStreamId = false := by
    rw [isOpenStream_eq hs.next_ne.2]
    exact Bool.eq_false_iff.2 fun hd => hs.not_held_next (.inl hd)
  rw [createOutgoingDynamicStream, if_pos he, ← createDataStream_eq ho]
  rfl

theorem Sound.drawn_opened (hs : s.Sound) (he : s.established = true) (priority : Fin 8) :
    (s.drawn.opened s.nextOutgoingStreamId priority).Sound := by
  refine hs.drawn.opened hs.next_ne.1 hs.next_ne.2 (.inl ?_)
    (fun hz => absurd (.inr hz) hs.not_held_next) he priority
  rw [StreamIds.isRetired_iff]
  exact .inl ⟨by simp [Session.drawn], by simp [Session.drawn]⟩

theorem Sound.createOutgoingDynamicStream (hs : s.Sound) (priority : Fin 8) :
    (s.createOutgoingDynamicStream priority).1.Sound := by
  cases he : s.established
  · rw [Session.createOutgoingDynamicStream, if_neg (by simp [he])]
    exact hs.drawn
  · rw [createOutgoingDynamicStream_eq hs he]
    exact hs.drawn_opened he priority

/-- `CreateIncomingDynamicStream` for an id the peer begins to use. -/
theorem createIncomingDynamicStream_eq (h : s.Offerable id) :
    (s.offered id).createIncomingDynamicStream id =
      (s.offered id).opened id (if id = kPresetStreamId then kHighestPriority else kDefaultPriority) := by
  have ho : (s.offered id).isOpenStream id = false := (isOpenStream_eq h.ne_crypto).trans h.notDynamic
  exact createDataStream_eq ho _

theorem Sound.createIncomingDynamicStream (hs : s.Sound) (h : s.Offerable id)
    (he : s.established = true) : ((s.offered id).createIncomingDynamicStream id).Sound := by
  rw [createIncomingDynamicStream_eq h]
  refine (hs.offered h).opened h.ne_zero h.ne_crypto (.inl (isRetired_offered_self h)) ?_ he _
  intro hz
  refine (hs.used id (.inr hz)).2.2.resolve_left fun hr => ?_
  rw [h.notRetired] at hr; cases hr

/-! ## The handshake -/

/-- The preset stream is noted. -/
def withPreset (s : Session) (h : Handle) : Session := { s with presetStream := some h }

theorem Sound.withPreset (hs : s.Sound) (hp : s.presetStream = none)
    (hc : s.confirmed = true) (hobj : h.obj < s.nextObj)
    (hz : (s.zombieStreams.lookup h.id).isSome = false) : (s.withPreset h).Sound := by
  refine { hs with preset := ?_, twin := ?_, idle := ?_ }
  · intro h' hh
    cases hh
    exact ⟨hc, hobj⟩
  · intro k st hst hzk
    obtain ⟨h₁, h₂, -⟩ := hs.twin k st hst hzk
    refine ⟨h₁, h₂, fun he => ?_⟩
    cases he
    exact Bool.false_ne_true (hz.symm.trans hzk)
  · intro k st hst ht
    exact hs.idle k st hst ⟨ht.server, ht.id_eq, by rw [hp]; exact fun h => nomatch h⟩

theorem setDelegate_opened :
    ((s.opened h.id priority).withPreset h).setDelegate h =
      ((s.opened h.id priority).withPreset h).setOpen h.id
        { Stream.new s.nextObj s.initialWindow with delegate := true } := by
  have hl : ((s.opened h.id priority).withPreset h).dynamicStreams.lookup h.id =
    some (.new s.nextObj s.initialWindow) := AList.lookup_insert _
  rw [setDelegate, hl]

theorem setDelegate_opened_lookup
    (hk : (((s.opened h.id priority).withPreset h).setDelegate h).dynamicStreams.lookup k = some st) :
    (k = h.id ∧ st = { Stream.new s.nextObj s.initialWindow with delegate := true }) ∨
      (k ≠ h.id ∧ s.dynamicStreams.lookup k = some st) := by
  rw [setDelegate_opened] at hk
  rcases eq_or_ne k h.id with rfl | hne
  · rw [lookup_setOpen] at hk
    exact .inl ⟨rfl, (Option.some.inj hk).symm⟩
  · rw [lookup_setOpen_ne hne] at hk
    exact .inr ⟨hne, (AList.lookup_insert_ne hne).symm.trans hk⟩

theorem shrinks_setDelegate (hs : s.Sound) (h : Handle) : s.Shrinks (s.setDelegate h) := by
  unfold setDelegate
  split
  · exact shrinks_of_same hs rfl rfl rfl rfl rfl
  · next st hst =>
    exact shrinks_update hs hst ⟨rfl, rfl, fun h => h⟩ .inl (hs.open_ _ st hst).2

theorem Sound.early_of_unconfirmed (hs : s.Sound) (hsv : s.server = true)
    (hc : s.confirmed = false) :
    (∀ id, ¬s.Held id) ∧ ∀ k, ¬s.writeBlocked.scheduler.Registered k :=
  hs.early hsv (Bool.eq_false_iff.2 fun he => by rw [hs.established hsv he] at hc; cases hc)

theorem Sound.preset_of_unconfirmed (hs : s.Sound) (hc : s.confirmed = false) :
    s.presetStream = none := by
  cases hp : s.presetStream with
  | none => rfl
  | some h => rw [(hs.preset h hp).1] at hc; cases hc

/-- A server at `HANDSHAKE_CONFIRMED`, before the preset stream is made. -/
def confirmServer (s : Session) : Session :=
  { s with
    established := true, confirmed := true, largestPeerCreatedStreamId := kPresetStreamId }

theorem Sound.confirmServer (hs : s.Sound) (hsv : s.server = true) (hc : s.confirmed = false) :
    s.confirmServer.Sound := by
  obtain ⟨hheld, hreg⟩ := hs.early_of_unconfirmed hsv hc
  have hnd : ∀ k, s.dynamicStreams.lookup k = none := fun k =>
    Option.not_isSome_iff_eq_none.1 fun hk => hheld k (.inl hk)
  refine { hs with
    parity := ?_, confirmed := fun _ => rfl, established := fun _ _ => rfl, preset := ?_,
    used := fun k hk => absurd hk (hheld k), twin := ?_, idle := ?_, listed := ?_, early := ?_ }
  · obtain ⟨h₁, h₂, -⟩ := hs.parity
    refine ⟨h₁, h₂, ?_⟩
    rw [hsv, if_pos rfl] at h₁
    simp [Session.confirmServer, h₁, kPresetStreamId]
  · exact fun h hh => ⟨rfl, (hs.preset h hh).2⟩
  · intro k st hst
    cases (hnd k).symm.trans hst
  · intro k st hst
    cases (hnd k).symm.trans hst
  · intro k hk
    rcases mem_streams.1 hk with ⟨-, rfl⟩ | ⟨p, hp⟩
    · exact .inl rfl
    · obtain ⟨i, hi, -⟩ := hs.consistent.own k p hp
      exact absurd (show s.writeBlocked.scheduler.Registered k by
        rw [Registered, hi]; rfl) (hreg k)
  · intro _ h
    cases h

theorem handshakeConfirmed_server (hs : s.Sound) (hsv : s.server = true)
    (hc : s.confirmed = false) : s.handshakeConfirmed =
      ((s.confirmServer.opened kPresetStreamId kHighestPriority).withPreset
        ⟨kPresetStreamId, s.nextObj⟩).setDelegate ⟨kPresetStreamId, s.nextObj⟩ := by
  have hd : s.isDynamic kPresetStreamId = false := Bool.eq_false_iff.2 fun hd =>
    (hs.early_of_unconfirmed hsv hc).1 _ (.inl hd)
  have ho : (s.confirmServer.withPreset ⟨kPresetStreamId, s.nextObj⟩).isOpenStream
      kPresetStreamId = false := (isOpenStream_eq (by decide)).trans hd
  rw [handshakeConfirmed, if_pos hsv]
  exact congrArg (setDelegate · ⟨kPresetStreamId, s.nextObj⟩) (createDataStream_eq ho _)

/-- A client at `HANDSHAKE_CONFIRMED`, before the preset stream is made. -/
def confirmClient (s : Session) : Session := { s with confirmed := true }

theorem Sound.confirmClient (hs : s.Sound) (hsv : s.server = false) (he : s.established = true) :
    s.confirmClient.Sound := by
  refine { hs with
    confirmed := fun _ => he, established := fun h => ?_, preset := ?_, twin := ?_, idle := ?_ }
  · exact absurd (hsv.symm.trans h) Bool.false_ne_true
  · exact fun h hh => ⟨rfl, (hs.preset h hh).2⟩
  · exact fun k st hst hz => (hs.twin k st hst hz).congr rfl rfl
  · exact fun k st hst ht => hs.idle k st hst (ht.congr rfl rfl)

theorem handshakeConfirmed_client (hs : s.Sound) (hsv : s.server = false)
    (he : s.established = true) : s.handshakeConfirmed =
      ((s.confirmClient.drawn.opened s.nextOutgoingStreamId kHighestPriority).withPreset
        ⟨s.nextOutgoingStreamId, s.nextObj⟩).setDelegate ⟨s.nextOutgoingStreamId, s.nextObj⟩ := by
  have heq := createOutgoingDynamicStream_eq (hs.confirmClient hsv he) he kHighestPriority
  rw [handshakeConfirmed, if_neg (by simp [hsv])]
  rw [show { s with confirmed := true } = s.confirmClient from rfl, heq]
  rfl

theorem Sound.handshakeConfirmed (hs : s.Sound) (hc : s.confirmed = false)
    (he : s.server = false → s.established = true) : s.handshakeConfirmed.Sound := by
  have hp := hs.preset_of_unconfirmed hc
  cases hsv : s.server
  · have hz : (s.zombieStreams.lookup s.nextOutgoingStreamId).isSome = false :=
      Bool.eq_false_iff.2 fun hz => hs.not_held_next (.inr hz)
    have hso := (hs.confirmClient hsv (he hsv)).drawn_opened (he hsv) kHighestPriority
    have hwp := hso.withPreset (h := ⟨s.nextOutgoingStreamId, s.nextObj⟩) hp rfl (Nat.lt_succ_self _) hz
    rw [handshakeConfirmed_client hs hsv (he hsv)]
    exact (shrinks_setDelegate hwp _).sound hwp
  · have hz : (s.zombieStreams.lookup kPresetStreamId).isSome = false :=
      Bool.eq_false_iff.2 fun hz => (hs.early_of_unconfirmed hsv hc).1 _ (.inr hz)
    have hso : (s.confirmServer.opened kPresetStreamId kHighestPriority).Sound :=
      (hs.confirmServer hsv hc).opened (by decide) (by decide) (.inr ⟨hsv, rfl⟩)
        (fun _ => ⟨hsv, rfl⟩) rfl kHighestPriority
    have hwp := hso.withPreset (h := ⟨kPresetStreamId, s.nextObj⟩) hp rfl (Nat.lt_succ_self _) hz
    rw [handshakeConfirmed_server hs hsv hc]
    exact (shrinks_setDelegate hwp _).sound hwp

/-! ## Every move -/

theorem streamDraining_ids : (s.streamDraining id).toStreamIds = s.toStreamIds := by
  unfold streamDraining
  split <;> rfl

theorem setDelegate_ids : (s.setDelegate h).toStreamIds = s.toStreamIds := by
  unfold setDelegate
  split <;> rfl

theorem resetOpen_ids (hs : s.Sound) (h : s.dynamicStreams.lookup id = some st) :
    (s.resetOpen id).toStreamIds = s.toStreamIds := by
  obtain ⟨st', -, hc, -⟩ := resetOpen_closes hs h
  exact hc.ids

theorem Move.ids_cases (hm : Move s l t) (hs : s.Sound) :
    t.toStreamIds = s.toStreamIds ∨
    (∃ id, s.Offerable id ∧ l = .inner ∧ t.toStreamIds = (s.offered id).toStreamIds) ∨
    (∃ id, s.Offerable id ∧ l = .create id ∧
      t.toStreamIds = { (s.offered id).toStreamIds with nextObj := s.nextObj + 1 }) ∨
    (l = .draw ∧ ∃ n, t.toStreamIds =
      { s.toStreamIds with nextOutgoingStreamId := s.nextOutgoingStreamId + 2, nextObj := n }) ∨
    (l = .encryption ∧ s.server = false ∧ s.confirmed = false ∧
      ∃ b, t.toStreamIds = { s.toStreamIds with established := b }) ∨
    (l = .handshake ∧ s.confirmed = false ∧ s.server = true ∧ t.toStreamIds =
      { s.toStreamIds with
        established := true, confirmed := true, largestPeerCreatedStreamId := kPresetStreamId
        presetStream := some ⟨kPresetStreamId, s.nextObj⟩, nextObj := s.nextObj + 1 }) ∨
    (l = .handshake ∧ s.confirmed = false ∧ s.server = false ∧ t.toStreamIds =
      { s.toStreamIds with
        confirmed := true, nextOutgoingStreamId := s.nextOutgoingStreamId + 2
        presetStream := some ⟨s.nextOutgoingStreamId, s.nextObj⟩, nextObj := s.nextObj + 1 }) := by
  cases hm with
  | quiet h => exact .inl (congrArg (·.toStreamIds) h.table)
  | update | zombie | call | postProcess | flush => exact .inl rfl
  | close h _ => exact .inl (closeStream_closes (hs.ne_crypto h) lookup_setOpen).1.ids
  | reset h => exact .inl (resetOpen_ids hs h)
  | drain => exact .inl streamDraining_ids
  | done => left; unfold onStreamDoneWaitingForAcks; split <;> rfl
  | final => left; unfold onFinalByteOffsetReceived; split <;> rfl
  | @offer id h => exact .inr (.inl ⟨id, h, rfl, rfl⟩)
  | @create id h he =>
    refine .inr (.inr (.inl ⟨id, h, rfl, ?_⟩))
    rw [createIncomingDynamicStream_eq h]
    rfl
  | draw priority =>
    refine .inr (.inr (.inr (.inl ⟨rfl, ?_⟩)))
    cases he : s.established
    · rw [Session.createOutgoingDynamicStream, if_neg (by simp [he])]
      exact ⟨s.nextObj, rfl⟩
    · rw [createOutgoingDynamicStream_eq hs he]
      exact ⟨s.nextObj + 1, rfl⟩
  | encryption b hsv hc => exact .inr (.inr (.inr (.inr (.inl ⟨rfl, hsv, hc, b, rfl⟩))))
  | handshake hc he =>
    refine .inr (.inr (.inr (.inr (.inr ?_))))
    cases hsv : s.server
    · rw [handshakeConfirmed_client hs hsv (he hsv), setDelegate_ids]
      exact .inr ⟨rfl, hc, rfl, rfl⟩
    · rw [handshakeConfirmed_server hs hsv hc, setDelegate_ids]
      exact .inl ⟨rfl, hc, rfl, rfl⟩

theorem Move.sound (h : Move s l t) (hs : s.Sound) : t.Sound := by
  cases h with
  | quiet h => exact (h.shrinks hs).sound hs
  | update h hu hd => exact (shrinks_update hs h hu.later hu.idle hd).sound hs
  | zombie _ h hl => exact (shrinks_zombie hs h hl).sound hs
  | close h _ => exact (shrinks_close hs h).sound hs
  | reset h => exact (shrinks_reset hs h).sound hs
  | call h e =>
    refine Shrinks.sound ?_ hs
    exact shrinks_of_same hs rfl rfl rfl rfl rfl
  | drain h =>
    refine (shrinks_of_same hs ?_ ?_ ?_ ?_ ?_).sound hs <;> unfold streamDraining <;> split <;> rfl
  | done id => exact (shrinks_done hs id).sound hs
  | final id =>
    refine (shrinks_of_same hs ?_ ?_ ?_ ?_ ?_).sound hs <;>
      unfold onFinalByteOffsetReceived <;> split <;> rfl
  | offer h => exact hs.offered h
  | create h he => exact hs.createIncomingDynamicStream h he
  | draw priority => exact hs.createOutgoingDynamicStream priority
  | encryption b hsv hc =>
    refine { hs with
      confirmed := ?_, established := ?_, twin := ?_, idle := ?_, early := ?_ }
    · exact fun h => absurd (hc.symm.trans h) Bool.false_ne_true
    · exact fun h => absurd (hsv.symm.trans h) Bool.false_ne_true
    · exact fun k st hst hz => (hs.twin k st hst hz).congr rfl rfl
    · exact fun k st hst ht => hs.idle k st hst (ht.congr rfl rfl)
    · exact fun h => absurd (hsv.symm.trans h) Bool.false_ne_true
  | handshake hc he => exact hs.handshakeConfirmed hc he
  | postProcess =>
    refine Shrinks.sound ?_ hs
    exact shrinks_of_same hs rfl rfl rfl rfl rfl
  | flush => exact (shrinks_flush hs).sound hs

theorem Moves.sound {A : Set Label} (h : Moves A s t) (hs : s.Sound) : t.Sound :=
  h.keeps (fun _ _ _ _ hm hs => hm.sound hs) hs

end Session
end Puic
