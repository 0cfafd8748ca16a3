/-
  The preset stream and those the peer opens besides.

  * `preset_agreed`: the preset stream has the same id on both sides, unless
    `CreateStream` drew an id before the handshake.
  * `delegates_called`: all calls go to a delegate as long as the peer opens no
    stream.  A stream it opens is cancelled before it is in the map, and stays.
  * `preset_held`: the preset stream exists as long as `PostProcessAfterData` does
    not find it among the closed streams; nothing clears the pointer to it.
-/
import Puic.SessionSteps

namespace Puic
namespace Session

variable {s t : Session} {id k : ℕ} {st st' : Stream} {l : Label}

/-! ## Its id -/

/-- The preset stream has its id, or nothing has taken that id yet. -/
structure Agreed (s : Session) : Prop where
  before : s.server = false → s.confirmed = false → s.nextOutgoingStreamId = kPresetStreamId
  after : s.confirmed = true → ∃ obj, s.presetStream = some ⟨kPresetStreamId, obj⟩

theorem Agreed.congr (h : s.Agreed) (h₁ : t.server = s.server) (h₂ : t.confirmed = s.confirmed)
    (h₃ : t.nextOutgoingStreamId = s.nextOutgoingStreamId) (h₄ : t.presetStream = s.presetStream) :
    t.Agreed where
  before hs hc := h₃.trans (h.before (h₁.symm.trans hs) (h₂.symm.trans hc))
  after hc := by rw [h₄]; exact h.after (h₂.symm.trans hc)

theorem Move.confirmed (hm : Move s l t) (hs : s.Sound) :
    t.server = s.server ∧ (s.confirmed = true → t.confirmed = true) := by
  rcases hm.ids_cases hs with hi | ⟨id, -, -, hi⟩ | ⟨id, -, -, hi⟩ | ⟨-, n, hi⟩ | ⟨-, -, -, b, hi⟩ |
    ⟨-, -, -, hi⟩ | ⟨-, -, -, hi⟩ <;> rw [hi]
  · exact ⟨rfl, fun h => h⟩
  · exact ⟨rfl, fun h => h⟩
  · exact ⟨rfl, fun h => h⟩
  · exact ⟨rfl, fun h => h⟩
  · exact ⟨rfl, fun h => h⟩
  · exact ⟨rfl, fun _ => rfl⟩
  · exact ⟨rfl, fun _ => rfl⟩

theorem Move.agreed (hm : Move s l t) (hs : s.Sound)
    (hl : l = .draw → s.server = false → s.confirmed = true) (h : s.Agreed) : t.Agreed := by
  rcases hm.ids_cases hs with hi | ⟨id, -, -, hi⟩ | ⟨id, -, -, hi⟩ | ⟨hd, n, hi⟩ | ⟨-, -, -, b, hi⟩ |
    ⟨-, -, hsv, hi⟩ | ⟨-, hc, hsv, hi⟩
  · exact h.congr (by rw [hi]) (by rw [hi]) (by rw [hi]) (by rw [hi])
  · exact h.congr (by rw [hi]; rfl) (by rw [hi]; rfl) (by rw [hi]; rfl) (by rw [hi]; rfl)
  · exact h.congr (by rw [hi]; rfl) (by rw [hi]; rfl) (by rw [hi]; rfl) (by rw [hi]; rfl)
  · constructor <;> rw [hi]
    · exact fun hsv hc => Bool.noConfusion ((hl hd hsv).symm.trans hc)
    · exact h.after
  · exact h.congr (by rw [hi]) (by rw [hi]) (by rw [hi]) (by rw [hi])
  · constructor <;> rw [hi]
    · exact fun hsv' => Bool.noConfusion (hsv.symm.trans hsv')
    · exact fun _ => ⟨s.nextObj, rfl⟩
  · constructor <;> rw [hi]
    · exact fun _ hc' => nomatch hc'
    · exact fun _ => ⟨s.nextObj, by rw [h.before hsv hc]⟩

variable {a : SessionAct} {maxIncoming maxOutgoing window : ℕ} {as : List SessionAct}
    {st'' : Stream} {h : Handle} {locallyReset : Bool}

theorem step_agreed (hs : s.Sound) (hstep : s.step a = some t)
    (ha : s.draws a → s.server = false → s.confirmed = true) (h : s.Agreed) : t.Agreed := by
  refine ((step_moves hs hstep).keeps
    (I := fun u => u.Sound ∧ u.Agreed ∧ (s.draws a → u.server = false → u.confirmed = true))
    (fun u l v hl hm ⟨hu, hg, hd⟩ => ⟨hm.sound hu, hm.agreed hu ?_ hg, ?_⟩) ⟨hs, h, ha⟩).2.1
  · rintro rfl
    exact hd (hl.resolve_left fun h => nomatch h)
  · intro hdr hsv
    obtain ⟨h₁, h₂⟩ := hm.confirmed hu
    exact h₂ (hd hdr (h₁ ▸ hsv))

theorem server_step (hs : s.Sound) (hstep : s.step a = some t) :
    t.server = s.server :=
  ((step_moves hs hstep).keeps (I := fun u => u.Sound ∧ u.server = s.server)
    (fun _ _ _ _ hm hI => ⟨hm.sound hI.1, (hm.confirmed hI.1).1.trans hI.2⟩) ⟨hs, rfl⟩).2

theorem agreed_server
    (h : Machine.run step (init true maxIncoming maxOutgoing window) as = some s) : s.Agreed :=
  (Machine.run_inv (I := fun s : Session => s.Sound ∧ s.server = true ∧ s.Agreed)
    (fun _ _ _ hI hs => ⟨step_sound hI.1 hs, (server_step hI.1 hs).trans hI.2.1, step_agreed hI.1 hs
      (fun _ hsv => Bool.noConfusion (hI.2.1.symm.trans hsv)) hI.2.2⟩)
    ⟨sound_init .., rfl, fun hs _ => (nomatch hs), fun hc => nomatch hc⟩ h).2.2

theorem agreed_client
    (hC : Machine.Along step (fun s a => s.draws a → s.confirmed = true)
    (init false maxIncoming maxOutgoing window) as)
    (h : Machine.run step (init false maxIncoming maxOutgoing window) as = some s) :
    s.Sound ∧ s.Agreed :=
  Machine.run_inv_along (I := fun s : Session => s.Sound ∧ s.Agreed)
    (fun _ _ _ hI ha hs => ⟨step_sound hI.1 hs, step_agreed hI.1 hs (fun hd _ => ha hd) hI.2⟩)
    ⟨sound_init .., fun _ _ => rfl, fun hc => nomatch hc⟩ hC h

/-- A call of `CreateStream` that returns nothing draws no id, if it is not too early. -/
theorem createStream_none {priority : Fin 8} (hs : s.Sound)
    (hd : s.draws (.createStream priority) → s.confirmed = true)
    (h : (s.createStream priority).2 = none) : (s.createStream priority).1 = s := by
  unfold createStream at h ⊢
  split
  · rfl
  next hlim =>
  have he := hs.confirmed (hd (Nat.lt_of_not_le hlim))
  rw [if_neg hlim, createOutgoingDynamicStream_eq hs he] at h
  cases h

/-- **Both ends agree on the preset stream**, and calls of `CreateStream` that return nothing change
    nothing, if every call before the handshake is stopped by the limit of open streams. -/
theorem preset_agreed {maxIncoming maxOutgoing window : ℕ} {as : List SessionAct}
    (hC : Machine.Along step (fun s a => s.draws a → s.confirmed = true)
    (init false maxIncoming maxOutgoing window) as)
    (h : Machine.run step (init false maxIncoming maxOutgoing window) as = some s) :
    (∀ (maxIncoming' maxOutgoing' window' : ℕ) (bs : List SessionAct) (t : Session),
      Machine.run step (init true maxIncoming' maxOutgoing' window') bs = some t →
      s.confirmed = true → t.confirmed = true →
        ∃ obj obj', s.presetStream = some ⟨kPresetStreamId, obj⟩ ∧
          t.presetStream = some ⟨kPresetStreamId, obj'⟩) ∧
    ∀ priority, (s.draws (.createStream priority) → s.confirmed = true) →
      (s.createStream priority).2 = none → (s.createStream priority).1 = s := by
  obtain ⟨hs, hg⟩ := agreed_client hC h
  refine ⟨fun _ _ _ bs t ht hc hc' => ?_, fun priority hd hn => createStream_none hs hd hn⟩
  obtain ⟨obj, ho⟩ := hg.after hc
  obtain ⟨obj', ho'⟩ := (agreed_server ht).after hc'
  exact ⟨obj, obj', ho, ho'⟩

/-- An environment that lets nothing through. -/
def silent : SessionEnv := ⟨0, [], [], []⟩

/-- A client that creates a stream after the handshake. -/
def lateCreate : List SessionAct := [.encryption true silent, .handshake, .createStream kDefaultPriority]

theorem preset_agreed_lateCreate :
    ∃ s t : Session, Machine.run step (init false 10 10 1000) lateCreate = some s ∧
      Machine.run step (init true 10 10 1000) [.handshake] = some t ∧
      s.nextOutgoingStreamId = 7 ∧ ∃ obj obj', s.presetStream = some ⟨kPresetStreamId, obj⟩ ∧
        t.presetStream = some ⟨kPresetStreamId, obj'⟩ := by
  refine ⟨_, _, rfl, rfl, rfl, ?_⟩
  refine (@preset_agreed _ 10 10 1000 lateCreate ?_ rfl).1 10 10 1000 [.handshake] _ rfl rfl rfl
  refine ⟨nofun, fun s hs => ⟨nofun, fun s' hs' => ⟨fun _ => ?_, fun _ _ => trivial⟩⟩⟩
  cases hs; cases hs'; rfl

/-- `CreateStream` before the handshake: it returns nothing, and the preset stream gets another id. -/
theorem preset_displaced : ∃ s : Session,
    Machine.run step (init false 10 10 1000)
    [.createStream 5, .encryption true silent, .handshake] = some s ∧
    ((init false 10 10 1000).createStream 5).2 = none ∧
    s.presetStream = some ⟨5, 1⟩ := ⟨_, rfl, rfl, rfl⟩

/-! ## Delegates -/

/-- Every open stream has a delegate, and of those the peer opens there is the preset stream at most;
    every call so far went to a delegate. -/
structure Delegated (s : Session) : Prop where
  streams : ∀ id st, s.dynamicStreams.lookup id = some st →
    st.delegate = true ∧ (s.isIncomingStream id = true → id = kPresetStreamId)
  calls : ∀ c ∈ s.calls, c.delegate = true

theorem delegated_init (server : Bool) (maxIncoming maxOutgoing window : ℕ) :
    (init server maxIncoming maxOutgoing window).Delegated where
  streams _ _ h := nomatch h
  calls _ h := nomatch h

theorem Delegated.of_lookup (h : s.Delegated)
    (hn : t.nextOutgoingStreamId = s.nextOutgoingStreamId)
    (hd : ∀ id st', t.dynamicStreams.lookup id = some st' →
      ∃ st, s.dynamicStreams.lookup id = some st ∧ st'.delegate = st.delegate)
    (hc : ∀ c ∈ t.calls, c ∈ s.calls ∨
      ∃ st, s.dynamicStreams.lookup c.id = some st ∧ c.delegate = st.delegate) : t.Delegated where
  streams id st' hst' := by
    obtain ⟨st, hst, hdel⟩ := hd id st' hst'
    obtain ⟨h₁, h₂⟩ := h.streams id st hst
    rw [isIncomingStream, hn]
    exact ⟨hdel.trans h₁, h₂⟩
  calls c hct := by
    rcases hc c hct with hc | ⟨st, hst, hdel⟩
    · exact h.calls c hc
    · exact hdel.trans (h.streams c.id st hst).1

theorem Delegated.of_same (h : s.Delegated)
    (hn : t.nextOutgoingStreamId = s.nextOutgoingStreamId)
    (hd : t.dynamicStreams = s.dynamicStreams) (hc : t.calls = s.calls) : t.Delegated :=
  h.of_lookup hn (fun _ st' h => ⟨st', hd ▸ h, rfl⟩) fun _ h => .inl (hc ▸ h)

theorem Delegated.closes (h : s.Delegated)
    (hst : s.dynamicStreams.lookup id = some st) (hdel : st''.delegate = st.delegate)
    (hc : (s.setOpen id st').Closes id st'' t) : t.Delegated := by
  refine h.of_lookup (congrArg (·.nextOutgoingStreamId) hc.ids) ?_ ?_
  · intro k st₁ hst₁
    rcases eq_or_ne k id with rfl | hne
    · rw [hc.dynamic, AList.lookup_erase] at hst₁; cases hst₁
    · rw [hc.dynamic, AList.lookup_erase_ne hne, lookup_setOpen_ne hne] at hst₁
      exact ⟨st₁, hst₁, rfl⟩
  · intro c hct
    rw [hc.calls] at hct
    rcases List.mem_cons.1 hct with rfl | hct
    · exact .inr ⟨st, hst, hdel⟩
    · exact .inl hct

theorem Delegated.setOpen (h : s.Delegated)
    (hid : s.isIncomingStream id = true → id = kPresetStreamId) (hdel : st.delegate = true) :
    (s.setOpen id st).Delegated := by
  refine ⟨fun k st₁ hst₁ => ?_, h.calls⟩
  rcases eq_or_ne k id with rfl | hne
  · rw [lookup_setOpen] at hst₁; cases hst₁; exact ⟨hdel, hid⟩
  · rw [lookup_setOpen_ne hne] at hst₁; exact h.streams k st₁ hst₁

theorem Delegated.handshake (h : s.Delegated) {p : Handle}
    (hid : s.isIncomingStream p.id = true → p.id = kPresetStreamId) (priority : Fin 8) :
    (((s.opened p.id priority).withPreset p).setDelegate p).Delegated := by
  refine ⟨fun k st₁ hst₁ => ?_, ?_⟩
  · rcases setDelegate_opened_lookup hst₁ with ⟨rfl, rfl⟩ | ⟨-, hst₁⟩
    · rw [setDelegate_opened]; exact ⟨rfl, hid⟩
    · rw [setDelegate_opened]; exact h.streams k st₁ hst₁
  · rw [setDelegate_opened]; exact h.calls

theorem Move.delegated (hm : Move s l t) (hs : s.Sound) (hcr : ∀ id, l ≠ .create id)
    (hdr : l ≠ .draw) (h : s.Delegated) : t.Delegated := by
  cases hm with
  | quiet hq =>
    exact h.of_same (congrArg (·.nextOutgoingStreamId) hq.table)
      (congrArg (·.dynamicStreams) hq.table) (congrArg (·.calls) hq.table)
  | @update id st st' hst hu _ =>
    obtain ⟨h₁, h₂⟩ := h.streams id st hst
    exact h.setOpen h₂ (hu.delegate.trans h₁)
  | close hst hu =>
    refine h.closes hst ?_ (closeStream_closes (hs.ne_crypto hst) lookup_setOpen).1
    exact hu.delegate
  | @reset id st hst =>
    obtain ⟨st', hu, hc, -⟩ := resetOpen_closes hs hst
    refine h.closes hst ?_ hc
    exact hu.delegate
  | @call id st hst e =>
    refine h.of_lookup rfl (fun _ st' h => ⟨st', h, rfl⟩) fun c hc => ?_
    rcases List.mem_cons.1 hc with rfl | hc
    · exact .inr ⟨st, hst, rfl⟩
    · exact .inl hc
  | zombie | postProcess | encryption | flush | offer => exact h.of_same rfl rfl rfl
  | drain => unfold streamDraining; split <;> exact h.of_same rfl rfl rfl
  | done => unfold onStreamDoneWaitingForAcks; split <;> exact h.of_same rfl rfl rfl
  | final => unfold onFinalByteOffsetReceived; split <;> exact h.of_same rfl rfl rfl
  | @create id => exact absurd rfl (hcr id)
  | draw => exact absurd rfl hdr
  | handshake hc he =>
    cases hsv : s.server
    · rw [handshakeConfirmed_client hs hsv (he hsv)]
      have hd : s.confirmClient.drawn.Delegated := by
        refine ⟨fun id st hst => ?_, h.calls⟩
        obtain ⟨h₁, h₂⟩ := h.streams id st hst
        refine ⟨h₁, fun hi => h₂ ?_⟩
        rw [isIncomingStream_iff] at hi ⊢
        simpa [drawn, confirmClient] using hi
      refine Delegated.handshake hd (fun hi => ?_) _
      rw [isIncomingStream_iff] at hi
      simp [drawn, confirmClient] at hi
    · rw [handshakeConfirmed_server hs hsv hc]
      have hd : s.confirmServer.Delegated := h.of_same rfl rfl rfl
      exact Delegated.handshake hd (fun _ => rfl) _

theorem step_delegated (hs : s.Sound) (hstep : s.step a = some t)
    (hcr : ∀ id, ¬s.creates a id) (hdr : ∀ priority, a ≠ .createStream priority)
    (h : s.Delegated) : t.Delegated := by
  refine ((step_moves hs hstep).keeps (I := fun u => u.Sound ∧ u.Delegated)
    (fun u l v hl hm ⟨hu, hd⟩ => ⟨hm.sound hu, hm.delegated hu ?_ ?_ hd⟩) ⟨hs, h⟩).2
  · rintro id rfl
    exact hcr id (hl.resolve_left fun h => nomatch h)
  · rintro rfl
    have hd : s.draws a := hl.resolve_left fun h => nomatch h
    cases a with
    | createStream priority => exact hdr priority rfl
    | _ => exact hd

/-- **All calls go to a delegate** and no stream of the peer but the preset stream is open, in every run
    in which no frame makes the session create a stream.  The delegates of the two sessions do not
    call `CreateStream`. -/
theorem delegates_called {server : Bool} {maxIncoming maxOutgoing window : ℕ}
    {as : List SessionAct} (ha : ∀ a ∈ as, ∀ priority, a ≠ .createStream priority)
    (hC : Machine.Along step (fun s a => ∀ id, ¬s.creates a id)
    (init server maxIncoming maxOutgoing window) as)
    (h : Machine.run step (init server maxIncoming maxOutgoing window) as = some s) :
    (∀ c ∈ s.calls, c.delegate = true) ∧
    ∀ id ∈ s.dynamicStreams.keys, s.isIncomingStream id = true → id = kPresetStreamId := by
  have hA : Machine.Along step (fun _ a => ∀ priority, a ≠ .createStream priority)
    (init server maxIncoming maxOutgoing window) as := .of_forall ha
  obtain ⟨-, hd⟩ := Machine.run_inv_along (I := fun s : Session => s.Sound ∧ s.Delegated)
    (fun _ _ _ hI ha hs => ⟨step_sound hI.1 hs, step_delegated hI.1 hs ha.1 ha.2 hI.2⟩)
    ⟨sound_init .., delegated_init ..⟩ (hC.and hA) h
  refine ⟨hd.calls, fun id hid => ?_⟩
  obtain ⟨st, hst⟩ := Option.isSome_iff_exists.1 (AList.lookup_isSome.2 (AList.mem_keys.2 hid))
  exact (hd.streams id st hst).2

/-- A server whose peer uses the preset stream. -/
def presetOnly : List SessionAct := [.handshake, .streamFrame 3 false false [.available]]

theorem delegates_called_presetOnly : ∃ s : Session,
    Machine.run step (init true 10 10 1000) presetOnly = some s ∧ s.calls.length = 1 ∧
    (∀ c ∈ s.calls, c.delegate = true) ∧
    ∀ id ∈ s.dynamicStreams.keys, s.isIncomingStream id = true → id = kPresetStreamId := by
  refine ⟨_, rfl, rfl, @delegates_called _ true 10 10 1000 presetOnly ?_ ?_ rfl⟩
  · intro a ha priority he
    subst he
    simp [presetOnly] at ha
  · refine ⟨nofun, fun s hs => ⟨fun id hc => ?_, fun _ _ => trivial⟩⟩
    cases hs
    exact absurd hc.2 (by decide +kernel)

/-- The peer opens stream 5 and resets it: a delegate is told that is not there. -/
theorem delegate_missing : ∃ s : Session,
    Machine.run step (init true 10 10 1000) [.handshake, .rstStream 5 true] = some s ∧
    s.calls = [⟨5, .closed, false⟩] := ⟨_, rfl, rfl⟩

/-! ## Its life -/

/-- The stream behind the pointer exists. -/
def Holds (s : Session) (h : Handle) : Prop :=
  (∃ st, s.dynamicStreams.lookup h.id = some st ∧ st.obj = h.obj) ∨
  (∃ st, s.zombieStreams.lookup h.id = some st ∧ st.obj = h.obj) ∨
  ∃ st, (h.id, st) ∈ s.closedStreams ∧ st.obj = h.obj

structure PresetKept (s : Session) : Prop where
  some_of_confirmed : s.confirmed = true → ∃ h, s.presetStream = some h
  held : ∀ h, s.presetStream = some h → s.Holds h
  server : ∀ h, s.presetStream = some h → s.server = true → h.id = kPresetStreamId
  client : ∀ h, s.presetStream = some h → s.server = false →
    h.id % 2 = s.nextOutgoingStreamId % 2 ∧ h.id < s.nextOutgoingStreamId ∧
      ∀ st, s.dynamicStreams.lookup h.id = some st → st.obj = h.obj

theorem presetKept_init (server : Bool) (maxIncoming maxOutgoing window : ℕ) :
    (init server maxIncoming maxOutgoing window).PresetKept where
  some_of_confirmed h := nomatch h
  held _ h := nomatch h
  server _ h := nomatch h
  client _ h := nomatch h

/-- A change of ids and of the table that loses no stream and makes none. -/
theorem PresetKept.of_table (h : s.PresetKept) (hids : t.toStreamIds = s.toStreamIds)
    (hh : ∀ h, s.presetStream = some h → s.Holds h → t.Holds h)
    (hd : ∀ id st', t.dynamicStreams.lookup id = some st' →
      ∃ st, s.dynamicStreams.lookup id = some st ∧ st'.obj = st.obj) : t.PresetKept where
  some_of_confirmed := by rw [hids]; exact h.some_of_confirmed
  held := by rw [hids]; exact fun hd hp => hh hd hp (h.held hd hp)
  server := by rw [hids]; exact h.server
  client := by
    rw [hids]
    intro hd' hp hsv
    obtain ⟨h₁, h₂, h₃⟩ := h.client hd' hp hsv
    refine ⟨h₁, h₂, fun st' hst' => ?_⟩
    obtain ⟨st, hst, ho⟩ := hd _ st' hst'
    exact ho.trans (h₃ st hst)

theorem PresetKept.of_same (h : s.PresetKept) (hids : t.toStreamIds = s.toStreamIds)
    (h₁ : t.dynamicStreams = s.dynamicStreams) (h₂ : t.zombieStreams = s.zombieStreams)
    (h₃ : t.closedStreams = s.closedStreams) : t.PresetKept := by
  refine h.of_table hids (fun hd _ hh => ?_) fun _ st' h => ⟨st', h₁ ▸ h, rfl⟩
  rw [Holds, h₁, h₂, h₃]
  exact hh

theorem Holds.setOpen (hh : s.Holds h) (hst : s.dynamicStreams.lookup id = some st)
    (ho : st'.obj = st.obj) : (s.setOpen id st').Holds h := by
  rcases hh with ⟨st₁, hst₁, ho₁⟩ | hh
  · left
    rcases eq_or_ne h.id id with hid | hne
    · rw [hid, hst] at hst₁
      cases hst₁
      exact ⟨st', hid ▸ lookup_setOpen, ho.trans ho₁⟩
    · exact ⟨st₁, (lookup_setOpen_ne hne).trans hst₁, ho₁⟩
  · exact .inr hh

/-- A stream that leaves does not take the place of the preset stream. -/
theorem Holds.closes (hh : s.Holds h)
    (hst : s.dynamicStreams.lookup id = some st) (ho : st''.obj = st.obj)
    (hc : (s.setOpen id st').Closes id st'' t)
    (htwin : id = h.id → st.obj ≠ h.obj → st''.isWaitingForAcks = false) : t.Holds h := by
  have hz := hc.zombie
  have hcl := hc.closed
  rcases hh with ⟨st₁, hst₁, ho₁⟩ | ⟨st₁, hst₁, ho₁⟩ | ⟨st₁, hst₁, ho₁⟩
  · rcases eq_or_ne h.id id with hid | hne
    · rw [hid, hst] at hst₁
      cases hst₁
      right
      split at hz
      · exact .inl ⟨st''.onClose, by rw [hz, hid, AList.lookup_insert], ho.trans ho₁⟩
      · next hw =>
        rw [if_neg hw] at hcl
        exact .inr ⟨st''.onClose, by rw [hcl, hid]; simp, ho.trans ho₁⟩
    · left
      exact ⟨st₁, by rw [hc.dynamic, AList.lookup_erase_ne hne, lookup_setOpen_ne hne, hst₁], ho₁⟩
  · right; left
    split at hz
    · next hw =>
      rcases eq_or_ne h.id id with hid | hne
      · by_cases hobj : st.obj = h.obj
        · exact ⟨st''.onClose, by rw [hz, hid, AList.lookup_insert], ho.trans hobj⟩
        · rw [htwin hid.symm hobj] at hw; cases hw
      · exact ⟨st₁, by rw [hz, AList.lookup_insert_ne hne]; exact hst₁, ho₁⟩
    · exact ⟨st₁, by rw [hz]; exact hst₁, ho₁⟩
  · right; right
    refine ⟨st₁, ?_, ho₁⟩
    rw [hcl]
    split
    · exact hst₁
    · exact List.mem_append_left _ hst₁

/-- A stream under the preset id that is not the preset stream waits for nothing when it leaves. -/
theorem PresetKept.twin (hk : s.PresetKept)
    (hp : s.presetStream = some h) (hst : s.dynamicStreams.lookup id = some st) (hid : id = h.id)
    (hobj : st.obj ≠ h.obj) : s.Twin id st.obj := by
  subst hid
  have hsv : s.server = true := by
    cases hsv : s.server
    · exact absurd ((hk.client h hp hsv).2.2 st hst) hobj
    · rfl
  refine ⟨hsv, hk.server h hp hsv, fun he => hobj ?_⟩
  rw [hp, Option.some.injEq] at he
  rw [he]

theorem not_waiting (h : st.send.Idle) : (st.leaving locallyReset).isWaitingForAcks = false := by
  simp [Stream.isWaitingForAcks, Stream.leaving, h.bytesOutstanding, h.finOutstanding]

theorem PresetKept.closes (hk : s.PresetKept) (hs : s.Sound)
    (hst : s.dynamicStreams.lookup id = some st) (hu : s.Updates id st st')
    (hc : (s.setOpen id st').Closes id (st'.leaving locallyReset) t) : t.PresetKept := by
  refine hk.of_table hc.ids (fun h hp hh => ?_) fun k st₁ hst₁ => ?_
  · have ho : (st'.leaving locallyReset).obj = st.obj := hu.later.obj
    refine hh.closes hst ho hc fun hid hobj => not_waiting ?_
    have ht := hk.twin hp hst hid hobj
    refine (hu.idle (hs.idle id st hst ht)).resolve_right fun hr => ?_
    rw [resolve_twin ht] at hr; cases hr
  · rcases eq_or_ne k id with rfl | hne
    · rw [hc.dynamic, AList.lookup_erase] at hst₁; cases hst₁
    · rw [hc.dynamic, AList.lookup_erase_ne hne, lookup_setOpen_ne hne] at hst₁
      exact ⟨st₁, hst₁, rfl⟩

theorem Holds.opened (hh : s.Holds h) (hd : s.isDynamic id = false)
    (priority : Fin 8) : (s.opened id priority).Holds h := by
  rcases hh with ⟨st, hst, ho⟩ | hh
  · refine .inl ⟨st, ?_, ho⟩
    have hne : h.id ≠ id := by
      rintro rfl
      rw [isDynamic_eq_false, hst] at hd; cases hd
    exact (AList.lookup_insert_ne hne).trans hst
  · exact .inr hh

theorem PresetKept.opened (hk : s.PresetKept) (hd : s.isDynamic id = false)
    (hid : ∀ h, s.presetStream = some h → s.server = false → h.id ≠ id) (priority : Fin 8) :
    (s.opened id priority).PresetKept where
  some_of_confirmed := hk.some_of_confirmed
  held h hp := (hk.held h hp).opened hd priority
  server := hk.server
  client h hp hsv := by
    obtain ⟨h₁, h₂, h₃⟩ := hk.client h hp hsv
    refine ⟨h₁, h₂, fun st hst => h₃ st ?_⟩
    exact (AList.lookup_insert_ne (hid h hp hsv)).symm.trans hst

theorem PresetKept.offered (hk : s.PresetKept) (id : ℕ) : (s.offered id).PresetKept :=
  ⟨hk.some_of_confirmed, hk.held, hk.server, hk.client⟩

theorem PresetKept.drawn (hk : s.PresetKept) : s.drawn.PresetKept := by
  refine ⟨hk.some_of_confirmed, hk.held, hk.server, fun h hp hsv => ?_⟩
  obtain ⟨h₁, h₂, h₃⟩ := hk.client h hp hsv
  refine ⟨?_, ?_, h₃⟩
  · simpa [Session.drawn] using h₁
  · simp only [Session.drawn]; omega

theorem presetKept_handshake (hobj : h.obj = s.nextObj)
    (hsv : s.server = true → h.id = kPresetStreamId)
    (hcl : s.server = false → h.id % 2 = s.nextOutgoingStreamId % 2 ∧
      h.id < s.nextOutgoingStreamId) (priority : Fin 8) :
    (((s.opened h.id priority).withPreset h).setDelegate h).PresetKept := by
  rw [setDelegate_opened]
  refine ⟨fun _ => ⟨h, rfl⟩, fun h' hp => ?_, fun h' hp hs => ?_, fun h' hp hs => ?_⟩
  · cases hp
    exact .inl ⟨_, lookup_setOpen, hobj.symm⟩
  · cases hp
    exact hsv hs
  · cases hp
    refine ⟨(hcl hs).1, (hcl hs).2, fun st hst => ?_⟩
    rw [lookup_setOpen] at hst
    cases hst
    exact hobj.symm

theorem Holds.done (hh : s.Holds h) (id : ℕ) : (s.onStreamDoneWaitingForAcks id).Holds h := by
  unfold onStreamDoneWaitingForAcks
  split
  · exact hh
  next st hst =>
  rcases hh with hh | ⟨st₁, hst₁, ho⟩ | ⟨st₁, hst₁, ho⟩
  · exact .inl hh
  · rcases eq_or_ne h.id id with hid | hne
    · rw [hid, hst] at hst₁
      cases hst₁
      exact .inr (.inr ⟨st, by rw [hid]; simp, ho⟩)
    · exact .inr (.inl ⟨st₁, (AList.lookup_erase_ne hne).trans hst₁, ho⟩)
  · exact .inr (.inr ⟨st₁, List.mem_append_left _ hst₁, ho⟩)

theorem Move.presetKept (hm : Move s l t) (hs : s.Sound) (hl : l ≠ .postProcess)
    (h : s.PresetKept) : t.PresetKept := by
  cases hm with
  | quiet hq =>
    exact h.of_same (congrArg (·.toStreamIds) hq.table) (congrArg (·.dynamicStreams) hq.table)
      (congrArg (·.zombieStreams) hq.table) (congrArg (·.closedStreams) hq.table)
  | @update id st st' hst hu _ =>
    refine h.of_table rfl (fun _ _ hh => hh.setOpen hst hu.later.obj) fun k st₁ hst₁ => ?_
    rcases eq_or_ne k id with rfl | hne
    · rw [lookup_setOpen] at hst₁
      cases hst₁
      exact ⟨st, hst, hu.later.obj⟩
    · rw [lookup_setOpen_ne hne] at hst₁
      exact ⟨st₁, hst₁, rfl⟩
  | @zombie id st st' _ hst hl' =>
    refine h.of_table rfl (fun hd _ hh => ?_) fun _ st₁ hst₁ => ⟨st₁, hst₁, rfl⟩
    rcases hh with hh | ⟨st₁, hst₁, ho⟩ | hh
    · exact .inl hh
    · rcases eq_or_ne hd.id id with hid | hne
      · rw [hid, hst] at hst₁
        cases hst₁
        exact .inr (.inl ⟨st', hid ▸ AList.lookup_insert _, hl'.obj.trans ho⟩)
      · exact .inr (.inl ⟨st₁, (AList.lookup_insert_ne hne).trans hst₁, ho⟩)
    · exact .inr (.inr hh)
  | close hst hu => exact h.closes hs hst hu (closeStream_closes (hs.ne_crypto hst) lookup_setOpen).1
  | reset hst =>
    obtain ⟨st', hu, hc, -⟩ := resetOpen_closes hs hst
    exact h.closes hs hst hu hc
  | call => exact h.of_same rfl rfl rfl rfl
  | drain => unfold streamDraining; split <;> exact h.of_same rfl rfl rfl rfl
  | done id =>
    refine h.of_table ?_ (fun _ _ hh => hh.done id) ?_
    · unfold onStreamDoneWaitingForAcks; split <;> rfl
    · unfold onStreamDoneWaitingForAcks
      split <;> exact fun _ st₁ hst₁ => ⟨st₁, hst₁, rfl⟩
  | final => unfold onFinalByteOffsetReceived; split <;> exact h.of_same rfl rfl rfl rfl
  | offer => exact h.offered _
  | @create id ho he =>
    rw [createIncomingDynamicStream_eq ho]
    refine (h.offered id).opened ho.notDynamic (fun hd hp hsv hid => ?_) _
    exact isIncomingStream_iff.1 ho.incoming (hid ▸ (h.client hd hp hsv).1)
  | draw priority =>
    cases he : s.established
    · rw [createOutgoingDynamicStream, if_neg (by simp [he])]
      exact h.drawn
    · rw [createOutgoingDynamicStream_eq hs he]
      refine h.drawn.opened (Bool.eq_false_iff.2 fun hd => hs.not_held_next (.inl hd))
        (fun hd hp hsv hid => ?_) _
      have := (h.client hd hp hsv).2.1
      omega
  | encryption => exact ⟨h.some_of_confirmed, h.held, h.server, h.client⟩
  | handshake hc he =>
    cases hsv : s.server
    · rw [handshakeConfirmed_client hs hsv (he hsv)]
      refine presetKept_handshake (s := s.confirmClient.drawn)
        rfl
        (fun h => Bool.noConfusion (hsv.symm.trans h)) (fun _ => ?_) _
      simp [drawn, confirmClient]
    · rw [handshakeConfirmed_server hs hsv hc]
      exact presetKept_handshake (s := s.confirmServer)
        rfl (fun _ => rfl)
        (fun h => Bool.noConfusion (hsv.symm.trans h)) _
  | postProcess => exact absurd rfl hl
  | flush =>
    refine h.of_table rfl (fun hd _ hh => ?_) fun _ st₁ hst₁ => ⟨st₁, hst₁, rfl⟩
    rcases hh with hh | ⟨st₁, hst₁, ho⟩ | ⟨st₁, hst₁, ho⟩
    · exact .inl hh
    · refine .inr (.inr ⟨st₁, List.mem_append_right _ ?_, ho⟩)
      exact List.mem_map.2 ⟨⟨hd.id, st₁⟩, AList.mem_lookup_iff.1 hst₁, rfl⟩
    · exact .inr (.inr ⟨st₁, List.mem_append_left _ hst₁, ho⟩)

/-- The event destroys the preset stream: `PostProcessAfterData` finds it among the closed streams. -/
def destroysPreset (s : Session) : SessionAct → Prop
  | .postProcess => ∃ h st, s.presetStream = some h ∧ (h.id, st) ∈ s.closedStreams ∧ st.obj = h.obj
  | _ => False

theorem step_presetKept (hs : s.Sound) (hstep : s.step a = some t)
    (ha : ¬s.destroysPreset a) (h : s.PresetKept) : t.PresetKept := by
  by_cases hp : a = .postProcess
  · subst hp
    unfold step at hstep
    split at hstep
    · cases hstep
      refine h.of_table rfl (fun hd hpre hh => ?_) fun _ st₁ hst₁ => ⟨st₁, hst₁, rfl⟩
      rcases hh with hh | hh | ⟨st, hst, ho⟩
      · exact .inl hh
      · exact .inr (.inl hh)
      · exact absurd ⟨hd, st, hpre, hst, ho⟩ ha
    · cases hstep
  · refine ((step_moves hs hstep).keeps (I := fun u => u.Sound ∧ u.PresetKept)
      (fun u l v hl hm ⟨hu, hk⟩ => ⟨hm.sound hu, hm.presetKept hu ?_ hk⟩) ⟨hs, h⟩).2
    rintro rfl
    exact hp (hl.resolve_left fun h => nomatch h)

/-- **The preset stream is never stale** after the handshake, in every run in which
    `PostProcessAfterData` does not find it among the closed streams. -/
theorem preset_held {server : Bool} {maxIncoming maxOutgoing window : ℕ} {as : List SessionAct}
    (hC : Machine.Along step (fun s a => ¬s.destroysPreset a)
    (init server maxIncoming maxOutgoing window) as)
    (h : Machine.run step (init server maxIncoming maxOutgoing window) as = some s)
    (hc : s.confirmed = true) : ∃ hd, s.presetStream = some hd ∧ s.Holds hd := by
  obtain ⟨-, hk⟩ := Machine.run_inv_along (I := fun s : Session => s.Sound ∧ s.PresetKept)
    (fun _ _ _ hI ha hs => ⟨step_sound hI.1 hs, step_presetKept hI.1 hs ha hI.2⟩)
    ⟨sound_init .., presetKept_init ..⟩ hC h
  obtain ⟨hd, hp⟩ := hk.some_of_confirmed hc
  exact ⟨hd, hp, hk.held hd hp⟩

/-- The peer resets the preset stream. -/
def presetReset : List SessionAct := [.handshake, .rstStream 3 true]

theorem preset_held_presetReset : ∃ s : Session,
    Machine.run step (init true 10 10 1000) presetReset = some s ∧ s.dynamicStreams.keys = [] ∧
    ∃ hd, s.presetStream = some hd ∧ s.Holds hd :=
  ⟨_, rfl, rfl, @preset_held _ true 10 10 1000 presetReset ⟨nofun,
    fun _ _ => ⟨nofun, fun _ _ => trivial⟩⟩ rfl rfl⟩

/-- Then the closed streams are destroyed. -/
theorem preset_stale : ∃ s : Session,
    Machine.run step (init true 10 10 1000) (presetReset ++ [.postProcess]) = some s ∧
    s.connected = true ∧ s.presetStream = some ⟨3, 1⟩ ∧ ¬s.Holds ⟨3, 1⟩ := by
  refine ⟨_, rfl, rfl, rfl, ?_⟩
  rintro (⟨st, h, -⟩ | ⟨st, h, -⟩ | ⟨st, h, -⟩)
  · cases h
  · cases h
  · cases h

end Session
end Puic
