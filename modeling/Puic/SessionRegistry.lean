/-
  The write scheduler and the open streams.

  Every open stream is registered (`Sound.registered`).  A stream is unregistered by
  `PuicSessionBase::CloseStream`, unless its id counts as closed already.  A local
  reset takes the stream out of the map first and comes to `CloseStream` only then:
  the stream stays registered for good (`reset_stays_registered`).  Without a reset of
  that kind the registered streams are the open ones (`registered_iff_open`).
-/
import Puic.SessionSteps

namespace Puic
namespace Session

variable {s t : Session} {id k : ℕ} {l : Label}

/-- Only open streams are registered. -/
def Tracked (s : Session) : Prop :=
  ∀ k, s.writeBlocked.scheduler.Registered k → s.isDynamic k = true

theorem Tracked.opened (h : s.Tracked) (priority : Fin 8) : (s.opened id priority).Tracked :=
  fun _ hk => opened_isDynamic.2
    ((PriorityWriteScheduler.registered_registerStream.1 hk).symm.imp And.left (h _))

theorem Tracked.setDelegate (h : s.Tracked) (hd : Handle) : (s.setDelegate hd).Tracked := by
  unfold Session.setDelegate
  split
  · exact h
  · exact fun k hk => isDynamic_setOpen.2 (.inr (h k hk))

theorem Tracked.withPreset (h : s.Tracked) (hd : Handle) : (s.withPreset hd).Tracked := h

theorem Tracked.closes {st st' : Stream} (h : s.Tracked) (hc : (s.setOpen id st).Closes id st' t)
    (hwb : t.writeBlocked = s.writeBlocked.unregisterStream id) : t.Tracked := by
  intro k hk
  rw [hwb] at hk
  obtain ⟨hk, hne⟩ := PriorityWriteScheduler.registered_unregisterStream.1 hk
  rw [isDynamic, hc.dynamic, AList.lookup_erase_ne hne, lookup_setOpen_ne hne]
  exact h k hk

theorem Tracked.reset {st : Stream} (h : s.Tracked) (hs : s.Sound)
    (hst : s.dynamicStreams.lookup id = some st) (hr : s.isRetired id = false) :
    (s.resetOpen id).Tracked := by
  obtain ⟨st', -, hc, hwb⟩ := resetOpen_closes hs hst
  rw [hr, if_neg Bool.false_ne_true] at hwb
  exact h.closes hc hwb

theorem Move.tracked (hm : Move s l t) (hs : s.Sound) (hl : ∀ id, l ≠ .reset id true)
    (h : s.Tracked) : t.Tracked := by
  cases hm with
  | quiet hq =>
    intro k hk
    have hd : t.dynamicStreams = s.dynamicStreams := congrArg (·.dynamicStreams) hq.table
    rw [isDynamic, hd]
    exact h k (hq.registered k hk)
  | update hst hu hd => exact fun k hk => isDynamic_setOpen.2 (.inr (h k hk))
  | close hst hu =>
    obtain ⟨hc, hwb⟩ := closeStream_closes (hs.ne_crypto hst) lookup_setOpen
    exact h.closes hc hwb
  | @reset id st hst =>
    cases hr : s.isRetired id with
    | false => exact h.reset hs hst hr
    | true => exact absurd (congrArg _ hr) (hl id)
  | zombie | call | postProcess | encryption | flush | offer => exact h
  | drain => unfold streamDraining; split <;> exact h
  | done => unfold onStreamDoneWaitingForAcks; split <;> exact h
  | final => unfold onFinalByteOffsetReceived; split <;> exact h
  | create ho he => rw [createIncomingDynamicStream_eq ho]; exact h.opened _
  | draw priority =>
    cases he : s.established
    · rw [createOutgoingDynamicStream, if_neg (by simp [he])]
      exact h
    · rw [createOutgoingDynamicStream_eq hs he]
      exact Tracked.opened h _
  | handshake hc he =>
    cases hsv : s.server
    · rw [handshakeConfirmed_client hs hsv (he hsv)]
      exact ((Tracked.opened (s := s.confirmClient.drawn) h _).withPreset _).setDelegate _
    · rw [handshakeConfirmed_server hs hsv hc]
      exact ((Tracked.opened (s := s.confirmServer) h _).withPreset _).setDelegate _

theorem step_tracked {a : SessionAct} (hs : s.Sound) (hstep : s.step a = some t)
    (ha : ∀ id, s.resets a id → id ∈ s.availableStreams) (h : s.Tracked) : t.Tracked := by
  have hl : ∀ l, l = .inner ∨ l ∈ s.labels a → ∀ id, l ≠ .reset id true := by
    rintro l hl id rfl
    obtain ⟨hr, hret⟩ := hl.resolve_left (fun h => nomatch h)
    have hav := ha id hr
    rcases StreamIds.isRetired_iff.1 hret.symm with ⟨hp, -⟩ | ⟨-, -, hn⟩
    · exact (hs.available id hav).2 hp
    · exact hn hav
  exact ((step_moves hs hstep).keeps (I := fun s => s.Sound ∧ s.Tracked)
    (fun _ l _ hl' hm hI => ⟨hm.sound hI.1, hm.tracked hI.1 (hl l hl') hI.2⟩) ⟨hs, h⟩).2

theorem Tracked.registered_iff (h : s.Tracked) (hs : s.Sound) (id : ℕ) :
    s.writeBlocked.scheduler.Registered id ↔ id ∈ s.dynamicStreams.keys := by
  rw [← AList.mem_keys, ← AList.lookup_isSome]
  exact ⟨h id, hs.registered id⟩

/-- **The registered streams are the open ones**, in every run in which only streams whose id is
    available to the peer are reset locally. -/
theorem registered_iff_open {server : Bool} {maxIncoming maxOutgoing window : ℕ}
    {as : List SessionAct}
    (hC : Machine.Along step (fun s a => ∀ id, s.resets a id → id ∈ s.availableStreams)
      (init server maxIncoming maxOutgoing window) as)
    (h : Machine.run step (init server maxIncoming maxOutgoing window) as = some s) (id : ℕ) :
    s.writeBlocked.scheduler.Registered id ↔ id ∈ s.dynamicStreams.keys := by
  have hinv := Machine.run_inv_along (I := fun s : Session => s.Sound ∧ s.Tracked)
    (fun _ _ _ hI ha hs => ⟨step_sound hI.1 hs, step_tracked hI.1 hs ha hI.2⟩)
    ⟨sound_init .., fun _ hk => nomatch hk⟩ hC h
  exact hinv.2.registered_iff hinv.1 id

/-- A server whose peer opens and resets a stream. -/
def peerReset : List SessionAct :=
  [.handshake, .streamFrame 5 false false [.available], .rstStream 5 true]

theorem registered_iff_open_peerReset : ∃ s : Session,
    Machine.run step (init true 10 10 1000) peerReset = some s ∧ s.dynamicStreams.keys = [3] ∧
    ∀ id, s.writeBlocked.scheduler.Registered id ↔ id ∈ s.dynamicStreams.keys := by
  refine ⟨_, rfl, rfl, @registered_iff_open _ true 10 10 1000 peerReset ?_ rfl⟩
  exact ⟨nofun, fun _ _ => ⟨(fun _ h => nomatch h.2.1), fun _ _ => ⟨nofun, fun _ _ => trivial⟩⟩⟩

/-- `CancelStream` of the preset stream. -/
theorem reset_stays_registered : ∃ s : Session,
    Machine.run step (init true 10 10 1000) [.handshake, .cancelStream kPresetStreamId] = some s ∧
    s.writeBlocked.scheduler.Registered kPresetStreamId ∧
    kPresetStreamId ∉ s.dynamicStreams.keys := by
  refine ⟨_, rfl, rfl, ?_⟩
  decide +kernel

end Session
end Puic
