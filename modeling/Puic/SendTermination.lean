/-
  A write whose packets may fail (`QuicPacketGenerator::ConsumeData`).

  `ShouldGeneratePacket` is false without a connection here.  A failed packet of the slow loop
  ends the write.  But the fast loop makes the same packet again as long as the connection is
  open, and a handshake message flushes the frames that wait whether or not there is one.

  `consumeData_returns_iff`: a call returns, and with the number of bytes that were put into
  frames, exactly if it never comes to a round that all later failures repeat, never to a padding
  without a length, and never to a CHLO in the middle of a write.
-/
import Puic.PacketGenerator

namespace Puic

open List Option Function

namespace PacketGenerator

variable {d : GeneratorDelegate} {g : PacketGenerator}

/-- A frame without room stays without room as long as packets fail. -/
theorem sendQueuedFrame_blocked (hs : g.Sound) (hb : g.Blocked)
    (hfail : d.failure g.attempts ≠ none) :
    g.sendQueuedFrame d true = none ∨
      ∃ g', g.sendQueuedFrame d true = some (g', false) ∧ g'.Blocked ∧
        g'.attempts = g.attempts + 1 := by
  obtain ⟨f, rest, hp, hq, h0⟩ := hb
  have hw := hs.pending f (hp ▸ mem_cons_self)
  have hround : g.sendQueuedFrame d true = (g.flush d).map (·, false) := by
    unfold sendQueuedFrame
    simp [hp, addFrame_waits hw, h0, hq, comp_def]
  rw [hround]
  by_cases hend : g.creator.EndlessPadding
  · rw [flush_of_endless hend]
    exact .inl rfl
  · obtain ⟨g', hflush, hflushed⟩ := exists_flush hs.sized hend
    rw [hflush]
    refine .inr ⟨g', rfl, ?_⟩
    cases hflushed with
    | nothing hempty => exact absurd hempty hq
    | failed hfail hadds hfills =>
      exact ⟨⟨f, rest, hp, hfills.queued hq, hfills.full f hq h0⟩, rfl⟩
    | sent hok => exact absurd hok hfail

end PacketGenerator

namespace ConsumeCall

open PacketGenerator

variable {d : GeneratorDelegate} {a : ConsumeRequest} {g₀ : PacketGenerator} {c : ConsumeCall}
  {total k : ℕ} {flush finConsumed : Bool}

/-! ## Calls that are stuck -/

/-- All packets from here on fail. -/
def AllFail (d : GeneratorDelegate) (g : PacketGenerator) : Prop :=
  ∀ k, g.attempts ≤ k → d.failure k ≠ none

/-- The round is repeated forever. -/
def Repeats (d : GeneratorDelegate) (a : ConsumeRequest) (c : ConsumeCall) : Prop :=
  match c.phase with
  | .before flush => flush = true ∧ c.generator.Blocked ∧ AllFail d c.generator
  | .fast total =>
    total < a.writeLength ∧ c.generator.connected = true ∧
      (∀ k, c.generator.asked ≤ k → d.shouldGeneratePacket true k = true) ∧
      ∀ k, c.generator.attempts ≤ k →
        ∃ fault, d.failure k = some fault ∧ d.onError fault = false
  | .after _ _ => c.generator.Blocked ∧ AllFail d c.generator
  | _ => False

/-- The call does not get on any more. -/
def Stuck (d : GeneratorDelegate) (a : ConsumeRequest) (c : ConsumeCall) : Prop :=
  Lost d a c ∨ Repeats d a c

theorem AllFail.succ {g g' : PacketGenerator} (h : AllFail d g)
    (hk : g'.attempts = g.attempts + 1) : AllFail d g' :=
  fun k hle => h k (by omega)

theorem step_lost (hs : c.generator.Sound) (h : Lost d a c) :
    c.step d a = ⟨c.generator, .endless⟩ := by
  obtain ⟨g, phase⟩ := c
  obtain ⟨hend, hphase⟩ := h
  cases phase with
  | before flush =>
    show queuedRound d flush (.before flush) .room g = _
    rw [queuedRound, sendQueuedFrame_of_endless hs hphase hend]
  | room =>
    have hroom : g.creator.hasRoomForStreamFrame a.streamId (a.offsetAt 0) = false := hphase
    simp only [step, hroom, flush_of_endless hend]
    rfl
  | after total finConsumed =>
    show queuedRound d true (.after total finConsumed) (.returned ⟨total, finConsumed⟩) g = _
    rw [queuedRound, sendQueuedFrame_of_endless hs hphase hend]
  | _ => exact False.elim hphase

theorem queuedRound_blocked {g : PacketGenerator} (here next : ConsumePhase) (hs : g.Sound)
    (hb : g.Blocked) (hfail : d.failure g.attempts ≠ none) :
    (queuedRound d true here next g).phase = .endless ∨
      ∃ g', queuedRound d true here next g = ⟨g', here⟩ ∧ g'.Blocked ∧
        g'.attempts = g.attempts + 1 := by
  unfold queuedRound
  obtain hnone | ⟨g', hsome, hb', hk⟩ := sendQueuedFrame_blocked hs hb hfail
  · rw [hnone]
    exact .inl rfl
  · rw [hsome]
    exact .inr ⟨g', rfl, hb', hk⟩

theorem Repeats.step (hs : c.generator.Sound) (h : Repeats d a c) :
    (c.step d a).phase = .endless ∨ Repeats d a (c.step d a) := by
  obtain ⟨g, phase⟩ := c
  cases phase with
  | before flush =>
    obtain ⟨rfl, hb, hall⟩ := h
    refine (queuedRound_blocked (.before true) .room hs hb (hall _ le_rfl)).imp_right ?_
    rintro ⟨g', heq, hb', hk⟩
    show Repeats d a (queuedRound d true (.before true) .room g)
    rw [heq]
    exact ⟨rfl, hb', hall.succ hk⟩
  | fast total =>
    obtain ⟨hlt, hconn, hasks, hall⟩ := h
    have hconn : g.connected = true := hconn
    obtain ⟨fault, hfail, hopen⟩ := hall g.attempts le_rfl
    have hask : g.asks d = true := by
      unfold asks
      rw [hconn]
      exact hasks _ le_rfl
    right
    show Repeats d a (fastRound d a g total)
    rw [fastRound_failed hlt hask hfail]
    exact ⟨hlt, by simp [hconn, hopen], fun k hle => hasks k (Nat.le_of_succ_le hle),
      fun k hle => hall k (Nat.le_of_succ_le hle)⟩
  | after total finConsumed =>
    obtain ⟨hb, hall⟩ := h
    refine (queuedRound_blocked (.after total finConsumed) (.returned ⟨total, finConsumed⟩) hs hb
      (hall _ le_rfl)).imp_right ?_
    rintro ⟨g', heq, hb', hk⟩
    show Repeats d a (queuedRound d true _ _ g)
    rw [heq]
    exact ⟨hb', hall.succ hk⟩
  | _ => exact False.elim h

theorem Stuck.never_returned (hd : d.Settled) (h : Stuck d a ((ConsumeCall.step d a)^[k] c))
    (hinv : Inv d a g₀ ((ConsumeCall.step d a)^[k] c)) (m : ℕ) :
    ¬((ConsumeCall.step d a)^[m] c).Returned := by
  -- what is stuck stays stuck, or is endless
  refine Halting.not_both (Q := Returned)
    (P := fun c => (Stuck d a c ∨ c.phase = .endless) ∧ Inv d a g₀ c) ?_ ?_ ?_ ⟨.inl h, hinv⟩
  · rintro c ⟨hc, hi⟩
    have hfree : ¬Discards d a c ∧ ¬c.Returned := by
      obtain ⟨g, phase⟩ := c
      rcases hc with (⟨-, hphase⟩ | hrep) | hend
      · cases phase <;> first | exact False.elim hphase | exact ⟨id, fun ⟨r, hr⟩ => by cases hr⟩
      · cases phase <;> first | exact False.elim hrep | exact ⟨id, fun ⟨r, hr⟩ => by cases hr⟩
      · obtain rfl : phase = .endless := hend
        exact ⟨id, fun ⟨r, hr⟩ => by cases hr⟩
    refine ⟨?_, (good_step hd hi hfree.1 hfree.2).inv⟩
    rcases hc with (hlost | hrep) | hend
    · exact .inr (by rw [step_lost hi.sound hlost])
    · exact (hrep.step hi.sound).symm.imp_left .inr
    · refine .inr ?_
      unfold ConsumeCall.step
      rw [hend]
      exact hend
  · intro c hr
    rw [step_returned hr]
    exact hr
  · rintro ⟨g, phase⟩ ⟨hc, -⟩ ⟨r, hr⟩
    obtain rfl : phase = .returned r := hr
    rcases hc with (⟨-, hphase⟩ | hrep) | hend
    · exact hphase
    · exact hrep
    · cases hend

/-! ## Calls that only repeat rounds -/

/-- The call is in a phase that it does not leave while packets fail. -/
theorem Idle.step (h : Idle d a c) (hs : c.generator.Sound)
    (hnext : (c.step d a).phase ≠ .endless) :
    (c.step d a).phase = c.phase ∧
      (c.step d a).generator.attempts = c.generator.attempts + 1 ∧
      ((∃ total, c.phase = .fast total) →
        (c.step d a).generator.asked = c.generator.asked + 1 ∧
        ∃ fault, d.failure c.generator.attempts = some fault ∧
          (c.step d a).generator.connected = (c.generator.connected && !d.onError fault)) := by
  obtain ⟨g, phase⟩ := c
  cases phase with
  | before flush =>
    obtain ⟨rfl, hb, hfail⟩ := h
    obtain ⟨g', heq, -, hk⟩ :=
      (queuedRound_blocked (.before true) .room hs hb hfail).resolve_left hnext
    have hstep : ConsumeCall.step d a ⟨g, .before true⟩ = ⟨g', .before true⟩ := heq
    rw [hstep]
    exact ⟨rfl, hk, fun ⟨_, hfast⟩ => by cases hfast⟩
  | fast total =>
    obtain ⟨hlt, hasks, hfail⟩ := h
    obtain ⟨fault, hfault⟩ := ne_none_iff_exists'.1 hfail
    have hstep : ConsumeCall.step d a ⟨g, .fast total⟩ = _ := fastRound_failed hlt hasks hfault
    rw [hstep]
    exact ⟨rfl, rfl, fun _ => ⟨rfl, fault, hfault, rfl⟩⟩
  | after total finConsumed =>
    obtain ⟨g', heq, -, hk⟩ := (queuedRound_blocked (.after total finConsumed)
      (.returned ⟨total, finConsumed⟩) hs h.1 h.2).resolve_left hnext
    have hstep : ConsumeCall.step d a ⟨g, .after total finConsumed⟩ =
        ⟨g', .after total finConsumed⟩ := heq
    rw [hstep]
    exact ⟨rfl, hk, fun ⟨_, hfast⟩ => by cases hfast⟩
  | endless => exact absurd rfl hnext
  | _ => exact False.elim h

section Idle

variable (hidle : ∀ k, Idle d a ((step d a)^[k] c))
  (hs : ∀ k, ((step d a)^[k] c).generator.Sound)
  (hnot : ∀ k, ((step d a)^[k] c).phase ≠ .endless)
include hidle hs hnot

theorem iterate_idle (k : ℕ) :
    ((step d a)^[k] c).phase = c.phase ∧
      ((step d a)^[k] c).generator.attempts = c.generator.attempts + k ∧
      ((∃ total, c.phase = .fast total) →
        ((step d a)^[k] c).generator.asked = c.generator.asked + k) := by
  induction k with
  | zero => exact ⟨rfl, rfl, fun _ => rfl⟩
  | succ k ih =>
    obtain ⟨hphase, hk, hfast⟩ := ih
    have hnext := hnot (k + 1)
    rw [iterate_succ_apply'] at hnext ⊢
    obtain ⟨hphase', hk', hfast'⟩ := (hidle k).step (hs k) hnext
    refine ⟨hphase'.trans hphase, by omega, fun hex => ?_⟩
    have hasked := hfast hex
    have hasked' := (hfast' (hphase ▸ hex)).1
    omega

/-- In the fast loop, no failure closes the connection: it is there for the next question. -/
theorem idle_fast (hdelegate : ∀ k, d.shouldGeneratePacket false k = false)
    (hp : c.phase = .fast total) (j : ℕ) :
    ((step d a)^[j] c).generator.connected = true ∧
      d.shouldGeneratePacket true (c.generator.asked + j) = true ∧
      ∃ fault, d.failure (c.generator.attempts + j) = some fault ∧ d.onError fault = false := by
  have hasks : ∀ j, ((step d a)^[j] c).generator.asks d = true := by
    intro j
    have hj := hidle j
    rw [Idle, (iterate_idle hidle hs hnot j).1, hp] at hj
    exact hj.2.1
  have hconn : ∀ j, ((step d a)^[j] c).generator.connected = true := by
    intro j
    have hj := hasks j
    unfold asks at hj
    cases hc : ((step d a)^[j] c).generator.connected with
    | true => rfl
    | false =>
      rw [hc, hdelegate] at hj
      exact hj
  obtain ⟨hphase, hk, hasked⟩ := iterate_idle hidle hs hnot j
  refine ⟨hconn j, ?_, ?_⟩
  · have hj := hasks j
    unfold asks at hj
    rwa [hconn j, hasked ⟨total, hp⟩] at hj
  · have hnext := hnot (j + 1)
    have hopen := hconn (j + 1)
    rw [iterate_succ_apply'] at hnext hopen
    obtain ⟨-, -, hfast⟩ := (hidle j).step (hs j) hnext
    obtain ⟨-, fault, hfault, heq⟩ := hfast ⟨total, hphase.trans hp⟩
    rw [heq, Bool.and_eq_true] at hopen
    exact ⟨fault, hk ▸ hfault, by simpa using hopen.2⟩

theorem repeats_of_idle (hdelegate : ∀ k, d.shouldGeneratePacket false k = false) :
    Repeats d a c := by
  have hfails : ∀ j, d.failure ((step d a)^[j] c).generator.attempts ≠ none := by
    intro j
    have hj := hidle j
    have hne := hnot j
    rcases hc : (step d a)^[j] c with ⟨g, phase⟩
    rw [hc] at hj hne
    cases phase with
    | before flush => exact hj.2.2
    | fast total => exact hj.2.2
    | after total finConsumed => exact hj.2
    | endless => exact absurd rfl hne
    | _ => exact False.elim hj
  have hall : AllFail d c.generator := by
    intro k hle
    obtain ⟨j, rfl⟩ := Nat.exists_eq_add_of_le hle
    rw [← (iterate_idle hidle hs hnot j).2.1]
    exact hfails j
  have hfast := fun total (hp : c.phase = .fast total) => idle_fast hidle hs hnot hdelegate hp
  have h0 : Idle d a c := hidle 0
  have hne : c.phase ≠ .endless := hnot 0
  obtain ⟨g, phase⟩ := c
  cases phase with
  | before flush => exact ⟨h0.1, h0.2.1, hall⟩
  | fast total =>
    refine ⟨h0.1, (hfast total rfl 0).1, fun k hle => ?_, fun k hle => ?_⟩
    · obtain ⟨j, rfl⟩ := Nat.exists_eq_add_of_le hle
      exact (hfast total rfl j).2.1
    · obtain ⟨j, rfl⟩ := Nat.exists_eq_add_of_le hle
      exact (hfast total rfl j).2.2
  | after total finConsumed => exact ⟨h0.1, hall⟩
  | endless => exact absurd rfl hne
  | _ => exact False.elim h0

end Idle

/-! ## Calls that return -/

/-- The call returns with the number of bytes in its frames. -/
def ReturnsExactly (d : GeneratorDelegate) (a : ConsumeRequest) (g : PacketGenerator) : Prop :=
  ∃ k g' r fs, (step d a)^[k] (start a g) = ⟨g', .returned r⟩ ∧
    g'.creator.chunks = g.creator.chunks ++ fs ∧
    (fs.map StreamChunk.dataLength).sum = r.bytesConsumed

theorem returnsExactly_of_free {g : PacketGenerator}
    (hdelegate : ∀ k, d.shouldGeneratePacket false k = false) (hs : g.Sound)
    (h : ∀ k, ¬Stuck d a ((step d a)^[k] (start a g)) ∧
      ¬Discards d a ((step d a)^[k] (start a g))) : ReturnsExactly d a g := by
  have hd : d.Settled := .inl hdelegate
  have hstart : Inv d a g (start a g) := inv_start hs
  have hinv : ∀ k, Inv d a g ((step d a)^[k] (start a g)) := fun k =>
    inv_iterate hd hstart fun j _ => (h j).2
  have hnever := not_endless hd hstart (fun hphase => by cases hphase) (fun j => (h j).2)
    fun j hlost => (h j).1 (.inl hlost)
  obtain ⟨k, r, hr⟩ | ⟨n, hidle⟩ := exists_returned_or_idle hd hstart fun j => (h j).2
  · obtain ⟨fs, hadds, hcut⟩ := (hinv k).frames
    rw [hr] at hcut
    exact ⟨k, _, r, fs, by rw [← hr], hadds.chunks, Faithful.covers hcut⟩
  · have hsplit : ∀ k, (step d a)^[k] ((step d a)^[n] (start a g)) =
        (step d a)^[k + n] (start a g) := fun k => (iterate_add_apply _ _ _ _).symm
    refine absurd (.inr (repeats_of_idle (fun k => ?_) (fun k => ?_) (fun k => ?_) hdelegate))
      (h n).1
    · rw [hsplit]
      exact hidle k
    · rw [hsplit]
      exact (hinv _).sound
    · rw [hsplit]
      exact hnever _

theorem not_discards_of_returnsExactly {g : PacketGenerator} (hd : d.Settled) (hs : g.Sound)
    (h : ReturnsExactly d a g) (j : ℕ) : ¬Discards d a ((step d a)^[j] (start a g)) := by
  induction j using Nat.strong_induction_on with
  | _ j ih =>
    intro hdiscards
    obtain ⟨g₁, total, gs, hstep, -, hpos, -, hadds, hfaith⟩ :=
      step_discards hd (inv_iterate hd (inv_start hs) ih) hdiscards
    obtain ⟨k, g', r, fs, hk, hchunks, hfs⟩ := h
    -- both states are the one the call ends with
    have hend : (step d a)^[j + 1] (start a g) = ⟨g₁, .returned ⟨0, false⟩⟩ := by
      rw [iterate_succ_apply', hstep]
    have hsame := returned_unique (k := k) (m := j + 1) ⟨r, by rw [hk]⟩ ⟨_, by rw [hend]⟩
    rw [hk, hend] at hsame
    cases hsame
    rw [hadds.chunks] at hchunks
    have hcovers := hfaith.covers
    rw [append_cancel_left hchunks, hfs] at hcovers
    exact absurd hcovers.symm hpos.ne'

/-- A connection after the handshake with nothing to send. -/
def quiet : PacketGenerator where
  creator := ⟨busy.creator.layout, .forwardSecure, 1, [], 0, 0, false, []⟩
  pending := []
  asked := 0
  attempts := 0
  connected := true

theorem quiet_sound : quiet.Sound :=
  ⟨⟨by decide, fun hq => absurd rfl hq, fun hq => absurd rfl hq,
    fun p hp => absurd hp not_mem_nil⟩, fun f hf => absurd hf not_mem_nil⟩

/-- A connection that lets a packet go as long as it is open. -/
def opened : GeneratorDelegate := { willing with shouldGeneratePacket := fun b _ => b }

def failsOnce : GeneratorDelegate :=
  { opened with failure := fun k => if k = 1 then some .encryption else none }

/-- If the last packet was decrypted, the failed encryption closes the connection. -/
def failsClosed : GeneratorDelegate := { failsOnce with lastPacketDecrypted := true }

example : ((step failsClosed longWrite)^[5] (start longWrite quiet)).phase =
    .returned ⟨1324, false⟩ := by
  decide +kernel

def neverEncrypts : GeneratorDelegate := { opened with failure := fun _ => some .encryption }

end ConsumeCall

end Puic
