/-
  How a write is cut into STREAM frames (`QuicPacketGenerator`).

  Frames that wait (ACK, STOP_WAITING, control frames) go into the open packet first.
  Then the data is cut, frame by frame, into what is left of that packet and into the
  ones after it, and, once nothing else waits and more than a packet is left, into
  packets that are serialized one by one.

  Every packet may fail while it is written or encrypted.  A packet that `SerializePacket`
  cannot make closes the connection.  `CreateAndSerializeStreamFrame` only returns, so that
  its caller asks for the same bytes again; of its steps only the encryption reports its
  failure, and the connection is closed for it if the last packet from the peer was
  decrypted.  A call is a machine that makes one round of one of the loops in every step.

  `stream_data_faithful`: a call without failures returns, every packet fits, and the frames
  are the part of the write that is said to be consumed, unless a CHLO begins in the middle
  of a write: then frames were made and nothing is said to be consumed.
-/
import Puic.Lib.Halting
import Puic.PacketCreator

namespace Puic

open List Option Function

inductive StreamSendingState where
  | noFin
  | fin
  | finAndPadding
deriving Repr, DecidableEq

structure QuicConsumedData where
  bytesConsumed : ℕ
  finConsumed : Bool
deriving Repr, DecidableEq

/-! ## The code -/

/-- Whether `QuicConnection::OnError` closes the connection for the step that failed.  The
    CONNECTION_CLOSE that it sends before is not part of the call. -/
def GeneratorDelegate.onError (d : GeneratorDelegate) (fault : SerializeStep) : Bool :=
  fault = .encryption && d.lastPacketDecrypted

/-- `pending` are the frames that wait, in the order in which they are added, `asked` counts the
    questions to the delegate and `attempts` the packets that were tried. -/
structure PacketGenerator where
  creator : PacketCreator
  pending : List PacketFrame
  asked : ℕ
  attempts : ℕ
  connected : Bool

namespace PacketGenerator

variable (d : GeneratorDelegate) (g : PacketGenerator)

/-- `ShouldGeneratePacket`. -/
def asks : Bool := d.shouldGeneratePacket g.connected g.asked

def asking : PacketGenerator := { g with asked := g.asked + 1 }

/-- `QuicPacketCreator::Flush`, or nothing if it does not return.  The frames of a packet that
    fails stay. -/
def flush : Option PacketGenerator :=
  if g.creator.queuedFrames = [] ∧ g.creator.pendingPaddingBytes = 0 then some g
  else g.creator.maybeAddPadding.map fun creator =>
    match d.failure g.attempts with
    | some _ => { g with creator := creator, attempts := g.attempts + 1, connected := false }
    | none => { g with
        creator := creator.onSerializedPacket d creator.queuedFrames
        attempts := g.attempts + 1 }

/-- `AddFrame` says whether the frame was added; the packet is flushed if it is full. -/
def addFrame (f : PacketFrame) : Option (PacketGenerator × Bool) :=
  if f.chunk?.any (·.streamId ≠ kCryptoStreamId) ∧ g.creator.encryptionLevel = .none then
    some ({ g with connected := false }, false)
  else
    let length := g.creator.getSerializedFrameLength f
    if length = 0 then (g.flush d).map (·, false)
    else some ({ g with creator := g.creator.push f length }, true)

/-- `QuicPacketCreator::ConsumeData`: no frame if there is no room for one. -/
def consumeFrame (streamId writeLength iovOffset offset : ℕ) (fin needsFullPadding : Bool) :
    Option (PacketGenerator × Option StreamChunk) :=
  if !g.creator.hasRoomForStreamFrame streamId offset then some (g, none)
  else
    let frame := g.creator.createStreamFrame streamId writeLength iovOffset offset fin
    if PacketCreator.streamFrameStartsWithChlo d frame ∧ frame.dataLength < writeLength then
      some ({ g with connected := false }, none)
    else (g.addFrame d (.stream frame)).map fun (g, added) =>
      if added then
        ({ g with creator := { g.creator with
          needsFullPadding := g.creator.needsFullPadding || needsFullPadding } }, some frame)
      else (g, none)

/-- `CreateAndSerializeStreamFrame`: whichever step fails, nothing is consumed. -/
def createAndSerializeStreamFrame (streamId writeLength iovOffset offset : ℕ) (fin : Bool) :
    PacketGenerator × ℕ :=
  match d.failure g.attempts with
  | some fault =>
    ({ g with attempts := g.attempts + 1, connected := g.connected && !d.onError fault }, 0)
  | none =>
    let (creator, bytesConsumed) :=
      g.creator.createAndSerializeStreamFrame d streamId writeLength iovOffset offset fin
    ({ g with creator := creator, attempts := g.attempts + 1 }, bytesConsumed)

def hasQueuedFrames : Bool := !g.creator.queuedFrames.isEmpty || !g.pending.isEmpty

/-- A round of the loop of `SendQueuedFrames`, and whether it is the last one. -/
def sendQueuedFrame (flush : Bool) : Option (PacketGenerator × Bool) :=
  match g.pending with
  | [] => if flush then (g.flush d).map (·, true) else some (g, true)
  | f :: rest =>
    if flush || g.asks d then
      let firstFrame := g.creator.queuedFrames.isEmpty
      let g := if flush then g else g.asking
      (g.addFrame d f).map fun (g, added) =>
        if added then ({ g with pending := rest }, false)
        else if firstFrame then ({ g with connected := false }, true)
        else (g, false)
    else some (g.asking, true)

end PacketGenerator

/-- Where a call of `ConsumeData` is: in the first `SendQueuedFrames`, before its own loop, in one
    of the two loops, in the last `SendQueuedFrames`, lost in a padding, or at its end. -/
inductive ConsumePhase where
  | before (flush : Bool)
  | room
  | slow (total : ℕ)
  | fast (total : ℕ)
  | after (total : ℕ) (finConsumed : Bool)
  | endless
  | returned (consumed : QuicConsumedData)
deriving Repr, DecidableEq

structure ConsumeCall where
  generator : PacketGenerator
  phase : ConsumePhase

/-- What `ConsumeData` is called with. -/
structure ConsumeRequest where
  streamId : ℕ
  writeLength : ℕ
  offset : UInt64
  state : StreamSendingState

namespace ConsumeRequest

variable (a : ConsumeRequest)

def hasHandshake : Bool := a.streamId = kCryptoStreamId

def fin : Bool := a.state ≠ .noFin

def offsetAt (total : ℕ) : ℕ := wrap64 (a.offset.toNat + total)

def runFastPath (g : PacketGenerator) (total : ℕ) : Bool :=
  !a.hasHandshake && a.state ≠ .finAndPadding && !g.hasQueuedFrames &&
    kMaxPacketSize < a.writeLength - total

/-- The loop that comes next. -/
def loop (g : PacketGenerator) (total : ℕ) : ConsumeCall :=
  ⟨g, if a.runFastPath g total then .fast total else .slow total⟩

/-- After the slow loop: a handshake message is not bundled with other frames. -/
def leave (g : PacketGenerator) (total : ℕ) (finConsumed : Bool) : ConsumeCall :=
  ⟨g, if a.hasHandshake then .after total finConsumed else .returned ⟨total, finConsumed⟩⟩

end ConsumeRequest

namespace ConsumeCall

variable (d : GeneratorDelegate) (a : ConsumeRequest)

def start (g : PacketGenerator) : ConsumeCall :=
  ⟨g, .before (a.hasHandshake && g.creator.queuedFrames.any (·.shouldRetransmit))⟩

/-- A round of the slow loop. -/
def slowRound (g : PacketGenerator) (total : ℕ) : ConsumeCall :=
  if g.asks d then
    match g.asking.consumeFrame d a.streamId a.writeLength total (a.offsetAt total) a.fin
      a.hasHandshake with
    | none => ⟨g, .endless⟩
    | some (g, none) => ⟨g, .returned ⟨0, false⟩⟩
    | some (g, some frame) =>
      let total := total + frame.dataLength
      let finConsumed := a.fin && total = a.writeLength
      let g := if finConsumed && a.state = .finAndPadding then
          { g with creator := { g.creator with
            pendingPaddingBytes := wrap64 (g.creator.pendingPaddingBytes + d.randomPadding) } }
        else g
      if total = a.writeLength then a.leave g total finConsumed
      else match g.flush d with
        | none => ⟨g, .endless⟩
        | some g => a.loop g total
  else a.leave g.asking total false

/-- A round of the fast loop. -/
def fastRound (g : PacketGenerator) (total : ℕ) : ConsumeCall :=
  if a.writeLength ≤ total then ⟨g, .returned ⟨total, a.fin && total = a.writeLength⟩⟩
  else if g.asks d then
    let (g, bytesConsumed) := g.asking.createAndSerializeStreamFrame d a.streamId a.writeLength
      total (a.offsetAt total) a.fin
    ⟨g, .fast (total + bytesConsumed)⟩
  else ⟨g.asking, .returned ⟨total, a.fin && total = a.writeLength⟩⟩

/-- A round of `SendQueuedFrames`, in the phase `here` of a call that goes on with `next`. -/
def queuedRound (flush : Bool) (here next : ConsumePhase) (g : PacketGenerator) : ConsumeCall :=
  match g.sendQueuedFrame d flush with
  | none => ⟨g, .endless⟩
  | some (g, last) => ⟨g, if last then next else here⟩

/-- One round of a loop, or what is between two loops. -/
def step (c : ConsumeCall) : ConsumeCall :=
  match c.phase with
  | .before flush => queuedRound d flush (.before flush) .room c.generator
  | .room =>
    match if c.generator.creator.hasRoomForStreamFrame a.streamId (a.offsetAt 0) then
        some c.generator else c.generator.flush d with
    | none => ⟨c.generator, .endless⟩
    | some g =>
      if a.state = .noFin ∧ a.writeLength = 0 then ⟨g, .returned ⟨0, false⟩⟩ else a.loop g 0
  | .slow total => slowRound d a c.generator total
  | .fast total => fastRound d a c.generator total
  | .after total finConsumed =>
    queuedRound d true (.after total finConsumed) (.returned ⟨total, finConsumed⟩) c.generator
  | .endless => c
  | .returned _ => c

end ConsumeCall

/-! ## Frames that wait -/

/-- The frames that may wait: ACK, STOP_WAITING and control frames. -/
def PacketFrame.waits : PacketFrame → Bool
  | .ack n => 0 < n
  | .stopWaiting => true
  | .control n => 0 < n
  | _ => false

theorem PacketFrame.waits_chunk {f : PacketFrame} (h : f.waits = true) : f.chunk? = none := by
  cases f <;> first | rfl | cases h

namespace PacketGenerator

open PacketCreator

variable {d : GeneratorDelegate} {g g' : PacketGenerator}

theorem flush_of_endless (h : g.creator.EndlessPadding) : g.flush d = none := by
  have hpos := h.2.2.1
  unfold flush
  rw [if_neg (by omega), maybeAddPadding_of_endless h]
  rfl

/-- What a flush does that returns. -/
inductive Flushed (d : GeneratorDelegate) (g : PacketGenerator) : PacketGenerator → Prop
  | nothing (hq : g.creator.queuedFrames = []) : Flushed d g g
  | failed {creator : PacketCreator} (hfail : d.failure g.attempts ≠ none)
      (hadds : Adds 0 g.creator creator []) (hfills : Fills g.creator creator) :
      Flushed d g
        { g with creator := creator, attempts := g.attempts + 1, connected := false }
  | sent {creator : PacketCreator} (hok : d.failure g.attempts = none)
      (hadds : Adds 0 g.creator creator []) (hq : creator.queuedFrames = []) :
      Flushed d g { g with creator := creator, attempts := g.attempts + 1 }

theorem exists_flush (hs : g.creator.Sized) (h : ¬g.creator.EndlessPadding) :
    ∃ g', g.flush d = some g' ∧ Flushed d g g' := by
  unfold flush
  split
  · next hempty => exact ⟨g, rfl, .nothing hempty.1⟩
  · obtain ⟨c, hpad, hadds, hfills⟩ := exists_maybeAddPadding hs h
    rw [hpad]
    refine ⟨_, rfl, ?_⟩
    cases hfail : d.failure g.attempts with
    | some fault => exact .failed (by simp [hfail]) hadds hfills
    | none =>
      refine .sent hfail ⟨hadds.layout, hadds.level, ?_,
        hadds.sized.onSerializedPacket hadds.sized.plaintextSize_le, hadds.padding⟩ rfl
      rw [chunks_onSerializedPacket (.inl rfl), if_pos rfl, append_nil, hadds.chunks]

theorem Flushed.adds (hs : g.creator.Sized) (h : Flushed d g g') :
    Adds 0 g.creator g'.creator [] := by
  cases h with
  | nothing => exact .refl hs
  | failed hfail hadds => exact hadds
  | sent hok hadds => exact hadds

theorem Flushed.pending (h : Flushed d g g') : g'.pending = g.pending := by
  cases h with
  | nothing => rfl
  | failed => rfl
  | sent => rfl

/-- A flush leaves an empty packet, unless it fails. -/
theorem Flushed.hasRoom (hs : g.creator.Sized) (h : Flushed d g g') (streamId offset : ℕ)
    (hgo : g'.connected = true ∨ ∀ k, d.failure k = none) :
    g'.creator.hasRoomForStreamFrame streamId offset = true := by
  have hsized := (h.adds hs).sized
  cases h with
  | nothing hq => exact hasRoomForStreamFrame_of_empty hs hq _ _
  | failed hfail =>
    obtain hconn | hok := hgo
    · cases hconn
    · exact absurd (hok _) hfail
  | sent hok hadds hq => exact hasRoomForStreamFrame_of_empty hsized hq _ _

/-! ## Rounds of `SendQueuedFrames` -/

structure Sound (g : PacketGenerator) : Prop where
  sized : g.creator.Sized
  pending : ∀ f ∈ g.pending, f.waits = true

/-- The next round flushes. -/
def Flushes (d : GeneratorDelegate) (flush : Bool) (g : PacketGenerator) : Prop :=
  match g.pending with
  | [] => flush = true
  | f :: _ => (flush || g.asks d) = true ∧ g.creator.getSerializedFrameLength f = 0

/-- The next frame has no room beside those that are there. -/
def Blocked (g : PacketGenerator) : Prop :=
  ∃ f rest, g.pending = f :: rest ∧ g.creator.queuedFrames ≠ [] ∧
    g.creator.getSerializedFrameLength f = 0

/-- What is left to do for `SendQueuedFrames`, with a connection that can still be lost. -/
def weight (g : PacketGenerator) : ℕ :=
  2 * g.pending.length + (if g.creator.queuedFrames = [] then 0 else 1) +
    if g.connected then 1 else 0

theorem weight_le (g : PacketGenerator) : g.weight ≤ 2 * g.pending.length + 2 := by
  unfold weight
  split <;> split <;> omega

theorem addFrame_waits {f : PacketFrame} (hw : f.waits = true) :
    g.addFrame d f =
      if g.creator.getSerializedFrameLength f = 0 then (g.flush d).map (·, false)
      else some ({ g with
        creator := g.creator.push f (g.creator.getSerializedFrameLength f) }, true) := by
  unfold addFrame
  rw [if_neg (by simp [PacketFrame.waits_chunk hw])]

theorem sendQueuedFrame_of_endless {flush : Bool} (hs : g.Sound) (hf : g.Flushes d flush)
    (h : g.creator.EndlessPadding) : g.sendQueuedFrame d flush = none := by
  unfold Flushes at hf
  unfold sendQueuedFrame
  cases hp : g.pending with
  | nil =>
    rw [hp] at hf
    simp [hf, flush_of_endless h]
  | cons f rest =>
    rw [hp] at hf
    have hw := hs.pending f (hp ▸ mem_cons_self)
    have hflush : (if flush then g else g.asking).flush d = none := by
      split
      · exact flush_of_endless h
      · exact flush_of_endless h
    have h0 : (if flush then g else g.asking).creator.getSerializedFrameLength f = 0 := by
      split
      · exact hf.2
      · exact hf.2
    simp [hf.1, addFrame_waits hw, hflush, h0]

/-- A failed flush leaves a frame without room, and the connection can be lost only once. -/
theorem Flushed.weight_le (h : Flushed d g g') (hq : g.creator.queuedFrames ≠ []) :
    g'.weight < g.weight ∨
      g.connected = false ∧ d.failure g.attempts ≠ none ∧ g'.weight ≤ g.weight := by
  have hweight : g.weight = 2 * g.pending.length + 1 + if g.connected then 1 else 0 := by
    rw [weight, if_neg hq]
  cases h with
  | nothing hempty => exact absurd hempty hq
  | failed hfail hadds hfills =>
    rw [hweight, weight, if_neg (hfills.queued hq)]
    cases hc : g.connected with
    | true => exact .inl (by simp)
    | false => exact .inr ⟨rfl, hfail, by simp⟩
  | sent hok hadds hempty =>
    left
    rw [hweight, weight, if_pos hempty]
    dsimp only
    omega

end PacketGenerator

/-- Nothing is generated without a connection, or no packet fails. -/
def GeneratorDelegate.Settled (d : GeneratorDelegate) : Prop :=
  (∀ k, d.shouldGeneratePacket false k = false) ∨ ∀ k, d.failure k = none

namespace PacketGenerator

open PacketCreator

variable {d : GeneratorDelegate} {g g' : PacketGenerator}

theorem connected_of_asks (hd : d.Settled) (h : g.asks d = true) :
    g.connected = true ∨ ∀ k, d.failure k = none := by
  refine hd.imp_left fun hnone => ?_
  unfold asks at h
  cases hconn : g.connected with
  | true => rfl
  | false =>
    rw [hconn, hnone] at h
    exact h

theorem exists_sendQueuedFrame {flush : Bool} (hd : d.Settled) (hs : g.Sound)
    (h : ¬(g.Flushes d flush ∧ g.creator.EndlessPadding)) :
    ∃ g' last, g.sendQueuedFrame d flush = some (g', last) ∧ Adds 0 g.creator g'.creator [] ∧
      g'.pending <:+ g.pending ∧ (last = false → g'.weight < g.weight ∨
        flush = true ∧ g.Blocked ∧ d.failure g.attempts ≠ none ∧ g'.weight ≤ g.weight) := by
  unfold Flushes at h
  unfold sendQueuedFrame
  cases hp : g.pending with
  | nil =>
    rw [hp] at h
    cases flush with
    | false =>
      exact ⟨g, true, rfl, .refl hs.sized, hp ▸ suffix_refl _, fun hlast => by cases hlast⟩
    | true =>
      obtain ⟨g', hflush, hflushed⟩ := exists_flush (d := d) hs.sized fun hend => h ⟨rfl, hend⟩
      exact ⟨g', true, by simp [hflush], hflushed.adds hs.sized,
        hp ▸ hflushed.pending ▸ suffix_refl _, fun hlast => by cases hlast⟩
  | cons f rest =>
    rw [hp] at h
    have hw := hs.pending f (hp ▸ mem_cons_self)
    cases hgo : flush || g.asks d with
    | false =>
      exact ⟨g.asking, true, by simp, .refl hs.sized, hp ▸ suffix_refl _,
        fun hlast => by cases hlast⟩
    | true =>
      -- nothing depends on how often the delegate was asked
      obtain ⟨g₁, hg₁, hc₁, hp₁, hk₁, hconn₁⟩ : ∃ g₁, (if flush then g else g.asking) = g₁ ∧
          g₁.creator = g.creator ∧ g₁.pending = g.pending ∧ g₁.attempts = g.attempts ∧
          g₁.connected = g.connected := by
        split
        · exact ⟨g, rfl, rfl, rfl, rfl, rfl⟩
        · exact ⟨g.asking, rfl, rfl, rfl, rfl, rfl⟩
      have hweight₁ : g₁.weight = g.weight := by rw [weight, weight, hc₁, hp₁, hconn₁]
      simp only [if_true, hg₁, addFrame_waits hw, hc₁]
      by_cases h0 : g.creator.getSerializedFrameLength f = 0
      · obtain ⟨g', hflush, hflushed⟩ := exists_flush (hc₁ ▸ hs.sized) fun hend =>
          h ⟨⟨hgo, h0⟩, hc₁ ▸ hend⟩
        rw [if_pos h0, hflush]
        have hadds : Adds 0 g.creator g'.creator [] := hc₁ ▸ hflushed.adds (hc₁ ▸ hs.sized)
        have hsuffix : g'.pending <:+ f :: rest :=
          (hflushed.pending.trans (hp₁.trans hp)) ▸ suffix_refl _
        by_cases hq : g.creator.queuedFrames = []
        · exact ⟨{ g' with connected := false }, true, by simp [hq], hadds, hsuffix,
            fun hlast => by cases hlast⟩
        · refine ⟨g', false, by simp [hq], hadds, hsuffix, fun _ => ?_⟩
          obtain hlt | ⟨hconn, hfail, hle⟩ := hflushed.weight_le (hc₁ ▸ hq)
          · exact .inl (hweight₁ ▸ hlt)
          · refine .inr ⟨?_, ⟨f, rest, hp, hq, h0⟩, hk₁ ▸ hfail, hweight₁ ▸ hle⟩
            -- who asks has a connection, since a packet fails here
            refine (Bool.or_eq_true_iff.1 hgo).resolve_right fun hasks => ?_
            obtain hconn' | hok := connected_of_asks hd hasks
            · exact Bool.false_ne_true ((hconn₁ ▸ hconn).symm.trans hconn')
            · exact hfail (hok _)
      · rw [if_neg h0]
        have hadds := adds_push hs.sized rfl h0
        rw [PacketFrame.waits_chunk hw] at hadds
        refine ⟨{ g₁ with creator := g.creator.push f _, pending := rest }, false, rfl, hadds,
          suffix_cons _ _, fun _ => .inl ?_⟩
        have hqueued : ∀ c : PacketCreator, (if c.queuedFrames = [] then 0 else 1) ≤ 1 := by
          intro c
          split <;> omega
        have := hqueued (g.creator.push f (g.creator.getSerializedFrameLength f))
        rw [weight, weight, hp, length_cons]
        dsimp only
        rw [hconn₁]
        omega

/-! ## A frame of the slow loop -/

section Frame

variable {streamId writeLength iovOffset offset : ℕ} {fin : Bool} (needsFullPadding : Bool)

theorem consumeFrame_eq {f : StreamChunk}
    (hroom : g.creator.hasRoomForStreamFrame streamId offset = true)
    (hf : g.creator.createStreamFrame streamId writeLength iovOffset offset fin = f) :
    g.consumeFrame d streamId writeLength iovOffset offset fin needsFullPadding =
      if streamFrameStartsWithChlo d f ∧ f.dataLength < writeLength then
        some ({ g with connected := false }, none)
      else if streamId ≠ kCryptoStreamId ∧ g.creator.encryptionLevel = .none then
        some ({ g with connected := false }, none)
      else some ({ g with creator := {
        g.creator.push (.stream f) (g.creator.getSerializedFrameLength (.stream f)) with
        needsFullPadding := g.creator.needsFullPadding || needsFullPadding } }, some f) := by
  obtain ⟨hid, hlen, -⟩ := createStreamFrame_spec hroom hf
  simp only [consumeFrame, hroom, hf, addFrame, PacketFrame.chunk?, hid, hlen, if_false,
    Bool.not_true, Bool.false_eq_true, any_some, decide_eq_true_eq]
  split_ifs <;> rfl

/-- With room for a frame, only a CHLO that does not fit and data without encryption are errors;
    a frame that does not end the write fills the packet. -/
theorem consumeFrame_cases (h : g.creator.Sized)
    (hroom : g.creator.hasRoomForStreamFrame streamId offset = true)
    (hle : iovOffset ≤ writeLength) (hfin : iovOffset = writeLength → fin = true) :
    (g.consumeFrame d streamId writeLength iovOffset offset fin needsFullPadding =
        some ({ g with connected := false }, none) ∧
      (g.creator.encryptionLevel = .none ∧ streamId ≠ kCryptoStreamId ∨
        let f := g.creator.createStreamFrame streamId writeLength iovOffset offset fin
        streamFrameStartsWithChlo d f = true ∧ f.dataLength < writeLength)) ∨
    ∃ c f, g.consumeFrame d streamId writeLength iovOffset offset fin needsFullPadding =
        some ({ g with creator := c }, some f) ∧
      Cuts f streamId writeLength iovOffset offset fin ∧ Adds 0 g.creator c [f] ∧
      (g.creator.encryptionLevel = .none → streamId = kCryptoStreamId) ∧
      (iovOffset + f.dataLength < writeLength → c.bytesFree = 0) := by
  have hcuts := cuts_createStreamFrame hroom hle hfin
  obtain ⟨-, hlen, hfull⟩ := createStreamFrame_spec hroom
    (rfl : g.creator.createStreamFrame streamId writeLength iovOffset offset fin = _)
  rw [consumeFrame_eq needsFullPadding hroom rfl]
  generalize g.creator.createStreamFrame streamId writeLength iovOffset offset fin = f at *
  split_ifs with hchlo hnone
  · exact .inl ⟨rfl, .inr hchlo⟩
  · exact .inl ⟨rfl, .inl ⟨hnone.2, hnone.1⟩⟩
  · have hadds := adds_push h rfl hlen
    refine .inr ⟨_, f, rfl, hcuts, ⟨hadds.layout, hadds.level, hadds.chunks,
      ⟨hadds.sized.length, hadds.sized.size, hadds.sized.fits, hadds.sized.packets⟩,
      hadds.padding⟩, fun hlevel => by_contra fun hid => hnone ⟨hid, hlevel⟩, fun hlt => ?_⟩
    have hpush := bytesFree_push (c := g.creator) (.stream f) g.creator.bytesFree
    rw [← hfull hlt] at hpush
    exact Nat.eq_zero_of_le_zero (hpush.trans (by rw [hfull hlt, Nat.sub_self]))

end Frame

end PacketGenerator

/-! ## Cutting -/

section Cutting

open PacketCreator

variable {a : ConsumeRequest} {total total' : ℕ} {fs : List StreamChunk}

/-- Frames that follow one another from `total` to `total'` of a write. -/
def Chain (a : ConsumeRequest) : ℕ → List StreamChunk → ℕ → Prop
  | total, [], total' => total = total'
  | total, f :: fs, total' =>
    Cuts f a.streamId a.writeLength total (a.offsetAt total) a.fin ∧
      (fs ≠ [] → total + f.dataLength < a.writeLength) ∧
      Chain a (total + f.dataLength) fs total'

/-- The next frame. -/
theorem Chain.append {f : StreamChunk} (h : Chain a total fs total')
    (hmore : fs ≠ [] → total' < a.writeLength)
    (hcut : Cuts f a.streamId a.writeLength total' (a.offsetAt total') a.fin) :
    Chain a total (fs ++ [f]) (total' + f.dataLength) := by
  induction fs generalizing total with
  | nil =>
    obtain rfl : total = total' := h
    exact ⟨hcut, fun hne => absurd rfl hne, rfl⟩
  | cons f' fs ih =>
    obtain ⟨hcut', hnext, hrest⟩ := h
    refine ⟨hcut', fun _ => ?_, ih hrest fun _ => hmore (cons_ne_nil _ _)⟩
    cases fs with
    | nil =>
      obtain rfl : total + f'.dataLength = total' := hrest
      exact hmore (cons_ne_nil _ _)
    | cons f'' fs => exact hnext (cons_ne_nil _ _)

/-- Every frame begins where the one before it ends. -/
def Consecutive : ℕ → List StreamChunk → Prop
  | _, [] => True
  | offset, f :: fs => f.offset = wrap64 offset ∧ Consecutive (offset + f.dataLength) fs

/-- The frames are the part of the write that is consumed.  Only a FIN alone is an empty frame,
    and the FIN is on the last one if it is consumed. -/
structure Faithful (a : ConsumeRequest) (fs : List StreamChunk) (r : QuicConsumedData) : Prop where
  stream : ∀ f ∈ fs, f.streamId = a.streamId
  consecutive : Consecutive a.offset.toNat fs
  covers : (fs.map (·.dataLength)).sum = r.bytesConsumed
  within : r.bytesConsumed ≤ a.writeLength
  nonempty : (∀ f ∈ fs, 0 < f.dataLength) ∨
    a.writeLength = 0 ∧ fs = [⟨a.streamId, true, a.offsetAt 0, 0⟩]
  fin : ∀ i f, fs[i]? = some f → (f.fin = true ↔ r.finConsumed = true ∧ i + 1 = fs.length)
  last : r.finConsumed = true → fs ≠ [] ∧ r.bytesConsumed = a.writeLength

theorem Faithful.nothing : Faithful a [] ⟨0, false⟩ where
  stream f hf := absurd hf not_mem_nil
  consecutive := trivial
  covers := rfl
  within := Nat.zero_le _
  nonempty := .inl fun f hf => absurd hf not_mem_nil
  fin i f hi := by cases hi
  last hf := Bool.noConfusion hf

theorem Chain.stream (h : Chain a total fs total') : ∀ f ∈ fs, f.streamId = a.streamId := by
  induction fs generalizing total with
  | nil => exact fun f hf => absurd hf not_mem_nil
  | cons f fs ih =>
    intro f' hf'
    rcases mem_cons.1 hf' with rfl | hf'
    · exact h.1.streamId
    · exact ih h.2.2 f' hf'

theorem Chain.consecutive (h : Chain a total fs total') :
    Consecutive (a.offset.toNat + total) fs := by
  induction fs generalizing total with
  | nil => trivial
  | cons f fs ih => exact ⟨h.1.offset, Nat.add_assoc .. ▸ ih h.2.2⟩

theorem Chain.covers (h : Chain a total fs total') :
    total + (fs.map (·.dataLength)).sum = total' := by
  induction fs generalizing total with
  | nil => exact h
  | cons f fs ih => rw [map_cons, sum_cons, ← Nat.add_assoc, ih h.2.2]

theorem Chain.pos (h : Chain a total fs total') (hlt : total < a.writeLength) :
    ∀ f ∈ fs, 0 < f.dataLength := by
  induction fs generalizing total with
  | nil => exact fun f hf => absurd hf not_mem_nil
  | cons f fs ih =>
    intro f' hf'
    rcases mem_cons.1 hf' with rfl | hf'
    · exact h.1.pos hlt
    · exact ih h.2.2 (h.2.1 (ne_nil_of_mem hf')) f' hf'

theorem Chain.fin_iff (h : Chain a total fs total') (i : ℕ) (f : StreamChunk)
    (hi : fs[i]? = some f) :
    f.fin = true ↔ a.fin = true ∧ total' = a.writeLength ∧ i + 1 = fs.length := by
  induction fs generalizing total i with
  | nil => cases hi
  | cons f' fs ih =>
    obtain ⟨hcut, hmore, hrest⟩ := h
    cases i with
    | zero =>
      obtain rfl : f' = f := Option.some.inj hi
      rw [hcut.fin, Bool.and_eq_true, decide_eq_true_eq]
      cases fs with
      | nil =>
        obtain rfl : total + f'.dataLength = total' := hrest
        simp
      | cons f'' fs =>
        have := hmore (cons_ne_nil _ _)
        simp only [length_cons]
        omega
    | succ i =>
      rw [ih hrest i hi, length_cons, Nat.add_left_inj]

theorem Chain.faithful (h : Chain a 0 fs total') (hle : total' ≤ a.writeLength)
    (hfin : a.writeLength = 0 → a.fin = true) {finConsumed : Bool}
    (hc : finConsumed = (a.fin && fs ≠ [] && total' = a.writeLength)) :
    Faithful a fs ⟨total', finConsumed⟩ := by
  refine ⟨h.stream, h.consecutive, (Nat.zero_add _).symm.trans h.covers, hle, ?_,
    fun i f hi => ?_, fun hf => ?_⟩
  · rcases Nat.eq_zero_or_pos a.writeLength with h0 | hpos
    · cases fs with
      | nil => exact .inl fun f hf => absurd hf not_mem_nil
      | cons f fs =>
        obtain ⟨hcut, hmore, hrest⟩ := h
        have hnil : fs = [] := by
          by_contra hne
          have := hmore hne
          omega
        have hlen : f.dataLength = 0 := by
          have := hcut.within
          omega
        have hf := hcut.fin
        rw [hfin h0, h0, hlen] at hf
        refine .inr ⟨h0, ?_⟩
        rw [hnil, ← hcut.streamId, ← hcut.offset, show true = f.fin from hf.symm, ← hlen]
    · exact .inl (h.pos hpos)
  · have hne : fs ≠ [] := by
      rintro rfl
      cases hi
    rw [h.fin_iff i f hi, hc]
    simp [hne, and_assoc]
  · rw [hc] at hf
    simp only [Bool.and_eq_true, decide_eq_true_eq] at hf
    exact ⟨hf.1.2, hf.2⟩

end Cutting

/-! ## A call -/

/-- The padding that may have been added. -/
def ConsumePhase.padding (d : GeneratorDelegate) : ConsumePhase → ℕ
  | .after _ _ | .endless | .returned _ => d.randomPadding
  | _ => 0

/-- What the frames of the call are. -/
def ConsumePhase.Cut (a : ConsumeRequest) (fs : List StreamChunk) : ConsumePhase → Prop
  | .before _ | .room => fs = []
  | .slow total => Chain a 0 fs total ∧ (fs ≠ [] → total < a.writeLength)
  | .fast total => Chain a 0 fs total
  | .after total finConsumed => Faithful a fs ⟨total, finConsumed⟩
  | .endless => True
  | .returned r => Faithful a fs r

namespace ConsumeCall

open PacketCreator PacketGenerator

variable {d : GeneratorDelegate} {a : ConsumeRequest} {g₀ : PacketGenerator} {c : ConsumeCall}

/-- A CHLO begins in the middle of the write, in a frame that is not the whole write: what was
    consumed before is forgotten. -/
def Discards (d : GeneratorDelegate) (a : ConsumeRequest) (c : ConsumeCall) : Prop :=
  match c.phase with
  | .slow total =>
    0 < total ∧ c.generator.asks d = true ∧
      let frame := c.generator.creator.createStreamFrame a.streamId a.writeLength total
        (a.offsetAt total) a.fin
      streamFrameStartsWithChlo d frame = true ∧ frame.dataLength < a.writeLength
  | _ => False

/-- The next step flushes and does not return. -/
def Lost (d : GeneratorDelegate) (a : ConsumeRequest) (c : ConsumeCall) : Prop :=
  c.generator.creator.EndlessPadding ∧
  match c.phase with
  | .before flush => c.generator.Flushes d flush
  | .room => c.generator.creator.hasRoomForStreamFrame a.streamId (a.offsetAt 0) = false
  | .after _ _ => c.generator.Flushes d true
  | _ => False

/-- What the loops rely on. -/
def Ready (d : GeneratorDelegate) (a : ConsumeRequest) (c : ConsumeCall) : Prop :=
  match c.phase with
  | .slow total =>
    total ≤ a.writeLength ∧ (total = a.writeLength → a.fin = true) ∧
      (c.generator.connected = true ∨ (∀ k, d.failure k = none) →
        c.generator.creator.hasRoomForStreamFrame a.streamId (a.offsetAt total) = true) ∧
      (0 < total → c.generator.creator.encryptionLevel = .none → a.streamId = kCryptoStreamId)
  | .fast total =>
    0 < a.writeLength ∧ total ≤ a.writeLength ∧ c.generator.creator.queuedFrames = []
  | _ => True

/-- The frames of the call are those of the bytes it has consumed. -/
structure Inv (d : GeneratorDelegate) (a : ConsumeRequest) (g₀ : PacketGenerator)
    (c : ConsumeCall) : Prop where
  sound : c.generator.Sound
  ready : c.Ready d a
  frames : ∃ fs, Adds (c.phase.padding d) g₀.creator c.generator.creator fs ∧ c.phase.Cut a fs

variable {m total k : ℕ} {fs gs : List StreamChunk} {flush finConsumed : Bool}

theorem Inv.next {g' : PacketGenerator} {phase : ConsumePhase} (h : Inv d a g₀ c)
    (hfs : Adds (c.phase.padding d) g₀.creator c.generator.creator fs)
    (hadds : Adds m c.generator.creator g'.creator gs)
    (hp : g'.pending ⊆ c.generator.pending) (hm : c.phase.padding d + m ≤ phase.padding d)
    (hready : Ready d a ⟨g', phase⟩) (hcut : phase.Cut a (fs ++ gs)) :
    Inv d a g₀ ⟨g', phase⟩ where
  sound := ⟨hadds.sized, fun f hf => h.sound.pending f (hp hf)⟩
  ready := hready
  frames := ⟨fs ++ gs, (hfs.trans hadds).mono hm, hcut⟩

/-- An upper bound for the rounds that get on. -/
def measure (a : ConsumeRequest) (c : ConsumeCall) : ℕ :=
  match c.phase with
  | .before _ => a.writeLength + 2 * c.generator.pending.length + 6 + c.generator.weight
  | .room => a.writeLength + 2 * c.generator.pending.length + 5
  | .slow total => a.writeLength - total + 2 * c.generator.pending.length + 4
  | .fast total => a.writeLength - total + 1
  | .after _ _ => c.generator.weight + 1
  | .endless => 0
  | .returned _ => 0

/-- The round fails and is repeated. -/
def Idle (d : GeneratorDelegate) (a : ConsumeRequest) (c : ConsumeCall) : Prop :=
  match c.phase with
  | .before flush =>
    flush = true ∧ c.generator.Blocked ∧ d.failure c.generator.attempts ≠ none
  | .fast total =>
    total < a.writeLength ∧ c.generator.asks d = true ∧ d.failure c.generator.attempts ≠ none
  | .after _ _ => c.generator.Blocked ∧ d.failure c.generator.attempts ≠ none
  | .endless => True
  | _ => False

def Returned (c : ConsumeCall) : Prop := ∃ r, c.phase = .returned r

/-- What a step keeps, that it gets on, and that only a padding is endless. -/
structure Good (d : GeneratorDelegate) (a : ConsumeRequest) (g₀ : PacketGenerator)
    (c c' : ConsumeCall) : Prop where
  inv : Inv d a g₀ c'
  progress : c'.measure a < c.measure a ∨ Idle d a c ∧ c'.measure a ≤ c.measure a
  lost : c'.phase = .endless → c.phase = .endless ∨ Lost d a c

theorem Inv.endless (h : Inv d a g₀ c) : Inv d a g₀ ⟨c.generator, .endless⟩ := by
  obtain ⟨fs, hfs, -⟩ := h.frames
  refine ⟨h.sound, trivial, fs, hfs.mono ?_, trivial⟩
  unfold ConsumePhase.padding
  split <;> simp

theorem queuedRound_cases {g : PacketGenerator} (hd : d.Settled) (hs : g.Sound) (flush : Bool)
    (here next : ConsumePhase) :
    (queuedRound d flush here next g = ⟨g, .endless⟩ ∧
      g.Flushes d flush ∧ g.creator.EndlessPadding) ∨
    (∃ g', queuedRound d flush here next g = ⟨g', next⟩ ∧ Adds 0 g.creator g'.creator [] ∧
      g'.pending <:+ g.pending) ∨
    ∃ g', queuedRound d flush here next g = ⟨g', here⟩ ∧ Adds 0 g.creator g'.creator [] ∧
      g'.pending <:+ g.pending ∧ (g'.weight < g.weight ∨
        (flush = true ∧ g.Blocked ∧ d.failure g.attempts ≠ none) ∧ g'.weight ≤ g.weight) := by
  unfold queuedRound
  by_cases hend : g.Flushes d flush ∧ g.creator.EndlessPadding
  · rw [sendQueuedFrame_of_endless hs hend.1 hend.2]
    exact .inl ⟨rfl, hend⟩
  · obtain ⟨g', last, hround, hadds, hsuffix, hweight⟩ := exists_sendQueuedFrame hd hs hend
    rw [hround]
    cases last with
    | true => exact .inr (.inl ⟨g', rfl, hadds, hsuffix⟩)
    | false =>
      refine .inr (.inr ⟨g', rfl, hadds, hsuffix, ?_⟩)
      obtain hlt | ⟨hflush, hblocked, hfail, hle⟩ := hweight rfl
      · exact .inl hlt
      · exact .inr ⟨⟨hflush, hblocked, hfail⟩, hle⟩

theorem good_before {g : PacketGenerator} (hd : d.Settled) (h : Inv d a g₀ ⟨g, .before flush⟩) :
    Good d a g₀ ⟨g, .before flush⟩ (step d a ⟨g, .before flush⟩) := by
  have hmeasure : measure a ⟨g, .before flush⟩ =
      a.writeLength + 2 * g.pending.length + 6 + g.weight := rfl
  have hstep : step d a ⟨g, .before flush⟩ = queuedRound d flush (.before flush) .room g := rfl
  have hs : g.Sound := h.sound
  obtain ⟨fs, hfs, hcut⟩ := h.frames
  obtain rfl : fs = [] := hcut
  rw [hstep]
  obtain ⟨heq, hflush, hend⟩ | ⟨g', heq, hadds, hsuffix⟩ | ⟨g', heq, hadds, hsuffix, hweight⟩ :=
    queuedRound_cases hd hs flush (.before flush) .room
  · rw [heq]
    have hzero : measure a ⟨g, .endless⟩ = 0 := rfl
    exact ⟨h.endless, .inl (by omega), fun _ => .inr ⟨hend, hflush⟩⟩
  · rw [heq]
    have hle := hsuffix.length_le
    have hroom : measure a ⟨g', .room⟩ = a.writeLength + 2 * g'.pending.length + 5 := rfl
    exact ⟨h.next hfs hadds hsuffix.subset le_rfl trivial rfl, .inl (by omega),
      fun hphase => by cases hphase⟩
  · rw [heq]
    have hle := hsuffix.length_le
    have hsame : measure a ⟨g', .before flush⟩ =
        a.writeLength + 2 * g'.pending.length + 6 + g'.weight := rfl
    refine ⟨h.next hfs hadds hsuffix.subset le_rfl trivial rfl, ?_, fun hphase => by cases hphase⟩
    obtain hlt | ⟨hidle, hle'⟩ := hweight
    · exact .inl (by omega)
    · exact .inr ⟨hidle, by omega⟩

theorem good_after {g : PacketGenerator} (hd : d.Settled)
    (h : Inv d a g₀ ⟨g, .after total finConsumed⟩) :
    Good d a g₀ ⟨g, .after total finConsumed⟩ (step d a ⟨g, .after total finConsumed⟩) := by
  have hmeasure : measure a ⟨g, .after total finConsumed⟩ = g.weight + 1 := rfl
  have hstep : step d a ⟨g, .after total finConsumed⟩ =
      queuedRound d true (.after total finConsumed) (.returned ⟨total, finConsumed⟩) g := rfl
  have hs : g.Sound := h.sound
  obtain ⟨fs, hfs, hcut⟩ := h.frames
  have hcut' : Faithful a (fs ++ []) ⟨total, finConsumed⟩ := (append_nil fs).symm ▸ hcut
  rw [hstep]
  obtain ⟨heq, hflush, hend⟩ | ⟨g', heq, hadds, hsuffix⟩ | ⟨g', heq, hadds, hsuffix, hweight⟩ :=
    queuedRound_cases hd hs true (.after total finConsumed) (.returned ⟨total, finConsumed⟩)
  · rw [heq]
    exact ⟨h.endless, .inl (Nat.succ_pos _), fun _ => .inr ⟨hend, hflush⟩⟩
  · rw [heq]
    exact ⟨h.next hfs hadds hsuffix.subset le_rfl trivial hcut', .inl (Nat.succ_pos _),
      fun hphase => by cases hphase⟩
  · rw [heq]
    have hsame : measure a ⟨g', .after total finConsumed⟩ = g'.weight + 1 := rfl
    refine ⟨h.next hfs hadds hsuffix.subset le_rfl trivial hcut', ?_, fun hphase => by cases hphase⟩
    obtain hlt | ⟨⟨-, hblocked, hfail⟩, hle⟩ := hweight
    · exact .inl (by omega)
    · exact .inr ⟨⟨hblocked, hfail⟩, by omega⟩

/-- The loops are entered with room for a frame, or without a connection. -/
theorem Inv.loop {g' : PacketGenerator} (h : Inv d a g₀ c)
    (hfs : Adds (c.phase.padding d) g₀.creator c.generator.creator fs)
    (hadds : Adds 0 c.generator.creator g'.creator gs)
    (hp : g'.pending = c.generator.pending) (hm : c.phase.padding d = 0)
    (hcut : ConsumePhase.Cut a (fs ++ gs) (.slow total)) (hready : Ready d a ⟨g', .slow total⟩) :
    Inv d a g₀ (a.loop g' total) ∧ (a.loop g' total).phase ≠ .endless ∧
      (a.loop g' total).measure a ≤ a.writeLength - total + 2 * g'.pending.length + 4 := by
  have hsub : g'.pending ⊆ c.generator.pending := hp ▸ Subset.refl _
  unfold ConsumeRequest.loop
  cases hfast : a.runFastPath g' total with
  | true =>
    unfold ConsumeRequest.runFastPath PacketGenerator.hasQueuedFrames at hfast
    simp only [Bool.and_eq_true, Bool.not_eq_true', Bool.or_eq_false_iff, Bool.not_eq_false',
      List.isEmpty_iff, decide_eq_true_eq] at hfast
    refine ⟨h.next hfs hadds hsub hm.le ⟨by omega, hready.1, hfast.1.2.1⟩ hcut.1, ?_, ?_⟩
    · exact fun hphase => by cases hphase
    · show a.writeLength - total + 1 ≤ _
      omega
  | false =>
    exact ⟨h.next hfs hadds hsub hm.le hready hcut, (fun hphase => by cases hphase), Nat.le_refl _⟩

theorem good_room {g : PacketGenerator} (h : Inv d a g₀ ⟨g, .room⟩) :
    Good d a g₀ ⟨g, .room⟩ (step d a ⟨g, .room⟩) := by
  have hs : g.Sound := h.sound
  obtain ⟨fs, hfs, hcut⟩ := h.frames
  obtain rfl : fs = [] := hcut
  -- what the check leaves
  have hnext : ∀ g' : PacketGenerator, Adds 0 g.creator g'.creator [] → g'.pending = g.pending →
      (g'.connected = true ∨ (∀ k, d.failure k = none) →
        g'.creator.hasRoomForStreamFrame a.streamId (a.offsetAt 0) = true) →
      Good d a g₀ ⟨g, .room⟩ (if a.state = .noFin ∧ a.writeLength = 0 then
        ⟨g', .returned ⟨0, false⟩⟩ else a.loop g' 0) := by
    intro g' hadds hp hroom
    split
    · refine ⟨h.next hfs hadds (hp ▸ Subset.refl _) (Nat.zero_le _) trivial .nothing,
        .inl (Nat.lt_of_lt_of_le (Nat.succ_pos 4) (Nat.le_add_left _ _)), fun hphase => ?_⟩
      cases hphase
    · next hdata =>
      have hready : Ready d a ⟨g', .slow 0⟩ :=
        ⟨Nat.zero_le _, fun h0 => decide_eq_true fun hno => hdata ⟨hno, h0.symm⟩, hroom,
          fun h0 => absurd h0 (Nat.lt_irrefl 0)⟩
      obtain ⟨hinv, hphase, hle⟩ :=
        h.loop hfs hadds hp rfl ⟨rfl, fun hne => absurd rfl hne⟩ hready
      have hmeasure : measure a ⟨g, .room⟩ = a.writeLength + 2 * g.pending.length + 5 := rfl
      rw [hp] at hle
      exact ⟨hinv, .inl (by omega), fun hend => absurd hend hphase⟩
  by_cases hroom : g.creator.hasRoomForStreamFrame a.streamId (a.offsetAt 0) = true
  · have hstep : step d a ⟨g, .room⟩ = if a.state = .noFin ∧ a.writeLength = 0 then
        ⟨g, .returned ⟨0, false⟩⟩ else a.loop g 0 := by
      simp [step, hroom]
    rw [hstep]
    exact hnext g (.refl hs.sized) rfl fun _ => hroom
  · by_cases hend : g.creator.EndlessPadding
    · have hstep : step d a ⟨g, .room⟩ = ⟨g, .endless⟩ := by
        simp only [step, hroom, flush_of_endless hend]
        rfl
      rw [hstep]
      exact ⟨h.endless, .inl (Nat.lt_of_lt_of_le (Nat.succ_pos 4) (Nat.le_add_left _ _)),
        fun _ => .inr ⟨hend, Bool.eq_false_of_not_eq_true hroom⟩⟩
    · obtain ⟨g', hflush, hflushed⟩ := exists_flush (d := d) hs.sized hend
      have hstep : step d a ⟨g, .room⟩ = if a.state = .noFin ∧ a.writeLength = 0 then
          ⟨g', .returned ⟨0, false⟩⟩ else a.loop g' 0 := by
        simp only [step, hroom, hflush]
        rfl
      rw [hstep]
      exact hnext g' (hflushed.adds hs.sized) hflushed.pending (hflushed.hasRoom hs.sized _ _)

/-- What a failed packet of the fast loop leaves. -/
theorem fastRound_failed {g : PacketGenerator} {fault : SerializeStep}
    (hlt : total < a.writeLength) (hasks : g.asks d = true)
    (hfail : d.failure g.attempts = some fault) :
    fastRound d a g total = ⟨{ g with
      asked := g.asked + 1
      attempts := g.attempts + 1
      connected := g.connected && !d.onError fault }, .fast total⟩ := by
  unfold fastRound
  rw [if_neg (Nat.not_le.2 hlt), if_pos hasks]
  simp [PacketGenerator.createAndSerializeStreamFrame, asking, hfail]

/-- A write that ends in the fast loop ends with a frame. -/
theorem faithful_fast (hpos : 0 < a.writeLength) (hle : total ≤ a.writeLength)
    (hcut : ConsumePhase.Cut a fs (.fast total)) :
    Faithful a (fs ++ []) ⟨total, a.fin && total = a.writeLength⟩ := by
  rw [append_nil]
  refine Chain.faithful hcut hle (fun h0 => absurd h0 hpos.ne') ?_
  by_cases hend : total = a.writeLength
  · have hne : fs ≠ [] := by
      rintro rfl
      have : 0 = total := hcut
      omega
    simp [hend, hne]
  · simp [hend]

theorem good_fast {g : PacketGenerator} (h : Inv d a g₀ ⟨g, .fast total⟩) :
    Good d a g₀ ⟨g, .fast total⟩ (step d a ⟨g, .fast total⟩) := by
  have hs : g.Sound := h.sound
  obtain ⟨hpos, hle, hq⟩ := h.ready
  obtain ⟨fs, hfs, hcut⟩ := h.frames
  have hmeasure : ∀ g' n, measure a ⟨g', .fast n⟩ = a.writeLength - n + 1 := fun _ _ => rfl
  have hstep : step d a ⟨g, .fast total⟩ = fastRound d a g total := rfl
  -- the loop is left
  have hend : ∀ g' : PacketGenerator, g'.creator = g.creator → g'.pending = g.pending →
      Good d a g₀ ⟨g, .fast total⟩ ⟨g', .returned ⟨total, a.fin && total = a.writeLength⟩⟩ := by
    intro g' hc hp
    have hadds : Adds 0 g.creator g'.creator [] := hc.symm ▸ .refl hs.sized
    exact ⟨h.next hfs hadds (hp ▸ Subset.refl _) (Nat.zero_le _) trivial
      (faithful_fast hpos hle hcut), .inl (Nat.succ_pos _), fun hphase => by cases hphase⟩
  rw [hstep]
  by_cases hlt : total < a.writeLength
  swap
  · unfold fastRound
    rw [if_pos (Nat.not_lt.1 hlt)]
    exact hend g rfl rfl
  cases hasks : g.asks d with
  | false =>
    unfold fastRound
    rw [if_neg (Nat.not_le.2 hlt), hasks]
    exact hend g.asking rfl rfl
  | true =>
  cases hfail : d.failure g.attempts with
  | some fault =>
    rw [fastRound_failed hlt hasks hfail]
    refine ⟨h.next hfs (.refl (n := 0) hs.sized) (Subset.refl _) le_rfl ⟨hpos, hle, hq⟩
      ((append_nil fs).symm ▸ hcut), .inr ⟨⟨hlt, hasks, by simp [hfail]⟩, Nat.le_refl _⟩,
      fun hphase => by cases hphase⟩
  | none =>
    obtain ⟨f, hbytes, hf, hadds⟩ :=
      createAndSerializeStreamFrame_spec d a.streamId (a.offsetAt total) a.fin hs.sized hq hlt
    have hdata := hf.pos hlt
    have hround : fastRound d a g total = ⟨{ g.asking with
        creator := (g.creator.createAndSerializeStreamFrame d a.streamId a.writeLength total
          (a.offsetAt total) a.fin).1
        attempts := g.attempts + 1 }, .fast (total + f.dataLength)⟩ := by
      unfold fastRound
      rw [if_neg (Nat.not_le.2 hlt), if_pos hasks, ← hbytes]
      simp [PacketGenerator.createAndSerializeStreamFrame, asking, hfail]
    rw [hround]
    refine ⟨h.next hfs hadds (Subset.refl _) le_rfl ⟨hpos, hf.within, rfl⟩
      (Chain.append hcut (fun _ => hlt) hf), .inl ?_, fun hphase => by cases hphase⟩
    rw [hmeasure, hmeasure]
    omega

theorem Inv.leave {g' : PacketGenerator} (h : Inv d a g₀ c)
    (hfs : Adds (c.phase.padding d) g₀.creator c.generator.creator fs)
    (hadds : Adds m c.generator.creator g'.creator gs) (hp : g'.pending = c.generator.pending)
    (hm : c.phase.padding d + m ≤ d.randomPadding)
    (hcut : Faithful a (fs ++ gs) ⟨total, finConsumed⟩) :
    Inv d a g₀ (a.leave g' total finConsumed) ∧ (a.leave g' total finConsumed).phase ≠ .endless ∧
      (a.leave g' total finConsumed).measure a ≤ 2 * g'.pending.length + 3 := by
  have hsub : g'.pending ⊆ c.generator.pending := hp ▸ Subset.refl _
  unfold ConsumeRequest.leave
  have hweight := g'.weight_le
  split
  · refine ⟨h.next hfs hadds hsub hm trivial hcut, (fun hphase => by cases hphase), ?_⟩
    show g'.weight + 1 ≤ _
    omega
  · exact ⟨h.next hfs hadds hsub hm trivial hcut, (fun hphase => by cases hphase), Nat.zero_le _⟩

/-- What a round of the slow loop does: it ends the loop, gives up, ends the write, or adds a
    frame that fills the packet. -/
theorem slowRound_cases {g : PacketGenerator} (hs : g.Sound) (hle : total ≤ a.writeLength)
    (hfin : total = a.writeLength → a.fin = true) (hroom : g.asks d = true →
      g.creator.hasRoomForStreamFrame a.streamId (a.offsetAt total) = true) :
    slowRound d a g total = a.leave g.asking total false ∨
    (∃ g', slowRound d a g total = ⟨g', .returned ⟨0, false⟩⟩ ∧ g'.creator = g.creator ∧
      g'.pending = g.pending ∧ (g.creator.encryptionLevel = .none ∧ a.streamId ≠ kCryptoStreamId ∨
        (0 < total → Discards d a ⟨g, .slow total⟩))) ∨
    (∃ g' f, slowRound d a g total = a.leave g' a.writeLength a.fin ∧
      Adds d.randomPadding g.creator g'.creator [f] ∧ g'.pending = g.pending ∧
      Cuts f a.streamId a.writeLength total (a.offsetAt total) a.fin ∧
      total + f.dataLength = a.writeLength) ∨
    ∃ g' f, slowRound d a g total = a.loop g' (total + f.dataLength) ∧
      Adds 0 g.creator g'.creator [f] ∧ g'.pending = g.pending ∧
      Cuts f a.streamId a.writeLength total (a.offsetAt total) a.fin ∧
      total + f.dataLength < a.writeLength ∧ Ready d a ⟨g', .slow (total + f.dataLength)⟩ := by
  unfold slowRound
  cases hasks : g.asks d with
  | false => exact .inl rfl
  | true =>
  rw [if_pos rfl]
  obtain ⟨he, hwhy⟩ | ⟨c', f, he, hcut, hadds, hlevel, hfull⟩ :=
    consumeFrame_cases (g := g.asking) (d := d) a.hasHandshake hs.sized (hroom hasks) hle hfin
  · rw [he]
    exact .inr (.inl ⟨_, rfl, rfl, rfl, hwhy.imp_right fun hchlo hpos => ⟨hpos, hasks, hchlo⟩⟩)
  · rw [he]
    by_cases hend : total + f.dataLength = a.writeLength
    · refine .inr (.inr (.inl ?_))
      simp only [hend, if_true, decide_true, Bool.and_true]
      split
      · refine ⟨_, f, rfl, hadds.setPending fun hlt => (Nat.mod_le _ _).trans ?_, rfl, hcut, hend⟩
        have := hadds.padding (by omega)
        omega
      · exact ⟨_, f, rfl, hadds.mono (Nat.zero_le _), rfl, hcut, hend⟩
    · have hlt : total + f.dataLength < a.writeLength := lt_of_le_of_ne hcut.within hend
      obtain ⟨g', hflush, hflushed⟩ := exists_flush (d := d) (g := { g.asking with creator := c' })
        hadds.sized fun hendless => absurd hendless.1 (Nat.not_lt.2 (hfull hlt).le)
      have hall := hadds.trans (hflushed.adds hadds.sized)
      refine .inr (.inr (.inr ⟨g', f, ?_, hall, hflushed.pending, hcut, hlt, hlt.le,
        fun h0 => absurd h0 hlt.ne, hflushed.hasRoom hadds.sized _ _,
        fun _ hnone => hlevel (hall.level ▸ hnone)⟩))
      simp [hend, hflush]

theorem good_slow {g : PacketGenerator} (hd : d.Settled) (h : Inv d a g₀ ⟨g, .slow total⟩)
    (hdiscards : ¬Discards d a ⟨g, .slow total⟩) :
    Good d a g₀ ⟨g, .slow total⟩ (step d a ⟨g, .slow total⟩) := by
  have hs : g.Sound := h.sound
  obtain ⟨hle, hfin, hroom, hlevel⟩ := h.ready
  obtain ⟨fs, hfs, hchain, hmore⟩ := h.frames
  have hmeasure : measure a ⟨g, .slow total⟩ =
      a.writeLength - total + 2 * g.pending.length + 4 := rfl
  have hfin' : a.writeLength = 0 → a.fin = true := fun h0 => hfin (by omega)
  have hstep : step d a ⟨g, .slow total⟩ = slowRound d a g total := rfl
  rw [hstep]
  obtain heq | ⟨g', heq, hc, hp, hwhy⟩ | ⟨g', f, heq, hadds, hp, hcut, hend⟩ |
    ⟨g', f, heq, hadds, hp, hcut, hlt, hready⟩ :=
    slowRound_cases hs hle hfin fun hasks => hroom (connected_of_asks hd hasks)
  · rw [heq]
    have hnone : false = (a.fin && fs ≠ [] && total = a.writeLength) := by
      by_cases hne : fs = []
      · simp [hne]
      · simp [(hmore hne).ne]
    have hadds : Adds 0 g.creator g.asking.creator [] := .refl hs.sized
    have hpending : g.asking.pending = g.pending := rfl
    obtain ⟨hinv, hphase, hle'⟩ := h.leave hfs hadds hpending (Nat.zero_le _)
      ((append_nil fs).symm ▸ hchain.faithful hle hfin' hnone)
    rw [hpending] at hle'
    exact ⟨hinv, .inl (by omega), fun hend => absurd hend hphase⟩
  · rw [heq]
    have h0 : total = 0 := by
      refine Nat.eq_zero_of_not_pos fun hpos => ?_
      obtain ⟨hnone, hid⟩ | hchlo := hwhy
      · exact hid (hlevel hpos hnone)
      · exact hdiscards (hchlo hpos)
    have hnil : fs = [] := by
      by_contra hne
      have hpos := hchain.pos (by have := hmore hne; omega)
      obtain ⟨f, fs, rfl⟩ := exists_cons_of_ne_nil hne
      have hsum := hchain.covers
      have := hpos f mem_cons_self
      rw [map_cons, sum_cons] at hsum
      omega
    subst hnil
    have hadds : Adds 0 g.creator g'.creator [] := hc.symm ▸ Adds.refl hs.sized
    exact ⟨h.next hfs hadds (hp ▸ Subset.refl _) (Nat.zero_le _) trivial .nothing,
      .inl (Nat.succ_pos _), fun hphase => by cases hphase⟩
  · rw [heq]
    have hnew := hchain.append hmore hcut
    rw [hend] at hnew
    have hall : Faithful a (fs ++ [f]) ⟨a.writeLength, a.fin⟩ :=
      hnew.faithful le_rfl hfin' (by simp)
    obtain ⟨hinv, hphase, hle'⟩ := h.leave hfs hadds hp (Nat.zero_add _).le hall
    rw [hp] at hle'
    exact ⟨hinv, .inl (by omega), fun hend => absurd hend hphase⟩
  · rw [heq]
    have hpos := hcut.pos (by omega)
    obtain ⟨hinv, hphase, hle'⟩ := h.loop hfs hadds hp rfl
      ⟨hchain.append hmore hcut, fun _ => hlt⟩ hready
    rw [hp] at hle'
    exact ⟨hinv, .inl (by omega), fun hend => absurd hend hphase⟩

theorem good_step (hd : d.Settled) (h : Inv d a g₀ c) (hdiscards : ¬Discards d a c)
    (hr : ¬c.Returned) : Good d a g₀ c (c.step d a) := by
  obtain ⟨g, phase⟩ := c
  cases phase with
  | before flush => exact good_before hd h
  | room => exact good_room h
  | slow total => exact good_slow hd h hdiscards
  | fast total => exact good_fast h
  | after total finConsumed => exact good_after hd h
  | endless => exact ⟨h, .inr ⟨trivial, Nat.le_refl _⟩, fun _ => .inl rfl⟩
  | returned r => exact absurd ⟨r, rfl⟩ hr

/-! ## Whole calls -/

theorem step_returned (h : c.Returned) : c.step d a = c := by
  obtain ⟨r, hr⟩ := h
  unfold step
  rw [hr]

/-- A call returns once. -/
theorem returned_unique (hk : ((step d a)^[k] c).Returned) (hm : ((step d a)^[m] c).Returned) :
    (step d a)^[k] c = (step d a)^[m] c := by
  have hstay : ∀ {i j : ℕ}, i ≤ j → ((step d a)^[i] c).Returned →
      (step d a)^[i] c = (step d a)^[j] c := by
    intro i j hle hi
    obtain ⟨n, rfl⟩ := Nat.exists_eq_add_of_le' hle
    rw [iterate_add_apply]
    exact (iterate_fixed (step_returned hi) n).symm
  rcases Nat.le_total k m with hle | hle
  · exact hstay hle hk
  · exact (hstay hle hm).symm

theorem inv_start {g : PacketGenerator} (hs : g.Sound) : Inv d a g (start a g) :=
  ⟨hs, trivial, [], .refl hs.sized, rfl⟩

/-- Along a call that forgets nothing the frames are those of the bytes it has consumed. -/
theorem inv_iterate (hd : d.Settled) (h : Inv d a g₀ c)
    (hdiscards : ∀ j < k, ¬Discards d a ((step d a)^[j] c)) : Inv d a g₀ ((step d a)^[k] c) := by
  induction k with
  | zero => exact h
  | succ k ih =>
    have hk := ih fun j hj => hdiscards j (Nat.lt_succ_of_lt hj)
    rw [iterate_succ_apply']
    by_cases hr : ((step d a)^[k] c).Returned
    · rw [step_returned hr]
      exact hk
    · exact (good_step hd hk (hdiscards k (Nat.lt_succ_self k)) hr).inv

/-- A call that forgets nothing and is never lost in a padding is not endless. -/
theorem not_endless (hd : d.Settled) (h : Inv d a g₀ c) (hstart : c.phase ≠ .endless)
    (hfree : ∀ j, ¬Discards d a ((step d a)^[j] c)) (hlost : ∀ j, ¬Lost d a ((step d a)^[j] c))
    (k : ℕ) : ((step d a)^[k] c).phase ≠ .endless := by
  induction k with
  | zero => exact hstart
  | succ k ih =>
    rw [iterate_succ_apply']
    by_cases hr : ((step d a)^[k] c).Returned
    · rw [step_returned hr]
      exact ih
    · intro hend
      have hk := inv_iterate (k := k) hd h fun j _ => hfree j
      obtain hend' | hlost' := (good_step hd hk (hfree k) hr).lost hend
      · exact ih hend'
      · exact hlost k hlost'

/-- A call that forgets nothing returns, or comes to where every round fails. -/
theorem exists_returned_or_idle (hd : d.Settled) (h : Inv d a g₀ c)
    (hfree : ∀ j, ¬Discards d a ((step d a)^[j] c)) :
    (∃ k, ((step d a)^[k] c).Returned) ∨ ∃ n, ∀ k, Idle d a ((step d a)^[k + n] c) := by
  by_cases hex : ∃ k, ((step d a)^[k] c).Returned
  · exact .inl hex
  · obtain ⟨n, -, hidle⟩ := Halting.exists_idle
      (P := fun c => Inv d a g₀ c ∧ ∀ j, ¬Discards d a ((step d a)^[j] c))
      Returned (Idle d a) (measure a)
      (fun c hc hr => ⟨(good_step hd hc.1 (hc.2 0) hr).inv, fun j => hc.2 (j + 1)⟩)
      (fun c hc hr => (good_step hd hc.1 (hc.2 0) hr).progress) ⟨h, hfree⟩
      (fun k hr => hex ⟨k, hr⟩)
    refine .inr ⟨n, fun k => ?_⟩
    rw [iterate_add_apply]
    exact hidle k

theorem step_discards (hd : d.Settled) (h : Inv d a g₀ c) (hdiscards : Discards d a c) :
    ∃ g' total fs, step d a c = ⟨g', .returned ⟨0, false⟩⟩ ∧ g'.Sound ∧ 0 < total ∧
      total < a.writeLength ∧ Adds 0 g₀.creator g'.creator fs ∧ Faithful a fs ⟨total, false⟩ := by
  obtain ⟨g, phase⟩ := c
  cases phase with
  | slow total =>
    obtain ⟨hpos, hasks, hchlo⟩ := hdiscards
    obtain ⟨hle, -, hroom, -⟩ := h.ready
    obtain ⟨fs, hfs, hchain, hmore⟩ := h.frames
    have hroom := hroom (connected_of_asks hd hasks)
    have hlt : total < a.writeLength := by
      refine hmore ?_
      rintro rfl
      have : 0 = total := hchain
      omega
    refine ⟨{ g.asking with connected := false }, total, fs, ?_, ⟨h.sound.sized, h.sound.pending⟩,
      hpos, hlt, hfs, hchain.faithful hle (fun h0 => by omega) (by simp [hlt.ne])⟩
    have hframe : g.asking.consumeFrame d a.streamId a.writeLength total (a.offsetAt total) a.fin
        a.hasHandshake = some ({ g.asking with connected := false }, none) := by
      unfold PacketGenerator.consumeFrame
      rw [if_neg (by simpa [asking] using hroom)]
      exact if_pos hchlo
    show slowRound d a g total = _
    unfold slowRound
    rw [if_pos hasks, hframe]
  | _ => exact False.elim hdiscards

/-- Without failures, the call is idle only in an endless padding. -/
theorem Idle.endless (h : Idle d a c) (hok : ∀ k, d.failure k = none) : c.phase = .endless := by
  obtain ⟨g, phase⟩ := c
  cases phase with
  | before flush => exact absurd (hok _) h.2.2
  | fast total => exact absurd (hok _) h.2.2
  | after total finConsumed => exact absurd (hok _) h.2
  | endless => rfl
  | _ => exact False.elim h

/-- An endless padding takes more than is due. -/
theorem Inv.not_lost (h : Inv d a g₀ c)
    (hpad : g₀.creator.pendingPaddingBytes + d.randomPadding < 32768) : ¬Lost d a c := by
  rintro ⟨⟨-, -, hpos, hmod⟩, -⟩
  obtain ⟨fs, hfs, -⟩ := h.frames
  have hle : c.phase.padding d ≤ d.randomPadding := by
    unfold ConsumePhase.padding
    split <;> simp
  have := hfs.padding (by omega)
  omega

/-- A delegate that always lets a packet go, and packets that do not fail. -/
def willing : GeneratorDelegate :=
  ⟨fun _ _ => true, fun _ => 1, fun _ => by decide, fun _ => false, 1, fun _ => none, false⟩

/-- An open packet with an ACK, and a control frame that waits. -/
def busy : PacketGenerator where
  creator := ⟨⟨.quic41, 8, false, false, 1338, by decide, by decide⟩, .forwardSecure, 1,
    [.ack 1300], 1310, 0, false, []⟩
  pending := [.control 17]
  asked := 0
  attempts := 0
  connected := true

def longWrite : ConsumeRequest := ⟨5, 4000, 65530, .fin⟩

/-- A CHLO begins at the byte 1326 of the crypto stream. -/
def chloLate : GeneratorDelegate := { willing with startsWithChlo := fun offset => offset = 1326 }

/-- A client before the handshake, with nothing to send. -/
def handshaking : PacketGenerator where
  creator := ⟨busy.creator.layout, .none, 1, [], 0, 0, false, []⟩
  pending := []
  asked := 0
  attempts := 0
  connected := true

def chloWrite : ConsumeRequest := ⟨1, 2000, 0, .noFin⟩

end ConsumeCall

end Puic
