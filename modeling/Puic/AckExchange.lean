/-
  Two endpoints that acknowledge each other's packets (quic_connection.cc).

  Every packet an endpoint serializes stands in `log` from then on, newest first, with
  its ACK and STOP_WAITING frames; the network may deliver any packet of the log, any
  number of times and in any order, or never.  The frames of a packet that was accepted
  are processed one after the other (`unread`), and between two of them the endpoint
  may do whatever it likes.

  An ACK frame is a pointer to what the received packet manager holds, so it is read
  when the packet is serialized; as many of its ranges are written as have room.
  STOP_WAITING frames share `pending_stop_waiting_frame_`, which is filled in while the
  packet is open.  Whether the generator adds these frames, and when, is left open.
  A packet is delivered under the number it was sent with.
-/
import Puic.AckState
import Puic.Lib.Duplex

namespace Puic

open Machine ReceivedPacketManager PacketReceiver PacketSender List Option

/-- A frame about packet numbers, as the peer reads it. -/
inductive AckInfo where
  | ack (frame : AckFrame)
  | stopWaiting (leastUnacked : ℕ)

structure WirePacket where
  number : ℕ
  frames : List AckInfo

/-- The frames that the packet generator adds on its own. -/
inductive PendingFrame where
  | ack
  | stopWaiting
deriving Repr, DecidableEq

/-- A packet with new frames: the pending frames that are still added to it, each with whether there was
    room for it, and the number of ACK blocks that have room. -/
structure Outgoing where
  added : List (PendingFrame × Bool)
  packet : NewPacket
  blocks : ℕ
  outcome : WriteOutcome

/-- An endpoint.  `opened` are the pending frames in the packet that is open, and `openLargestAcked`
    is the `largest_acked` of that packet. -/
structure AckEndpoint where
  sender : PacketSender
  receiver : PacketReceiver
  largestSeenPacketWithAck : ℕ
  opened : List PendingFrame
  pendingStopWaiting : ℕ
  openLargestAcked : ℕ
  unread : List AckInfo
  log : List WirePacket

/-- `OnPacketHeader` lets the packet go on to its frames. -/
def PacketReceiver.takes (r : PacketReceiver) (n : ℕ) (decrypts : Bool) : Bool :=
  r.manager.isAwaitingPacket n && decrypts && near n r.lastHeader

inductive AckAction where
  /-- What the sending half does without a packet being serialized. -/
  | sender (e : SenderEvent)
  | addNextPendingFrame (frame : PendingFrame) (fits : Bool)
  | send (o : Outgoing)
  | writePendingRetransmission (flushed : List Outgoing) (length : ℕ) (outcome : WriteOutcome)
  /-- `SendConnectivityProbingPacket`. -/
  | connectivityProbe
  /-- `SetFromConfig` with the option NSTP. -/
  | noStopWaiting
  /-- The network delivers a packet of the other endpoint. -/
  | receive (k : ℕ) (decrypts : Bool)
  /-- The next frame is processed; loss detection then finds the packets `lost`. -/
  | processFrame (lost : List ℕ)
  | close

namespace AckEndpoint

def new (maxTailLossProbes longTermMtu : ℕ) : AckEndpoint :=
  ⟨.new maxTailLossProbes longTermMtu, .new, 0, [], 0, 0, [], []⟩

variable (x : AckEndpoint)

/-- The largest number that an ACK frame would acknowledge now. -/
def largestAcked : ℕ := x.receiver.manager.largestAcked

/-- `AddNextPendingFrame`; the ACK frame and the STOP_WAITING frame are updated even if there is no
    room. -/
def addNextPendingFrame : PendingFrame × Bool → AckEndpoint
  | (.ack, fits) =>
    let x := { x with receiver := { x.receiver with manager := x.receiver.manager.getUpdatedAckFrame } }
    if fits then { x with opened := x.opened ++ [.ack], openLargestAcked := x.largestAcked } else x
  | (.stopWaiting, fits) =>
    let x := { x with pendingStopWaiting := x.sender.leastUnacked }
    if fits then { x with opened := x.opened ++ [.stopWaiting] } else x

def writeFrame (blocks : ℕ) : PendingFrame → AckInfo
  | .ack => .ack ⟨x.receiver.manager.packets.newest blocks⟩
  | .stopWaiting => .stopWaiting x.pendingStopWaiting

/-- The packet takes the next number, and is gone. -/
def wire (sender : PacketSender) (opened : List PendingFrame) (openLargestAcked : ℕ)
    (frames : List AckInfo) : AckEndpoint :=
  { x with sender, opened, openLargestAcked, log := ⟨x.sender.packetNumber + 1, frames⟩ :: x.log }

def serialize (o : Outgoing) : AckEndpoint :=
  let x := o.added.foldl addNextPendingFrame x
  x.wire (x.sender.send { o.packet with largestAcked := x.openLargestAcked } o.outcome) [] 0
    (x.opened.map (x.writeFrame o.blocks))

/-- One round of `WritePendingRetransmissions`; a retransmission has no ACK or STOP_WAITING frame. -/
def writePendingRetransmission (flushed : List Outgoing) (length : ℕ) (outcome : WriteOutcome) :
    Option AckEndpoint :=
  if x.sender.queuedPackets = [] ∧ length ≤ x.sender.longTermMtu then
    x.sender.manager.nextPendingRetransmission.map fun (p, type, i) =>
      let x := flushed.foldl serialize x
      x.wire (x.sender.resend p type i length outcome) x.opened x.openLargestAcked []
  else none

def receive (packet : WirePacket) (decrypts : Bool) : AckEndpoint :=
  { x with
    receiver := x.receiver.onPacket packet.number decrypts
    unread := if x.receiver.takes packet.number decrypts then packet.frames else [] }

/-- `OnAckFrame` and `OnStopWaitingFrame`. -/
def processFrame (lost : List ℕ) : Option AckEndpoint :=
  match x.unread with
  | [] => none
  | .ack frame :: rest =>
    if x.receiver.lastHeader ≤ x.largestSeenPacketWithAck then some { x with unread := rest }
    else (x.sender.step (.ack frame lost)).map fun sender =>
      if sender.connected then
        { x with
          sender
          largestSeenPacketWithAck := x.receiver.lastHeader
          receiver := x.receiver.onAcked sender.manager.largestPacketPeerKnowsIsAcked
          unread := rest }
      else { x with sender, unread := [] }
  | .stopWaiting leastUnacked :: rest =>
    some { x with receiver := x.receiver.onStopWaitingFrame leastUnacked, unread := rest }

/-- What the endpoint `x` does; `y` is the other one. -/
def act (x y : AckEndpoint) (a : AckAction) : Option AckEndpoint :=
  if x.sender.connected && x.receiver.connected then
    match a with
    | .sender e => if PacketSender.isLocal e then (x.sender.step e).map ({ x with sender := · }) else none
    | .addNextPendingFrame frame fits => some (x.addNextPendingFrame (frame, fits))
    | .send o => some (x.serialize o)
    | .writePendingRetransmission flushed length outcome =>
      x.writePendingRetransmission flushed length outcome
    | .connectivityProbe => some (x.wire (x.sender.taken 0) x.opened x.openLargestAcked [])
    | .noStopWaiting => some { x with receiver := { x.receiver with noStopWaitingFrames := true } }
    | .receive k decrypts => if x.unread.isEmpty then y.log[k]?.map (x.receive · decrypts) else none
    | .processFrame lost => x.processFrame lost
    | .close => some { x with receiver := { x.receiver with connected := false } }
  else none

/-- The frame passes its check, unless it is out of date and not checked. -/
def Accepts : AckInfo → Prop
  | .ack frame =>
    x.largestSeenPacketWithAck < x.receiver.lastHeader → x.sender.validateAckFrame frame = none
  | .stopWaiting leastUnacked =>
    x.receiver.noStopWaitingFrames = false →
      x.receiver.largestSeenPacketWithStopWaiting < x.receiver.lastHeader →
        x.receiver.validateStopWaitingFrame leastUnacked = none

/-! ## What an endpoint knows -/

variable {x x' x'' y y' : AckEndpoint}

/-- A packet that was sent later acknowledges at least as much and gives up at least as much. -/
structure Newer (a b : WirePacket) : Prop where
  number : b.number < a.number
  acks : ∀ f g, .ack f ∈ a.frames → .ack g ∈ b.frames → g.largestAcked ≤ f.largestAcked
  stops : ∀ n k, .stopWaiting n ∈ a.frames → .stopWaiting k ∈ b.frames → k ≤ n

/-- What an endpoint knows about itself. -/
structure Honest (x : AckEndpoint) : Prop where
  ordered : x.sender.Ordered
  bounded : x.sender.Bounded x.largestAcked
  openAck : x.openLargestAcked ≤ x.largestAcked
  header : x.receiver.lastHeader ≤ x.largestAcked
  newer : x.log.Pairwise Newer
  numbers : ∀ a ∈ x.log, a.number ≤ x.sender.packetNumber
  acks : ∀ a ∈ x.log, ∀ f, .ack f ∈ a.frames → f.largestAcked ≤ x.largestAcked
  stops : ∀ a ∈ x.log, ∀ n, .stopWaiting n ∈ a.frames → n ≤ a.number ∧ n ≤ x.sender.leastUnacked
  opened : .stopWaiting ∈ x.opened → x.pendingStopWaiting ≤ x.sender.leastUnacked ∧
    ∀ a ∈ x.log, ∀ n, .stopWaiting n ∈ a.frames → n ≤ x.pendingStopWaiting

/-- What an endpoint has from the other one: nothing above its last packet, and the largest acknowledged
    number and the least awaited number from packets up to the last one with such a frame. -/
structure Follows (x y : AckEndpoint) : Prop where
  received : x.largestAcked ≤ y.sender.packetNumber
  unread : ∀ f ∈ x.unread, ∃ a ∈ y.log, a.number = x.receiver.lastHeader ∧ f ∈ a.frames
  observed : x.sender.largestObserved = 0 ∨ ∃ b ∈ y.log, b.number ≤ x.largestSeenPacketWithAck ∧
    ∃ f, .ack f ∈ b.frames ∧ f.largestAcked = x.sender.largestObserved
  waiting : x.receiver.noStopWaitingFrames = false → x.receiver.manager.peerLeastPacketAwaitingAck = 0 ∨
    ∃ b ∈ y.log, b.number ≤ x.receiver.largestSeenPacketWithStopWaiting ∧
      .stopWaiting x.receiver.manager.peerLeastPacketAwaitingAck ∈ b.frames

/-- What has been sent stays sent. -/
structure Grows (y y' : AckEndpoint) : Prop where
  log : y.log ⊆ y'.log
  number : y.sender.packetNumber ≤ y'.sender.packetNumber

theorem Grows.same (hl : y'.log = y.log) (hn : y'.sender.packetNumber = y.sender.packetNumber) :
    Grows y y' :=
  ⟨hl ▸ Subset.refl _, hn.ge⟩

theorem Grows.trans {y'' : AckEndpoint} (h : Grows y y') (h' : Grows y' y'') : Grows y y'' :=
  ⟨Subset.trans h.log h'.log, h.number.trans h'.number⟩

theorem Follows.grows (h : Follows x y) (hg : Grows y y') : Follows x y' where
  received := h.received.trans hg.number
  unread f hf := by
    obtain ⟨a, ha, hrest⟩ := h.unread f hf
    exact ⟨a, hg.log ha, hrest⟩
  observed := h.observed.imp_right fun ⟨b, hb, hrest⟩ => ⟨b, hg.log hb, hrest⟩
  waiting hn := (h.waiting hn).imp_right fun ⟨b, hb, hrest⟩ => ⟨b, hg.log hb, hrest⟩

theorem Honest.newer_of_lt (h : Honest y) {a b : WirePacket} (ha : a ∈ y.log) (hb : b ∈ y.log)
    (hlt : b.number < a.number) :
    Newer a b := by
  have hne : a ≠ b := by
    rintro rfl
    exact lt_irrefl _ hlt
  have : Std.Symm fun a b => Newer a b ∨ Newer b a := ⟨fun _ _ => Or.symm⟩
  have hboth : y.log.Pairwise fun a b => Newer a b ∨ Newer b a := h.newer.imp .inl
  rcases hboth.forall ha hb hne with hab | hba
  · exact hab
  · exact absurd hba.number (by omega)

theorem Honest.accepts (hy : Honest y) (hxy : Follows x y) (hyx : Follows y x) {f : AckInfo}
    (hf : f ∈ x.unread) :
    x.Accepts f := by
  obtain ⟨a, ha, hnum, hfa⟩ := hxy.unread f hf
  cases f with
  | ack frame =>
    intro hseen
    have hhigh : frame.largestAcked ≤ x.sender.packetNumber := (hy.acks a ha frame hfa).trans hyx.received
    have hlow : x.sender.largestObserved ≤ frame.largestAcked := by
      rcases hxy.observed with h0 | ⟨b, hb, hbn, g, hg, hobs⟩
      · rw [h0]
        exact Nat.zero_le _
      · rw [← hobs]
        exact (hy.newer_of_lt ha hb (by omega)).acks _ _ hfa hg
    unfold PacketSender.validateAckFrame
    unfold PacketSender.largestObserved at hlow
    rw [if_neg (not_lt.2 hhigh), if_neg (not_lt.2 hlow), if_neg]
    rw [frame.largestAcked_eq]
    exact fun h => h.2 rfl
  | stopWaiting n =>
    intro hstop hseen
    have hlarge : n ≤ x.receiver.lastHeader := hnum ▸ (hy.stops a ha n hfa).1
    have hsmall : x.receiver.manager.peerLeastPacketAwaitingAck ≤ n := by
      rcases hxy.waiting hstop with h0 | ⟨b, hb, hbn, hk⟩
      · rw [h0]
        exact Nat.zero_le _
      · exact (hy.newer_of_lt ha hb (by omega)).stops _ _ hfa hk
    unfold validateStopWaitingFrame
    rw [if_neg (not_lt.2 hsmall), if_neg (not_lt.2 hlarge)]

/-! ## Sending -/

/-- Only what an endpoint sends changes, nothing that it has from its peer. -/
structure SameView (x x' : AckEndpoint) : Prop where
  largest : x'.largestAcked = x.largestAcked
  header : x'.receiver.lastHeader = x.receiver.lastHeader
  unread : x'.unread = x.unread
  observed : x'.sender.largestObserved = x.sender.largestObserved
  seenAck : x'.largestSeenPacketWithAck = x.largestSeenPacketWithAck
  seenStop : x'.receiver.largestSeenPacketWithStopWaiting = x.receiver.largestSeenPacketWithStopWaiting
  least : x'.receiver.manager.peerLeastPacketAwaitingAck = x.receiver.manager.peerLeastPacketAwaitingAck
  stop : x'.receiver.noStopWaitingFrames = x.receiver.noStopWaitingFrames

theorem SameView.trans (h : SameView x x') (h' : SameView x' x'') : SameView x x'' :=
  ⟨h'.largest.trans h.largest, h'.header.trans h.header, h'.unread.trans h.unread,
    h'.observed.trans h.observed,
    h'.seenAck.trans h.seenAck, h'.seenStop.trans h.seenStop, h'.least.trans h.least,
    h'.stop.trans h.stop⟩

theorem SameView.follows (v : SameView x x') (h : Follows x y) : Follows x' y where
  received := v.largest ▸ h.received
  unread := by
    rw [v.unread, v.header]
    exact h.unread
  observed := by
    rw [v.observed, v.seenAck]
    exact h.observed
  waiting := by
    rw [v.stop, v.least, v.seenStop]
    exact h.waiting

/-- An honest endpoint sends. -/
structure Sends (x x' : AckEndpoint) : Prop where
  honest : Honest x'
  view : SameView x x'
  grows : Grows x x'

theorem Sends.refl (h : Honest x) : Sends x x :=
  ⟨h, ⟨rfl, rfl, rfl, rfl, rfl, rfl, rfl, rfl⟩, .same rfl rfl⟩

theorem Sends.trans (h : Sends x x') (h' : Sends x' x'') : Sends x x'' :=
  ⟨h'.honest, h.view.trans h'.view, h.grows.trans h'.grows⟩

variable {m : ReceivedPacketManager} {n : ℕ} {sender : PacketSender} {rest : List AckInfo} {lost : List ℕ}

theorem peerLeast_getUpdatedAckFrame :
    m.getUpdatedAckFrame.peerLeastPacketAwaitingAck = m.peerLeastPacketAwaitingAck := by
  have hremove (k : ℕ) (m : ReceivedPacketManager) :
      (m.removeSmallest k).peerLeastPacketAwaitingAck = m.peerLeastPacketAwaitingAck := by
    induction k generalizing m with
    | zero => rfl
    | succ k ih => exact ih _
  unfold getUpdatedAckFrame
  dsimp only
  split
  · exact hremove _ _
  · rfl

/-- The receiving half changes, and has not forgotten its largest number. -/
theorem Honest.receiver (h : Honest x) {r : PacketReceiver} {u : List AckInfo}
    (hl : x.largestAcked ≤ r.manager.largestAcked) (hh : r.lastHeader ≤ r.manager.largestAcked) :
    Honest { x with receiver := r, largestSeenPacketWithAck := n, unread := u } :=
  ⟨h.ordered, h.bounded.mono hl, h.openAck.trans hl, hh, h.newer, h.numbers,
    fun a ha f hf => (h.acks a ha f hf).trans hl, h.stops, h.opened⟩

theorem Honest.updateAck (h : Honest x) : Sends x
    { x with receiver := { x.receiver with manager := x.receiver.manager.getUpdatedAckFrame } } := by
  have hl : x.receiver.manager.getUpdatedAckFrame.largestAcked = x.largestAcked :=
    largestAcked_getUpdatedAckFrame
  exact ⟨h.receiver hl.ge (h.header.trans hl.ge),
    ⟨hl, rfl, rfl, rfl, rfl, rfl, peerLeast_getUpdatedAckFrame, rfl⟩, .same rfl rfl⟩

theorem Honest.addNextPendingFrame (h : Honest x) (e : PendingFrame × Bool) :
    Sends x (x.addNextPendingFrame e) := by
  obtain ⟨frame, fits⟩ := e
  cases frame with
  | ack =>
    have hu := h.updateAck
    unfold AckEndpoint.addNextPendingFrame
    dsimp only
    split
    · refine hu.trans ⟨{ hu.honest with openAck := le_rfl, opened := fun ho => hu.honest.opened ?_ },
        ⟨rfl, rfl, rfl, rfl, rfl, rfl, rfl, rfl⟩, .same rfl rfl⟩
      simpa using ho
    · exact hu
  | stopWaiting =>
    have hstops : x.sender.leastUnacked ≤ x.sender.leastUnacked ∧
        ∀ a ∈ x.log, ∀ n, .stopWaiting n ∈ a.frames → n ≤ x.sender.leastUnacked :=
      ⟨le_rfl, fun a ha n hn => (h.stops a ha n hn).2⟩
    unfold AckEndpoint.addNextPendingFrame
    dsimp only
    split
    · exact ⟨{ h with opened := fun _ => hstops }, ⟨rfl, rfl, rfl, rfl, rfl, rfl, rfl, rfl⟩,
        .same rfl rfl⟩
    · exact ⟨{ h with opened := fun _ => hstops }, ⟨rfl, rfl, rfl, rfl, rfl, rfl, rfl, rfl⟩,
        .same rfl rfl⟩

theorem Honest.addFrames (h : Honest x) (added : List (PendingFrame × Bool)) :
    Sends x (added.foldl AckEndpoint.addNextPendingFrame x) := by
  induction added generalizing x with
  | nil => exact .refl h
  | cons e added ih =>
    have hs := h.addNextPendingFrame e
    exact hs.trans (ih hs.honest)

/-- A packet goes out.  What it acknowledges and gives up is current. -/
theorem Honest.wire (h : Honest x) {opened : List PendingFrame} {l : ℕ} {frames : List AckInfo}
    (ho : sender.Ordered) (hb : sender.Bounded x.largestAcked)
    (hobs : sender.largestObserved = x.sender.largestObserved)
    (hn : sender.packetNumber = x.sender.packetNumber + 1)
    (hleast : x.sender.leastUnacked ≤ sender.leastUnacked)
    (hl : l ≤ x.largestAcked) (hacks : ∀ f, .ack f ∈ frames → f.largestAcked = x.largestAcked)
    (hstops : ∀ n, .stopWaiting n ∈ frames → n = x.pendingStopWaiting ∧ .stopWaiting ∈ x.opened)
    (hopen : .stopWaiting ∈ opened → frames = [] ∧ .stopWaiting ∈ x.opened) :
    Sends x (x.wire sender opened l frames) := by
  refine ⟨⟨ho, hb, hl, h.header, ?_, ?_, ?_, ?_, ?_⟩, ⟨rfl, rfl, rfl, hobs, rfl, rfl, rfl, rfl⟩,
    ⟨subset_cons_self _ _, hn ▸ Nat.le_succ _⟩⟩
  · refine pairwise_cons.2
      ⟨fun b hb => ⟨Nat.lt_succ_of_le (h.numbers b hb), fun f g hf hg => ?_, fun n k hn hk => ?_⟩,
      h.newer⟩
    · rw [hacks f hf]
      exact h.acks b hb g hg
    · obtain ⟨rfl, hin⟩ := hstops n hn
      exact (h.opened hin).2 b hb k hk
  · rintro a (_ | ⟨_, ha⟩)
    · exact hn.ge
    · exact hn ▸ (h.numbers a ha).trans (Nat.le_succ _)
  · rintro a (_ | ⟨_, ha⟩) f hf
    · exact (hacks f hf).le
    · exact h.acks a ha f hf
  · rintro a (_ | ⟨_, ha⟩) n hn
    · obtain ⟨rfl, hin⟩ := hstops n hn
      have hle := (h.opened hin).1
      exact ⟨hle.trans h.ordered.least_le, hle.trans hleast⟩
    · exact ⟨(h.stops a ha n hn).1, (h.stops a ha n hn).2.trans hleast⟩
  · intro hin
    obtain ⟨rfl, hold⟩ := hopen hin
    obtain ⟨hle, hlog⟩ := h.opened hold
    refine ⟨hle.trans hleast, ?_⟩
    rintro a (_ | ⟨_, ha⟩) n hn
    · cases hn
    · exact hlog a ha n hn

theorem least_le_send {s : PacketSender} (packet : NewPacket) (outcome : WriteOutcome) :
    s.leastUnacked ≤ (s.send packet outcome).leastUnacked :=
  (works_sendOrQueuePacket (s.taken packet.frames.length) (s.serializePacket packet) outcome).least_le

theorem Honest.serialize (h : Honest x) (o : Outgoing) : Sends x (x.serialize o) := by
  have hadd := h.addFrames o.added
  unfold AckEndpoint.serialize
  generalize o.added.foldl AckEndpoint.addNextPendingFrame x = z at hadd
  have hz := hadd.honest
  have hpacket : ({ o.packet with largestAcked := z.openLargestAcked } : NewPacket).largestAcked ≤
      z.largestAcked := hz.openAck
  obtain ⟨hb, hobs⟩ := hz.bounded.send hpacket o.outcome
  refine hadd.trans (hz.wire (hz.ordered.send _) hb hobs
    (sendOrQueuePacket_rest _ _ _).1 (least_le_send _ _) (Nat.zero_le _) (fun f hf => ?_)
      (fun n hn => ?_) ?_)
  · obtain ⟨frame, -, hw⟩ := mem_map.1 hf
    cases frame with
    | ack =>
      cases hw
      rw [AckFrame.largestAcked_eq, AckEndpoint.largestAcked, largestAcked_eq]
      exact PacketNumberQueue.max_newest
    | stopWaiting => cases hw
  · obtain ⟨frame, hin, hw⟩ := mem_map.1 hn
    cases frame with
    | ack => cases hw
    | stopWaiting =>
      cases hw
      exact ⟨rfl, hin⟩
  · exact fun hin => absurd hin not_mem_nil

/-- The packets of a flush are new packets to the sending half. -/
theorem Honest.flush (h : Honest x) (flushed : List Outgoing) :
    Sends x (flushed.foldl AckEndpoint.serialize x) ∧
    ∃ packets : List (NewPacket × WriteOutcome),
      (flushed.foldl AckEndpoint.serialize x).sender =
        packets.foldl (fun s e => s.send e.1 e.2) x.sender := by
  induction flushed generalizing x with
  | nil => exact ⟨.refl h, [], rfl⟩
  | cons o flushed ih =>
    have hs := h.serialize o
    obtain ⟨hrest, packets, hp⟩ := ih hs.honest
    have hadd (added : List (PendingFrame × Bool)) (x : AckEndpoint) :
        (added.foldl AckEndpoint.addNextPendingFrame x).sender = x.sender := by
      induction added generalizing x with
      | nil => rfl
      | cons e added ih =>
        refine (ih _).trans ?_
        obtain ⟨frame, fits⟩ := e
        cases frame <;> cases fits <;> rfl
    refine ⟨hs.trans hrest, ({ o.packet with
      largestAcked := (o.added.foldl AckEndpoint.addNextPendingFrame x).openLargestAcked },
      o.outcome) :: packets, ?_⟩
    rw [foldl_cons, foldl_cons, hp]
    congr 1
    show send (o.added.foldl AckEndpoint.addNextPendingFrame x).sender _ _ = _
    rw [hadd]

theorem Honest.writePendingRetransmission (h : Honest x) {flushed : List Outgoing} {length : ℕ}
    {outcome : WriteOutcome}
    (hw : x.writePendingRetransmission flushed length outcome = some x') : Sends x x' := by
  obtain ⟨hc, hw⟩ := ite_none_right_eq_some.1 hw
  obtain ⟨⟨p, type, i⟩, hnext, rfl⟩ := map_eq_some_iff.1 hw
  obtain ⟨hflush, packets, hp⟩ := h.flush flushed
  have hz := hflush.honest
  have hord : (resend (flushed.foldl AckEndpoint.serialize x).sender p type i length
      outcome).Ordered := by
    have hresend : x.sender.writePendingRetransmission packets length outcome =
        some (resend (flushed.foldl AckEndpoint.serialize x).sender p type i length outcome) := by
      unfold PacketSender.writePendingRetransmission
      rw [hnext, hp]
      rfl
    exact h.ordered.writePendingRetransmission hc.1 hresend
  obtain ⟨hb, hobs⟩ := hz.bounded.resend p type i length outcome
  refine hflush.trans (hz.wire hord hb hobs (sendOrQueuePacket_rest _ _ _).1 ?_ hz.openAck
    (fun _ hf => absurd hf not_mem_nil) (fun _ hn => absurd hn not_mem_nil) fun hin => ⟨rfl, hin⟩)
  exact (works_sendOrQueuePacket (taken _ 0) (reserializeAllFrames _ p type i length) outcome).least_le

theorem Honest.connectivityProbe (h : Honest x) :
    Sends x (x.wire (x.sender.taken 0) x.opened x.openLargestAcked []) :=
  h.wire h.ordered.taken ⟨h.bounded.manager, h.bounded.queue⟩ rfl rfl le_rfl h.openAck
    (fun _ hf => absurd hf not_mem_nil) (fun _ hn => absurd hn not_mem_nil) fun hin => ⟨rfl, hin⟩

/-! ## Receiving -/

/-- What an endpoint does with what it receives. -/
structure Learns (x x' y : AckEndpoint) : Prop where
  honest : Honest x'
  follows : Follows x' y
  grows : Grows x x'

theorem onPacket_cases (r : PacketReceiver) (n : ℕ) (decrypts : Bool) :
    (r.takes n decrypts = true ∧ r.onPacket n decrypts =
      { r with
        lastHeader := n
        manager := r.manager.recordPacketReceived n
        processed := n :: r.processed }) ∨
    (r.takes n decrypts = false ∧ ∃ c, r.onPacket n decrypts = { r with connected := c }) := by
  unfold takes onPacket
  cases hw : r.manager.isAwaitingPacket n with
  | false => exact .inr ⟨rfl, r.connected, rfl⟩
  | true =>
    cases decrypts with
    | false => exact .inr ⟨rfl, r.connected, rfl⟩
    | true =>
      cases near n r.lastHeader with
      | false => exact .inr ⟨rfl, false, rfl⟩
      | true => exact .inl ⟨rfl, rfl⟩

theorem Honest.receive (hx : Honest x) (hy : Honest y) (h : Follows x y) {packet : WirePacket}
    (hp : packet ∈ y.log) (decrypts : Bool) : Learns x (x.receive packet decrypts) y := by
  unfold AckEndpoint.receive
  rcases onPacket_cases x.receiver packet.number decrypts with ⟨htake, hr⟩ | ⟨htake, c, hr⟩
  · have hl : (x.receiver.manager.recordPacketReceived packet.number).largestAcked =
        Nat.max x.largestAcked packet.number := largestAcked_recordPacketReceived
    rw [htake, hr]
    refine ⟨hx.receiver (hl ▸ Nat.le_max_left _ _) (hl ▸ Nat.le_max_right _ _),
      ⟨?_, fun f hf => ⟨packet, hp, rfl, hf⟩, h.observed, h.waiting⟩, .same rfl rfl⟩
    show (x.receiver.manager.recordPacketReceived packet.number).largestAcked ≤ _
    rw [hl]
    exact Nat.max_le.2 ⟨h.received, hy.numbers packet hp⟩
  · rw [htake, hr]
    exact ⟨hx.receiver le_rfl hx.header,
      ⟨h.received, fun f hf => absurd hf not_mem_nil, h.observed, h.waiting⟩, .same rfl rfl⟩

theorem peerLeast_dontWaitForPacketsBefore :
    (m.dontWaitForPacketsBefore n).peerLeastPacketAwaitingAck = max m.peerLeastPacketAwaitingAck n := by
  unfold dontWaitForPacketsBefore
  split
  · next hlt => exact (max_eq_right hlt.le).symm
  · next hlt => exact (max_eq_left (not_lt.1 hlt)).symm

theorem Honest.processAck (hx : Honest x) (h : Follows x y) {frame : AckFrame}
    (hu : x.unread = .ack frame :: rest) (hs : x.sender.step (.ack frame lost) = some sender)
    (hc : sender.connected = true) :
    Learns x { x with
      sender
      largestSeenPacketWithAck := x.receiver.lastHeader
      receiver := x.receiver.onAcked sender.manager.largestPacketPeerKnowsIsAcked
      unread := rest } y := by
  have hord := hx.ordered.step hs
  have hleast : x.sender.leastUnacked ≤ sender.leastUnacked := (works_step hs).least_le
  obtain ⟨a, ha, hnum, hfa⟩ := h.unread (.ack frame) (hu ▸ .head _)
  obtain ⟨hb, hobs, hpn⟩ : sender.Bounded x.largestAcked ∧ sender.largestObserved = frame.largestAcked ∧
      sender.packetNumber = x.sender.packetNumber := by
    unfold PacketSender.step at hs
    split at hs
    swap
    · cases hs
    dsimp only at hs
    split at hs
    · cases hs
      cases hc
    · obtain ⟨-, hs⟩ := ite_none_right_eq_some.1 hs
      cases hs
      obtain ⟨hb, hobs⟩ := hx.bounded.manager.onIncomingAck frame lost
      exact ⟨⟨hb, hx.bounded.queue⟩, hobs, rfl⟩
  have hsender : Honest { x with sender } :=
    ⟨hord, hb, hx.openAck, hx.header, hx.newer, hpn ▸ hx.numbers, hx.acks,
      fun a ha n hn => ⟨(hx.stops a ha n hn).1, (hx.stops a ha n hn).2.trans hleast⟩,
      fun ho => ⟨(hx.opened ho).1.trans hleast, (hx.opened ho).2⟩⟩
  have hkeep : (x.receiver.onAcked
      sender.manager.largestPacketPeerKnowsIsAcked).manager.largestAcked = x.largestAcked := by
    unfold onAcked
    split
    · exact largestAcked_dontWaitForPacketsBefore hb.manager.known
    · rfl
  have hheader : (x.receiver.onAcked sender.manager.largestPacketPeerKnowsIsAcked).lastHeader =
      x.receiver.lastHeader := by
    unfold onAcked
    split <;> rfl
  refine ⟨hsender.receiver hkeep.ge (hheader.trans_le (hx.header.trans hkeep.ge)),
    ⟨?_, fun f hf => ?_, ?_, fun hn => ?_⟩, .same rfl hpn⟩
  · exact hkeep.trans_le h.received
  · rw [hheader]
    exact h.unread f (hu ▸ .tail _ hf)
  · exact .inr ⟨a, ha, hnum.le, frame, hfa, hobs.symm⟩
  · unfold onAcked at hn ⊢
    split at hn
    · next hstop => exact absurd (hstop.symm.trans hn) Bool.true_eq_false.mp
    · next hstop =>
      rw [if_neg hstop]
      exact h.waiting hn

theorem Honest.processStop (hx : Honest x) (h : Follows x y)
    (hu : x.unread = .stopWaiting n :: rest) :
    Learns x { x with receiver := x.receiver.onStopWaitingFrame n, unread := rest } y := by
  have hrest : ∀ f ∈ rest, f ∈ x.unread := fun f hf => hu ▸ .tail _ hf
  have hignored : Learns x { x with unread := rest } y :=
    ⟨hx.receiver le_rfl hx.header,
      ⟨h.received, fun f hf => h.unread f (hrest f hf), h.observed, h.waiting⟩, .same rfl rfl⟩
  unfold onStopWaitingFrame
  split_ifs with hstop hold
  · exact hignored
  · exact hignored
  split
  · exact ⟨hx.receiver le_rfl hx.header,
      ⟨h.received, fun f hf => h.unread f (hrest f hf), h.observed, h.waiting⟩, .same rfl rfl⟩
  · next hvalid =>
    obtain ⟨a, ha, hnum, hfa⟩ := h.unread (.stopWaiting n) (hu ▸ .head _)
    obtain ⟨hge, hle⟩ : x.receiver.manager.peerLeastPacketAwaitingAck ≤ n ∧
        n ≤ x.receiver.lastHeader := by
      unfold validateStopWaitingFrame at hvalid
      split_ifs at hvalid with h1 h2
      exact ⟨not_lt.1 h1, not_lt.1 h2⟩
    have hkeep : (x.receiver.manager.dontWaitForPacketsBefore n).largestAcked = x.largestAcked :=
      largestAcked_dontWaitForPacketsBefore (hle.trans hx.header)
    refine ⟨hx.receiver hkeep.ge (hx.header.trans hkeep.ge),
      ⟨hkeep.trans_le h.received, fun f hf => h.unread f (hrest f hf), h.observed,
        fun _ => .inr ⟨a, ha, hnum.le, ?_⟩⟩, .same rfl rfl⟩
    rw [peerLeast_dontWaitForPacketsBefore, max_eq_right hge]
    exact hfa

theorem Honest.processFrame (hx : Honest x) (h : Follows x y) (hp : x.processFrame lost = some x') :
    Learns x x' y := by
  unfold AckEndpoint.processFrame at hp
  split at hp
  · cases hp
  · next frame rest hu =>
    have hrest : ∀ f ∈ rest, ∃ a ∈ y.log, a.number = x.receiver.lastHeader ∧ f ∈ a.frames :=
      fun f hf => h.unread f (hu ▸ .tail _ hf)
    split at hp
    · cases hp
      exact ⟨hx.receiver le_rfl hx.header, ⟨h.received, hrest, h.observed, h.waiting⟩, .same rfl rfl⟩
    · obtain ⟨sender, hs, rfl⟩ := map_eq_some_iff.1 hp
      split
      · next hc => exact hx.processAck h hu hs hc
      · next hc =>
        -- the check has failed, and the connection is closed
        obtain rfl : { x.sender with connected := false } = sender := by
          unfold PacketSender.step at hs
          split at hs
          swap
          · cases hs
          next hconn =>
          dsimp only at hs
          split at hs
          · exact some.inj hs
          · obtain ⟨-, hs⟩ := ite_none_right_eq_some.1 hs
            rw [← some.inj hs] at hc
            exact absurd hconn hc
        exact ⟨⟨hx.ordered, ⟨hx.bounded.manager, hx.bounded.queue⟩, hx.openAck, hx.header, hx.newer,
          hx.numbers, hx.acks,
          hx.stops, hx.opened⟩, ⟨h.received, fun f hf => absurd hf not_mem_nil, h.observed,
            h.waiting⟩, .same rfl rfl⟩
  · next n rest hu =>
    cases hp
    exact hx.processStop h hu

/-! ## Runs -/

theorem Sends.learns (hs : Sends x x') (h : Follows x y) : Learns x x' y :=
  ⟨hs.honest, hs.view.follows h, hs.grows⟩

theorem Honest.senderEvent (hx : Honest x) {e : SenderEvent} (he : isLocal e = true)
    (hs : x.sender.step e = some sender) : Sends x { x with sender } := by
  obtain ⟨hb, hobs, hpn⟩ := hx.bounded.step he hs
  have hleast : x.sender.leastUnacked ≤ sender.leastUnacked := (works_step hs).least_le
  exact ⟨⟨hx.ordered.step hs, hb, hx.openAck, hx.header, hx.newer, hpn ▸ hx.numbers, hx.acks,
    fun a ha n hn => ⟨(hx.stops a ha n hn).1, (hx.stops a ha n hn).2.trans hleast⟩,
    fun ho => ⟨(hx.opened ho).1.trans hleast, (hx.opened ho).2⟩⟩,
    ⟨rfl, rfl, rfl, hobs, rfl, rfl, rfl, rfl⟩, .same rfl hpn⟩

theorem Honest.act (hx : Honest x) (hy : Honest y) (h : Follows x y) {a : AckAction}
    (ha : x.act y a = some x') :
    Learns x x' y := by
  obtain ⟨-, ha⟩ := ite_none_right_eq_some.1 ha
  cases a with
  | sender e =>
    obtain ⟨he, ha⟩ := ite_none_right_eq_some.1 ha
    obtain ⟨sender, hs, rfl⟩ := map_eq_some_iff.1 ha
    exact (hx.senderEvent he hs).learns h
  | addNextPendingFrame frame fits =>
    cases ha
    exact (hx.addNextPendingFrame (frame, fits)).learns h
  | send o =>
    cases ha
    exact (hx.serialize o).learns h
  | writePendingRetransmission flushed length outcome => exact (hx.writePendingRetransmission ha).learns h
  | connectivityProbe =>
    cases ha
    exact hx.connectivityProbe.learns h
  | noStopWaiting =>
    cases ha
    exact ⟨hx.receiver le_rfl hx.header, ⟨h.received, h.unread, h.observed, fun hn => by cases hn⟩,
      .same rfl rfl⟩
  | receive k decrypts =>
    obtain ⟨-, ha⟩ := ite_none_right_eq_some.1 ha
    obtain ⟨packet, hp, rfl⟩ := map_eq_some_iff.1 ha
    exact hx.receive hy h (mem_of_getElem? hp) decrypts
  | processFrame lost => exact hx.processFrame h ha
  | close =>
    cases ha
    exact ⟨hx.receiver le_rfl hx.header, ⟨h.received, h.unread, h.observed, h.waiting⟩, .same rfl rfl⟩

theorem honest_new (maxTailLossProbes longTermMtu : ℕ) : Honest (new maxTailLossProbes longTermMtu) where
  ordered := ordered_new _ _
  bounded := ⟨⟨fun _ hn => absurd hn not_mem_nil, le_rfl⟩, fun _ hp => absurd hp not_mem_nil⟩
  openAck := le_rfl
  header := le_rfl
  newer := .nil
  numbers _ ha := absurd ha not_mem_nil
  acks _ ha := absurd ha not_mem_nil
  stops _ ha := absurd ha not_mem_nil
  opened ho := absurd ho not_mem_nil

theorem follows_new (a b c d : ℕ) : Follows (new a b) (new c d) where
  received := le_rfl
  unread _ hf := absurd hf not_mem_nil
  observed := .inl rfl
  waiting _ := .inl rfl

variable {a b c d : ℕ} {es : List (Side × AckAction)} {p : Duplex AckEndpoint}

theorem sound_run (hr : run (Duplex.step act) ⟨new a b, new c d⟩ es = some p) (side : Side) :
    Honest (p.mine side) ∧ Honest (p.other side) ∧ Follows (p.mine side) (p.other side) ∧
      Follows (p.other side) (p.mine side) := by
  have hsound : p.Sound Honest Follows := by
    refine @Duplex.run_sound _ _ act _ _ Grows (fun x y a x' hx hy h ha => ?_)
      (fun _ _ _ h => h.grows) _ _ _ ?_ hr
    · have hl := hx.act hy h ha
      exact ⟨hl.honest, hl.follows, hl.grows⟩
    · rintro (_ | _) <;> exact ⟨honest_new _ _, follows_new _ _ _ _⟩
  have hc := hsound .client
  have hs := hsound .server
  cases side with
  | client => exact ⟨hc.1, hs.1, hc.2, hs.2⟩
  | server => exact ⟨hs.1, hc.1, hs.2, hc.2⟩

/-- **Honest peers accept each other's acknowledgements.**  Whatever the two endpoints do and whatever the
    network delivers, every ACK and STOP_WAITING frame that is not out of date passes its check. -/
theorem honest_frames_pass (hr : run (Duplex.step act) ⟨new a b, new c d⟩ es = some p) (side : Side)
    {f : AckInfo} (hf : f ∈ (p.mine side).unread) : (p.mine side).Accepts f := by
  obtain ⟨-, hpeer, hmine, hother⟩ := sound_run hr side
  exact hpeer.accepts hmine hother hf

def dataPacket : AckAction := .send ⟨[], ⟨[some 5], .forwardSecure, 100, 0⟩, 0, .sent⟩

def ackPacket : AckAction :=
  .send ⟨[(.ack, true), (.stopWaiting, true)], ⟨[], .forwardSecure, 40, 0⟩, 3, .sent⟩

/-- The server's second packet overtakes its first one, whose frames are then out of date. -/
def overtaken : List (Side × AckAction) :=
  [(.client, dataPacket), (.client, dataPacket), (.server, .receive 0 true), (.server, .receive 1 true),
    (.server, ackPacket), (.client, dataPacket), (.server, .receive 0 true), (.server, ackPacket),
    (.client, .receive 0 true), (.client, .processFrame []), (.client, .processFrame []),
    (.client, .receive 1 true), (.client, .processFrame []), (.client, .processFrame []),
    (.client, dataPacket), (.server, .receive 0 true), (.server, ackPacket), (.client, .receive 0 true)]

/-- The frames of the server's third packet are current, and pass. -/
theorem honest_frames_pass_overtaken :
    ∃ p, run (Duplex.step act) ⟨new 2 1350, new 2 1350⟩ overtaken = some p ∧
    p.client.largestSeenPacketWithAck = 2 ∧ p.client.receiver.lastHeader = 3 ∧
      p.client.unread.length = 2 ∧
    ∀ f ∈ p.client.unread, p.client.Accepts f := by
  obtain ⟨p, hr, hp⟩ := map_eq_some_iff.1 (by decide +kernel :
    (run (Duplex.step act) ⟨new 2 1350, new 2 1350⟩ overtaken).map
      (fun p => (p.client.largestSeenPacketWithAck, p.client.receiver.lastHeader,
        p.client.unread.length)) = some (2, 3, 2))
  simp only [Prod.mk.injEq] at hp
  exact ⟨p, hr, hp.1, hp.2.1, hp.2.2, fun f hf => honest_frames_pass hr .client hf⟩

/-- **No packet is given up that its sender waits for**, whatever the two endpoints do and whatever
    the network delivers: an endpoint awaits every packet that it has not received and that its peer
    has unacked, and takes it if it is near the last one. -/
theorem unacked_still_awaited (hr : run (Duplex.step act) ⟨new a b, new c d⟩ es = some p) (side : Side) :
    (p.mine side).sender.largestObserved ≤ (p.other side).largestAcked ∧
    (p.mine side).largestAcked ≤ (p.other side).sender.packetNumber ∧
    ((p.mine side).receiver.noStopWaitingFrames = false → ∀ n ∉ (p.mine side).receiver.manager.packets,
      (p.other side).sender.leastUnacked ≤ n → (p.mine side).receiver.manager.isAwaitingPacket n = true ∧
        (near n (p.mine side).receiver.lastHeader = true →
          (p.mine side).receiver.takes n true = true)) := by
  obtain ⟨-, hpeer, hf, -⟩ := sound_run hr side
  refine ⟨?_, hf.received, fun hstop n hn hle => ?_⟩
  · rcases hf.observed with h0 | ⟨b, hb, -, f, hfb, hobs⟩
    · exact h0 ▸ Nat.zero_le _
    · exact hobs ▸ hpeer.acks b hb f hfb
  · have hgiven : (p.mine side).receiver.manager.peerLeastPacketAwaitingAck ≤ n := by
      rcases hf.waiting hstop with h0 | ⟨b, hb, -, hfb⟩
      · exact h0 ▸ Nat.zero_le _
      · exact ((hpeer.stops b hb _ hfb).2).trans hle
    have hawaited := isAwaitingPacket_iff.2 ⟨hgiven, hn⟩
    exact ⟨hawaited, fun hnear => by simp [takes, hawaited, hnear]⟩

/-- The server has packets 1, 3 and 4, the client knows of the first two, and the server that packet
    1 is done: packet 2 is late. -/
def late : List (Side × AckAction) :=
  [(.client, dataPacket), (.client, dataPacket), (.client, dataPacket), (.server, .receive 0 true),
    (.server, .receive 2 true), (.server, ackPacket), (.client, .receive 0 true),
    (.client, .processFrame []),
    (.client, .processFrame []), (.client, ackPacket), (.server, .receive 0 true),
    (.server, .processFrame []), (.server, .processFrame [])]

theorem unacked_still_awaited_late : ∃ p, run (Duplex.step act) ⟨new 2 1350, new 2 1350⟩ late = some p ∧
    p.server.receiver.manager.peerLeastPacketAwaitingAck = 2 ∧ p.client.sender.leastUnacked = 2 ∧
    p.server.sender.largestObserved ≤ p.client.largestAcked ∧
    p.server.largestAcked ≤ p.client.sender.packetNumber ∧
    p.server.receiver.manager.isAwaitingPacket 2 = true ∧ p.server.receiver.takes 2 true = true := by
  obtain ⟨p, hr, hp⟩ := map_eq_some_iff.1 (by decide +kernel :
    (run (Duplex.step act) ⟨new 2 1350, new 2 1350⟩ late).map (fun p =>
      (p.server.receiver.manager.peerLeastPacketAwaitingAck, p.client.sender.leastUnacked,
        p.server.receiver.noStopWaitingFrames, p.server.receiver.manager.packets.contains 2,
        near 2 p.server.receiver.lastHeader)) = some (2, 2, false, false, true))
  simp only [Prod.mk.injEq] at hp
  obtain ⟨hgiven, hleast, hstop, hout, hnear⟩ := hp
  have hout : 2 ∉ p.server.receiver.manager.packets := fun h => by
    rw [PacketNumberQueue.contains_iff.2 h] at hout
    cases hout
  obtain ⟨hobserved, hreceived, hawaited⟩ := unacked_still_awaited hr .server
  obtain ⟨hwait, htakes⟩ := hawaited hstop 2 hout hleast.le
  exact ⟨p, hr, hgiven, hleast, hobserved, hreceived, hwait, htakes hnear⟩

end AckEndpoint

end Puic
