/-
  Which packets an endpoint processes (quic_received_packet_manager.cc and the
  receiving half of quic_connection.cc).

  A packet is processed if its number is awaited: not below what the peer has given
  up, and not among the numbers kept for the next ACK.  `processed` records every
  number whose frames were processed, and `dropped` the intervals that
  `GetUpdatedAckFrame` threw away to keep an ACK frame below `max_ack_ranges_`
  intervals; both are not part of the code.

  What is dropped that way is awaited again.  `processed_once` is about runs in which
  no such packet comes back, and `processed_twice` lets one come back.
-/
import Puic.PacketNumberQueue
import Puic.Lib.Run

namespace Puic

open GapList Machine PacketNumberQueue

/-- `QuicReceivedPacketManager`. -/
structure ReceivedPacketManager where
  peerLeastPacketAwaitingAck : ℕ
  packets : PacketNumberQueue
  ackFrameUpdated : Bool
  maxAckRanges : ℕ
  dropped : List Gap

namespace ReceivedPacketManager

def new (maxAckRanges : ℕ) : ReceivedPacketManager := ⟨0, .empty, false, maxAckRanges, []⟩

variable (m : ReceivedPacketManager)

/-- `LargestAcked(ack_frame_)`. -/
def largestAcked : ℕ := if m.packets.isEmpty then 0 else m.packets.max

def isAwaitingPacket (n : ℕ) : Bool :=
  m.peerLeastPacketAwaitingAck ≤ n && !m.packets.contains n

def recordPacketReceived (n : ℕ) : ReceivedPacketManager :=
  { m with ackFrameUpdated := true, packets := m.packets.add n }

/-- `RemoveSmallestInterval`, `k` times. -/
def removeSmallest (m : ReceivedPacketManager) : ℕ → ReceivedPacketManager
  | 0 => m
  | k + 1 => removeSmallest { m with
      packets := m.packets.removeSmallestInterval, dropped :=
        m.packets.intervals.head?.toList ++ m.dropped } k

/-- `GetUpdatedAckFrame`: the loop ends when `max_ack_ranges_` intervals are left. -/
def getUpdatedAckFrame : ReceivedPacketManager :=
  let m := { m with ackFrameUpdated := false }
  if 0 < m.maxAckRanges then m.removeSmallest (m.packets.numIntervals - m.maxAckRanges) else m

def dontWaitForPacketsBefore (leastUnacked : ℕ) : ReceivedPacketManager :=
  if m.peerLeastPacketAwaitingAck < leastUnacked then
    let (packets, updated) := m.packets.removeUpTo leastUnacked
    { m with
      peerLeastPacketAwaitingAck := leastUnacked, packets
      ackFrameUpdated := m.ackFrameUpdated || updated }
  else m

end ReceivedPacketManager

def kMaxPacketGap : ℕ := 5000

/-- `Near`. -/
def near (a b : ℕ) : Bool := decide ((if b < a then a - b else b - a) ≤ kMaxPacketGap)

/-- The receiving half of `QuicConnection`. -/
structure PacketReceiver where
  manager : ReceivedPacketManager
  lastHeader : ℕ
  largestSeenPacketWithStopWaiting : ℕ
  noStopWaitingFrames : Bool
  connected : Bool
  processed : List ℕ

namespace PacketReceiver

/-- The constructor of `QuicConnection` allows 255 ranges. -/
def new : PacketReceiver := ⟨.new 255, 0, 0, false, true, []⟩

variable (r : PacketReceiver)

/-- `OnUnauthenticatedHeader`, the decryption and `OnPacketHeader`.  What `OnPacketHeader` returns true
    for goes on to its frames. -/
def onPacket (n : ℕ) (decrypts : Bool) : PacketReceiver :=
  if !r.manager.isAwaitingPacket n || !decrypts then r
  else if !near n r.lastHeader then { r with connected := false }
  else { r with
    lastHeader := n, manager := r.manager.recordPacketReceived n, processed := n :: r.processed }

/-- `ValidateStopWaitingFrame`. -/
def validateStopWaitingFrame (leastUnacked : ℕ) : Option String :=
  if leastUnacked < r.manager.peerLeastPacketAwaitingAck then some "Least unacked too small."
  else if r.lastHeader < leastUnacked then some "Least unacked too large."
  else none

def onStopWaitingFrame (leastUnacked : ℕ) : PacketReceiver :=
  if r.noStopWaitingFrames then r
  else if r.lastHeader ≤ r.largestSeenPacketWithStopWaiting then r
  else match r.validateStopWaitingFrame leastUnacked with
    | some _ => { r with connected := false }
    | none => { r with
        largestSeenPacketWithStopWaiting := r.lastHeader
        manager := r.manager.dontWaitForPacketsBefore leastUnacked }

/-- The end of `OnAckFrame`, with `largest_packet_peer_knows_is_acked()`. -/
def onAcked (largestPacketPeerKnowsIsAcked : ℕ) : PacketReceiver :=
  if r.noStopWaitingFrames then
    { r with manager := r.manager.dontWaitForPacketsBefore largestPacketPeerKnowsIsAcked }
  else r

end PacketReceiver

/-- What happens to the receiving half.  The frames of a packet come after its header, in any number; an
    ACK frame of one's own may be built at any time, also between two of them. -/
inductive ReceiverEvent where
  | packet (n : ℕ) (decrypts : Bool)
  | stopWaiting (leastUnacked : ℕ)
  | acked (largestPacketPeerKnowsIsAcked : ℕ)
  | getUpdatedAckFrame
  /-- `SetFromConfig` with the option NSTP. -/
  | noStopWaiting
  | close
deriving Repr, DecidableEq

namespace PacketReceiver

def step (r : PacketReceiver) (e : ReceiverEvent) : Option PacketReceiver :=
  if r.connected then
    match e with
    | .packet n decrypts => some (r.onPacket n decrypts)
    | .stopWaiting leastUnacked => some (r.onStopWaitingFrame leastUnacked)
    | .acked n => some (r.onAcked n)
    | .getUpdatedAckFrame => some { r with manager := r.manager.getUpdatedAckFrame }
    | .noStopWaiting => some { r with noStopWaitingFrames := true }
    | .close => some { r with connected := false }
  else none

/-- A packet is processed whose number was dropped from the ACK frame. -/
def Replays (r : PacketReceiver) : ReceiverEvent → Prop
  | .packet n decrypts => r.manager.isAwaitingPacket n = true ∧ decrypts = true ∧
    near n r.lastHeader = true ∧
      Missing r.manager.dropped n
  | _ => False

instance (r : PacketReceiver) (e : ReceiverEvent) : Decidable (r.Replays e) := by
  unfold Replays
  split <;> infer_instance

end PacketReceiver

/-! ## What is kept of the processed numbers -/

namespace ReceivedPacketManager

variable {m m' : ReceivedPacketManager} {n x : ℕ}

/-- The numbers `P` are still known, have been dropped, or are given up by the peer. -/
structure Tracks (m : ReceivedPacketManager) (P : ℕ → Prop) : Prop where
  known : ∀ x, P x → x ∈ m.packets ∨ Missing m.dropped x ∨ x < m.peerLeastPacketAwaitingAck
  packets : ∀ x ∈ m.packets, P x
  dropped : ∀ x, Missing m.dropped x → P x

variable {P : ℕ → Prop}

theorem isAwaitingPacket_iff : m.isAwaitingPacket n = true ↔ m.peerLeastPacketAwaitingAck ≤ n ∧
    n ∉ m.packets := by
  rw [isAwaitingPacket, Bool.and_eq_true, decide_eq_true_iff, Bool.not_eq_true', ← Bool.not_eq_true,
    contains_iff]

/-- Of the numbers that are tracked, the dropped ones are awaited. -/
theorem Tracks.awaited (h : Tracks m P) (hn : m.isAwaitingPacket n = true) :
    P n ↔ Missing m.dropped n := by
  obtain ⟨hle, hout⟩ := isAwaitingPacket_iff.1 hn
  refine ⟨fun hp => ?_, h.dropped n⟩
  rcases h.known n hp with hin | hd | hlt
  · exact absurd hin hout
  · exact hd
  · omega

theorem Tracks.recordPacketReceived (h : Tracks m P) :
    Tracks (m.recordPacketReceived n) (fun x => x = n ∨ P x) where
  known x := by
    rintro (rfl | hx)
    · exact .inl (mem_add.2 (.inl rfl))
    · exact (h.known x hx).imp_left fun hin => mem_add.2 (.inr hin)
  packets x hx := (mem_add.1 hx).imp_right (h.packets x)
  dropped x hx := .inr (h.dropped x hx)

theorem Tracks.removeSmallest (k : ℕ) (h : Tracks m P) : Tracks (m.removeSmallest k) P := by
  induction k generalizing m with
  | zero => exact h
  | succ k ih =>
    have hfirst : ∀ x, Missing (m.packets.intervals.head?.toList ++ m.dropped) x ↔
        (∃ g, m.packets.intervals.head? = some g ∧ g.lo ≤ x ∧ x < g.hi) ∨ Missing m.dropped x := by
      intro x
      rw [missing_append]
      simp [Missing]
    refine ih ⟨fun x hx => ?_, fun x hx => ?_, fun x hx => ?_⟩
    · show x ∈ m.packets.removeSmallestInterval ∨
        Missing (m.packets.intervals.head?.toList ++ m.dropped) x ∨ _
      rw [hfirst]
      rcases h.known x hx with hin | hd | hlt
      · rcases mem_removeSmallestInterval.1 hin with hg | hin
        · exact .inr (.inl (.inl hg))
        · exact .inl hin
      · exact .inr (.inl (.inr hd))
      · exact .inr (.inr hlt)
    · exact h.packets x (mem_removeSmallestInterval.2 (.inr hx))
    · rcases (hfirst x).1 hx with hg | hd
      · exact h.packets x (mem_removeSmallestInterval.2 (.inl hg))
      · exact h.dropped x hd

/-- The oldest intervals are the ones removed. -/
theorem removeSmallest_eq (k : ℕ) :
    (m.removeSmallest k).packets.intervals = m.packets.intervals.drop k ∧
      (m.removeSmallest k).dropped = (m.packets.intervals.take k).reverse ++ m.dropped ∧
      (m.removeSmallest k).maxAckRanges = m.maxAckRanges := by
  induction k generalizing m with
  | zero => exact ⟨rfl, rfl, rfl⟩
  | succ k ih =>
    obtain ⟨hkept, hdropped, hmax⟩ := @ih { m with
      packets := m.packets.removeSmallestInterval, dropped :=
        m.packets.intervals.head?.toList ++ m.dropped }
    rw [ReceivedPacketManager.removeSmallest]
    refine ⟨hkept.trans ?_, hdropped.trans ?_, hmax⟩ <;> dsimp only [removeSmallestInterval] <;>
      cases m.packets.intervals <;> simp

theorem getUpdatedAckFrame_eq (hpos : 0 < m.maxAckRanges) :
    m.getUpdatedAckFrame.packets.intervals =
        m.packets.intervals.drop (m.packets.numIntervals - m.maxAckRanges) ∧
      m.getUpdatedAckFrame.dropped =
        (m.packets.intervals.take (m.packets.numIntervals - m.maxAckRanges)).reverse ++ m.dropped ∧
      m.getUpdatedAckFrame.maxAckRanges = m.maxAckRanges := by
  unfold ReceivedPacketManager.getUpdatedAckFrame
  rw [if_pos hpos]
  exact removeSmallest_eq _

/-- Nothing is dropped from a frame that is short enough. -/
theorem getUpdatedAckFrame_of_le (h : m.packets.numIntervals ≤ m.maxAckRanges) :
    m.getUpdatedAckFrame = { m with ackFrameUpdated := false } := by
  unfold ReceivedPacketManager.getUpdatedAckFrame
  dsimp only
  rw [Nat.sub_eq_zero_of_le h]
  exact ite_self _

theorem Tracks.getUpdatedAckFrame (h : Tracks m P) : Tracks m.getUpdatedAckFrame P := by
  have h' : Tracks { m with ackFrameUpdated := false } P := ⟨h.known, h.packets, h.dropped⟩
  unfold ReceivedPacketManager.getUpdatedAckFrame
  dsimp only
  split
  · exact h'.removeSmallest _
  · exact h'

theorem Tracks.dontWaitForPacketsBefore (h : Tracks m P) : Tracks (m.dontWaitForPacketsBefore n) P := by
  unfold ReceivedPacketManager.dontWaitForPacketsBefore
  split_ifs with hlt
  · refine ⟨fun x hx => ?_, fun x hx => h.packets x (mem_removeUpTo.1 hx).2, h.dropped⟩
    by_cases hxn : x < n
    · exact .inr (.inr hxn)
    rcases h.known x hx with hin | hd | hl
    · exact .inl (mem_removeUpTo.2 ⟨by omega, hin⟩)
    · exact .inr (.inl hd)
    · exact .inr (.inr (hl.trans hlt))
  · exact h

end ReceivedPacketManager

namespace PacketReceiver

variable {r r' : PacketReceiver} {n : ℕ} {e : ReceiverEvent} {es : List ReceiverEvent}

/-- The manager tracks what was processed. -/
def Tracked (r : PacketReceiver) : Prop := r.manager.Tracks (· ∈ r.processed)

theorem tracked_new : Tracked new :=
  ⟨fun _ hx => (nomatch hx), fun _ hx => absurd hx not_mem_empty, fun _ hx => absurd hx missing_nil⟩

/-- What one event does to the processed numbers. -/
structure Processes (r r' : PacketReceiver) (e : ReceiverEvent) : Prop where
  tracked : Tracked r'
  nodup : r'.processed.Nodup ↔ r.processed.Nodup ∧ ¬ r.Replays e

theorem Processes.same (h : Tracked r') (hp : r'.processed = r.processed) (he : ¬ r.Replays e) :
    Processes r r' e :=
  ⟨h, by simp [hp, he]⟩

theorem Tracked.onPacket (h : Tracked r) {decrypts : Bool} :
    Processes r (r.onPacket n decrypts) (.packet n decrypts) := by
  unfold PacketReceiver.onPacket
  split_ifs with h1 h2
  · refine .same h rfl ?_
    rintro ⟨ha, hd, -⟩
    simp [ha, hd] at h1
  · refine .same h rfl ?_
    rintro ⟨-, -, hn, -⟩
    simp [hn] at h2
  · obtain ⟨ha, hd⟩ : r.manager.isAwaitingPacket n = true ∧ decrypts = true := by simpa using h1
    have hn : near n r.lastHeader = true := by simpa using h2
    have htr : Tracked { r with
        lastHeader := n, manager := r.manager.recordPacketReceived n, processed :=
          n :: r.processed } := by
      have := h.recordPacketReceived (n := n)
      simpa only [Tracked, List.mem_cons] using this
    refine ⟨htr, ?_⟩
    have hrep : r.Replays (.packet n decrypts) ↔ n ∈ r.processed := by
      simp only [Replays, ha, hd, hn, true_and]
      exact (h.awaited ha).symm
    rw [hrep, List.nodup_cons, and_comm]

theorem Tracked.onStopWaitingFrame (h : Tracked r) :
    Processes r (r.onStopWaitingFrame n) (.stopWaiting n) := by
  unfold PacketReceiver.onStopWaitingFrame
  split_ifs
  · exact .same h rfl id
  · exact .same h rfl id
  · split
    · exact .same h rfl id
    · exact .same h.dontWaitForPacketsBefore rfl id

theorem Tracked.onAcked (h : Tracked r) : Processes r (r.onAcked n) (.acked n) := by
  unfold PacketReceiver.onAcked
  split_ifs
  · exact .same h.dontWaitForPacketsBefore rfl id
  · exact .same h rfl id

theorem Tracked.step (h : Tracked r) (hst : r.step e = some r') : Processes r r' e := by
  unfold PacketReceiver.step at hst
  split at hst
  swap
  · cases hst
  cases e with
  | packet n decrypts => cases hst; exact h.onPacket
  | stopWaiting n => cases hst; exact h.onStopWaitingFrame
  | acked n => cases hst; exact h.onAcked
  | getUpdatedAckFrame => cases hst; exact .same h.getUpdatedAckFrame rfl id
  | noStopWaiting => cases hst; exact .same h rfl id
  | close => cases hst; exact .same h rfl id

/-- A number is processed twice exactly if a packet comes back whose number was dropped. -/
theorem nodup_run (h : Tracked r) (hr : run step r es = some r') :
    r'.processed.Nodup ↔ r.processed.Nodup ∧ Along step (fun r e => ¬ r.Replays e) r es := by
  induction es generalizing r with
  | nil => cases hr; simp [Along]
  | cons e es ih =>
    obtain ⟨s, hs, hr⟩ := run_cons.1 hr
    have hp := h.step hs
    rw [ih hp.tracked hr, hp.nodup, along_cons hs, and_assoc]

/-- **Every packet number is processed at most once**, for any order of packets, STOP_WAITING frames and
    ACKs, exactly if no packet is processed whose number was dropped from the ACK frame. -/
theorem processed_once (hr : run step new es = some r) :
    r.processed.Nodup ↔ Along step (fun r e => ¬ r.Replays e) new es := by
  rw [nodup_run tracked_new hr]
  exact and_iff_right List.nodup_nil

/-- A duplicate of packet 1 is discarded. -/
theorem processed_once_duplicate : ∃ r, run step new
      [.packet 1 true, .packet 3 true, .getUpdatedAckFrame, .packet 1 true, .packet 2 true] = some r ∧
    r.processed = [2, 3, 1] ∧ r.processed.Nodup := by
  obtain ⟨r, hr, hp⟩ := Option.map_eq_some_iff.1 (by decide +kernel : (run step new
      [.packet 1 true, .packet 3 true, .getUpdatedAckFrame, .packet 1 true, .packet 2 true]).map
        (·.processed) =
        some [2, 3, 1])
  exact ⟨r, hr, hp, (processed_once hr).2 (by decide +kernel)⟩

/-- Every second packet of the first 511 arrives, and an ACK is built. -/
def oddsAcked : List ReceiverEvent :=
  (List.range 256).map (fun k => .packet (2 * k + 1) true) ++ [.getUpdatedAckFrame]

theorem run_oddsAcked : ∃ r, run step new oddsAcked = some r ∧
    r.connected = true ∧ r.lastHeader = 511 ∧ r.processed.count 1 = 1 ∧
      r.manager.packets.contains 1 = false ∧
    r.manager.peerLeastPacketAwaitingAck = 0 ∧ r.manager.packets.numIntervals = 255 := by
  obtain ⟨r, hr, hp⟩ := Option.map_eq_some_iff.1
    (by decide +kernel : (run step new oddsAcked).map (fun r =>
      (r.connected, r.lastHeader, r.processed.count 1, r.manager.packets.contains 1,
        r.manager.peerLeastPacketAwaitingAck, r.manager.packets.numIntervals)) =
      some (true, 511, 1, false, 0, 255))
  simp only [Prod.mk.injEq] at hp
  exact ⟨r, hr, hp⟩

/-- The network delivers packet 1 once more. -/
def everySecond : List ReceiverEvent := oddsAcked ++ [.packet 1 true]

theorem processed_twice : ∃ r, run step new everySecond = some r ∧ r.processed.count 1 = 2 := by
  obtain ⟨r, hr, hconn, hlast, hcount, hout, hleast, -⟩ := run_oddsAcked
  refine ⟨{ r with
      lastHeader := 1, manager := r.manager.recordPacketReceived 1, processed :=
        1 :: r.processed }, ?_, ?_⟩
  · have hawaited : r.manager.isAwaitingPacket 1 = true := by
      simp [ReceivedPacketManager.isAwaitingPacket, hleast, hout]
    rw [everySecond, run_append]
    refine ⟨r, hr, ?_⟩
    simp [run, step, onPacket, near, kMaxPacketGap, hconn, hawaited, hlast]
  · rw [List.count_cons_self, hcount]

/-- Only `GetUpdatedAckFrame` drops intervals. -/
theorem dropped_step (he : e ≠ .getUpdatedAckFrame) (hst : r.step e = some r') :
    r'.manager.maxAckRanges = r.manager.maxAckRanges ∧ r'.manager.dropped = r.manager.dropped := by
  obtain ⟨-, hst⟩ := Option.ite_none_right_eq_some.1 hst
  have hwait : ∀ n, (r.manager.dontWaitForPacketsBefore n).maxAckRanges = r.manager.maxAckRanges ∧
      (r.manager.dontWaitForPacketsBefore n).dropped = r.manager.dropped := by
    intro n
    unfold ReceivedPacketManager.dontWaitForPacketsBefore
    split <;> exact ⟨rfl, rfl⟩
  cases e with
  | packet n decrypts =>
    cases hst
    unfold PacketReceiver.onPacket
    split_ifs <;> exact ⟨rfl, rfl⟩
  | stopWaiting n =>
    cases hst
    unfold PacketReceiver.onStopWaitingFrame
    split_ifs
    · exact ⟨rfl, rfl⟩
    · exact ⟨rfl, rfl⟩
    · split
      · exact ⟨rfl, rfl⟩
      · exact hwait n
  | acked n =>
    cases hst
    unfold PacketReceiver.onAcked
    split_ifs
    · exact hwait n
    · exact ⟨rfl, rfl⟩
  | getUpdatedAckFrame => exact absurd rfl he
  | noStopWaiting => cases hst; exact ⟨rfl, rfl⟩
  | close => cases hst; exact ⟨rfl, rfl⟩

theorem maxAckRanges_step (h : r.manager.maxAckRanges = 255) (hst : r.step e = some r') :
    r'.manager.maxAckRanges = 255 := by
  by_cases he : e = .getUpdatedAckFrame
  · subst he
    obtain ⟨-, hst⟩ := Option.ite_none_right_eq_some.1 hst
    cases hst
    exact (ReceivedPacketManager.getUpdatedAckFrame_eq (h ▸ Nat.succ_pos 254)).2.2.trans h
  · exact (dropped_step he hst).1.trans h

/-- **An ACK frame is true and complete**, in every run: it names only packets that were processed,
    and all of them but what the peer has given up and what was dropped to keep it short.  Short
    means 255 intervals: a frame with no more of them is left as it is, and otherwise the oldest
    ones above that number are dropped, by `GetUpdatedAckFrame` alone. -/
theorem ack_frame_exact (hr : run step new es = some r) :
    (∀ n ∈ r.manager.packets, n ∈ r.processed) ∧
    (∀ n ∈ r.processed, n ∈ r.manager.packets ∨ Missing r.manager.dropped n ∨
      n < r.manager.peerLeastPacketAwaitingAck) ∧
    (r.manager.packets.numIntervals ≤ 255 →
      r.manager.getUpdatedAckFrame = { r.manager with ackFrameUpdated := false }) ∧
    r.manager.getUpdatedAckFrame.packets.intervals =
      r.manager.packets.intervals.drop (r.manager.packets.numIntervals - 255) ∧
    r.manager.getUpdatedAckFrame.dropped =
      (r.manager.packets.intervals.take (r.manager.packets.numIntervals - 255)).reverse ++
        r.manager.dropped ∧
    ∀ e ≠ .getUpdatedAckFrame, ∀ r', r.step e = some r' → r'.manager.dropped = r.manager.dropped := by
  have ht : Tracked r := run_inv (fun _ _ _ h hst => (h.step hst).tracked) tracked_new hr
  have hmax : r.manager.maxAckRanges = 255 :=
    run_inv (I := fun r => r.manager.maxAckRanges = 255) (fun _ _ _ => maxAckRanges_step) rfl hr
  obtain ⟨hkept, hdropped, -⟩ := ReceivedPacketManager.getUpdatedAckFrame_eq (m := r.manager) (by omega)
  rw [hmax] at hkept hdropped
  refine ⟨ht.packets, ht.known, fun hle => ?_, hkept, hdropped,
    fun e he r' hst => (dropped_step he hst).2⟩
  exact ReceivedPacketManager.getUpdatedAckFrame_of_le (hmax ▸ hle)

/-- Packet 1 was processed, and dropped from the ACK; the next ACK drops nothing more. -/
theorem ack_frame_exact_odds : ∃ r, run step new oddsAcked = some r ∧
    1 ∈ r.processed ∧ 1 ∉ r.manager.packets ∧ Missing r.manager.dropped 1 ∧
    (∀ n ∈ r.manager.packets, n ∈ r.processed) ∧
    r.manager.getUpdatedAckFrame = { r.manager with ackFrameUpdated := false } := by
  obtain ⟨r, hr, -, -, hcount, hout, hleast, hnum⟩ := run_oddsAcked
  have hin : 1 ∈ r.processed := List.count_pos_iff.1 (by omega)
  have hout : 1 ∉ r.manager.packets := fun h => by rw [contains_iff.2 h] at hout; cases hout
  obtain ⟨hsound, hknown, hshort, -⟩ := ack_frame_exact hr
  refine ⟨r, hr, hin, hout, ?_, hsound, hshort hnum.le⟩
  rcases hknown 1 hin with h | h | h
  · exact absurd h hout
  · exact h
  · omega

end PacketReceiver

end Puic
