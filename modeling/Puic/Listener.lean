/-
  `PuicListener` (puic_server.cc) with its `PuicDispatcher` and
  `QuicTimeWaitListManager` (net/tools/quic).

  The listener owns the same send pool as the dialer.  Sessions write through a
  `PuicPerSessionWriter`; the time-wait list manager answers packets of closed
  connections on the shared writer itself and queues what it cannot send.  Both
  are `QuicBlockedWriterInterface`s, and `write_blocked_list_` holds those that
  wait for the shared writer.

  As for the dialer, a wake-up pass (`QuicDispatcher::OnCanWrite`) is cut into the
  writers it takes off the list; for the time-wait list manager it is cut further
  into the packets it sends (`writeQueued`).
-/
import Puic.Lib.WakeList
import Puic.ConnTable
import Puic.SendPool

namespace Puic

open WakeList Relation ConnTable

/-- `QuicBlockedWriterInterface`: a connection, by address, or the time-wait list manager. -/
inductive BlockedWriter where
  | connection (key : ℕ)
  | timeWaitListManager
deriving Repr, DecidableEq

/-- The listener; `waking` is set while `QuicDispatcher::OnCanWrite` runs, `draining` while it is
    inside `QuicTimeWaitListManager::OnBlockedWriterCanWrite`. -/
structure Listener where
  pool : SendPool
  sessionMap : List Conn
  closedSessionList : List Conn
  writeBlockedList : List BlockedWriter
  pendingPacketsQueue : List (List UInt8)
  nextConn : ℕ
  waking : Bool
  draining : Bool

inductive ListenerAct where
  | start (bound : Bool)
  | stop
  | newSession (connectionId : ℕ)
  | writePacket (conn : ℕ) (data : List UInt8) (r : ℤ)
  | canWrite (conn : ℕ)
  | onConnectionClosed (conn : ℕ)
  | sendOrQueuePacket (packet : List UInt8) (r : ℤ)
  | onUvSend (i : ℕ)
  | wakeNext
  | writeQueued (r : ℤ)
  | queueDone
  | wakeDone
  | deleteSessions

namespace Listener

def init : Listener where
  pool := .init
  sessionMap := []
  closedSessionList := []
  writeBlockedList := []
  pendingPacketsQueue := []
  nextConn := 0
  waking := false
  draining := false

variable (s : Listener)

/-- `QuicDispatcher::OnWriteBlocked`, which refuses while the shared writer is not blocked. -/
def onWriteBlocked (w : BlockedWriter) : Listener :=
  if s.pool.writeBlocked then { s with writeBlockedList := pushNew s.writeBlockedList w } else s

/-- `QuicConnection::WritePacket`, through the per-session writer to the shared one. -/
def writePacket (k : ℕ) (data : List UInt8) (r : ℤ) : Listener :=
  if mayWrite s.sessionMap k then
    let w := s.pool.writePacket data r
    match w.2 with
    | .blocked _ =>
      { s with pool := w.1, sessionMap := setBlocked s.sessionMap k true }.onWriteBlocked (.connection k)
    | _ => { s with pool := w.1 }
  else s

def canWrite (k : ℕ) : Listener :=
  if isStuck s.sessionMap k then s.onWriteBlocked (.connection k) else s

/-- A connection is torn down: `QuicDispatcher::OnConnectionClosed` and `CleanUpSession`. -/
def onConnectionClosed (k : ℕ) : Listener :=
  match conn? s.sessionMap k with
  | none => s
  | some c =>
    { s with
      closedSessionList := s.closedSessionList ++ [{ c with connected := false }]
      writeBlockedList := s.writeBlockedList.erase (.connection k)
      sessionMap := s.sessionMap.filter (·.id != c.id) }

/-- `QuicTimeWaitListManager::WriteToWire`. -/
def writeToWire (packet : List UInt8) (r : ℤ) : Listener × Bool :=
  if s.pool.writeBlocked then (s.onWriteBlocked .timeWaitListManager, false)
  else
    let w := s.pool.writePacket packet r
    match w.2 with
    | .blocked _ => ({ s with pool := w.1 }.onWriteBlocked .timeWaitListManager, false)
    | _ => ({ s with pool := w.1 }, true)

def sendOrQueuePacket (packet : List UInt8) (r : ℤ) : Listener :=
  match s.writeToWire packet r with
  | (s', true) => s'
  | (s', false) => { s' with pendingPacketsQueue := s'.pendingPacketsQueue ++ [packet] }

/-- One round of the loop of `QuicTimeWaitListManager::OnBlockedWriterCanWrite`. -/
def writeQueued (r : ℤ) : Option Listener :=
  match s.pendingPacketsQueue with
  | [] => none
  | packet :: rest =>
    if s.draining then
      match s.writeToWire packet r with
      | (s', true) => some { s' with pendingPacketsQueue := rest }
      | (s', false) => some { s' with draining := false }
    else none

def start (bound : Bool) : Listener := { s with pool := s.pool.start bound }

/-- `Stop`: all sessions are closed and the dispatcher is destroyed with what it holds. -/
def stop : Option Listener :=
  if s.waking then none
  else if s.pool.started then
    some { init with pool := s.pool.stop, nextConn := s.nextConn }
  else some s

/-- `CreateQuicSession` and the insertion into the session map. -/
def newSession (connectionId : ℕ) : Option Listener :=
  if !s.pool.started then none
  else if s.sessionMap.any (·.id == connectionId) then some { s with nextConn := s.nextConn + 1 }
  else
    some { s with
      sessionMap := s.sessionMap ++ [⟨s.nextConn, connectionId, true, false⟩]
      nextConn := s.nextConn + 1 }

def onUvSend (i : ℕ) : Option Listener :=
  if s.waking then none
  else (s.pool.onUvSend i).map fun w => { s with pool := w.1, waking := w.2 }

/-- One round of the loop of `OnCanWrite`, up to `SetWritable` of the woken session. -/
def wakeNext : Option Listener :=
  if s.waking && !s.draining && !s.pool.writeBlocked then
    match s.writeBlockedList with
    | [] => none
    | .connection k :: rest =>
      some { s with writeBlockedList := rest, sessionMap := setBlocked s.sessionMap k false }
    | .timeWaitListManager :: rest => some { s with writeBlockedList := rest, draining := true }
  else none

def wakeDone : Option Listener :=
  if s.waking && !s.draining && (s.writeBlockedList.isEmpty || s.pool.writeBlocked) then
    some { s with waking := false }
  else none

def step : ListenerAct → Option Listener
  | .start bound => some (s.start bound)
  | .stop => s.stop
  | .newSession connectionId => s.newSession connectionId
  | .writePacket k data r => some (s.writePacket k data r)
  | .canWrite k => some (s.canWrite k)
  | .onConnectionClosed k => some (s.onConnectionClosed k)
  | .sendOrQueuePacket packet r =>
    if s.pool.started && !s.draining then some (s.sendOrQueuePacket packet r) else none
  | .onUvSend i => s.onUvSend i
  | .wakeNext => s.wakeNext
  | .writeQueued r => s.writeQueued r
  | .queueDone =>
    if s.draining && s.pendingPacketsQueue.isEmpty then some { s with draining := false } else none
  | .wakeDone => s.wakeDone
  | .deleteSessions => if s.waking then none else some { s with closedSessionList := [] }

/-! ## The listener as a wake list -/

def live (sessionMap : List Conn) : Set BlockedWriter :=
  {w | match w with
    | .connection k => k ∈ keys sessionMap
    | .timeWaitListManager => True}

/-- While its queue is being drained the time-wait list manager is at work, not waiting. -/
def blocked (sessionMap : List Conn) (pending : List (List UInt8)) (draining : Bool) :
    Set BlockedWriter :=
  {w | match w with
    | .connection k => k ∈ waiting sessionMap
    | .timeWaitListManager => pending ≠ [] ∧ draining = false}

def wakeList : State BlockedWriter where
  live := live s.sessionMap
  blocked := blocked s.sessionMap s.pendingPacketsQueue s.draining
  list := s.writeBlockedList
  shared := s.pool.writeBlocked
  waking := s.waking

structure Inv (s : Listener) : Prop extends WF s.sessionMap s.nextConn where
  wake : WakeList.Inv s.wakeList
  /-- without a dispatcher there is nothing it could hold -/
  stopped : s.pool.started = false → s.sessionMap = [] ∧ s.pendingPacketsQueue = [] ∧
    s.writeBlockedList = []
  draining : s.draining = true → s.waking = true

variable {s s' : Listener} {l l' : List Conn} {k i : ℕ} {a : ListenerAct} {as : List ListenerAct}

theorem Inv.moves (hi : s.Inv) (hwf : WF s'.sessionMap s'.nextConn)
    (hst : s'.pool.started = false → s'.sessionMap = [] ∧ s'.pendingPacketsQueue = [] ∧
      s'.writeBlockedList = [])
    (hd : s'.draining = true → s'.waking = true)
    (hm : ReflTransGen Move s.wakeList s'.wakeList) : s'.Inv :=
  { hwf with wake := hi.wake.moves hm, stopped := hst, draining := hd }

/-! ## One action -/

theorem Inv.setPool (hi : s.Inv) {p : SendPool} (hst : p.started = s.pool.started)
    (hb : p.writeBlocked = s.pool.writeBlocked ∨ p.writeBlocked = true) :
    { s with pool := p }.Inv :=
  hi.moves hi.toWF (fun h => hi.stopped (hst ▸ h)) hi.draining (moves_shared (hb.imp_right .inl))

theorem live_congr (h : keys l' = keys l) : live l' = live l := by
  simp [live, h]

theorem blocked_insert (h : waiting l' = insert k (waiting l))
    (q : List (List UInt8)) (d : Bool) :
    blocked l' q d = insert (.connection k) (blocked l q d) := by
  ext w; cases w <;> simp [blocked, h]

theorem blocked_sdiff (h : waiting l' = waiting l \ {k})
    (q : List (List UInt8)) (d : Bool) :
    blocked l' q d = blocked l q d \ {.connection k} := by
  ext w; cases w <;> simp [blocked, h]

theorem live_sdiff (h : keys l' = keys l \ {k}) : live l' = live l \ {.connection k} := by
  ext w; cases w <;> simp [live, h]

theorem live_insert (h : keys l' = insert k (keys l)) :
    live l' = insert (.connection k) (live l) := by
  ext w; cases w <;> simp [live, h]

theorem onWriteBlocked_eq (h : s.pool.writeBlocked = true) (w : BlockedWriter) :
    s.onWriteBlocked w = { s with writeBlockedList := pushNew s.writeBlockedList w } := if_pos h

theorem Inv.writePacket (hi : s.Inv) (k : ℕ) (data : List UInt8) (r : ℤ) :
    (s.writePacket k data r).Inv ∧ (s.writePacket k data r).pool =
      if mayWrite s.sessionMap k then (s.pool.writePacket data r).1 else s.pool := by
  unfold Listener.writePacket
  split
  case isFalse => exact ⟨hi, rfl⟩
  case isTrue hw =>
    have hst := s.pool.writePacket_started data r
    dsimp only
    split
    · next e he =>
      have hb := SendPool.writePacket_blocked he
      have hi' := hi.setPool hst (.inr hb)
      rw [onWriteBlocked_eq hb]
      refine ⟨hi'.moves (hi.toWF.setBlocked k true) (fun h => ?_) hi.draining (.single ?_), rfl⟩
      · obtain ⟨h1, -⟩ := hi.stopped (hst ▸ h)
        simp [mayWrite, conn?, h1] at hw
      · have hk : BlockedWriter.connection k ∈ live s.sessionMap := mem_keys_of_mayWrite hw
        convert Move.block (s := { s with pool := (s.pool.writePacket data r).1 }.wakeList)
          (.connection k) hk hb using 1
        simp only [wakeList, live_congr (keys_setBlocked true),
          blocked_insert (waiting_setBlocked_true hw)]
    · next hne => exact ⟨hi.setPool hst (.inl (SendPool.writePacket_not_blocked hne)), rfl⟩

theorem canWrite_eq (hi : s.Inv) (k : ℕ) : s.canWrite k = s := by
  unfold canWrite
  split
  case isFalse => rfl
  case isTrue h =>
    have hb : BlockedWriter.connection k ∈ s.wakeList.blocked := mem_waiting_of_isStuck h
    have hl : .connection k ∈ s.writeBlockedList := hi.wake.listed _ hb
    unfold onWriteBlocked
    split
    · rw [pushNew_of_mem hl]
    · rfl

theorem Inv.onConnectionClosed (hi : s.Inv) (k : ℕ) : (s.onConnectionClosed k).Inv := by
  unfold Listener.onConnectionClosed
  split
  case h_1 => exact hi
  case h_2 c hc =>
    refine hi.moves (hi.toWF.filter _) (fun h => ?_) hi.draining (.single ?_)
    · obtain ⟨h1, h2, h3⟩ := hi.stopped h
      simp [h1, h2, h3]
    · convert Move.leave (s := s.wakeList) (.connection k) using 1
      simp only [wakeList, live_sdiff (keys_unfile hi.toWF hc), blocked_sdiff (waiting_unfile hi.toWF hc)]

/-- What `WriteToWire` does: the packet is gone, or the time-wait list manager waits for the
    blocked writer. -/
theorem writeToWire_cases (s : Listener) (packet : List UInt8) (r : ℤ) :
    (s.pool.writeBlocked = false ∧
      s.writeToWire packet r = ({ s with pool := (s.pool.writePacket packet r).1 }, true) ∧
      (s.pool.writePacket packet r).1.writeBlocked = false) ∨
    (s.writeToWire packet r =
        ({ s with
          pool := (s.pool.writePacket packet r).1
          writeBlockedList := pushNew s.writeBlockedList .timeWaitListManager }, false) ∧
      (s.pool.writePacket packet r).1.writeBlocked = true) := by
  unfold writeToWire
  split
  case isTrue hb =>
    have hp := SendPool.writePacket_writeBlocked packet r hb
    exact .inr ⟨by rw [hp, onWriteBlocked_eq hb], by rw [hp]; exact hb⟩
  case isFalse hb =>
    have hb : s.pool.writeBlocked = false := by simpa using hb
    dsimp only
    split
    · next e he =>
      have hb' := SendPool.writePacket_blocked he
      exact .inr ⟨by rw [onWriteBlocked_eq hb'], hb'⟩
    · next hne => exact .inl ⟨hb, rfl, (SendPool.writePacket_not_blocked hne).trans hb⟩

theorem timeWait_live (l : List Conn) : .timeWaitListManager ∈ live l := trivial

theorem blocked_queue (l : List Conn) {q q' : List (List UInt8)} (h : q' ≠ []) (d : Bool) :
    blocked l q' false = insert .timeWaitListManager (blocked l q d) := by
  ext w; cases w <;> simp [blocked, h]

theorem Inv.sendOrQueuePacket (hi : s.Inv) (hs : s.pool.started = true)
    (hd : s.draining = false) (packet : List UInt8) (r : ℤ) :
    (s.sendOrQueuePacket packet r).Inv := by
  have hst := (s.pool.writePacket_started packet r).trans hs
  unfold Listener.sendOrQueuePacket
  rcases s.writeToWire_cases packet r with ⟨hb, he, hb'⟩ | ⟨he, hb⟩
  · rw [he]; exact hi.setPool (hst.trans hs.symm) (.inl (hb'.trans hb.symm))
  · rw [he]
    have hi' := hi.setPool (hst.trans hs.symm) (.inr hb)
    refine hi'.moves hi.toWF (fun h => ?_) hi.draining (.single ?_)
    · exact absurd (hst.symm.trans h) (by simp)
    · convert Move.block (s := { s with pool := (s.pool.writePacket packet r).1 }.wakeList)
        .timeWaitListManager (timeWait_live _) hb using 1
      have hq : s.pendingPacketsQueue ++ [packet] ≠ [] := by simp
      simp only [wakeList, hd, ← blocked_queue s.sessionMap hq]

theorem Inv.writeQueued (hi : s.Inv) {r : ℤ} (h : s.writeQueued r = some s') :
    s'.Inv ∧ ∃ packet, s'.pool = (s.pool.writePacket packet r).1 := by
  unfold Listener.writeQueued at h
  split at h
  case h_1 => cases h
  case h_2 packet rest hq =>
    split at h
    case isFalse => cases h
    case isTrue hd =>
      have hs : s.pool.started = true := by
        by_contra hs
        have := (hi.stopped (by simpa using hs)).2.1
        simp [hq] at this
      have hst := (s.pool.writePacket_started packet r).trans hs
      have hno : ¬ (s.pool.writePacket packet r).1.started = false := by rw [hst]; simp
      rcases s.writeToWire_cases packet r with ⟨hb, he, hb'⟩ | ⟨he, hb⟩
      · rw [he] at h; cases h
        have hi' := hi.setPool (hst.trans hs.symm) (.inl (hb'.trans hb.symm))
        refine ⟨hi'.moves hi.toWF (fun h => absurd h hno) hi.draining ?_, packet, rfl⟩
        convert ReflTransGen.refl using 1
        simp only [wakeList, State.mk.injEq, and_true, true_and]
        ext w; cases w <;> simp [blocked, hd]
      · rw [he] at h; cases h
        have hi' := hi.setPool (hst.trans hs.symm) (.inr hb)
        refine ⟨hi'.moves hi.toWF (fun h => absurd h hno) (by simp) (.single ?_), packet, rfl⟩
        convert Move.block (s := { s with pool := (s.pool.writePacket packet r).1 }.wakeList)
          .timeWaitListManager (timeWait_live _) hb using 1
        have hq' : s.pendingPacketsQueue ≠ [] := by simp [hq]
        simp only [wakeList, ← blocked_queue s.sessionMap hq']

theorem Inv.start (hi : s.Inv) (bound : Bool) : (s.start bound).Inv := by
  refine hi.moves hi.toWF (fun h => hi.stopped ?_) hi.draining (moves_shared ?_)
  · exact (Bool.or_eq_false_iff.1 ((s.pool.start_started bound).symm.trans h)).1
  · rcases Bool.eq_false_or_eq_true s.pool.started with hs | hs
    · exact .inl (by simp [Listener.start, SendPool.start, hs, wakeList])
    · exact .inr (.inr (hi.stopped hs).2.2)

theorem inv_of_empty (hm : s.sessionMap = []) (hq : s.pendingPacketsQueue = [])
    (hl : s.writeBlockedList = []) (hd : s.draining = false) : s.Inv where
  inj := by simp [hm]
  fresh := by simp [hm]
  wake := by
    refine ⟨?_, by simp [wakeList, hl], by simp [wakeList, hl], by simp [wakeList, hl]⟩
    rintro (k | _) hw
    · simp [wakeList, blocked, waiting, hm] at hw
    · simp [wakeList, blocked, hq] at hw
  stopped _ := ⟨hm, hq, hl⟩
  draining := by simp [hd]

theorem Inv.stop (hi : s.Inv) (h : s.stop = some s') : s'.Inv ∧ s'.pool = s.pool.stop := by
  unfold Listener.stop at h
  split at h
  case isTrue => cases h
  case isFalse =>
    split at h
    · cases h; exact ⟨inv_of_empty rfl rfl rfl rfl, rfl⟩
    · next hs => cases h; exact ⟨hi, by simp [SendPool.stop, hs]⟩

theorem Inv.newSession (hi : s.Inv) {connectionId : ℕ}
    (h : s.newSession connectionId = some s') : s'.Inv ∧ s'.pool = s.pool := by
  unfold Listener.newSession at h
  split at h
  case isTrue => cases h
  case isFalse hs =>
    have hno : ¬ s.pool.started = false := by simpa using hs
    split at h
    · cases h
      exact ⟨{ hi.toWF.succ with wake := hi.wake, stopped := hi.stopped, draining := hi.draining }, rfl⟩
    · next hid =>
      cases h
      simp only [List.any_eq_true, beq_iff_eq, not_exists, not_and] at hid
      refine ⟨hi.moves (hi.toWF.append hid true false) (fun h => absurd h hno)
        hi.draining (.single ?_), rfl⟩
      convert Move.enter (s := s.wakeList) (.connection s.nextConn) using 1
      simp only [wakeList, live_insert (keys_append _ _ _)]
      simp only [blocked, waiting_append]

theorem onUvSend_eq (h : s.onUvSend i = some s') :
    s.waking = false ∧ ∃ p w, s.pool.onUvSend i = some (p, w) ∧
      s' = { s with pool := p, waking := w } := by
  unfold onUvSend at h
  exact SendPool.onUvSend_eq (e := fun p w => { s with pool := p, waking := w }) h

theorem Inv.onUvSend (hi : s.Inv) (h : s.onUvSend i = some s') :
    s'.Inv ∧ s'.pool.units = s.pool.units := by
  obtain ⟨hw, p, w, hp, rfl⟩ := onUvSend_eq h
  refine ⟨?_, SendPool.onUvSend_units hp⟩
  obtain ⟨hst, hc⟩ := SendPool.onUvSend_wakes hp
  refine hi.moves hi.toWF (fun h => hi.stopped (hst ▸ h)) (fun h => ?_) (moves_pass ?_)
  · simp [hi.draining h] at hw
  · exact hc.imp_left fun h => ⟨h.1, h.2.trans hw.symm⟩

theorem Inv.wakeNext (hi : s.Inv) (h : s.wakeNext = some s') : s'.Inv ∧ s'.pool = s.pool := by
  unfold Listener.wakeNext at h
  split at h
  case isFalse => cases h
  case isTrue hc =>
    simp only [Bool.and_eq_true, Bool.not_eq_true'] at hc
    obtain ⟨⟨hw, hd⟩, hb⟩ := hc
    have hst : ¬ s.pool.started = false := by simp [s.pool.unblocked hb]
    split at h
    · cases h
    · next k rest hl =>
      cases h
      refine ⟨hi.moves (hi.toWF.setBlocked k false) (fun h => absurd h hst) hi.draining (.single ?_), rfl⟩
      convert Move.next (s := s.wakeList) (.connection k) rest hl hw using 1
      simp only [wakeList, live_congr (keys_setBlocked false), blocked_sdiff waiting_setBlocked_false]
    · next rest hl =>
      cases h
      refine ⟨hi.moves hi.toWF (fun h => absurd h hst) (fun _ => hw) (.single ?_), rfl⟩
      convert Move.next (s := s.wakeList) .timeWaitListManager rest hl hw using 1
      simp only [wakeList, State.mk.injEq, and_true, true_and]
      ext w; cases w <;> simp [blocked]

theorem Inv.queueDone (hi : s.Inv) (hq : s.pendingPacketsQueue = []) :
    { s with draining := false }.Inv := by
  refine hi.moves hi.toWF hi.stopped (by simp) ?_
  have : { s with draining := false }.wakeList = s.wakeList := by
    simp [wakeList, blocked, hq]
  rw [this]

theorem Inv.wakeDone (hi : s.Inv) (h : s.wakeDone = some s') : s'.Inv ∧ s'.pool = s.pool := by
  unfold Listener.wakeDone at h
  split at h
  case isFalse => cases h
  case isTrue hc =>
    cases h
    simp only [Bool.and_eq_true, Bool.or_eq_true, List.isEmpty_iff, Bool.not_eq_true'] at hc
    obtain ⟨⟨-, hd⟩, hl⟩ := hc
    exact ⟨hi.moves hi.toWF hi.stopped (by simp [hd]) (.single (.done hl)), rfl⟩

/-! ## Whole runs -/

/-- The action neither has a send rejected nor closes a socket with sends in flight. -/
def KeepsReqs (s : Listener) : ListenerAct → Prop
  | .writePacket k _ r => ¬ (mayWrite s.sessionMap k = true ∧ s.pool.Rejects r)
  | .sendOrQueuePacket _ r => ¬ s.pool.Rejects r
  | .writeQueued r => ¬ s.pool.Rejects r
  | .stop => s.pool.inFlight = 0
  | _ => True

theorem sendOrQueuePacket_pool (s : Listener) (packet : List UInt8) (r : ℤ) :
    (s.sendOrQueuePacket packet r).pool = (s.pool.writePacket packet r).1 := by
  unfold sendOrQueuePacket
  rcases s.writeToWire_cases packet r with ⟨-, he, -⟩ | ⟨he, -⟩ <;> rw [he]

/-- Every action keeps the invariant and accounts for the requests. -/
theorem step_inv (hi : s.Inv) (h : s.step a = some s') :
    s'.Inv ∧ s'.pool.units ≤ s.pool.units ∧ (s'.pool.units = s.pool.units ↔ s.KeepsReqs a) := by
  have hkeeps : s'.pool.units = s.pool.units → s.KeepsReqs a →
      s'.pool.units ≤ s.pool.units ∧ (s'.pool.units = s.pool.units ↔ s.KeepsReqs a) :=
    fun hu hk => ⟨hu.le, iff_of_true hu hk⟩
  cases a with
  | start bound =>
    cases h
    exact ⟨hi.start bound, hkeeps (SendPool.start_units ..) trivial⟩
  | stop =>
    obtain ⟨hi', hp⟩ := hi.stop h
    refine ⟨hi', ?_⟩
    have hu := s.pool.stop_units
    rw [hp]
    unfold KeepsReqs
    omega
  | newSession connectionId =>
    obtain ⟨hi', hp⟩ := hi.newSession h
    exact ⟨hi', hkeeps (by rw [hp]) trivial⟩
  | writePacket k data r =>
    cases h
    obtain ⟨hi', hp⟩ := hi.writePacket k data r
    refine ⟨hi', ?_⟩
    rw [hp]
    exact s.pool.units_of_write (mayWrite s.sessionMap k) data r
  | canWrite k =>
    cases h
    rw [canWrite_eq hi] at hkeeps ⊢
    exact ⟨hi, hkeeps rfl trivial⟩
  | onConnectionClosed k =>
    cases h
    have hp : (s.onConnectionClosed k).pool = s.pool := by
      unfold onConnectionClosed; split <;> rfl
    exact ⟨hi.onConnectionClosed k, hkeeps (by rw [hp]) trivial⟩
  | sendOrQueuePacket packet r =>
    simp only [step, Option.ite_none_right_eq_some, Option.some.injEq, Bool.and_eq_true,
      Bool.not_eq_true'] at h
    obtain ⟨⟨hs, hd⟩, rfl⟩ := h
    refine ⟨hi.sendOrQueuePacket hs hd packet r, ?_⟩
    rw [sendOrQueuePacket_pool]
    simpa [KeepsReqs] using s.pool.units_of_write true packet r
  | onUvSend i =>
    obtain ⟨hi', hu⟩ := hi.onUvSend h
    exact ⟨hi', hkeeps hu trivial⟩
  | wakeNext =>
    obtain ⟨hi', hp⟩ := hi.wakeNext h
    exact ⟨hi', hkeeps (by rw [hp]) trivial⟩
  | writeQueued r =>
    obtain ⟨hi', packet, hp⟩ := hi.writeQueued h
    refine ⟨hi', ?_⟩
    rw [hp]
    simpa [KeepsReqs] using s.pool.units_of_write true packet r
  | queueDone =>
    simp only [step, Option.ite_none_right_eq_some, Option.some.injEq, Bool.and_eq_true,
      List.isEmpty_iff] at h
    obtain ⟨⟨-, hq⟩, rfl⟩ := h
    exact ⟨hi.queueDone hq, hkeeps rfl trivial⟩
  | wakeDone =>
    obtain ⟨hi', hp⟩ := hi.wakeDone h
    exact ⟨hi', hkeeps (by rw [hp]) trivial⟩
  | deleteSessions =>
    simp only [step, Option.ite_none_left_eq_some, Option.some.injEq] at h
    obtain ⟨-, rfl⟩ := h
    exact ⟨hi.moves hi.toWF hi.stopped hi.draining .refl, hkeeps rfl trivial⟩

theorem run_listener_inv
    (h : Machine.run step init as = some s) : s.Inv :=
  Machine.run_inv (fun _ _ _ hi hs => (step_inv hi hs).1) (inv_of_empty rfl rfl rfl rfl) h

theorem conserved_iff (h : Machine.run step init as = some s)
    (ho : s.pool.socket.isSome) :
    s.pool.Conserved ∧ s.pool.Recovers ↔ Machine.Along step KeepsReqs init as :=
  SendPool.conserved_iff_along Listener.pool (fun _ _ _ hi hs => step_inv hi hs)
    (inv_of_empty rfl rfl rfl rfl) SendPool.init_units h ho

end Listener
end Puic
