/-
  `PuicDialer` (puic_client.cc) with its connections.

  One socket serves all connections.  The dialer keeps the connections that the
  full pool turned away in the linked map `m_blockedConns`; `on_uv_send` starts a
  wake-up pass when every request is back.

  The dialer is a machine whose actions are the calls that can reach it.  A
  wake-up pass is not one action: between two connections taken off the list
  (`wakeNext`) the woken sessions act like any other caller, so whatever they do
  while the loop of `wakeup` runs is a sequence of actions.  Callbacks of the
  event loop (`onUvSend`, `deleteConns`) do not nest and have to wait for the end
  of the pass.
-/
import Puic.Lib.WakeList
import Puic.ConnTable
import Puic.SendPool

namespace Puic

open WakeList Relation ConnTable

/-- The dialer; `waking` is set while `wakeup` runs, `deleteConnsAlarm` while the alarm is. -/
structure Dialer where
  pool : SendPool
  conns : List Conn
  closedConns : List Conn
  blockedConns : List ℕ
  deleteConnsAlarm : Bool
  nextConn : ℕ
  waking : Bool

inductive DialerAct where
  | start (bound : Bool)
  | stop
  | createConn (sessionId : ℕ) (bound : Bool)
  | writePacket (conn : ℕ) (data : List UInt8) (r : ℤ)
  | canWrite (conn : ℕ)
  | tearDown (conn : ℕ)
  | onConnClosed (conn : ℕ)
  | onUvSend (i : ℕ)
  | wakeNext
  | wakeDone
  | deleteConns

namespace Dialer

def init : Dialer where
  pool := .init
  conns := []
  closedConns := []
  blockedConns := []
  deleteConnsAlarm := false
  nextConn := 0
  waking := false

variable (d : Dialer) (k : ℕ)

def onConnWriteBlocked : Dialer :=
  { d with blockedConns := pushNew d.blockedConns k }

/-- `QuicConnection::WritePacket`, through the per-session writer to the shared one. -/
def writePacket (data : List UInt8) (r : ℤ) : Dialer :=
  if mayWrite d.conns k then
    let w := d.pool.writePacket data r
    match w.2 with
    | .blocked _ =>
      { d with pool := w.1, conns := setBlocked d.conns k true }.onConnWriteBlocked k
    | _ => { d with pool := w.1 }
  else d

def canWrite : Dialer :=
  if isStuck d.conns k then d.onConnWriteBlocked k else d

/-- The connection is torn down; the delegate is not told yet. -/
def tearDown : Dialer := { d with conns := disconnect d.conns k }

def onConnClosed : Dialer :=
  match conn? d.conns k with
  | none => d
  | some c =>
    { d with
      deleteConnsAlarm := d.deleteConnsAlarm || d.closedConns.isEmpty
      closedConns := d.closedConns ++ d.conns.filter (·.id == c.id)
      conns := d.conns.filter (·.id != c.id)
      blockedConns := d.blockedConns.erase k }

/-- `PuicSessionBase::Close` of a connected session.  It is only used where the shared writer
    is blocked, so the bytes of the close packet do not matter. -/
def close : Dialer := ((d.writePacket k [] 0).tearDown k).onConnClosed k

/-- `stop`.  Its loop does not end if a connection that is being torn down is still filed. -/
def stop : Option Dialer :=
  if !d.pool.started then some d
  else if d.conns.all (·.connected) then
    let d' := { d with pool := d.pool.stop, deleteConnsAlarm := false }
    some { d.conns.foldl (fun d c => d.close c.key) d' with closedConns := [] }
  else none

def start (bound : Bool) : Dialer :=
  { d with
    pool := d.pool.start bound
    deleteConnsAlarm := if d.pool.started || !bound then d.deleteConnsAlarm else false }

def deleteConns (mayRestart : Bool) : Option Dialer :=
  let d' := { d with closedConns := [] }
  if mayRestart && d'.conns.isEmpty then d'.stop else some d'

/-- `CreateConn`.  A session id that is taken leaves the map as it is. -/
def createConn (sessionId : ℕ) (bound : Bool) : Dialer :=
  let d' := d.start bound
  if !d'.pool.started then d'
  else if d'.conns.any (·.id == sessionId) then { d' with nextConn := d'.nextConn + 1 }
  else
    { d' with
      conns := d'.conns ++ [⟨d'.nextConn, sessionId, true, false⟩]
      nextConn := d'.nextConn + 1 }

/-- `on_uv_send`; the pass of `wakeup` begins when the pool says so. -/
def onUvSend (i : ℕ) : Option Dialer :=
  if d.waking then none
  else (d.pool.onUvSend i).map fun w => { d with pool := w.1, waking := w.2 }

/-- One round of the loop of `wakeup`, up to `SetWritable` of the woken session. -/
def wakeNext : Option Dialer :=
  match d.blockedConns with
  | [] => none
  | k :: rest =>
    if d.waking && !d.pool.writeBlocked then
      some { d with blockedConns := rest, conns := setBlocked d.conns k false }
    else none

def wakeDone : Option Dialer :=
  if d.waking && (d.blockedConns.isEmpty || d.pool.writeBlocked) then
    some { d with waking := false }
  else none

def step : DialerAct → Option Dialer
  | .start bound => some (d.start bound)
  | .stop => d.stop
  | .createConn sessionId bound => some (d.createConn sessionId bound)
  | .writePacket k data r => some (d.writePacket k data r)
  | .canWrite k => some (d.canWrite k)
  | .tearDown k => some (d.tearDown k)
  | .onConnClosed k =>
    if (conn? d.conns k).any fun c => !c.connected then some (d.onConnClosed k) else none
  | .onUvSend i => d.onUvSend i
  | .wakeNext => d.wakeNext
  | .wakeDone => d.wakeDone
  | .deleteConns =>
    if d.waking || !d.deleteConnsAlarm then none
    else { d with deleteConnsAlarm := false }.deleteConns true

/-! ## The dialer as a wake list -/

/-- What the dialer is for its blocked connections. -/
def wakeList : State ℕ where
  live := keys d.conns
  blocked := waiting d.conns
  list := d.blockedConns
  shared := d.pool.writeBlocked
  waking := d.waking

structure Linked (d : Dialer) : Prop extends WF d.conns d.nextConn where
  wake : WakeList.Inv d.wakeList

structure Inv (d : Dialer) : Prop extends Linked d where
  stopped : d.pool.started = false → d.conns = []

variable {d d' : Dialer} {i : ℕ} {a : DialerAct} {as : List DialerAct}

theorem Linked.moves (hi : d.Linked) (hwf : WF d'.conns d'.nextConn)
    (hm : ReflTransGen Move d.wakeList d'.wakeList) : d'.Linked :=
  { hwf with wake := hi.wake.moves hm }

/-! ## One action -/

theorem Linked.setPool (hi : d.Linked) {p : SendPool}
    (hb : p.writeBlocked = d.pool.writeBlocked ∨ p.writeBlocked = true) :
    { d with pool := p }.Linked :=
  hi.moves hi.toWF (moves_shared (hb.imp_right .inl))

theorem Linked.writePacket (hi : d.Linked) (k : ℕ) (data : List UInt8) (r : ℤ) :
    (d.writePacket k data r).Linked := by
  unfold Dialer.writePacket
  split
  case isFalse => exact hi
  case isTrue hw =>
    dsimp only
    split
    · next e he =>
      -- the shared flag is up, so listing the connection is a move of the wake list
      have hb := SendPool.writePacket_blocked he
      have hi' := hi.setPool (.inr hb)
      refine hi'.moves (hi.toWF.setBlocked k true) (.single ?_)
      convert Move.block (s := { d with pool := (d.pool.writePacket data r).1 }.wakeList) k
        (mem_keys_of_mayWrite hw) hb using 1
      simp [wakeList, onConnWriteBlocked, waiting_setBlocked_true hw]
    · next hne => exact hi.setPool (.inl (SendPool.writePacket_not_blocked hne))

theorem canWrite_eq (hi : d.Linked) (k : ℕ) : d.canWrite k = d := by
  unfold canWrite
  split
  case isFalse => rfl
  case isTrue h =>
    -- a blocked connection is listed already
    have hl : k ∈ d.blockedConns := hi.wake.listed k (mem_waiting_of_isStuck h)
    rw [onConnWriteBlocked, pushNew_of_mem hl]

theorem Linked.tearDown (hi : d.Linked) (k : ℕ) : (d.tearDown k).Linked := by
  refine hi.moves (hi.toWF.disconnect k) (.single ?_)
  convert Move.relax k using 1
  simp [wakeList, Dialer.tearDown, waiting_disconnect]

theorem onConnClosed_wakeList (hi : d.Linked) (k : ℕ) :
    (d.onConnClosed k).wakeList =
      { d.wakeList with
        live := keys d.conns \ {k}
        blocked := waiting d.conns \ {k}
        list := d.blockedConns.erase k } := by
  unfold Dialer.onConnClosed
  split
  case h_1 hn =>
    -- no connection at `k`: neither set nor list knows it
    have hk := conn?_none hn
    have hl : k ∉ d.blockedConns := fun h => hk (hi.wake.alive k h)
    have hb : k ∉ waiting d.conns := fun h => hl (hi.wake.listed k h)
    rw [Set.sdiff_singleton_eq_self hk, Set.sdiff_singleton_eq_self hb, List.erase_of_not_mem hl]
    rfl
  case h_2 c hc => simp only [wakeList, keys_unfile hi.toWF hc, waiting_unfile hi.toWF hc]

theorem Linked.onConnClosed (hi : d.Linked) (k : ℕ) : (d.onConnClosed k).Linked := by
  refine hi.moves ?_ (.single (onConnClosed_wakeList hi k ▸ .leave k))
  unfold Dialer.onConnClosed
  split
  · exact hi.toWF
  · exact hi.toWF.filter _

theorem Linked.close (hi : d.Linked) (k : ℕ) : (d.close k).Linked :=
  ((hi.writePacket k [] 0).tearDown k).onConnClosed k

@[simp] theorem onConnClosed_pool (d : Dialer) (k : ℕ) : (d.onConnClosed k).pool = d.pool := by
  unfold onConnClosed; split <;> rfl

theorem writePacket_pool (d : Dialer) (k : ℕ) (data : List UInt8) (r : ℤ) :
    (d.writePacket k data r).pool =
      if mayWrite d.conns k then (d.pool.writePacket data r).1 else d.pool := by
  unfold writePacket
  split
  · dsimp only; split <;> rfl
  · rfl

/-- A close packet that meets the raised flag leaves the pool alone. -/
theorem close_pool (h : d.pool.writeBlocked = true) (k : ℕ) : (d.close k).pool = d.pool := by
  have hw := writePacket_pool d k [] 0
  rw [SendPool.writePacket_writeBlocked [] 0 h, ite_self] at hw
  simpa [close, tearDown] using hw

theorem close_keys (hi : d.Linked) (k : ℕ) : keys (d.close k).conns = keys d.conns \ {k} := by
  have hw : keys (d.writePacket k [] 0).conns = keys d.conns := by
    unfold writePacket
    split
    · dsimp only; split <;> simp [onConnWriteBlocked]
    · rfl
  have hc := onConnClosed_wakeList ((hi.writePacket k [] 0).tearDown k) k
  have hl : keys (d.close k).conns = keys ((d.writePacket k [] 0).tearDown k).conns \ {k} :=
    congrArg State.live hc
  rw [hl, tearDown, keys_disconnect, hw]

/-- The loop of `stop`: every connection is closed and the pool is left alone. -/
theorem closeAll : ∀ (l : List Conn) {d : Dialer}, d.Linked → d.pool.writeBlocked = true →
    (l.foldl (fun d c => d.close c.key) d).Linked ∧
    (l.foldl (fun d c => d.close c.key) d).pool = d.pool ∧
    keys (l.foldl (fun d c => d.close c.key) d).conns = keys d.conns \ keys l
  | [], d, hi, _ => ⟨hi, rfl, by simp [keys]⟩
  | c :: l, d, hi, hb => by
    have hp := close_pool hb c.key
    obtain ⟨h1, h2, h3⟩ := closeAll l (hi.close c.key) (hp ▸ hb)
    refine ⟨h1, h2.trans hp, ?_⟩
    rw [List.foldl_cons, h3, close_keys hi]
    ext k; simp [keys]
    grind

theorem Inv.stop (hi : d.Inv) (h : d.stop = some d') : d'.Inv ∧ d'.pool = d.pool.stop := by
  unfold Dialer.stop at h
  split at h
  · next hs =>
    cases h
    exact ⟨hi, by simp_all [SendPool.stop]⟩
  split at h
  case isFalse => cases h
  case isTrue hs _ =>
    cases h
    have hs : d.pool.started = true := by simpa using hs
    have hb : d.pool.stop.writeBlocked = true := by simp [SendPool.stop, hs]
    have hi' := hi.toLinked.setPool (.inr hb)
    have hi'' : { d with pool := d.pool.stop, deleteConnsAlarm := false }.Linked := ⟨hi'.toWF, hi'.wake⟩
    obtain ⟨h1, h2, h3⟩ := closeAll d.conns hi'' hb
    exact ⟨⟨⟨h1.toWF, h1.wake⟩, fun _ => keys_eq_empty (h3.trans Set.sdiff_self)⟩, h2⟩

theorem Inv.start (hi : d.Inv) (bound : Bool) : (d.start bound).Inv := by
  refine ⟨hi.toLinked.moves hi.toWF (moves_shared ?_), fun h => hi.stopped ?_⟩
  · rcases Bool.eq_false_or_eq_true d.pool.started with hs | hs
    · exact .inl (by simp [Dialer.start, SendPool.start, hs, wakeList])
    · refine .inr (.inr (List.eq_nil_iff_forall_not_mem.2 fun k hk => ?_))
      obtain ⟨c, hc, -⟩ := hi.wake.alive k hk
      simp [hi.stopped hs] at hc
  · exact (Bool.or_eq_false_iff.1 ((d.pool.start_started bound).symm.trans h)).1

theorem Inv.createConn (hi : d.Inv) (sessionId : ℕ) (bound : Bool) :
    (d.createConn sessionId bound).Inv := by
  have hi := hi.start bound
  unfold Dialer.createConn
  dsimp only
  generalize d.start bound = e at hi ⊢
  split
  · exact hi
  split
  · exact ⟨⟨hi.toWF.succ, hi.wake⟩, hi.stopped⟩
  next hs hid =>
  simp only [List.any_eq_true, beq_iff_eq, not_exists, not_and] at hid
  refine ⟨hi.toLinked.moves (hi.toWF.append hid true false) (.single ?_), fun h => by simp_all⟩
  convert Move.enter e.nextConn using 1
  simp [wakeList, keys_append, waiting_append]

theorem onUvSend_eq (h : d.onUvSend i = some d') :
    d.waking = false ∧ ∃ p w, d.pool.onUvSend i = some (p, w) ∧
      d' = { d with pool := p, waking := w } := by
  unfold onUvSend at h
  exact SendPool.onUvSend_eq (e := fun p w => { d with pool := p, waking := w }) h

theorem Inv.onUvSend (hi : d.Inv) (h : d.onUvSend i = some d') :
    d'.Inv ∧ d'.pool.units = d.pool.units := by
  obtain ⟨hw, p, w, hp, rfl⟩ := onUvSend_eq h
  refine ⟨?_, SendPool.onUvSend_units hp⟩
  obtain ⟨hst, hc⟩ := SendPool.onUvSend_wakes hp
  refine ⟨hi.toLinked.moves hi.toWF (moves_pass ?_), fun hs => hi.stopped (hst ▸ hs)⟩
  exact hc.imp_left fun h => ⟨h.1, h.2.trans hw.symm⟩

theorem Inv.wakeNext (hi : d.Inv) (h : d.wakeNext = some d') : d'.Inv ∧ d'.pool = d.pool := by
  unfold Dialer.wakeNext at h
  split at h
  case h_1 => cases h
  case h_2 k rest hl =>
    split at h
    case isFalse => cases h
    case isTrue hw =>
      cases h
      have hwf := hi.toWF.setBlocked k false
      refine ⟨⟨hi.toLinked.moves hwf (.single ?_), fun hs => ?_⟩, rfl⟩
      · convert Move.next (s := d.wakeList) k rest hl (by simp_all [wakeList]) using 1
        simp [wakeList, waiting_setBlocked_false]
      · simp [setBlocked, update, hi.stopped hs]

theorem Inv.wakeDone (hi : d.Inv) (h : d.wakeDone = some d') : d'.Inv ∧ d'.pool = d.pool := by
  unfold Dialer.wakeDone at h
  split at h
  case isFalse => cases h
  case isTrue hw =>
    cases h
    simp only [Bool.and_eq_true, Bool.or_eq_true, List.isEmpty_iff] at hw
    exact ⟨⟨hi.toLinked.moves hi.toWF (.single (.done hw.2)), hi.stopped⟩, rfl⟩

theorem Inv.deleteConns (hi : d.Inv) (h : d.deleteConns true = some d') :
    d'.Inv ∧ d'.pool = if d.conns = [] then d.pool.stop else d.pool := by
  have hi' : { d with closedConns := [] }.Inv := ⟨⟨hi.toWF, hi.wake⟩, hi.stopped⟩
  simp only [Dialer.deleteConns, Bool.true_and, List.isEmpty_iff] at h
  split at h
  · next he => rw [if_pos he]; exact hi'.stop h
  · next he => cases h; rw [if_neg he]; exact ⟨hi', rfl⟩

/-! ## Whole runs -/

/-- The action neither has a send rejected nor closes a socket with sends in flight. -/
def KeepsReqs (d : Dialer) : DialerAct → Prop
  | .writePacket k _ r => ¬ (mayWrite d.conns k = true ∧ d.pool.Rejects r)
  | .stop => d.pool.inFlight = 0
  | .deleteConns => d.conns = [] → d.pool.inFlight = 0
  | _ => True

/-- Every action keeps the invariant and accounts for the requests. -/
theorem step_inv (hi : d.Inv) (h : d.step a = some d') :
    d'.Inv ∧ d'.pool.units ≤ d.pool.units ∧ (d'.pool.units = d.pool.units ↔ d.KeepsReqs a) := by
  -- most actions leave the requests alone
  have hkeeps : d'.pool.units = d.pool.units → d.KeepsReqs a →
      d'.pool.units ≤ d.pool.units ∧ (d'.pool.units = d.pool.units ↔ d.KeepsReqs a) :=
    fun hu hk => ⟨hu.le, iff_of_true hu hk⟩
  cases a with
  | start bound =>
    cases h
    exact ⟨hi.start bound, hkeeps (SendPool.start_units ..) trivial⟩
  | stop =>
    obtain ⟨hi', hp⟩ := hi.stop h
    refine ⟨hi', ?_⟩
    have hu := d.pool.stop_units
    rw [hp]
    unfold KeepsReqs
    omega
  | createConn sessionId bound =>
    cases h
    have hp : (d.createConn sessionId bound).pool = d.pool.start bound := by
      unfold createConn; dsimp only; split
      · rfl
      · split <;> rfl
    exact ⟨hi.createConn sessionId bound, hkeeps (hp ▸ SendPool.start_units ..) trivial⟩
  | writePacket k data r =>
    cases h
    have hst : (d.writePacket k data r).pool.started = d.pool.started := by
      rw [writePacket_pool]; split <;> simp
    have hc : d.conns = [] → (d.writePacket k data r).conns = [] := fun h => by
      simp [writePacket, mayWrite, conn?, h]
    refine ⟨⟨hi.toLinked.writePacket k data r, fun hs => hc (hi.stopped (hst ▸ hs))⟩, ?_⟩
    rw [writePacket_pool]
    exact d.pool.units_of_write (mayWrite d.conns k) data r
  | canWrite k =>
    cases h
    rw [canWrite_eq hi.toLinked] at hkeeps ⊢
    exact ⟨hi, hkeeps rfl trivial⟩
  | tearDown k =>
    cases h
    exact ⟨⟨hi.toLinked.tearDown k, fun hs => by simp [tearDown, disconnect, update, hi.stopped hs]⟩,
      hkeeps rfl trivial⟩
  | onConnClosed k =>
    simp only [step, Option.ite_none_right_eq_some, Option.some.injEq] at h
    obtain ⟨-, rfl⟩ := h
    refine ⟨⟨hi.toLinked.onConnClosed k, fun hs => ?_⟩, hkeeps (by rw [onConnClosed_pool]) trivial⟩
    rw [onConnClosed_pool] at hs
    have := hi.stopped hs
    unfold onConnClosed; split <;> simp [this]
  | onUvSend i =>
    obtain ⟨hi', hu⟩ := hi.onUvSend h
    exact ⟨hi', hkeeps hu trivial⟩
  | wakeNext =>
    obtain ⟨hi', hp⟩ := hi.wakeNext h
    exact ⟨hi', hkeeps (by rw [hp]) trivial⟩
  | wakeDone =>
    obtain ⟨hi', hp⟩ := hi.wakeDone h
    exact ⟨hi', hkeeps (by rw [hp]) trivial⟩
  | deleteConns =>
    simp only [step, Option.ite_none_left_eq_some] at h
    have hi0 : { d with deleteConnsAlarm := false }.Inv := ⟨⟨hi.toWF, hi.wake⟩, hi.stopped⟩
    obtain ⟨hi', hp⟩ := hi0.deleteConns h.2
    have hp : d'.pool = if d.conns = [] then d.pool.stop else d.pool := hp
    refine ⟨hi', ?_⟩
    have hu := d.pool.stop_units
    rw [hp]
    unfold KeepsReqs
    by_cases hc : d.conns = []
    · rw [if_pos hc]
      exact ⟨by omega, fun h _ => by omega, fun h => by have := h hc; omega⟩
    · rw [if_neg hc]
      exact ⟨le_rfl, iff_of_true rfl fun h => absurd h hc⟩

theorem init_inv : init.Inv where
  inj := by simp [init]
  fresh := by simp [init]
  wake := by constructor <;> simp [init, wakeList, waiting]
  stopped _ := rfl

theorem run_dialer_inv (h : Machine.run step init as = some d) :
    d.Inv :=
  Machine.run_inv (fun _ _ _ hi hs => (step_inv hi hs).1) init_inv h

theorem conserved_iff (h : Machine.run step init as = some d)
    (ho : d.pool.socket.isSome) :
    d.pool.Conserved ∧ d.pool.Recovers ↔ Machine.Along step KeepsReqs init as :=
  SendPool.conserved_iff_along Dialer.pool (fun _ _ _ hi hs => step_inv hi hs) init_inv
    SendPool.init_units h ho

end Dialer
end Puic
