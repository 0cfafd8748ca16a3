/-
  `PUICCLIENT_DialerClose`: the loop of `PuicDialer::stop`, with the application in
  the middle of it.

  `stop` closes the first connection of `m_conns` until there is none.  Each close
  goes through the session to `PuicClientConn::OnClosed`, which calls the
  application's `OnDisconnected` and only then takes the connection out of the map.
  Whatever the application does in that callback happens inside the loop: it may
  create connections, close others, or call `DialerClose` once more.

  The calls that have not returned are a stack of frames (`DialerFrame`).  `tick`
  is the next thing the topmost one does; the events of the loop (`DialerEvent`)
  come in when the stack is empty.  What the application does is a parameter
  (`Behaviour`): its n-th callback makes the n-th list of calls.
-/
import Mathlib.Algebra.Order.BigOperators.Group.LocallyFinite
import Mathlib.Data.Prod.Lex
import Puic.Lib.Run
import Puic.Dialer

namespace Puic

open ConnTable List

namespace Dialer

/-- The second half of `CreateConn`: the new connection is filed, unless its id is taken. -/
def insertConn (d : Dialer) (sessionId : ℕ) : Dialer :=
  if d.conns.any (·.id == sessionId) then { d with nextConn := d.nextConn + 1 }
  else
    { d with
      conns := d.conns ++ [⟨d.nextConn, sessionId, true, false⟩]
      nextConn := d.nextConn + 1 }

theorem createConn_eq (d : Dialer) (sessionId : ℕ) (bound : Bool) :
    d.createConn sessionId bound =
      if (d.start bound).pool.started then (d.start bound).insertConn sessionId
      else d.start bound := by
  unfold createConn
  dsimp only
  cases (d.start bound).pool.started <;> rfl

end Dialer

/-- What the application calls from a callback. -/
inductive DialerCall where
  | createConn (sessionId : ℕ) (bound : Bool)
  /-- `ConnDisconnect`, or another call on the connection that ends with closing it -/
  | disconnect (conn : ℕ) (data : List UInt8) (r : ℤ)
  /-- a call that has a packet written -/
  | write (conn : ℕ) (data : List UInt8) (r : ℤ)
  | dialerClose
deriving Repr, DecidableEq

inductive DialerCallback where
  | onConnected
  | onCanRead
  | onCanWrite
deriving Repr, DecidableEq

/-- A call that has not returned: the application in a callback, with the calls it is going to make,
    or the loop of `stop`. -/
inductive DialerFrame where
  | callback (cb : DialerCallback) (conn : ℕ) (calls : List DialerCall)
  | onDisconnected (conn : ℕ) (calls : List DialerCall)
  | stop
deriving Repr, DecidableEq

/-- The application, and the order of the hash map: its n-th callback makes the calls `calls n`, and in
    the n-th round of a loop the map begins with the connection number `order n`. -/
structure Behaviour where
  calls : ℕ → List DialerCall
  order : ℕ → ℕ

/-- The dialer in the hands of the application.  `told` are the connections whose `OnDisconnected` was
    called, the last one first. -/
structure DialerApp where
  dialer : Dialer
  frames : List DialerFrame
  told : List ℕ
  callbacks : ℕ
  rounds : ℕ

inductive DialerEvent where
  /-- a call that has not returned goes on -/
  | tick
  /-- an event that reaches the dialer and no callback -/
  | dialer (a : DialerAct)
  | callback (cb : DialerCallback) (conn : ℕ)
  /-- the connection is closed by the peer, by an alarm or by an error -/
  | closed (conn : ℕ) (data : List UInt8) (r : ℤ)
  /-- the application closes the dialer outside its callbacks -/
  | dialerClose

namespace DialerApp

variable (b : Behaviour)

def init : DialerApp := ⟨.init, [], [], 0, 0⟩

variable (s : DialerApp)

/-- The loop of `stop` is running; `m_cryptoConfig` is set until its end. -/
def stopping : Bool := s.frames.any fun f => f == .stop

/-- `QuicConnection::CloseConnection` up to the callback of the application. -/
def close (k : ℕ) (data : List UInt8) (r : ℤ) : DialerApp :=
  if (conn? s.dialer.conns k).any (·.connected) then
    { s with
      dialer := (s.dialer.writePacket k data r).tearDown k
      frames := .onDisconnected k (b.calls s.callbacks) :: s.frames
      told := k :: s.told
      callbacks := s.callbacks + 1 }
  else s

/-- `Stop` up to its loop. -/
def dialerClose : DialerApp :=
  if s.dialer.pool.started || s.stopping then
    { s with
      dialer := { s.dialer with pool := s.dialer.pool.stop, deleteConnsAlarm := false }
      frames := .stop :: s.frames }
  else s

def perform : DialerCall → DialerApp
  | .createConn sessionId bound =>
    { s with
      dialer := if s.stopping then s.dialer.insertConn sessionId
        else s.dialer.createConn sessionId bound }
  | .disconnect k data r => s.close b k data r
  | .write k data r => { s with dialer := s.dialer.writePacket k data r }
  | .dialerClose => s.dialerClose

/-- `m_conns.begin()`. -/
def first : Option Conn :=
  s.dialer.conns[b.order s.rounds % s.dialer.conns.length]?

/-- The next thing a call that has not returned does. -/
def tick : DialerApp :=
  match s.frames with
  | [] => s
  | .callback _ _ [] :: fs => { s with frames := fs }
  | .callback cb k (c :: cs) :: fs => { s with frames := .callback cb k cs :: fs }.perform b c
  | .onDisconnected k [] :: fs => { s with dialer := s.dialer.onConnClosed k, frames := fs }
  | .onDisconnected k (c :: cs) :: fs => { s with frames := .onDisconnected k cs :: fs }.perform b c
  | .stop :: fs =>
    match s.first b with
    | none => { s with dialer := { s.dialer with closedConns := [] }, frames := fs }
    | some c => { s.close b c.key [] 0 with rounds := s.rounds + 1 }

/-- The events that leave the connections open. -/
def keepsConns : DialerAct → Bool
  | .stop | .tearDown _ | .onConnClosed _ => false
  | _ => true

def step : DialerEvent → Option DialerApp
  | .tick => if s.frames.isEmpty then none else some (s.tick b)
  | .dialer a =>
    if s.frames.isEmpty && keepsConns a then
      (s.dialer.step a).map fun d => { s with dialer := d }
    else none
  | .callback cb k =>
    if s.frames.isEmpty && (conn? s.dialer.conns k).any (·.connected) then
      some { s with
        frames := [.callback cb k (b.calls s.callbacks)]
        callbacks := s.callbacks + 1 }
    else none
  | .closed k data r => if s.frames.isEmpty then some (s.close b k data r) else none
  | .dialerClose => if s.frames.isEmpty then some s.dialerClose else none

end DialerApp

/-! ## The table of connections -/

namespace ConnTable

variable {l : List Conn} {k next : ℕ}

/-- What closing goes by: which connections are filed, and whether they are connected. -/
def status (l : List Conn) : List (ℕ × Bool) := l.map fun c => (c.key, c.connected)

theorem mem_keys_iff : k ∈ keys l ↔ ∃ b, (k, b) ∈ status l := by
  constructor
  · rintro ⟨c, hc, rfl⟩
    exact ⟨c.connected, mem_map.2 ⟨c, hc, rfl⟩⟩
  · rintro ⟨b, h⟩
    obtain ⟨c, hc, he⟩ := mem_map.1 h
    exact ⟨c, hc, congrArg Prod.fst he⟩

theorem status_setBlocked (b : Bool) : status (setBlocked l k b) = status l := by
  rw [status, status, setBlocked, update, map_map]
  refine map_congr_left fun c _ => ?_
  dsimp only [Function.comp_apply]
  split <;> rfl

theorem status_disconnect : status (disconnect l k) = (status l).map fun p => (p.1, p.2 && p.1 != k) := by
  rw [status, status, disconnect, update, map_map, map_map]
  refine map_congr_left fun c _ => ?_
  dsimp only [Function.comp_apply]
  split
  · next h => simp [h]
  · next h => simp [h]

theorem status_unfile (h : WF l next) {c : Conn} (hc : conn? l k = some c) :
    status (l.filter (·.id != c.id)) = (status l).filter (·.1 != k) := by
  obtain ⟨hc, hk⟩ := conn?_some hc
  rw [status, status, filter_map]
  congr 1
  refine filter_congr fun a ha => ?_
  rw [Function.comp_apply, Bool.eq_iff_iff, bne_iff_ne, bne_iff_ne, ← hk]
  exact not_congr (h.inj a ha c hc)

theorem mem_status_of_conn? {c : Conn} (h : conn? l k = some c) : (k, c.connected) ∈ status l := by
  obtain ⟨hc, rfl⟩ := conn?_some h
  exact mem_map.2 ⟨c, hc, rfl⟩

end ConnTable

namespace Dialer

variable {d : Dialer} {k : ℕ}

theorem status_writePacket (d : Dialer) (k : ℕ) (data : List UInt8) (r : ℤ) :
    status (d.writePacket k data r).conns = status d.conns ∧
    (d.writePacket k data r).nextConn = d.nextConn := by
  unfold writePacket
  split
  · dsimp only
    split
    · exact ⟨status_setBlocked true, rfl⟩
    · exact ⟨rfl, rfl⟩
  · exact ⟨rfl, rfl⟩

theorem status_onConnClosed (h : WF d.conns d.nextConn) (hk : k ∈ keys d.conns) :
    status (d.onConnClosed k).conns = (status d.conns).filter (·.1 != k) ∧
    (d.onConnClosed k).nextConn = d.nextConn := by
  unfold onConnClosed
  split
  · next hn => exact absurd hk (conn?_none hn)
  · next c hc => exact ⟨status_unfile h hc, rfl⟩

theorem status_insertConn (d : Dialer) (sessionId : ℕ) :
    (status (d.insertConn sessionId).conns = status d.conns ∨
      status (d.insertConn sessionId).conns = status d.conns ++ [(d.nextConn, true)]) ∧
    (d.insertConn sessionId).nextConn = d.nextConn + 1 := by
  unfold insertConn
  split
  · exact ⟨.inl rfl, rfl⟩
  · exact ⟨.inr (map_append ..), rfl⟩

theorem subset_insertConn (d : Dialer) (sessionId : ℕ) :
    status d.conns ⊆ status (d.insertConn sessionId).conns := by
  rcases (d.status_insertConn sessionId).1 with h | h <;> simp [h]

theorem mem_insertConn {p : ℕ × Bool} {sessionId : ℕ}
    (hp : p ∈ status (d.insertConn sessionId).conns) : p ∈ status d.conns ∨ p = (d.nextConn, true) := by
  rcases (d.status_insertConn sessionId).1 with h | h
  · exact .inl (h ▸ hp)
  · simpa [h] using hp

theorem Linked.insertConn (h : d.Linked) (sessionId : ℕ) : (d.insertConn sessionId).Linked := by
  unfold Dialer.insertConn
  split
  · exact ⟨h.toWF.succ, h.wake⟩
  next hid =>
  simp only [any_eq_true, beq_iff_eq, not_exists, not_and] at hid
  refine h.moves (h.toWF.append hid true false) (.single ?_)
  convert WakeList.Move.enter d.nextConn using 1
  simp [wakeList, ConnTable.keys_append, waiting_append]

end Dialer

/-! ## What is true of every state -/

namespace DialerApp

variable {b : Behaviour} {s t : DialerApp} {k : ℕ}

/-- The connections whose `OnDisconnected` has not returned. -/
def ends (fs : List DialerFrame) : List ℕ :=
  fs.filterMap fun
    | .onDisconnected k _ => some k
    | _ => none

/-- Below everything else there may be a callback that the event loop made. -/
inductive Base : List DialerFrame → Prop
  | empty : Base []
  | callback (cb : DialerCallback) (k : ℕ) (cs : List DialerCall) : Base [.callback cb k cs]

/-- Above it there is at most one loop of `stop`, with no `OnDisconnected` below the loop. -/
inductive Shape : List DialerFrame → Prop
  | base {fs : List DialerFrame} : Base fs → Shape fs
  | stop {fs : List DialerFrame} : Base fs → Shape (.stop :: fs)
  | onDisconnected {fs : List DialerFrame} (k : ℕ) (cs : List DialerCall) :
      Shape fs → Shape (.onDisconnected k cs :: fs)

structure Inv (s : DialerApp) : Prop where
  linked : s.dialer.Linked
  /-- a connection that is filed and not connected is in its `OnDisconnected` -/
  ended : ∀ k, (k, false) ∈ status s.dialer.conns ↔ k ∈ ends s.frames
  nodup : (ends s.frames).Nodup
  told : ∀ p ∈ status s.dialer.conns, s.told.count p.1 = if p.2 then 0 else 1
  fresh : ∀ k ∈ s.told, k < s.dialer.nextConn
  shape : Shape s.frames
  stopped : s.dialer.pool.started = false → s.stopping = true ∨ s.dialer.conns = []

variable {fs : List DialerFrame} {cs : List DialerCall} {l' : List Conn} {u : DialerApp}

theorem Shape.onDisconnected_iff : Shape (.onDisconnected k cs :: fs) ↔ Shape fs := by
  refine ⟨fun h => ?_, .onDisconnected k cs⟩
  cases h with
  | base h => cases h
  | onDisconnected _ _ h => exact h

theorem Base.ends (h : Base fs) : DialerApp.ends fs = [] := by
  cases h <;> rfl

theorem Inv.key_lt (h : s.Inv) {p : ℕ × Bool} (hp : p ∈ status s.dialer.conns) :
    p.1 < s.dialer.nextConn := by
  obtain ⟨c, hc, rfl⟩ := mem_map.1 hp
  exact h.linked.fresh c hc

theorem Inv.connected (h : s.Inv) (ht : (k, true) ∈ status s.dialer.conns) :
    (k, false) ∉ status s.dialer.conns := fun hf => by
  have h₀ : s.told.count k = 0 := h.told _ ht
  have h₁ : s.told.count k = 1 := h.told _ hf
  omega

theorem init_inv : init.Inv where
  linked := Dialer.init_inv.toLinked
  ended k := by simp [init, Dialer.init, status, ends]
  nodup := nodup_nil
  told _ h := nomatch h
  fresh _ h := nomatch h
  shape := .base .empty
  stopped _ := .inr rfl

theorem Inv.of_status {d : Dialer} {n m : ℕ} (h : s.Inv) (hl : d.Linked)
    (hc : status d.conns = status s.dialer.conns) (hn : d.nextConn = s.dialer.nextConn)
    (he : ends fs = ends s.frames) (hfs : Shape fs)
    (hst : d.pool.started = false → (⟨d, fs, s.told, n, m⟩ : DialerApp).stopping = true ∨
      d.conns = []) : (⟨d, fs, s.told, n, m⟩ : DialerApp).Inv where
  linked := hl
  ended k := by rw [he, hc]; exact h.ended k
  nodup := by rw [he]; exact h.nodup
  told := by rw [hc]; exact h.told
  fresh k hk := hn ▸ h.fresh k hk
  shape := hfs
  stopped := hst

theorem status_close (hk : (conn? s.dialer.conns k).any (·.connected) = true) (data : List UInt8)
    (r : ℤ) : status (s.close b k data r).dialer.conns =
      (status s.dialer.conns).map (fun p => (p.1, p.2 && p.1 != k)) ∧
    (s.close b k data r).dialer.nextConn = s.dialer.nextConn := by
  rw [close, if_pos hk]
  obtain ⟨h₁, h₂⟩ := s.dialer.status_writePacket k data r
  exact ⟨status_disconnect.trans (by rw [h₁]), h₂⟩

theorem mem_status_of_connected (hk : (conn? s.dialer.conns k).any (·.connected) = true) :
    (k, true) ∈ status s.dialer.conns := by
  obtain ⟨c, hc, h⟩ := (Option.any_eq_true _ _).1 hk
  exact h ▸ mem_status_of_conn? hc

theorem started_writePacket (d : Dialer) (k : ℕ) (data : List UInt8) (r : ℤ) :
    (d.writePacket k data r).pool.started = d.pool.started := by
  rw [Dialer.writePacket_pool]
  split <;> simp

theorem eq_nil_of_status {l : List Conn} (h : status l' = status l) (hl : l = []) : l' = [] := by
  subst hl
  exact map_eq_nil_iff.1 h

theorem Inv.close (h : s.Inv) (k : ℕ) (data : List UInt8) (r : ℤ) : (s.close b k data r).Inv := by
  by_cases hk : (conn? s.dialer.conns k).any (·.connected) = true
  swap
  · rw [DialerApp.close, if_neg hk]; exact h
  obtain ⟨hst, hn⟩ := status_close hk data r
  have hkt := mem_status_of_connected hk
  have hkf := h.connected hkt
  have h0 : s.told.count k = 0 := h.told _ hkt
  have hend : ends (s.close b k data r).frames = k :: ends s.frames := by
    rw [DialerApp.close, if_pos hk]; rfl
  have htold : (s.close b k data r).told = k :: s.told := by rw [DialerApp.close, if_pos hk]
  constructor
  · rw [DialerApp.close, if_pos hk]
    exact (h.linked.writePacket k data r).tearDown k
  · intro j
    rw [hst, hend, mem_cons, ← h.ended]
    constructor
    · intro hj
      obtain ⟨⟨i, c⟩, hp, he⟩ := mem_map.1 hj
      obtain ⟨rfl, hc⟩ := Prod.mk.inj he
      simp only [Bool.and_eq_false_iff, bne_eq_false_iff_eq] at hc
      rcases hc with rfl | rfl
      · exact .inr hp
      · exact .inl rfl
    · rintro (rfl | hj)
      · exact mem_map.2 ⟨(j, true), hkt, by simp⟩
      · exact mem_map.2 ⟨(j, false), hj, rfl⟩
  · rw [hend, nodup_cons, ← h.ended]
    exact ⟨hkf, h.nodup⟩
  · rw [hst, htold]
    intro p hp
    obtain ⟨⟨i, c⟩, hi, rfl⟩ := mem_map.1 hp
    have hc := h.told _ hi
    rcases eq_or_ne i k with rfl | hne
    · simp [h0]
    · simpa [hne, count_cons, hne.symm] using hc
  · rw [htold, hn]
    intro j hj
    rcases mem_cons.1 hj with rfl | hj
    · exact h.key_lt hkt
    · exact h.fresh j hj
  · rw [DialerApp.close, if_pos hk]
    exact .onDisconnected k _ h.shape
  · rw [DialerApp.close, if_pos hk]
    intro hs
    refine (h.stopped ((started_writePacket s.dialer k data r).symm.trans hs)).imp (fun hs => ?_)
      fun hc => ?_
    · simpa [stopping] using hs
    · rw [hc] at hkt; cases hkt

theorem Inv.status_onConnClosed (h : s.Inv)
    (hfs : s.frames = .onDisconnected k cs :: fs) :
    (k, false) ∈ status s.dialer.conns ∧
    status (s.dialer.onConnClosed k).conns = (status s.dialer.conns).filter (·.1 != k) ∧
    (s.dialer.onConnClosed k).nextConn = s.dialer.nextConn := by
  have hkf : (k, false) ∈ status s.dialer.conns := (h.ended k).2 (by rw [hfs]; exact .head _)
  exact ⟨hkf, Dialer.status_onConnClosed h.linked.toWF (mem_keys_iff.2 ⟨_, hkf⟩)⟩

/-- `OnDisconnected` returned, and `OnConnClosed` takes the connection out of the map. -/
theorem Inv.onConnClosed (h : s.Inv)
    (hfs : s.frames = .onDisconnected k cs :: fs) :
    { s with dialer := s.dialer.onConnClosed k, frames := fs }.Inv := by
  have hends : ends s.frames = k :: ends fs := by rw [hfs]; rfl
  obtain ⟨hkf, hst, hn⟩ := h.status_onConnClosed hfs
  have hnd := h.nodup
  rw [hends, nodup_cons] at hnd
  constructor
  · exact h.linked.onConnClosed k
  · intro j
    rw [hst, mem_filter, h.ended, hends, mem_cons, bne_iff_ne]
    constructor
    · rintro ⟨rfl | hj, hne⟩
      · exact absurd rfl hne
      · exact hj
    · exact fun hj => ⟨.inr hj, fun he => hnd.1 (he ▸ hj)⟩
  · exact hnd.2
  · rw [hst]
    exact fun p hp => h.told p (mem_filter.1 hp).1
  · exact fun j hj => hn ▸ h.fresh j hj
  · have hs := h.shape
    rw [hfs] at hs
    exact Shape.onDisconnected_iff.1 hs
  · intro hs
    rw [Dialer.onConnClosed_pool] at hs
    refine (h.stopped hs).imp (fun hs => ?_) fun hc => ?_
    · simpa [stopping, hfs] using hs
    · rw [hc] at hkf; cases hkf

theorem Inv.insertConn (h : s.Inv) (sessionId : ℕ) (hs : s.dialer.pool.started = true ∨
    s.stopping = true) : { s with dialer := s.dialer.insertConn sessionId }.Inv := by
  have hpool : (s.dialer.insertConn sessionId).pool = s.dialer.pool := by
    unfold Dialer.insertConn
    split <;> rfl
  constructor
  · exact h.linked.insertConn sessionId
  · intro k
    rw [← h.ended k]
    refine ⟨fun hk => (Dialer.mem_insertConn hk).resolve_right fun he => ?_,
      fun hk => s.dialer.subset_insertConn sessionId hk⟩
    cases congrArg Prod.snd he
  · exact h.nodup
  · intro p hp
    rcases Dialer.mem_insertConn hp with hp | rfl
    · exact h.told p hp
    · refine count_eq_zero.2 fun hm => ?_
      exact Nat.lt_irrefl _ (h.fresh _ hm)
  · rw [(s.dialer.status_insertConn sessionId).2]
    exact fun k hk => Nat.lt_succ_of_lt (h.fresh k hk)
  · exact h.shape
  · intro hf
    rw [hpool] at hf
    exact hs.elim (fun hs => absurd (hs.symm.trans hf) Bool.noConfusion) .inl

theorem Inv.setDialer {d : Dialer} (h : s.Inv) (hl : d.Linked)
    (hc : status d.conns = status s.dialer.conns) (hn : d.nextConn = s.dialer.nextConn)
    (hst : d.pool.started = false → s.stopping = true ∨ s.dialer.conns = []) :
    { s with dialer := d }.Inv :=
  h.of_status hl hc hn rfl h.shape fun hs => (hst hs).imp_right (eq_nil_of_status hc)

/-- Outside the loop the dialer is as it is without the application. -/
theorem Inv.dialer (h : s.Inv) (hs : s.stopping = false) : s.dialer.Inv :=
  ⟨h.linked, fun hst => (h.stopped hst).resolve_left (by simp [hs])⟩

theorem Inv.start (h : s.Inv) (hs : s.stopping = false) (bound : Bool) :
    { s with dialer := s.dialer.start bound }.Inv := by
  have hi := (h.dialer hs).start bound
  exact h.setDialer hi.toLinked rfl rfl fun hst => .inr (hi.stopped hst)

theorem Inv.createConn (h : s.Inv) (hs : s.stopping = false) (sessionId : ℕ) (bound : Bool) :
    { s with dialer := s.dialer.createConn sessionId bound }.Inv := by
  rw [Dialer.createConn_eq]
  split
  · next hst => exact (h.start hs bound).insertConn sessionId (.inl hst)
  · exact h.start hs bound

theorem Inv.writePacket (h : s.Inv) (k : ℕ) (data : List UInt8) (r : ℤ) :
    { s with dialer := s.dialer.writePacket k data r }.Inv := by
  obtain ⟨hc, hn⟩ := s.dialer.status_writePacket k data r
  exact h.setDialer (h.linked.writePacket k data r) hc hn fun hst =>
    h.stopped ((started_writePacket s.dialer k data r).symm.trans hst)

theorem Inv.dialerClose (h : s.Inv) (hb : Base s.frames) : s.dialerClose.Inv := by
  unfold DialerApp.dialerClose
  split
  swap
  · exact h
  have hw : s.dialer.pool.stop.writeBlocked = s.dialer.pool.writeBlocked ∨
      s.dialer.pool.stop.writeBlocked = true := by
    unfold SendPool.stop
    split
    · exact .inr rfl
    · exact .inl rfl
  have hl := h.linked.setPool hw
  exact h.of_status ⟨hl.toWF, hl.wake⟩ rfl rfl rfl (.stop hb) fun _ => .inl rfl

theorem Inv.perform {c : DialerCall} (h : s.Inv) (hc : c = .dialerClose → Base s.frames) :
    (s.perform b c).Inv := by
  cases c with
  | createConn sessionId bound =>
    unfold DialerApp.perform
    cases hs : s.stopping
    · exact h.createConn hs sessionId bound
    · exact h.insertConn sessionId (.inr hs)
  | disconnect k data r => exact h.close k data r
  | write k data r => exact h.writePacket k data r
  | dialerClose => exact h.dialerClose (hc rfl)

/-- The application calls `DialerClose` from `OnDisconnected`. -/
def closesInside (s : DialerApp) : Bool :=
  match s.frames with
  | .onDisconnected _ (.dialerClose :: _) :: _ => true
  | _ => false

theorem Inv.setFrames (h : s.Inv) (he : ends fs = ends s.frames)
    (hfs : Shape fs) (hst : s.stopping = true → fs.any (· == .stop) = true) :
    { s with frames := fs }.Inv :=
  h.of_status h.linked rfl rfl he hfs fun hs => (h.stopped hs).imp_left hst

theorem Shape.callback {cb : DialerCallback} (h : Shape (.callback cb k cs :: fs)) : fs = [] := by
  cases h with
  | base h => cases h; rfl

theorem Shape.of_stop (h : Shape (.stop :: fs)) : Base fs := by
  cases h with
  | base h => cases h
  | stop h => exact h

theorem eq_nil_of_first (h : s.first b = none) : s.dialer.conns = [] := by
  by_contra hne
  have hlt := Nat.mod_lt (b.order s.rounds) (length_pos_iff.2 hne)
  rw [first, getElem?_eq_none_iff] at h
  omega

theorem Inv.tick (h : s.Inv) (hc : s.closesInside = false) : (s.tick b).Inv := by
  have hshape := h.shape
  unfold DialerApp.tick
  split
  · exact h
  · next cb k fs hfs =>
    rw [hfs] at hshape
    obtain rfl := hshape.callback
    refine h.setFrames (by rw [hfs]; rfl) (.base .empty) fun hs => ?_
    rw [stopping, hfs] at hs; cases hs
  · next cb k c cs fs hfs =>
    rw [hfs] at hshape
    obtain rfl := hshape.callback
    have hb : Base [.callback cb k cs] := .callback cb k cs
    refine Inv.perform (h.setFrames (by rw [hfs]; rfl) (.base hb) fun hs => ?_) fun _ => hb
    rw [stopping, hfs] at hs; cases hs
  · next k fs hfs => exact h.onConnClosed hfs
  · next k c cs fs hfs =>
    rw [hfs, Shape.onDisconnected_iff] at hshape
    refine Inv.perform (h.setFrames (by rw [hfs]; rfl) (.onDisconnected k cs hshape) fun hs => ?_)
      fun hd => ?_
    · simpa [stopping, hfs] using hs
    · subst hd
      rw [closesInside, hfs] at hc; cases hc
  · next fs hfs =>
    rw [hfs] at hshape
    have hb := hshape.of_stop
    split
    · next hn =>
      exact h.of_status ⟨h.linked.toWF, h.linked.wake⟩ rfl rfl (by rw [hfs]; rfl) (.base hb)
        fun _ => .inr (eq_nil_of_first hn)
    · next c _ =>
      have hi := h.close (b := b) c.key [] 0
      exact hi.of_status hi.linked rfl rfl rfl hi.shape hi.stopped

theorem conns_step {d d' : Dialer} {a : DialerAct} (hi : d.Inv) (hk : keepsConns a = true)
    (h : d.step a = some d') :
    (∃ sessionId bound, a = .createConn sessionId bound) ∨
      (status d'.conns = status d.conns ∧ d'.nextConn = d.nextConn) := by
  cases a with
  | createConn sessionId bound => exact .inl ⟨_, _, rfl⟩
  | start bound => cases h; exact .inr ⟨rfl, rfl⟩
  | stop | tearDown | onConnClosed => cases hk
  | writePacket k data r => cases h; exact .inr (d.status_writePacket k data r)
  | canWrite k => cases h; rw [Dialer.canWrite_eq hi.toLinked]; exact .inr ⟨rfl, rfl⟩
  | onUvSend i =>
    obtain ⟨-, p, w, -, rfl⟩ := Dialer.onUvSend_eq h
    exact .inr ⟨rfl, rfl⟩
  | wakeNext =>
    replace h : d.wakeNext = some d' := h
    unfold Dialer.wakeNext at h
    split at h
    · cases h
    · split at h
      · cases h; exact .inr ⟨status_setBlocked false, rfl⟩
      · cases h
  | wakeDone =>
    replace h : d.wakeDone = some d' := h
    unfold Dialer.wakeDone at h
    split at h
    · cases h; exact .inr ⟨rfl, rfl⟩
    · cases h
  | deleteConns =>
    simp only [Dialer.step, Option.ite_none_left_eq_some, Dialer.deleteConns, Bool.true_and,
      List.isEmpty_iff] at h
    obtain ⟨-, h⟩ := h
    split at h
    · next he =>
      unfold Dialer.stop at h
      simp only [he, all_nil, foldl_nil] at h
      split at h
      · cases h; exact .inr ⟨by rw [he], rfl⟩
      · cases h; exact .inr ⟨by rw [he], rfl⟩
    · cases h; exact .inr ⟨rfl, rfl⟩

theorem step_inv {a : DialerEvent} (h : s.Inv) (hc : a = .tick → s.closesInside = false)
    (hstep : s.step b a = some t) : t.Inv := by
  cases a with
  | tick =>
    simp only [step, Option.ite_none_left_eq_some] at hstep
    obtain ⟨-, hstep⟩ := hstep
    cases hstep
    exact h.tick (hc rfl)
  | dialer a =>
    simp only [step, Option.ite_none_right_eq_some, Bool.and_eq_true, List.isEmpty_iff] at hstep
    obtain ⟨⟨hfs, hk⟩, hstep⟩ := hstep
    obtain ⟨d, hd, rfl⟩ := Option.map_eq_some_iff.1 hstep
    have hs : s.stopping = false := by rw [stopping, hfs]; rfl
    have hi := h.dialer hs
    rcases conns_step hi hk hd with ⟨sessionId, bound, rfl⟩ | ⟨h₁, h₂⟩
    · cases hd; exact h.createConn hs sessionId bound
    · have hi' := (Dialer.step_inv hi hd).1
      exact h.setDialer hi'.toLinked h₁ h₂ fun hst => .inr (eq_nil_of_status h₁.symm (hi'.stopped hst))
  | callback cb k =>
    simp only [step, Option.ite_none_right_eq_some, Bool.and_eq_true, List.isEmpty_iff] at hstep
    obtain ⟨⟨hfs, -⟩, hstep⟩ := hstep
    cases hstep
    refine h.of_status h.linked rfl rfl (by rw [hfs]; rfl) (.base (.callback ..)) fun hs => .inr ?_
    exact (h.stopped hs).resolve_left (by rw [stopping, hfs]; nofun)
  | closed k data r =>
    simp only [step, Option.ite_none_right_eq_some] at hstep
    obtain ⟨-, hstep⟩ := hstep
    cases hstep
    exact h.close k data r
  | dialerClose =>
    simp only [step, Option.ite_none_right_eq_some, List.isEmpty_iff] at hstep
    obtain ⟨hfs, hstep⟩ := hstep
    cases hstep
    exact h.dialerClose (hfs ▸ .empty)

/-! ## Who is told -/

/-- From one state to a later one: a connection that left the map was told once, and of those that are
    not filed none is filed or told again. -/
structure Later (s t : DialerApp) : Prop where
  next : s.dialer.nextConn ≤ t.dialer.nextConn
  gone : ∀ k < s.dialer.nextConn, k ∉ keys s.dialer.conns → k ∉ keys t.dialer.conns ∧
    t.told.count k = s.told.count k
  left : ∀ k ∈ keys s.dialer.conns, k ∉ keys t.dialer.conns → t.told.count k = 1

theorem Inv.lt_of_mem (h : s.Inv) (hk : k ∈ keys s.dialer.conns) : k < s.dialer.nextConn := by
  obtain ⟨c, hc, rfl⟩ := hk
  exact h.linked.fresh c hc

theorem Later.refl (s : DialerApp) : s.Later s :=
  ⟨Nat.le_refl _, fun _ _ hk => ⟨hk, rfl⟩, fun _ hk hn => absurd hk hn⟩

theorem Later.trans (hs : s.Inv) (h : s.Later t) (h' : t.Later u) : s.Later u := by
  refine ⟨Nat.le_trans h.next h'.next, fun k hk hn => ?_, fun k hk hn => ?_⟩
  · obtain ⟨hn', hc⟩ := h.gone k hk hn
    obtain ⟨hn'', hc'⟩ := h'.gone k (Nat.lt_of_lt_of_le hk h.next) hn'
    exact ⟨hn'', hc'.trans hc⟩
  · by_cases ht : k ∈ keys t.dialer.conns
    · exact h'.left k ht hn
    · have hlt := Nat.lt_of_lt_of_le (hs.lt_of_mem hk) h.next
      exact (h'.gone k hlt ht).2.trans (h.left k hk ht)

theorem Later.of_eq (h : u.Later t) (hc : u.dialer.conns = s.dialer.conns)
    (hn : u.dialer.nextConn = s.dialer.nextConn) (ht : u.told = s.told) : s.Later t where
  next := hn ▸ h.next
  gone := by rw [← hc, ← hn, ← ht]; exact h.gone
  left := by rw [← hc]; exact h.left

theorem Later.of_keys (hk : keys t.dialer.conns = keys s.dialer.conns)
    (hn : t.dialer.nextConn = s.dialer.nextConn) (ht : t.told = s.told) : s.Later t :=
  ⟨hn.ge, fun k _ h => ⟨hk ▸ h, by rw [ht]⟩, fun k h hn => absurd (hk ▸ h) hn⟩

theorem keys_of_status {l : List Conn} (h : status l' = status l) : keys l' = keys l := by
  ext k
  rw [mem_keys_iff, mem_keys_iff, h]

theorem later_close (s : DialerApp) (k : ℕ) (data : List UInt8) (r : ℤ) :
    s.Later (s.close b k data r) := by
  by_cases hk : (conn? s.dialer.conns k).any (·.connected) = true
  swap
  · rw [close, if_neg hk]; exact .refl s
  obtain ⟨hst, hn⟩ := status_close hk data r
  have hkeys : keys (s.close b k data r).dialer.conns = keys s.dialer.conns := by
    rw [close, if_pos hk]
    exact keys_disconnect.trans (keys_of_status (s.dialer.status_writePacket k data r).1)
  have htold : (s.close b k data r).told = k :: s.told := by rw [close, if_pos hk]
  refine ⟨hn.ge, fun j _ hj => ⟨hkeys ▸ hj, ?_⟩, fun j hj hn => absurd (hkeys ▸ hj) hn⟩
  have hne : j ≠ k := by
    rintro rfl
    exact hj (mem_keys_iff.2 ⟨_, mem_status_of_connected hk⟩)
  rw [htold, count_cons_of_ne hne.symm]

theorem later_insertConn (s : DialerApp) (sessionId : ℕ) :
    s.Later { s with dialer := s.dialer.insertConn sessionId } := by
  refine ⟨by rw [(s.dialer.status_insertConn sessionId).2]; exact Nat.le_succ _,
    fun k hk hn => ⟨fun h => ?_, rfl⟩, fun k hk hn => absurd ?_ hn⟩
  · obtain ⟨c, hc⟩ := mem_keys_iff.1 h
    rcases Dialer.mem_insertConn hc with hc | hc
    · exact hn (mem_keys_iff.2 ⟨c, hc⟩)
    · exact hk.ne (congrArg Prod.fst hc)
  · obtain ⟨c, hc⟩ := mem_keys_iff.1 hk
    exact mem_keys_iff.2 ⟨c, s.dialer.subset_insertConn sessionId hc⟩

theorem later_onConnClosed (h : s.Inv)
    (hfs : s.frames = .onDisconnected k cs :: fs) :
    s.Later { s with dialer := s.dialer.onConnClosed k, frames := fs } := by
  obtain ⟨hkf, hst, hn⟩ := h.status_onConnClosed hfs
  have hkeys : ∀ j, j ∈ keys (s.dialer.onConnClosed k).conns ↔ j ∈ keys s.dialer.conns ∧ j ≠ k := by
    intro j
    rw [mem_keys_iff, mem_keys_iff, hst]
    simp
  refine ⟨hn.ge, fun j _ hj => ⟨fun h => hj ((hkeys j).1 h).1, rfl⟩, fun j hj hn' => ?_⟩
  have hjk : j = k := by
    by_contra hne
    exact hn' ((hkeys j).2 ⟨hj, hne⟩)
  rw [hjk]
  exact h.told _ hkf

theorem later_perform (s : DialerApp) (c : DialerCall) : s.Later (s.perform b c) := by
  cases c with
  | createConn sessionId bound =>
    rw [perform]
    split
    · exact later_insertConn s sessionId
    · rw [Dialer.createConn_eq]
      split
      · exact (later_insertConn { s with dialer := s.dialer.start bound } sessionId).of_eq rfl rfl rfl
      · exact .of_keys rfl rfl rfl
  | disconnect k data r => exact later_close s k data r
  | write k data r =>
    obtain ⟨hc, hn⟩ := s.dialer.status_writePacket k data r
    exact .of_keys (keys_of_status hc) hn rfl
  | dialerClose =>
    rw [perform, dialerClose]
    split <;> exact .of_keys rfl rfl rfl

theorem later_tick (h : s.Inv) : s.Later (s.tick b) := by
  unfold tick
  split
  · exact .refl s
  · exact .of_keys rfl rfl rfl
  · next cb k c cs fs hfs =>
    exact (later_perform { s with frames := .callback cb k cs :: fs } c).of_eq rfl rfl rfl
  · next k fs hfs => exact later_onConnClosed h hfs
  · next k c cs fs hfs =>
    exact (later_perform { s with frames := .onDisconnected k cs :: fs } c).of_eq rfl rfl rfl
  · next fs hfs =>
    split
    · exact .of_keys rfl rfl rfl
    · next c _ =>
      obtain ⟨h₁, h₂, h₃⟩ := later_close s c.key [] 0
      exact ⟨h₁, h₂, h₃⟩

end DialerApp

/-! ## The loop ends -/

def DialerCall.creates : DialerCall → ℕ
  | .createConn .. => 1
  | _ => 0

def DialerFrame.calls : DialerFrame → List DialerCall
  | .callback _ _ cs => cs
  | .onDisconnected _ cs => cs
  | .stop => []

def creations (cs : List DialerCall) : ℕ := (cs.map DialerCall.creates).sum

namespace DialerApp

variable {b : Behaviour} {s t : DialerApp} {k N : ℕ}

/-- The connections that the application is still going to create, if its callbacks from the `N`-th on
    create none. -/
def toCreate (b : Behaviour) (N : ℕ) (s : DialerApp) : ℕ :=
  ∑ n ∈ Finset.Ico s.callbacks N, creations (b.calls n) + (s.frames.map fun f => creations f.calls).sum

def numConnected (s : DialerApp) : ℕ := (status s.dialer.conns).countP (·.2)

/-- The calls that the frames are still going to make, each of which may begin a loop, and their
    returns. -/
def work (s : DialerApp) : ℕ := (s.frames.map fun f => 2 * f.calls.length + 1).sum

/-- What gets smaller.  A close makes one connection less; a new connection is one creation less; and
    all else is a call less. -/
def rank (b : Behaviour) (N : ℕ) (s : DialerApp) : ℕ ×ₗ ℕ ×ₗ ℕ :=
  toLex (s.toCreate b N + s.numConnected, toLex (s.toCreate b N, s.work))

theorem rank_lt_of_work (hc : t.toCreate b N ≤ s.toCreate b N)
    (hn : t.numConnected ≤ s.numConnected) (hw : t.work < s.work) : t.rank b N < s.rank b N := by
  simp only [rank, Prod.Lex.toLex_lt_toLex]
  omega

theorem rank_lt_of_creation (hc : t.toCreate b N + 1 = s.toCreate b N)
    (hn : t.numConnected ≤ s.numConnected + 1) : t.rank b N < s.rank b N := by
  simp only [rank, Prod.Lex.toLex_lt_toLex]
  omega

theorem rank_lt_of_close (hc : t.toCreate b N = s.toCreate b N)
    (hn : t.numConnected < s.numConnected) : t.rank b N < s.rank b N := by
  simp only [rank, Prod.Lex.toLex_lt_toLex]
  omega

theorem sum_creations (hN : ∀ n ≥ N, creations (b.calls n) = 0) (n : ℕ) :
    ∑ m ∈ Finset.Ico n N, creations (b.calls m) =
      creations (b.calls n) + ∑ m ∈ Finset.Ico (n + 1) N, creations (b.calls m) := by
  by_cases hn : n < N
  · exact Finset.sum_eq_sum_Ico_succ_bot hn _
  · rw [hN n (Nat.le_of_not_gt hn), Finset.Ico_eq_empty (by omega), Finset.Ico_eq_empty (by omega),
      Nat.zero_add]

theorem toCreate_close (hN : ∀ n ≥ N, creations (b.calls n) = 0) (s : DialerApp) (k : ℕ)
    (data : List UInt8) (r : ℤ) : (s.close b k data r).toCreate b N = s.toCreate b N := by
  unfold DialerApp.close
  split
  · have hs := sum_creations hN s.callbacks
    simp only [toCreate, map_cons, sum_cons, DialerFrame.calls]
    omega
  · rfl

theorem numConnected_close (hk : (conn? s.dialer.conns k).any (·.connected) = true)
    (data : List UInt8) (r : ℤ) : (s.close b k data r).numConnected < s.numConnected := by
  have hkt := mem_status_of_connected hk
  rw [numConnected, numConnected, (status_close hk data r).1, countP_map]
  have hle : ∀ l : List (ℕ × Bool),
      l.countP ((fun p => p.2) ∘ fun p => (p.1, p.2 && p.1 != k)) ≤ l.countP (·.2) := fun l =>
    countP_mono_left fun p _ hp => (Bool.and_eq_true _ _ ▸ hp).1
  obtain ⟨l₁, l₂, hl⟩ := append_of_mem hkt
  have h₁ := hle l₁
  have h₂ := hle l₂
  simp only [hl, countP_append, countP_cons, Function.comp_apply, bne_self_eq_false,
    Bool.and_false, Bool.false_eq_true, if_false, if_true]
  omega

theorem numConnected_insertConn (d : Dialer) (sessionId : ℕ) :
    (status (d.insertConn sessionId).conns).countP (·.2) ≤ (status d.conns).countP (·.2) + 1 := by
  rcases (d.status_insertConn sessionId).1 with h | h
  · rw [h]; exact Nat.le_succ _
  · rw [h, countP_append]; exact Nat.le_refl _

theorem numConnected_create (s : DialerApp) (sessionId : ℕ) (bound : Bool) :
    (s.perform b (.createConn sessionId bound)).numConnected ≤ s.numConnected + 1 := by
  rw [perform]
  split
  · exact numConnected_insertConn s.dialer sessionId
  · rw [Dialer.createConn_eq]
    split
    · exact numConnected_insertConn (s.dialer.start bound) sessionId
    · exact Nat.le_succ _

variable {fs : List DialerFrame}

theorem rank_perform {f f' : DialerFrame} {c : DialerCall}
    (hN : ∀ n ≥ N, creations (b.calls n) = 0) (hs : s.frames = f :: fs)
    (hf : f.calls = c :: f'.calls) :
    ({ s with frames := f' :: fs }.perform b c).rank b N < s.rank b N := by
  have hcreate : ({ s with frames := f' :: fs } : DialerApp).toCreate b N + c.creates =
      s.toCreate b N := by
    simp only [toCreate, hs, map_cons, sum_cons, hf, creations]
    omega
  have hwork : ({ s with frames := f' :: fs } : DialerApp).work + 2 = s.work := by
    simp only [work, hs, map_cons, sum_cons, hf, length_cons]
    omega
  cases c with
  | createConn sessionId bound =>
    exact rank_lt_of_creation hcreate (numConnected_create { s with frames := f' :: fs } _ _)
  | disconnect k data r =>
    by_cases hk : (conn? s.dialer.conns k).any (·.connected) = true
    · exact rank_lt_of_close ((toCreate_close hN _ k data r).trans hcreate)
        (numConnected_close (s := { s with frames := f' :: fs }) hk data r)
    · rw [perform, close, if_neg hk]
      exact rank_lt_of_work hcreate.le (Nat.le_refl _) (by omega)
  | write k data r =>
    refine rank_lt_of_work hcreate.le (Nat.le_of_eq ?_) (Nat.lt_of_lt_of_le (Nat.lt_add_of_pos_right
      Nat.two_pos) hwork.le)
    exact congrArg (countP _) (s.dialer.status_writePacket k data r).1
  | dialerClose =>
    rw [perform, dialerClose]
    split
    · refine rank_lt_of_work ?_ (Nat.le_refl _) ?_
      · refine Nat.le_trans (Nat.le_of_eq ?_) hcreate.le
        simp [toCreate, DialerFrame.calls, creations, DialerCall.creates]
      · simp only [work, map_cons, sum_cons, DialerFrame.calls, length_nil] at hwork ⊢
        omega
    · exact rank_lt_of_work hcreate.le (Nat.le_refl _) (by omega)

/-- The loop finds the connections connected: of those that are not, `OnDisconnected` would be on top
    of the loop. -/
theorem Inv.connected_of_stop (h : s.Inv) (hfs : s.frames = .stop :: fs)
    {c : Conn} (hc : c ∈ s.dialer.conns) : c.connected = true := by
  by_contra hf
  have hm : (c.key, false) ∈ status s.dialer.conns := mem_map.2 ⟨c, hc, by rw [Bool.eq_false_iff.2 hf]⟩
  have hb : Base fs := (hfs ▸ h.shape : Shape (.stop :: fs)).of_stop
  have he : ends s.frames = [] := by rw [hfs]; exact hb.ends
  exact absurd ((h.ended _).1 hm) (by rw [he]; exact not_mem_nil)

theorem Inv.rank_tick (h : s.Inv) (hN : ∀ n ≥ N, creations (b.calls n) = 0) (hne : s.frames ≠ []) :
    (s.tick b).rank b N < s.rank b N := by
  unfold DialerApp.tick
  split
  · next hfs => exact absurd hfs hne
  · next cb k fs hfs =>
    refine rank_lt_of_work ?_ (Nat.le_refl _) ?_
    · simp [toCreate, hfs]
    · simp [work, hfs]
  · next cb k c cs fs hfs => exact rank_perform hN hfs rfl
  · next k fs hfs =>
    obtain ⟨-, hst, -⟩ := h.status_onConnClosed hfs
    refine rank_lt_of_work ?_ ?_ ?_
    · simp [toCreate, hfs]
    · unfold numConnected
      rw [hst]
      exact filter_sublist.countP_le
    · simp [work, hfs]
  · next k c cs fs hfs => exact rank_perform hN hfs rfl
  · next fs hfs =>
    split
    · refine rank_lt_of_work ?_ (Nat.le_refl _) ?_
      · simp [toCreate, hfs]
      · simp [work, hfs]
    · next c hc =>
      have hk : (conn? s.dialer.conns c.key).any (·.connected) = true := by
        cases hc' : conn? s.dialer.conns c.key with
        | none => exact absurd ⟨c, mem_of_getElem? hc, rfl⟩ (conn?_none hc')
        | some c' => exact h.connected_of_stop hfs (conn?_some hc').1
      exact rank_lt_of_close (toCreate_close hN s c.key [] 0) (numConnected_close hk [] 0)

/-! ## `DialerClose` -/

/-- The event has the application call `DialerClose`. -/
def callsDialerClose (s : DialerApp) : DialerEvent → Bool
  | .dialerClose => s.frames.isEmpty
  | .tick =>
    match s.frames with
    | .callback _ _ (.dialerClose :: _) :: _ | .onDisconnected _ (.dialerClose :: _) :: _ => true
    | _ => false
  | _ => false

theorem frames_perform (s : DialerApp) (c : DialerCall) :
    ∃ fs, (s.perform b c).frames = fs ++ s.frames := by
  cases c with
  | createConn | write => exact ⟨[], rfl⟩
  | disconnect k data r =>
    rw [perform, close]
    split
    · exact ⟨[_], rfl⟩
    · exact ⟨[], rfl⟩
  | dialerClose =>
    rw [perform, dialerClose]
    split
    · exact ⟨[_], rfl⟩
    · exact ⟨[], rfl⟩

theorem frames_close (s : DialerApp) (k : ℕ) (data : List UInt8) (r : ℤ) :
    ∃ fs, (s.close b k data r).frames = fs ++ s.frames :=
  frames_perform s (.disconnect k data r)

theorem frames_tick (s : DialerApp) : ∃ fs, (s.tick b).frames = fs ++ s.frames.tail := by
  unfold tick
  split
  · next hfs => exact ⟨[], by rw [hfs]; rfl⟩
  · next hfs => exact ⟨[], by rw [hfs]; rfl⟩
  · next cb k c cs fs hfs =>
    obtain ⟨gs, hg⟩ := frames_perform { s with frames := .callback cb k cs :: fs } c
    exact ⟨gs ++ [.callback cb k cs], by rw [hg, hfs, append_assoc]; rfl⟩
  · next hfs => exact ⟨[], by rw [hfs]; rfl⟩
  · next k c cs fs hfs =>
    obtain ⟨gs, hg⟩ := frames_perform { s with frames := .onDisconnected k cs :: fs } c
    exact ⟨gs ++ [.onDisconnected k cs], by rw [hg, hfs, append_assoc]; rfl⟩
  · next fs hfs =>
    split
    · exact ⟨[], by rw [hfs]; rfl⟩
    · next c _ =>
      obtain ⟨gs, hg⟩ := frames_close s c.key [] 0
      exact ⟨gs ++ [.stop], by rw [hfs] at hg ⊢; rw [hg, append_assoc]; rfl⟩

/-- A loop of `stop` with `fs` below it goes on, or it ends and leaves no connection. -/
theorem loop_tick {ds : List DialerFrame} (hfs : s.frames = ds ++ .stop :: fs) :
    (∃ ds', (s.tick b).frames = ds' ++ .stop :: fs) ∨
      ((s.tick b).frames = fs ∧ (s.tick b).dialer.conns = []) := by
  cases ds with
  | nil =>
    rw [nil_append] at hfs
    rw [tick, hfs]
    dsimp only
    split
    · next hn => exact .inr ⟨rfl, eq_nil_of_first hn⟩
    · next c _ =>
      obtain ⟨gs, hg⟩ := frames_close s c.key [] 0
      exact .inl ⟨gs, hg.trans (by rw [hfs])⟩
  | cons f ds =>
    obtain ⟨gs, hg⟩ := frames_tick s
    exact .inl ⟨gs ++ ds, by rw [hg, hfs, append_assoc]; rfl⟩

/-- Where the loop of `stop` that was begun in `s` with `fs` below it is. -/
structure InLoop (s : DialerApp) (fs : List DialerFrame) (t : DialerApp) : Prop where
  inv : t.Inv
  later : s.Later t
  frames : (∃ ds, t.frames = ds ++ .stop :: fs) ∨ (t.frames = fs ∧ t.dialer.conns = [])

theorem InLoop.tick (hs : s.Inv) (h : s.InLoop fs t)
    (hc : t.closesInside = false) (ht : t.frames ≠ fs) :
    t.frames ≠ [] ∧ s.InLoop fs (t.tick b) := by
  obtain ⟨ds, hds⟩ := h.frames.resolve_right fun hf => ht hf.1
  refine ⟨by simp [hds], h.inv.tick hc, h.later.trans hs (later_tick h.inv), loop_tick hds⟩

/-- **The loop of `stop` ends**, and whoever was connected has been told once. -/
theorem Inv.stop_ends (hs : s.Inv) (hfs : s.frames = .stop :: fs)
    (hN : ∀ n ≥ N, creations (b.calls n) = 0)
    (hC : ∀ n, Machine.Along (step b) (fun s a => a = .tick → s.closesInside = false)
      s (replicate n .tick)) :
    ∃ n t, Machine.run (step b) s (replicate n .tick) = some t ∧ s.InLoop fs t ∧ t.frames = fs := by
  refine Machine.run_until (rank b N) (fun t ht hc hP => ?_) ⟨hs, .refl s, .inl ⟨[], hfs⟩⟩ hC
  obtain ⟨hne, hl⟩ := ht.tick hs (hc rfl) hP
  exact ⟨t.tick b, if_neg (by simpa using hne), hl, ht.inv.rank_tick hN hne⟩

theorem creations_eq_zero {cs : List DialerCall}
    (h : ∀ sessionId bound, .createConn sessionId bound ∉ cs) : creations cs = 0 := by
  refine sum_eq_zero fun n hn => ?_
  obtain ⟨c, hc, rfl⟩ := mem_map.1 hn
  cases c with
  | createConn sessionId bound => exact absurd hc (h sessionId bound)
  | disconnect | write | dialerClose => rfl

theorem step_dialerClose {a : DialerEvent} (hst : s.dialer.pool.started = true)
    (ha : s.callsDialerClose a = true) (hc : a = .tick → s.closesInside = false)
    (h : s.step b a = some t) : ∃ fs, t.frames = .stop :: fs ∧ t.dialer.conns = s.dialer.conns := by
  have hclose : ∀ fs, ({ s with frames := fs } : DialerApp).dialerClose.frames = .stop :: fs ∧
      ({ s with frames := fs } : DialerApp).dialerClose.dialer.conns = s.dialer.conns := by
    intro fs
    rw [dialerClose, if_pos (by simp [hst])]
    exact ⟨rfl, rfl⟩
  cases a with
  | tick =>
    simp only [step, Option.ite_none_left_eq_some] at h
    obtain ⟨-, h⟩ := h
    cases h
    simp only [callsDialerClose] at ha
    split at ha
    · next cb k cs fs hfs =>
      rw [tick, hfs]
      exact ⟨_, hclose (.callback cb k cs :: fs)⟩
    · next hfs => rw [closesInside, hfs] at hc; cases hc rfl
    · cases ha
  | dialerClose =>
    simp only [step, Option.ite_none_right_eq_some] at h
    obtain ⟨-, h⟩ := h
    cases h
    exact ⟨_, hclose s.frames⟩
  | dialer | callback | closed => cases ha

/-- **`DialerClose` returns**, if it is not called inside `OnDisconnected`: whatever the application does
    in the callbacks on the way, as long as it does not create connections for ever, the loop ends,
    and who was connected has been told once and is in neither map. -/
theorem dialerClose_finishes (b : Behaviour)
    (hfin : ∃ N, ∀ n ≥ N, ∀ sessionId bound, .createConn sessionId bound ∉ b.calls n)
    {as : List DialerEvent} {a : DialerEvent} {s t : DialerApp}
    (hC : ∀ n, Machine.Along (step b) (fun s a => a = .tick → s.closesInside = false) init
      (as ++ a :: List.replicate n .tick))
    (hrun : Machine.run (step b) init as = some s) (hst : s.dialer.pool.started = true)
    (ha : s.callsDialerClose a = true) (hstep : s.step b a = some t) :
    ∃ n u, Machine.run (step b) t (List.replicate n .tick) = some u ∧
      t.frames = .stop :: u.frames ∧
      ∀ k ∈ keys s.dialer.conns, u.told.count k = 1 ∧ k ∉ keys u.dialer.conns ∧
        k ∉ u.dialer.blockedConns := by
  obtain ⟨N, hN⟩ := hfin
  have hs : s.Inv :=
    Machine.run_inv_along (fun s a s' h hc hs => step_inv h hc hs) init_inv (hC 0).left hrun
  have hca := ((hC 0).of_append hrun).1
  have ht : t.Inv := step_inv hs hca hstep
  obtain ⟨fs, hfs, hconns⟩ := step_dialerClose hst ha hca hstep
  obtain ⟨n, u, hu, hloop, hfu⟩ := ht.stop_ends hfs (fun n hn => creations_eq_zero (hN n hn))
    fun n => ((hC n).of_append hrun).2 t hstep
  refine ⟨n, u, hu, by rw [hfs, hfu], fun k hk => ?_⟩
  have hnil : u.dialer.conns = [] := by
    rcases hloop.frames with ⟨ds, hds⟩ | ⟨-, hnil⟩
    · have := congrArg length (hfu.symm.trans hds)
      simp at this
      omega
    · exact hnil
  have hgone : k ∉ keys u.dialer.conns := fun ⟨c, hc, _⟩ => by rw [hnil] at hc; cases hc
  exact ⟨hloop.later.left k (hconns ▸ hk) hgone, hgone, fun hb =>
    hgone (hloop.inv.linked.wake.alive k hb)⟩

/-- An application that does nothing but close the dialer in its first callback. -/
def closesFirst : Behaviour := ⟨fun n => if n = 0 then [.dialerClose] else [], fun _ => 0⟩

theorem closesFirst_quiet :
    ∀ n, ∀ sessionId bound, DialerCall.createConn sessionId bound ∉ closesFirst.calls n := by
  intro n sessionId bound
  dsimp only [closesFirst]
  split <;> simp

theorem closesFirst_tick (hs : 0 < s.callbacks ∧ ∀ f ∈ s.frames, f.calls = []) :
    0 < (s.tick closesFirst).callbacks ∧ ∀ f ∈ (s.tick closesFirst).frames, f.calls = [] := by
  obtain ⟨hpos, hcalls⟩ := hs
  unfold tick
  split
  · exact ⟨hpos, hcalls⟩
  · next hfs => exact ⟨hpos, fun f hf => hcalls f (hfs ▸ .tail _ hf)⟩
  · next hfs => rw [hfs] at hcalls; cases hcalls _ (.head _)
  · next hfs => exact ⟨hpos, fun f hf => hcalls f (hfs ▸ .tail _ hf)⟩
  · next hfs => rw [hfs] at hcalls; cases hcalls _ (.head _)
  · next fs hfs =>
    split
    · exact ⟨hpos, fun f hf => hcalls f (hfs ▸ .tail _ hf)⟩
    · rw [close]
      split
      · refine ⟨Nat.lt_succ_of_lt hpos, fun f hf => ?_⟩
        rcases mem_cons.1 hf with rfl | hf
        · exact if_neg hpos.ne'
        · exact hcalls f hf
      · exact ⟨hpos, hcalls⟩

theorem closesInside_eq_false (h : ∀ f ∈ s.frames, f.calls = []) : s.closesInside = false := by
  unfold closesInside
  split
  · next hfs => rw [hfs] at h; cases h _ (.head _)
  · rfl

/-- Called in `OnConnected`, with one connection. -/
theorem dialerClose_finishes_onConnected :
    ∃ s t : DialerApp, Machine.run (step closesFirst) init
        [.dialer (.createConn 7 true), .callback .onConnected 0] = some s ∧
      s.step closesFirst .tick = some t ∧
      ∃ n u, Machine.run (step closesFirst) t (List.replicate n .tick) = some u ∧
        t.frames = .stop :: u.frames ∧
        ∀ k ∈ keys s.dialer.conns, u.told.count k = 1 ∧ k ∉ keys u.dialer.conns ∧
          k ∉ u.dialer.blockedConns := by
  refine ⟨_, _, rfl, rfl, ?_⟩
  refine @dialerClose_finishes closesFirst ⟨0, fun n _ => closesFirst_quiet n⟩
    [.dialer (.createConn 7 true), .callback .onConnected 0] .tick _ _ (fun n => ?_) rfl rfl rfl rfl
  refine ⟨nofun, fun s hs => ⟨nofun, fun s' hs' => ?_⟩⟩
  cases hs; cases hs'
  refine ⟨fun _ => rfl, fun s hs => ?_⟩
  cases hs
  refine Machine.Along.replicate (fun s hs _ => closesInside_eq_false hs.2) (fun s s' hs h => ?_) n
    (I := fun s => 0 < s.callbacks ∧ ∀ f ∈ s.frames, f.calls = []) (by decide +kernel)
  simp only [step, Option.ite_none_left_eq_some] at h
  obtain ⟨-, h⟩ := h
  cases h
  exact closesFirst_tick hs

/-- A loop that finds no connected connection goes round for ever. -/
theorem loop_stuck (hne : s.dialer.conns ≠ [])
    (hd : ∀ c ∈ s.dialer.conns, c.connected = false) (hfs : s.frames = .stop :: fs) (n : ℕ) :
    ∃ t, Machine.run (step b) s (replicate n .tick) = some t ∧ t.frames = .stop :: fs := by
  induction n generalizing s with
  | zero => exact ⟨s, rfl, hfs⟩
  | succ n ih =>
    have hclose : ∀ k, s.close b k [] 0 = s := fun k => if_neg fun hk => by
      obtain ⟨c, hc, -, hk⟩ := conn?_any hk
      exact Bool.noConfusion ((hd c hc).symm.trans hk)
    have htick : s.step b .tick = some { s with rounds := s.rounds + 1 } := by
      rw [step, if_neg (by simp [hfs]), tick, hfs]
      dsimp only
      split
      · next h => exact absurd (eq_nil_of_first h) hne
      · rw [hclose, hfs]
    obtain ⟨t, ht, hft⟩ := ih (s := { s with rounds := s.rounds + 1 }) hne hd hfs
    exact ⟨t, Machine.run_cons.2 ⟨_, htick, ht⟩, hft⟩

/-- Called in `OnDisconnected`, the loop goes round for ever: the connection whose end the application
    is told of is still filed, and closing it once more does nothing. -/
theorem dialerClose_hangs :
    (∀ n sessionId bound, DialerCall.createConn sessionId bound ∉ closesFirst.calls n) ∧
    ∃ s t : DialerApp, Machine.run (step closesFirst) init
        [.dialer (.createConn 7 true), .closed 0 [] 0] = some s ∧
      s.dialer.pool.started = true ∧ s.callsDialerClose .tick = true ∧
      s.step closesFirst .tick = some t ∧
      ∀ n, ∃ u, Machine.run (step closesFirst) t (List.replicate n .tick) = some u ∧
        u.frames = [.stop, .onDisconnected 0 []] := by
  refine ⟨closesFirst_quiet, _, _, rfl, by decide +kernel, by decide +kernel, rfl, ?_⟩
  exact loop_stuck (by decide +kernel) (by decide +kernel) (by decide +kernel)

end DialerApp
end Puic
