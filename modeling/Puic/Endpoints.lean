/-
  Both endpoints: what holds in every reachable state of a `PuicDialer` and of a
  `PuicListener`.

  The send pool.  A request leaves circulation in two ways: `WritePacket` pops it
  and does not push it back when `uv_udp_send` is rejected, and `on_uv_send` frees
  it when its socket has been closed in the meantime.  The pool is complete exactly
  as long as neither has happened.

  The blocked writers.  Nobody who was turned away is forgotten, whatever the
  sessions do while a wake-up pass runs.
-/
import Puic.Dialer
import Puic.Listener

namespace Puic

open Machine

/-- A rejected send takes a request out of the pool for good. -/
theorem rejected_send_loses_request :
    (∃ as d, run Dialer.step Dialer.init as = some d ∧ d.pool.socket.isSome ∧ ¬ d.pool.Conserved) ∧
    ∃ as s, run Listener.step Listener.init as = some s ∧ s.pool.socket.isSome ∧ ¬ s.pool.Conserved :=
  ⟨⟨[.start true, .createConn 7 true, .writePacket 0 [1, 2, 3] (-1)], _, rfl,
      by decide +kernel, by unfold SendPool.Conserved; decide +kernel⟩,
    ⟨[.start true, .newSession 7, .writePacket 0 [1, 2, 3] (-1)], _, rfl,
      by decide +kernel, by unfold SendPool.Conserved; decide +kernel⟩⟩

/-- **The send pool.**  While the socket is open, every request is on the stack or in flight, and
    completing the sends in flight lifts every blockage, exactly if so far no send was rejected
    and no socket was closed with sends in flight. -/
theorem send_pool_complete_iff (as : List DialerAct) (bs : List ListenerAct) :
    (∀ d, run Dialer.step Dialer.init as = some d → d.pool.socket.isSome →
      (d.pool.Conserved ∧ d.pool.Recovers ↔ Along Dialer.step Dialer.KeepsReqs Dialer.init as)) ∧
    ∀ s, run Listener.step Listener.init bs = some s → s.pool.socket.isSome →
      (s.pool.Conserved ∧ s.pool.Recovers ↔ Along Listener.step Listener.KeepsReqs Listener.init bs) :=
  ⟨fun _ h ho => Dialer.conserved_iff h ho, fun _ h ho => Listener.conserved_iff h ho⟩

theorem send_pool_complete_in_flight :
    ∃ d, run Dialer.step Dialer.init
        [.start true, .createConn 7 true, .writePacket 0 [1, 2, 3] 0] = some d ∧
      d.pool.inFlight = 1 ∧ d.pool.Conserved ∧ d.pool.Recovers := by
  refine ⟨_, rfl, by decide +kernel, ((send_pool_complete_iff
    [.start true, .createConn 7 true, .writePacket 0 [1, 2, 3] 0] []).1 _ rfl
    (by decide +kernel)).2 ?_⟩
  refine ⟨trivial, fun _ h => ?_⟩
  cases h
  refine ⟨trivial, fun _ h => ?_⟩
  cases h
  exact ⟨fun h => absurd h.2.2.2 (by decide), fun _ _ => trivial⟩

/-- **The blocked writers.**  Outside a wake-up pass every blocked connection, and the time-wait
    list manager if it has packets queued, is listed; only filed connections are listed; and
    somebody is listed only while the shared writer is blocked. -/
theorem blocked_writers_listed (as : List DialerAct) (bs : List ListenerAct) :
    (∀ d, run Dialer.step Dialer.init as = some d → d.waking = false →
      (∀ c ∈ d.conns, c.connected = true → c.blocked = true → c.key ∈ d.blockedConns) ∧
      (∀ k ∈ d.blockedConns, ∃ c ∈ d.conns, c.key = k) ∧
      (d.blockedConns ≠ [] → d.pool.writeBlocked = true)) ∧
    ∀ s, run Listener.step Listener.init bs = some s → s.waking = false →
      (∀ c ∈ s.sessionMap, c.connected = true → c.blocked = true →
        .connection c.key ∈ s.writeBlockedList) ∧
      (s.pendingPacketsQueue ≠ [] → .timeWaitListManager ∈ s.writeBlockedList) ∧
      (∀ k, .connection k ∈ s.writeBlockedList → ∃ c ∈ s.sessionMap, c.key = k) ∧
      (s.writeBlockedList ≠ [] → s.pool.writeBlocked = true) := by
  refine ⟨fun d h hw => ?_, fun s h hw => ?_⟩
  · have hi := (Dialer.run_dialer_inv h).wake
    exact ⟨fun c hc hcon hb => hi.listed _ ⟨c, hc, rfl, hcon, hb⟩, hi.alive, hi.full hw⟩
  · have hinv := Listener.run_listener_inv h
    have hi := hinv.wake
    refine ⟨fun c hc hcon hb => ?_, fun hq => ?_, fun k hk => hi.alive _ hk, hi.full hw⟩
    · exact hi.listed (.connection c.key) ⟨c, hc, rfl, hcon, hb⟩
    · have hd : s.draining = false := by
        by_contra hd
        simp [hinv.draining (by simpa using hd)] at hw
      exact hi.listed .timeWaitListManager ⟨hq, hd⟩

/-- A dialer with one connection. -/
def oneConn (pool : SendPool) (blocked waking : Bool) : Dialer where
  pool := pool
  conns := [⟨0, 7, true, blocked⟩]
  closedConns := []
  blockedConns := if blocked then [0] else []
  deleteConnsAlarm := false
  nextConn := 1
  waking := waking

/-- A listener with one session, and the packets that its time-wait list manager could not send. -/
def oneSession (pool : SendPool) (blocked waking : Bool) (pending : List (List UInt8))
    (list : List BlockedWriter) : Listener where
  pool := pool
  sessionMap := [⟨0, 7, true, blocked⟩]
  closedSessionList := []
  writeBlockedList := list
  pendingPacketsQueue := pending
  nextConn := 1
  waking := waking
  draining := false

theorem start_units_init : (SendPool.init.start true).units = maxFlyingMessages :=
  (SendPool.start_units _ _).trans SendPool.init_units

/-- The connection is turned away, woken up when all sends are completed, and turned away again in
    the same pass. -/
theorem oneConn_blocked_again :
    ∃ as bs q, run Dialer.step Dialer.init (as ++ .wakeNext :: bs) = some (oneConn q true false) ∧
      q.writeBlocked = true := by
  have hok : ∀ waking p q, SendPool.writePacket p [] 0 = (q, .ok 0) →
      Dialer.step (oneConn p false waking) (.writePacket 0 [] 0) =
        some (oneConn q false waking) := by
    intro waking p q hq
    simp [Dialer.step, Dialer.writePacket, oneConn, ConnTable.mayWrite, ConnTable.conn?, hq]
  have hfull : ∀ waking p q, SendPool.writePacket p [] 0 = (q, .blocked ewouldblock) →
      Dialer.step (oneConn p false waking) (.writePacket 0 [] 0) =
        some (oneConn q true waking) := by
    intro waking p q hq
    simp only [Dialer.step, Dialer.writePacket, oneConn, hq]
    rfl
  have hsend : ∀ p q w, SendPool.onUvSend p 0 = some (q, w) →
      Dialer.step (oneConn p true false) (.onUvSend 0) = some (oneConn q true w) := by
    intro p q w hq
    simp [Dialer.step, Dialer.onUvSend, oneConn, hq]
  have hinit : run Dialer.step Dialer.init [.start true, .createConn 7 true] =
      some (oneConn (SendPool.init.start true) false false) := rfl
  obtain ⟨n, p, hrun₁, hp, hs, hu⟩ := SendPool.exists_run_full (hok false) (hfull false)
    (p := SendPool.init.start true) rfl
  obtain ⟨m, q, hrun₂, hq, -, -⟩ :=
    SendPool.exists_run_wakes hsend (hs.trans rfl) hp (hu.trans start_units_init)
  obtain ⟨l, r, hrun₃, hr, -⟩ := SendPool.exists_run_full (hok true) (hfull true) hq
  have hwake : Dialer.step (oneConn q true true) .wakeNext = some (oneConn q false true) := by
    simp only [Dialer.step, Dialer.wakeNext, oneConn, hq]
    rfl
  have hdone : Dialer.step (oneConn r true true) .wakeDone = some (oneConn r true false) := by
    simp only [Dialer.step, Dialer.wakeDone, oneConn, hr]
    rfl
  exact ⟨_, _, r, run_append.2 ⟨_, run_append.2 ⟨_, run_append.2 ⟨_, hinit, hrun₁⟩, hrun₂⟩,
    run_cons.2 ⟨_, hwake, run_append.2 ⟨_, hrun₃, run_cons.2 ⟨_, hdone, run_nil _⟩⟩⟩⟩, hr⟩

/-- The same at the listener, where the time-wait list manager waits behind the session. -/
theorem oneSession_blocked_again :
    ∃ as bs q, run Listener.step Listener.init (as ++ .wakeNext :: bs) =
        some (oneSession q true false [[9]] [.timeWaitListManager, .connection 0]) ∧
      q.writeBlocked = true := by
  have hok : ∀ waking pending list p q, SendPool.writePacket p [] 0 = (q, .ok 0) →
      Listener.step (oneSession p false waking pending list) (.writePacket 0 [] 0) =
        some (oneSession q false waking pending list) := by
    intro waking pending list p q hq
    simp [Listener.step, Listener.writePacket, oneSession, ConnTable.mayWrite, ConnTable.conn?, hq]
  have hfull : ∀ waking pending list p q,
      SendPool.writePacket p [] 0 = (q, .blocked ewouldblock) →
      Listener.step (oneSession p false waking pending list) (.writePacket 0 [] 0) =
        some (oneSession q true waking pending (WakeList.pushNew list (.connection 0))) := by
    intro waking pending list p q hq
    have hb : q.writeBlocked = true := by
      have hb := SendPool.writePacket_blocked (congrArg Prod.snd hq)
      rwa [hq] at hb
    simp only [Listener.step, Listener.writePacket, oneSession, hq, Listener.onWriteBlocked, hb]
    rfl
  have hsend : ∀ pending list p q w, SendPool.onUvSend p 0 = some (q, w) →
      Listener.step (oneSession p true false pending list) (.onUvSend 0) =
        some (oneSession q true w pending list) := by
    intro pending list p q w hq
    simp [Listener.step, Listener.onUvSend, oneSession, hq]
  have hinit : run Listener.step Listener.init [.start true, .newSession 7] =
      some (oneSession (SendPool.init.start true) false false [] []) := rfl
  obtain ⟨n, p, hrun₁, hp, hs, hu⟩ := SendPool.exists_run_full (hok false [] [])
    (hfull false [] []) (p := SendPool.init.start true) rfl
  have hqueue : Listener.step (oneSession p true false [] [.connection 0])
      (.sendOrQueuePacket [9] 0) = some (oneSession p true false [[9]]
        [.connection 0, .timeWaitListManager]) := by
    have hstarted : p.started = true := hs.trans rfl
    simp only [Listener.step, Listener.sendOrQueuePacket, Listener.writeToWire, oneSession,
      Listener.onWriteBlocked, hp, hstarted]
    rfl
  obtain ⟨m, q, hrun₂, hq, -, -⟩ := SendPool.exists_run_wakes
    (e := fun p w => oneSession p true w [[9]] [.connection 0, .timeWaitListManager])
    (hsend [[9]] [.connection 0, .timeWaitListManager]) (hs.trans rfl) hp
    (hu.trans start_units_init)
  obtain ⟨l, r, hrun₃, hr, -⟩ := SendPool.exists_run_full
    (hok true [[9]] [.timeWaitListManager]) (hfull true [[9]] [.timeWaitListManager]) hq
  have hwake : Listener.step (oneSession q true true [[9]] [.connection 0, .timeWaitListManager])
      .wakeNext = some (oneSession q false true [[9]] [.timeWaitListManager]) := by
    simp only [Listener.step, Listener.wakeNext, oneSession, hq]
    rfl
  have hdone : ∀ list, Listener.step (oneSession r true true [[9]] list) .wakeDone =
      some (oneSession r true false [[9]] list) := by
    intro list
    simp [Listener.step, Listener.wakeDone, oneSession, hr]
  exact ⟨_, _, r, run_append.2 ⟨_, run_append.2 ⟨_, run_append.2 ⟨_, run_append.2 ⟨_, hinit, hrun₁⟩,
    run_cons.2 ⟨_, hqueue, run_nil _⟩⟩, hrun₂⟩, run_cons.2 ⟨_, hwake, run_append.2 ⟨_, hrun₃,
    run_cons.2 ⟨_, hdone _, run_nil _⟩⟩⟩⟩, hr⟩

theorem blocked_writers_listed_again :
    (∃ as bs d, run Dialer.step Dialer.init (as ++ .wakeNext :: bs) = some d ∧ d.waking = false ∧
      d.pool.writeBlocked = true ∧
      ∃ c ∈ d.conns, c.connected = true ∧ c.blocked = true ∧ c.key ∈ d.blockedConns) ∧
    ∃ as bs s, run Listener.step Listener.init (as ++ .wakeNext :: bs) = some s ∧
      s.waking = false ∧ s.pool.writeBlocked = true ∧
      (∃ c ∈ s.sessionMap, c.connected = true ∧ c.blocked = true ∧
        .connection c.key ∈ s.writeBlockedList) ∧
      s.pendingPacketsQueue ≠ [] ∧ .timeWaitListManager ∈ s.writeBlockedList := by
  obtain ⟨as, bs, q, hrun, hq⟩ := oneConn_blocked_again
  obtain ⟨as', bs', q', hrun', hq'⟩ := oneSession_blocked_again
  obtain ⟨hd, hl⟩ := blocked_writers_listed (as ++ .wakeNext :: bs) (as' ++ .wakeNext :: bs')
  obtain ⟨hlisted, -, -⟩ := hd _ hrun rfl
  obtain ⟨hlisted', hqueued, -⟩ := hl _ hrun' rfl
  exact ⟨⟨as, bs, _, hrun, rfl, hq, _, .head _, rfl, rfl, hlisted _ (.head _) rfl rfl⟩,
    as', bs', _, hrun', rfl, hq', ⟨_, .head _, rfl, rfl, hlisted' _ (.head _) rfl rfl⟩,
    List.cons_ne_nil _ _, hqueued (List.cons_ne_nil _ _)⟩

end Puic
