/-
  `PuicServerConn` (puic_server.cc): who deletes it, and who still calls it.

  A `PuicServerConn` is created by `PuicListener::OnNewSession` and owned by nobody:
  it is the delegate of its session and of the preset stream, and it deletes itself
  when the session tells it that the connection is closed.  The calls it gets come
  from deep inside the session, and it calls the application, which may close the
  connection on the spot.

  The calls that have not returned are a stack of frames (`ServerFrame`).  What the
  code of a session does between two frames is one event: a datagram that confirms
  the handshake, a packet that cannot be written, a stream that is closed.  Every
  event is possible wherever the guards of the source let it through, so a run of
  the machine is a run of the listener for some network, some clock and some
  application.

  `log` has every call of a delegate and every deletion, the last one first.
-/
import Mathlib.Data.List.Count
import Mathlib.Logic.Function.Basic
import Puic.Lib.Run

namespace Puic

open List Option Function

/-- The preset stream.  It is in `dynamic_stream_map_` until `PuicStream::OnClose` sets `closed_`. -/
inductive PresetStream where
  | absent
  | opened
  | closed
deriving Repr, DecidableEq

/-- A `PuicServerConn` with the session and the connection under it. -/
structure ServerConn where
  handshaked : Bool
  connected : Bool
  preset : PresetStream
deriving Repr, DecidableEq

/-- The methods of `PuicSessionInterface::Delegate` and `PuicStreamInterface::Delegate`. -/
inductive DelegateCall where
  | onHandshaked
  | onIncomingStream
  | onWriteBlocked
  | onClosed
  | onCanRead
  | onCanWrite
  | onStreamClosed
deriving Repr, DecidableEq

inductive ServerEntry where
  | called (c : DelegateCall)
  | deleted
deriving Repr, DecidableEq

/-- A call that has not returned. -/
inductive ServerFrame where
  /-- the code of a session and its connection -/
  | session (conn : ℕ)
  /-- `SendConnectionClosePacket` in `CloseConnection`; the connection is torn down next -/
  | closePacket (conn : ℕ)
  /-- `QuicStream::OnClose` of the preset stream; its delegate is told next -/
  | streamOnClose (conn : ℕ)
  /-- the application in `OnPreAccept`, `OnAccept`, `OnCanRead` or `OnCanWrite` -/
  | callback (conn : ℕ)
  /-- the application in `OnDisconnected`; the connection object is deleted next -/
  | onDisconnected (conn : ℕ)
  /-- the loop of `QuicDispatcher::Shutdown` -/
  | shutdown
deriving Repr, DecidableEq

/-- The listener with its connections, which are numbered in the order of their creation. -/
structure Server where
  listening : Bool
  next : ℕ
  conn : ℕ → ServerConn
  frames : List ServerFrame
  log : List (ℕ × ServerEntry)

inductive ServerEvent where
  | start
  /-- the application stops the listener, outside its callbacks -/
  | stop
  | newSession
  /-- a datagram, an alarm or the writable transport gets to a session -/
  | enter (conn : ℕ)
  | handshakeConfirmed
  | incomingStream
  /-- a packet that the writer does not take -/
  | writeBlocked
  | dataAvailable
  | canWrite
  /-- the last side of the preset stream is closed, or the stream is reset -/
  | closeStream
  | closeConnection
  /-- a close frame of the peer, or an error of the writer -/
  | tearDown
  /-- the application calls `ConnDisconnect` -/
  | disconnect (conn : ℕ)
  /-- the application reads or writes -/
  | use (conn : ℕ)
  /-- `Shutdown` gets to the next session -/
  | shutdownNext (conn : ℕ)
  | ret
deriving Repr, DecidableEq

namespace Server

def init : Server where
  listening := false
  next := 0
  conn := fun _ => ⟨false, false, .absent⟩
  frames := []
  log := []

variable (s : Server) (k : ℕ) (c : DelegateCall)

def call : Server :=
  { s with log := (k, .called c) :: s.log }

def setConn (c : ServerConn) : Server :=
  { s with conn := Function.update s.conn k c }

def push (f : ServerFrame) : Server := { s with frames := f :: s.frames }

/-! ## The delegate -/

/-- `PuicServerConn::OnHandshaked`. -/
def onHandshaked : Server :=
  ((s.call k .onHandshaked).setConn k { s.conn k with handshaked := true }).push (.callback k)

/-- `PuicServerConn::OnCanRead` and `OnCanWrite`. -/
def onCan : Server :=
  if (s.conn k).handshaked then (s.call k c).push (.callback k) else s.call k c

/-- `PuicServerConn::OnClosed`. -/
def onClosed : Server :=
  if !(s.conn k).handshaked then s.call k .onClosed
  else (s.call k .onClosed).push (.onDisconnected k)

/-! ## The session and its stream -/

/-- `PuicStream::OnDataAvailable`, and `OnCanWrite` after the stream has written. -/
def streamOnCan : Server :=
  if (s.conn k).preset = .opened then s.onCan k c else s

/-- `PuicSessionBase::OnCryptoHandshakeEvent`; the server's crypto stream confirms once, and does not
    ask whether the connection is still there. -/
def onCryptoHandshakeEvent : Option Server :=
  if (s.conn k).handshaked then none
  else some ((s.setConn k { s.conn k with preset := .opened }).onHandshaked k)

/-- `QuicSession::OnConnectionClosed`, which closes the streams: the stream of a closed connection
    writes nothing in its `OnClose`. -/
def closeStreams : Server :=
  if (s.conn k).preset = .opened then
    (s.setConn k { s.conn k with preset := .closed }).call k .onStreamClosed
  else s

/-- `QuicConnection::TearDownLocalConnectionState` with `PuicSessionBase::OnConnectionClosed`. -/
def tearDownLocalConnectionState : Server :=
  if (s.conn k).connected then
    ((s.setConn k { s.conn k with connected := false }).closeStreams k).onClosed k
  else s

/-- `QuicConnection::CloseConnection` up to the packet it sends. -/
def closeConnection : Server :=
  if (s.conn k).connected then s.push (.closePacket k) else s

/-! ## The machine -/

/-- The session whose packets are being written. -/
def writing : Option ℕ :=
  match s.frames with
  | .session k :: _ | .closePacket k :: _ | .streamOnClose k :: _ => some k
  | _ => none

/-- The session whose code runs. -/
def running : Option ℕ :=
  match s.frames with
  | .session k :: _ => some k
  | _ => none

/-- The application runs. -/
def inApp : Bool :=
  match s.frames with
  | [] | .callback _ :: _ | .onDisconnected _ :: _ => true
  | _ => false

def deleted : Bool := s.log.contains (k, .deleted)

/-- The application has been given the connection and may still use it. -/
def usable : Bool := s.inApp && (s.conn k).handshaked && !s.deleted k

/-- The topmost frame returns, and the one that called it goes on. -/
def ret : Option Server :=
  match s.frames with
  | [] => none
  | .session _ :: fs | .callback _ :: fs => some { s with frames := fs }
  | .closePacket k :: fs => some ({ s with frames := fs }.tearDownLocalConnectionState k)
  | .streamOnClose k :: fs => some ({ s with frames := fs }.call k .onStreamClosed)
  | .onDisconnected k :: fs => some { s with frames := fs, log := (k, .deleted) :: s.log }
  | .shutdown :: fs =>
    if (List.range s.next).any fun k => (s.conn k).connected then none
    else some { s with frames := fs, listening := false }

def step : ServerEvent → Option Server
  | .start => if s.frames.isEmpty then some { s with listening := true } else none
  | .stop => if s.frames.isEmpty && s.listening then some (s.push .shutdown) else none
  | .newSession =>
    if s.frames.isEmpty && s.listening then
      some (({ s with next := s.next + 1 }.setConn s.next ⟨false, true, .absent⟩).push (.callback s.next))
    else none
  | .enter k =>
    if s.frames.isEmpty && (s.conn k).connected then some (s.push (.session k)) else none
  | .handshakeConfirmed => s.running.bind s.onCryptoHandshakeEvent
  | .incomingStream =>
    -- the delegate cancels a stream that is not filed yet, so nothing comes of it
    s.running.bind fun k =>
      if (s.conn k).connected then some (s.call k .onIncomingStream) else none
  | .writeBlocked =>
    s.writing.bind fun k => if (s.conn k).connected then some (s.call k .onWriteBlocked) else none
  | .dataAvailable => s.running.map fun k => s.streamOnCan k .onCanRead
  | .canWrite => s.running.map fun k => s.streamOnCan k .onCanWrite
  | .closeStream =>
    s.running.bind fun k =>
      if (s.conn k).preset = .opened then
        some ((s.setConn k { s.conn k with preset := .closed }).push (.streamOnClose k))
      else none
  | .closeConnection => s.running.map s.closeConnection
  | .tearDown => s.writing.map s.tearDownLocalConnectionState
  | .disconnect k => if s.usable k then some (s.closeConnection k) else none
  | .use k => if s.usable k then some (s.push (.session k)) else none
  | .shutdownNext k =>
    if s.frames.head? = some .shutdown ∧ (s.conn k).connected then some (s.closeConnection k)
    else none
  | .ret => s.ret

/-! ## What is true of every state -/

/-- The connection that the event tears down. -/
def tearsDown (e : ServerEvent) : Option ℕ :=
  Option.filter (fun k => (s.conn k).connected) <|
    match e, s.frames with
    | .tearDown, .session k :: _ | .tearDown, .closePacket k :: _ | .tearDown, .streamOnClose k :: _ =>
      some k
    | .ret, .closePacket k :: _ => some k
    | _, _ => none

/-- A connection is torn down after its handshake, and not while its preset stream is being closed. -/
def Orderly (e : ServerEvent) : Prop :=
  ∀ k ∈ s.tearsDown e, (s.conn k).handshaked = true ∧ s.frames.head? ≠ some (.streamOnClose k)

instance (s : Server) (e : ServerEvent) : Decidable (s.Orderly e) :=
  inferInstanceAs (Decidable (∀ k ∈ s.tearsDown e, _))

structure Inv (s : Server) : Prop where
  /-- who is deleted is not heard of again -/
  last : s.log.Pairwise fun new old => old.2 = .deleted → new.1 ≠ old.1
  /-- who is closed is about to be deleted or has been -/
  once : ∀ k, s.log.count (k, .deleted) + s.frames.count (.onDisconnected k) =
    if k < s.next ∧ (s.conn k).connected = false then 1 else 0
  born : ∀ k, (s.conn k).connected = true → k < s.next
  /-- the preset stream does not outlive the connection -/
  stream : ∀ k, (s.conn k).preset = .opened → (s.conn k).connected = true
  /-- a session that runs is connected, or its handshake is over -/
  early : ∀ k, .session k ∈ s.frames → (s.conn k).connected = true ∨ (s.conn k).handshaked = true
  closing : ∀ k, .streamOnClose k ∈ s.frames → (s.conn k).connected = true
  /-- nothing happens on top of a stream that is being closed -/
  top : ∀ k, .streamOnClose k ∉ s.frames.tail

variable {s t : Server} {k : ℕ}

theorem init_inv : init.Inv where
  last := .nil
  once _ := rfl
  born _ h := nomatch h
  stream _ h := nomatch h
  early _ h := nomatch h
  closing _ h := nomatch h
  top _ h := nomatch h

theorem Inv.not_deleted (h : s.Inv) (hk : (s.conn k).connected = true) :
    (k, .deleted) ∉ s.log ∧ .onDisconnected k ∉ s.frames := by
  have ho := h.once k
  simp only [hk, Bool.true_eq_false, and_false, if_false, Nat.add_eq_zero_iff, count_eq_zero] at ho
  exact ho

theorem Inv.call (h : s.Inv) (hk : (s.conn k).connected = true) (c : DelegateCall) :
    (s.call k c).Inv where
  __ := h
  last := by
    refine pairwise_cons.2 ⟨fun e he hd heq => (h.not_deleted hk).1 ?_, h.last⟩
    obtain ⟨j, e⟩ := e
    cases hd; cases heq
    exact he
  once j := (congrArg (· + _) (count_cons_of_ne (by simp))).trans (h.once j)

/-- A frame on top, that is neither a session nor on the way to a deletion. -/
theorem Inv.push {f : ServerFrame} (h : s.Inv) (hd : ∀ k, f ≠ .onDisconnected k)
    (hs : ∀ k, f = .session k → (s.conn k).connected = true ∨ (s.conn k).handshaked = true)
    (hc : ∀ k, f = .streamOnClose k → (s.conn k).connected = true)
    (htop : ∀ k, .streamOnClose k ∉ s.frames) : (s.push f).Inv where
  __ := h
  once j := (congrArg (_ + ·) (count_cons_of_ne (hd j))).trans (h.once j)
  early j hj := (mem_cons.1 hj).elim (fun he => hs j he.symm) (h.early j)
  closing j hj := (mem_cons.1 hj).elim (fun he => hc j he.symm) (h.closing j)
  top := htop

theorem Inv.pop {f : ServerFrame} {fs : List ServerFrame} (h : s.Inv) (hfs : s.frames = f :: fs)
    (hd : ∀ k, f ≠ .onDisconnected k) : { s with frames := fs }.Inv where
  __ := h
  once j := by
    rw [← h.once j, hfs, count_cons_of_ne (hd j)]
  early j hj := h.early j (hfs ▸ .tail _ hj)
  closing j hj := absurd hj (by simpa [hfs] using h.top j)
  top j hj := by
    have := h.top j
    rw [hfs] at this
    exact this (mem_of_mem_tail hj)

/-- A change of the object that leaves the connection as it is. -/
theorem Inv.setConn {c : ServerConn} (h : s.Inv) (hc : c.connected = (s.conn k).connected)
    (hp : c.preset = .opened → c.connected = true)
    (hh : (s.conn k).handshaked = true → c.handshaked = true) : (s.setConn k c).Inv := by
  have hconn : ∀ j, ((s.setConn k c).conn j).connected = (s.conn j).connected := by
    intro j
    rcases eq_or_ne j k with rfl | hne
    · simp [Server.setConn, hc]
    · simp [Server.setConn, hne]
  constructor
  · exact h.last
  · intro j
    rw [hconn]
    exact h.once j
  · intro j
    rw [hconn]
    exact h.born j
  · intro j hj
    rcases eq_or_ne j k with rfl | hne
    · simp only [Server.setConn, update_self] at hj ⊢
      exact hp hj
    · simp only [Server.setConn, update_of_ne hne] at hj ⊢
      exact h.stream j hj
  · intro j hj
    rw [hconn]
    refine (h.early j hj).imp_right fun hj' => ?_
    rcases eq_or_ne j k with rfl | hne
    · simpa [Server.setConn] using hh hj'
    · simpa [Server.setConn, hne] using hj'
  · intro j
    rw [hconn]
    exact h.closing j
  · exact h.top

/-- After the handshake, the object is told of the closed stream and of the closed session, and the
    application is told. -/
theorem tearDown_eq (hc : (s.conn k).connected = true) (hh : (s.conn k).handshaked = true) :
    ∃ p l, p ≠ PresetStream.opened ∧ (∀ e ∈ l, e.1 = k ∧ e.2 ≠ .deleted) ∧
      s.tearDownLocalConnectionState k =
        { s with
          conn := update s.conn k ⟨true, false, p⟩
          frames := .onDisconnected k :: s.frames
          log := l ++ s.log } := by
  rw [tearDownLocalConnectionState, if_pos hc]
  by_cases hp : (s.conn k).preset = .opened
  · refine ⟨.closed, [(k, .called .onClosed), (k, .called .onStreamClosed)], nofun, by simp, ?_⟩
    simp [closeStreams, onClosed, Server.setConn, Server.call, Server.push, hp, hh]
  · refine ⟨(s.conn k).preset, [(k, .called .onClosed)], hp, by simp, ?_⟩
    simp [closeStreams, onClosed, Server.setConn, Server.call, Server.push, hp, hh]

theorem Inv.tearDown (h : s.Inv) (hh : (s.conn k).connected = true → (s.conn k).handshaked = true)
    (htop : ∀ j, .streamOnClose j ∉ s.frames) : (s.tearDownLocalConnectionState k).Inv := by
  by_cases hc : (s.conn k).connected = true
  swap
  · rw [tearDownLocalConnectionState, if_neg hc]; exact h
  obtain ⟨p, l, hp, hl, heq⟩ := tearDown_eq hc (hh hc)
  obtain ⟨hlog, hframes⟩ := h.not_deleted hc
  have hdel : ∀ j, (j, ServerEntry.deleted) ∉ l := fun j hj => (hl _ hj).2 rfl
  rw [heq]
  constructor
  · refine pairwise_append.2 ⟨?_, h.last, fun e he old hold hd hk => ?_⟩
    · refine pairwise_of_forall_mem_list fun _ _ old hold hd => absurd hd (hl old hold).2
    · obtain ⟨j, old⟩ := old
      cases hd
      rw [(hl e he).1] at hk
      exact hlog (hk ▸ hold)
  · intro j
    rw [count_append, count_eq_zero.2 (hdel j), Nat.zero_add]
    have ho := h.once j
    rcases eq_or_ne j k with rfl | hne
    · simp only [hc, Bool.true_eq_false, and_false, if_false] at ho
      simp only [count_cons_self, update_self, h.born j hc, and_self, if_true]
      omega
    · rw [count_cons_of_ne (by simpa using hne.symm)]
      simp only [update_of_ne hne]
      exact ho
  · intro j hj
    rcases eq_or_ne j k with rfl | hne
    · exact h.born j hc
    · simp only [update_of_ne hne] at hj; exact h.born j hj
  · intro j hj
    rcases eq_or_ne j k with rfl | hne
    · simp only [update_self] at hj; exact absurd hj hp
    · simp only [update_of_ne hne] at hj ⊢; exact h.stream j hj
  · intro j hj
    rcases eq_or_ne j k with rfl | hne
    · simp
    · simp only [update_of_ne hne]
      exact h.early j ((mem_cons.1 hj).resolve_left nofun)
  · exact fun j hj => absurd ((mem_cons.1 hj).resolve_left nofun) (htop j)
  · exact htop

theorem Inv.closeConnection (h : s.Inv) (k : ℕ) (htop : ∀ j, .streamOnClose j ∉ s.frames) :
    (s.closeConnection k).Inv := by
  unfold Server.closeConnection
  split
  · exact h.push nofun nofun nofun htop
  · exact h

theorem Inv.streamOnCan (h : s.Inv) (k : ℕ) (c : DelegateCall)
    (htop : ∀ j, .streamOnClose j ∉ s.frames) : (s.streamOnCan k c).Inv := by
  unfold Server.streamOnCan onCan
  split
  · next hp =>
    have hc := h.call (h.stream k hp) c
    split
    · exact hc.push nofun nofun nofun htop
    · exact hc
  · exact h

theorem Inv.onCryptoHandshakeEvent (h : s.Inv) (hk : .session k ∈ s.frames)
    (htop : ∀ j, .streamOnClose j ∉ s.frames) (ht : s.onCryptoHandshakeEvent k = some t) : t.Inv := by
  simp only [Server.onCryptoHandshakeEvent, ite_none_left_eq_some] at ht
  obtain ⟨hh, ht⟩ := ht
  cases ht
  have hc : (s.conn k).connected = true := (h.early k hk).resolve_right hh
  have hp : (s.setConn k { s.conn k with preset := .opened }).Inv := h.setConn rfl (fun _ => hc) id
  have hcall := hp.call (k := k) (by simpa [Server.setConn] using hc) .onHandshaked
  refine Inv.push (Inv.setConn hcall rfl (fun _ => ?_) fun _ => rfl) nofun nofun nofun htop
  simpa [Server.setConn] using hc

theorem Inv.delete {fs : List ServerFrame} (h : s.Inv) (hfs : s.frames = .onDisconnected k :: fs) :
    { s with frames := fs, log := (k, .deleted) :: s.log }.Inv := by
  have ho := h.once k
  rw [hfs, count_cons_self] at ho
  have hlog : (k, .deleted) ∉ s.log := by
    intro hm
    have := count_pos_iff.2 hm
    split at ho <;> omega
  have htop := h.top
  rw [hfs] at htop
  constructor
  · refine pairwise_cons.2 ⟨fun old hold hd hk => ?_, h.last⟩
    obtain ⟨j, old⟩ := old
    cases hd; cases hk
    exact hlog hold
  · intro j
    have hj := h.once j
    rw [hfs] at hj
    rcases eq_or_ne j k with rfl | hne
    · refine .trans ?_ hj
      rw [count_cons_self, count_cons_self]
      dsimp only
      omega
    · rw [count_cons_of_ne (by simpa using hne.symm)] at hj ⊢
      exact hj
  · exact h.born
  · exact h.stream
  · exact fun j hj => h.early j (hfs ▸ .tail _ hj)
  · exact fun j hj => absurd hj (htop j)
  · exact fun j hj => htop j (mem_of_mem_tail hj)

theorem running_some (h : s.running = some k) : ∃ fs, s.frames = .session k :: fs := by
  unfold running at h
  split at h
  · next fs hfs => cases h; exact ⟨fs, hfs⟩
  · cases h

theorem writing_some (h : s.writing = some k) :
    ∃ fs, s.frames = .session k :: fs ∨ s.frames = .closePacket k :: fs ∨
      s.frames = .streamOnClose k :: fs := by
  unfold writing at h
  split at h
  · next fs hfs => cases h; exact ⟨fs, .inl hfs⟩
  · next fs hfs => cases h; exact ⟨fs, .inr (.inl hfs)⟩
  · next fs hfs => cases h; exact ⟨fs, .inr (.inr hfs)⟩
  · cases h

theorem Inv.no_stream (h : s.Inv) (hd : ∀ j, s.frames.head? ≠ some (.streamOnClose j)) (j : ℕ) :
    .streamOnClose j ∉ s.frames := by
  intro hm
  cases hfs : s.frames with
  | nil => rw [hfs] at hm; cases hm
  | cons f fs =>
    have htop := h.top j
    rw [hfs] at hd htop hm
    rcases mem_cons.1 hm with rfl | hm
    · exact hd j rfl
    · exact htop hm

theorem no_stream_of_inApp (h : s.inApp = true) (j : ℕ) : s.frames.head? ≠ some (.streamOnClose j) := by
  unfold inApp at h
  split at h
  · next hfs => rw [hfs]; nofun
  · next hfs => rw [hfs]; nofun
  · next hfs => rw [hfs]; nofun
  · cases h

theorem Inv.ret (h : s.Inv) (hC : s.Orderly .ret) (ht : s.ret = some t) : t.Inv := by
  unfold Server.ret at ht
  split at ht
  · cases ht
  · next hfs => cases ht; exact h.pop hfs nofun
  · next hfs => cases ht; exact h.pop hfs nofun
  · next k fs hfs =>
    cases ht
    have htop := h.top
    rw [hfs] at htop
    refine (h.pop hfs nofun).tearDown (fun hk => ?_) htop
    exact (hC k (by simpa [tearsDown, hfs] using hk)).1
  · next k fs hfs =>
    cases ht
    exact (h.pop hfs nofun).call (h.closing k (hfs ▸ .head _)) .onStreamClosed
  · next hfs => cases ht; exact h.delete hfs
  · next hfs =>
    rw [ite_none_left_eq_some] at ht
    obtain ⟨-, ht⟩ := ht
    cases ht
    exact ⟨(h.pop hfs nofun).last, (h.pop hfs nofun).once, h.born, h.stream, (h.pop hfs nofun).early,
      (h.pop hfs nofun).closing, (h.pop hfs nofun).top⟩

theorem Inv.newSession (h : s.Inv) (hfs : s.frames = []) :
    (({ s with next := s.next + 1 }.setConn s.next ⟨false, true, .absent⟩).push
      (.callback s.next)).Inv := by
  have hi : ({ s with next := s.next + 1 }.setConn s.next ⟨false, true, .absent⟩).Inv := by
    constructor
    · exact h.last
    · intro j
      have ho := h.once j
      rcases eq_or_ne j s.next with rfl | hne
      · simpa [Server.setConn] using ho
      · have hlt : j < s.next + 1 ↔ j < s.next := by omega
        simpa [Server.setConn, hne, hlt] using ho
    · intro j hj
      rcases eq_or_ne j s.next with rfl | hne
      · exact Nat.lt_succ_self _
      · simp only [Server.setConn, update_of_ne hne] at hj
        exact Nat.lt_succ_of_lt (h.born j hj)
    · intro j hj
      rcases eq_or_ne j s.next with rfl | hne
      · simp [Server.setConn]
      · simp only [Server.setConn, update_of_ne hne] at hj ⊢
        exact h.stream j hj
    all_goals
      intro j hj
      simp [Server.setConn, hfs] at hj
  exact hi.push nofun nofun nofun (by simp [Server.setConn, hfs])

theorem step_inv {e : ServerEvent} (h : s.Inv) (hC : s.Orderly e) (ht : s.step e = some t) : t.Inv := by
  cases e with
  | start =>
    simp only [step, ite_none_right_eq_some] at ht
    obtain ⟨-, ht⟩ := ht
    cases ht
    exact ⟨h.last, h.once, h.born, h.stream, h.early, h.closing, h.top⟩
  | stop =>
    simp only [step, ite_none_right_eq_some, Bool.and_eq_true, List.isEmpty_iff] at ht
    obtain ⟨⟨hfs, -⟩, ht⟩ := ht
    cases ht
    exact h.push nofun nofun nofun (by simp [hfs])
  | newSession =>
    simp only [step, ite_none_right_eq_some, Bool.and_eq_true, List.isEmpty_iff] at ht
    obtain ⟨⟨hfs, -⟩, ht⟩ := ht
    cases ht
    exact h.newSession hfs
  | enter k =>
    simp only [step, ite_none_right_eq_some, Bool.and_eq_true, List.isEmpty_iff] at ht
    obtain ⟨⟨hfs, hk⟩, ht⟩ := ht
    cases ht
    exact h.push nofun (by rintro _ ⟨⟩; exact .inl hk) nofun (by simp [hfs])
  | handshakeConfirmed =>
    obtain ⟨k, hk, ht⟩ := bind_eq_some_iff.1 ht
    obtain ⟨fs, hfs⟩ := running_some hk
    exact h.onCryptoHandshakeEvent (hfs ▸ .head _) (h.no_stream (by simp [hfs])) ht
  | incomingStream =>
    obtain ⟨k, -, ht⟩ := bind_eq_some_iff.1 ht
    obtain ⟨hk, ht⟩ := ite_none_right_eq_some.1 ht
    cases ht
    exact h.call hk _
  | writeBlocked =>
    obtain ⟨k, -, ht⟩ := bind_eq_some_iff.1 ht
    obtain ⟨hk, ht⟩ := ite_none_right_eq_some.1 ht
    cases ht
    exact h.call hk _
  | dataAvailable | canWrite =>
    obtain ⟨k, hk, rfl⟩ := map_eq_some_iff.1 ht
    obtain ⟨fs, hfs⟩ := running_some hk
    exact h.streamOnCan k _ (h.no_stream (by simp [hfs]))
  | closeStream =>
    obtain ⟨k, hk, ht⟩ := bind_eq_some_iff.1 ht
    obtain ⟨hp, ht⟩ := ite_none_right_eq_some.1 ht
    cases ht
    obtain ⟨fs, hfs⟩ := running_some hk
    have hi : (s.setConn k { s.conn k with preset := .closed }).Inv := h.setConn rfl nofun id
    refine hi.push nofun nofun ?_ (h.no_stream (by simp [hfs]))
    rintro _ ⟨⟩
    simpa [Server.setConn] using h.stream k hp
  | closeConnection =>
    obtain ⟨k, hk, rfl⟩ := map_eq_some_iff.1 ht
    obtain ⟨fs, hfs⟩ := running_some hk
    exact h.closeConnection k (h.no_stream (by simp [hfs]))
  | tearDown =>
    obtain ⟨k, hk, rfl⟩ := map_eq_some_iff.1 ht
    by_cases hc : (s.conn k).connected = true
    · have htd : s.tearsDown .tearDown = some k := by
        obtain ⟨fs, hfs | hfs | hfs⟩ := writing_some hk <;> simp [tearsDown, hfs, hc]
      obtain ⟨hh, hd⟩ := hC k htd
      refine h.tearDown (fun _ => hh) (h.no_stream fun j hj => hd ?_)
      obtain ⟨fs, hfs | hfs | hfs⟩ := writing_some hk <;> rw [hfs] at hj ⊢ <;> cases hj
      rfl
    · rw [tearDownLocalConnectionState, if_neg hc]; exact h
  | disconnect k =>
    simp only [step, ite_none_right_eq_some, usable, Bool.and_eq_true] at ht
    obtain ⟨⟨⟨hin, -⟩, -⟩, ht⟩ := ht
    cases ht
    exact h.closeConnection k (h.no_stream (no_stream_of_inApp hin))
  | use k =>
    simp only [step, ite_none_right_eq_some, usable, Bool.and_eq_true] at ht
    obtain ⟨⟨⟨hin, hh⟩, -⟩, ht⟩ := ht
    cases ht
    exact h.push nofun (by rintro _ ⟨⟩; exact .inr hh) nofun (h.no_stream (no_stream_of_inApp hin))
  | shutdownNext k =>
    simp only [step, ite_none_right_eq_some] at ht
    obtain ⟨⟨hd, -⟩, ht⟩ := ht
    cases ht
    exact h.closeConnection k (h.no_stream (by rw [hd]; nofun))
  | ret => exact h.ret hC ht

/-- **A `PuicServerConn` is deleted once**, when its session is closed, and is not called after that:
    in every run in which connections are torn down after their handshake, and not by a packet that
    the closing of their preset stream sends. -/
theorem released_once {es : List ServerEvent} (hC : Machine.Along step Orderly init es)
    (hrun : Machine.run step init es = some s) :
    (∀ k < s.next, s.log.count (k, .deleted) =
      if (s.conn k).connected ∨ .onDisconnected k ∈ s.frames then 0 else 1) ∧
    ∀ k l₁ l₂, s.log = l₁ ++ (k, .deleted) :: l₂ → ∀ e ∈ l₁, e.1 ≠ k := by
  have h : s.Inv := Machine.run_inv_along (fun s e s' h hC hs => step_inv h hC hs) init_inv hC hrun
  refine ⟨fun k hk => ?_, fun k l₁ l₂ hl e he => ?_⟩
  · have ho := h.once k
    cases hc : (s.conn k).connected with
    | true => simpa [count_eq_zero] using (h.not_deleted hc).1
    | false =>
      simp only [hk, hc, and_self, if_true] at ho
      by_cases hm : .onDisconnected k ∈ s.frames
      · have := count_pos_iff.2 hm
        simp only [hm, or_true, if_true]
        omega
      · rw [count_eq_zero.2 hm] at ho
        simpa [hm] using ho
  · have hl' := h.last
    rw [hl] at hl'
    exact (pairwise_append.1 hl').2.2 e he _ (.head _) rfl

/-- A connection that is accepted, and disconnected inside `OnAccept`. -/
def acceptRun : List ServerEvent :=
  [.start, .newSession, .ret, .enter 0, .handshakeConfirmed, .disconnect 0, .writeBlocked, .ret,
    .ret, .ret, .ret]

theorem released_once_accept : ∃ s, Machine.run step init acceptRun = some s ∧
    s.frames = [] ∧ s.log.count (0, .deleted) = 1 ∧
    ((∀ k < s.next, s.log.count (k, .deleted) =
      if (s.conn k).connected ∨ .onDisconnected k ∈ s.frames then 0 else 1) ∧
    ∀ k l₁ l₂, s.log = l₁ ++ (k, .deleted) :: l₂ → ∀ e ∈ l₁, e.1 ≠ k) := by
  refine ⟨_, rfl, rfl, rfl, @released_once _ acceptRun ?_ rfl⟩
  decide +kernel

/-- A handshake that times out leaves its object behind; and when the reset of the preset stream is
    answered with a packet that the socket refuses, the object is called after its deletion. -/
theorem leaked_and_called :
    (∃ s, Machine.run step init
        [.start, .newSession, .ret, .enter 0, .closeConnection, .ret, .ret] = some s ∧
      s.frames = [] ∧ (s.conn 0).connected = false ∧ s.log.count (0, .deleted) = 0) ∧
    ∃ s, Machine.run step init
        [.start, .newSession, .ret, .enter 0, .handshakeConfirmed, .ret, .closeStream, .tearDown,
          .ret, .ret] = some s ∧
      ∃ l, s.log = (0, .called .onStreamClosed) :: (0, .deleted) :: l :=
  ⟨⟨_, rfl, rfl, rfl, rfl⟩, _, rfl, _, rfl⟩

end Server
end Puic
