/-
  The pool of send requests in front of the UDP socket (puic_client.cc,
  puic_server.cc: `PuicDialer` and `PuicListener` hold the same members and the
  same code for them).

  A fixed number of `uv_udp_send_t` requests is allocated by the constructor.
  `WritePacket` pops one, hands it to libuv and leaves it there until libuv calls
  `on_uv_send`, which pushes it back; when the stack is empty the shared flag
  `m_writeBlocked` is raised, and `on_uv_send` clears it when every request is
  back.  The socket can be closed and opened again: requests still flying on a
  closed socket are freed on completion.

  libuv is modelled by the list `flying` of accepted and not yet completed
  sends; its answer to `uv_udp_send` is an argument.
-/
import Mathlib.Data.Int.Notation
import Mathlib.Data.List.Perm.Basic
import Puic.Lib.Run

namespace Puic

/-- `PuicDialer::MaxFlyingMessages`, `PuicListener::MaxFlyingMessages`. -/
def maxFlyingMessages : ℕ := 1024

/-- `EWOULDBLOCK`. -/
def ewouldblock : ℤ := 11

/-- `WriteResult`: its status, with the byte count or the error code. -/
inductive WriteResult where
  | ok (bytesWritten : ℕ)
  | blocked (errorCode : ℤ)
  | error (errorCode : ℤ)
deriving Repr, DecidableEq

/-- A send that libuv has accepted and not completed: the request, the socket handle it was
    given to and the bytes copied into it. -/
structure Flying where
  req : ℕ
  handle : ℕ
  data : List UInt8
deriving Repr, DecidableEq

/-- The sending part of a dialer or listener.  `started` says that `m_cryptoConfig` (dialer) or
    `m_puicDispatcher` (listener) is set.  Handles are numbered in the order in which they are
    opened; a handle other than `socket` has been passed to `uv_close`. -/
structure SendPool where
  started : Bool
  socket : Option ℕ
  sockets : ℕ
  availSendReqs : List ℕ
  writeBlocked : Bool
  flying : List Flying
  /-- the socket is open exactly while the endpoint is started -/
  opened : socket.isSome = started
  /-- packets are only let through while the endpoint is started -/
  unblocked : writeBlocked = false → started = true
  /-- while writers are blocked, some request is not on the stack -/
  waiting : started = true → writeBlocked = true → availSendReqs.length < maxFlyingMessages
  /-- the next handle is a new one -/
  fresh : (∀ h ∈ socket, h < sockets) ∧ ∀ f ∈ flying, f.handle < sockets

namespace SendPool

/-- The constructor: every request is on the stack, the last one pushed on top. -/
def init : SendPool where
  started := false
  socket := none
  sockets := 0
  availSendReqs := (List.range maxFlyingMessages).reverse
  writeBlocked := true
  flying := []
  opened := rfl
  unblocked := by simp
  waiting := by simp
  fresh := by simp

variable (p : SendPool)

/-- `start`: `bound` says whether `uv_udp_bind` and `uv_udp_recv_start` succeed.  When they
    fail, the new handle is closed at once. -/
def start (bound : Bool) : SendPool :=
  if hs : p.started then p
  else if bound then
    { p with
      started := true
      socket := some p.sockets
      sockets := p.sockets + 1
      writeBlocked := false
      opened := rfl
      unblocked := fun _ => rfl
      waiting := by simp
      fresh := ⟨by simp, fun f hf => Nat.lt_succ_of_lt (p.fresh.2 f hf)⟩ }
  else
    { p with
      socket := none
      sockets := p.sockets + 1
      opened := by simpa using hs
      fresh := ⟨by simp, fun f hf => Nat.lt_succ_of_lt (p.fresh.2 f hf)⟩ }

/-- `stop`, as far as the pool is concerned. -/
def stop : SendPool :=
  if p.started then
    { p with
      started := false
      socket := none
      writeBlocked := true
      opened := rfl
      unblocked := by simp
      waiting := by simp
      fresh := ⟨by simp, p.fresh.2⟩ }
  else p

/-- `m_socket`, which is set whenever a packet is let through. -/
def handle (h : p.writeBlocked = false) : ℕ :=
  p.socket.get (p.opened.trans (p.unblocked h))

/-- `uv_is_closing`. -/
def isClosing (handle : ℕ) : Bool := p.socket != some handle

theorem handle_lt (p : SendPool) (h : p.writeBlocked = false) : p.handle h < p.sockets :=
  p.fresh.1 _ (Option.get_mem _)

theorem started_of_not_closing (p : SendPool) {handle : ℕ} (h : ¬ p.isClosing handle) :
    p.started = true := by
  have : p.socket = some handle := by simpa [isClosing] using h
  simpa [this] using p.opened.symm

/-- `WritePacket`, where `r` is what `uv_udp_send` returns if it is called.  On an error the
    request is neither on the stack nor with libuv any more. -/
def writePacket (data : List UInt8) (r : ℤ) : SendPool × WriteResult :=
  if h : p.writeBlocked = false then
    match ha : p.availSendReqs with
    | [] =>
      ({ p with
        writeBlocked := true
        unblocked := by simp
        waiting := by simp [ha, maxFlyingMessages] }, .blocked ewouldblock)
    | req :: rest =>
      if r < 0 then
        ({ p with
          availSendReqs := rest
          waiting := by simp [h] }, .error r)
      else
        ({ p with
          availSendReqs := rest
          flying := p.flying ++ [⟨req, p.handle h, data⟩]
          waiting := by simp [h]
          fresh := ⟨p.fresh.1, by
            intro f hf
            rcases List.mem_append.1 hf with hf | hf
            · exact p.fresh.2 f hf
            · rw [List.mem_singleton.1 hf]; exact p.handle_lt h⟩ }, .ok data.length)
  else (p, .blocked ewouldblock)

/-- `on_uv_send` for the `i`-th flying request; the flag says whether the blocked writers are
    woken up.  A request that comes back from a closed socket is freed. -/
def onUvSend (i : ℕ) : Option (SendPool × Bool) :=
  p.flying[i]?.map fun f =>
    let p' : SendPool :=
      { p with
        flying := p.flying.eraseIdx i
        fresh := ⟨p.fresh.1, fun f hf => p.fresh.2 f (List.mem_of_mem_eraseIdx hf)⟩ }
    if hc : p.isClosing f.handle then (p', false)
    else
      let avail := f.req :: p.availSendReqs
      if hm : p.writeBlocked = true ∧ avail.length = maxFlyingMessages then
        ({ p' with
          availSendReqs := avail
          writeBlocked := false
          unblocked := fun _ => p.started_of_not_closing hc
          waiting := by simp }, true)
      else
        ({ p' with
          availSendReqs := avail
          waiting := fun hs hb => by
            have hlt := p.waiting hs hb
            have hne : avail.length ≠ maxFlyingMessages := fun he => hm ⟨hb, he⟩
            simp only [avail, List.length_cons] at hne ⊢; omega }, false)

/-! ## Accounting -/

/-- The requests handed to `uv_udp_send` on the current socket and not yet completed. -/
def inFlight : ℕ := p.flying.countP fun f => !p.isClosing f.handle

/-- The requests that are on the stack or will come back to it. -/
def units : ℕ := p.availSendReqs.length + p.inFlight

/-- The call to `uv_udp_send` that `WritePacket` makes in `p` is rejected. -/
def Rejects (r : ℤ) : Prop :=
  p.writeBlocked = false ∧ p.availSendReqs ≠ [] ∧ r < 0

instance (p : SendPool) (r : ℤ) : Decidable (p.Rejects r) := by
  unfold Rejects; infer_instance

variable {p q : SendPool} {data : List UInt8} {r : ℤ} {i : ℕ} {w : Bool}

theorem inFlight_stopped (h : p.started = false) : p.inFlight = 0 := by
  have hs : p.socket = none := by simpa [h] using p.opened
  simp [inFlight, isClosing, hs]

/-- What a `WritePacket` does: it finds the flag raised, raises it, loses a request to a
    rejected send, or sends. -/
theorem writePacket_cases (p : SendPool) (data : List UInt8) (r : ℤ) :
    (p.writeBlocked = true ∧ p.writePacket data r = (p, .blocked ewouldblock)) ∨
    (p.writeBlocked = false ∧ p.availSendReqs = [] ∧
      ∃ q, p.writePacket data r = (q, .blocked ewouldblock) ∧ q.writeBlocked = true ∧
        q.started = p.started ∧ q.socket = p.socket ∧ q.availSendReqs = [] ∧
        q.flying = p.flying) ∨
    (p.Rejects r ∧
      ∃ q, p.writePacket data r = (q, .error r) ∧ q.writeBlocked = false ∧
        q.started = p.started ∧ q.socket = p.socket ∧
        q.availSendReqs = p.availSendReqs.tail ∧ q.flying = p.flying) ∨
    (∃ h : p.writeBlocked = false, ∃ req rest, p.availSendReqs = req :: rest ∧ ¬ r < 0 ∧
      ∃ q, p.writePacket data r = (q, .ok data.length) ∧ q.writeBlocked = false ∧
        q.started = p.started ∧ q.socket = p.socket ∧ q.availSendReqs = rest ∧
        q.flying = p.flying ++ [⟨req, p.handle h, data⟩]) := by
  rcases Bool.eq_false_or_eq_true p.writeBlocked with hb | hb
  · exact .inl ⟨hb, by simp [writePacket, hb]⟩
  refine .inr ?_
  unfold writePacket Rejects
  simp only [hb, ↓reduceDIte]
  split
  · next ha => exact .inl ⟨trivial, ha, _, rfl, rfl, rfl, rfl, ha, rfl⟩
  · next req rest ha =>
    refine .inr ?_
    by_cases hr : r < 0
    · rw [if_pos hr]
      exact .inl ⟨⟨trivial, by simp [ha], hr⟩, _, rfl, rfl, rfl, rfl, by simp [ha], rfl⟩
    · rw [if_neg hr]
      exact .inr ⟨trivial, req, rest, ha, hr, _, rfl, rfl, rfl, rfl, rfl, rfl⟩

@[simp] theorem isClosing_handle (p : SendPool) (h : p.writeBlocked = false) :
    p.isClosing (p.handle h) = false := by
  simp [isClosing, handle]

theorem isClosing_congr (hs : q.socket = p.socket) (handle : ℕ) :
    q.isClosing handle = p.isClosing handle := by
  simp [isClosing, hs]

theorem writePacket_units (p : SendPool) (data : List UInt8) (r : ℤ) :
    (p.writePacket data r).1.units + (if p.Rejects r then 1 else 0) = p.units := by
  rcases p.writePacket_cases data r with ⟨hb, he⟩ | ⟨hb, ha, q, he, -, -, hs, hq, hf⟩ |
    ⟨hr, q, he, -, -, hs, hq, hf⟩ | ⟨hb, req, rest, ha, hr, q, he, -, -, hs, hq, hf⟩
  · simp [he, Rejects, hb]
  · simp [he, Rejects, ha, units, inFlight, isClosing_congr hs, hq, hf]
  · obtain ⟨req, rest, ha⟩ := List.exists_cons_of_ne_nil hr.2.1
    simp only [he, hr, ↓reduceIte, units, inFlight, isClosing_congr hs, hq, hf, ha, List.tail_cons,
      List.length_cons]
    omega
  · have hnr : ¬ p.Rejects r := fun h => hr h.2.2
    simp only [he, hnr, ↓reduceIte, units, inFlight, isClosing_congr hs, hq, hf, ha,
      List.countP_append, List.countP_singleton, isClosing_handle, List.length_cons, Bool.not_false]
    omega

/-- A write that may not be made at all. -/
theorem units_of_write (p : SendPool) (allowed : Bool) (data : List UInt8) (r : ℤ) :
    (if allowed then (p.writePacket data r).1 else p).units ≤ p.units ∧
      ((if allowed then (p.writePacket data r).1 else p).units = p.units ↔
        ¬(allowed = true ∧ p.Rejects r)) := by
  cases allowed with
  | false => simp
  | true =>
    have hu := p.writePacket_units data r
    rw [if_pos rfl]
    by_cases hr : p.Rejects r
    · rw [if_pos hr] at hu
      exact ⟨by omega, iff_of_false (by omega) fun h => h ⟨rfl, hr⟩⟩
    · rw [if_neg hr] at hu
      exact ⟨by omega, iff_of_true hu fun h => hr h.2⟩

@[simp] theorem writePacket_started (p : SendPool) (data : List UInt8) (r : ℤ) :
    (p.writePacket data r).1.started = p.started := by
  rcases p.writePacket_cases data r with ⟨-, he⟩ | ⟨-, -, q, he, -, hs, -⟩ |
    ⟨-, q, he, -, hs, -⟩ | ⟨-, _, _, -, -, q, he, -, hs, -⟩ <;> simp [*]

/-- A write that reports BLOCKED leaves the shared flag raised. -/
theorem writePacket_blocked {e : ℤ}
    (h : (p.writePacket data r).2 = .blocked e) : (p.writePacket data r).1.writeBlocked = true := by
  rcases p.writePacket_cases data r with ⟨hb, he⟩ | ⟨-, -, q, he, hb, -⟩ |
    ⟨-, q, he, -⟩ | ⟨-, _, _, -, -, q, he, -⟩ <;> simp_all

theorem writePacket_not_blocked
    (h : ∀ e, (p.writePacket data r).2 = .blocked e → False) :
    (p.writePacket data r).1.writeBlocked = p.writeBlocked := by
  rcases p.writePacket_cases data r with ⟨-, he⟩ | ⟨-, -, q, he, -⟩ |
    ⟨hr, q, he, hb, -⟩ | ⟨hb', _, _, -, -, q, he, hb, -⟩
  · exact absurd (by rw [he]) (h ewouldblock)
  · exact absurd (by rw [he]) (h ewouldblock)
  · rw [he]; exact hb.trans hr.1.symm
  · rw [he]; exact hb.trans hb'.symm

theorem writePacket_writeBlocked (data : List UInt8) (r : ℤ)
    (h : p.writeBlocked = true) : p.writePacket data r = (p, .blocked ewouldblock) := by
  simp [writePacket, h]

/-- What an `on_uv_send` does: the request is freed, or pushed back, or it is the last one that
    the blocked writers wait for. -/
theorem onUvSend_cases (h : p.onUvSend i = some (q, w)) :
    ∃ f, p.flying[i]? = some f ∧ q.flying = p.flying.eraseIdx i ∧ q.started = p.started ∧
      q.socket = p.socket ∧
      ((p.isClosing f.handle = true ∧ w = false ∧ q.writeBlocked = p.writeBlocked ∧
          q.availSendReqs = p.availSendReqs) ∨
        (p.isClosing f.handle = false ∧ q.availSendReqs = f.req :: p.availSendReqs ∧
          ((w = true ∧ p.writeBlocked = true ∧ q.writeBlocked = false) ∨
            (w = false ∧ q.writeBlocked = p.writeBlocked)))) := by
  obtain ⟨f, hf, he⟩ := Option.map_eq_some_iff.1 h
  refine ⟨f, hf, ?_⟩
  rcases Bool.eq_false_or_eq_true (p.isClosing f.handle) with hc | hc
  · simp only [hc, ↓reduceDIte, Prod.mk.injEq] at he
    obtain ⟨rfl, rfl⟩ := he
    exact ⟨rfl, rfl, rfl, .inl ⟨hc, rfl, rfl, rfl⟩⟩
  · simp only [hc, Bool.false_eq_true, ↓reduceDIte] at he
    split at he
    · next hm =>
      obtain ⟨rfl, rfl⟩ := he
      exact ⟨rfl, rfl, rfl, .inr ⟨hc, rfl, .inl ⟨rfl, hm.1, rfl⟩⟩⟩
    · simp only [Prod.mk.injEq] at he
      obtain ⟨rfl, rfl⟩ := he
      exact ⟨rfl, rfl, rfl, .inr ⟨hc, rfl, .inr ⟨rfl, rfl⟩⟩⟩

theorem onUvSend_wakes (h : p.onUvSend i = some (q, w)) :
    q.started = p.started ∧
      (q.writeBlocked = p.writeBlocked ∧ w = false ∨ q.writeBlocked = false ∧ w = true) := by
  obtain ⟨f, -, -, hst, -, ⟨-, hw, hb, -⟩ | ⟨-, -, ⟨hw, -, hb⟩ | ⟨hw, hb⟩⟩⟩ := onUvSend_cases h
  · exact ⟨hst, .inl ⟨hb, hw⟩⟩
  · exact ⟨hst, .inr ⟨hb, hw⟩⟩
  · exact ⟨hst, .inl ⟨hb, hw⟩⟩

theorem countP_eraseIdx {α : Type*} (P : α → Bool) {l : List α} {a : α}
    (h : l[i]? = some a) : (l.eraseIdx i).countP P + (if P a then 1 else 0) = l.countP P := by
  obtain ⟨hi, rfl⟩ := List.getElem?_eq_some_iff.1 h
  have hp : l.Perm (l[i] :: l.eraseIdx i) := (List.getElem_cons_eraseIdx_perm hi).symm
  rw [hp.countP_eq, List.countP_cons]

theorem onUvSend_units (h : p.onUvSend i = some (q, w)) : q.units = p.units := by
  obtain ⟨f, hf, hfl, -, hs, ⟨hc, -, -, ha⟩ | ⟨hc, ha, -⟩⟩ := onUvSend_cases h
  all_goals
    have hn := countP_eraseIdx (fun f => !p.isClosing f.handle) hf
    simp only [hc, units, inFlight, isClosing_congr hs, hfl, ha, List.length_cons, Bool.not_true,
      Bool.not_false, Bool.false_eq_true, ↓reduceIte] at hn ⊢
    omega

@[simp] theorem start_started (p : SendPool) (bound : Bool) :
    (p.start bound).started = (p.started || bound) := by
  unfold start
  split
  · simp [*]
  · cases bound <;> simp_all

theorem start_units (p : SendPool) (bound : Bool) : (p.start bound).units = p.units := by
  rcases Bool.eq_false_or_eq_true p.started with hs | hs
  · simp [start, hs]
  have ha : (p.start bound).availSendReqs = p.availSendReqs := by
    cases bound <;> simp [start, hs]
  have hf : (p.start bound).inFlight = 0 := by
    cases bound with
    | false => exact inFlight_stopped (by simp [hs])
    | true =>
      simp only [start, hs, inFlight, isClosing, Bool.false_eq_true, ↓reduceDIte, ↓reduceIte,
        List.countP_eq_zero]
      intro f hf
      have := p.fresh.2 f hf
      simp only [ne_eq, Option.some.injEq, Bool.not_eq_true', bne_eq_false_iff_eq]
      omega
  rw [units, units, ha, hf, inFlight_stopped hs]

@[simp] theorem stop_started (p : SendPool) : p.stop.started = false := by
  unfold stop; split <;> simp_all

/-- Closing the socket gives up the requests that are in flight on it. -/
theorem stop_units (p : SendPool) : p.stop.units + p.inFlight = p.units := by
  have ha : p.stop.availSendReqs = p.availSendReqs := by unfold stop; split <;> rfl
  rw [units, units, ha, inFlight_stopped p.stop_started]; omega

/-! ## What the accounting is for -/

/-- Every request is on the stack or in flight on the current socket. -/
def Conserved (p : SendPool) : Prop := p.availSendReqs.length + p.inFlight = maxFlyingMessages

/-- One completion. -/
def complete (p : SendPool) (i : ℕ) : Option SendPool := (p.onUvSend i).map Prod.fst

/-- Completing the sends in flight on the current socket, in any order, clears the flag. -/
def Recovers (p : SendPool) : Prop :=
  p.writeBlocked = true → ∀ is q, Machine.run complete p is = some q → q.inFlight = 0 →
    q.writeBlocked = false

theorem complete_units (h : p.complete i = some q) : q.units = p.units ∧ q.started = p.started := by
  obtain ⟨⟨q', w⟩, hu, rfl⟩ := Option.map_eq_some_iff.1 h
  obtain ⟨-, -, -, hs, -⟩ := onUvSend_cases hu
  exact ⟨onUvSend_units hu, hs⟩

theorem Conserved.recovers (hs : p.started = true) (hp : p.Conserved) : p.Recovers := by
  intro _ is q hrun hq
  obtain ⟨hu, hsq⟩ : q.units = p.units ∧ q.started = p.started :=
    Machine.run_inv (I := fun x => x.units = p.units ∧ x.started = p.started)
      (fun _ _ _ hx h => ⟨(complete_units h).1.trans hx.1, (complete_units h).2.trans hx.2⟩)
      ⟨rfl, rfl⟩ hrun
  have hfull : q.availSendReqs.length = maxFlyingMessages := by
    have : p.units = maxFlyingMessages := hp
    simp only [units, hq] at hu this; omega
  by_contra hb
  have := q.waiting (hsq.trans hs) (by simpa using hb)
  omega

/-- For a machine that accounts for its requests, an open pool is complete, and recovers from
    every blockage, exactly as long as no action has taken a request out of circulation. -/
theorem conserved_iff_along {S A : Type*} {step : S → A → Option S} (pool : S → SendPool)
    {I : S → Prop} {C : S → A → Prop}
    (hstep : ∀ s a s', I s → step s a = some s' →
      I s' ∧ (pool s').units ≤ (pool s).units ∧ ((pool s').units = (pool s).units ↔ C s a))
    {s t : S} {as : List A} (hI : I s) (hu : (pool s).units = maxFlyingMessages)
    (h : Machine.run step s as = some t) (ho : (pool t).socket.isSome) :
    (pool t).Conserved ∧ (pool t).Recovers ↔ Machine.Along step C s as := by
  obtain ⟨-, hAlong⟩ := Machine.run_const_iff hstep hI h
  have hs : (pool t).started = true := by rw [← (pool t).opened]; exact ho
  rw [← hAlong, hu]
  exact ⟨fun h => h.1, fun hc => ⟨hc, Conserved.recovers hs hc⟩⟩

/-- `on_uv_send` of an endpoint, which does not run during a wake-up pass. -/
theorem onUvSend_eq {S : Type*} {e : SendPool → Bool → S} {waking : Bool} {s' : S}
    (h : (if waking then none else (p.onUvSend i).map fun w => e w.1 w.2) = some s') :
    waking = false ∧ ∃ q w, p.onUvSend i = some (q, w) ∧ s' = e q w := by
  split at h
  case isTrue => cases h
  case isFalse hw =>
    obtain ⟨⟨q, w⟩, hq, rfl⟩ := Option.map_eq_some_iff.1 h
    exact ⟨by simpa using hw, q, w, hq, rfl⟩

theorem init_units : init.units = maxFlyingMessages := by
  rw [units, inFlight_stopped rfl]; simp [init]

section Fill

open List

variable {S A : Type*} {step : S → A → Option S} {a : A}

/-- A machine that goes on writing uses up the stack, and is turned away then. -/
theorem exists_run_full {e e' : SendPool → S}
    (hok : ∀ p q, writePacket p data 0 = (q, .ok data.length) → step (e p) a = some (e q))
    (hfull : ∀ p q, writePacket p data 0 = (q, .blocked ewouldblock) →
      step (e p) a = some (e' q)) (hb : p.writeBlocked = false) :
    ∃ n q, Machine.run step (e p) (replicate n a) = some (e' q) ∧ q.writeBlocked = true ∧
      q.started = p.started ∧ q.units = p.units := by
  have hrejects : ∀ p : SendPool, ¬p.Rejects 0 := fun p h => absurd h.2.2 (Int.lt_irrefl 0)
  have hunits : ∀ p q r, writePacket p data 0 = (q, r) → q.units = p.units := by
    intro p q r he
    have hu := p.writePacket_units data 0
    rwa [he, if_neg (hrejects p)] at hu
  induction hn : p.availSendReqs.length generalizing p with
  | zero =>
    have ha : p.availSendReqs = [] := length_eq_zero_iff.1 hn
    rcases p.writePacket_cases data 0 with ⟨hb', -⟩ | ⟨-, -, q, he, hq, hs, -⟩ | ⟨hr, -⟩ |
      ⟨-, req, rest, ha', -⟩
    · simp [hb] at hb'
    · exact ⟨1, q, Machine.run_cons.2 ⟨_, hfull p q he, rfl⟩, hq, hs, hunits p q _ he⟩
    · exact absurd hr (hrejects p)
    · simp [ha] at ha'
  | succ n ih =>
    rcases p.writePacket_cases data 0 with ⟨hb', -⟩ | ⟨-, ha, -⟩ | ⟨hr, -⟩ |
      ⟨-, req, rest, ha, -, q, he, hq, hs, -, hrest, -⟩
    · simp [hb] at hb'
    · simp [ha] at hn
    · exact absurd hr (hrejects p)
    · have hlen : q.availSendReqs.length = n := by
        rw [ha, length_cons] at hn
        rw [hrest]
        omega
      obtain ⟨m, q', hrun, hb', hs', hu'⟩ := ih hq hlen
      exact ⟨m + 1, q', Machine.run_cons.2 ⟨_, hok p q he, hrun⟩, hb', hs'.trans hs,
        hu'.trans (hunits p q _ he)⟩

/-- Completed sends wake up the blocked writers of a complete pool. -/
theorem exists_run_wakes {e : SendPool → Bool → S}
    (hstep : ∀ p q w, p.onUvSend 0 = some (q, w) → step (e p false) a = some (e q w))
    (hs : p.started = true) (hb : p.writeBlocked = true) (hu : p.units = maxFlyingMessages) :
    ∃ n q, Machine.run step (e p false) (replicate n a) = some (e q true) ∧
      q.writeBlocked = false ∧ q.started = true ∧ q.units = maxFlyingMessages := by
  induction hn : p.flying.length generalizing p with
  | zero =>
    have hlt := p.waiting hs hb
    have hnil : p.flying = [] := length_eq_zero_iff.1 hn
    simp [units, inFlight, hnil] at hu
    omega
  | succ n ih =>
    obtain ⟨f, rest, hf⟩ := exists_cons_of_length_eq_add_one hn
    obtain ⟨⟨q, w⟩, hq⟩ : ∃ r, p.onUvSend 0 = some r := by
      simp [onUvSend, hf]
    have hu' := onUvSend_units hq
    obtain ⟨-, -, hfly, hs', -, -⟩ := onUvSend_cases hq
    obtain ⟨-, ⟨hb', rfl⟩ | ⟨hb', rfl⟩⟩ := onUvSend_wakes hq
    · have hlen : q.flying.length = n := by simp [hfly, hf] at hn ⊢; omega
      obtain ⟨m, q', hrun, hrest⟩ := ih (hs'.trans hs) (hb'.trans hb) (hu'.trans hu) hlen
      exact ⟨m + 1, q', Machine.run_cons.2 ⟨_, hstep p q false hq, hrun⟩, hrest⟩
    · exact ⟨1, q, Machine.run_cons.2 ⟨_, hstep p q true hq, rfl⟩, hb', hs'.trans hs, hu'.trans hu⟩

end Fill

end SendPool
end Puic
