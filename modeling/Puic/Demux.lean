/-
  Demultiplexing at the client: `PuicDialer::CreateConn` and `dispatch`.

  A connection is filed in `m_conns` under the connection id that
  `CreatePuicClientSession` draws at random, and a datagram goes to the connection
  that is filed under the id it carries.  Nothing looks at the drawn id: when it is
  taken, `m_conns.insert` leaves the map as it is and the new connection is deleted
  with the pair that held it, before `CreateConn` returns its address; and the id `0`
  is what `ReadPuicSessionId` answers for a datagram without an id.

  `given` are the connections that `CreateConn` returned and that were not closed
  since, with their ids.
-/
import Puic.DialerClose
import Puic.PublicHeader

namespace Puic

open ConnTable List

namespace Dialer

/-- `m_conns.find`. -/
def find (d : Dialer) (id : ℕ) : Option Conn := d.conns.find? (·.id == id)

/-- `dispatch`: the connection that gets the datagram. -/
def dispatch (d : Dialer) (data : List UInt8) : Option ℕ :=
  let id := readPuicSessionId data
  if id = 0 then none else (d.find id).map (·.key)

/-- The connection that `CreateConn` returns, with its id. -/
def returned (d : Dialer) : DialerAct → List (ℕ × ℕ)
  | .createConn sessionId bound =>
    if (d.start bound).pool.started then [(d.nextConn, sessionId)] else []
  | _ => []

/-- The action closes the connection. -/
def closes (d : Dialer) : DialerAct → ℕ → Bool
  | .onConnClosed k, k' => k' == k
  | .stop, k => d.pool.started && d.conns.any (·.key == k)
  | _, _ => false

end Dialer

structure DialerLog where
  dialer : Dialer
  given : List (ℕ × ℕ)

namespace DialerLog

def init : DialerLog := ⟨.init, []⟩

def step (s : DialerLog) (a : DialerAct) : Option DialerLog :=
  (s.dialer.step a).map fun d =>
    ⟨d, (s.given.filter fun p => !s.dialer.closes a p.1) ++ s.dialer.returned a⟩

/-- The drawn id is not `0` and not in use. -/
def DrawsNew (s : DialerLog) : DialerAct → Prop
  | .createConn sessionId bound => (s.dialer.start bound).pool.started = true →
      sessionId ≠ 0 ∧ ∀ c ∈ s.dialer.conns, c.id ≠ sessionId
  | _ => True

end DialerLog

/-! ## What is filed -/

namespace ConnTable

variable {l : List Conn} {k next : ℕ}

/-- Who is filed, and under which id. -/
def filed (l : List Conn) : List (ℕ × ℕ) := l.map fun c => (c.key, c.id)

theorem filed_update {f : Conn → Conn} (hk : ∀ c, (f c).key = c.key) (hid : ∀ c, (f c).id = c.id) :
    filed (update l k f) = filed l := by
  rw [filed, filed, update, map_map]
  refine map_congr_left fun c _ => ?_
  dsimp only [Function.comp_apply]
  split
  · rw [hk, hid]
  · rfl

theorem filed_setBlocked (b : Bool) : filed (setBlocked l k b) = filed l :=
  filed_update (fun _ => rfl) fun _ => rfl

theorem filed_disconnect : filed (disconnect l k) = filed l := filed_update (fun _ => rfl) fun _ => rfl

theorem filed_unfile (h : WF l next) {c : Conn} (hc : conn? l k = some c) :
    filed (l.filter (·.id != c.id)) = (filed l).filter (·.1 != k) := by
  obtain ⟨hc, hk⟩ := conn?_some hc
  rw [filed, filed, filter_map]
  congr 1
  refine filter_congr fun a ha => ?_
  rw [Function.comp_apply, Bool.eq_iff_iff, bne_iff_ne, bne_iff_ne, ← hk]
  exact not_congr (h.inj a ha c hc)

end ConnTable

namespace Dialer

variable {d d' : Dialer} {k : ℕ}

theorem filed_writePacket (d : Dialer) (k : ℕ) (data : List UInt8) (r : ℤ) :
    filed (d.writePacket k data r).conns = filed d.conns := by
  unfold writePacket
  split
  · dsimp only
    split
    · exact filed_setBlocked true
    · rfl
  · rfl

theorem filed_onConnClosed (h : WF d.conns d.nextConn) :
    filed (d.onConnClosed k).conns = (filed d.conns).filter (·.1 != k) := by
  unfold onConnClosed
  split
  · next hn =>
    refine (filter_eq_self.2 fun p hp => ?_).symm
    obtain ⟨c, hc, rfl⟩ := mem_map.1 hp
    exact bne_iff_ne.2 fun he => conn?_none hn ⟨c, hc, he⟩
  · next c hc => exact filed_unfile h hc

theorem filed_createConn {sessionId : ℕ} {bound : Bool}
    (h : (d.start bound).pool.started = true → ∀ c ∈ d.conns, c.id ≠ sessionId) :
    filed (d.createConn sessionId bound).conns =
      filed d.conns ++ d.returned (.createConn sessionId bound) := by
  rw [createConn_eq, returned]
  split
  · next hst =>
    have hnew : ¬ d.conns.any (·.id == sessionId) := by simpa using h hst
    rw [insertConn, if_neg (show ¬ (d.start bound).conns.any (·.id == sessionId) from hnew)]
    exact map_append
  · exact (append_nil _).symm

/-- What an action other than `CreateConn` closes leaves the map, and nothing else does. -/
theorem filed_step {a : DialerAct} (hi : d.Inv) (h : d.step a = some d')
    (ha : ∀ sessionId bound, a ≠ .createConn sessionId bound) :
    filed d'.conns = (filed d.conns).filter fun p => !d.closes a p.1 := by
  have hsame : filed d'.conns = filed d.conns → (∀ k, d.closes a k = false) →
      filed d'.conns = (filed d.conns).filter fun p => !d.closes a p.1 := fun he hc => by
    rw [he]
    exact (filter_eq_self.2 fun p _ => by rw [hc]; rfl).symm
  cases a with
  | createConn sessionId bound => exact absurd rfl (ha sessionId bound)
  | start bound => cases h; exact hsame rfl fun _ => rfl
  | stop =>
    replace h : d.stop = some d' := h
    by_cases hs : d.pool.started = true
    · have hnil : d'.conns = [] := (hi.stop h).1.stopped (by simp [(hi.stop h).2])
      rw [hnil]
      refine (filter_eq_nil_iff.2 fun p hp => ?_).symm
      obtain ⟨c, hc, rfl⟩ := mem_map.1 hp
      simpa [closes, hs] using ⟨c, hc, rfl⟩
    · rw [stop, if_pos (by simpa using hs)] at h
      cases h
      exact hsame rfl fun k => by simp [closes, hs]
  | writePacket k data r => cases h; exact hsame (d.filed_writePacket k data r) fun _ => rfl
  | canWrite k =>
    cases h
    exact hsame (congrArg (fun d => filed d.conns) (canWrite_eq hi.toLinked k)) fun _ => rfl
  | tearDown k => cases h; exact hsame filed_disconnect fun _ => rfl
  | onConnClosed k =>
    simp only [step, Option.ite_none_right_eq_some] at h
    obtain ⟨-, h⟩ := h
    cases h
    exact filed_onConnClosed hi.toWF
  | onUvSend i =>
    obtain ⟨-, p, w, -, rfl⟩ := onUvSend_eq h
    exact hsame rfl fun _ => rfl
  | wakeNext =>
    replace h : d.wakeNext = some d' := h
    unfold wakeNext at h
    split at h
    · cases h
    · split at h
      · cases h; exact hsame (filed_setBlocked false) fun _ => rfl
      · cases h
  | wakeDone =>
    replace h : d.wakeDone = some d' := h
    unfold wakeDone at h
    split at h
    · cases h; exact hsame rfl fun _ => rfl
    · cases h
  | deleteConns =>
    refine hsame ?_ fun _ => rfl
    simp only [step, Option.ite_none_left_eq_some, deleteConns, Bool.true_and, List.isEmpty_iff] at h
    obtain ⟨-, h⟩ := h
    split at h
    · next he =>
      -- there is nothing left to close
      unfold stop at h
      simp only [he, List.all_nil, List.foldl_nil] at h
      split at h <;> cases h <;> rw [he]
    · cases h; rfl

end Dialer

/-! ## Whole runs -/

namespace DialerLog

variable {s t : DialerLog} {a : DialerAct}

structure Inv (s : DialerLog) : Prop where
  dialer : s.dialer.Inv
  given : s.given = filed s.dialer.conns
  ne_zero : ∀ p ∈ s.given, p.2 ≠ 0

theorem init_inv : init.Inv := ⟨Dialer.init_inv, rfl, nofun⟩

theorem step_inv (h : s.Inv) (hC : s.DrawsNew a) (hs : s.step a = some t) : t.Inv := by
  obtain ⟨d, hd, rfl⟩ := Option.map_eq_some_iff.1 hs
  have hi := (Dialer.step_inv h.dialer hd).1
  cases a with
  | createConn sessionId bound =>
    cases hd
    have hkeep : (s.given.filter fun p => !s.dialer.closes (.createConn sessionId bound) p.1) =
        s.given := filter_eq_self.2 fun _ _ => rfl
    refine ⟨hi, ?_, fun p hp => ?_⟩
    · rw [hkeep, h.given, Dialer.filed_createConn fun hst => (hC hst).2]
    · rw [hkeep] at hp
      rcases mem_append.1 hp with hp | hp
      · exact h.ne_zero p hp
      · by_cases hst : (s.dialer.start bound).pool.started = true
        · rw [Dialer.returned, if_pos hst] at hp
          rw [mem_singleton.1 hp]
          exact (hC hst).1
        · rw [Dialer.returned, if_neg hst] at hp
          cases hp
  | _ =>
    refine ⟨hi, ?_, fun p hp => ?_⟩
    · rw [Dialer.filed_step h.dialer hd nofun, h.given]
      exact append_nil _
    · exact h.ne_zero p (mem_filter.1 ((append_nil _).symm ▸ hp)).1

/-- A connection that was returned and not closed is found under its id. -/
theorem Inv.find {k id : ℕ} (h : s.Inv) (hk : (k, id) ∈ s.given) :
    ∃ c, s.dialer.find id = some c ∧ c.key = k := by
  rw [h.given] at hk
  obtain ⟨c, hc, he⟩ := mem_map.1 hk
  obtain ⟨rfl, rfl⟩ := Prod.mk.inj he
  cases hf : s.dialer.find c.id with
  | none => exact absurd (beq_self_eq_true _) (find?_eq_none.1 hf c hc)
  | some c' =>
    have hid : c'.id = c.id := by simpa using find?_some hf
    exact ⟨c', rfl, (h.dialer.inj c' (mem_of_find?_eq_some hf) c hc).1 hid⟩

/-- **Demultiplexing is faithful**, if every drawn id is new and not `0`: a connection is found under
    its id from `CreateConn` until it is closed, no two of them have the same id, and a datagram goes
    to the one whose id the framer reads in it. -/
theorem dispatch_faithful {as : List DialerAct} (hC : Machine.Along step DrawsNew init as)
    (hrun : Machine.run step init as = some s) {k id : ℕ} (hk : (k, id) ∈ s.given) :
    (∃ c, s.dialer.find id = some c ∧ c.key = k) ∧
    (∀ k' id', (k', id') ∈ s.given → k' ≠ k → id' ≠ id) ∧
    ∀ (f : QuicFramer) (data rest : List UInt8) (h : QuicPacketHeader),
      f.processPublicHeader data = .ok (h, rest) → h.connectionIdLength = .packet8Byte →
      h.connectionId = id → s.dialer.dispatch data = some k := by
  have h : s.Inv := Machine.run_inv_along (fun s a s' h hC hs => step_inv h hC hs) init_inv hC hrun
  obtain ⟨c, hf, hck⟩ := h.find hk
  refine ⟨⟨c, hf, hck⟩, fun k' id' hk' hne hid => ?_, fun f data rest hdr hp hl hid => ?_⟩
  · obtain ⟨c', hf', hck'⟩ := h.find hk'
    rw [hid, hf] at hf'
    cases hf'
    exact hne (hck'.symm.trans hck)
  · have hz : id ≠ 0 := h.ne_zero _ hk
    rw [Dialer.dispatch, readPuicSessionId_eq hp hl, hid, if_neg hz, hf, Option.map_some, hck]

/-- A datagram of the server with the connection id `7`. -/
def datagramSeven : List UInt8 := [0x08, 0, 0, 0, 0, 0, 0, 0, 7, 1]

theorem dispatch_faithful_seven :
    ∃ s, Machine.run step init [.createConn 5 true, .createConn 7 true, .tearDown 0, .onConnClosed 0] =
      some s ∧ s.given = [(1, 7)] ∧ s.dialer.dispatch datagramSeven = some 1 := by
  refine ⟨_, rfl, rfl, ?_⟩
  refine (@dispatch_faithful _
    [.createConn 5 true, .createConn 7 true, .tearDown 0, .onConnClosed 0] ?_ rfl 1 7
    (.head _)).2.2 ⟨.isClient, .quic43, true, 0⟩ _ _ _ rfl rfl rfl
  refine ⟨fun _ => ⟨by decide, nofun⟩, fun s hs => ?_⟩
  cases hs
  refine ⟨fun _ => ⟨by decide, by decide +kernel⟩, fun s hs => ?_⟩
  cases hs
  exact ⟨trivial, fun _ _ => ⟨trivial, fun _ _ => trivial⟩⟩

/-- An id that is drawn twice: the second connection is returned and filed nowhere.  And the id `0`: the
    connection never gets a datagram. -/
theorem dispatch_misses :
    (∃ s, Machine.run step init [.createConn 7 true, .createConn 7 true] = some s ∧
      (0, 7) ∈ s.given ∧ (1, 7) ∈ s.given ∧ (s.dialer.find 7).map (·.key) = some 0) ∧
    ∃ s, Machine.run step init [.createConn 0 true] = some s ∧ (0, 0) ∈ s.given ∧
      ∃ (f : QuicFramer) (data rest : List UInt8) (h : QuicPacketHeader),
        f.processPublicHeader data = .ok (h, rest) ∧ h.connectionIdLength = .packet8Byte ∧
        h.connectionId = 0 ∧ s.dialer.dispatch data = none := by
  refine ⟨⟨_, rfl, .head _, .tail _ (.head _), rfl⟩, _, rfl, .head _, ⟨.isClient, .quic43, true, 0⟩,
    [0x08, 0, 0, 0, 0, 0, 0, 0, 0, 1], [1], _, rfl, rfl, rfl, rfl⟩

end DialerLog
end Puic
