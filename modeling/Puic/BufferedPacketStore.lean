/-
  Packets that arrive before their connection exists (`QuicBufferedPacketStore` of
  quic_buffered_packet_store.cc, as quic_dispatcher.cc uses it).

  The store has a list of packets for every connection it knows, and remembers which of
  these connections have sent their CHLO; that packet stands first in its list.  A run
  makes the calls of the dispatcher and records, beside the store, the packets that were
  accepted for each connection since it was last delivered, discarded or expired.
  `store_limits`: the limits on connections and packets hold in every state, and what is
  delivered are the accepted packets, the CHLO first and the others in their order.
-/
import Mathlib.Algebra.Order.Ring.Int
import Puic.Lib.LinkedMap
import Puic.Lib.Run

namespace Puic

open LinkedMap

/-- Times are in microseconds. -/
structure BufferedPacketList (π : Type) where
  bufferedPackets : List π
  creationTime : ℤ
  alpn : String
deriving Repr, DecidableEq

inductive EnqueuePacketResult where
  | success
  | tooManyPackets
  | tooManyConnections
deriving Repr, DecidableEq

structure BufferedPacketStore (κ π : Type) where
  undecryptablePackets : LinkedMap κ (BufferedPacketList π)
  /-- The values are never read. -/
  connectionsWithChlo : LinkedMap κ Bool

namespace BufferedPacketStore

def kDefaultMaxConnectionsInStore : ℕ := 100
def kMaxConnectionsWithoutCHLO : ℕ := kDefaultMaxConnectionsInStore / 2
def kDefaultMaxUndecryptablePackets : ℕ := 10

/-- `kInitialIdleTimeoutSecs`. -/
def connectionLifeSpan : ℤ := 5000000

/-- The difference of two `size_t`. -/
def sizeDiff (a b : ℕ) : ℕ := (a + 18446744073709551616 - b) % 18446744073709551616

variable {κ π : Type} [DecidableEq κ]

def initial : BufferedPacketStore κ π := ⟨.empty, .empty⟩

/-- A `BufferedPacketList` as its constructor makes it. -/
def noPackets : BufferedPacketList π := ⟨[], 0, ""⟩

variable (s : BufferedPacketStore κ π)

/-- Whether a packet of a new connection is turned away, in spite of its name. -/
def shouldBufferPacket (isChlo : Bool) : Bool :=
  let isStoreFull := decide (kDefaultMaxConnectionsInStore ≤ s.undecryptablePackets.size)
  if isChlo then isStoreFull
  else isStoreFull ||
    decide (kMaxConnectionsWithoutCHLO ≤ sizeDiff s.undecryptablePackets.size s.connectionsWithChlo.size)

def enqueuePacket (id : κ) (packet : π) (isChlo : Bool) (alpn : String) (now : ℤ) :
    EnqueuePacketResult × BufferedPacketStore κ π :=
  if id ∉ s.undecryptablePackets ∧ s.shouldBufferPacket isChlo then (.tooManyConnections, s)
  else
    let queue := (s.undecryptablePackets.get? id).getD noPackets
    let numNonChloPackets :=
      if id ∈ s.connectionsWithChlo then sizeDiff queue.bufferedPackets.length 1
      else queue.bufferedPackets.length
    if !isChlo && decide (kDefaultMaxUndecryptablePackets ≤ numNonChloPackets) then
      (.tooManyPackets, { s with undecryptablePackets := s.undecryptablePackets.set id queue })
    else
      let creationTime := if queue.bufferedPackets.isEmpty then now else queue.creationTime
      if isChlo then
        (.success,
          { undecryptablePackets := s.undecryptablePackets.set id ⟨packet :: queue.bufferedPackets,
            creationTime, alpn⟩
            connectionsWithChlo := s.connectionsWithChlo.set id false })
      else
        (.success, { s with undecryptablePackets :=
              s.undecryptablePackets.set id ⟨queue.bufferedPackets ++ [packet], creationTime,
                queue.alpn⟩ })

def hasChloForConnection (id : κ) : Bool := decide (id ∈ s.connectionsWithChlo)

def deliverPackets (id : κ) : BufferedPacketList π × BufferedPacketStore κ π :=
  ((s.undecryptablePackets.get? id).getD noPackets,
    { s with undecryptablePackets := s.undecryptablePackets.erase id })

def discardPackets (id : κ) : BufferedPacketStore κ π :=
  ⟨s.undecryptablePackets.erase id, s.connectionsWithChlo.erase id⟩

/-- The loop of `OnExpirationTimeout` over the entries of the store, oldest first: the connections
    for which `OnExpiredPackets` is called, and what is left. -/
def expire (expirationTime : ℤ) :
    List (κ × BufferedPacketList π) → BufferedPacketStore κ π → List κ × BufferedPacketStore κ π
  | [], s => ([], s)
  | (id, packets) :: entries, s =>
    if expirationTime < packets.creationTime then ([], s)
    else
      let r := expire expirationTime entries ⟨s.undecryptablePackets.popFront,
        s.connectionsWithChlo.erase id⟩
      (id :: r.1, r.2)

def onExpirationTimeout (now : ℤ) : List κ × BufferedPacketStore κ π :=
  expire (now - connectionLifeSpan) s.undecryptablePackets.entries s

/-- The connection id is only written when there is one. -/
def deliverPacketsForNextConnection :
    Option κ × BufferedPacketList π × BufferedPacketStore κ π :=
  match s.connectionsWithChlo.head? with
  | none => (none, noPackets, s)
  | some (id, _) => (some id,
      { s with connectionsWithChlo := s.connectionsWithChlo.popFront }.deliverPackets id)

/-! ## The calls of the dispatcher -/

inductive StoreCall (κ π : Type) where
  /-- `BufferEarlyPacket`. -/
  | bufferEarlyPacket (id : κ) (packet : π) (now : ℤ)
  /-- `ProcessChlo` when no session may be created now. -/
  | bufferChlo (id : κ) (packet : π) (alpn : String) (now : ℤ)
  /-- `ProcessChlo` when a session is created. -/
  | deliverPackets (id : κ)
  /-- A packet that is answered from the time-wait list. -/
  | discardPackets (id : κ)
  /-- One round of `ProcessBufferedChlos`. -/
  | deliverPacketsForNextConnection
  | onExpirationTimeout (now : ℤ)

/-- The store, and the packets accepted for each connection in the order of their arrival; the flag
    says which is a CHLO. -/
structure RecordedStore (κ π : Type) where
  store : BufferedPacketStore κ π
  accepted : κ → List (π × Bool)

/-- What is handed to a session: the CHLO first, then the others as they came. -/
def inOrder (l : List (π × Bool)) : List π :=
  (l.filter (·.2)).map Prod.fst ++ (l.filter (!·.2)).map Prod.fst

namespace RecordedStore

def enqueue (s : RecordedStore κ π) (id : κ) (packet : π) (isChlo : Bool) (alpn : String) (now : ℤ) :
    RecordedStore κ π :=
  let r := s.store.enqueuePacket id packet isChlo alpn now
  { store := r.2
    accepted :=
      if r.1 = .success then Function.update s.accepted id (s.accepted id ++ [(packet, isChlo)])
      else s.accepted }

/-- The connections in `ids` leave the store. -/
def forget (s : RecordedStore κ π) (ids : List κ) (store : BufferedPacketStore κ π) : RecordedStore κ π :=
  ⟨store, fun id => if id ∈ ids then [] else s.accepted id⟩

end RecordedStore

/-- `OnUnauthenticatedPublicHeader` sends a packet of a connection whose CHLO is buffered to
    `BufferEarlyPacket`, so that `ProcessChlo` never sees such a connection. -/
def storeStep (s : RecordedStore κ π) : StoreCall κ π → Option (RecordedStore κ π)
  | .bufferEarlyPacket id packet now => some (s.enqueue id packet false "" now)
  | .bufferChlo id packet alpn now =>
    if s.store.hasChloForConnection id then none else some (s.enqueue id packet true alpn now)
  | .deliverPackets id =>
    if s.store.hasChloForConnection id then none else some (s.forget [id] (s.store.deliverPackets id).2)
  | .discardPackets id => some (s.forget [id] (s.store.discardPackets id))
  | .deliverPacketsForNextConnection =>
    let r := s.store.deliverPacketsForNextConnection
    some (s.forget r.1.toList r.2.2)
  | .onExpirationTimeout now =>
    let r := s.store.onExpirationTimeout now
    some (s.forget r.1 r.2)

/-! ## One call -/

/-- The packets buffered for a connection, none if it is not in the store. -/
def packetsOf (s : BufferedPacketStore κ π) (id : κ) : List π :=
  ((s.undecryptablePackets.get? id).getD noPackets).bufferedPackets

/-- The packets of a connection are the accepted ones; `chlo` says whether its CHLO is there. -/
structure Holds (accepted : List (π × Bool)) (chlo : Prop) [Decidable chlo] (packets : List π) :
    Prop where
  packets_eq : packets = inOrder accepted
  chlos : (accepted.filter (·.2)).length = if chlo then 1 else 0
  others : (accepted.filter (!·.2)).length ≤ kDefaultMaxUndecryptablePackets

structure Bounded (s : RecordedStore κ π) : Prop where
  nested : ∀ id ∈ s.store.connectionsWithChlo, id ∈ s.store.undecryptablePackets
  connections : s.store.undecryptablePackets.size ≤ kDefaultMaxConnectionsInStore
  withoutChlo : s.store.undecryptablePackets.size ≤ s.store.connectionsWithChlo.size +
    kMaxConnectionsWithoutCHLO
  holds : ∀ id, Holds (s.accepted id) (id ∈ s.store.connectionsWithChlo) (s.store.packetsOf id)
  known : ∀ id, id ∈ s.store.undecryptablePackets ↔ s.accepted id ≠ []

theorem sizeDiff_eq {a b : ℕ} (hb : b ≤ a) (ha : a < 18446744073709551616) : sizeDiff a b = a - b := by
  unfold sizeDiff
  omega

section
variable {l : List (π × Bool)} {packets : List π} {chlo : Prop} [Decidable chlo] {packet : π}

theorem Holds.length (h : Holds l chlo packets) :
    packets.length = (if chlo then 1 else 0) + (l.filter (!·.2)).length := by
  rw [h.packets_eq, inOrder, List.length_append, List.length_map, List.length_map, h.chlos]

theorem Holds.push (h : Holds l chlo packets)
    (hfew : (l.filter (!·.2)).length < kDefaultMaxUndecryptablePackets) :
    Holds (l ++ [(packet, false)]) chlo (packets ++ [packet]) where
  packets_eq := by simp [h.packets_eq, inOrder]
  chlos := by simpa using h.chlos
  others := by
    simp only [List.filter_append, List.length_append]
    exact hfew

theorem Holds.pushChlo (packet : π) (h : Holds l chlo packets) (hno : ¬chlo) :
    Holds (l ++ [(packet, true)]) True (packet :: packets) := by
  have hnil : l.filter (·.2) = [] := by
    have hlen := h.chlos
    rwa [if_neg hno, List.length_eq_zero_iff] at hlen
  constructor
  · simp [h.packets_eq, inOrder, hnil]
  · simp [hnil]
  · simpa using h.others

end

variable {s s' : RecordedStore κ π} {id k : κ} {packet : π} {isChlo : Bool} {alpn : String} {now : ℤ}

theorem bounded_initial : Bounded (⟨initial, fun _ => []⟩ : RecordedStore κ π) where
  nested id hid := absurd hid not_mem_empty
  connections := Nat.zero_le _
  withoutChlo := Nat.zero_le _
  holds _ := ⟨rfl, by simp [initial], Nat.zero_le _⟩
  known id := by simp [initial]

theorem Bounded.discard (id : κ) (h : Bounded s) :
    Bounded (s.forget [id] (s.store.discardPackets id)) := by
  have hsizes : (s.store.undecryptablePackets.erase id).size ≤ s.store.undecryptablePackets.size ∧
      (s.store.undecryptablePackets.erase id).size ≤
        (s.store.connectionsWithChlo.erase id).size + kMaxConnectionsWithoutCHLO := by
    have hle := h.withoutChlo
    by_cases hu : id ∈ s.store.undecryptablePackets
    · have hu' := size_erase hu
      by_cases hc : id ∈ s.store.connectionsWithChlo
      · have hc' := size_erase hc
        omega
      · rw [erase_of_not_mem hc]
        omega
    · rw [erase_of_not_mem hu, erase_of_not_mem fun hc => hu (h.nested id hc)]
      exact ⟨le_rfl, hle⟩
  constructor
  · intro k hk
    simp only [RecordedStore.forget, discardPackets, mem_erase] at hk ⊢
    exact ⟨hk.1, h.nested k hk.2⟩
  · exact hsizes.1.trans h.connections
  · exact hsizes.2
  · intro k
    have hk := h.holds k
    rcases eq_or_ne k id with rfl | hne
    · refine ⟨?_, ?_, ?_⟩
      · simp [RecordedStore.forget, packetsOf, discardPackets, noPackets, inOrder]
      · simp [RecordedStore.forget, discardPackets]
      · simp [RecordedStore.forget]
    · refine ⟨?_, ?_, ?_⟩
      · simpa [RecordedStore.forget, packetsOf, discardPackets, hne] using hk.packets_eq
      · simpa [RecordedStore.forget, discardPackets, hne] using hk.chlos
      · simpa [RecordedStore.forget, hne] using hk.others
  · intro k
    rcases eq_or_ne k id with rfl | hne
    · simp [RecordedStore.forget, discardPackets]
    · simpa [RecordedStore.forget, discardPackets, hne] using h.known k

/-- Delivering to a connection without CHLO is as if its packets were discarded. -/
theorem Bounded.deliver (h : Bounded s) (hc : ¬s.store.hasChloForConnection id = true) :
    Bounded (s.forget [id] (s.store.deliverPackets id).2) := by
  have hc' : id ∉ s.store.connectionsWithChlo := by simpa [hasChloForConnection] using hc
  have heq : (s.store.deliverPackets id).2 = s.store.discardPackets id := by
    rw [deliverPackets, discardPackets, erase_of_not_mem hc']
  rw [heq]
  exact h.discard id

theorem Bounded.deliverNext (h : Bounded s) :
    Bounded (s.forget s.store.deliverPacketsForNextConnection.1.toList
      s.store.deliverPacketsForNextConnection.2.2) := by
  unfold deliverPacketsForNextConnection
  rcases hhead : s.store.connectionsWithChlo.head? with _ | ⟨id, b⟩
  · exact h
  · have heq : ({ s.store with
        connectionsWithChlo := s.store.connectionsWithChlo.popFront }.deliverPackets id).2 =
        s.store.discardPackets id := by
      rw [popFront_eq_erase hhead]
      rfl
    rw [heq]
    exact h.discard id

/-- By induction on the entries: each one that has expired leaves both maps. -/
theorem Bounded.expire (t : ℤ) (entries : List (κ × BufferedPacketList π)) (h : Bounded s)
    (he : s.store.undecryptablePackets.entries = entries) :
    Bounded (s.forget (expire t entries s.store).1 (expire t entries s.store).2) := by
  induction entries generalizing s with
  | nil => exact h
  | cons e entries ih =>
    obtain ⟨id, q⟩ := e
    unfold BufferedPacketStore.expire
    split
    · exact h
    · have hhead : s.store.undecryptablePackets.head? = some (id, q) := by rw [head?, he]; rfl
      have hnext : (⟨s.store.undecryptablePackets.popFront, s.store.connectionsWithChlo.erase id⟩ :
          BufferedPacketStore κ π) = s.store.discardPackets id := by
        rw [popFront_eq_erase hhead]
        rfl
      have hrest := ih (h.discard id) (by
        show (s.store.undecryptablePackets.erase id).entries = _
        rw [← popFront_eq_erase hhead, popFront_entries, he, List.tail_cons])
      have hforget : ∀ ids store, (s.forget [id] (s.store.discardPackets id)).forget ids store =
          s.forget (id :: ids) store := by
        intro ids store
        simp only [RecordedStore.forget, RecordedStore.mk.injEq, true_and]
        ext1 k
        by_cases hk : k ∈ ids
        · simp [hk]
        · simp [hk]
      rw [hforget] at hrest
      rw [hnext]
      exact hrest

/-- A packet is only accepted for a new connection when there is room for one. -/
theorem Bounded.room (h : Bounded s)
    (hb : ¬(id ∉ s.store.undecryptablePackets ∧ s.store.shouldBufferPacket isChlo = true))
    (hid : id ∉ s.store.undecryptablePackets) :
    s.store.undecryptablePackets.size < kDefaultMaxConnectionsInStore ∧
    (isChlo = false →
      s.store.undecryptablePackets.size < s.store.connectionsWithChlo.size +
        kMaxConnectionsWithoutCHLO) := by
  have hle : s.store.connectionsWithChlo.size ≤ s.store.undecryptablePackets.size := by
    have := length_without h.nested
    omega
  have hsize := h.connections
  have hdiff := sizeDiff_eq hle (by simp only [kDefaultMaxConnectionsInStore] at hsize; omega)
  have hno : s.store.shouldBufferPacket isChlo ≠ true := fun hs => hb ⟨hid, hs⟩
  cases isChlo with
  | true =>
    have hlt : ¬kDefaultMaxConnectionsInStore ≤ s.store.undecryptablePackets.size := by
      simpa [shouldBufferPacket] using hno
    exact ⟨by omega, fun h => Bool.noConfusion h⟩
  | false =>
    simp only [shouldBufferPacket, hdiff, Bool.false_eq_true, if_false, ne_eq, Bool.or_eq_true,
      decide_eq_true_eq, not_or, not_le] at hno
    exact ⟨hno.1, fun _ => by omega⟩

theorem Bounded.set (h : Bounded s) {store : BufferedPacketStore κ π} {q : BufferedPacketList π}
    (hu : store.undecryptablePackets = s.store.undecryptablePackets.set id q)
    (hc : ∀ k, k ≠ id → (k ∈ store.connectionsWithChlo ↔ k ∈ s.store.connectionsWithChlo))
    (hconn : id ∉ s.store.undecryptablePackets →
      s.store.undecryptablePackets.size < kDefaultMaxConnectionsInStore)
    (hchlo : s.store.connectionsWithChlo.size ≤ store.connectionsWithChlo.size)
    (hwithout : id ∉ s.store.undecryptablePackets →
      s.store.undecryptablePackets.size < store.connectionsWithChlo.size + kMaxConnectionsWithoutCHLO)
    (hq : Holds (s.accepted id ++ [(packet, isChlo)]) (id ∈ store.connectionsWithChlo)
    q.bufferedPackets) :
    Bounded ⟨store, Function.update s.accepted id (s.accepted id ++ [(packet, isChlo)])⟩ := by
  have hsize := size_set (m := s.store.undecryptablePackets) (k := id) (v := q)
  have hconn' := h.connections
  have hwithout' := h.withoutChlo
  constructor
  · intro k hk
    simp only [hu, mem_set]
    rcases eq_or_ne k id with rfl | hne
    · exact .inl rfl
    · exact .inr (h.nested k ((hc k hne).1 hk))
  · dsimp only
    rw [hu, hsize]
    split
    · exact hconn'
    · next hid => exact hconn hid
  · dsimp only
    rw [hu, hsize]
    split
    · omega
    · next hid => exact hwithout hid
  · intro k
    rcases eq_or_ne k id with rfl | hne
    · simpa [packetsOf, hu] using hq
    · have hk := h.holds k
      refine ⟨?_, ?_, ?_⟩
      · simpa [packetsOf, hu, hne] using hk.packets_eq
      · simpa [hne, hc k hne] using hk.chlos
      · simpa [hne] using hk.others
  · intro k
    rcases eq_or_ne k id with rfl | hne
    · simp [hu]
    · simpa [hu, hne] using h.known k

/-- Setting a connection to the list it has changes nothing that is read. -/
theorem Bounded.reset (h : Bounded s) {q : BufferedPacketList π}
    (hq : s.store.undecryptablePackets.get? id = some q) :
    Bounded ⟨{ s.store with undecryptablePackets := s.store.undecryptablePackets.set id q },
      s.accepted⟩ := by
  have hid : id ∈ s.store.undecryptablePackets := mem_iff_get?.2 ⟨q, hq⟩
  have hget : ∀ k, (s.store.undecryptablePackets.set id q).get? k =
      s.store.undecryptablePackets.get? k := by
    intro k
    rw [get?_set]
    split
    · next hk => rw [hk, hq]
    · rfl
  have hsize : (s.store.undecryptablePackets.set id q).size = s.store.undecryptablePackets.size := by
    rw [size_set, if_pos hid]
  have hmem : ∀ k, k ∈ s.store.undecryptablePackets.set id q ↔ k ∈ s.store.undecryptablePackets := by
    intro k
    rw [mem_iff_get?, mem_iff_get?, hget]
  constructor
  · exact fun k hk => (hmem k).2 (h.nested k hk)
  · exact hsize.trans_le h.connections
  · exact hsize.trans_le h.withoutChlo
  · intro k
    have hk := h.holds k
    rw [packetsOf] at hk ⊢
    rwa [hget]
  · exact fun k => (hmem k).trans (h.known k)

theorem Bounded.enqueue (h : Bounded s) (hc : isChlo = true → ¬s.store.hasChloForConnection id = true) :
    Bounded (s.enqueue id packet isChlo alpn now) := by
  have hq := h.holds id
  have hfew : (if id ∈ s.store.connectionsWithChlo then sizeDiff (s.store.packetsOf id).length 1
      else (s.store.packetsOf id).length) = ((s.accepted id).filter (!·.2)).length := by
    have hlen := hq.length
    have hothers := hq.others
    split
    · next hin =>
      rw [if_pos hin] at hlen
      rw [sizeDiff_eq (by omega) (by simp only [kDefaultMaxUndecryptablePackets] at hothers; omega)]
      omega
    · next hin =>
      rw [if_neg hin] at hlen
      omega
  unfold RecordedStore.enqueue enqueuePacket
  split
  · exact h
  next hb =>
  have hroom := h.room hb
  rw [packetsOf] at hfew
  dsimp only
  rw [hfew]
  cases isChlo with
  | true =>
    have hno : id ∉ s.store.connectionsWithChlo := by simpa [hasChloForConnection] using hc rfl
    simp only [Bool.not_true, Bool.false_and, Bool.false_eq_true, if_false, if_true]
    refine h.set rfl (fun k hne => by simp [hne]) (fun hid => (hroom hid).1) ?_ (fun hid => ?_) ?_
    · rw [size_set, if_neg hno]
      omega
    · have hlt := (hroom hid).1
      have hwithout := h.withoutChlo
      rw [size_set, if_neg hno]
      omega
    · have hp := hq.pushChlo packet hno
      simpa [packetsOf] using hp
  | false =>
    simp only [Bool.not_false, Bool.true_and, decide_eq_true_eq, Bool.false_eq_true, if_false]
    split
    · next hmany =>
      -- only a connection that is in the store has so many packets
      have hid : id ∈ s.store.undecryptablePackets := by
        rw [h.known]
        intro hnil
        rw [hnil] at hmany
        exact absurd hmany (by simp [kDefaultMaxUndecryptablePackets])
      obtain ⟨q, hget⟩ := mem_iff_get?.1 hid
      rw [hget]
      exact h.reset hget
    · next hmany =>
      exact h.set rfl (fun k hne => Iff.rfl) (fun hid => (hroom hid).1)
        le_rfl (fun hid => (hroom hid).2 rfl)
        (hq.push (by omega))

theorem Bounded.step {call : StoreCall κ π} (h : Bounded s) (hstep : storeStep s call = some s') :
    Bounded s' := by
  cases call with
  | bufferEarlyPacket id packet now =>
    cases hstep
    exact h.enqueue fun h => Bool.noConfusion h
  | bufferChlo id packet alpn now =>
    rw [storeStep] at hstep
    split at hstep
    · cases hstep
    · next hc =>
      cases hstep
      exact h.enqueue fun _ => hc
  | deliverPackets id =>
    rw [storeStep] at hstep
    split at hstep
    · cases hstep
    · next hc =>
      cases hstep
      exact h.deliver hc
  | discardPackets id =>
    cases hstep
    exact h.discard id
  | deliverPacketsForNextConnection =>
    cases hstep
    exact h.deliverNext
  | onExpirationTimeout now =>
    cases hstep
    exact h.expire _ _ rfl

/-! ## Runs -/

theorem bounded_run {calls : List (StoreCall κ π)}
    (h : Machine.run storeStep ⟨initial, fun _ => []⟩ calls = some s) :
    Bounded s :=
  Machine.run_inv (fun _ _ _ hs => hs.step) bounded_initial h

/-- **The limits and the order of the store**, after every sequence of calls. -/
theorem store_limits {calls : List (StoreCall κ π)} {store : BufferedPacketStore κ π}
    {accepted : κ → List (π × Bool)}
    (h : Machine.run storeStep ⟨initial, fun _ => []⟩ calls = some ⟨store, accepted⟩) :
    (∀ id ∈ store.connectionsWithChlo, id ∈ store.undecryptablePackets) ∧
    store.undecryptablePackets.size ≤ kDefaultMaxConnectionsInStore ∧
    (store.undecryptablePackets.without store.connectionsWithChlo).length ≤ kMaxConnectionsWithoutCHLO ∧
    (∀ id q, store.undecryptablePackets.get? id = some q → q.bufferedPackets ≠ [] ∧
      q.bufferedPackets.length ≤ kDefaultMaxUndecryptablePackets + if id ∈
        store.connectionsWithChlo then 1 else 0) ∧
    sizeDiff store.undecryptablePackets.size store.connectionsWithChlo.size =
      (store.undecryptablePackets.without store.connectionsWithChlo).length ∧
    ∀ id, (store.deliverPackets id).1.bufferedPackets = inOrder (accepted id) ∧
      ((accepted id).filter (·.2)).length = if id ∈ store.connectionsWithChlo then 1 else 0 := by
  have hb := bounded_run h
  have hcount := length_without hb.nested
  have hconn := hb.connections
  have hwithout := hb.withoutChlo
  dsimp only at hcount hconn hwithout
  refine ⟨hb.nested,
    hconn, by omega, fun id q hq => ?_, ?_, fun id => ⟨(hb.holds id).packets_eq, (hb.holds id).chlos⟩⟩
  · have hpackets : store.packetsOf id = q.bufferedPackets := by rw [packetsOf, hq]; rfl
    have hh := hb.holds id
    have hlen := hh.length
    have hothers := hh.others
    rw [hpackets] at hlen
    constructor
    · -- a packet was accepted, and it is in one of the two parts
      intro hnil
      have hne := (hb.known id).1 (mem_iff_get?.2 ⟨q, hq⟩)
      have heq := hh.packets_eq
      rw [hpackets, hnil] at heq
      obtain ⟨e, l, hcons⟩ := List.exists_cons_of_ne_nil hne
      dsimp only at hcons heq
      rcases e with ⟨p, _ | _⟩
      · simp [inOrder, hcons] at heq
      · simp [inOrder, hcons] at heq
    · dsimp only at hlen hothers
      omega
  · rw [sizeDiff_eq (by omega) (by simp only [kDefaultMaxConnectionsInStore] at hconn; omega)]
    omega

/-- Two early packets, then the CHLO of their connection. -/
theorem store_limits_late_chlo : ∃ store accepted, Machine.run storeStep ⟨initial, fun _ => []⟩
    [.bufferEarlyPacket 7 "a" 0, .bufferEarlyPacket 9 "b" 1, .bufferEarlyPacket 7 "c" 2,
      .bufferChlo 7 "chlo" "" 3] =
      some ⟨store, accepted⟩ ∧
    (store.deliverPackets 7).1.bufferedPackets = ["chlo", "a", "c"] ∧
    (store.undecryptablePackets.without store.connectionsWithChlo).length ≤
      kMaxConnectionsWithoutCHLO := by
  obtain ⟨⟨store, accepted⟩, hrun, hpackets⟩ := Option.map_eq_some_iff.1 (by decide +kernel :
    (Machine.run storeStep ⟨initial, fun _ => []⟩ [.bufferEarlyPacket 7 "a" 0, .bufferEarlyPacket 9 "b" 1,
      .bufferEarlyPacket 7 "c" 2, .bufferChlo 7 "chlo" "" 3]).map
        (fun s => (s.store.deliverPackets 7).1.bufferedPackets) = some ["chlo", "a", "c"])
  exact ⟨store, accepted, hrun, hpackets, (store_limits hrun).2.2.1⟩

end BufferedPacketStore

end Puic
