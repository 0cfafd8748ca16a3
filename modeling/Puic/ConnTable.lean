/-
  The connections of an endpoint, as far as writing packets is concerned.

  The client files its `PuicClientConn`s in `m_conns` by session id and the server
  its sessions in `session_map_` by connection id; both remember blocked
  connections by address.  A connection writes through a `PuicPerSessionWriter`,
  whose `blocked_` says that the shared writer turned it away.
-/
import Mathlib.Order.BooleanAlgebra.Set
import Mathlib.Data.Set.Insert

namespace Puic

open List

/-- A connection: its address, the id it is filed under, `connected_` of its `QuicConnection`
    and `blocked_` of its `PuicPerSessionWriter`. -/
structure Conn where
  key : ℕ
  id : ℕ
  connected : Bool
  blocked : Bool
deriving Repr, DecidableEq

namespace ConnTable

variable (l : List Conn) (k : ℕ)

def conn? : Option Conn := l.find? (·.key == k)

/-- Change the connection at address `k`. -/
def update (f : Conn → Conn) : List Conn :=
  l.map fun c => if c.key = k then f c else c

/-- `PuicPerSessionWriter::WritePacket` sets `blocked_`, `SetWritable` clears it. -/
def setBlocked (b : Bool) : List Conn := update l k ({ · with blocked := b })

/-- `QuicConnection::TearDownLocalConnectionState`. -/
def disconnect : List Conn := update l k ({ · with connected := false })

/-- The connection at `k` is connected and its writer is not blocked: `QuicConnection::WritePacket`
    goes on to the writer. -/
def mayWrite : Bool := (conn? l k).any fun c => c.connected && !c.blocked

/-- The connection at `k` finds its own writer blocked and says so: `QuicConnection::CanWrite`,
    or a termination packet. -/
def isStuck : Bool := (conn? l k).any fun c => c.connected && c.blocked

/-! ## What the wake-up list is about -/

def keys : Set ℕ := {k | ∃ c ∈ l, c.key = k}

def waiting : Set ℕ :=
  {k | ∃ c ∈ l, c.key = k ∧ c.connected = true ∧ c.blocked = true}

/-- Ids and addresses tell the same connections apart, and `next` is a new address. -/
structure WF (l : List Conn) (next : ℕ) : Prop where
  inj : ∀ c ∈ l, ∀ c' ∈ l, c.id = c'.id ↔ c.key = c'.key
  fresh : ∀ c ∈ l, c.key < next

variable {l : List Conn} {k next : ℕ}

variable {c : Conn} {f : Conn → Conn}

theorem conn?_some (h : conn? l k = some c) : c ∈ l ∧ c.key = k :=
  ⟨mem_of_find?_eq_some h, by simpa using find?_some h⟩

theorem conn?_none (h : conn? l k = none) : k ∉ keys l := fun ⟨c, hc, hk⟩ => by
  have := find?_eq_none.1 h c hc
  simp [hk] at this

theorem conn?_any {P : Conn → Bool} (h : (conn? l k).any P = true) : ∃ c ∈ l, c.key = k ∧ P c = true := by
  obtain ⟨c, hc, hP⟩ := (Option.any_eq_true _ _).1 h
  exact ⟨c, (conn?_some hc).1, (conn?_some hc).2, hP⟩

theorem mem_waiting_of_isStuck (h : isStuck l k = true) : k ∈ waiting l := by
  obtain ⟨c, hc, hk, hP⟩ := conn?_any h
  exact ⟨c, hc, hk, Bool.and_eq_true_iff.1 hP⟩

theorem mayWrite_connected (h : mayWrite l k = true) : ∃ c ∈ l, c.key = k ∧ c.connected = true := by
  obtain ⟨c, hc, hk, hP⟩ := conn?_any h
  exact ⟨c, hc, hk, (Bool.and_eq_true_iff.1 hP).1⟩

theorem mem_keys_of_mayWrite (h : mayWrite l k = true) : k ∈ keys l := by
  obtain ⟨c, hc, hk, -⟩ := mayWrite_connected h
  exact ⟨c, hc, hk⟩

theorem keys_eq_empty (h : keys l = ∅) : l = [] := by
  refine eq_nil_iff_forall_not_mem.2 fun c hc => ?_
  have : c.key ∈ keys l := ⟨c, hc, rfl⟩
  simp [h] at this

theorem WF.update (h : WF l next) (k : ℕ)
    (hf : ∀ c, (f c).key = c.key ∧ (f c).id = c.id) : WF (update l k f) next := by
  have key : ∀ c, (if c.key = k then f c else c).key = c.key := fun c => by
    split
    · exact (hf c).1
    · rfl
  have id : ∀ c, (if c.key = k then f c else c).id = c.id := fun c => by
    split
    · exact (hf c).2
    · rfl
  refine ⟨?_, ?_⟩
  · intro c hc c' hc'
    obtain ⟨a, ha, rfl⟩ := mem_map.1 hc
    obtain ⟨a', ha', rfl⟩ := mem_map.1 hc'
    rw [key, key, id, id]; exact h.inj a ha a' ha'
  · intro c hc
    obtain ⟨a, ha, rfl⟩ := mem_map.1 hc
    rw [key]; exact h.fresh a ha

theorem WF.setBlocked (h : WF l next) (k : ℕ) (b : Bool) : WF (setBlocked l k b) next :=
  h.update k fun _ => ⟨rfl, rfl⟩

theorem WF.disconnect (h : WF l next) (k : ℕ) : WF (disconnect l k) next := h.update k fun _ => ⟨rfl, rfl⟩

theorem WF.filter (h : WF l next) (P : Conn → Bool) : WF (l.filter P) next :=
  ⟨fun c hc c' hc' => h.inj c (mem_filter.1 hc).1 c' (mem_filter.1 hc').1,
    fun c hc => h.fresh c (mem_filter.1 hc).1⟩

theorem WF.append (h : WF l next) {id : ℕ} (hid : ∀ c ∈ l, c.id ≠ id) (b b' : Bool) :
    WF (l ++ [⟨next, id, b, b'⟩]) (next + 1) := by
  refine ⟨?_, ?_⟩
  · intro c hc c' hc'
    simp only [mem_append, mem_singleton] at hc hc'
    rcases hc with hc | rfl <;> rcases hc' with hc' | rfl
    · exact h.inj c hc c' hc'
    · exact ⟨fun he => absurd he (hid c hc), fun he => absurd he (h.fresh c hc).ne⟩
    · exact ⟨fun he => absurd he.symm (hid c' hc'), fun he => absurd he.symm (h.fresh c' hc').ne⟩
    · simp
  · intro c hc
    simp only [mem_append, mem_singleton] at hc
    rcases hc with hc | rfl
    · exact Nat.lt_succ_of_lt (h.fresh c hc)
    · exact Nat.lt_succ_self _

theorem WF.succ (h : WF l next) : WF l (next + 1) := ⟨h.inj, fun c hc => Nat.lt_succ_of_lt (h.fresh c hc)⟩

theorem keys_append (id : ℕ) (b b' : Bool) : keys (l ++ [⟨next, id, b, b'⟩]) = insert next (keys l) := by
  ext k; simp [keys, or_comm, eq_comm]

theorem waiting_append (id : ℕ) (b : Bool) : waiting (l ++ [⟨next, id, b, false⟩]) = waiting l := by
  ext k; simp [waiting]

theorem keys_update (hf : ∀ c, (f c).key = c.key) : keys (update l k f) = keys l := by
  ext k'
  simp only [keys, update, mem_map, Set.mem_ofPred_eq]
  constructor
  · rintro ⟨_, ⟨c, hc, rfl⟩, rfl⟩
    exact ⟨c, hc, by split <;> simp [hf]⟩
  · rintro ⟨c, hc, rfl⟩
    exact ⟨_, ⟨c, hc, rfl⟩, by split <;> simp [hf]⟩

@[simp] theorem keys_setBlocked (b : Bool) : keys (setBlocked l k b) = keys l :=
  keys_update fun _ => rfl

@[simp] theorem keys_disconnect : keys (disconnect l k) = keys l := keys_update fun _ => rfl

/-- A change after which the connection at `k` does not wait takes `k`, and only `k`, out of the
    waiting connections. -/
theorem waiting_update
    (hf : ∀ c, (f c).key = c.key ∧ ((f c).connected && (f c).blocked) = false) :
    waiting (update l k f) = waiting l \ {k} := by
  ext k'
  simp only [waiting, update, mem_map, Set.mem_ofPred_eq, Set.mem_sdiff, Set.mem_singleton_iff]
  constructor
  · rintro ⟨_, ⟨a, ha, rfl⟩, rfl, hac, hab⟩
    by_cases hak : a.key = k
    · simp only [hak, ↓reduceIte] at hac hab
      have := (hf a).2
      simp [hac, hab] at this
    · simp only [hak, ↓reduceIte] at hac hab
      exact ⟨⟨a, ha, by simp [hak], hac, hab⟩, by simp [hak]⟩
  · rintro ⟨⟨a, ha, rfl, hac, hab⟩, hak⟩
    exact ⟨_, ⟨a, ha, rfl⟩, by simp [hak, hac, hab]⟩

theorem waiting_setBlocked_false : waiting (setBlocked l k false) = waiting l \ {k} :=
  waiting_update fun _ => ⟨rfl, by simp⟩

theorem waiting_disconnect : waiting (disconnect l k) = waiting l \ {k} :=
  waiting_update fun _ => ⟨rfl, by simp⟩

theorem waiting_setBlocked_true (h : mayWrite l k = true) :
    waiting (setBlocked l k true) = insert k (waiting l) := by
  obtain ⟨c, hc, hk, hcon⟩ := mayWrite_connected h
  ext k'
  simp only [waiting, setBlocked, update, mem_map, Set.mem_ofPred_eq, Set.mem_insert_iff]
  constructor
  · rintro ⟨_, ⟨a, ha, rfl⟩, rfl, hac, hab⟩
    by_cases hak : a.key = k
    · simp [hak]
    · simp only [hak, ↓reduceIte] at hac hab ⊢
      exact .inr ⟨a, ha, rfl, hac, hab⟩
  · rintro (rfl | ⟨a, ha, rfl, hac, hab⟩)
    · exact ⟨_, ⟨c, hc, rfl⟩, by simp [hk, hcon]⟩
    · exact ⟨_, ⟨a, ha, rfl⟩, by split <;> simp [hac, hab]⟩

/-- The connections with `P` when those filed under the id of the one at `k` are taken out. -/
theorem unfile (h : WF l next) (hc : conn? l k = some c) (P : Conn → Prop) :
    {k' | ∃ a ∈ l.filter (·.id != c.id), a.key = k' ∧ P a} = {k' | ∃ a ∈ l, a.key = k' ∧ P a} \ {k} := by
  obtain ⟨hc, hk⟩ := conn?_some hc
  have hkey : ∀ a ∈ l, a.id ≠ c.id ↔ a.key ≠ k := fun a ha => not_congr (hk ▸ h.inj a ha c hc)
  ext k'
  simp only [mem_filter, bne_iff_ne, Set.mem_ofPred_eq, Set.mem_sdiff, Set.mem_singleton_iff]
  constructor
  · rintro ⟨a, ⟨ha, hne⟩, rfl, hP⟩
    exact ⟨⟨a, ha, rfl, hP⟩, (hkey a ha).1 hne⟩
  · rintro ⟨⟨a, ha, rfl, hP⟩, hne⟩
    exact ⟨a, ⟨ha, (hkey a ha).2 hne⟩, rfl, hP⟩

theorem keys_unfile (h : WF l next) (hc : conn? l k = some c) :
    keys (l.filter (·.id != c.id)) = keys l \ {k} := by
  simpa only [keys, and_true] using unfile h hc fun _ => True

theorem waiting_unfile (h : WF l next) (hc : conn? l k = some c) :
    waiting (l.filter (·.id != c.id)) = waiting l \ {k} :=
  unfile h hc fun a => a.connected = true ∧ a.blocked = true

end ConnTable
end Puic
