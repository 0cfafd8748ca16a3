/-
  Numbers and records in bytes.

  `encode k n` are the `k` low bytes of a number, the most significant one first, and
  `decode` reads them back.  A `Reader` takes what it needs from the front of the bytes
  or fails with a message; `Reads r bs a` says that on `bs` it returns `a` and leaves
  alone what comes after.  A `Writer` is a buffer with a capacity.
-/
import Mathlib.Algebra.Order.Ring.Nat
import Mathlib.Tactic.Ring

namespace Wire

/-! ## Numbers -/

def encode : ℕ → ℕ → List UInt8
  | 0, _ => []
  | k + 1, n => UInt8.ofNat (n / 256 ^ k) :: encode k n

def decode (bytes : List UInt8) : ℕ := bytes.foldl (fun n b => n * 256 + b.toNat) 0

variable {k n m : ℕ} {bs cs data rest : List UInt8}

@[simp] theorem length_encode : (encode k n).length = k := by
  induction k with
  | zero => rfl
  | succ k ih => rw [encode, List.length_cons, ih]

theorem foldl_decode (bs : List UInt8) (m : ℕ) :
    bs.foldl (fun n b => n * 256 + b.toNat) m = m * 256 ^ bs.length + decode bs := by
  induction bs generalizing m with
  | nil => simp [decode]
  | cons b bs ih =>
    have h0 : decode (b :: bs) = (0 * 256 + b.toNat) * 256 ^ bs.length + decode bs := ih _
    rw [List.foldl_cons, ih, h0, List.length_cons, Nat.pow_succ]
    ring

theorem decode_cons (b : UInt8) : decode (b :: bs) = b.toNat * 256 ^ bs.length + decode bs := by
  have h := foldl_decode bs (0 * 256 + b.toNat)
  simpa [decode] using h

theorem decode_concat (b : UInt8) : decode (bs ++ [b]) = decode bs * 256 + b.toNat := by
  rw [decode, List.foldl_append]
  rfl

theorem decode_encode : decode (encode k n) = n % 256 ^ k := by
  induction k with
  | zero => rw [Nat.pow_zero, Nat.mod_one]; rfl
  | succ k ih =>
    have hb : (UInt8.ofNat (n / 256 ^ k)).toNat = n / 256 ^ k % 256 := UInt8.toNat_ofNat'
    rw [encode, decode_cons, ih, length_encode, hb, Nat.pow_succ 256, Nat.mod_mul]
    ring

theorem decode_lt : decode bs < 256 ^ bs.length := by
  induction bs with
  | nil => decide
  | cons b bs ih =>
    have hb := b.toNat_lt
    rw [decode_cons, List.length_cons, Nat.pow_succ]
    have : b.toNat * 256 ^ bs.length ≤ 255 * 256 ^ bs.length := Nat.mul_le_mul_right _ (by omega)
    omega

theorem encode_add_mul : encode k (m * 256 ^ k + n) = encode k n := by
  induction k generalizing m with
  | zero => rfl
  | succ k ih =>
    have hsplit : m * 256 ^ (k + 1) + n = m * 256 * 256 ^ k + n := by
      ring
    have hdiv : (m * 256 * 256 ^ k + n) / 256 ^ k = m * 256 + n / 256 ^ k := by
      rw [Nat.add_comm, Nat.add_mul_div_right _ _ (Nat.pow_pos (by decide)), Nat.add_comm]
    have hbyte : UInt8.ofNat (m * 256 + n / 256 ^ k) = UInt8.ofNat (n / 256 ^ k) := by
      refine UInt8.toNat_inj.1 ?_
      rw [UInt8.toNat_ofNat', UInt8.toNat_ofNat']
      omega
    rw [encode, encode, hsplit, ih, hdiv, hbyte]

theorem encode_decode (bs : List UInt8) : encode bs.length (decode bs) = bs := by
  induction bs with
  | nil => rfl
  | cons b bs ih =>
    have hlt : decode bs < 256 ^ bs.length := decode_lt
    have hdiv : (b.toNat * 256 ^ bs.length + decode bs) / 256 ^ bs.length = b.toNat := by
      rw [Nat.add_comm, Nat.add_mul_div_right _ _ (Nat.pow_pos (by decide)), Nat.div_eq_of_lt hlt,
        Nat.zero_add]
    rw [List.length_cons, encode, decode_cons, hdiv, encode_add_mul, ih, UInt8.ofNat_toNat]

/-- The least significant byte first. -/
def encodeLe (k n : ℕ) : List UInt8 := (encode k n).reverse

def decodeLe (bytes : List UInt8) : ℕ := decode bytes.reverse

@[simp] theorem length_encodeLe :
    (encodeLe k n).length = k := by rw [encodeLe, List.length_reverse, length_encode]

theorem decodeLe_encodeLe : decodeLe (encodeLe k n) = n % 256 ^ k := by
  rw [decodeLe, encodeLe, List.reverse_reverse, decode_encode]

theorem encodeLe_decodeLe (h : bs.length = k) : encodeLe k (decodeLe bs) = bs := by
  have hr := encode_decode bs.reverse
  rw [List.length_reverse, h] at hr
  rw [encodeLe, decodeLe, hr, List.reverse_reverse]

theorem decodeLe_lt (h : bs.length = k) : decodeLe bs < 256 ^ k := by
  have hr : decode bs.reverse < 256 ^ bs.reverse.length := decode_lt
  rwa [List.length_reverse, h] at hr

/-! ## Reading -/

abbrev Reader (α : Type) := List UInt8 → Except String (α × List UInt8)

namespace Reader

variable {α β γ : Type} {r : Reader α} {f : α → Reader β} {a : α} {b : β} {e : String}

def pure (a : α) : Reader α := fun data => .ok (a, data)

def bind (r : Reader α) (f : α → Reader β) : Reader β := fun data =>
  match r data with
  | .ok (a, rest) => f a rest
  | .error e => .error e

instance : Monad Reader where
  pure := pure
  bind := bind

def fail (e : String) : Reader α := fun _ => .error e

def bytes (n : ℕ) (e : String) : Reader (List UInt8) := fun data =>
  if n ≤ data.length then .ok (data.take n, data.drop n) else .error e

/-- A number of `n` bytes. -/
def uint (n : ℕ) (e : String) : Reader ℕ := do return decode (← bytes n e)

/-- Everything that is left. -/
def remaining : Reader (List UInt8) := fun data => .ok (data, [])

/-- A number that is only there if `c` holds; otherwise it is `m`. -/
def uintIf (c : Prop) [Decidable c] (n : ℕ) (e : String) (m : ℕ) : Reader ℕ :=
  if c then uint n e else Pure.pure m

@[simp] theorem pure_run : (Pure.pure a : Reader α) data = .ok (a, data) := rfl

theorem bind_run : (r >>= f) data = match r data with
    | .ok (a, rest) => f a rest
    | .error e => .error e := rfl

theorem bind_ok {s : β × List UInt8} :
    (r >>= f) data = .ok s ↔ ∃ a rest, r data = .ok (a, rest) ∧ f a rest = .ok s := by
  rw [bind_run]
  cases h : r data with
  | error e => simp
  | ok p =>
    obtain ⟨a, rest⟩ := p
    simp

theorem pure_ok {s : α × List UInt8} : (Pure.pure a : Reader α) data = .ok s ↔ s = (a, data) := by
  rw [pure_run, Except.ok.injEq, eq_comm]

@[simp] theorem fail_ok {s : α × List UInt8} : ¬ fail e data = .ok s := by simp [fail]

theorem bytes_ok {s : List UInt8 × List UInt8} :
    bytes n e data = .ok s ↔ s.1.length = n ∧ data = s.1 ++ s.2 := by
  unfold bytes
  constructor
  · intro h
    split at h
    · next hn =>
      rw [← Except.ok.inj h]
      exact ⟨List.length_take_of_le hn, (List.take_append_drop n data).symm⟩
    · cases h
  · rintro ⟨hn, rfl⟩
    rw [if_pos (by rw [List.length_append]; omega), List.take_left' hn, List.drop_left' hn]

theorem uint_ok {s : ℕ × List UInt8} :
    uint n e data = .ok s ↔ ∃ bs, bs.length = n ∧ data = bs ++ s.2 ∧ s.1 = decode bs := by
  unfold uint
  rw [bind_ok]
  constructor
  · rintro ⟨bs, rest, hb, hp⟩
    obtain ⟨hn, rfl⟩ := bytes_ok.1 hb
    rw [pure_ok.1 hp]
    exact ⟨bs, hn, rfl, rfl⟩
  · rintro ⟨bs, hn, rfl, hs⟩
    exact ⟨bs, s.2, bytes_ok.2 ⟨hn, rfl⟩, pure_ok.2 (by rw [← hs])⟩

theorem uint_lt {s : ℕ × List UInt8} (h : uint n e data = .ok s) : s.1 < 256 ^ n := by
  obtain ⟨bs, hn, -, hs⟩ := uint_ok.1 h
  rw [hs, ← hn]
  exact decode_lt

theorem uintIf_le {c : Prop} [Decidable c] {s : ℕ × List UInt8} (h : uintIf c 1 e m data = .ok s)
    (hm : m ≤ 255) :
    s.1 ≤ 255 := by
  unfold uintIf at h
  split at h
  · exact Nat.le_of_lt_succ (uint_lt h)
  · rwa [pure_ok.1 h]

/-- Whenever it succeeds, the reader takes `n` bytes. -/
def Takes (r : Reader α) (n : ℕ) : Prop :=
  ∀ ⦃data a rest⦄, r data = .ok (a, rest) → data.length = n + rest.length

namespace Takes

theorem pure : Takes (Pure.pure a : Reader α) 0 := by
  intro data a rest h
  obtain ⟨-, rfl⟩ := Prod.mk.inj (pure_ok.1 h)
  exact (Nat.zero_add _).symm

theorem fail : Takes (fail e : Reader α) n := fun _ _ _ h => absurd h fail_ok

theorem bind (h : Takes r n) (hf : ∀ a, Takes (f a) m) : Takes (r >>= f) (n + m) := by
  intro data b rest hb
  obtain ⟨a, data', hr, hb⟩ := bind_ok.1 hb
  rw [h hr, hf a hb, Nat.add_assoc]

theorem map {g : α → β} (h : Takes r n) : Takes (r >>= fun a => Pure.pure (g a)) n := h.bind fun _ => pure

theorem uint : Takes (uint n e) n := by
  intro data a rest h
  obtain ⟨bs, hn, hdata, -⟩ := uint_ok.1 h
  rw [hdata, List.length_append, hn]

theorem uintIf {c : Prop} [Decidable c] : Takes (uintIf c n e m) (if c then n else 0) := by
  unfold Reader.uintIf
  split
  · exact uint
  · exact pure

end Takes

end Reader

/-- On `bs` the reader returns `a`, whatever comes after. -/
def Reads {α : Type} (r : Reader α) (bs : List UInt8) (a : α) : Prop :=
  ∀ rest, r (bs ++ rest) = .ok (a, rest)

namespace Reads

variable {α β : Type} {r : Reader α} {f : α → Reader β} {a : α} {b : β} {e : String}

theorem pure : Reads (Pure.pure a : Reader α) [] a := fun _ => rfl

theorem bind_run (h : Reads r bs a) : (r >>= f) (bs ++ cs) = f a cs := by
  rw [Reader.bind_run, h]

theorem bind (h : Reads r bs a) (hf : Reads (f a) cs b) : Reads (r >>= f) (bs ++ cs) b := by
  intro rest
  rw [List.append_assoc, h.bind_run]
  exact hf rest

theorem bind_nil (h : Reads r [] a) (hf : Reads (f a) cs b) : Reads (r >>= f) cs b := h.bind hf

theorem bind_cons {c : UInt8} (h : Reads r [c] a) (hf : Reads (f a) cs b) :
    Reads (r >>= f) (c :: cs) b := h.bind hf

theorem map {g : α → β} (h : Reads r bs a) : Reads (r >>= fun a => Pure.pure (g a)) bs (g a) := by
  have := h.bind (f := fun a => Pure.pure (g a)) pure
  rwa [List.append_nil] at this

theorem bytes (h : bs.length = n) : Reads (Reader.bytes n e) bs bs := fun _ => Reader.bytes_ok.2 ⟨h, rfl⟩

theorem uint_mod : Reads (Reader.uint k e) (encode k n) (n % 256 ^ k) :=
  fun _ => Reader.uint_ok.2 ⟨encode k n, length_encode, rfl, decode_encode.symm⟩

theorem uint (h : n < 256 ^ k) : Reads (Reader.uint k e) (encode k n) n := by
  have := uint_mod (k := k) (n := n) (e := e)
  rwa [Nat.mod_eq_of_lt h] at this

theorem byte (b : UInt8) : Reads (Reader.uint 1 e) [b] b.toNat :=
  fun _ => Reader.uint_ok.2 ⟨[b], rfl, rfl, by simp [decode]⟩

theorem uintIf_pos {c : Prop} [Decidable c] (hc : c) (h : Reads (Reader.uint k e) bs n) :
    Reads (Reader.uintIf c k e m) bs n := by
  rw [Reader.uintIf, if_pos hc]
  exact h

theorem uintIf_neg {c : Prop} [Decidable c] (hc : ¬ c) : Reads (Reader.uintIf c k e m) [] m := by
  rw [Reader.uintIf, if_neg hc]
  exact pure

end Reads

/-! ## Writing -/

@[ext]
structure Writer where
  capacity : ℕ
  data : List UInt8
  le : data.length ≤ capacity

namespace Writer

variable {w w' : Writer}

def write (w : Writer) (bs : List UInt8) : Option Writer :=
  if h : (w.data ++ bs).length ≤ w.capacity then some ⟨w.capacity, w.data ++ bs, h⟩ else none

/-- One byte again; behind the end it leaves no trace. -/
def writeAt (w : Writer) (offset : ℕ) (b : UInt8) : Option Writer :=
  if offset < w.data.length then
    some ⟨w.capacity, w.data.set offset b, by rw [List.length_set]; exact w.le⟩
  else if offset = w.data.length ∧ w.data.length < w.capacity then some w
  else none

def room (w : Writer) : ℕ := w.capacity - w.data.length

theorem write_eq_some : w.write bs = some w' ↔ w'.capacity = w.capacity ∧ w'.data = w.data ++ bs := by
  unfold write
  constructor
  · intro h
    split at h
    · obtain rfl := Option.some.inj h
      exact ⟨rfl, rfl⟩
    · cases h
  · rintro ⟨hc, hd⟩
    have hle : (w.data ++ bs).length ≤ w.capacity := by
      rw [← hd, ← hc]
      exact w'.le
    rw [dif_pos hle]
    exact congrArg some (Writer.ext hc.symm hd.symm)

theorem write_eq_none : w.write bs = none ↔ w.room < bs.length := by
  have := w.le
  unfold write room
  split
  · next h =>
    rw [List.length_append] at h
    simp only [reduceCtorEq, false_iff]
    omega
  · next h =>
    rw [List.length_append] at h
    simp only [true_iff]
    omega

theorem exists_write : (∃ w', w.write bs = some w') ↔ bs.length ≤ w.room := by
  rw [← not_lt, ← write_eq_none, ← Option.ne_none_iff_exists']

theorem room_write (h : w.write bs = some w') : w'.room + bs.length = w.room := by
  obtain ⟨hc, hd⟩ := write_eq_some.1 h
  have hle := w'.le
  rw [hc, hd, List.length_append] at hle
  rw [room, room, hc, hd, List.length_append]
  omega

@[simp] theorem write_nil : w.write [] = some w := write_eq_some.2 ⟨rfl, (List.append_nil _).symm⟩

@[simp] theorem write_write : (w.write bs).bind (fun w => w.write cs) = w.write (bs ++ cs) := by
  ext w'
  rw [Option.bind_eq_some_iff]
  constructor
  · rintro ⟨w₁, h1, h2⟩
    obtain ⟨hc, hd⟩ := write_eq_some.1 h1
    obtain ⟨hc', hd'⟩ := write_eq_some.1 h2
    exact write_eq_some.2 ⟨hc'.trans hc, by rw [hd', hd, List.append_assoc]⟩
  · intro h
    obtain ⟨hc, hd⟩ := write_eq_some.1 h
    have hlen : bs.length ≤ w.room := by
      have := exists_write.1 ⟨w', h⟩
      rw [List.length_append] at this
      omega
    obtain ⟨w₁, h1⟩ := exists_write.2 hlen
    obtain ⟨hc₁, hd₁⟩ := write_eq_some.1 h1
    exact ⟨w₁, h1, write_eq_some.2 ⟨hc.trans hc₁.symm, by rw [hd, hd₁, List.append_assoc]⟩⟩

@[simp] theorem write_bind_write {α : Type} {f : Writer → Option α} :
    (w.write bs).bind (fun w₁ => (w₁.write cs).bind f) = (w.write (bs ++ cs)).bind f := by
  rw [← write_write, Option.bind_assoc]

theorem write_bind_congr {f g : Writer → Option Writer}
    (h : ∀ w', w'.capacity = w.capacity → w'.data = w.data ++ bs → f w' = g w') :
    (w.write bs).bind f = (w.write bs).bind g := by
  cases hw : w.write bs with
  | none => rfl
  | some w' =>
    obtain ⟨hc, hd⟩ := write_eq_some.1 hw
    exact h w' hc hd

theorem writeAt_eq {b c : UInt8} {front back : List UInt8} (hd : w.data = front ++ b :: back) :
    ∃ w', w.writeAt front.length c = some w' ∧ w'.capacity = w.capacity ∧
      w'.data = front ++ c :: back := by
  have hlt : front.length < w.data.length := by
    rw [hd, List.length_append, List.length_cons]
    omega
  refine ⟨⟨w.capacity, w.data.set front.length c, by rw [List.length_set]; exact w.le⟩, ?_, rfl, ?_⟩
  · rw [writeAt, if_pos hlt]
  · change w.data.set front.length c = _
    rw [hd, List.set_append_right _ _ le_rfl, Nat.sub_self, List.set_cons_zero]

end Writer

end Wire
