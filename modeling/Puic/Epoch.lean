/-
  Numbers that are sent without their high bytes (quic_framer.cc).

  A packet number is sent with its low bytes only, and a timestamp in an ACK with its
  low four; the reader chooses the number closest to the one it expects.  The
  arithmetic is that of `uint64_t`.

  `calculatePacketNumberFromWire_eq_iff`: a number comes back if it is less than half an
  epoch above the expected one, or half an epoch above it and in the next epoch; in the
  first epoch it always does.
-/
import Mathlib.Algebra.Order.Ring.Nat
import Mathlib.Tactic.Common
import Mathlib.Tactic.Ring

namespace Puic

def wrap64 (n : ℕ) : ℕ := n % 2 ^ 64

/-- `Delta`. -/
def delta (a b : ℕ) : ℕ := if a < b then b - a else a - b

/-- `ClosestTo`. -/
def closestTo (target a b : ℕ) : ℕ := if delta target a < delta target b then a else b

/-- What the two readers have in common: the low part `n` belongs to the epoch of `base`, the one
    before or the one after, whichever is closest to `target`. -/
def closestEpoch (epochDelta base target n : ℕ) : ℕ :=
  let epoch := base / epochDelta * epochDelta
  let prevEpoch := wrap64 (epoch + 2 ^ 64 - epochDelta)
  let nextEpoch := wrap64 (epoch + epochDelta)
  closestTo target (wrap64 (epoch + n))
    (closestTo target (wrap64 (prevEpoch + n)) (wrap64 (nextEpoch + n)))

/-- A shift by 64 bits is one by none on the machines this runs on. -/
def calculatePacketNumberFromWire (packetNumberLength base n : ℕ) : ℕ :=
  closestEpoch (2 ^ (8 * packetNumberLength % 64)) base (wrap64 (base + 1)) n

def calculateTimestampFromWire (lastTimestamp timeDelta : ℕ) : ℕ :=
  closestEpoch (2 ^ 32) lastTimestamp lastTimestamp timeDelta

/-! ## The closest number -/

theorem delta_eq (a b : ℕ) : delta a b = (a - b) + (b - a) := by
  unfold delta
  split <;> omega

theorem closestTo_cases (target a b : ℕ) :
    (closestTo target a b = a ∧ (target - a) + (a - target) < (target - b) + (b - target)) ∨
      (closestTo target a b = b ∧ (target - b) + (b - target) ≤ (target - a) + (a - target)) := by
  unfold closestTo
  rw [delta_eq, delta_eq]
  split
  · exact .inl ⟨rfl, by assumption⟩
  · exact .inr ⟨rfl, by omega⟩

section Epochs

variable {E base : ℕ} (hE : 0 < E) (h64 : E ∣ 2 ^ 64)
include hE h64

theorem epoch_bounds (hbase : base < 2 ^ 64) :
    base = base / E * E + base % E ∧ base % E < E ∧ base / E * E + E ≤ 2 ^ 64 := by
  obtain ⟨m, hm⟩ := h64
  have hlt : base / E < m := Nat.div_lt_of_lt_mul (hm ▸ hbase)
  refine ⟨(Nat.div_add_mod' base E).symm, Nat.mod_lt base hE, ?_⟩
  calc base / E * E + E = (base / E + 1) * E := by ring
    _ ≤ m * E := Nat.mul_le_mul_right E hlt
    _ = 2 ^ 64 := by rw [hm, Nat.mul_comm]

omit hE in
/-- An epoch is the last one, or there is another one after it. -/
theorem epoch_last (hbase : base < 2 ^ 64) :
    base / E * E + E = 2 ^ 64 ∨ base / E * E + 2 * E ≤ 2 ^ 64 := by
  obtain ⟨m, hm⟩ := h64
  have hlt : base / E < m := Nat.div_lt_of_lt_mul (hm ▸ hbase)
  rcases Nat.lt_or_ge (base / E + 1) m with hnext | hlast
  · right
    calc base / E * E + 2 * E = (base / E + 2) * E := by ring
      _ ≤ m * E := Nat.mul_le_mul_right E hnext
      _ = 2 ^ 64 := by rw [hm, Nat.mul_comm]
  · left
    have hm1 : m = base / E + 1 := by omega
    rw [hm, hm1]
    ring

omit h64 in
theorem epoch_first (base : ℕ) : base < E ∧ base / E * E = 0 ∨ E ≤ base ∧ E ≤ base / E * E := by
  rcases Nat.lt_or_ge base E with h0 | h0
  · exact .inl ⟨h0, by rw [Nat.div_eq_of_lt h0, Nat.zero_mul]⟩
  · exact .inr ⟨h0, Nat.le_mul_of_pos_left E (Nat.div_pos h0 hE)⟩

theorem closestEpoch_eq {n : ℕ} (target : ℕ) (hbase : base < 2 ^ 64) (hn : n < E) :
    ∃ prev next, closestEpoch E base target n = closestTo target (base / E * E + n)
    (closestTo target prev next) ∧
      (base < E ∧ base / E * E = 0 ∧ prev = 2 ^ 64 - E + n ∨
        E ≤ base ∧ E ≤ base / E * E ∧ prev = base / E * E - E + n) ∧
      (base / E * E + E = 2 ^ 64 ∧ next = n ∨ base / E * E + 2 * E ≤ 2 ^ 64 ∧
        next = base / E * E + E + n) := by
  have hlast := epoch_last h64 hbase
  have hfirst := epoch_first hE base
  refine ⟨wrap64 (wrap64 (base / E * E + 2 ^ 64 - E) + n), wrap64 (wrap64 (base / E * E + E) + n),
    ?_, ?_, ?_⟩
  · have hcur : wrap64 (base / E * E + n) = base / E * E + n := by
      unfold wrap64
      omega
    unfold closestEpoch
    dsimp only
    rw [hcur]
  · generalize base / E * E = A at *
    unfold wrap64
    omega
  · generalize base / E * E = A at *
    unfold wrap64
    omega

end Epochs

section Candidates

variable {E A B base p r prev next : ℕ} (h3 : 3 * E ≤ 2 ^ 64) (hbase : A ≤ base ∧ base < A + E)
    (hlt : base < p)
  (hr : r < E) (hp : p = B + r)
  (hprev : base < E ∧ A = 0 ∧ prev = 2 ^ 64 - E + r ∨ E ≤ base ∧ E ≤ A ∧ prev = A - E + r)
  (hnext : A + E = 2 ^ 64 ∧ next = r ∨ A + 2 * E ≤ 2 ^ 64 ∧ next = A + E + r)
include h3 hbase hlt hr hp hprev hnext

theorem closest_same (hB : B = A) :
    closestTo (base + 1) (A + r) (closestTo (base + 1) prev next) = p ↔
      p < E ∨ 2 * (p - (base + 1)) < E := by
  rcases closestTo_cases (base + 1) prev next with ⟨he, hd⟩ | ⟨he, hd⟩ <;> rw [he] <;>
    rcases closestTo_cases (base + 1) (A + r) _ with ⟨he', hd'⟩ | ⟨he', hd'⟩ <;> rw [he'] <;>
    omega

theorem closest_next (hB : B = A + E) (htop : B + E ≤ 2 ^ 64) :
    closestTo (base + 1) (A + r) (closestTo (base + 1) prev next) = p ↔ 2 * (p - (base + 1)) ≤ E := by
  rcases closestTo_cases (base + 1) prev next with ⟨he, hd⟩ | ⟨he, hd⟩ <;> rw [he] <;>
    rcases closestTo_cases (base + 1) (A + r) _ with ⟨he', hd'⟩ | ⟨he', hd'⟩ <;> rw [he'] <;>
    omega

omit hprev in
theorem closest_far (hB : A + 2 * E ≤ B) (htop : B + E ≤ 2 ^ 64) :
    closestTo (base + 1) (A + r) (closestTo (base + 1) prev next) ≠ p := by
  rcases closestTo_cases (base + 1) prev next with ⟨he, hd⟩ | ⟨he, hd⟩ <;> rw [he] <;>
    rcases closestTo_cases (base + 1) (A + r) _ with ⟨he', hd'⟩ | ⟨he', hd'⟩ <;> rw [he'] <;>
    omega

end Candidates

theorem closestEpoch_eq_iff {E base p : ℕ} (hE : 0 < E) (h64 : E ∣ 2 ^ 64) (h3 : 3 * E ≤ 2 ^ 64)
    (hlt : base < p)
    (hp : p < 2 ^ 64) :
    closestEpoch E base (base + 1) (p % E) = p ↔
      (p / E = base / E ∧ (p < E ∨ 2 * (p - (base + 1)) < E)) ∨
        (p / E = base / E + 1 ∧ 2 * (p - (base + 1)) ≤ E) := by
  obtain ⟨hb, hbm, -⟩ := epoch_bounds hE h64 (hlt.trans hp)
  obtain ⟨he, hem, htop⟩ := epoch_bounds hE h64 hp
  obtain ⟨prev, next, heq, hprev, hnext⟩ := closestEpoch_eq hE h64 (base + 1) (hlt.trans hp) hem
  have hbase : base / E * E ≤ base ∧ base < base / E * E + E := ⟨by omega, by omega⟩
  rw [heq]
  rcases Nat.lt_trichotomy (p / E) (base / E + 1) with h | h | h
  · have hsame : p / E = base / E := Nat.le_antisymm (Nat.le_of_lt_succ h) (Nat.div_le_div_right hlt.le)
    rw [closest_same h3 hbase hlt hem he hprev hnext (by rw [hsame])]
    simp [hsame]
  · rw [closest_next h3 hbase hlt hem he hprev hnext (by rw [h]; ring) htop]
    simp [h]
  · have hfar : base / E * E + 2 * E ≤ p / E * E := by
      calc base / E * E + 2 * E = (base / E + 2) * E := by ring
        _ ≤ p / E * E := Nat.mul_le_mul_right E h
    simp only [closest_far h3 hbase hlt hem he hnext hfar htop, false_iff]
    omega

/-- The numbers a reader expects that has seen nothing, or anything, of what was sent from `least` on. -/
def Recovers (packetNumberLength p least : ℕ) : Prop :=
  ∀ base, least - 1 ≤ base → base ≤ p - 1 →
    calculatePacketNumberFromWire packetNumberLength base (p % 2 ^ (8 * packetNumberLength)) = p

/-- The low bytes say it all, or the span is less than half an epoch, or half an epoch and reaches
    into the next. -/
def Narrow (packetNumberLength p least : ℕ) : Prop :=
  let epochDelta := 2 ^ (8 * packetNumberLength)
  p < epochDelta ∨ 2 * (p - least) < epochDelta ∨
    2 * (p - least) = epochDelta ∧ (least - 1) / epochDelta ≠ p / epochDelta

section Recovers

variable {length p least : ℕ} (h1 : 0 < least) (hle : least ≤ p) (hp : p < 2 ^ 64)
include h1 hle hp

theorem recovers_iff (hl : 0 < length) (hl6 : length ≤ 6) :
    Recovers length p least ↔ Narrow length p least := by
  have hE : 0 < 2 ^ (8 * length) := Nat.pow_pos (by decide)
  have h64 : 2 ^ (8 * length) ∣ 2 ^ 64 := Nat.pow_dvd_pow 2 (by omega)
  have hlarge : 2 ^ (8 * length) ≤ 2 ^ 48 := Nat.pow_le_pow_right (by decide) (by omega)
  have hshift : 8 * length % 64 = 8 * length := by omega
  unfold Recovers Narrow calculatePacketNumberFromWire
  rw [hshift]
  generalize 2 ^ (8 * length) = E at *
  have hone (base : ℕ) (hb : base ≤ p - 1) :=
    closestEpoch_eq_iff hE h64 (by omega) (by omega : base < p) hp
  have hwrap (base : ℕ) (hb : base ≤ p - 1) : wrap64 (base + 1) = base + 1 := Nat.mod_eq_of_lt (by omega)
  constructor
  · intro h
    have := (hone (least - 1) (by omega)).1 (by rw [← hwrap _ (by omega)]; exact h _ le_rfl (by omega))
    omega
  · intro h base hlow hhigh
    rw [hwrap base hhigh, hone base hhigh]
    have hle' : base / E ≤ p / E := Nat.div_le_div_right (by omega)
    rcases h with hfirst | hspan
    · left
      rw [Nat.div_eq_of_lt hfirst, Nat.div_eq_of_lt (by omega)]
      exact ⟨rfl, .inl hfirst⟩
    · have hnext : p / E ≤ base / E + 1 := by
        rw [← Nat.add_div_right base hE]
        exact Nat.div_le_div_right (by omega)
      rcases Nat.eq_or_lt_of_le hlow with hb | hb
      · rw [hb] at hspan
        omega
      · omega

/-- With all eight bytes an epoch has one number, and the reader adds what it expects to what it reads. -/
theorem recovers_eight_iff : Recovers 8 p least ↔ p = least ∧ p ≤ 2 := by
  have hread (base : ℕ) : calculatePacketNumberFromWire 8 base (p % 2 ^ (8 * 8)) =
      closestTo (wrap64 (base + 1)) (wrap64 (base + p))
        (closestTo (wrap64 (base + 1)) (wrap64 (wrap64 (base + 2 ^ 64 - 1) + p))
          (wrap64 (wrap64 (base + 1) + p))) := by
    have hone : 2 ^ (8 * 8 % 64) = 1 := rfl
    rw [Nat.mod_eq_of_lt hp, calculatePacketNumberFromWire, hone, closestEpoch, Nat.div_one, Nat.mul_one]
  constructor
  · intro h
    have hlast := (hread (p - 1)).symm.trans (h (p - 1) (by omega) le_rfl)
    have h2 : p ≤ 2 := by
      rcases closestTo_cases (wrap64 (p - 1 + 1)) (wrap64 (p - 1 + p)) _ with ⟨he, -⟩ | ⟨he, -⟩
      · rw [he, wrap64] at hlast
        omega
      · rw [he] at hlast
        rcases closestTo_cases (wrap64 (p - 1 + 1)) _ _ with ⟨he, -⟩ | ⟨he, -⟩
        · rw [he, wrap64, wrap64] at hlast
          omega
        · rw [he, wrap64, wrap64] at hlast
          omega
    refine ⟨?_, h2⟩
    by_contra hne
    obtain rfl : p = 2 := by omega
    obtain rfl : least = 1 := by omega
    exact absurd (h 0 le_rfl (by decide)) (by decide)
  · rintro ⟨rfl, h2⟩ base hlow hhigh
    obtain rfl : base = p - 1 := by omega
    obtain rfl | rfl : p = 1 ∨ p = 2 := by omega
    · decide
    · decide

end Recovers

end Puic
