/-
  The 16-bit floating point numbers of ACK delays (quic_data_writer.cc,
  quic_data_reader.cc): 11 bits of mantissa with a hidden one, 5 bits of exponent.
-/
import Mathlib.Algebra.Order.Ring.Nat
import Mathlib.Order.Bounds.Basic
import Mathlib.Order.Monotone.Basic

namespace Puic

namespace UFloat16

def kUFloat16MantissaBits : ℕ := 11
def kUFloat16MantissaEffectiveBits : ℕ := 12
def kUFloat16MaxValue : ℕ := 0x3ffc0000000

/-- One round of the binary search for the exponent; `s` is the value and the exponent so far. -/
def shift (s : ℕ × ℕ) (offset : ℕ) : ℕ × ℕ :=
  if 2 ^ (kUFloat16MantissaBits + offset) ≤ s.1 then (s.1 / 2 ^ offset, s.2 + offset) else s

/-- The number that `WriteUFloat16` writes. -/
def ofValue (value : ℕ) : ℕ :=
  if value < 2 ^ kUFloat16MantissaEffectiveBits then value
  else if kUFloat16MaxValue ≤ value then 2 ^ 16 - 1
  else
    let s := [16, 8, 4, 2, 1].foldl shift (value, 0)
    (s.1 + s.2 * 2 ^ kUFloat16MantissaBits) % 2 ^ 16

/-- What `ReadUFloat16` makes of a number. -/
def toValue (n : ℕ) : ℕ :=
  if n < 2 ^ kUFloat16MantissaEffectiveBits then n
  else
    let exponent := n / 2 ^ kUFloat16MantissaBits - 1
    (n - exponent * 2 ^ kUFloat16MantissaBits) * 2 ^ exponent

/-- A value as the peer gets it. -/
def round (value : ℕ) : ℕ := toValue (ofValue value)

theorem ofValue_lt (value : ℕ) : ofValue value < 2 ^ 16 := by
  unfold ofValue
  split
  · next h => exact h.trans (by decide)
  · split
    · decide
    · exact Nat.mod_lt _ (by decide)

/-- A number of mantissa `m`, with the hidden one, and exponent `e`. -/
theorem toValue_add {m : ℕ} (e : ℕ) (hlo : 2 ^ 11 ≤ m) (hhi : m < 2 ^ 12) :
    toValue (m + e * 2 ^ 11) = m * 2 ^ e := by
  cases e with
  | zero => rw [Nat.zero_mul, Nat.add_zero, pow_zero, Nat.mul_one]; exact if_pos hhi
  | succ e =>
    have hexp : (m + (e + 1) * 2 ^ 11) / 2 ^ 11 - 1 = e + 1 := by omega
    rw [toValue, if_neg (by simp only [kUFloat16MantissaEffectiveBits]; omega)]
    simp only [kUFloat16MantissaBits, hexp, Nat.add_sub_cancel]

/-- From one number to the next the value grows by the weight of the last bit. -/
theorem toValue_succ_add {m : ℕ} (e : ℕ) (hlo : 2 ^ 11 ≤ m) (hhi : m < 2 ^ 12) :
    toValue (m + e * 2 ^ 11 + 1) = (m + 1) * 2 ^ e := by
  rcases Nat.lt_or_ge (m + 1) (2 ^ 12) with hlt | hge
  · rw [Nat.add_right_comm, toValue_add e (by omega) hlt]
  · -- the mantissa overflows into the exponent
    obtain rfl : m = 2 ^ 12 - 1 := by omega
    have hnext : 2 ^ 12 - 1 + e * 2 ^ 11 + 1 = 2 ^ 11 + (e + 1) * 2 ^ 11 := by omega
    rw [hnext, toValue_add (e + 1) le_rfl (by decide), pow_succ]
    omega

theorem toValue_strictMono : StrictMono toValue := by
  refine strictMono_nat_of_lt_succ fun n => ?_
  rcases Nat.lt_or_ge n (2 ^ 11) with hlt | hge
  · rw [toValue, toValue, if_pos (hlt.trans (by decide)), if_pos (Nat.lt_of_le_of_lt hlt (by decide))]
    exact Nat.lt_succ_self n
  · have hlo : 2 ^ 11 ≤ 2 ^ 11 + n % 2 ^ 11 := Nat.le_add_right _ _
    have hhi : 2 ^ 11 + n % 2 ^ 11 < 2 ^ 12 := by omega
    have hn : n = 2 ^ 11 + n % 2 ^ 11 + (n / 2 ^ 11 - 1) * 2 ^ 11 := by omega
    rw [hn, toValue_succ_add _ hlo hhi, toValue_add _ hlo hhi]
    exact Nat.mul_lt_mul_of_pos_right (Nat.lt_succ_self _) (Nat.two_pow_pos _)

/-- The binary search: the highest bit is below `11 + offset`, and nothing but low bits is gone. -/
structure Shifted (value offset : ℕ) (s : ℕ × ℕ) : Prop where
  low : 2 ^ 11 ≤ s.1
  high : s.1 < 2 ^ (11 + offset)
  value : s.1 = value / 2 ^ s.2

theorem Shifted.shift {value : ℕ} {s : ℕ × ℕ} (offset : ℕ) (h : Shifted value (offset + offset) s) :
    Shifted value offset (UFloat16.shift s offset) := by
  unfold UFloat16.shift
  split
  · next hge =>
    rw [kUFloat16MantissaBits, pow_add] at hge
    have hhigh := h.high
    rw [← Nat.add_assoc, pow_add] at hhigh
    refine ⟨(Nat.le_div_iff_mul_le (Nat.two_pow_pos _)).2 hge, Nat.div_lt_of_lt_mul ?_, ?_⟩
    · rwa [Nat.mul_comm]
    · rw [h.value, Nat.div_div_eq_div_mul, pow_add]
  · next hlt => exact ⟨h.low, Nat.lt_of_not_ge hlt, h.value⟩

/-- A value between the smallest numbers and the largest one has the number of its first twelve bits. -/
theorem ofValue_eq {value : ℕ} (hlo : 2 ^ 12 ≤ value) (hhi : value < kUFloat16MaxValue) :
    ∃ e, 2 ^ 11 ≤ value / 2 ^ e ∧ value / 2 ^ e < 2 ^ 12 ∧
      ofValue value = value / 2 ^ e + e * 2 ^ 11 := by
  have hmax : value < 2 ^ 42 := hhi.trans (by decide)
  have hstart : Shifted value (16 + 16) (value, 0) :=
    ⟨Nat.le_trans (by decide) hlo, hmax.trans (by decide), (Nat.div_one _).symm⟩
  have h : Shifted value 1 ([16, 8, 4, 2, 1].foldl shift (value, 0)) :=
    .shift 1 (.shift 2 (.shift 4 (.shift 8 (hstart.shift 16))))
  rw [ofValue, kUFloat16MantissaEffectiveBits, if_neg (Nat.not_lt.2 hlo), if_neg (Nat.not_le.2 hhi)]
  generalize [16, 8, 4, 2, 1].foldl shift (value, 0) = s at h
  obtain ⟨m, e⟩ := s
  obtain ⟨hm, hm', hv⟩ := h
  dsimp only [kUFloat16MantissaBits] at hm hm' hv ⊢
  subst hv
  have he : e < 31 := by
    by_contra hge
    have hpow := Nat.pow_le_pow_right Nat.two_pos (Nat.le_of_not_gt hge)
    have hdiv := Nat.div_le_div_left (a := value) hpow (Nat.two_pow_pos 31)
    omega
  refine ⟨e, hm, hm', ?_⟩
  omega

theorem ofValue_floor {value : ℕ} (h : value < kUFloat16MaxValue) :
    toValue (ofValue value) ≤ value ∧ value < toValue (ofValue value + 1) := by
  rcases Nat.lt_or_ge value (2 ^ 12) with hlt | hge
  · have hof : ofValue value = value := if_pos hlt
    have hto : toValue value = value := if_pos hlt
    rw [hof]
    exact ⟨hto.le, hto.symm.trans_lt (toValue_strictMono (Nat.lt_succ_self _))⟩
  · obtain ⟨e, hlo, hhi, hof⟩ := ofValue_eq hge h
    rw [hof, toValue_add e hlo hhi, toValue_succ_add e hlo hhi]
    exact ⟨Nat.div_mul_le_self _ _, (Nat.div_lt_iff_lt_mul (Nat.two_pow_pos e)).1 (Nat.lt_succ_self _)⟩

/-- The encoder and the decoder are adjoint. -/
theorem toValue_le_iff {u : ℕ} (v : ℕ) (hu : u < 2 ^ 16) : toValue u ≤ v ↔ u ≤ ofValue v := by
  rcases Nat.lt_or_ge v kUFloat16MaxValue with hlt | hge
  · obtain ⟨hle, hgt⟩ := ofValue_floor hlt
    constructor
    · exact fun h => Nat.lt_succ_iff.1 (toValue_strictMono.lt_iff_lt.1 (h.trans_lt hgt))
    · exact fun h => (toValue_strictMono.monotone h).trans hle
  · have hmax : ofValue v = 2 ^ 16 - 1 := by
      rw [ofValue, if_neg (Nat.not_lt.2 (Nat.le_trans (by decide) hge)), if_pos hge]
    have hle : u ≤ 2 ^ 16 - 1 := Nat.le_pred_of_lt hu
    rw [hmax]
    exact iff_of_true ((toValue_strictMono.monotone hle).trans (Nat.le_trans (by decide) hge)) hle

theorem round_le (v : ℕ) : round v ≤ v := (toValue_le_iff v (ofValue_lt v)).2 le_rfl

/-- What is lost is below the last of the twelve bits. -/
theorem sub_round_le {v : ℕ} (hv : v < kUFloat16MaxValue) : (v - round v) * 2 ^ 11 ≤ v := by
  unfold round
  rcases Nat.lt_or_ge v (2 ^ 12) with hlt | hge
  · have hof : ofValue v = v := if_pos hlt
    have hto : toValue v = v := if_pos hlt
    simp [hof, hto]
  · obtain ⟨e, hlo, hhi, hof⟩ := ofValue_eq hge hv
    rw [hof, toValue_add e hlo hhi, Nat.mul_comm (v / 2 ^ e), ← Nat.mod_eq_sub]
    calc v % 2 ^ e * 2 ^ 11 ≤ 2 ^ e * (v / 2 ^ e) :=
          Nat.mul_le_mul (Nat.mod_lt v (Nat.two_pow_pos e)).le hlo
      _ ≤ v := Nat.mul_div_le v _

/-- **The number of a value is that of the largest representable value below it**: the encoder is
    an order-preserving floor, exact on what the decoder returns. -/
theorem ufloat16_floor (v w : ℕ) :
    IsGreatest {x | x ≤ v ∧ ∃ u < 2 ^ 16, toValue u = x} (round v) ∧
    (kUFloat16MaxValue ≤ v → round v = kUFloat16MaxValue) ∧
    (v ≤ kUFloat16MaxValue → (v - round v) * 2 ^ 11 ≤ v) ∧
    (v ≤ w → ofValue v ≤ ofValue w) ∧
    ∀ u < 2 ^ 16, ofValue (toValue u) = u := by
  have hmax : kUFloat16MaxValue = toValue (2 ^ 16 - 1) := by decide
  have hround : kUFloat16MaxValue ≤ v → round v = kUFloat16MaxValue := by
    intro hv
    rw [hmax, toValue_le_iff v (by decide)] at hv
    exact (congrArg toValue (Nat.le_antisymm (Nat.le_pred_of_lt (ofValue_lt v)) hv)).trans hmax.symm
  refine ⟨⟨⟨round_le v, ofValue v, ofValue_lt v, rfl⟩, ?_⟩, hround, fun hv => ?_, fun hvw => ?_,
    fun u hu => ?_⟩
  · rintro x ⟨hx, u, hu, rfl⟩
    exact toValue_strictMono.monotone ((toValue_le_iff v hu).1 hx)
  · rcases hv.lt_or_eq with hlt | rfl
    · exact sub_round_le hlt
    · simp [hround le_rfl]
  · exact (toValue_le_iff w (ofValue_lt v)).1 ((round_le v).trans hvw)
  · refine Nat.le_antisymm ?_ ((toValue_le_iff _ hu).1 le_rfl)
    exact toValue_strictMono.le_iff_le.1 (round_le (toValue u))

end UFloat16

end Puic
