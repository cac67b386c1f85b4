import Mathlib
import CoSimBridge.Number.Convert
/-!
# Bit patterns as exact rationals

A finite bit pattern of a binary format stands for the rational `(-1)^s · m · 2^e`
(`Decoded.toRat?`); NaN and the infinities stand for none. Rounding to an integer with halves
away from zero is `nearestAway` on that rational, and the model's own rounding of a decoded
pattern is exactly that (`Decoded.roundHalfAway_eq`).

A binary64 pattern laid out as sign, biased exponent and fraction decodes to the value those
fields describe (`binary64_decode_fields`). Writing a value of at most 53 significant bits
within binary64's exponent range, by the round-to-nearest of the format, loses nothing
(`binary64_roundRatio_exact`, `binary64_ofScaled_exact`); since every binary32 value is such a
value, widening a single to a double keeps its value, its infinities and its NaNs
(`convert_binary32_binary64`).
-/

namespace CoSimBridge.Number
set_option autoImplicit false

namespace Decoded

/-- The rational a decoded pattern stands for; both zeros stand for 0, NaN and the infinities
for none. -/
def toRat? : Decoded → Option ℚ
  | .finite negative m e => some ((if negative then -1 else 1) * m * 2 ^ e)
  | _ => none

end Decoded

/-- The integer nearest to `q`, a half going away from zero. -/
def nearestAway (q : ℚ) : ℤ := if q < 0 then -round (-q) else round q

theorem nearestAway_intCast (z : ℤ) : nearestAway z = z := by
  unfold nearestAway
  split
  · rw [← Int.cast_neg, round_intCast, neg_neg]
  · exact round_intCast z

theorem round_div_two_pow (m k : ℕ) :
    round ((m : ℚ) / 2 ^ k) = ((2 * m + 2 ^ k) / 2 ^ (k + 1) : ℕ) := by
  have hsplit : (m : ℚ) / 2 ^ k + 1 / 2 = ((2 * m + 2 ^ k : ℕ) : ℚ) / ((2 ^ (k + 1) : ℕ) : ℚ) := by
    push_cast
    field_simp
    ring
  rw [round_eq, hsplit, Rat.floor_natCast_div_natCast]
  push_cast
  rfl

theorem nearestAway_of_nonneg {q : ℚ} (hq : 0 ≤ q) : nearestAway q = round q := by
  simp [nearestAway, not_lt.mpr hq]

theorem nearestAway_neg_of_nonneg {q : ℚ} (hq : 0 ≤ q) : nearestAway (-q) = -round q := by
  rcases hq.lt_or_eq with hpos | rfl
  · simp [nearestAway, hpos]
  · simp [nearestAway]

/-- The magnitude the model rounds to is the rounded magnitude of the value. -/
theorem round_scaled (m : ℕ) (e : ℤ) :
    round ((m : ℚ) * 2 ^ e) =
      ((if e ≥ 0 then m * Nat.pow 2 e.toNat
        else (2 * m + Nat.pow 2 (-e).toNat) / Nat.pow 2 ((-e).toNat + 1) : ℕ) : ℤ) := by
  split
  · rename_i he
    obtain ⟨n, rfl⟩ := Int.eq_ofNat_of_zero_le he
    rw [zpow_natCast, ← Nat.cast_ofNat, ← Nat.cast_pow, ← Nat.cast_mul, round_natCast]
    simp [Nat.pow_eq]
  · rename_i he
    obtain ⟨k, hk⟩ : ∃ k : ℕ, e = -k := ⟨(-e).toNat, by omega⟩
    subst hk
    rw [zpow_neg, zpow_natCast, ← div_eq_mul_inv, round_div_two_pow]
    simp [Nat.pow_eq]

theorem Decoded.roundHalfAway_eq (d : Decoded) : d.roundHalfAway = d.toRat?.map nearestAway := by
  cases d with
  | nan => rfl
  | infinite negative => rfl
  | finite negative m e =>
    simp only [roundHalfAway, toRat?, Option.map_some, Option.some.injEq]
    have hx : (0 : ℚ) ≤ m * 2 ^ e := by positivity
    cases negative
    · rw [if_neg Bool.false_ne_true, if_neg Bool.false_ne_true, one_mul,
        nearestAway_of_nonneg hx, round_scaled]
    · rw [if_pos rfl, if_pos rfl, neg_one_mul, neg_mul, nearestAway_neg_of_nonneg hx, round_scaled]

namespace BinaryFormat

/-- A double's bits laid out as sign, biased exponent and stored fraction read as the value those
fields describe. -/
theorem binary64_decode_fields (negative : Bool) (E f : ℕ) (hE : E < 2048) (hf : f < 2 ^ 52) :
    binary64.decode ((if negative then 2 ^ 63 else 0) + E * 2 ^ 52 + f) =
      if E = 2047 then (if f = 0 then .infinite negative else .nan)
      else if E = 0 then .finite negative f (-1074)
      else .finite negative (f + 2 ^ 52) ((E : ℤ) - 1075) := by
  have hsign : ((if negative then 2 ^ 63 else 0) + E * 2 ^ 52 + f) / Nat.pow 2 (52 + 11) % 2 =
      if negative then 1 else 0 := by
    simp only [Nat.pow_eq]
    cases negative <;> simp <;> omega
  have hexp : ((if negative then 2 ^ 63 else 0) + E * 2 ^ 52 + f) / Nat.pow 2 52 % Nat.pow 2 11 = E := by
    simp only [Nat.pow_eq]
    cases negative <;> simp <;> omega
  have hfrac : ((if negative then 2 ^ 63 else 0) + E * 2 ^ 52 + f) % Nat.pow 2 52 = f := by
    simp only [Nat.pow_eq]
    cases negative <;> simp <;> omega
  simp only [decode, signBit, hidden, topExponent, minScale, bias, binary64]
  simp only [hsign, hexp, hfrac]
  cases negative <;> by_cases h2047 : E = 2047 <;> by_cases h0 : E = 0 <;> by_cases hf0 : f = 0 <;>
    simp [h2047, h0, hf0, Nat.pow_eq] <;> omega

theorem binary64_fields_lt (negative : Bool) (E f : ℕ) (hE : E < 2048) (hf : f < 2 ^ 52) :
    (if negative then 2 ^ 63 else 0) + E * 2 ^ 52 + f < 2 ^ 64 := by
  cases negative <;> simp <;> omega

end BinaryFormat

theorem log2_mul_two_pow {m : ℕ} (hm : m ≠ 0) (a : ℕ) : Nat.log2 (m * 2 ^ a) = Nat.log2 m + a := by
  have hlo := Nat.log2_self_le hm
  have hhi := Nat.lt_log2_self (n := m)
  rw [Nat.log2_eq_iff (by positivity)]
  constructor
  · rw [pow_add]
    exact Nat.mul_le_mul_right _ hlo
  · rw [show Nat.log2 m + a + 1 = Nat.log2 m + 1 + a by omega, pow_add]
    exact Nat.mul_lt_mul_of_pos_right hhi (by positivity)

/-- For a ratio of a natural times a power of two to a power of two, the floor of the binary
logarithm is read off the bit length of the natural. -/
theorem floorLog2Ratio_two_pow {m : ℕ} (hm : m ≠ 0) (a b : ℕ) :
    floorLog2Ratio (m * Nat.pow 2 a) (Nat.pow 2 b) = (Nat.log2 m : ℤ) + a - b := by
  have hlo := Nat.log2_self_le hm
  simp only [floorLog2Ratio, Nat.pow_eq, log2_mul_two_pow hm, Nat.log2_two_pow]
  rw [if_neg]
  · push_cast
    ring
  · -- the ratio is at least `2 ^ (log2 m + a - b)`
    simp only [ratioBelowPow2, Nat.pow_eq]
    split
    · rename_i he
      simp only [decide_eq_true_eq, not_lt]
      rw [← pow_add, show b + (((m.log2 + a : ℕ) : ℤ) - b).toNat = m.log2 + a by omega, pow_add]
      exact Nat.mul_le_mul_right _ hlo
    · rename_i he
      simp only [decide_eq_true_eq, not_lt]
      generalize ht : (-(((m.log2 + a : ℕ) : ℤ) - b)).toNat = t
      have hb : b = m.log2 + a + t := by omega
      rw [hb, pow_add, pow_add]
      exact Nat.mul_le_mul_right _ (Nat.mul_le_mul_right _ hlo)


theorem mul_two_pow_lt_log2 (m t : ℕ) : m * 2 ^ t < 2 ^ (Nat.log2 m + 1 + t) := by
  rw [pow_add]
  exact Nat.mul_lt_mul_of_pos_right Nat.lt_log2_self (by positivity)

theorem two_pow_log2_le_mul {m : ℕ} (hm : m ≠ 0) (t : ℕ) : 2 ^ (Nat.log2 m + t) ≤ m * 2 ^ t := by
  rw [pow_add]
  exact Nat.mul_le_mul_right _ (Nat.log2_self_le hm)

theorem roundHalfEven_mul_self (q : ℕ) {d : ℕ} (hd : 0 < d) : roundHalfEven (q * d) d = q := by
  simp [roundHalfEven, Nat.mul_div_cancel _ hd, Nat.mul_mod_left, hd]

namespace BinaryFormat

/-- Writing a significand and scale of binary64 and reading the bits back gives them again, for a
significand below `2^53` at a scale of the format's range; a significand below the hidden bit
must be a subnormal's, at the least scale. -/
theorem binary64_decode_encode (negative : Bool) {m : ℕ} {scale : ℤ} (hm : m < 2 ^ 53)
    (hlow : -1074 ≤ scale) (hhigh : scale < 972) (hsub : m < 2 ^ 52 → scale = -1074) :
    binary64.decode (binary64.encode negative m scale) = .finite negative m scale ∧
      binary64.encode negative m scale < 2 ^ 64 := by
  by_cases hsmall : m < 2 ^ 52
  · have hbits : binary64.encode negative m scale = (if negative then 2 ^ 63 else 0) + 0 * 2 ^ 52 + m := by
      cases negative <;> simp [encode, signBit, hidden, topExponent, bias, binary64] <;>
        split_ifs <;> omega
    rw [hbits, binary64_decode_fields negative 0 m (by norm_num) hsmall, hsub hsmall]
    exact ⟨by simp, binary64_fields_lt negative 0 m (by norm_num) hsmall⟩
  · have hbits : binary64.encode negative m scale =
        (if negative then 2 ^ 63 else 0) + (scale + 1075).toNat * 2 ^ 52 + (m - 2 ^ 52) := by
      cases negative <;> simp [encode, signBit, hidden, topExponent, bias, binary64] <;>
        split_ifs <;> omega
    rw [hbits, binary64_decode_fields negative _ _ (by omega) (by omega)]
    rw [if_neg (by omega), if_neg (by omega)]
    refine ⟨?_, binary64_fields_lt negative _ _ (by omega) (by omega)⟩
    congr 1
    · omega
    · omega


theorem binary64_roundRatio_two_pow (negative : Bool) {m : ℕ} (hm : m ≠ 0) (a b : ℕ)
    (hwidth : Nat.log2 m ≤ 52) (hlow : -1074 ≤ (a : ℤ) - b) :
    binary64.roundRatio negative (m * Nat.pow 2 a) (Nat.pow 2 b) =
      binary64.encode negative
        (m * 2 ^ ((a : ℤ) - b - max ((Nat.log2 m : ℤ) + a - b - 52) (-1074)).toNat)
        (max ((Nat.log2 m : ℤ) + a - b - 52) (-1074)) := by
  have hfb : (binary64.fractionBits : ℤ) = 52 := rfl
  have hmin : binary64.minScale = -1074 := rfl
  have hhidden : 2 * binary64.hidden = 2 ^ 53 := by simp [hidden, binary64, Nat.pow_eq]
  simp only [roundRatio, floorLog2Ratio_two_pow hm]
  simp only [hfb, hmin, hhidden, Nat.pow_eq]
  generalize hs : max ((Nat.log2 m : ℤ) + a - b - 52) (-1074) = scale
  have hs₁ : (Nat.log2 m : ℤ) + a - b - 52 ≤ scale := hs ▸ le_max_left _ _
  have hs₂ : -1074 ≤ scale := hs ▸ le_max_right _ _
  -- the scale is at most the value's exponent, so the significand is an exact multiple
  have hround : (if scale ≥ 0 then roundHalfEven (m * 2 ^ a) (2 ^ b * 2 ^ scale.toNat)
      else roundHalfEven (m * 2 ^ a * 2 ^ (-scale).toNat) (2 ^ b)) =
        m * 2 ^ ((a : ℤ) - b - scale).toNat := by
    split
    · rw [show m * 2 ^ a = m * 2 ^ ((a : ℤ) - b - scale).toNat * (2 ^ b * 2 ^ scale.toNat) by
        rw [mul_assoc, ← pow_add, ← pow_add]
        congr 2
        omega]
      exact roundHalfEven_mul_self _ (by positivity)
    · rw [show m * 2 ^ a * 2 ^ (-scale).toNat = m * 2 ^ ((a : ℤ) - b - scale).toNat * 2 ^ b by
        rw [mul_assoc, mul_assoc, ← pow_add, ← pow_add]
        congr 2
        omega]
      exact roundHalfEven_mul_self _ (by positivity)
  simp only [hround]
  -- and it stays below twice the hidden bit, so no carry moves it to the next binade
  have hlt : m * 2 ^ ((a : ℤ) - b - scale).toNat < 2 ^ 53 :=
    lt_of_lt_of_le (mul_two_pow_lt_log2 m _) (Nat.pow_le_pow_right (by norm_num) (by omega))
  rw [if_neg (by simpa using hlt.ne)]

/-- A value `m · 2^(a - b)` with at most 53 significant bits and an exponent within the range of
binary64 rounds to itself. -/
theorem binary64_roundRatio_exact (negative : Bool) {m : ℕ} (hm : m ≠ 0) (a b : ℕ)
    (hwidth : Nat.log2 m ≤ 52) (hlow : -1074 ≤ (a : ℤ) - b) (hhigh : (Nat.log2 m : ℤ) + a - b < 1024) :
    (binary64.decode (binary64.roundRatio negative (m * Nat.pow 2 a) (Nat.pow 2 b))).toRat? =
        some ((if negative then -1 else 1) * (m : ℚ) * 2 ^ ((a : ℤ) - b)) ∧
      binary64.roundRatio negative (m * Nat.pow 2 a) (Nat.pow 2 b) < 2 ^ 64 := by
  rw [binary64_roundRatio_two_pow negative hm a b hwidth hlow]
  generalize hs : max ((Nat.log2 m : ℤ) + a - b - 52) (-1074) = scale
  have hs₁ : (Nat.log2 m : ℤ) + a - b - 52 ≤ scale := hs ▸ le_max_left _ _
  have hs₂ : -1074 ≤ scale := hs ▸ le_max_right _ _
  have hs₃ : scale = (Nat.log2 m : ℤ) + a - b - 52 ∨ scale = -1074 := by omega
  have hlt : m * 2 ^ ((a : ℤ) - b - scale).toNat < 2 ^ 53 :=
    lt_of_lt_of_le (mul_two_pow_lt_log2 m _) (Nat.pow_le_pow_right (by norm_num) (by omega))
  -- a significand below the hidden bit only occurs at the least scale
  have hsub : m * 2 ^ ((a : ℤ) - b - scale).toNat < 2 ^ 52 → scale = -1074 := by
    intro hsmall
    rcases hs₃ with hnorm | hleast
    · have := two_pow_log2_le_mul hm ((a : ℤ) - b - scale).toNat
      have : 2 ^ 52 ≤ 2 ^ (Nat.log2 m + ((a : ℤ) - b - scale).toNat) :=
        Nat.pow_le_pow_right (by norm_num) (by omega)
      omega
    · exact hleast
  obtain ⟨hdecode, hbound⟩ := binary64_decode_encode negative hlt hs₂ (by omega) hsub
  refine ⟨?_, hbound⟩
  rw [hdecode]
  simp only [Decoded.toRat?, Option.some.injEq]
  push_cast
  rw [mul_assoc, mul_assoc, ← zpow_natCast, ← zpow_add₀ two_ne_zero, ← mul_assoc]
  congr 2
  omega

/-- A finite value with a significand below `2^53` and an exponent within the range of binary64
is written exactly. -/
theorem binary64_ofScaled_exact (negative : Bool) {m : ℕ} {e : ℤ} (hm : m < 2 ^ 53) (hlow : -1074 ≤ e)
    (hhigh : (Nat.log2 m : ℤ) + e < 1024) :
    (binary64.decode (binary64.ofScaled negative m e)).toRat? = (Decoded.finite negative m e).toRat? ∧
      binary64.ofScaled negative m e < 2 ^ 64 := by
  by_cases hzero : m = 0
  · subst hzero
    have hbits : binary64.ofScaled negative 0 e = (if negative then 2 ^ 63 else 0) + 0 * 2 ^ 52 + 0 := by
      cases negative <;> simp [ofScaled, signBit, binary64]
    rw [hbits, binary64_decode_fields negative 0 0 (by norm_num) (by norm_num)]
    exact ⟨by simp [Decoded.toRat?], binary64_fields_lt negative 0 0 (by norm_num) (by norm_num)⟩
  have hwidth : Nat.log2 m ≤ 52 := by
    have := (Nat.log2_lt hzero).mpr hm
    omega
  simp only [ofScaled, if_neg hzero, Decoded.toRat?]
  by_cases he : e ≥ 0
  · rw [if_pos he]
    have h := binary64_roundRatio_exact negative hzero e.toNat 0 hwidth (by omega) (by omega)
    simp only [Nat.cast_zero, sub_zero, Int.toNat_of_nonneg he] at h
    exact h
  · rw [if_neg he]
    have h := binary64_roundRatio_exact negative hzero 0 (-e).toNat hwidth (by omega) (by omega)
    rw [show m * Nat.pow 2 0 = m from Nat.mul_one m] at h
    simp only [Nat.cast_zero, zero_sub] at h
    rw [Int.toNat_of_nonneg (by omega), neg_neg] at h
    exact h

/-- Every finite binary32 value has a significand below `2^24` and a scale between that of the
subnormals and that of the largest binade. -/
theorem binary32_decode_finite {bits : ℕ} {negative : Bool} {m : ℕ} {e : ℤ}
    (h : binary32.decode bits = .finite negative m e) : m < 2 ^ 24 ∧ -149 ≤ e ∧ e ≤ 104 := by
  simp only [decode, signBit, hidden, topExponent, minScale, bias, binary32, Nat.pow_eq] at h
  norm_num at h
  split at h
  · split at h <;> cases h
  · split at h
    · cases h
      omega
    · cases h
      omega

/-- Widening a binary32 value to binary64 keeps its value: a finite one is written exactly, an
infinity stays an infinity and a NaN stays a NaN. The bits fit 64 bits. -/
theorem convert_binary32_binary64 (bits : ℕ) :
    (binary64.decode (convert binary32 binary64 bits)).toRat? = (binary32.decode bits).toRat? ∧
      convert binary32 binary64 bits < 2 ^ 64 := by
  unfold convert
  cases hd : binary32.decode bits with
  | nan =>
    -- the payload moves to the top of the wider fraction, with the quiet bit set
    have hpayload : bits % binary32.hidden * Nat.pow 2 (binary64.fractionBits - binary32.fractionBits) |||
        Nat.pow 2 (binary64.fractionBits - 1) < 2 ^ 52 := by
      simp only [hidden, binary32, binary64, Nat.pow_eq]
      exact Nat.or_lt_two_pow (by omega) (by norm_num)
    have hquiet : bits % binary32.hidden * Nat.pow 2 (binary64.fractionBits - binary32.fractionBits) |||
        Nat.pow 2 (binary64.fractionBits - 1) ≠ 0 := by
      simp [Nat.or_eq_zero_iff, binary64, Nat.pow_eq]
    have hbits : ∀ f : ℕ, (if bits / binary32.signBit % 2 == 1 then binary64.signBit else 0) +
        binary64.topExponent * binary64.hidden + f =
          (if bits / binary32.signBit % 2 == 1 then 2 ^ 63 else 0) + 2047 * 2 ^ 52 + f := by
      intro f
      simp [signBit, topExponent, hidden, binary64, Nat.pow_eq]
    simp only [if_neg (show ¬ (binary32.fractionBits ≥ binary64.fractionBits) by decide)]
    rw [hbits, binary64_decode_fields _ 2047 _ (by norm_num) hpayload]
    simp only [if_neg hquiet]
    exact ⟨rfl, binary64_fields_lt _ 2047 _ (by norm_num) hpayload⟩
  | infinite negative =>
    have hbits : binary64.infinityBits negative = (if negative then 2 ^ 63 else 0) + 2047 * 2 ^ 52 + 0 := by
      cases negative <;> simp [infinityBits, signBit, topExponent, hidden, binary64, Nat.pow_eq]
    simp only
    rw [hbits, binary64_decode_fields negative 2047 0 (by norm_num) (by norm_num)]
    exact ⟨rfl, binary64_fields_lt negative 2047 0 (by norm_num) (by norm_num)⟩
  | finite negative m e =>
    obtain ⟨hm, hlow, hhigh⟩ := binary32_decode_finite hd
    have hwidth : Nat.log2 m < 24 := by
      rcases Nat.eq_zero_or_pos m with rfl | hpos
      · simp
      · exact (Nat.log2_lt hpos.ne').mpr hm
    exact binary64_ofScaled_exact negative (by omega) (by omega) (by omega)

end BinaryFormat

end CoSimBridge.Number
