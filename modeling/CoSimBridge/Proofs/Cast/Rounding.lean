import CoSimBridge.Proofs.Cast.Integers
import CoSimBridge.Proofs.Number.Rational
/-!
# Casts from floats to integer kinds round and then cast exactly

A float cast to an integer kind is read as the rational it stands for (`Decoded.toRat?`),
rounded to the nearest integer with halves away from zero (`nearestAway`) and cast exactly;
NaN and the infinities, which stand for no rational, are range failures (`Cast.RoundsTo`).

The cast of a double does that (`Cast.ofDouble_roundsTo`): its rounding is the model's
`roundHalfAway`, and its two range checks before the integer cast reject only integers that the
target kind cannot hold. A single is widened to the double of the same value first
(`Value.convert_float32_roundsTo`). At the ends of the 64-bit kinds, `2^63` is refused by `Int64`,
`-2^63` accepted, and `2^64` refused by `UInt64` (`Value.convert_float_rounds_at_bounds`).
-/

namespace CoSimBridge
set_option autoImplicit false

namespace Cast
open Number

/-- `res` is the cast to the integer kind `k` of a float of value `x` (none for NaN and the
infinities), rounded to the nearest integer with halves away from zero: a range failure when
there is no value, else the exact cast of the rounded integer. -/
def RoundsTo (k : Kind) : Option ℚ → Except Fault Value → Prop
  | none, res => RangeFault res
  | some q, res => Exact k (nearestAway q) res

/-- For an integer kind, a double is rounded and then range-checked: a 64-bit unsigned target
against `[0, 2^64)`, any other against `[-2^63, 2^63)` before the integer cast. -/
theorem ofDouble_of_integer {k : Kind} (hk : k ∈ Kind.integers) (bits : UInt64) :
    ofDouble bits k =
      match (BinaryFormat.binary64.decode bits.toNat).roundHalfAway with
      | none => .error (outOfRange (renderBits64 bits) k)
      | some r =>
        if k == .uint64 then
          if r < 0 || r ≥ Int.pow 2 64 then .error (outOfRange (renderBits64 bits) k)
          else .ok (.uint64 (UInt64.ofNat r.toNat))
        else if r < -Int.pow 2 63 || r ≥ Int.pow 2 63 then .error (outOfRange (renderBits64 bits) k)
        else ofInteger r k := by
  simp only [Kind.integers, List.mem_cons, List.not_mem_nil, or_false] at hk
  rcases hk with rfl | rfl | rfl | rfl | rfl | rfl | rfl | rfl | rfl <;> rfl

/-- The range checks before the integer cast reject only integers that no integer kind other
than `UInt64` holds. -/
theorem not_holds_of_not_int64 {k : Kind} (hk : k ∈ Kind.integers) (hu : k ≠ .uint64) {r : ℤ}
    (hr : r < -Int.pow 2 63 ∨ r ≥ Int.pow 2 63) : ¬ k.Holds r := by
  intro hheld
  obtain ⟨lo, hi, hrange⟩ := Kind.intRange?_of_mem_integers hk
  have := hheld.intRange hrange
  simp only [Kind.integers, List.mem_cons, List.not_mem_nil, or_false] at hk
  simp only [Int.pow_eq] at hr
  rcases hk with rfl | rfl | rfl | rfl | rfl | rfl | rfl | rfl | rfl <;>
    simp only [Kind.intRange?, Option.some.injEq, Prod.mk.injEq, Int.pow_eq] at hrange <;>
    first | exact hu rfl | omega

theorem ofDouble_roundsTo {k : Kind} (hk : k ∈ Kind.integers) (bits : UInt64) :
    RoundsTo k (BinaryFormat.binary64.decode bits.toNat).toRat? (ofDouble bits k) := by
  rw [ofDouble_of_integer hk, Decoded.roundHalfAway_eq]
  cases (BinaryFormat.binary64.decode bits.toNat).toRat? with
  | none => exact rangeFault_outOfRange _ _
  | some q =>
    simp only [Option.map_some, RoundsTo]
    generalize nearestAway q = r
    by_cases hu : k = .uint64
    · subst hu
      simp only [beq_self_eq_true, if_true]
      split
      · rename_i hout
        refine .inr ⟨fun hheld => ?_, rangeFault_outOfRange _ _⟩
        have := hheld.intRange rfl
        simp only [Bool.or_eq_true, decide_eq_true_eq, Int.pow_eq] at hout this
        omega
      · rename_i hin
        simp only [Bool.or_eq_true, decide_eq_true_eq, not_or, not_lt, not_le, Int.pow_eq] at hin
        refine .inl ⟨_, rfl, rfl, ?_⟩
        simp [Value.toInt?]
        omega
    · rw [if_neg (by simpa using hu)]
      split
      · rename_i hout
        simp only [Bool.or_eq_true, decide_eq_true_eq] at hout
        exact .inr ⟨not_holds_of_not_int64 hk hu hout, rangeFault_outOfRange _ _⟩
      · exact ofInteger_exact hk r

theorem Exact.rangeFault {k : Kind} {i : ℤ} {res : Except Fault Value} (h : Exact k i res)
    (hheld : ¬ k.Holds i) : RangeFault res := by
  rcases h with ⟨v, -, hv, hvi⟩ | ⟨-, hfault⟩
  · exact absurd ⟨v, hv, hvi⟩ hheld
  · exact hfault

theorem Exact.ok {k : Kind} {i : ℤ} {res : Except Fault Value} (h : Exact k i res)
    (hheld : k.Holds i) : ∃ v, res = .ok v ∧ v.hasKind k = true ∧ v.toInt? = some i := by
  rcases h with hok | ⟨hnot, -⟩
  · exact hok
  · exact absurd hheld hnot

end Cast

namespace Value
open Number

/-- A single converts to an integer kind through the double of the same value. -/
theorem convert_float32_roundsTo {k : Kind} (hk : k ∈ Kind.integers) (bits : UInt32) :
    Cast.RoundsTo k (BinaryFormat.binary32.decode bits.toNat).toRat? ((Value.float32 bits).convert k) := by
  have hne : (k == .float32) = false := by
    simp only [Kind.integers, List.mem_cons, List.not_mem_nil, or_false] at hk
    rcases hk with rfl | rfl | rfl | rfl | rfl | rfl | rfl | rfl | rfl <;> rfl
  obtain ⟨hvalue, hbound⟩ := BinaryFormat.convert_binary32_binary64 bits.toNat
  have hbits : (BinaryFormat.convert .binary32 .binary64 bits.toNat).toUInt64.toNat =
      BinaryFormat.convert .binary32 .binary64 bits.toNat := by
    simp only [Nat.toUInt64_eq]
    exact Nat.mod_eq_of_lt hbound
  have h := Cast.ofDouble_roundsTo hk (BinaryFormat.convert .binary32 .binary64 bits.toNat).toUInt64
  rw [hbits, hvalue] at h
  simpa only [convert, hne, Bool.false_eq_true, if_false] using h

/-- A double or a single cast to an integer kind is rounded exactly: NaN and the infinities are
range failures, and a finite value, read as the rational it stands for, is rounded to the nearest
integer with halves away from zero and then cast exactly, so it fails with a range failure just
when the kind holds no such integer. -/
theorem convert_float_rounds {k : Kind} (hk : k ∈ Kind.integers) :
    (∀ bits : UInt64,
      Cast.RoundsTo k (BinaryFormat.binary64.decode bits.toNat).toRat? (Cast.ofDouble bits k)) ∧
    (∀ bits : UInt32,
      Cast.RoundsTo k (BinaryFormat.binary32.decode bits.toNat).toRat? ((Value.float32 bits).convert k)) :=
  ⟨Cast.ofDouble_roundsTo hk, convert_float32_roundsTo hk⟩

/-- At the bounds of the 64-bit kinds: `2^63` does not fit `Int64` while `-2^63` does, and `2^64`
does not fit `UInt64`. -/
theorem convert_float_rounds_at_bounds :
    Cast.RangeFault (Cast.ofDouble 0x43E0000000000000 .int64) ∧
    (∃ v, Cast.ofDouble 0xC3E0000000000000 .int64 = .ok v ∧ v.toInt? = some (-(2 ^ 63))) ∧
    Cast.RangeFault (Cast.ofDouble 0x43F0000000000000 .uint64) := by
  have hpos : (BinaryFormat.binary64.decode (0x43E0000000000000 : UInt64).toNat).toRat? =
      some ((2 ^ 63 : ℤ) : ℚ) := by
    rw [show BinaryFormat.binary64.decode (0x43E0000000000000 : UInt64).toNat = .finite false (2 ^ 52) 11
      by decide]
    norm_num [Decoded.toRat?]
  have hneg : (BinaryFormat.binary64.decode (0xC3E0000000000000 : UInt64).toNat).toRat? =
      some ((-(2 ^ 63) : ℤ) : ℚ) := by
    rw [show BinaryFormat.binary64.decode (0xC3E0000000000000 : UInt64).toNat = .finite true (2 ^ 52) 11
      by decide]
    norm_num [Decoded.toRat?]
  have htop : (BinaryFormat.binary64.decode (0x43F0000000000000 : UInt64).toNat).toRat? =
      some ((2 ^ 64 : ℤ) : ℚ) := by
    rw [show BinaryFormat.binary64.decode (0x43F0000000000000 : UInt64).toNat = .finite false (2 ^ 52) 12
      by decide]
    norm_num [Decoded.toRat?]
  have h₁ := (convert_float_rounds (k := .int64) (by decide)).1 0x43E0000000000000
  have h₂ := (convert_float_rounds (k := .int64) (by decide)).1 0xC3E0000000000000
  have h₃ := (convert_float_rounds (k := .uint64) (by decide)).1 0x43F0000000000000
  rw [hpos] at h₁
  rw [hneg] at h₂
  rw [htop] at h₃
  simp only [Cast.RoundsTo, nearestAway_intCast] at h₁ h₂ h₃
  refine ⟨h₁.rangeFault fun hheld => ?_, ?_, h₃.rangeFault fun hheld => ?_⟩
  · have := hheld.intRange rfl
    simp only [Int.pow_eq] at this
    omega
  · obtain ⟨v, hv, -, hvi⟩ := h₂.ok ⟨.int64 (Int64.ofInt (-(2 ^ 63))), rfl, by decide⟩
    exact ⟨v, hv, hvi⟩
  · have := hheld.intRange rfl
    simp only [Int.pow_eq] at this
    omega

end Value

end CoSimBridge
