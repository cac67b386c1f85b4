import Mathlib
import CoSimBridge.Value.Cast
import CoSimBridge.Proofs.Wire.Conformance
/-!
# Casts to integer kinds are exact

An integer kind holds the integers that some value of its dynamic type stands for (`Kind.Holds`);
for each of them that is the interval of the kind's bounds (`Kind.Holds.intRange`). A cast to an
integer kind is exact when it gives the value of the kind's type that stands for the integer, and
fails with a codec failure of the value-range condition exactly when no such value exists
(`Cast.Exact`).

Casting an integer to an integer kind is exact (`Cast.ofInteger_exact`), and a boolean or integer
value converts through that cast (`Value.convert_of_integer`), so converting it is exact; a result
converts back to the value's own kind unchanged (`Value.convert_convert_of_integer`). Converting
to a boolean or a clock gives whether the integer is non-zero (`convert_integer_exact`).
-/

namespace CoSimBridge
set_option autoImplicit false

namespace Kind

/-- The kinds whose values are integers: the eight fixed widths, and enumerations, which hold a
64-bit signed integer. -/
def integers : List Kind :=
  [.int8, .int16, .int32, .int64, .uint8, .uint16, .uint32, .uint64, .enum]

/-- Some value of the kind's dynamic type stands for the integer `i`. -/
def Holds (k : Kind) (i : Int) : Prop := ∃ v : Value, v.hasKind k = true ∧ v.toInt? = some i

theorem Holds.intRange {k : Kind} {i lo hi : Int} (h : k.Holds i) (hk : k.intRange? = some (lo, hi)) :
    lo ≤ i ∧ i ≤ hi := by
  obtain ⟨v, hv, hi⟩ := h
  cases k <;> simp only [intRange?, Option.some.injEq, Prod.mk.injEq, reduceCtorEq] at hk <;>
    obtain ⟨rfl, rfl⟩ := hk <;> cases v <;> simp [Value.hasKind] at hv <;>
    simp only [Value.toInt?, Option.some.injEq] at hi <;> subst hi <;> simp only [Int.pow_eq] <;>
    rename_i x
  all_goals first
    | (have hlo := x.le_toInt; have hhi := x.toInt_lt; omega)
    | (have hlt := x.toNat_lt; omega)

theorem intRange?_of_mem_integers {k : Kind} (hk : k ∈ integers) :
    ∃ lo hi, k.intRange? = some (lo, hi) := by
  simp only [integers, List.mem_cons, List.not_mem_nil, or_false] at hk
  rcases hk with rfl | rfl | rfl | rfl | rfl | rfl | rfl | rfl | rfl <;> exact ⟨_, _, rfl⟩

end Kind

namespace Value

/-- The integer a boolean or integer value stands for, a boolean as 0 or 1. -/
def integer? : Value → Option Int
  | .bool b => some (if b then 1 else 0)
  | v => v.toInt?

theorem eq_of_toInt?_eq {k : Kind} {v w : Value} (hv : v.hasKind k = true) (hw : w.hasKind k = true)
    {i : Int} (hvi : v.toInt? = some i) (hwi : w.toInt? = some i) : v = w := by
  cases k <;> cases v <;> simp [hasKind] at hv <;> cases w <;> simp [hasKind] at hw <;>
    simp [toInt?] at hvi hwi <;> congr 1 <;>
    simp only [← Int8.toInt_inj, ← Int16.toInt_inj, ← Int32.toInt_inj, ← Int64.toInt_inj,
      ← UInt8.toNat_inj, ← UInt16.toNat_inj, ← UInt32.toNat_inj, ← UInt64.toNat_inj] <;>
    omega

/-- A value of an integer kind is no boolean: its integer is its `toInt?`. -/
theorem integer?_of_hasKind {k : Kind} (hk : k ∈ Kind.integers) {v : Value}
    (hv : v.hasKind k = true) : v.integer? = v.toInt? := by
  simp only [Kind.integers, List.mem_cons, List.not_mem_nil, or_false] at hk
  rcases hk with rfl | rfl | rfl | rfl | rfl | rfl | rfl | rfl | rfl <;>
    cases v <;> simp [hasKind] at hv <;> rfl

end Value

namespace Cast

/-- A failure of the codec class that carries the value-range condition. -/
def RangeFault (res : Except Fault Value) : Prop :=
  ∃ f, res = .error f ∧ f.has .valueRange = true ∧ f.classCode = FaultClass.codec.code

/-- `res` is the exact cast of the integer `i` to the integer kind `k`: the value of the kind's
type that stands for `i`, or, when there is none, a range failure. -/
def Exact (k : Kind) (i : Int) (res : Except Fault Value) : Prop :=
  (∃ v, res = .ok v ∧ v.hasKind k = true ∧ v.toInt? = some i) ∨ (¬ k.Holds i ∧ RangeFault res)

theorem rangeFault_outOfRange (shown : String) (k : Kind) : RangeFault (.error (outOfRange shown k)) :=
  ⟨_, rfl, by simp [outOfRange, Fault.codecf, Fault.codec, Fault.has, Fault.conditions],
    by simp [outOfRange, Fault.codecf, Fault.codec, Fault.classCode, Fault.cls?]⟩

theorem ofInteger_exact {k : Kind} (hk : k ∈ Kind.integers) (i : Int) : Exact k i (ofInteger i k) := by
  simp only [Kind.integers, List.mem_cons, List.not_mem_nil, or_false] at hk
  rcases hk with rfl | rfl | rfl | rfl | rfl | rfl | rfl | rfl | rfl <;>
  · simp only [ofInteger, Kind.intRange?]
    split
    · -- out of the kind's bounds, which every value of the kind respects
      rename_i hout
      refine .inr ⟨fun hi => ?_, rangeFault_outOfRange _ _⟩
      have := hi.intRange rfl
      simp only [Int.pow_eq, Bool.or_eq_true, decide_eq_true_eq] at hout this
      omega
    · rename_i hin
      refine .inl ⟨_, rfl, rfl, ?_⟩
      simp only [Int.pow_eq, Bool.or_eq_true, decide_eq_true_eq, not_or, not_lt] at hin
      simp [Value.toInt?, Int.bmod]
      (try split) <;> omega

/-- The cast of a value's own integer to the value's own kind gives the value back. -/
theorem ofInteger_self {k : Kind} (hk : k ∈ Kind.integers) {x : Value} (hx : x.hasKind k = true)
    {i : Int} (hi : x.toInt? = some i) : ofInteger i k = .ok x := by
  rcases ofInteger_exact hk i with ⟨v, hv, hvk, hvi⟩ | ⟨hheld, -⟩
  · rw [hv, Value.eq_of_toInt?_eq hvk hx hvi hi]
  · exact absurd ⟨x, hx, hi⟩ hheld

end Cast

namespace Value

theorem convert_of_integer {x : Value} {i : Int} (hx : x.integer? = some i) {k : Kind}
    (hk : k ∈ Kind.integers) : x.convert k = Cast.ofInteger i k := by
  have hflag : (k == .bool || k == .clock) = false := by
    simp only [Kind.integers, List.mem_cons, List.not_mem_nil, or_false] at hk
    rcases hk with rfl | rfl | rfl | rfl | rfl | rfl | rfl | rfl | rfl <;> rfl
  cases x <;> simp only [integer?, toInt?, Option.some.injEq, reduceCtorEq] at hx <;> subst hx <;>
    simp only [convert, hflag, Bool.false_eq_true, if_false] <;> rfl

theorem convert_of_integer_flag {x : Value} {i : Int} (hx : x.integer? = some i) {k : Kind}
    (hk : k = .bool ∨ k = .clock) : x.convert k = .ok (.bool (i != 0)) := by
  rcases hk with rfl | rfl <;>
    cases x <;> simp only [integer?, toInt?, Option.some.injEq, reduceCtorEq] at hx <;> subst hx
  -- a boolean is its own flag; every integer goes through the integer cast
  all_goals first
    | rfl
    | (rename_i b; cases b <;> rfl)

/-- A value converted to an integer kind converts back to its own kind unchanged. -/
theorem convert_convert_of_integer {x : Value} {i : Int} (hx : x.integer? = some i) {k : Kind}
    (hk : k ∈ Kind.integers) {v : Value} (hv : x.convert k = .ok v) {kx : Kind}
    (hkx : x.hasKind kx = true) : v.convert kx = .ok x := by
  rw [convert_of_integer hx hk] at hv
  rcases Cast.ofInteger_exact hk i with ⟨w, hw, hwk, hwi⟩ | ⟨-, f, hf, -⟩
  · rw [hv] at hw
    cases hw
    have hvi : v.integer? = some i := (integer?_of_hasKind hk hwk).trans hwi
    -- back to a boolean, or to the value's own integer kind
    by_cases hbool : kx = .bool
    · subst hbool
      cases x <;> simp [hasKind] at hkx
      rename_i b
      simp only [integer?, Option.some.injEq] at hx
      subst hx
      rw [convert_of_integer_flag hvi (.inl rfl)]
      cases b <;> rfl
    · have hkx' : kx ∈ Kind.integers := by
        cases x <;> simp only [integer?, toInt?, reduceCtorEq] at hx <;>
          cases kx <;> simp [hasKind] at hkx <;> simp [Kind.integers] at hbool ⊢
      rw [convert_of_integer hvi hkx', Cast.ofInteger_self hkx' hkx]
      rw [← hx, integer?_of_hasKind hkx' hkx]
  · rw [hf] at hv
    cases hv

/-- Converting a boolean or an integer value to an integer kind is exact, and its result
converts back to the value's kind unchanged; converting it to a boolean or a clock gives
whether its integer is not zero. -/
theorem convert_integer_exact {x : Value} {i : Int} (hx : x.integer? = some i) :
    (∀ k ∈ Kind.integers, Cast.Exact k i (x.convert k) ∧
      ∀ v, x.convert k = .ok v → ∀ kx, x.hasKind kx = true → v.convert kx = .ok x) ∧
    x.convert .bool = .ok (.bool (i != 0)) ∧ x.convert .clock = .ok (.bool (i != 0)) := by
  refine ⟨fun k hk => ⟨?_, fun v hv kx hkx => convert_convert_of_integer hx hk hv hkx⟩,
    convert_of_integer_flag hx (.inl rfl), convert_of_integer_flag hx (.inr rfl)⟩
  rw [convert_of_integer hx hk]
  exact Cast.ofInteger_exact hk i

/-- A 16-bit `-300` fits no unsigned kind: its cast to `UInt8` is a range failure. -/
theorem convert_integer_exact_negative_to_unsigned :
    (Value.int16 (-300)).integer? = some (-300) ∧
      Cast.Exact .uint8 (-300) ((Value.int16 (-300)).convert .uint8) :=
  ⟨rfl, ((convert_integer_exact rfl).1 .uint8 (by decide)).1⟩

end Value

end CoSimBridge
