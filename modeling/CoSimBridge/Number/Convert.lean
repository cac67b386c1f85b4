import CoSimBridge.Number.Binary
/-!
Exact conversions between integers and the two binary formats.

An integer becomes the nearest value of a format, a tie going to the even significand; a value
moves between formats the same way, NaNs keeping their sign and the leading bits of their
payload with the quiet bit set. A finite value rounds to an integer by halves away from zero.
-/

namespace CoSimBridge.Number

namespace BinaryFormat

/-- The bits of the value of the format nearest to the integer `i`; zero is the positive zero. -/
def ofInt (f : BinaryFormat) (i : Int) : Nat :=
  if i = 0 then 0 else f.roundRatio (decide (i < 0)) i.natAbs 1

/-- The bits of the value of the format nearest to `(-1)^negative · m · 2^e`; a zero keeps its
sign. -/
def ofScaled (f : BinaryFormat) (negative : Bool) (m : Nat) (e : Int) : Nat :=
  if m = 0 then (if negative then f.signBit else 0)
  else if e ≥ 0 then f.roundRatio negative (m * Nat.pow 2 e.toNat) 1
  else f.roundRatio negative m (Nat.pow 2 (-e).toNat)

/-- The bits, in format `dst`, of the value with bits `bits` in format `src`: rounded to nearest
when it narrows, exact when it widens. -/
def convert (src dst : BinaryFormat) (bits : Nat) : Nat :=
  match src.decode bits with
  | .nan =>
    let sign := if bits / src.signBit % 2 == 1 then dst.signBit else 0
    let frac := bits % src.hidden
    let payload :=
      if src.fractionBits ≥ dst.fractionBits then frac / Nat.pow 2 (src.fractionBits - dst.fractionBits)
      else frac * Nat.pow 2 (dst.fractionBits - src.fractionBits)
    sign + dst.topExponent * dst.hidden + (payload ||| Nat.pow 2 (dst.fractionBits - 1))
  | .infinite negative => dst.infinityBits negative
  | .finite negative m e => dst.ofScaled negative m e

end BinaryFormat

namespace Decoded

/-- Whether the value is a zero of either sign. -/
def isZero : Decoded → Bool
  | .finite _ 0 _ => true
  | _ => false

/-- The nearest integer to a finite value, halves going away from zero; none for NaN and the
infinities. -/
def roundHalfAway : Decoded → Option Int
  | .finite negative m e =>
    let k := (-e).toNat
    let magnitude := if e ≥ 0 then m * Nat.pow 2 e.toNat else (2 * m + Nat.pow 2 k) / Nat.pow 2 (k + 1)
    some (if negative then -(magnitude : Int) else magnitude)
  | _ => none

end Decoded

end CoSimBridge.Number
