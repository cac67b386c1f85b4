/-!
IEEE 754 binary interchange formats (binary64 and binary32) seen as exact numbers.

A finite value is `(-1)^s · m · 2^q` with a natural significand `m`. This module reads a bit
pattern into that form and back, and rounds an exact positive ratio of naturals to the nearest
value of a format, a tie going to the even significand: that is how decimal or hexadecimal text
becomes a float.
-/

namespace CoSimBridge.Number

/-- The shape of a binary interchange format: how many bits the stored fraction and the biased
exponent take. -/
structure BinaryFormat where
  fractionBits : Nat
  exponentBits : Nat
deriving Repr, DecidableEq

namespace BinaryFormat

/-- The 64-bit format: 52 fraction bits, 11 exponent bits. -/
def binary64 : BinaryFormat := ⟨52, 11⟩

/-- The 32-bit format: 23 fraction bits, 8 exponent bits. -/
def binary32 : BinaryFormat := ⟨23, 8⟩

/-- The exponent bias. -/
def bias (f : BinaryFormat) : Nat := Nat.pow 2 (f.exponentBits - 1) - 1

/-- The biased exponent that marks infinities and NaNs. -/
def topExponent (f : BinaryFormat) : Nat := Nat.pow 2 f.exponentBits - 1

/-- The scale `q` of the subnormals and of the least normal binade: a significand `m < 2^(p-1)`
means `m · 2^minScale`. -/
def minScale (f : BinaryFormat) : Int := 1 - (f.bias : Int) - f.fractionBits

/-- The largest scale a finite value can have. -/
def maxScale (f : BinaryFormat) : Int := (f.topExponent : Int) - 1 - f.bias - f.fractionBits

/-- The hidden bit: significands of normal values lie in `[hidden, 2·hidden)`. -/
def hidden (f : BinaryFormat) : Nat := Nat.pow 2 f.fractionBits

/-- The bit that carries the sign. -/
def signBit (f : BinaryFormat) : Nat := Nat.pow 2 (f.fractionBits + f.exponentBits)

end BinaryFormat

/-- A bit pattern of a binary format, read as a number. -/
inductive Decoded where
  | nan
  | infinite (negative : Bool)
  /-- The value `(-1)^negative · significand · 2^scale`. -/
  | finite (negative : Bool) (significand : Nat) (scale : Int)
deriving Repr, DecidableEq

namespace BinaryFormat

/-- Reads a bit pattern (given as a natural below `2^(fraction+exponent+1)`). -/
def decode (f : BinaryFormat) (bits : Nat) : Decoded :=
  let negative := bits / f.signBit % 2 == 1
  let e := bits / f.hidden % Nat.pow 2 f.exponentBits
  let frac := bits % f.hidden
  if e == f.topExponent then
    if frac == 0 then .infinite negative else .nan
  else if e == 0 then .finite negative frac f.minScale
  else .finite negative (frac + f.hidden) ((e : Int) - f.bias - f.fractionBits)

/-- The bits of an infinity of the given sign. -/
def infinityBits (f : BinaryFormat) (negative : Bool) : Nat :=
  (if negative then f.signBit else 0) + f.topExponent * f.hidden

/-- Writes `significand · 2^scale` as bits. The significand is either below `hidden` with
`scale = minScale` (a subnormal) or in `[hidden, 2·hidden)`; a scale past `maxScale` gives the
infinity of that sign. -/
def encode (f : BinaryFormat) (negative : Bool) (significand : Nat) (scale : Int) : Nat :=
  let sign := if negative then f.signBit else 0
  if significand < f.hidden then sign + significand
  else
    let e := scale + f.bias + f.fractionBits
    if e ≥ f.topExponent then f.infinityBits negative
    else sign + e.toNat * f.hidden + (significand - f.hidden)

end BinaryFormat

/-- `n / d` rounded to the nearest natural, a half going to the even neighbour. -/
def roundHalfEven (n d : Nat) : Nat :=
  let q := n / d
  let r := n % d
  if 2 * r > d then q + 1
  else if 2 * r < d then q
  else if q % 2 == 0 then q else q + 1

/-- Whether `n / d < 2^e`, for positive `d`. -/
def ratioBelowPow2 (n d : Nat) (e : Int) : Bool :=
  if e ≥ 0 then n < d * Nat.pow 2 e.toNat else n * Nat.pow 2 (-e).toNat < d

/-- `⌊log₂ (n / d)⌋` for positive `n` and `d`. The difference of the two bit lengths is that
value or one more. -/
def floorLog2Ratio (n d : Nat) : Int :=
  let e : Int := (Nat.log2 n : Int) - (Nat.log2 d : Int)
  if ratioBelowPow2 n d e then e - 1 else e

namespace BinaryFormat

/-- The bits of the value of the format nearest to `n / d` (both positive), a tie going to the
even significand; a ratio past the largest finite value rounds to infinity. -/
def roundRatio (f : BinaryFormat) (negative : Bool) (n d : Nat) : Nat :=
  let lg := floorLog2Ratio n d
  let scale := max (lg - f.fractionBits) f.minScale
  -- the significand is `n / (d · 2^scale)`, rounded
  let m :=
    if scale ≥ 0 then roundHalfEven n (d * Nat.pow 2 scale.toNat)
    else roundHalfEven (n * Nat.pow 2 (-scale).toNat) d
  if m == 2 * f.hidden then f.encode negative f.hidden (scale + 1)
  else f.encode negative m scale

end BinaryFormat

end CoSimBridge.Number
