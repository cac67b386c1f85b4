import CoSimBridge.Number.Shortest
/-!
Floats as text in the general format: the shortest digits that read back, written positionally
for decimal exponents from -4 to 5 and in scientific form (`1e+06`, `1.5e-07`) outside, with a
signed exponent of at least two digits. Infinities are `+Inf` and `-Inf`, a NaN is `NaN`, and a
negative zero keeps its sign.
-/

namespace CoSimBridge.Number

/-- The choices of the general format. -/
structure GeneralStyle where
  /-- The least decimal exponent written positionally. -/
  leastPositional : Int
  /-- The least decimal exponent written in scientific form above the positional range. -/
  firstScientific : Int
  /-- The least number of exponent digits. -/
  exponentWidth : Nat

/-- Positional from `1e-4` up to below `1e6`, exponents with two digits or more. -/
def GeneralStyle.standard : GeneralStyle := ⟨-4, 6, 2⟩

/-- Positional from `1e-6` up to below `1e21`, exponents with as many digits as they need: the
number form of ECMAScript and of JSON encoders that follow it. -/
def GeneralStyle.ecma : GeneralStyle := ⟨-6, 21, 1⟩

/-- The decimal digit `d` as a character. -/
def digitChar (d : Nat) : Char := Char.ofNat ('0'.toNat + d)

/-- A natural in decimal, padded with zeros on the left to `width`. -/
def padDecimal (n width : Nat) : String :=
  let s := String.ofList (Nat.toDigits 10 n)
  String.ofList (List.replicate (width - s.length) '0') ++ s

/-- The digit at index `i` of a digit list, zero outside it. -/
def digitAt (ds : List Nat) (i : Int) : Char :=
  if i < 0 then '0' else digitChar (ds.getD i.toNat 0)

/-- The digits in scientific form: `d.ddd` then `e`, the exponent's sign and its digits. -/
def DecimalDigits.scientific (st : GeneralStyle) (d : DecimalDigits) : String :=
  let first := digitChar (d.digits.headD 0)
  let rest := d.digits.drop 1
  let mant := if rest.isEmpty then first.toString
    else first.toString ++ "." ++ String.ofList (rest.map digitChar)
  let e := d.point - 1
  let sign := if e < 0 then "-" else "+"
  mant ++ "e" ++ sign ++ padDecimal e.natAbs st.exponentWidth

/-- The digits written positionally with exactly as many places as they need. -/
def DecimalDigits.positional (d : DecimalDigits) : String :=
  let nd : Int := d.digits.length
  let intPart :=
    if d.point > 0 then
      String.ofList ((List.range d.point.toNat).map fun (i : Nat) => digitAt d.digits (Int.ofNat i))
    else "0"
  let places := max (nd - d.point) 0
  if places == 0 then intPart
  else intPart ++ "." ++
    String.ofList ((List.range places.toNat).map fun (i : Nat) => digitAt d.digits (d.point + Int.ofNat i))

/-- The general format of the digits: scientific when the exponent is outside the positional
range. -/
def DecimalDigits.general (st : GeneralStyle) (d : DecimalDigits) : String :=
  let e := d.point - 1
  if d.digits.isEmpty then "0"
  else if e < st.leastPositional || e ≥ st.firstScientific then d.scientific st
  else d.positional

/-- The text of a decoded value of format `f` in a general format. -/
def BinaryFormat.renderIn (st : GeneralStyle) (f : BinaryFormat) : Decoded → String
  | .nan => "NaN"
  | .infinite neg => if neg then "-Inf" else "+Inf"
  | .finite neg m q =>
    let body := (f.shortest m q).general st
    if neg then "-" ++ body else body

/-- The text of a decoded value of format `f` in the standard general format. -/
def BinaryFormat.render (f : BinaryFormat) : Decoded → String := f.renderIn GeneralStyle.standard

end CoSimBridge.Number

/-- A double as text: the fewest digits that read back, in the general format. -/
def Float.render (x : Float) : String :=
  CoSimBridge.Number.BinaryFormat.binary64.render
    (CoSimBridge.Number.BinaryFormat.binary64.decode x.toBits.toNat)

/-- A double as text in the ECMAScript number form (`0.000001`, `1e-7`, `1e+21`). -/
def Float.renderEcma (x : Float) : String :=
  CoSimBridge.Number.BinaryFormat.binary64.renderIn CoSimBridge.Number.GeneralStyle.ecma
    (CoSimBridge.Number.BinaryFormat.binary64.decode x.toBits.toNat)

/-- A single as text: the fewest digits that read back as a single. -/
def Float32.render (x : Float32) : String :=
  CoSimBridge.Number.BinaryFormat.binary32.render
    (CoSimBridge.Number.BinaryFormat.binary32.decode x.toBits.toNat)

namespace CoSimBridge.Number

/-- The text of the double with the given bits (NaNs of every payload are `NaN`). -/
def renderBits64 (b : UInt64) : String := BinaryFormat.binary64.render (BinaryFormat.binary64.decode b.toNat)

/-- The text of the single with the given bits. -/
def renderBits32 (b : UInt32) : String := BinaryFormat.binary32.render (BinaryFormat.binary32.decode b.toNat)

end CoSimBridge.Number
