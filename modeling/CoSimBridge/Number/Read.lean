import CoSimBridge.Number.Binary
import CoSimBridge.Text.Quote
/-!
Reading numbers from text.

Floats: an optional sign, then `inf`, `infinity` or (unsigned) `nan` in any case, or decimal
digits with an optional point and an optional `e` exponent, or `0x` hexadecimal digits with an
optional point and a mandatory `p` binary exponent. Underscores may separate digits, and may
follow a base prefix. The exact value is rounded to the nearest value of the format; a finite
text past the largest finite value is out of range.

Integers: decimal digits, an optional sign for signed ones; a value past the width is out of
range, and the first problem met from the left decides between a syntax and a range failure.
-/

namespace CoSimBridge.Number

/-- Why a text is not a number of the wanted kind. -/
inductive ReadFailure where
  | malformed
  | range
deriving Repr, DecidableEq

/-- The reader that failed: floats, signed or unsigned integers. -/
inductive Reader where
  | float
  | signed
  | unsigned
deriving Repr, DecidableEq

/-- A failed reading of `text`. -/
structure ReadError where
  reader : Reader
  text : String
  failure : ReadFailure
deriving Repr, DecidableEq

/-- The reader's name in messages. -/
def Reader.name : Reader → String
  | .float => "ParseFloat"
  | .signed => "ParseInt"
  | .unsigned => "ParseUint"

/-- The reason's words in messages. -/
def ReadFailure.text : ReadFailure → String
  | .malformed => "invalid syntax"
  | .range => "value out of range"

/-- The message of a failed reading. -/
def ReadError.message (e : ReadError) : String :=
  "strconv." ++ e.reader.name ++ ": parsing " ++ Text.quote e.text ++ ": " ++ e.failure.text

/-- Lowercase of an ASCII letter. -/
def lowerAscii (c : Char) : Char := if 'A' ≤ c && c ≤ 'Z' then Char.ofNat (c.toNat + 32) else c

/-- The length of the common prefix of `cs` and `word`, ignoring ASCII case. -/
def commonPrefixIgnoringCase : List Char → List Char → Nat
  | c :: cs, w :: ws => if lowerAscii c == w then 1 + commonPrefixIgnoringCase cs ws else 0
  | _, _ => 0

/-- The special values: `inf` or `infinity` after an optional sign, `nan` without one. Gives
whether the value is a NaN, its sign, and how many characters it takes. -/
def specialValue : List Char → Option (Bool × Bool × Nat)
  | [] => none
  | c :: rest =>
    let infinity (negative : Bool) (signLen : Nat) (cs : List Char) :=
      let n := commonPrefixIgnoringCase cs "infinity".toList
      let n := if 3 < n && n < 8 then 3 else n
      if n == 3 || n == 8 then some (false, negative, signLen + n) else none
    if c == '+' || c == '-' then infinity (c == '-') 1 rest
    else if c == 'i' || c == 'I' then infinity false 0 (c :: rest)
    else if (c == 'n' || c == 'N') && commonPrefixIgnoringCase (c :: rest) "nan".toList == 3 then
      some (true, false, 3)
    else none

/-- Whether underscores in a number's text only separate digits (a base prefix counts as a
digit). -/
def underscoresSeparateDigits (s : List Char) : Bool :=
  let s := match s with
    | c :: r => if c == '+' || c == '-' then r else s
    | [] => []
  let (start, hex, rest) := match s with
    | '0' :: b :: r =>
      let lb := lowerAscii b
      if lb == 'b' || lb == 'o' || lb == 'x' then ('0', lb == 'x', r) else ('^', false, s)
    | _ => ('^', false, s)
  let last := rest.foldl (fun (saw : Option Char) c =>
    match saw with
    | none => none
    | some saw =>
      if ('0' ≤ c && c ≤ '9') || (hex && 'a' ≤ lowerAscii c && lowerAscii c ≤ 'f') then some '0'
      else if c == '_' then (if saw == '0' then some '_' else none)
      else if saw == '_' then none
      else some '!') (some start)
  match last with
  | some saw => saw != '_'
  | none => false

/-- The exact magnitude a float's text spells. -/
inductive Magnitude where
  /-- `digits · 10^exponent`. -/
  | decimal (digits : Nat) (exponent : Int)
  /-- `digits · 2^exponent`. -/
  | binary (digits : Nat) (exponent : Int)

/-- The value of a hexadecimal digit, if it is one. -/
def hexValue (c : Char) : Option Nat :=
  if '0' ≤ c && c ≤ '9' then some (c.toNat - '0'.toNat)
  else if 'a' ≤ lowerAscii c && lowerAscii c ≤ 'f' then some ((lowerAscii c).toNat - 'a'.toNat + 10)
  else none

/-- State of the mantissa scan: digits so far, digits after the point, seen a point, seen a
digit, seen an underscore. -/
structure MantissaScan where
  value : Nat := 0
  fractionDigits : Nat := 0
  sawPoint : Bool := false
  sawDigit : Bool := false
  underscores : Bool := false

/-- Scans mantissa characters in base 10 or 16, returning the state and the rest. -/
def scanMantissa (base : Nat) : MantissaScan → List Char → MantissaScan × List Char
  | st, [] => (st, [])
  | st, c :: rest =>
    if c == '_' then scanMantissa base { st with underscores := true } rest
    else if c == '.' then
      if st.sawPoint then (st, c :: rest)
      else scanMantissa base { st with sawPoint := true } rest
    else match hexValue c with
      | some d =>
        if d < base then
          let fd := if st.sawPoint then st.fractionDigits + 1 else st.fractionDigits
          let st' : MantissaScan :=
            { st with value := st.value * base + d, sawDigit := true, fractionDigits := fd }
          scanMantissa base st' rest
        else (st, c :: rest)
      | none => (st, c :: rest)

/-- Scans exponent digits; the value stops growing once it reaches 10000. -/
def scanExponentDigits : Nat → Bool → List Char → Nat × Bool × List Char
  | e, u, [] => (e, u, [])
  | e, u, c :: rest =>
    if c == '_' then scanExponentDigits e true rest
    else if '0' ≤ c && c ≤ '9' then
      scanExponentDigits (if e < 10000 then e * 10 + (c.toNat - '0'.toNat) else e) u rest
    else (e, u, c :: rest)

/-- Reads the text of a finite float: its sign, its magnitude, and whether the whole text was
taken. -/
def scanFinite (cs : List Char) : Option (Bool × Magnitude × Bool) := do
  let (negative, body) := match cs with
    | '+' :: r => (false, r)
    | '-' :: r => (true, r)
    | _ => (false, cs)
  let (hex, digitsText) := match body with
    | '0' :: x :: r@(_ :: _) => if lowerAscii x == 'x' then (true, r) else (false, body)
    | _ => (false, body)
  let base := if hex then 16 else 10
  let (st, rest) := scanMantissa base {} digitsText
  if !st.sawDigit then none
  let expChar := if hex then 'p' else 'e'
  let (expValue, underscores, rest) ← match rest with
    | c :: r =>
      if lowerAscii c == expChar then
        let (esign, r) : Int × List Char := match r with
          | '+' :: r' => (1, r')
          | '-' :: r' => (-1, r')
          | _ => (1, r)
        match r with
        | d :: _ =>
          if '0' ≤ d && d ≤ '9' then
            let (e, u, r') := scanExponentDigits 0 st.underscores r
            some (esign * e, u, r')
          else none
        | [] => none
      else if hex then none else some (0, st.underscores, rest)
    | [] => if hex then none else some (0, st.underscores, rest)
  let taken := cs.take (cs.length - rest.length)
  if underscores && !underscoresSeparateDigits taken then none
  let mag :=
    if hex then Magnitude.binary st.value (expValue - 4 * st.fractionDigits)
    else Magnitude.decimal st.value (expValue - st.fractionDigits)
  some (negative, mag, rest.isEmpty)

/-- The bits of the value of format `f` nearest to a magnitude. -/
def BinaryFormat.roundMagnitude (f : BinaryFormat) (negative : Bool) : Magnitude → Nat
  | .decimal 0 _ | .binary 0 _ => if negative then f.signBit else 0
  | .decimal m e =>
    let top := (Nat.toDigits 10 m).length + e
    if top > 310 then f.infinityBits negative
    else if top < -330 then (if negative then f.signBit else 0)
    else if e ≥ 0 then f.roundRatio negative (m * Nat.pow 10 e.toNat) 1
    else f.roundRatio negative m (Nat.pow 10 (-e).toNat)
  | .binary m e =>
    let top := (Nat.log2 m : Int) + e
    if top > 2000 then f.infinityBits negative
    else if top < -2000 then (if negative then f.signBit else 0)
    else if e ≥ 0 then f.roundRatio negative (m * Nat.pow 2 e.toNat) 1
    else f.roundRatio negative m (Nat.pow 2 (-e).toNat)

/-- The NaN that text reads as: the double NaN whose payload is 1, narrowed to the format (the
single NaN keeps only the quiet bit). -/
def BinaryFormat.readNan (f : BinaryFormat) : Nat :=
  f.topExponent * f.hidden + Nat.pow 2 (f.fractionBits - 1) + 1 / Nat.pow 2 (52 - f.fractionBits)

/-- The bits of the float of format `f` that a text spells, and whether a finite text fell
outside the format's range (its value is then the infinity of its sign). -/
def BinaryFormat.scan (f : BinaryFormat) (s : String) : Except ReadFailure (Nat × Bool) :=
  let cs := s.toList
  match specialValue cs with
  | some (isNan, negative, n) =>
    if n != cs.length then .error .malformed
    else if isNan then .ok (f.readNan, false)
    else .ok (f.infinityBits negative, false)
  | none =>
    match scanFinite cs with
    | some (negative, mag, true) =>
      let bits := f.roundMagnitude negative mag
      .ok (bits, bits % f.signBit == f.topExponent * f.hidden)
    | _ => .error .malformed

/-- The bits of the float of format `f` that a text spells; a finite text past the range is a
range failure. -/
def BinaryFormat.read (f : BinaryFormat) (s : String) : Except ReadFailure Nat :=
  match f.scan s with
  | .ok (bits, false) => .ok bits
  | .ok (_, true) => .error .range
  | .error e => .error e

/-- Reads unsigned decimal digits into a value below `2^width`, failing with a syntax error at
the first non-digit and with a range error as soon as the value passes the width. -/
def readUnsignedDigits (width : Nat) : Nat → List Char → Except ReadFailure Nat
  | n, [] => .ok n
  | n, c :: rest =>
    if '0' ≤ c && c ≤ '9' then
      let n' := n * 10 + (c.toNat - '0'.toNat)
      if n' ≥ Nat.pow 2 width then .error .range else readUnsignedDigits width n' rest
    else .error .malformed

/-- An unsigned decimal integer of `width` bits. -/
def readUnsigned (s : String) (width : Nat) : Except ReadError Nat :=
  if s.isEmpty then .error ⟨.unsigned, s, .malformed⟩
  else match readUnsignedDigits width 0 s.toList with
    | .ok n => .ok n
    | .error f => .error ⟨.unsigned, s, f⟩

/-- A signed decimal integer of `width` bits, with an optional sign. The digits are read as an
unsigned number of the same width first, so a magnitude past `2^width` is out of range even when
a later character is not a digit. -/
def readSigned (s : String) (width : Nat) : Except ReadError Int :=
  let cs := s.toList
  let (negative, digits) := match cs with
    | '+' :: r => (false, r)
    | '-' :: r => (true, r)
    | _ => (false, cs)
  if s.isEmpty || digits.isEmpty then .error ⟨.signed, s, .malformed⟩
  else
    let magnitude : Except ReadFailure Nat := match readUnsignedDigits width 0 digits with
      | .ok n => .ok n
      | .error .range => .ok (Nat.pow 2 width)
      | .error .malformed => .error ReadFailure.malformed
    match magnitude with
    | .error f => .error ⟨.signed, s, f⟩
    | .ok n =>
      let cutoff := Nat.pow 2 (width - 1)
      if !negative && n ≥ cutoff then .error ⟨.signed, s, .range⟩
      else if negative && n > cutoff then .error ⟨.signed, s, .range⟩
      else .ok (if negative then -(n : Int) else n)

/-- A float of format `f` read from text, with the reader's error. -/
def BinaryFormat.readText (f : BinaryFormat) (s : String) : Except ReadError Nat :=
  match f.read s with
  | .ok b => .ok b
  | .error e => .error ⟨.float, s, e⟩

end CoSimBridge.Number

/-- A double read from text, correctly rounded. -/
def Float.readText (s : String) : Except CoSimBridge.Number.ReadError Float :=
  (CoSimBridge.Number.BinaryFormat.binary64.readText s).map fun b => Float.ofBits b.toUInt64

/-- A single read from text, rounded once, directly to the single format. -/
def Float32.readText (s : String) : Except CoSimBridge.Number.ReadError Float32 :=
  (CoSimBridge.Number.BinaryFormat.binary32.readText s).map fun b => Float32.ofBits b.toUInt32

namespace CoSimBridge.Number

/-- The bits of the value of format `f` nearest to `m · 10^e`; past the range it is an
infinity. -/
def BinaryFormat.ofDecimal (f : BinaryFormat) (m : Int) (e : Int) : Nat :=
  f.roundMagnitude (m < 0) (.decimal m.natAbs e)

end CoSimBridge.Number
