import CoSimBridge.Number.Read
import CoSimBridge.Number.Convert
/-!
What a plain YAML scalar means.

A scalar without quotes or an explicit tag is read by its first character: a sign or digit
suggests a number or a date, one of `yYnNtTfFoO~` a word from a fixed table (`true`, `null`,
…), a dot a float (`.5`, `.inf`, `.nan`). Integers take Go's literal forms (`0x1F`, `0o17`,
`017`, `0b101`, `1_000`) and must fit 64 bits, signed or unsigned; floats must match the YAML
float pattern and be finite in binary64. Anything else is a string.

An explicit tag asks for one kind. A value that reads as another kind is refused, except an
integer asked for as a float.
-/

namespace CoSimBridge.Yaml

open CoSimBridge.Number

/-- The value of a scalar. -/
inductive Scalar where
  | null
  | bool (b : Bool)
  /-- An integer of 64 bits, signed or (from `2^63` up) unsigned. -/
  | int (i : Int)
  /-- A binary64 value, as its bits. -/
  | float (bits : UInt64)
  | str (s : String)
  /-- A date or date and time, kept as written. -/
  | timestamp (s : String)
deriving Repr, DecidableEq, Inhabited

/-- The tag URI prefix that `!!` abbreviates. -/
def coreTagPrefix : String := "tag:yaml.org,2002:"

/-- A tag in its short form: `tag:yaml.org,2002:x` becomes `!!x`. -/
def shortTag (tag : String) : String :=
  if tag.startsWith coreTagPrefix then "!!" ++ (tag.drop coreTagPrefix.length).toString else tag

/-- The words with a fixed meaning. -/
def fixedWord : String → Option (String × Scalar)
  | "true" | "True" | "TRUE" => some ("!!bool", .bool true)
  | "false" | "False" | "FALSE" => some ("!!bool", .bool false)
  | "" | "~" | "null" | "Null" | "NULL" => some ("!!null", .null)
  | ".nan" | ".NaN" | ".NAN" => some ("!!float", .float 0x7FF8000000000001)
  | ".inf" | ".Inf" | ".INF" | "+.inf" | "+.Inf" | "+.INF" => some ("!!float", .float 0x7FF0000000000000)
  | "-.inf" | "-.Inf" | "-.INF" => some ("!!float", .float 0xFFF0000000000000)
  | _ => none

/-- The digits of an unsigned integer in `base`, up to `2^64`. -/
def digitsIn (base : Nat) : List Char → Nat → Option Nat
  | [], n => some n
  | c :: rest, n =>
    let d := if c.isDigit then c.toNat - '0'.toNat
      else if 'a' ≤ lowerAscii c && lowerAscii c ≤ 'z' then (lowerAscii c).toNat - 'a'.toNat + 10
      else 99
    if d ≥ base then none
    else
      let n := n * base + d
      if n ≥ Nat.pow 2 64 then none else digitsIn base rest n

/-- An unsigned integer with Go's base prefixes: `0x`, `0o`, `0b`, or a leading `0` for octal. -/
def readUnsignedAuto (cs : List Char) : Option Nat :=
  match cs with
  | [] => none
  | '0' :: b :: d :: r =>
    let lb := lowerAscii b
    if lb == 'x' then digitsIn 16 (d :: r) 0
    else if lb == 'o' then digitsIn 8 (d :: r) 0
    else if lb == 'b' then digitsIn 2 (d :: r) 0
    else digitsIn 8 (b :: d :: r) 0
  | '0' :: r => digitsIn 8 r 0
  | _ => digitsIn 10 cs 0

/-- A signed 64-bit integer with an optional sign and Go's base prefixes. -/
def readSignedAuto (cs : List Char) : Option Int :=
  let (negative, digits) := match cs with
    | '+' :: r => (false, r)
    | '-' :: r => (true, r)
    | _ => (false, cs)
  match readUnsignedAuto digits with
  | none => none
  | some n =>
    if !negative && n ≥ Nat.pow 2 63 then none
    else if negative && n > Nat.pow 2 63 then none
    else some (if negative then -(n : Int) else n)

/-- Digits, at least one. -/
def digitRun (cs : List Char) : List Char × List Char := (cs.takeWhile Char.isDigit, cs.dropWhile Char.isDigit)

/-- Whether a text matches the YAML float pattern
`[-+]?(\.[0-9]+|[0-9]+(\.[0-9]*)?)([eE][-+]?[0-9]+)?`. -/
def yamlFloatForm (cs : List Char) : Bool :=
  let cs := match cs with
    | c :: r => if c == '+' || c == '-' then r else cs
    | [] => []
  let afterMantissa : Option (List Char) := match cs with
    | '.' :: r =>
      let (ds, r) := digitRun r
      if ds.isEmpty then none else some r
    | _ =>
      let (ds, r) := digitRun cs
      if ds.isEmpty then none
      else match r with
        | '.' :: r => some (digitRun r).2
        | _ => some r
  match afterMantissa with
  | none => false
  | some [] => true
  | some (e :: r) =>
    if e == 'e' || e == 'E' then
      let r := match r with
        | c :: r' => if c == '+' || c == '-' then r' else r
        | [] => []
      let (ds, r) := digitRun r
      !ds.isEmpty && r.isEmpty
    else false

/-- Reads between `lo` and `hi` digits as a number, with what follows. -/
def numberOf (lo hi : Nat) (cs : List Char) : Option (Nat × List Char) :=
  let ds := (cs.takeWhile Char.isDigit).take hi
  if ds.length < lo then none
  else some (ds.foldl (fun n c => n * 10 + (c.toNat - '0'.toNat)) 0, cs.drop ds.length)

/-- The days of a month. -/
def daysIn (month year : Nat) : Nat :=
  if month == 2 then
    if year % 4 == 0 && (year % 100 != 0 || year % 400 == 0) then 29 else 28
  else if month == 4 || month == 6 || month == 9 || month == 11 then 30
  else 31

/-- A time of day `h:m:s` with an optional fraction; what follows it. -/
def timeOfDay (cs : List Char) : Option (List Char) := do
  let (h, r) ← numberOf 1 2 cs
  let r ← match r with | ':' :: r => some r | _ => none
  let (m, r) ← numberOf 1 2 r
  let r ← match r with | ':' :: r => some r | _ => none
  let (s, r) ← numberOf 1 2 r
  if h ≥ 24 || m ≥ 60 || s ≥ 60 then none
  match r with
  | c :: d :: rest =>
    if (c == '.' || c == ',') && d.isDigit then some ((d :: rest).dropWhile Char.isDigit) else some r
  | _ => some r

/-- A zone: `Z` or `±hh:mm`. -/
def zoneOk : List Char → Bool
  | ['Z'] => true
  | [s, h1, h2, ':', m1, m2] =>
    (s == '+' || s == '-') && h1.isDigit && h2.isDigit && m1.isDigit && m2.isDigit &&
      (h1.toNat - 48) * 10 + (h2.toNat - 48) ≤ 24 && (m1.toNat - 48) * 10 + (m2.toNat - 48) ≤ 60
  | _ => false

/-- Whether a text is a date (`2001-2-3`), or a date and time with `T`/`t` and a zone or with a
space and no zone. -/
def isTimestamp (s : String) : Bool :=
  let cs := s.toList
  let lead := cs.takeWhile Char.isDigit
  if lead.length != 4 || (cs.drop 4).head? != some '-' then false
  else
    let check : Option Bool := do
      let (year, r) ← numberOf 4 4 cs
      let r ← match r with | '-' :: r => some r | _ => none
      let (month, r) ← numberOf 1 2 r
      let r ← match r with | '-' :: r => some r | _ => none
      let (day, r) ← numberOf 1 2 r
      if month < 1 || month > 12 || day < 1 || day > daysIn month year then none
      match r with
      | [] => some true
      | c :: r =>
        if c == 'T' || c == 't' then
          let r ← timeOfDay r
          some (zoneOk r)
        else if c == ' ' then
          let r ← timeOfDay r
          some r.isEmpty
        else none
    check.getD false

/-- The tag and value of a plain scalar, read by its first character. -/
def resolvePlain (s : String) : String × Scalar :=
  let cs := s.toList
  let hint : Char := match cs with
    | [] => 'M'
    | c :: _ =>
      if c == '+' || c == '-' then 'S'
      else if c.isDigit then 'D'
      else if "yYnNtTfFoO~".contains c then 'M'
      else if c == '.' then '.'
      else ' '
  match fixedWord s with
  | some r => if hint != ' ' then r else ("!!str", .str s)
  | none =>
    if hint == '.' then
      match BinaryFormat.binary64.read s with
      | .ok b => ("!!float", .float b.toUInt64)
      | .error _ => ("!!str", .str s)
    else if hint == 'D' || hint == 'S' then
      if isTimestamp s then ("!!timestamp", .timestamp s)
      else
        let plain := cs.filter (· != '_')
        match readSignedAuto plain with
        | some i => ("!!int", .int i)
        | none =>
          match (if plain.head? == some '+' || plain.head? == some '-' then none
              else readUnsignedAuto plain) with
          | some n => ("!!int", .int n)
          | none =>
            let asFloat : Option UInt64 :=
              if yamlFloatForm plain then
                match BinaryFormat.binary64.read (String.ofList plain) with
                | .ok b => some b.toUInt64
                | .error _ => none
              else none
            match asFloat with
            | some b => ("!!float", .float b)
            | none =>
              let prefixed (neg : Bool) (base : Nat) (ds : List Char) : Option (String × Scalar) :=
                if ds.isEmpty then none else (digitsIn base ds 0).bind fun n =>
                  if neg then (if n ≤ Nat.pow 2 63 then some ("!!int", .int (-(n : Int))) else none)
                  else some ("!!int", .int n)
              let special := match plain with
                | '0' :: 'b' :: ds => prefixed false 2 ds
                | '-' :: '0' :: 'b' :: ds => prefixed true 2 ds
                | '0' :: 'o' :: ds => prefixed false 8 ds
                | '-' :: '0' :: 'o' :: ds => prefixed true 8 ds
                | _ => none
              special.getD ("!!str", .str s)
    else ("!!str", .str s)

/-- The tags a value may be resolved for. -/
def resolvableTag (tag : String) : Bool :=
  tag == "" || tag == "!!str" || tag == "!!bool" || tag == "!!int" || tag == "!!float" ||
    tag == "!!timestamp" || tag == "!!null"

/-- The tag and value of a scalar read for the given short tag (empty when none was written).
A value of another kind than the tag asks for is refused; an integer asked for as a float
becomes one. A tag that is not a core scalar tag keeps the text as it is. -/
def resolve (tag value : String) : Except String (String × Scalar) :=
  if !resolvableTag tag then .ok (tag, .str value)
  else if tag == "!!str" then .ok ("!!str", .str value)
  else
    let (rtag, v) := resolvePlain value
    if tag == "" || tag == rtag then .ok (rtag, v)
    else match tag, v with
      | "!!float", .int i =>
        if i < Int.pow 2 63 then .ok ("!!float", .float (BinaryFormat.binary64.ofInt i).toUInt64)
        else .error ("cannot decode " ++ rtag ++ " `" ++ value ++ "` as a " ++ tag)
      | _, _ =>
        .error ("cannot decode " ++ rtag ++ " `" ++ value ++ "` as a " ++ tag)

end CoSimBridge.Yaml
