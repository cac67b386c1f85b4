/-!
Spans of time in nanoseconds, as text.

A duration is written as a signed sequence of decimal numbers, each with an optional fraction
and a unit (`ns`, `us` or `µs`, `ms`, `s`, `m`, `h`): `300ms`, `-1.5h`, `2h45m`. A bare `0` is
zero. The magnitude must fit 63 bits. A fraction is scaled to the unit in binary64, as exact
as that allows.

Shown, a duration under a second uses the largest unit below it that keeps an integer part
(`1.5ms`, `250ns`); otherwise hours, minutes and seconds with a trimmed fraction of seconds
(`1h2m3.5s`, `5s`, `1m0s`).
-/

namespace CoSimBridge

/-- A span of time in nanoseconds. -/
abbrev Duration := Int

namespace Duration

/-- Nanoseconds per unit name. -/
def unitValue : String → Option Nat
  | "ns" => some 1
  | "us" | "µs" | "μs" => some 1000
  | "ms" => some 1000000
  | "s" => some 1000000000
  | "m" => some 60000000000
  | "h" => some 3600000000000
  | _ => none

/-- Leading digits as a number; none once it passes `2^63`. -/
def leadingInt : List Char → Nat → Option (Nat × List Char)
  | [], x => some (x, [])
  | c :: r, x =>
    if c.isDigit then
      if x > Nat.pow 2 63 / 10 then none
      else
        let x := x * 10 + (c.toNat - '0'.toNat)
        if x > Nat.pow 2 63 then none else leadingInt r x
    else some (x, c :: r)

/-- Leading digits of a fraction: the digits kept before they would pass `2^63`, their scale
as a power of ten, and what follows all digits. -/
def leadingFraction : List Char → Nat → Float → Bool → Nat × Float × List Char
  | [], x, scale, _ => (x, scale, [])
  | c :: r, x, scale, overflow =>
    if c.isDigit then
      if overflow then leadingFraction r x scale true
      else if x > (Nat.pow 2 63 - 1) / 10 then leadingFraction r x scale true
      else
        let y := x * 10 + (c.toNat - '0'.toNat)
        if y > Nat.pow 2 63 then leadingFraction r x scale true
        else leadingFraction r y (scale * 10) false
    else (x, scale, c :: r)

/-- The terms of a duration after its sign, summed; none if malformed or too large. -/
def terms : Nat → List Char → Nat → Option Nat
  | 0, _, _ => none
  | _, [], d => some d
  | fuel + 1, c :: r, d => do
    if !(c == '.' || c.isDigit) then none
    let s := c :: r
    let (v, s2) ← leadingInt s 0
    let pre := s2.length != s.length
    let (f, scale, s3, post) := match s2 with
      | '.' :: r3 =>
        let (f, scale, s3) := leadingFraction r3 0 1 false
        (f, scale, s3, s3.length != r3.length)
      | _ => (0, 1, s2, false)
    if !pre && !post then none
    let unitChars := s3.takeWhile fun c => !(c == '.' || c.isDigit)
    if unitChars.isEmpty then none
    let unit ← unitValue (String.ofList unitChars)
    let rest := s3.drop unitChars.length
    if v > Nat.pow 2 63 / unit then none
    let v := v * unit
    let v ←
      if f > 0 then
        let v := v + (f.toFloat * (unit.toFloat / scale)).toUInt64.toNat
        if v > Nat.pow 2 63 then none else some v
      else some v
    let d := d + v
    if d > Nat.pow 2 63 then none
    terms fuel rest d

/-- The duration a text writes, if it writes one. -/
def parse? (s : String) : Option Duration :=
  let cs := s.toList
  let (negative, body) := match cs with
    | '-' :: r => (true, r)
    | '+' :: r => (false, r)
    | _ => (false, cs)
  if body == ['0'] then some 0
  else if body.isEmpty then none
  else match terms (body.length + 1) body 0 with
    | none => none
    | some d =>
      if negative then some (-(d : Int))
      else if d > Nat.pow 2 63 - 1 then none
      else some d

/-- The fraction `v / 10^prec` as `.ddd` with trailing zeros dropped (nothing when it is zero),
and the integer part. -/
def fraction (v prec : Nat) : String × Nat :=
  let digits := (List.range prec).map fun i => v / Nat.pow 10 i % 10
  let kept := digits.dropWhile (· == 0)
  let text := kept.reverse.foldl (fun s d => s.push (Char.ofNat (48 + d))) ""
  ((if kept.isEmpty then "" else "." ++ text), v / Nat.pow 10 prec)

/-- A duration as text. -/
def render (d : Duration) : String :=
  let u := d.natAbs
  let sign := if d < 0 then "-" else ""
  if u == 0 then "0s"
  else if u < 1000000000 then
    let (prec, unit) :=
      if u < 1000 then (0, "ns") else if u < 1000000 then (3, "µs") else (6, "ms")
    let (frac, whole) := fraction u prec
    sign ++ toString whole ++ frac ++ unit
  else
    let (frac, secs) := fraction u 9
    let minutes := secs / 60
    let hours := minutes / 60
    let body :=
      if minutes == 0 then toString secs ++ frac ++ "s"
      else if hours == 0 then toString minutes ++ "m" ++ toString (secs % 60) ++ frac ++ "s"
      else toString hours ++ "h" ++ toString (minutes % 60) ++ "m" ++ toString (secs % 60) ++ frac ++ "s"
    sign ++ body

end Duration

end CoSimBridge
