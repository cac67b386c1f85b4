import CoSimBridge.Number.Binary
/-!
The fewest decimal digits that read back as a given float.

A finite nonzero value `v = m · 2^q` of a binary format owns the interval of reals that round to
it: half way to each neighbour, the ends included exactly when `m` is even (a tie rounds to the
even significand). For `n = 1, 2, …` digits the value's two neighbours on the decimal grid of
`n` significant digits are tested in exact natural arithmetic; the first grid with a neighbour
inside the interval gives the digits, the nearer neighbour if both are inside, the even one on
an exact tie.
-/

namespace CoSimBridge.Number

/-- Decimal digits `d₁ d₂ … dₙ` (no trailing zero, the first one nonzero) and a point position
`p`: the value `0.d₁d₂…dₙ · 10^p`. Zero has no digits and point 0. -/
structure DecimalDigits where
  digits : List Nat
  point : Int
deriving Repr, DecidableEq

/-- `2^e` as a factor when `e ≥ 0`, else 1. -/
private def pow2Pos (e : Int) : Nat := if e ≥ 0 then Nat.pow 2 e.toNat else 1

/-- `10^e` as a factor when `e ≥ 0`, else 1. -/
private def pow10Pos (e : Int) : Nat := if e ≥ 0 then Nat.pow 10 e.toNat else 1

/-- Whether `m · 2^q < 10^k`. -/
def belowPow10 (m : Nat) (q k : Int) : Bool :=
  m * pow2Pos q * pow10Pos (-k) < pow10Pos k * pow2Pos (-q)

/-- Moves an estimate of `⌊log₁₀ (m · 2^q)⌋` to the exact value, one step at a time. -/
def settleLog10 (m : Nat) (q : Int) : Nat → Int → Int
  | 0, k => k
  | fuel + 1, k =>
    if belowPow10 m q k then settleLog10 m q fuel (k - 1)
    else if belowPow10 m q (k + 1) then k
    else settleLog10 m q fuel (k + 1)

/-- `⌊log₁₀ (m · 2^q)⌋` for positive `m`; the estimate from the bit length is off by at most
two. -/
def floorLog10 (m : Nat) (q : Int) : Int :=
  settleLog10 m q 8 (((Nat.log2 m : Int) + q) * 301029995 / 1000000000)

/-- Decimal digits of a positive natural, most significant first. -/
def decimalDigitsOf (c : Nat) : List Nat :=
  (Nat.toDigits 10 c).map fun ch => ch.toNat - '0'.toNat

/-- Drops trailing zero digits and counts them. -/
def stripZeros (ds : List Nat) : List Nat × Nat :=
  let kept := (ds.reverse.dropWhile (· == 0)).reverse
  (kept, ds.length - kept.length)

/-- The digits of `c · 10^s`, for positive `c`. -/
def DecimalDigits.ofScaled (c : Nat) (s : Int) : DecimalDigits :=
  let (ds, z) := stripZeros (decimalDigitsOf c)
  ⟨ds, (ds.length : Int) + z + s⟩

/-- The rounding interval of `m · 2^q` in units of `2^(q-2)`: the value is `4m`, the ends are
`4m - below` and `4m + 2`. -/
structure RoundingInterval where
  center : Nat
  low : Nat
  high : Nat
  inclusive : Bool

/-- The interval of reals that round to `m · 2^q` in format `f`: the gap below is half as wide
at the bottom of a binade (above the least one). -/
def BinaryFormat.interval (f : BinaryFormat) (m : Nat) (q : Int) : RoundingInterval :=
  let below := if m == f.hidden && q > f.minScale then 1 else 2
  ⟨4 * m, 4 * m - below, 4 * m + 2, m % 2 == 0⟩

/-- The candidate on the grid `10^s` nearest to the value inside its interval, if the grid has
one: only the two neighbours of the value on the grid can be. -/
def gridHit (iv : RoundingInterval) (q s : Int) : Option Nat :=
  -- all quantities are scaled to naturals: `x · 2^(q-2)` becomes `x · B`, `c · 10^s` is `c · D`
  let B := pow2Pos (q - 2) * pow10Pos (-s)
  let D := pow2Pos (2 - q) * pow10Pos s
  let lo := iv.center * B / D
  let inside (c : Nat) : Bool :=
    let x := c * D
    (iv.low * B < x || (iv.inclusive && iv.low * B == x)) &&
      (x < iv.high * B || (iv.inclusive && x == iv.high * B))
  let dist (c : Nat) : Nat := if c * D ≥ iv.center * B then c * D - iv.center * B
    else iv.center * B - c * D
  match inside lo, inside (lo + 1) with
  | true, true =>
    if dist lo < dist (lo + 1) then some lo
    else if dist (lo + 1) < dist lo then some (lo + 1)
    else if lo % 2 == 0 then some lo else some (lo + 1)
  | true, false => some lo
  | false, true => some (lo + 1)
  | false, false => none

/-- Searches grids of `n, n+1, …` significant digits, at most `fuel` of them. -/
def searchGrids (iv : RoundingInterval) (q k : Int) : Nat → Nat → Option (Nat × Int)
  | 0, _ => none
  | fuel + 1, n =>
    let s := k - n + 1
    match gridHit iv q s with
    | some c => some (c, s)
    | none => searchGrids iv q k fuel (n + 1)

/-- The shortest digits of the positive value `m · 2^q` of format `f`. Seventeen digits always
suffice for the formats here; past them the value's own digits are given. -/
def BinaryFormat.shortest (f : BinaryFormat) (m : Nat) (q : Int) : DecimalDigits :=
  if m == 0 then ⟨[], 0⟩
  else
    let k := floorLog10 m q
    match searchGrids (f.interval m q) q k 40 1 with
    | some (c, s) => DecimalDigits.ofScaled c s
    | none => DecimalDigits.ofScaled m 0

end CoSimBridge.Number
