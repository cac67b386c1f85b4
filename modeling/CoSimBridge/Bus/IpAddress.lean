import CoSimBridge.Text.Quote
/-!
IP addresses in text.

IPv4 is four decimal fields of at most 255 joined by dots, none with a leading zero. IPv6 is up
to eight groups of one to four hexadecimal digits joined by colons, where one `::` stands for a
run of zero groups (at least one when the groups are otherwise complete) and the last two
groups may be written as an IPv4 address; a `%` begins a zone, which must not be empty.

A text is read as IPv4 when a dot comes before any colon or percent sign, as IPv6 when a colon
comes first, and as no address otherwise. A failure names the text, what is wrong and, where
it applies, the rest of the text from where reading stopped.
-/

namespace CoSimBridge.IpAddress

/-- Why a text is not an address. -/
structure Failure where
  input : String
  reason : String
  /-- The rest of the text from where reading stopped; empty when the failure names none. -/
  rest : String := ""
deriving Repr, Inhabited

/-- The message of a failure. -/
def Failure.message (f : Failure) : String :=
  "ParseAddr(" ++ Text.quote f.input ++ "): " ++ f.reason ++
    (if f.rest.isEmpty then "" else " (at " ++ Text.quote f.rest ++ ")")

/-- The family of an address. -/
inductive Family where
  | v4
  | v6
deriving Repr, DecidableEq, Inhabited

/-- Whether a character is a hexadecimal digit. -/
def isHexDigit (c : Char) : Bool :=
  c.isDigit || ('a' ≤ c && c ≤ 'f') || ('A' ≤ c && c ≤ 'F')

/-- Checks dotted decimal fields: `val` is the field so far with `digits` digits, `fields` the
fields finished, `atStart` whether nothing was read and `afterDot` whether a dot was last. -/
def dotted (input : String) :
    List Char → (val digits fields : Nat) → (atStart afterDot : Bool) → Except Failure Unit
  | [], _, _, fields, _, _ =>
    if fields < 3 then .error { input, reason := "IPv4 address too short" } else .ok ()
  | c :: rest, val, digits, fields, atStart, afterDot =>
    if c.isDigit then
      if digits == 1 && val == 0 then
        .error { input, reason := "IPv4 field has octet with leading zero" }
      else
        let val := val * 10 + (c.toNat - '0'.toNat)
        if val > 255 then .error { input, reason := "IPv4 field has value >255" }
        else dotted input rest val (digits + 1) fields false false
    else if c == '.' then
      if atStart || rest.isEmpty || afterDot then
        .error { input, reason := "IPv4 field must have at least one digit",
                 rest := String.ofList (c :: rest) }
      else if fields == 3 then .error { input, reason := "IPv4 address too long" }
      else dotted input rest 0 0 (fields + 1) false true
    else .error { input, reason := "unexpected character", rest := String.ofList (c :: rest) }

/-- Reads the groups of an IPv6 address from `s`, with `filled` bytes read so far and the byte
position `ellipsis` of a `::`, if any. Each round reads one group (two bytes) or a final IPv4
part (four); `rounds` is the rounds left before all sixteen bytes are read. Gives the bytes read,
the ellipsis and what is left. -/
def groups (input : String) :
    (rounds : Nat) → (filled : Nat) → Option Nat → List Char →
      Except Failure (Nat × Option Nat × List Char)
  | 0, filled, ellipsis, s => .ok (filled, ellipsis, s)
  | rounds + 1, filled, ellipsis, s => do
    let digits := s.takeWhile isHexDigit
    if digits.length > 4 then
      throw { input, reason := "each group must have 4 or less digits", rest := String.ofList s }
    if digits.isEmpty then
      throw { input, reason := "each colon-separated field must have at least one digit",
              rest := String.ofList s }
    let after := s.drop digits.length
    if after.head? == some '.' then
      if ellipsis.isNone && filled != 12 then
        throw { input, reason := "embedded IPv4 address must replace the final 2 fields of the address",
                rest := String.ofList s }
      if filled + 4 > 16 then
        throw { input,
                reason := "too many hex fields to fit an embedded IPv4 at the end of the address",
                rest := String.ofList s }
      match dotted input s 0 0 0 true false with
      | .error f => throw f
      | .ok () => return (filled + 4, ellipsis, [])
    let filled := filled + 2
    match after with
    | [] => return (filled, ellipsis, [])
    | c :: more =>
      if c != ':' then
        throw { input, reason := "unexpected character, want colon", rest := String.ofList after }
      match more with
      | [] =>
        throw { input, reason := "colon must be followed by more characters",
                rest := String.ofList after }
      | ':' :: more' =>
        if ellipsis.isSome then
          throw { input, reason := "multiple :: in address", rest := String.ofList more }
        if more'.isEmpty then return (filled, some filled, [])
        groups input rounds filled (some filled) more'
      | _ => groups input rounds filled ellipsis more

/-- Checks an IPv6 address, with an optional zone. -/
def readV6 (input : String) : Except Failure Family := do
  let cs := input.toList
  let s := cs.takeWhile (· != '%')
  if s.length < cs.length && s.length + 1 == cs.length then
    throw { input, reason := "zone must be a non-empty string" }
  let (ellipsis, s) := match s with
    | ':' :: ':' :: rest => (some 0, rest)
    | _ => (none, s)
  if ellipsis.isSome && s.isEmpty then return .v6
  let (filled, ellipsis, rest) ← groups input 8 0 ellipsis s
  if !rest.isEmpty then
    throw { input, reason := "trailing garbage after address", rest := String.ofList rest }
  if filled < 16 then
    if ellipsis.isNone then throw { input, reason := "address string too short" }
  else if ellipsis.isSome then
    throw { input, reason := "the :: must expand to at least one field of zeros" }
  return .v6

/-- Reads an address: its family, or why the text is none. -/
def parse (input : String) : Except Failure Family :=
  match input.toList.find? fun c => c == '.' || c == ':' || c == '%' with
  | some '.' => (dotted input input.toList 0 0 0 true false).map fun () => .v4
  | some ':' => readV6 input
  | some _ => .error { input, reason := "missing IPv6 address" }
  | none => .error { input, reason := "unable to parse IP" }

end CoSimBridge.IpAddress
