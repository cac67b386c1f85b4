import CoSimBridge.Text.Quote
import CoSimBridge.Bus.IpAddress
/-!
Checking server URLs.

A URL is `scheme:` followed by either an opaque part or `//authority/path`, then an optional
`?query` and `#fragment`. The checks and their messages:

* control characters anywhere are refused;
* a scheme must not be empty (`:` first);
* without a scheme, the first path segment must not hold a colon;
* the authority's host is either `[literal]` with an optional `:port` after the bracket, or a
  name with an optional `:port`; a port is digits only; the literal must be an IPv6 address
  (with an optional zone after `%25`), and a bracket elsewhere in a host is refused;
* `%` must start a two-digit hexadecimal escape; in a host only bytes from U+0080 up may be
  escaped, and in the zone of a bracketed literal (after `%25`) only bytes a host may hold
  unescaped, and the blank;
* a host name holds only letters, digits, `-._~`, the sub-delimiters, `:[]<>"` and bytes from
  U+0080 up;
* user information holds only unreserved characters, sub-delimiters, `:`, `%` and `@`.

A checked URL gives its scheme, host (with port, if any, and its escapes decoded) and whether it
has a port.
-/

namespace CoSimBridge.Url

/-- The parts of a checked URL that connecting needs. -/
structure Parts where
  scheme : String
  /-- The host with its port, if one was given, escapes decoded. -/
  host : String
  hasPort : Bool
deriving Repr, Inhabited

/-- Whether a byte is a hexadecimal digit. -/
def isHexByte (c : Char) : Bool :=
  ('0' ≤ c && c ≤ '9') || ('a' ≤ c && c ≤ 'f') || ('A' ≤ c && c ≤ 'F')

/-- The value of a hexadecimal digit. -/
def hexByteValue (c : Char) : Nat :=
  if '0' ≤ c && c ≤ '9' then c.toNat - '0'.toNat
  else if 'a' ≤ c && c ≤ 'f' then c.toNat - 'a'.toNat + 10
  else c.toNat - 'A'.toNat + 10

/-- Whether an ASCII byte may stand unescaped in a host. -/
def hostByte (c : Char) : Bool :=
  c.isAlphanum || "-_.~!$&'()*+,;=:[]<>\"".contains c

/-- Where a text is being unescaped: a host, a zone of a host literal, or anything else. -/
inductive Place where
  | host
  | zone
  | other
deriving DecidableEq

/-- Checks the escapes of a text (as a list of characters) for a place. -/
def checkEscapes (place : Place) : List Char → Except String Unit
  | [] => .ok ()
  | '%' :: rest =>
    match rest with
    | a :: b :: more =>
      if !isHexByte a || !isHexByte b then
        .error ("invalid URL escape " ++ Text.quote (String.ofList ('%' :: (a :: b :: more).take 2)))
      else
        let v := hexByteValue a * 16 + hexByteValue b
        let shown := String.ofList ['%', a, b]
        if place == .host && hexByteValue a < 8 && shown != "%25" then
          .error ("invalid URL escape " ++ Text.quote shown)
        else if place == .zone && shown != "%25" && v != 32 && !(v < 128 && hostByte (Char.ofNat v)) then
          .error ("invalid URL escape " ++ Text.quote shown)
        else checkEscapes place more
    | _ => .error ("invalid URL escape " ++ Text.quote (String.ofList ('%' :: rest.take 2)))
  | c :: rest =>
    if place != .other && c.toNat < 128 && !hostByte c then
      .error ("invalid character " ++ Text.quote c.toString ++ " in host name")
    else checkEscapes place rest

/-- Whether a text is empty or a colon followed by digits. -/
def validPort (p : String) : Bool :=
  match p.toList with
  | [] => true
  | ':' :: digits => digits.all Char.isDigit
  | _ => false

/-- The text after the last occurrence of `c`, with the separator; none without one. -/
def afterLast (s : String) (c : Char) : Option String :=
  let parts := s.splitOn c.toString
  if parts.length ≤ 1 then none else some (c.toString ++ parts.getLastD "")

/-- The bytes a text with checked escapes stands for, each `%XX` one byte. -/
def unescape : List Char → Bytes
  | '%' :: a :: b :: rest => (hexByteValue a * 16 + hexByteValue b).toUInt8 :: unescape rest
  | c :: rest => Utf8.encodeChar c ++ unescape rest
  | [] => []

/-- Checks a host (with port) and gives it unescaped. A host in brackets must hold an IPv6
address, perhaps with a zone; a bracket anywhere else is refused. -/
def checkHost (host : String) : Except String String := do
  if host.startsWith "[" then
    match afterLast host ']' with
    | none => throw "missing ']' in host"
    | some close =>
      let port := (close.drop 1).toString
      if !validPort port then throw ("invalid port " ++ Text.quote port ++ " after host")
      checkEscapes .host port.toList
      let inside := ((host.drop 1).take (host.length - 1 - close.length)).toString
      let address ← match inside.splitOn "%25" with
        | first :: zone@(_ :: _) =>
          let zone := "%25" ++ "%25".intercalate zone
          checkEscapes .host first.toList
          checkEscapes .zone zone.toList
          pure (Utf8.lossy (unescape first.toList ++ unescape zone.toList))
        | _ =>
          checkEscapes .host inside.toList
          pure (Utf8.lossy (unescape inside.toList))
      match IpAddress.parse address with
      | .error f => throw ("invalid host: " ++ f.message)
      | .ok .v4 => throw "invalid IP-literal"
      | .ok .v6 => return "[" ++ address ++ "]" ++ port
  else if host.contains '[' then throw "invalid IP-literal"
  else if let some port := afterLast host ':' then
    if !validPort port then throw ("invalid port " ++ Text.quote port ++ " after host")
  checkEscapes .host host.toList
  return Utf8.lossy (unescape host.toList)

/-- Whether user information holds only the characters it may. -/
def validUserinfo (s : String) : Bool :=
  s.toList.all fun c => c.isAlphanum || "-._:~!$&'()*+,;=%@".contains c

/-- Checks an authority and gives its host, unescaped. -/
def checkAuthority (authority : String) : Except String String := do
  match afterLast authority '@' with
  | none => checkHost authority
  | some at_ =>
    let host ← checkHost (at_.drop 1).toString
    let user := (authority.take (authority.length - at_.length)).toString
    if !validUserinfo user then throw "net/url: invalid userinfo"
    checkEscapes .other user.toList
    return host

/-- The scheme and the rest of a URL: the scheme is letters first, then letters, digits and
`+-.`, ended by a colon. -/
def splitScheme (s : String) : Except String (String × String) :=
  let rec go (i : Nat) : List Char → Except String (String × String)
    | [] => .ok ("", s)
    | c :: rest =>
      if c.isAlpha then go (i + 1) rest
      else if c.isDigit || c == '+' || c == '-' || c == '.' then
        if i == 0 then .ok ("", s) else go (i + 1) rest
      else if c == ':' then
        if i == 0 then .error "missing protocol scheme"
        else .ok ((s.take i).toString, (s.drop (i + 1)).toString)
      else .ok ("", s)
  go 0 s.toList

/-- Checks a URL without its fragment. -/
def checkBody (u : String) : Except String Parts := do
  if u.toList.any fun c => c.toNat < 32 || c.toNat == 127 then
    throw "net/url: invalid control character in URL"
  if u == "*" then return ⟨"", "", false⟩
  let (scheme, rest) ← splitScheme u
  let scheme := scheme.toLower
  let rest :=
    if rest.endsWith "?" && (rest.splitOn "?").length == 2 then (rest.dropEnd 1).toString
    else (rest.splitOn "?").headD ""
  if !rest.startsWith "/" then
    if scheme != "" then return ⟨scheme, "", false⟩
    if ((rest.splitOn "/").headD "").contains ':' then
      throw "first path segment in URL cannot contain colon"
  let (host, path) ←
    if rest.startsWith "//" && (scheme != "" || !rest.startsWith "///") then
      let body := (rest.drop 2).toString
      let authority := (body.splitOn "/").headD ""
      let host ← checkAuthority authority
      pure (host, (body.drop authority.length).toString)
    else pure ("", rest)
  checkEscapes .other path.toList
  let hasPort := match afterLast host ':' with
    | some p => p.length > 1 && !(p.contains ']')
    | none => false
  return ⟨scheme, host, hasPort⟩

/-- Checks a URL: the parts, or the message `parse "<url>": <reason>`. -/
def check (raw : String) : Except String Parts :=
  let parts := raw.splitOn "#"
  let u := parts.headD ""
  match checkBody u with
  | .error m => .error ("parse " ++ Text.quote u ++ ": " ++ m)
  | .ok p =>
    if parts.length > 1 then
      match checkEscapes .other ("#".intercalate (parts.drop 1)).toList with
      | .error m => .error ("parse " ++ Text.quote raw ++ ": " ++ m)
      | .ok () => .ok p
    else .ok p

end CoSimBridge.Url
