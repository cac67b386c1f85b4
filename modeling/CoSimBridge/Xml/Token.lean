import CoSimBridge.Text.Quote
import CoSimBridge.Xml.NameChar
/-!
XML tokens: the start and end tags of a document, in order, and how reading them can fail.

Reading is strict. Text, comments, processing instructions, CDATA sections and directives are
checked and then dropped, since no reader of this library looks at them. Attribute values and
text resolve the five predefined entities and character references; a line break `\r\n` or a
lone `\r` reads as `\n`. Every character of a value must be one XML allows. End tags must
match the open start tags, compared as written (qualifier and name). A self-closing tag gives a
start and an end token.

A failure names the line it was found on, counted from 1 by the line breaks read so far. The
declaration `<?xml …?>` may only name version 1.0 and the UTF-8 encoding.
-/

namespace CoSimBridge.Xml

/-- A name as written: `space` is the part before a colon, empty when there is none. -/
structure QName where
  space : String := ""
  name : String
deriving Repr, DecidableEq, Inhabited

/-- An attribute. -/
structure Attr where
  key : QName
  value : String
deriving Repr, DecidableEq, Inhabited

/-- A tag of the document. -/
inductive Token where
  | start (tag : QName) (attrs : List Attr)
  | stop (tag : QName)
deriving Repr, DecidableEq, Inhabited

/-- Why a document cannot be read. -/
inductive XmlError where
  /-- A document that is not well-formed, found on the given line. -/
  | malformed (line : Nat) (detail : String)
  /-- A declaration this reader does not accept. -/
  | refused (detail : String)
deriving Repr, DecidableEq, Inhabited

/-- The message of a reading failure. -/
def XmlError.message : XmlError → String
  | .malformed line d => "XML syntax error on line " ++ toString line ++ ": " ++ d
  | .refused d => d

/-- How the tokens of a document end: at the end of the text, or at a failure. -/
inductive Ending where
  | eof
  | failure (e : XmlError)
deriving Repr, DecidableEq, Inhabited

/-- The tags of a document, up to its end or to the first failure. -/
structure Stream where
  tokens : List Token
  ending : Ending
deriving Repr, Inhabited

/-- The unread text and the current line. -/
structure Cursor where
  rest : List Char
  line : Nat := 1
deriving Repr, Inhabited

/-- A reading step. -/
abbrev Scan := StateT Cursor (Except XmlError)

section Steps

variable {α : Type}

/-- Fails on the current line. -/
def fail (detail : String) : Scan α := do
  throw (.malformed (← get).line detail)

/-- The next character, if any. -/
def next? : Scan (Option Char) := do
  let c ← get
  match c.rest with
  | [] => return none
  | x :: xs =>
    set ({ rest := xs, line := if x == '\n' then c.line + 1 else c.line } : Cursor)
    return some x

/-- The next character; the text may not end here. -/
def next : Scan Char := do
  match ← next? with
  | some x => return x
  | none => fail "unexpected EOF"

/-- Puts a character back. -/
def back (x : Char) : Scan Unit :=
  modify fun c => { rest := x :: c.rest, line := if x == '\n' then c.line - 1 else c.line }

/-- The number of unread characters: a bound on the steps of any loop. -/
def budget : Scan Nat := return (← get).rest.length + 1

/-- Skips blanks (space, tab, line feed, carriage return). -/
def skipBlanks : Nat → Scan Unit
  | 0 => return
  | n + 1 => do
    match ← next? with
    | some x => if x == ' ' || x == '\t' || x == '\n' || x == '\r' then skipBlanks n else back x
    | none => return

end Steps

/-! ## Names -/

/-- Whether a character may be read as part of a name: every non-ASCII character is. -/
def isNameChar (c : Char) : Bool :=
  c.toNat ≥ 0x80 || ('A' ≤ c && c ≤ 'Z') || ('a' ≤ c && c ≤ 'z') || ('0' ≤ c && c ≤ '9') ||
    c == '_' || c == ':' || c == '.' || c == '-'

/-- Whether a run of characters is a valid name. -/
def isName : List Char → Bool
  | [] => false
  | c :: cs => startsName c && cs.all continuesName

/-- Reads name characters after the first. -/
def nameTail : Nat → List Char → Scan (List Char)
  | 0, acc => return acc.reverse
  | n + 1, acc => do
    let x ← next
    if isNameChar x then nameTail n (x :: acc) else do back x; return acc.reverse

/-- Reads the characters of a name; none, reading nothing, when the next character cannot be in
a name. -/
def nameChars : Scan (Option (List Char)) := do
  let x ← next
  if !isNameChar x then
    back x
    return none
  return some (← nameTail (← budget) [x])

/-- Reads a name, which must be valid. -/
def readName : Scan (Option String) := do
  match ← nameChars with
  | none => return none
  | some cs =>
    if isName cs then return some (String.ofList cs)
    else fail ("invalid XML name: " ++ String.ofList cs)

/-- Reads a name with an optional qualifier; a name with two colons is no name. -/
def readQName : Scan (Option QName) := do
  match ← readName with
  | none => return none
  | some s =>
    match s.splitOn ":" with
    | [q, n] => return some (if q.isEmpty || n.isEmpty then { name := s } else { space := q, name := n })
    | [_] => return some { name := s }
    | _ => return none

/-! ## Text -/

/-- Where a run of text ends: before markup, at a closing quote, or at `]]>`. -/
inductive TextEnd where
  | markup
  | quote (q : Char)
  | cdata
deriving DecidableEq

/-- Whether XML allows a character in text. -/
def isXmlChar (c : Char) : Bool :=
  let n := c.toNat
  n == 0x9 || n == 0xA || n == 0xD || (0x20 ≤ n && n ≤ 0xD7FF) || (0xE000 ≤ n && n ≤ 0xFFFD) ||
    (0x10000 ≤ n && n ≤ 0x10FFFF)

/-- The value of a digit in a base of 10 or 16. -/
def digitValue (base : Nat) (c : Char) : Option Nat :=
  if '0' ≤ c && c ≤ '9' then some (c.toNat - '0'.toNat)
  else if base == 16 && 'a' ≤ c && c ≤ 'f' then some (c.toNat - 'a'.toNat + 10)
  else if base == 16 && 'A' ≤ c && c ≤ 'F' then some (c.toNat - 'A'.toNat + 10)
  else none

/-- Reads the digits of a character reference, given the first character after its mark; answers
the digits and the character that ends them. -/
def refDigits (base : Nat) : Nat → List Char → Char → Scan (List Char × Char)
  | 0, acc, b => return (acc.reverse, b)
  | n + 1, acc, b =>
    if (digitValue base b).isSome then do refDigits base n (b :: acc) (← next)
    else return (acc.reverse, b)

/-- The character a reference to code `n` stands for: a surrogate code stands for U+FFFD. -/
def referenced (n : Nat) : Char :=
  if 0xD800 ≤ n && n ≤ 0xDFFF then '�' else Char.ofNat n

/-- The character of a predefined entity. -/
def predefined : String → Option Char
  | "lt" => some '<'
  | "gt" => some '>'
  | "amp" => some '&'
  | "apos" => some '\''
  | "quot" => some '"'
  | _ => none

/-- Reads an entity or character reference after its `&`, answering the character it stands
for. -/
def reference : Scan Char := do
  let b ← next
  if b == '#' then
    let b ← next
    let (base, mark, b) ← if b == 'x' then do pure (16, "&#x", ← next) else pure (10, "&#", b)
    let (ds, b) ← refDigits base (← budget) [] b
    let shown := mark ++ String.ofList ds
    if b != ';' then
      back b
      fail ("invalid character entity " ++ shown ++ " (no semicolon)")
    let value := ds.foldl (fun acc d => acc * base + (digitValue base d).getD 0) 0
    if !ds.isEmpty && value < Nat.pow 2 64 && value ≤ 0x10FFFF then return referenced value
    fail ("invalid character entity " ++ shown ++ ";")
  else
    back b
    let nm := (← nameChars).getD []
    let b ← next
    let shown := "&" ++ String.ofList nm
    if b != ';' then
      back b
      fail ("invalid character entity " ++ shown ++ " (no semicolon)")
    match (if isName nm then predefined (String.ofList nm) else none) with
    | some c => return c
    | none => fail ("invalid character entity " ++ shown ++ ";")

/-- Reads text up to its end; `out` holds what was read, last character first, and `b0`, `b1`
the last two characters taken as they stand. -/
def textLoop (stop : TextEnd) : Nat → List Char → Char → Char → Scan (List Char)
  | 0, out, _, _ => return out
  | n + 1, out, b0, b1 => do
    match ← next? with
    | none => if stop == .cdata then fail "unexpected EOF in CDATA section" else return out
    | some b =>
      let unquoted := match stop with | .quote _ => false | _ => true
      if unquoted && b0 == ']' && b1 == ']' && b == '>' then
        if stop == .cdata then return out.drop 2
        else fail "unescaped ]]> not in CDATA section"
      else if b == '<' && stop != .cdata then
        if unquoted then
          back b
          return out
        else fail "unescaped < inside quoted string"
      else if stop == .quote b then return out
      else if b == '&' && stop != .cdata then
        let c ← reference
        textLoop stop n (c :: out) '\x00' '\x00'
      else
        let out' := if b == '\r' then '\n' :: out else if b1 == '\r' && b == '\n' then out else b :: out
        textLoop stop n out' b1 b

/-- `n` as `U+` and at least four uppercase hexadecimal digits. -/
def codePoint (n : Nat) : String :=
  let ds := Nat.toDigits 16 n
  "U+" ++ String.ofList ((List.replicate (4 - ds.length) '0' ++ ds).map Char.toUpper)

/-- Reads text and checks its characters. -/
def text (stop : TextEnd) : Scan String := do
  let out := (← textLoop stop (← budget) [] '\x00' '\x00').reverse
  match out.find? (!isXmlChar ·) with
  | some c => fail ("illegal character code " ++ codePoint c.toNat)
  | none => return String.ofList out

/-! ## Markup -/

/-- Reads the rest of a comment after `<!--`. -/
def commentLoop : Nat → Char → Char → Scan Unit
  | 0, _, _ => return
  | n + 1, b0, b1 => do
    let b ← next
    if b0 == '-' && b1 == '-' then
      if b != '>' then fail "invalid sequence \"--\" not allowed in comments"
    else commentLoop n b1 b

/-- Reads up to the end of a comment inside a directive. -/
def skipToCommentEnd : Nat → Char → Char → Scan Unit
  | 0, _, _ => return
  | n + 1, b0, b1 => do
    let b ← next
    if !(b0 == '-' && b1 == '-' && b == '>') then skipToCommentEnd n b1 b

/-- Reads the rest of a directive such as `<!DOCTYPE …>`: quoted text does not count, and
nested `<…>` and comments are skipped. `carried` is a character already read that is taken
without checking for the end; `depth` counts the open `<`. -/
def directiveLoop : Nat → Option Char → Option Char → Nat → Scan Unit
  | 0, _, _, _ => return
  | n + 1, quote, carried, depth => do
    let (b, checked) ← match carried with
      | some b => pure (b, false)
      | none => do pure (← next, true)
    if checked && quote.isNone && b == '>' && depth == 0 then return
    match quote with
    | some q => directiveLoop n (if b == q then none else some q) none depth
    | none =>
      if b == '\'' || b == '"' then directiveLoop n (some b) none depth
      else if b == '>' then directiveLoop n none none (depth - 1)
      else if b == '<' then
        let c1 ← next
        if c1 != '!' then directiveLoop n none (some c1) (depth + 1)
        else
          let c2 ← next
          if c2 != '-' then directiveLoop n none (some c2) (depth + 1)
          else
            let c3 ← next
            if c3 != '-' then directiveLoop n none (some c3) (depth + 1)
            else do
              skipToCommentEnd (← budget) '\x00' '\x00'
              directiveLoop n none none depth
      else directiveLoop n none none depth

/-- The value of `param="…"` (or with single quotes) in the text of a declaration. -/
def declared (param : String) (s : String) : String :=
  let key := (param ++ "=").toList
  let cs := s.toList
  let rec find : Nat → List Char → Option (Char × List Char)
    | 0, _ => none
    | n + 1, sub =>
      match (List.range sub.length).find? (fun k => (sub.drop k).take key.length == key) with
      | none => none
      | some k =>
        match sub.drop (k + key.length) with
        | [] => none
        | c :: more => if c == '\'' || c == '"' then some (c, more) else find n more
  match find (cs.length + 1) cs with
  | none => ""
  | some (q, more) => if more.contains q then String.ofList (more.takeWhile (· != q)) else ""

/-- Whether an encoding name is UTF-8, in any case. -/
def isUtf8Name (e : String) : Bool := e.toLower == "utf-8"

/-- Reads a processing instruction after `<?`, checking an XML declaration. -/
def instruction : Scan Unit := do
  let target ← match ← readName with
    | some t => pure t
    | none => fail "expected target name after <?"
  skipBlanks (← budget)
  let rec body : Nat → List Char → Char → Scan (List Char)
    | 0, acc, _ => return acc
    | n + 1, acc, b0 => do
      let b ← next
      if b0 == '?' && b == '>' then return acc.drop 1 else body n (b :: acc) b
  let content := String.ofList (← body (← budget) [] '\x00').reverse
  if target == "xml" then
    let ver := declared "version" content
    if ver != "" && ver != "1.0" then
      throw (.refused ("xml: unsupported version " ++ Text.quote ver ++
        "; only version 1.0 is supported"))
    let enc := declared "encoding" content
    if enc != "" && !isUtf8Name enc then
      throw (.refused ("xml: encoding " ++ Text.quote enc ++
        " declared but Decoder.CharsetReader is nil"))

/-- What one step of reading found. -/
inductive Raw where
  | start (tag : QName) (attrs : List Attr) (selfClosing : Bool)
  | stop (tag : QName)
  | other
  | done

/-- Reads the attributes of a start tag and its end. -/
def attributes : Nat → List Attr → Scan (List Attr × Bool)
  | 0, acc => return (acc.reverse, false)
  | n + 1, acc => do
    skipBlanks (← budget)
    let b ← next
    if b == '/' then
      if (← next) != '>' then fail "expected /> in element"
      return (acc.reverse, true)
    if b == '>' then return (acc.reverse, false)
    back b
    let key ← match ← readQName with
      | some k => pure k
      | none => fail "expected attribute name in element"
    skipBlanks (← budget)
    if (← next) != '=' then fail "attribute name without = in element"
    skipBlanks (← budget)
    let q ← next
    if q != '"' && q != '\'' then fail "unquoted or missing attribute value in element"
    let value ← text (.quote q)
    attributes n ({ key, value } :: acc)

/-- Reads one piece of the document. -/
def rawToken : Scan Raw := do
  match ← next? with
  | none => return .done
  | some b =>
    if b != '<' then
      back b
      let _ ← text .markup
      return .other
    let b ← next
    if b == '/' then
      let tag ← match ← readQName with
        | some t => pure t
        | none => fail "expected element name after </"
      skipBlanks (← budget)
      if (← next) != '>' then fail ("invalid characters between </" ++ tag.name ++ " and >")
      return .stop tag
    if b == '?' then
      instruction
      return .other
    if b == '!' then
      let b ← next
      if b == '-' then
        if (← next) != '-' then fail "invalid sequence <!- not part of <!--"
        commentLoop (← budget) '\x00' '\x00'
        return .other
      if b == '[' then
        for c in "CDATA[".toList do
          if (← next) != c then fail "invalid <![ sequence"
        let _ ← text .cdata
        return .other
      directiveLoop (← budget) none none 0
      return .other
    back b
    let tag ← match ← readQName with
      | some t => pure t
      | none => fail "expected element name after <"
    let (attrs, selfClosing) ← attributes (← budget) []
    return .start tag attrs selfClosing

/-- Reads tags until the text ends or fails; `open` holds the open start tags, innermost
first, and `acc` the tags read, last first. -/
def tokenLoop : Nat → List QName → Cursor → List Token → Stream
  | 0, _, _, acc => ⟨acc.reverse, .eof⟩
  | n + 1, opened, cur, acc =>
    match rawToken.run cur with
    | .error e => ⟨acc.reverse, .failure e⟩
    | .ok (raw, cur') =>
      let broken (detail : String) : Stream := ⟨acc.reverse, .failure (.malformed cur'.line detail)⟩
      match raw with
      | .done => if opened.isEmpty then ⟨acc.reverse, .eof⟩ else broken "unexpected EOF"
      | .other => tokenLoop n opened cur' acc
      | .start t as sc =>
        if sc then tokenLoop n opened cur' (.stop t :: .start t as :: acc)
        else tokenLoop n (t :: opened) cur' (.start t as :: acc)
      | .stop t =>
        match opened with
        | [] => broken ("unexpected end element </" ++ t.name ++ ">")
        | s :: outer =>
          if s.name != t.name then broken ("element <" ++ s.name ++ "> closed by </" ++ t.name ++ ">")
          else if s.space != t.space then
            broken ("element <" ++ s.name ++ "> in space " ++ s.space ++ " closed by </" ++ t.name ++
              "> in space " ++ (if t.space == "" then "\"\"" else t.space))
          else tokenLoop n outer cur' (.stop t :: acc)

/-- The tags of a document. -/
def tokenize (s : String) : Stream :=
  tokenLoop (s.length + 1) [] { rest := s.toList } []

end CoSimBridge.Xml
