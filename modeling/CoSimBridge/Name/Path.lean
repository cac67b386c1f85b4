import CoSimBridge.Fault
import CoSimBridge.Text.Quote
/-!
Structured variable names.

A structured name is a path of segments separated by `.`, such as `vehicle.body.speed`. A
segment that holds a separator or a quote is written between single quotes, and inside quotes
`\'` stands for a quote (`a.'x.y'.c`). `Path.parse` reads a name into its segments and
`Path.join` writes segments back, quoting exactly the segments that need it. Positions in
messages count bytes.
-/

namespace CoSimBridge

/-- The segments of a structured name. -/
abbrev Path := List String

namespace Path

/-- The first segment, or the empty string. -/
def root (p : Path) : String := p.headD ""

/-- A malformed name: the reason and the byte position. -/
def malformed (name : String) (pos : Nat) (reason : String) : Fault :=
  Fault.configurationf ("name " ++ Text.quote name) .malformedName
    (reason ++ " at position " ++ toString pos)

/-- Where the reader of a name stands. -/
inductive ReadState where
  /-- Inside an unquoted segment (possibly empty so far), characters reversed. -/
  | plain (seg : List Char)
  /-- Inside a quoted segment opened at byte `start`, characters reversed. -/
  | quoted (start : Nat) (seg : List Char)
  /-- Just after the closing quote of a segment. -/
  | closed (seg : List Char)

/-- Reads the characters of `name` from byte `pos` on, `done` holding the finished segments. -/
def readFrom (name : String) (done : List String) :
    ReadState → Nat → List Char → Except Fault Path
  | .plain seg, _, [] => .ok (done ++ [String.ofList seg.reverse])
  | .plain [], pos, '\'' :: rest => readFrom name done (.quoted pos []) (pos + 1) rest
  | .plain seg, pos, '.' :: rest =>
    if seg.isEmpty then .error (malformed name pos "two consecutive separators")
    else if rest.isEmpty then .error (malformed name pos "name ends with a separator")
    else readFrom name (done ++ [String.ofList seg.reverse]) (.plain []) (pos + 1) rest
  | .plain seg, pos, c :: rest => readFrom name done (.plain (c :: seg)) (pos + c.utf8Size) rest
  | .quoted start _, _, [] => .error (malformed name start "unterminated quoted segment")
  | .quoted start seg, pos, '\\' :: '\'' :: rest =>
    readFrom name done (.quoted start ('\'' :: seg)) (pos + 2) rest
  | .quoted _ seg, pos, '\'' :: rest => readFrom name done (.closed seg) (pos + 1) rest
  | .quoted start seg, pos, c :: rest =>
    readFrom name done (.quoted start (c :: seg)) (pos + c.utf8Size) rest
  | .closed seg, pos, [] =>
    if seg.isEmpty then .error (malformed name pos "empty quoted segment")
    else .ok (done ++ [String.ofList seg.reverse])
  | .closed seg, pos, c :: rest =>
    if c != '.' then .error (malformed name pos "unexpected character after quoted segment")
    else if seg.isEmpty then .error (malformed name pos "empty quoted segment")
    else if rest.isEmpty then .error (malformed name pos "name ends with a separator")
    else readFrom name (done ++ [String.ofList seg.reverse]) (.plain []) (pos + 1) rest

/-- Reads a structured name into its segments. -/
def parse (name : String) : Except Fault Path :=
  match name.toList with
  | [] => .error (malformed name 0 "empty name")
  | '.' :: _ => .error (malformed name 0 "name starts with a separator")
  | cs => readFrom name [] (.plain []) 0 cs

/-- Whether a segment must be quoted: it holds a separator or a quote. -/
def needsQuotes (seg : String) : Bool := seg.any fun c => c == '.' || c == '\''

/-- A segment as written in a name. -/
def writeSegment (seg : String) : String :=
  if needsQuotes seg then
    "'" ++ String.join (seg.toList.map fun c => if c == '\'' then "\\'" else c.toString) ++ "'"
  else seg

/-- Writes segments back into a structured name. -/
def join (p : Path) : String := ".".intercalate (p.map writeSegment)

end Path

end CoSimBridge
