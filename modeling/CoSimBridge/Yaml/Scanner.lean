import CoSimBridge.Text.Quote
/-!
YAML tokens, read from text on demand.

The scanner turns characters into the tokens of YAML 1.1: indicators, scalars, anchors, tags,
and the block structure that indentation implies. Indentation is tracked as a stack of
columns; a deeper column opens a block collection and a shallower one closes as many as it
leaves. An implicit key (`key: value` with no `?`) is only recognised once its `:` is seen, so
the position where a key could start is remembered and the key token is inserted there later;
a key must stay on one line and within 1024 characters.

Tokens are produced lazily, as a reader asks for them, and the scanner always keeps three
tokens ahead of the reader (more while the head token may still become a key). The exact
moment matters: a malformed place in the text is reported when the scanner reaches it, which
may be before or after a structural error the reader finds in earlier tokens.

Positions count characters, lines and columns from 0; messages add 1 to scanner lines.
-/

namespace CoSimBridge.Yaml

/-- A position in the text: characters read, line and column, all counted from 0. -/
structure Mark where
  index : Nat := 0
  line : Nat := 0
  column : Nat := 0
deriving Repr, DecidableEq, Inhabited

/-- How a scalar was written. -/
inductive ScalarStyle where
  | plain
  | singleQuoted
  | doubleQuoted
  | literal
  | folded
deriving Repr, DecidableEq, Inhabited

/-- What a token is. -/
inductive TokenKind where
  | streamStart
  | streamEnd
  | versionDirective (major minor : Nat)
  | tagDirective (handle target : String)
  | documentStart
  | documentEnd
  | blockSequenceStart
  | blockMappingStart
  | blockEnd
  | flowSequenceStart
  | flowSequenceEnd
  | flowMappingStart
  | flowMappingEnd
  | blockEntry
  | flowEntry
  | key
  | value
  | alias (name : String)
  | anchor (name : String)
  | tag (handle suffix : String)
  | scalar (text : String) (style : ScalarStyle)
deriving Repr, DecidableEq, Inhabited

/-- A token and the span of text it came from. -/
structure Token where
  kind : TokenKind
  start : Mark
  stop : Mark
deriving Repr, Inhabited

/-- Why a text is not YAML: the problem, where it was found, and the place that gives it
context (the start of the construct being read). -/
structure YamlError where
  problem : String
  contextMark : Mark := {}
  problemMark : Mark := {}
  fromScanner : Bool := false
deriving Repr, Inhabited

/-- The message of a failure. The line shown is the context's line if it is not the first,
else the problem's; lines found by the scanner are shown counted from 1, those found by the
reader of tokens as counted from 0; a failure on the first line shows none. -/
def YamlError.message (e : YamlError) : String :=
  let bump := if e.fromScanner then 1 else 0
  let line :=
    if e.contextMark.line ≠ 0 then e.contextMark.line + bump
    else if e.problemMark.line ≠ 0 then e.problemMark.line + bump
    else 0
  "yaml: " ++ (if line ≠ 0 then "line " ++ toString line ++ ": " else "") ++ e.problem

/-- A place where an implicit key may start. -/
structure SimpleKey where
  possible : Bool := false
  required : Bool := false
  tokenNumber : Nat := 0
  mark : Mark := {}
deriving Repr, Inhabited

/-- The scanner: unread text, position, queued tokens and the block and flow context. -/
structure Scanner where
  rest : List Char
  mark : Mark := {}
  /-- Tokens produced and not yet taken by the reader. -/
  queue : List Token := []
  /-- How many tokens the reader has taken. -/
  parsed : Nat := 0
  /-- Whether the head token has been made ready since the reader last took one. -/
  available : Bool := false
  indent : Int := -1
  indents : List Int := []
  simpleKeyAllowed : Bool := false
  /-- One possible key per flow level, innermost first. -/
  simpleKeys : List SimpleKey := []
  flowLevel : Nat := 0
  started : Bool := false
deriving Inhabited

/-- A scanning step. -/
abbrev Scan := StateT Scanner (Except YamlError)

/-- A line break character. -/
def isBreak (c : Char) : Bool :=
  c == '\r' || c == '\n' || c == '\x85' || c == '\u2028' || c == '\u2029'

/-- A space or a tab. -/
def isBlank (c : Char) : Bool := c == ' ' || c == '\t'

/-- The end of the text, which reads as the character 0 (never present in accepted text). -/
def isEnd (c : Char) : Bool := c == '\x00'

/-- A blank, a line break or the end. -/
def isBlankEnd (c : Char) : Bool := isBlank c || isBreak c || isEnd c

/-- A line break or the end. -/
def isBreakEnd (c : Char) : Bool := isBreak c || isEnd c

/-- A character of an anchor name or tag handle: ASCII letters, digits, `_` and `-`. -/
def isWordChar (c : Char) : Bool := c.isAlphanum || c == '_' || c == '-'

/-- A hexadecimal digit. -/
def isHex (c : Char) : Bool :=
  c.isDigit || ('a' ≤ c && c ≤ 'f') || ('A' ≤ c && c ≤ 'F')

/-- The value of a hexadecimal digit. -/
def hexValue (c : Char) : Nat :=
  if c.isDigit then c.toNat - '0'.toNat
  else if 'a' ≤ c && c ≤ 'f' then c.toNat - 'a'.toNat + 10
  else c.toNat - 'A'.toNat + 10

/-- Characters a YAML text may contain. -/
def allowedChar (c : Char) : Bool :=
  let v := c.toNat
  v == 0x09 || v == 0x0A || v == 0x0D || (0x20 ≤ v && v ≤ 0x7E) || v == 0x85 ||
    (0xA0 ≤ v && v ≤ 0xD7FF) || (0xE000 ≤ v && v ≤ 0xFFFD) || (0x10000 ≤ v && v ≤ 0x10FFFF)

section Steps

variable {α : Type}

/-- Fails while scanning, with the given context position. -/
def scanFail (contextMark : Mark) (problem : String) : Scan α := do
  throw { problem, contextMark, problemMark := (← get).mark, fromScanner := true }

/-- The character `k` places ahead, or the end marker. -/
def peekAt (k : Nat) : Scan Char := do
  match (← get).rest.drop k with
  | c :: _ => pure c
  | [] => pure '\x00'

/-- Moves past one character of a line. -/
def skip : Scan Unit := modify fun s =>
  match s.rest with
  | [] => s
  | _ :: r => { s with rest := r, mark := { s.mark with index := s.mark.index + 1, column := s.mark.column + 1 } }

/-- Reads one character of a line. -/
def readChar : Scan Char := do
  let c ← peekAt 0
  skip
  pure c

/-- Moves past a line break (`\r\n` counts as one). -/
def skipLine : Scan Unit := modify fun s =>
  match s.rest with
  | '\r' :: '\n' :: r => { s with rest := r, mark := ⟨s.mark.index + 2, s.mark.line + 1, 0⟩ }
  | c :: r =>
    if isBreak c then { s with rest := r, mark := ⟨s.mark.index + 1, s.mark.line + 1, 0⟩ } else s
  | [] => s

/-- Reads a line break as it joins a scalar: `\r\n`, `\r`, `\n` and NEL read as `\n`, the
Unicode line and paragraph separators as themselves. -/
def readBreak : Scan String := do
  let c ← peekAt 0
  if isBreak c then
    skipLine
    pure (if c == '\u2028' || c == '\u2029' then c.toString else "\n")
  else pure ""

/-- Reads characters while they satisfy `p`. -/
def readWhile (p : Char → Bool) (acc : String) : Nat → Scan String
  | 0 => pure acc
  | n + 1 => do
    let c ← peekAt 0
    if p c && !isEnd c then
      skip
      readWhile p (acc.push c) n
    else pure acc

/-- Appends a token. -/
def emit (t : Token) : Scan Unit := modify fun s => { s with queue := s.queue ++ [t] }

/-- Inserts a token `pos` places after the head of the queue. -/
def insertAt (pos : Nat) (t : Token) : Scan Unit :=
  modify fun s => { s with queue := s.queue.take pos ++ t :: s.queue.drop pos }

/-- Sets whether an implicit key may start next. -/
def allowKey (b : Bool) : Scan Unit := modify fun s => { s with simpleKeyAllowed := b }

end Steps

/-! ## Implicit keys and indentation -/

/-- Drops the possible key of the current flow level; one that was required is an error. -/
def removeSimpleKey : Scan Unit := do
  let s ← get
  match s.simpleKeys with
  | k :: rest =>
    if k.possible then
      if k.required then scanFail k.mark "could not find expected ':'"
      set { s with simpleKeys := { k with possible := false } :: rest }
  | [] => pure ()

/-- Remembers the current position as a possible key, if a key may start here. A key is
required where a block collection's column says the next entry must be. -/
def saveSimpleKey : Scan Unit := do
  let s ← get
  if s.simpleKeyAllowed then
    let key : SimpleKey :=
      { possible := true
        required := s.flowLevel == 0 && s.indent == (s.mark.column : Int)
        tokenNumber := s.parsed + s.queue.length
        mark := s.mark }
    removeSimpleKey
    modify fun s => { s with simpleKeys := key :: s.simpleKeys.drop 1 }

/-- Whether the `i`-th remembered key can still be a key: it must be on the current line and
within 1024 characters. One that can no longer be is dropped; if it was required, that is an
error. -/
def keyValid (i : Nat) : Scan Bool := do
  let s ← get
  match s.simpleKeys[i]? with
  | none => pure false
  | some k =>
    if !k.possible then return false
    if k.mark.line < s.mark.line || k.mark.index + 1024 < s.mark.index then
      if k.required then scanFail k.mark "could not find expected ':'"
      set { s with simpleKeys := s.simpleKeys.set i { k with possible := false } }
      return false
    return true

/-- Enters a flow collection. -/
def increaseFlow : Scan Unit := do
  modify fun s => { s with simpleKeys := {} :: s.simpleKeys, flowLevel := s.flowLevel + 1 }
  if (← get).flowLevel > 10000 then scanFail {} "exceeded max depth of 10000"

/-- Leaves a flow collection. -/
def decreaseFlow : Scan Unit := modify fun s =>
  if s.flowLevel > 0 then { s with flowLevel := s.flowLevel - 1, simpleKeys := s.simpleKeys.drop 1 }
  else s

/-- Opens a block collection at `column` if it is deeper than the current one, with a start
token placed at the given token number (or last). Flow context has no indentation. -/
def rollIndent (column : Nat) (number : Option Nat) (kind : TokenKind) (mark : Mark) :
    Scan Unit := do
  let s ← get
  if s.flowLevel == 0 && s.indent < (column : Int) then
    set { s with indents := s.indent :: s.indents, indent := column }
    if (← get).indents.length > 10000 then
      scanFail ((← get).simpleKeys.headD {}).mark "exceeded max depth of 10000"
    let t : Token := ⟨kind, mark, mark⟩
    match number with
    | some n => insertAt (n - s.parsed) t
    | none => emit t

/-- Closes every block collection deeper than `column`. -/
def unrollLoop (column : Int) (mark : Mark) : List Int → Scan Unit
  | [] => pure ()
  | i :: rest => do
    let s ← get
    if s.indent > column then
      set { s with indent := i, indents := rest, queue := s.queue ++ [({ kind := .blockEnd, start := mark, stop := mark } : Token)] }
      unrollLoop column mark rest

/-- Closes the block collections deeper than `column`; their end tokens sit just before the
blanks skipped to reach the next token. -/
def unrollIndent (column : Int) (scanMark : Mark) : Scan Unit := do
  let s ← get
  if s.flowLevel == 0 then
    unrollLoop column { scanMark with index := scanMark.index - 1 } s.indents

/-! ## Between tokens -/

/-- Skips spaces, and tabs where they cannot be taken for indentation. -/
def skipSpaces : Nat → Scan Unit
  | 0 => pure ()
  | n + 1 => do
    let s ← get
    let c ← peekAt 0
    if c == ' ' || ((s.flowLevel > 0 || !s.simpleKeyAllowed) && c == '\t') then
      skip
      skipSpaces n

/-- Skips to the end of the line. -/
def skipToBreak : Nat → Scan Unit
  | 0 => pure ()
  | n + 1 => do
    if !isBreakEnd (← peekAt 0) then
      skip
      skipToBreak n

/-- Skips blanks, comments and line breaks up to the next token. A new line in block context
may start a key. -/
def scanToNextToken : Nat → Scan Unit
  | 0 => pure ()
  | n + 1 => do
    if (← get).mark.column == 0 && (← peekAt 0) == '\uFEFF' then skip
    skipSpaces (← get).rest.length
    if (← peekAt 0) == '#' then skipToBreak (← get).rest.length
    if isBreak (← peekAt 0) then
      skipLine
      if (← get).flowLevel == 0 then allowKey true
      scanToNextToken n

/-! ## Scalars -/

/-- Whether a document marker `---` or `...` starts the line here. -/
def atDocumentMarker : Scan Bool := do
  if (← get).mark.column != 0 then return false
  let a ← peekAt 0
  let b ← peekAt 1
  let c ← peekAt 2
  let d ← peekAt 3
  return ((a == '-' && b == '-' && c == '-') || (a == '.' && b == '.' && c == '.')) && isBlankEnd d

/-- Blanks and breaks met between two runs of a scalar, before they are folded in. -/
structure Gap where
  whitespaces : String := ""
  leadingBreak : String := ""
  trailingBreaks : String := ""
  leadingBlanks : Bool := false
deriving Inhabited

/-- The text a gap stands for: blanks as they are; a line break folds to a space, or to the
further line breaks if there are any. -/
def Gap.fold (g : Gap) : String :=
  if g.leadingBlanks then
    if g.leadingBreak.startsWith "\n" then
      if g.trailingBreaks.isEmpty then " " else g.trailingBreaks
    else g.leadingBreak ++ g.trailingBreaks
  else g.whitespaces

/-- Whether a plain scalar stops before this character. -/
def plainStops (flow : Bool) (c next : Char) : Bool :=
  (c == ':' && isBlankEnd next) ||
    (flow && (c == ',' || c == '?' || c == '[' || c == ']' || c == '\x7b' || c == '\x7d'))

/-- The characters of one line of a plain scalar, each preceded by the pending gap. -/
def plainRun (flow : Bool) (acc : String) (gap : Gap) (stop : Mark) :
    Nat → Scan (String × Gap × Mark)
  | 0 => pure (acc, gap, stop)
  | n + 1 => do
    let c ← peekAt 0
    if isBlankEnd c || plainStops flow c (← peekAt 1) then return (acc, gap, stop)
    let acc := if gap.leadingBlanks || !gap.whitespaces.isEmpty then acc ++ gap.fold else acc
    let c ← readChar
    plainRun flow (acc.push c) {} (← get).mark n

/-- The blanks and breaks after a run of a plain scalar. A tab may not stand where the
scalar's indentation is expected. -/
def plainGap (indent : Int) (start : Mark) (gap : Gap) : Nat → Scan Gap
  | 0 => pure gap
  | n + 1 => do
    let c ← peekAt 0
    if isBlank c then
      if gap.leadingBlanks && ((← get).mark.column : Int) < indent && c == '\t' then
        scanFail start "found a tab character that violates indentation"
      if gap.leadingBlanks then
        skip
        plainGap indent start gap n
      else
        let c ← readChar
        plainGap indent start { gap with whitespaces := gap.whitespaces.push c } n
    else if isBreak c then
      if gap.leadingBlanks then
        let b ← readBreak
        plainGap indent start { gap with trailingBreaks := gap.trailingBreaks ++ b } n
      else
        let b ← readBreak
        plainGap indent start { gap with whitespaces := "", leadingBreak := b, leadingBlanks := true } n
    else pure gap

/-- The lines of a plain scalar. It ends before a comment, a document marker, an indicator
that closes it, or a line indented no deeper than the enclosing block. -/
def plainLines (indent : Int) (start : Mark) (acc : String) (gap : Gap) (stop : Mark) :
    Nat → Scan (String × Gap × Mark)
  | 0 => pure (acc, gap, stop)
  | n + 1 => do
    if (← atDocumentMarker) || (← peekAt 0) == '#' then return (acc, gap, stop)
    let s ← get
    let (acc, gap, stop) ← plainRun (s.flowLevel > 0) acc gap stop s.rest.length
    let c ← peekAt 0
    if !(isBlank c || isBreak c) then return (acc, gap, stop)
    let gap ← plainGap indent start gap (← get).rest.length
    let s ← get
    if s.flowLevel == 0 && (s.mark.column : Int) < indent then return (acc, gap, stop)
    plainLines indent start acc gap stop n

/-- Reads a plain scalar. If it ran over a line break, a key may follow. -/
def scanPlain : Scan Token := do
  let s ← get
  let start := s.mark
  let (text, gap, stop) ← plainLines (s.indent + 1) start "" {} start (s.rest.length + 1)
  if gap.leadingBlanks then allowKey true
  pure ⟨.scalar text .plain, start, stop⟩

/-- The character with the given code as an escape writes it. -/
def escapeCode (start : Mark) (width : Nat) : Scan Char := do
  let mut value := 0
  for k in List.range width do
    let c ← peekAt k
    if !isHex c then scanFail start "did not find expected hexdecimal number"
    value := value * 16 + hexValue c
  if (0xD800 ≤ value && value ≤ 0xDFFF) || value > 0x10FFFF then
    scanFail start "found invalid Unicode character escape code"
  for _ in List.range width do skip
  pure (Char.ofNat value)

/-- The text of a one-character escape after a backslash, or the width of a code escape. -/
def simpleEscape (c : Char) : Option (Sum String Nat) :=
  match c with
  | '0' => some (.inl "\x00")
  | 'a' => some (.inl "\x07")
  | 'b' => some (.inl "\x08")
  | 't' => some (.inl "\t")
  | '\t' => some (.inl "\t")
  | 'n' => some (.inl "\n")
  | 'v' => some (.inl "\x0b")
  | 'f' => some (.inl "\x0c")
  | 'r' => some (.inl "\r")
  | 'e' => some (.inl "\x1b")
  | ' ' => some (.inl " ")
  | '"' => some (.inl "\"")
  | '\'' => some (.inl "'")
  | '\\' => some (.inl "\\")
  | 'N' => some (.inl "\x85")
  | '_' => some (.inl "\xa0")
  | 'L' => some (.inl " ")
  | 'P' => some (.inl " ")
  | 'x' => some (.inr 2)
  | 'u' => some (.inr 4)
  | 'U' => some (.inr 8)
  | _ => none

/-- The non-blank characters of one line of a quoted scalar. Returns whether an escaped line
break ended it. -/
def quotedRun (single : Bool) (start : Mark) (acc : String) : Nat → Scan (String × Bool)
  | 0 => pure (acc, false)
  | n + 1 => do
    let c ← peekAt 0
    if isBlankEnd c then return (acc, false)
    let c1 ← peekAt 1
    if single && c == '\'' && c1 == '\'' then
      skip
      skip
      quotedRun single start (acc.push '\'') n
    else if single && c == '\'' then pure (acc, false)
    else if !single && c == '"' then pure (acc, false)
    else if !single && c == '\\' && isBreak c1 then
      skip
      skipLine
      pure (acc, true)
    else if !single && c == '\\' then
      match simpleEscape c1 with
      | none => scanFail start "found unknown escape character"
      | some (.inl t) =>
        skip
        skip
        quotedRun single start (acc ++ t) n
      | some (.inr width) =>
        skip
        skip
        let ch ← escapeCode start width
        quotedRun single start (acc.push ch) n
    else
      let ch ← readChar
      quotedRun single start (acc.push ch) n

/-- The blanks and line breaks inside a quoted scalar. -/
def quotedGap (gap : Gap) : Nat → Scan Gap
  | 0 => pure gap
  | n + 1 => do
    let c ← peekAt 0
    if isBlank c then
      if gap.leadingBlanks then
        skip
        quotedGap gap n
      else
        let c ← readChar
        quotedGap { gap with whitespaces := gap.whitespaces.push c } n
    else if isBreak c then
      let b ← readBreak
      if gap.leadingBlanks then quotedGap { gap with trailingBreaks := gap.trailingBreaks ++ b } n
      else quotedGap { gap with whitespaces := "", leadingBreak := b, leadingBlanks := true } n
    else pure gap

/-- The lines of a quoted scalar, up to its closing quote. -/
def quotedLines (single : Bool) (start : Mark) (acc : String) : Nat → Scan String
  | 0 => pure acc
  | n + 1 => do
    if (← atDocumentMarker) then scanFail start "found unexpected document indicator"
    if isEnd (← peekAt 0) then scanFail start "found unexpected end of stream"
    let (acc, escapedBreak) ← quotedRun single start acc (← get).rest.length
    let c ← peekAt 0
    if (single && c == '\'') || (!single && c == '"') then return acc
    let gap ← quotedGap { leadingBlanks := escapedBreak } (← get).rest.length
    quotedLines single start (acc ++ gap.fold) n

/-- Reads a single- or double-quoted scalar. -/
def scanQuoted (single : Bool) : Scan Token := do
  let start := (← get).mark
  skip
  let text ← quotedLines single start "" ((← get).rest.length + 1)
  skip
  pure ⟨.scalar text (if single then .singleQuoted else .doubleQuoted), start, (← get).mark⟩

/-- Skips indentation spaces up to the column `indent` (all of them while it is unknown). -/
def indentSpaces (indent : Nat) : Nat → Scan Unit
  | 0 => pure ()
  | k + 1 => do
    if (indent == 0 || (← get).mark.column < indent) && (← peekAt 0) == ' ' then
      skip
      indentSpaces indent k

/-- Indentation spaces and empty lines before a line of a block scalar; fixes the scalar's
indentation from the deepest of them if it is not known yet. -/
def blockBreaks (start : Mark) (indent : Nat) (breaks : String) (deepest : Nat) (stop : Mark) :
    Nat → Scan (Nat × String × Mark)
  | 0 => pure (indent, breaks, stop)
  | n + 1 => do
    indentSpaces indent (← get).rest.length
    let deepest := max deepest (← get).mark.column
    if (indent == 0 || (← get).mark.column < indent) && (← peekAt 0) == '\t' then
      scanFail start "found a tab character where an indentation space is expected"
    if !isBreak (← peekAt 0) then
      let s ← get
      let indent :=
        if indent == 0 then max 1 (max deepest (s.indent + 1).toNat) else indent
      return (indent, breaks, stop)
    let b ← readBreak
    blockBreaks start indent (breaks ++ b) deepest (← get).mark n

/-- The lines of a block scalar at its indentation. -/
def blockLines (literal : Bool) (start : Mark) (indent : Nat) (acc leadingBreak breaks : String)
    (leadingBlank : Bool) (stop : Mark) : Nat → Scan (String × String × String × Mark)
  | 0 => pure (acc, leadingBreak, breaks, stop)
  | n + 1 => do
    if (← get).mark.column != indent || isEnd (← peekAt 0) then
      return (acc, leadingBreak, breaks, stop)
    let trailingBlank := isBlank (← peekAt 0)
    let acc :=
      if !literal && !leadingBlank && !trailingBlank && leadingBreak.startsWith "\n" then
        if breaks.isEmpty then acc.push ' ' else acc
      else acc ++ leadingBreak
    let acc := acc ++ breaks
    let leadingBlank := isBlank (← peekAt 0)
    let acc ← readWhile (fun c => !isBreakEnd c) acc (← get).rest.length
    let leadingBreak ← readBreak
    let (indent, breaks, stop) ← blockBreaks start indent "" 0 stop (← get).rest.length
    blockLines literal start indent acc leadingBreak breaks leadingBlank stop n

/-- Reads a literal (`|`) or folded (`>`) block scalar with its chomping and indentation
indicators. -/
def scanBlockScalar (literal : Bool) : Scan Token := do
  let start := (← get).mark
  skip
  let mut chomping : Int := 0
  let mut increment : Nat := 0
  let c ← peekAt 0
  if c == '+' || c == '-' then
    chomping := if c == '+' then 1 else -1
    skip
    let d ← peekAt 0
    if d.isDigit then
      if d == '0' then scanFail start "found an indentation indicator equal to 0"
      increment := d.toNat - '0'.toNat
      skip
  else if c.isDigit then
    if c == '0' then scanFail start "found an indentation indicator equal to 0"
    increment := c.toNat - '0'.toNat
    skip
    let d ← peekAt 0
    if d == '+' || d == '-' then
      chomping := if d == '+' then 1 else -1
      skip
  let _ ← readWhile isBlank "" (← get).rest.length
  if (← peekAt 0) == '#' then skipToBreak (← get).rest.length
  if !isBreakEnd (← peekAt 0) then scanFail start "did not find expected comment or line break"
  if isBreak (← peekAt 0) then skipLine
  let stop := (← get).mark
  let s ← get
  let indent : Nat :=
    if increment > 0 then (if s.indent ≥ 0 then (s.indent + increment).toNat else increment) else 0
  let (indent, breaks, stop) ← blockBreaks start indent "" 0 stop (← get).rest.length
  let (acc, leadingBreak, breaks, stop) ←
    blockLines literal start indent "" "" breaks false stop ((← get).rest.length + 1)
  let acc := if chomping != -1 then acc ++ leadingBreak else acc
  let acc := if chomping == 1 then acc ++ breaks else acc
  pure ⟨.scalar acc (if literal then .literal else .folded), start, stop⟩

/-! ## Anchors, tags and directives -/

/-- The number a string of decimal digits writes. -/
def digitsValue (s : String) : Nat := s.foldl (fun n c => n * 10 + (c.toNat - 48)) 0

/-- Reads an anchor (`&name`) or an alias (`*name`). -/
def scanAnchor (isAlias : Bool) : Scan Token := do
  let start := (← get).mark
  skip
  let name ← readWhile isWordChar "" (← get).rest.length
  let stop := (← get).mark
  let c ← peekAt 0
  if name.isEmpty || !(isBlankEnd c || c == '?' || c == ':' || c == ',' || c == ']' ||
      c == '\x7d' || c == '%' || c == '@' || c == '\x60') then
    scanFail start "did not find expected alphabetic or numeric character"
  pure ⟨if isAlias then .alias name else .anchor name, start, stop⟩

/-- A character that may appear in a tag. -/
def isUriChar (verbatim : Bool) (c : Char) : Bool :=
  isWordChar c || ";/?:@&=+$.!~*'()%".contains c || (verbatim && (c == ',' || c == '[' || c == ']'))

/-- Reads the rest of a tag after its handle; `head` is a handle that turned out to be part
of the name. -/
def tagUri (verbatim : Bool) (head : String) (start : Mark) : Scan String := do
  let s ← readWhile (isUriChar verbatim) (head.drop 1).toString (← get).rest.length
  if s.isEmpty && head.isEmpty then scanFail start "did not find expected tag URI"
  pure s

/-- Reads a tag handle: `!`, `!!` or `!name!`. -/
def tagHandle (directive : Bool) (start : Mark) : Scan String := do
  if (← peekAt 0) != '!' then scanFail start "did not find expected '!'"
  skip
  let s ← readWhile isWordChar "!" (← get).rest.length
  if (← peekAt 0) == '!' then
    skip
    pure (s.push '!')
  else
    if directive && s != "!" then scanFail start "did not find expected '!'"
    pure s

/-- Reads a tag: `!<uri>`, `!handle!suffix`, `!suffix` or `!`. -/
def scanTag : Scan Token := do
  let start := (← get).mark
  let mut handle := ""
  let mut suffix := ""
  if (← peekAt 1) == '<' then
    skip
    skip
    suffix ← tagUri true "" start
    if (← peekAt 0) != '>' then scanFail start "did not find the expected '>'"
    skip
  else
    let h ← tagHandle false start
    if h.length > 1 && h.startsWith "!" && h.endsWith "!" then
      handle := h
      suffix ← tagUri false "" start
    else
      suffix ← tagUri false h start
      handle := "!"
      if suffix.isEmpty then
        handle := ""
        suffix := "!"
  let c ← peekAt 0
  if !isBlankEnd c && ((← get).flowLevel == 0 || c != ',') then
    scanFail start "did not find expected whitespace or line break"
  pure ⟨.tag handle suffix, start, (← get).mark⟩

/-- Reads a directive line: `%YAML major.minor` or `%TAG handle prefix`. -/
def scanDirective : Scan Token := do
  let start := (← get).mark
  skip
  let name ← readWhile isWordChar "" (← get).rest.length
  if name.isEmpty then scanFail start "could not find expected directive name"
  if !isBlankEnd (← peekAt 0) then scanFail start "found unexpected non-alphabetical character"
  let kind ←
    if name == "YAML" then do
      let _ ← readWhile isBlank "" (← get).rest.length
      let major ← readWhile Char.isDigit "" (← get).rest.length
      if major.isEmpty then scanFail start "did not find expected version number"
      if (← peekAt 0) != '.' then scanFail start "did not find expected digit or '.' character"
      skip
      let minor ← readWhile Char.isDigit "" (← get).rest.length
      if minor.isEmpty then scanFail start "did not find expected version number"
      pure (TokenKind.versionDirective (digitsValue major) (digitsValue minor))
    else if name == "TAG" then do
      let _ ← readWhile isBlank "" (← get).rest.length
      let handle ← tagHandle true start
      if !isBlank (← peekAt 0) then scanFail start "did not find expected whitespace"
      let _ ← readWhile isBlank "" (← get).rest.length
      let target ← tagUri true "" start
      if !isBlankEnd (← peekAt 0) then scanFail start "did not find expected whitespace or line break"
      pure (TokenKind.tagDirective handle target)
    else scanFail start "found unknown directive name"
  let stop := (← get).mark
  let _ ← readWhile isBlank "" (← get).rest.length
  if (← peekAt 0) == '#' then skipToBreak (← get).rest.length
  if !isBreakEnd (← peekAt 0) then scanFail start "did not find expected comment or line break"
  skipLine
  pure ⟨kind, start, stop⟩

/-! ## Fetching tokens -/

/-- Emits a one-character indicator token. -/
def indicator (kind : TokenKind) : Scan Unit := do
  let start := (← get).mark
  skip
  emit ⟨kind, start, (← get).mark⟩

/-- The first token. -/
def fetchStreamStart : Scan Unit := do
  modify fun s => { s with indent := -1, simpleKeys := [{}], simpleKeyAllowed := true, started := true }
  let m := (← get).mark
  emit ⟨.streamStart, m, m⟩

/-- The last token; it closes every open block, at the start of a line. -/
def fetchStreamEnd : Scan Unit := do
  let s ← get
  if s.mark.column != 0 then set { s with mark := { s.mark with column := 0, line := s.mark.line + 1 } }
  unrollIndent (-1) (← get).mark
  removeSimpleKey
  allowKey false
  let m := (← get).mark
  emit ⟨.streamEnd, m, m⟩

/-- `---` or `...`. -/
def fetchDocumentIndicator (kind : TokenKind) : Scan Unit := do
  unrollIndent (-1) (← get).mark
  removeSimpleKey
  allowKey false
  let start := (← get).mark
  skip
  skip
  skip
  emit ⟨kind, start, (← get).mark⟩

/-- `[` or `{`. -/
def fetchFlowStart (kind : TokenKind) : Scan Unit := do
  saveSimpleKey
  increaseFlow
  allowKey true
  indicator kind

/-- `]` or `}`. -/
def fetchFlowEnd (kind : TokenKind) : Scan Unit := do
  removeSimpleKey
  decreaseFlow
  allowKey false
  indicator kind

/-- `,`. -/
def fetchFlowEntry : Scan Unit := do
  removeSimpleKey
  allowKey true
  indicator .flowEntry

/-- `-` before a block sequence entry. -/
def fetchBlockEntry : Scan Unit := do
  let s ← get
  if s.flowLevel == 0 then
    if !s.simpleKeyAllowed then
      scanFail s.mark "block sequence entries are not allowed in this context"
    rollIndent s.mark.column none .blockSequenceStart s.mark
  removeSimpleKey
  allowKey true
  indicator .blockEntry

/-- `?` before an explicit key. -/
def fetchKey : Scan Unit := do
  let s ← get
  if s.flowLevel == 0 then
    if !s.simpleKeyAllowed then
      scanFail s.mark "mapping keys are not allowed in this context"
    rollIndent s.mark.column none .blockMappingStart s.mark
  removeSimpleKey
  allowKey ((← get).flowLevel == 0)
  indicator .key

/-- `:` before a value. If an implicit key was possible, its key token is inserted where it
started, opening a block mapping there if needed. -/
def fetchValue : Scan Unit := do
  if (← keyValid 0) then
    let s ← get
    let k := s.simpleKeys.headD {}
    insertAt (k.tokenNumber - s.parsed) ⟨.key, k.mark, k.mark⟩
    rollIndent k.mark.column (some k.tokenNumber) .blockMappingStart k.mark
    modify fun s => { s with simpleKeys := { k with possible := false } :: s.simpleKeys.drop 1 }
    allowKey false
  else
    let s ← get
    if s.flowLevel == 0 then
      if !s.simpleKeyAllowed then
        scanFail s.mark "mapping values are not allowed in this context"
      rollIndent s.mark.column none .blockMappingStart s.mark
    allowKey ((← get).flowLevel == 0)
  indicator .value

/-- A token that may start a key: anchors, aliases, tags, flow scalars and plain scalars. -/
def fetchKeyable (scan : Scan Token) : Scan Unit := do
  saveSimpleKey
  allowKey false
  emit (← scan)

/-- Whether a plain scalar may start with `c` followed by `next`. -/
def startsPlain (flow : Bool) (c next : Char) : Bool :=
  !(isBlankEnd c || "-?:,[]#&*!|>'\"%@`".contains c || c == '\x7b' || c == '\x7d') ||
    (c == '-' && !isBlank next) || (!flow && (c == '?' || c == ':') && !isBlankEnd next)

/-- Scans the next token (or, at the end, another end token). -/
def fetchNextToken : Scan Unit := do
  if !(← get).started then
    fetchStreamStart
    return
  let scanMark := (← get).mark
  scanToNextToken ((← get).rest.length + 1)
  unrollIndent (← get).mark.column scanMark
  let s ← get
  let c ← peekAt 0
  let c1 ← peekAt 1
  let c2 ← peekAt 2
  let c3 ← peekAt 3
  let flow := s.flowLevel > 0
  if isEnd c then fetchStreamEnd
  else if s.mark.column == 0 && c == '%' then
    unrollIndent (-1) s.mark
    removeSimpleKey
    allowKey false
    emit (← scanDirective)
  else if s.mark.column == 0 && c == '-' && c1 == '-' && c2 == '-' && isBlankEnd c3 then
    fetchDocumentIndicator .documentStart
  else if s.mark.column == 0 && c == '.' && c1 == '.' && c2 == '.' && isBlankEnd c3 then
    fetchDocumentIndicator .documentEnd
  else if c == '[' then fetchFlowStart .flowSequenceStart
  else if c == '\x7b' then fetchFlowStart .flowMappingStart
  else if c == ']' then fetchFlowEnd .flowSequenceEnd
  else if c == '\x7d' then fetchFlowEnd .flowMappingEnd
  else if c == ',' then fetchFlowEntry
  else if c == '-' && isBlankEnd c1 then fetchBlockEntry
  else if c == '?' && (flow || isBlankEnd c1) then fetchKey
  else if c == ':' && (flow || isBlankEnd c1) then fetchValue
  else if c == '*' then fetchKeyable (scanAnchor true)
  else if c == '&' then fetchKeyable (scanAnchor false)
  else if c == '!' then fetchKeyable scanTag
  else if (c == '|' || c == '>') && !flow then
    removeSimpleKey
    allowKey true
    emit (← scanBlockScalar (c == '|'))
  else if c == '\'' then fetchKeyable (scanQuoted true)
  else if c == '"' then fetchKeyable (scanQuoted false)
  else if startsPlain flow c c1 then fetchKeyable scanPlain
  else scanFail s.mark "found character that cannot start any token"

/-- Scans until at least three tokens wait and the head token can no longer become a key. -/
def fetchMore : Nat → Scan Unit
  | 0 => pure ()
  | n + 1 => do
    let s ← get
    if s.queue.length > 2 then
      match s.simpleKeys.findIdx? (·.tokenNumber == s.parsed) with
      | none => return
      | some i => if !(← keyValid i) then return
    fetchNextToken
    fetchMore n

/-- The next token, scanning as much as needed. -/
def peekToken : Scan Token := do
  let s ← get
  if !s.available then
    fetchMore (2 * s.rest.length + 16)
    modify fun s => { s with available := true }
  let s ← get
  pure (s.queue.headD ⟨.streamEnd, s.mark, s.mark⟩)

/-- Takes the head token. -/
def skipToken : Scan Unit :=
  modify fun s => { s with available := false, parsed := s.parsed + 1, queue := s.queue.drop 1 }

/-- A scanner at the start of a text. A leading byte order mark is dropped; a text with a
control character is refused before any token. -/
def Scanner.start (text : String) : Except YamlError Scanner :=
  let cs := match text.toList with
    | '\uFEFF' :: r => r
    | r => r
  if cs.all allowedChar then .ok { rest := cs }
  else .error { problem := "control characters are not allowed" }

end CoSimBridge.Yaml
