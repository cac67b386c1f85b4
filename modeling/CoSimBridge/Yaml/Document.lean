import CoSimBridge.Yaml.Scanner
import CoSimBridge.Yaml.Resolve
/-!
YAML documents as trees of nodes.

The reader takes the scanner's tokens and builds the first document of a text: scalars,
sequences and mappings, each with its tag and the line it starts on (counted from 1). A plain
scalar's tag is resolved from its text; quoted and block scalars are strings; an explicit tag
is kept in its short form. An alias stands for the node its anchor names, which must come
earlier in the text.

The grammar is YAML 1.1's: block collections from indentation, flow collections in brackets,
and single-pair mappings inside flow sequences. Where the tokens do not fit, the failure
names what was expected and the start of the enclosing construct.
-/

namespace CoSimBridge.Yaml

/-- A node of a document. -/
inductive Node where
  /-- A scalar with its text, short tag and line. -/
  | scalar (text tag : String) (line : Nat)
  | sequence (items : List Node) (tag : String) (line : Nat)
  | mapping (pairs : List (Node × Node)) (tag : String) (line : Nat)
  /-- An alias with the node it stands for; none when it names a node that contains it. -/
  | alias (name : String) (target : Option Node) (line : Nat)
deriving Repr, Inhabited

/-- The state of reading a document: the scanner, the anchors seen so far (a node still being
read has none yet), and the tag handles in force. -/
structure Reader where
  scanner : Scanner
  anchors : List (String × Option Node) := []
  handles : List (String × String) := []
deriving Inhabited

/-- A reading step. -/
abbrev Read := StateT Reader (Except YamlError)

section Steps

variable {α : Type}

/-- Runs a scanning step. -/
def scanning (m : Scan α) : Read α := fun r =>
  match m r.scanner with
  | .ok (a, s) => .ok (a, { r with scanner := s })
  | .error e => .error e

/-- The next token. -/
def peek : Read Token := scanning peekToken

/-- Takes the next token. -/
def advance : Read Unit := scanning skipToken

/-- Fails with the start of the enclosing construct as context. -/
def readFail (contextMark problemMark : Mark) (problem : String) : Read α :=
  throw { problem, contextMark, problemMark }

end Steps

/-- Records an anchor (none while its node is still being read). -/
def remember (anchor : String) (n : Option Node) : Read Unit :=
  if anchor.isEmpty then pure ()
  else modify fun r => { r with anchors := (anchor, n) :: r.anchors }

/-- The tag of a scalar node: an explicit tag in short form; otherwise `!!str` for quoted and
block scalars, `!!merge` for a plain `<<`, and the resolved tag of other plain scalars. -/
def scalarTag (tag text : String) (style : ScalarStyle) : String :=
  if tag != "" && tag != "!" then shortTag tag
  else if style != .plain then "!!str"
  else if text == "<<" then "!!merge"
  else (resolvePlain text).1

/-- The tag of a collection node. -/
def collectionTag (tag fallback : String) : String :=
  if tag != "" && tag != "!" then shortTag tag else fallback

/-- An empty plain scalar at a position. -/
def emptyAt (m : Mark) : Node := .scalar "" "!!null" (m.line + 1)

/-- A node's anchor and tag, if written before it: the anchor, the full tag, the start of
the node and the next token. -/
def properties : Read (String × String × Mark × Token) := do
  let t ← peek
  let start := t.start
  let mut anchor := ""
  let mut tagParts : Option (String × String × Mark) := none
  let mut t := t
  match t.kind with
  | .anchor a =>
    anchor := a
    advance
    t ← peek
    match t.kind with
    | .tag h s =>
      tagParts := some (h, s, t.start)
      advance
      t ← peek
    | _ => pure ()
  | .tag h s =>
    tagParts := some (h, s, t.start)
    advance
    t ← peek
    match t.kind with
    | .anchor a =>
      anchor := a
      advance
      t ← peek
    | _ => pure ()
  | _ => pure ()
  let tag ← match tagParts with
    | none => pure ""
    | some (h, s, m) =>
      if h.isEmpty then pure s
      else match (← get).handles.lookup h with
        | some p => pure (p ++ s)
        | none => readFail start m "found undefined tag handle"
  pure (anchor, tag, start, t)

/-- Whether a token is one of the given kinds of structure token. -/
def TokenKind.isOneOf (k : TokenKind) (ks : List TokenKind) : Bool := ks.contains k

mutual

/-- A node. In block context a block collection may start here; `indentless` also allows a
sequence whose `-` entries sit at the column of the enclosing mapping's keys. -/
def node (fuel : Nat) (block indentless : Bool) : Read Node :=
  match fuel with
  | 0 => readFail {} {} "document nested too deeply"
  | n + 1 => do
    let t ← peek
    match t.kind with
    | .alias name =>
      advance
      match (← get).anchors.lookup name with
      | some target => pure (.alias name target (t.start.line + 1))
      | none => throw { problem := "unknown anchor '" ++ name ++ "' referenced" }
    | _ =>
      let (anchor, tag, start, t) ← properties
      let line := start.line + 1
      if indentless && t.kind == .blockEntry then
        remember anchor none
        let items ← indentlessEntries n []
        let v := Node.sequence items (collectionTag tag "!!seq") line
        remember anchor (some v)
        return v
      match t.kind with
      | .scalar text style =>
        advance
        let v := Node.scalar text (scalarTag tag text style) line
        remember anchor (some v)
        pure v
      | .flowSequenceStart =>
        remember anchor none
        advance
        let items ← flowSequenceEntries n t.start true []
        let v := Node.sequence items (collectionTag tag "!!seq") line
        remember anchor (some v)
        pure v
      | .flowMappingStart =>
        remember anchor none
        advance
        let pairs ← flowMappingEntries n t.start true []
        let v := Node.mapping pairs (collectionTag tag "!!map") line
        remember anchor (some v)
        pure v
      | .blockSequenceStart =>
        if block then
          remember anchor none
          advance
          let items ← blockSequenceEntries n t.start []
          let v := Node.sequence items (collectionTag tag "!!seq") line
          remember anchor (some v)
          pure v
        else noContent anchor tag start t
      | .blockMappingStart =>
        if block then
          remember anchor none
          advance
          let pairs ← blockMappingEntries n t.start []
          let v := Node.mapping pairs (collectionTag tag "!!map") line
          remember anchor (some v)
          pure v
        else noContent anchor tag start t
      | _ => noContent anchor tag start t

/-- Where no node content follows: an empty scalar if an anchor or tag was written, else a
failure. -/
def noContent (anchor tag : String) (start : Mark) (t : Token) : Read Node := do
  if !anchor.isEmpty || !tag.isEmpty then
    let v := Node.scalar "" (scalarTag tag "" .plain) (start.line + 1)
    remember anchor (some v)
    pure v
  else
    readFail start t.start "did not find expected node content"

/-- The entries of a block sequence, after its start token, up to its end token. -/
def blockSequenceEntries (fuel : Nat) (open_ : Mark) (acc : List Node) : Read (List Node) :=
  match fuel with
  | 0 => readFail {} {} "document nested too deeply"
  | n + 1 => do
    let t ← peek
    match t.kind with
    | .blockEntry =>
      advance
      let t2 ← peek
      let item ←
        if t2.kind.isOneOf [.blockEntry, .blockEnd] then pure (emptyAt t.stop)
        else node n true false
      blockSequenceEntries n open_ (acc ++ [item])
    | .blockEnd =>
      advance
      pure acc
    | _ => readFail open_ t.start "did not find expected '-' indicator"

/-- The entries of a sequence whose `-` entries sit at the enclosing mapping's column. -/
def indentlessEntries (fuel : Nat) (acc : List Node) : Read (List Node) :=
  match fuel with
  | 0 => readFail {} {} "document nested too deeply"
  | n + 1 => do
    let t ← peek
    match t.kind with
    | .blockEntry =>
      advance
      let t2 ← peek
      let item ←
        if t2.kind.isOneOf [.blockEntry, .key, .value, .blockEnd] then pure (emptyAt t.stop)
        else node n true false
      indentlessEntries n (acc ++ [item])
    | _ => pure acc

/-- The pairs of a block mapping, after its start token, up to its end token. A key or value
left out is an empty scalar. -/
def blockMappingEntries (fuel : Nat) (open_ : Mark) (acc : List (Node × Node)) :
    Read (List (Node × Node)) :=
  match fuel with
  | 0 => readFail {} {} "document nested too deeply"
  | n + 1 => do
    let t ← peek
    match t.kind with
    | .key =>
      advance
      let t2 ← peek
      let k ←
        if t2.kind.isOneOf [.key, .value, .blockEnd] then pure (emptyAt t.stop)
        else node n true true
      let v ← blockMappingValue n
      blockMappingEntries n open_ (acc ++ [(k, v)])
    | .blockEnd =>
      advance
      pure acc
    | _ => readFail open_ t.start "did not find expected key"

/-- The value of a block mapping pair. -/
def blockMappingValue (fuel : Nat) : Read Node := do
  let t ← peek
  match t.kind with
  | .value =>
    advance
    let t2 ← peek
    if t2.kind.isOneOf [.key, .value, .blockEnd] then pure (emptyAt t.stop)
    else node fuel true true
  | _ => pure (emptyAt t.start)

/-- The entries of a flow sequence, after `[`, up to `]`. An entry `k: v` is a mapping of one
pair. -/
def flowSequenceEntries (fuel : Nat) (open_ : Mark) (first : Bool) (acc : List Node) :
    Read (List Node) :=
  match fuel with
  | 0 => readFail {} {} "document nested too deeply"
  | n + 1 => do
    let mut t ← peek
    if t.kind != .flowSequenceEnd then
      if !first then
        if t.kind == .flowEntry then
          advance
          t ← peek
        else readFail open_ t.start "did not find expected ',' or ']'"
      if t.kind == .key then
        advance
        let t2 ← peek
        let k ←
          if t2.kind.isOneOf [.value, .flowEntry, .flowSequenceEnd] then
            advance
            pure (emptyAt t2.stop)
          else node n false false
        let t3 ← peek
        let v ← match t3.kind with
          | .value => do
            advance
            let t4 ← peek
            if t4.kind.isOneOf [.flowEntry, .flowSequenceEnd] then pure (emptyAt t3.start)
            else node n false false
          | _ => pure (emptyAt t3.start)
        let pair := Node.mapping [(k, v)] "!!map" (t.start.line + 1)
        return (← flowSequenceEntries n open_ false (acc ++ [pair]))
      if t.kind != .flowSequenceEnd then
        let item ← node n false false
        return (← flowSequenceEntries n open_ false (acc ++ [item]))
    advance
    pure acc

/-- The pairs of a flow mapping, after `{`, up to `}`. A key without `:` has an empty
value. -/
def flowMappingEntries (fuel : Nat) (open_ : Mark) (first : Bool) (acc : List (Node × Node)) :
    Read (List (Node × Node)) :=
  match fuel with
  | 0 => readFail {} {} "document nested too deeply"
  | n + 1 => do
    let mut t ← peek
    if t.kind != .flowMappingEnd then
      if !first then
        if t.kind == .flowEntry then
          advance
          t ← peek
        else readFail open_ t.start "did not find expected ',' or '\x7d'"
      if t.kind == .key then
        advance
        let t2 ← peek
        let k ←
          if t2.kind.isOneOf [.value, .flowEntry, .flowMappingEnd] then pure (emptyAt t2.start)
          else node n false false
        let t3 ← peek
        let v ← match t3.kind with
          | .value => do
            advance
            let t4 ← peek
            if t4.kind.isOneOf [.flowEntry, .flowMappingEnd] then pure (emptyAt t4.start)
            else node n false false
          | _ => pure (emptyAt t3.start)
        return (← flowMappingEntries n open_ false (acc ++ [(k, v)]))
      if t.kind != .flowMappingEnd then
        let k ← node n false false
        let v := emptyAt (← peek).start
        return (← flowMappingEntries n open_ false (acc ++ [(k, v)]))
    advance
    pure acc

end

/-- The directives before an explicit document: `%YAML` at most once and of major version 1,
`%TAG` at most once per handle. The default handles `!` and `!!` are added after them. -/
def directives (fuel : Nat) (version : Bool) (handles : List (String × String)) :
    Read (List (String × String)) :=
  match fuel with
  | 0 => pure handles
  | n + 1 => do
    let t ← peek
    match t.kind with
    | .versionDirective major _ =>
      if version then readFail {} t.start "found duplicate %YAML directive"
      if major != 1 then readFail {} t.start "found incompatible YAML document"
      advance
      directives n true handles
    | .tagDirective h p =>
      if (handles.lookup h).isSome then readFail {} t.start "found duplicate %TAG directive"
      advance
      directives n version (handles ++ [(h, p)])
    | _ =>
      let defaults := [("!", "!"), ("!!", coreTagPrefix)].filter fun (h, _) => (handles.lookup h).isNone
      pure (handles ++ defaults)

/-- The first document of a text, or none if the text holds no document. The end of the
document is read too, so a failure just after it is still reported. -/
def firstDocument : Read (Option Node) := do
  let t ← peek
  if t.kind != .streamStart then readFail {} t.start "did not find expected <stream-start>"
  advance
  let t ← peek
  let fuel := 4 * ((← get).scanner.rest.length + 16)
  let content ←
    if !t.kind.isOneOf [.documentStart, .streamEnd] &&
        !(match t.kind with | .versionDirective .. | .tagDirective .. => true | _ => false) then
      let hs ← directives fuel false []
      modify fun r => { r with handles := hs }
      some <$> node fuel true false
    else if t.kind == .streamEnd then pure none
    else
      let hs ← directives fuel false []
      modify fun r => { r with handles := hs }
      let t ← peek
      if t.kind != .documentStart then readFail {} t.start "did not find expected <document start>"
      advance
      let t ← peek
      if t.kind.isOneOf [.documentStart, .documentEnd, .streamEnd] ||
          (match t.kind with | .versionDirective .. | .tagDirective .. => true | _ => false) then
        pure (some (emptyAt t.start))
      else some <$> node fuel true false
  match content with
  | none => pure none
  | some c =>
    let t ← peek
    if t.kind == .documentEnd then advance
    pure (some c)

/-- Reads the first document of a text. -/
def Node.ofText (text : String) : Except YamlError (Option Node) := do
  let s ← Scanner.start text
  let (d, _) ← firstDocument.run { scanner := s }
  pure d

end CoSimBridge.Yaml
