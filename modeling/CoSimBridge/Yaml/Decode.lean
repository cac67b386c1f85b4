import CoSimBridge.Yaml.Document
import CoSimBridge.Text.Quote
import CoSimBridge.Text.Base64
import CoSimBridge.Number.Convert
import CoSimBridge.Duration
/-!
Reading YAML nodes into typed values.

A decoder reads a node into a value that may already hold one, and gives the new value or
none when the node supplies none; the caller then keeps the old value. Values that do not fit
their place are not fatal: each one adds a message (`line N: cannot unmarshal …`) and reading
goes on, so one pass reports every misfit in document order. Mappings read into records field
by field; a key no field takes is reported, and so is a key repeated in one mapping (the
mapping is then skipped). A null leaves scalars and records as they are, empties a list and
clears an optional value. A sequence element that supplies no value is dropped.

Only a scalar whose explicit tag contradicts its text, or an alias of a node that contains it,
stops reading at once.
-/

namespace CoSimBridge.Yaml

open CoSimBridge.Number

/-- Reading state: the misfit messages so far; a fatal failure is the exception. -/
abbrev Decode := StateT (List String) (Except String)

/-- Reads a node into a value that may already hold one. -/
abbrev Decoder (α : Type) := Node → α → Decode (Option α)

/-- The line a node starts on. -/
def Node.line : Node → Nat
  | .scalar _ _ l | .sequence _ _ l | .mapping _ _ l | .alias _ _ l => l

/-- A node's tag. -/
def Node.tag : Node → String
  | .scalar _ t _ | .sequence _ t _ | .mapping _ t _ => t
  | .alias .. => ""

/-- A node's text (empty for collections; the anchor name for an alias). -/
def Node.text : Node → String
  | .scalar t _ _ => t
  | .alias n _ _ => n
  | _ => ""

/-- A node's kind, for comparing keys. -/
def Node.kindCode : Node → Nat
  | .scalar .. => 0
  | .sequence .. => 1
  | .mapping .. => 2
  | .alias .. => 3

/-- The node an alias stands for, through chains of aliases. -/
def target (n : Node) : Decode Node := go 64 n
where
  go : Nat → Node → Decode Node
    | 0, n => pure n
    | k + 1, n =>
      match n with
      | .alias name none _ => throw ("anchor '" ++ name ++ "' value contains itself")
      | .alias _ (some t) _ => go k t
      | n => pure n

/-- The value of a scalar: its text for a string-tagged scalar, the text its base64 stands for
for a binary one, else its tag's reading. -/
def scalarValue (text tag : String) : Decode Scalar :=
  if tag == "!!str" then pure (.str text)
  else if tag == "!!binary" then
    match Base64.decode? text with
    | some bs => pure (.str (Utf8.lossy bs))
    | none => throw "!!binary value contains invalid base64 data"
  else match resolve tag text with
    | .ok (_, v) => pure v
    | .error m => throw m

/-- Reports a node that does not fit a value of type `typeName`. A scalar's text is shown,
cut to seven bytes and `...` past ten. -/
def misfit (n : Node) (typeName : String) : Decode Unit := do
  let tag := n.tag
  let shown :=
    if tag == "!!seq" || tag == "!!map" then ""
    else
      let bs := Utf8.encode n.text
      if bs.length > 10 then " `" ++ Utf8.lossy (bs.take 7) ++ "...`" else " `" ++ n.text ++ "`"
  modify (· ++ ["line " ++ toString n.line ++ ": cannot unmarshal " ++ tag ++ shown ++ " into " ++
    typeName])

/-- Reports every key of a mapping written again later in it; true if there was one. -/
def duplicates (pairs : List (Node × Node)) : Decode Bool := do
  let keys := pairs.map (·.1)
  let found := (List.range keys.length).flatMap fun i =>
    ((List.range keys.length).filter (i < ·)).filterMap fun j =>
      match keys[i]?, keys[j]? with
      | some a, some b =>
        if a.kindCode == b.kindCode && a.text == b.text then
          some ("line " ++ toString b.line ++ ": mapping key " ++ Text.quote b.text ++
            " already defined at line " ++ toString a.line)
        else none
      | _, _ => none
  modify (· ++ found)
  pure !found.isEmpty

/-- A mapping where a value of type `typeName` is wanted that is not a record: its repeated
keys, or else the misfit. -/
def mappingMisfit (n : Node) (pairs : List (Node × Node)) (typeName : String) : Decode Unit := do
  if !(← duplicates pairs) then misfit n typeName

/-- A scalar decoder: `read` gives the value of a scalar from its text (for a binary scalar,
the text it stands for) and reading, or none when it does not fit. -/
def scalarDecoder {α : Type} (typeName : String) (read : String → Scalar → Option α) : Decoder α :=
  fun n _ => do
    let n ← target n
    match n with
    | .scalar text tag _ =>
      let v ← scalarValue text tag
      if v == .null then return none
      let text := match tag, v with
        | "!!binary", .str s => s
        | _, _ => text
      match read text v with
      | some x => return some x
      | none =>
        misfit n typeName
        return none
    | .mapping pairs _ _ =>
      mappingMisfit n pairs typeName
      return none
    | _ =>
      misfit n typeName
      return none

/-- Text: any scalar, as written. -/
def stringDecoder : Decoder String := scalarDecoder "string" fun text _ => some text

/-- A binary64 number from an integer (rounded to nearest) or a float. -/
def floatDecoder : Decoder Float := scalarDecoder "float64" fun _ v =>
  match v with
  | .int i => some (Float.ofBits (BinaryFormat.binary64.ofInt i).toUInt64)
  | .float b => some (Float.ofBits b)
  | _ => none

/-- A truth value: `true`/`false`, or a string spelling yes or no in YAML 1.1's words. -/
def boolDecoder : Decoder Bool := scalarDecoder "bool" fun _ v =>
  match v with
  | .bool b => some b
  | .str s =>
    if ["y", "Y", "yes", "Yes", "YES", "on", "On", "ON"].contains s then some true
    else if ["n", "N", "no", "No", "NO", "off", "Off", "OFF"].contains s then some false
    else none
  | _ => none

/-- A signed 64-bit integer from an integer in range or a float up to `2^63`, truncated; a
float below the range reads as the least integer. -/
def intDecoder (typeName : String) : Decoder Int := scalarDecoder typeName fun _ v =>
  match v with
  | .int i => if i < Int.pow 2 63 then some i else none
  | .float b =>
    let f := Float.ofBits b
    if f.isNaN || f > 9223372036854775807.0 then none
    else if f < -9223372036854775808.0 || f ≥ 9223372036854775808.0 then some (-(Int.pow 2 63))
    else some f.toInt64.toInt
  | _ => none

/-- A duration, from a string in duration syntax only. -/
def durationDecoder : Decoder Duration := scalarDecoder "time.Duration" fun _ v =>
  match v with
  | .str s => Duration.parse? s
  | _ => none

/-- A list from a sequence, each element read from `zero`; elements that supply no value are
dropped. A null gives the empty list. -/
def listDecoder {β : Type} (typeName : String) (zero : β) (elem : Decoder β) : Decoder (List β) :=
  fun n _ => do
    let n ← target n
    match n with
    | .sequence items _ _ => some <$> items.filterMapM fun i => elem i zero
    | .mapping pairs _ _ =>
      mappingMisfit n pairs typeName
      return none
    | .scalar text tag _ =>
      if (← scalarValue text tag) == .null then return some []
      misfit n typeName
      return none
    | .alias .. => return none

/-- An optional value: null clears it; anything else is read into the present value (or
`zero`), which stays present even if the node does not fit. -/
def optionalDecoder {α : Type} (zero : α) (inner : Decoder α) : Decoder (Option α) :=
  fun n cur => do
    let n ← target n
    match n with
    | .scalar text "!!null" _ =>
      let _ ← scalarValue text "!!null"
      return some none
    | _ =>
      let base := cur.getD zero
      match ← inner n base with
      | some v => return some (some v)
      | none => return some (some base)

/-- A field of a record: its key and how a node updates it. -/
structure Field (α : Type) where
  key : String
  update : Node → α → Decode α

/-- A field read by `dec` from the part `get` selects, written back by `put`. -/
def field {α β : Type} (key : String) (dec : Decoder β) (get : α → β) (put : α → β → α) :
    Field α :=
  ⟨key, fun n v => do
    match ← dec n (get v) with
    | some x => pure (put v x)
    | none => pure v⟩

/-- The text of a mapping key, or none if it gives none (a null, or a collection). -/
def keyText (k : Node) : Decode (Option String) := stringDecoder k ""

/-- The message for a merge whose value is neither a mapping nor a sequence of mappings. -/
def mergeWantsMapping : String := "map merge requires map or sequence of maps as the value"

/-- Whether a key is the merge key: `<<` written plain, or tagged as a merge. -/
def Node.isMergeKey : Node → Bool
  | .scalar "<<" "!!merge" _ => true
  | _ => false

/-- The value of the last merge key among some pairs, with the fact that it lies inside them. -/
def lastMerge : (pairs : List (Node × Node)) → Option { m : Node // sizeOf m < sizeOf pairs }
  | [] => none
  | (k, m) :: rest =>
    match lastMerge rest with
    | some ⟨x, h⟩ => some ⟨x, by simp; omega⟩
    | none => if k.isMergeKey then some ⟨m, by simp; omega⟩ else none

/-- The keys of a mapping that read as text, as a merge compares them with the keys it brings. -/
def keyTexts (pairs : List (Node × Node)) : Decode (List String) :=
  pairs.filterMapM fun (k, _) => do
    match ← target k with
    | .scalar text tag _ =>
      match ← scalarValue text tag with
      | .str s | .timestamp s => return some s
      | _ => return none
    | _ => return none

/-- Reads the pairs of a mapping into a record in document order, merge keys apart. A field
given twice (through an alias key) is reported at its second key. When the mapping is merged
into a record, `taken` holds the keys already given a value: such a key is passed over and any
other is added, so the first mapping to give a key wins. -/
def readPairs {α : Type} (typeName : String) (fields : List (Field α)) (pairs : List (Node × Node))
    (v : α) (taken : Option (List String)) : Decode (α × Option (List String)) := do
  let mut v := v
  let mut taken := taken
  let mut done : List String := []
  for (k, val) in pairs do
    if k.isMergeKey then continue
    match ← keyText k with
    | none => pure ()
    | some key =>
      if let some ks := taken then
        if ks.contains key then continue
        taken := some (key :: ks)
      match fields.find? (·.key == key) with
      | some f =>
        if done.contains key then
          modify (· ++ ["line " ++ toString k.line ++ ": field " ++ key ++
            " already set in type " ++ typeName])
        else
          done := key :: done
          v ← f.update val v
      | none =>
        modify (· ++ ["line " ++ toString k.line ++ ": field " ++ key ++
          " not found in type " ++ typeName])
  return (v, taken)

/-- Merges the value of a merge key into a record whose keys in `taken` already have values:
a mapping (itself perhaps merging further ones), an alias of a mapping, or a sequence of those,
read first to last. Anything else stops reading. -/
def mergeInto {α : Type} (typeName : String) (fields : List (Field α)) (n : Node) (v : α)
    (taken : List String) : Decode (α × List String) :=
  match n with
  | .mapping pairs _ _ => do
    if ← duplicates pairs then return (v, taken)
    let (v, taken') ← readPairs typeName fields pairs v (some taken)
    let taken := taken'.getD taken
    match lastMerge pairs with
    | some ⟨m, _⟩ => mergeInto typeName fields m v taken
    | none => return (v, taken)
  | .alias name none _ => throw ("anchor '" ++ name ++ "' value contains itself")
  | .alias _ (some t) _ =>
    if t.kindCode == 2 then mergeInto typeName fields t v taken else throw mergeWantsMapping
  | .sequence items _ _ =>
    items.attach.foldlM
      (fun (v, taken) ⟨i, _⟩ =>
        match i with
        | .mapping .. | .alias .. => mergeInto typeName fields i v taken
        | _ => throw mergeWantsMapping)
      (v, taken)
  | .scalar .. => throw mergeWantsMapping
termination_by sizeOf n
decreasing_by
  all_goals simp_wf
  all_goals first | omega | exact Nat.lt_trans (List.sizeOf_lt_of_mem (by assumption)) (by omega)

/-- A record from a mapping, field by field in document order; then the value of a merge key
(`<<`), which gives only the keys the mapping itself does not, so keys written out win over
merged ones wherever they stand. -/
def recordDecoder {α : Type} (typeName : String) (fields : List (Field α)) : Decoder α :=
  fun n cur => do
    let n ← target n
    match n with
    | .mapping pairs _ _ =>
      if ← duplicates pairs then return none
      let (v, _) ← readPairs typeName fields pairs cur none
      match lastMerge pairs with
      | some ⟨m, _⟩ =>
        let (v, _) ← mergeInto typeName fields m v (← keyTexts pairs)
        return some v
      | none => return some v
    | .scalar text tag _ =>
      if (← scalarValue text tag) == .null then return none
      misfit n typeName
      return none
    | _ =>
      misfit n typeName
      return none

/-- Reads a document into a value of type α starting from `zero`: the value, or the message
of the misfits (`yaml: unmarshal errors:` and one line each), or a fatal message. -/
def decodeDocument {α : Type} (dec : Decoder α) (zero : α) (n : Node) : Except String α :=
  match (dec n zero).run [] with
  | .error m => .error ("yaml: " ++ m)
  | .ok (v, []) => .ok (v.getD zero)
  | .ok (_, errs) => .error ("yaml: unmarshal errors:\n  " ++ "\n  ".intercalate errs)

end CoSimBridge.Yaml
