import CoSimBridge.Fmu.Model
import CoSimBridge.Xml.Tree
/-!
Reading a model description from its XML document.

The reader walks the document's tags in order. The root `fmiModelDescription` gives the version,
model name and token; `UnitDefinitions`, `TypeDefinitions`, `DefaultExperiment` and
`ModelVariables` are read where they appear; any other element after the root is skipped, and
one before it is refused. Variables are written either in the FMI 3 form (an element per kind,
with `Dimension` and `Start` children) or the FMI 2 form (`ScalarVariable` with a typed child).

Attributes are read in document order. A numeric attribute that is empty reads as zero; any
other is trimmed of blanks and must parse completely. An element that occurs again where one is
expected merges into the first: attributes it carries replace earlier ones, and its children
are added.
-/

namespace CoSimBridge.Fmu

open Xml

/-- A fault of plain text. -/
def plainFault (msg : String) : Fault := .text msg

/-- A fault of a number that does not read. -/
def readFault (e : Number.ReadError) : Fault := .text e.message

/-- A floating-point attribute. -/
def attrFloat (v : String) : Except Fault Float :=
  if v.isEmpty then .ok 0 else (Float.readText (Text.trim v)).mapError readFault

/-- An unsigned attribute of the given bit width. -/
def attrUnsigned (v : String) (width : Nat) : Except Fault Nat :=
  if v.isEmpty then .ok 0 else (Number.readUnsigned (Text.trim v) width).mapError readFault

/-- A signed attribute of the given bit width. -/
def attrSigned (v : String) (width : Nat) : Except Fault Int :=
  if v.isEmpty then .ok 0 else (Number.readSigned (Text.trim v) width).mapError readFault

/-- A unit as declared: its name and the factor and offset of its base unit, if given. -/
structure UnitDecl where
  name : String := ""
  factor : Option Float := none
  offset : Option Float := none

/-- An enumeration type as declared. -/
structure EnumTypeDecl where
  name : String := ""
  items : List EnumItem := []

/-- A floating-point type as declared, with its unit. -/
structure FloatTypeDecl where
  name : String := ""
  unit : String := ""

/-- An FMI 2 simple type: a real type with a unit, or an enumeration. -/
structure SimpleTypeDecl where
  name : String := ""
  real : Option FloatTypeDecl := none
  enumeration : Option EnumTypeDecl := none

/-- The type definitions of a description. -/
structure TypeDecls where
  simple : List SimpleTypeDecl := []
  enumerations : List EnumTypeDecl := []
  float32 : List FloatTypeDecl := []
  float64 : List FloatTypeDecl := []

/-- A dimension as declared: a size, a value reference, both or neither. -/
structure DimensionDecl where
  start : Option Nat := none
  vr : Option Nat := none

/-- An FMI 3 variable as declared. -/
structure VariableDecl where
  name : String := ""
  vr : Nat := 0
  causality : String := ""
  declaredType : String := ""
  unit : String := ""
  start : String := ""
  clocks : String := ""
  dimensions : List DimensionDecl := []
  starts : List String := []

/-- The typed part of an FMI 2 variable. -/
structure TypedDecl where
  declaredType : String := ""
  unit : String := ""
  start : String := ""

/-- An FMI 2 variable as declared. -/
structure ScalarDecl where
  name : String := ""
  vr : Nat := 0
  causality : String := ""
  real : Option TypedDecl := none
  integer : Option TypedDecl := none
  boolean : Option TypedDecl := none
  string : Option TypedDecl := none
  enumeration : Option TypedDecl := none

section Decoders

variable (broken : Fault)

/-- An attribute step that takes nothing. -/
def ignoreAttr {σ : Type} (s : σ) (_ : Attr) : Except Fault σ := .ok s

/-- A child step that takes nothing. -/
def ignoreChild {σ : Type} (_ : σ) (_ : Node) : Option (Except Fault σ) := none

/-- Decodes a `BaseUnit` into a unit. -/
def decodeBaseUnit (u : UnitDecl) (n : Node) : Except Fault UnitDecl :=
  n.decode broken (fun u a =>
    match a.key.name with
    | "factor" => do return { u with factor := some (← attrFloat a.value) }
    | "offset" => do return { u with offset := some (← attrFloat a.value) }
    | _ => pure u) ignoreChild u

/-- Decodes a `Unit`. -/
def decodeUnit (n : Node) : Except Fault UnitDecl :=
  n.decode broken (fun u a => pure (if a.key.name == "name" then { u with name := a.value } else u))
    (fun u k => if k.tag.name == "BaseUnit" then some (decodeBaseUnit broken u k) else none) {}

/-- Decodes `UnitDefinitions`. -/
def decodeUnits (n : Node) : Except Fault (List UnitDecl) :=
  n.decode broken ignoreAttr (fun us k =>
    if k.tag.name == "Unit" then some (do return us ++ [← decodeUnit broken k]) else none) []

/-- Decodes an enumeration `Item`. -/
def decodeItem (n : Node) : Except Fault EnumItem :=
  n.decode broken (fun it a =>
    match a.key.name with
    | "name" => pure { it with name := a.value }
    | "value" => do return { it with value := ← attrSigned a.value 64 }
    | _ => pure it) ignoreChild ⟨"", 0⟩

/-- Decodes an enumeration type into `e`. -/
def decodeEnumType (e : EnumTypeDecl) (n : Node) : Except Fault EnumTypeDecl :=
  n.decode broken (fun e a => pure (if a.key.name == "name" then { e with name := a.value } else e))
    (fun e k => if k.tag.name == "Item" then some (do return { e with items := e.items ++ [← decodeItem broken k] })
      else none) e

/-- Decodes a floating-point type into `t`. -/
def decodeFloatType (t : FloatTypeDecl) (n : Node) : Except Fault FloatTypeDecl :=
  n.decode broken (fun t a =>
    match a.key.name with
    | "name" => pure { t with name := a.value }
    | "unit" => pure { t with unit := a.value }
    | _ => pure t) ignoreChild t

/-- Decodes an FMI 2 `SimpleType`. -/
def decodeSimpleType (n : Node) : Except Fault SimpleTypeDecl :=
  n.decode broken (fun s a => pure (if a.key.name == "name" then { s with name := a.value } else s))
    (fun s k =>
      match k.tag.name with
      | "Real" => some (do return { s with real := some (← decodeFloatType broken (s.real.getD {}) k) })
      | "Enumeration" =>
        some (do return { s with enumeration := some (← decodeEnumType broken (s.enumeration.getD {}) k) })
      | _ => none) {}

/-- Decodes `TypeDefinitions`. -/
def decodeTypes (n : Node) : Except Fault TypeDecls :=
  n.decode broken ignoreAttr (fun t k =>
    match k.tag.name with
    | "SimpleType" => some (do return { t with simple := t.simple ++ [← decodeSimpleType broken k] })
    | "EnumerationType" =>
      some (do return { t with enumerations := t.enumerations ++ [← decodeEnumType broken {} k] })
    | "Float32Type" => some (do return { t with float32 := t.float32 ++ [← decodeFloatType broken {} k] })
    | "Float64Type" => some (do return { t with float64 := t.float64 ++ [← decodeFloatType broken {} k] })
    | _ => none) {}

/-- Decodes `DefaultExperiment` into start time, stop time and step size. -/
def decodeExperiment (n : Node) : Except Fault (Float × Float × Float) :=
  n.decode broken (fun (s : Float × Float × Float) a =>
    match a.key.name with
    | "startTime" => do return (← attrFloat a.value, s.2.1, s.2.2)
    | "stopTime" => do return (s.1, ← attrFloat a.value, s.2.2)
    | "stepSize" => do return (s.1, s.2.1, ← attrFloat a.value)
    | _ => pure s) ignoreChild (0, 0, 0)

/-- Decodes a `Dimension`. -/
def decodeDimension (n : Node) : Except Fault DimensionDecl :=
  n.decode broken (fun d a =>
    match a.key.name with
    | "start" => do return { d with start := some (← attrUnsigned a.value 64) }
    | "valueReference" => do return { d with vr := some (← attrUnsigned a.value 32) }
    | _ => pure d) ignoreChild {}

/-- Decodes a `Start` element into its value. -/
def decodeStart (n : Node) : Except Fault String :=
  n.decode broken (fun s a => pure (if a.key.name == "value" then a.value else s)) ignoreChild ""

/-- Decodes an FMI 3 variable element. -/
def decodeVariable (n : Node) : Except Fault VariableDecl :=
  n.decode broken (fun v a =>
    match a.key.name with
    | "name" => pure { v with name := a.value }
    | "valueReference" => do return { v with vr := ← attrUnsigned a.value 32 }
    | "causality" => pure { v with causality := a.value }
    | "declaredType" => pure { v with declaredType := a.value }
    | "unit" => pure { v with unit := a.value }
    | "start" => pure { v with start := a.value }
    | "clocks" => pure { v with clocks := a.value }
    | _ => pure v)
    (fun v k =>
      match k.tag.name with
      | "Dimension" => some (do return { v with dimensions := v.dimensions ++ [← decodeDimension broken k] })
      | "Start" => some (do return { v with starts := v.starts ++ [← decodeStart broken k] })
      | _ => none) {}

/-- Decodes the typed child of an FMI 2 variable into `t`. -/
def decodeTyped (t : TypedDecl) (n : Node) : Except Fault TypedDecl :=
  n.decode broken (fun t a =>
    match a.key.name with
    | "declaredType" => pure { t with declaredType := a.value }
    | "unit" => pure { t with unit := a.value }
    | "start" => pure { t with start := a.value }
    | _ => pure t) ignoreChild t

/-- Decodes an FMI 2 `ScalarVariable`. -/
def decodeScalar (n : Node) : Except Fault ScalarDecl :=
  n.decode broken (fun v a =>
    match a.key.name with
    | "name" => pure { v with name := a.value }
    | "valueReference" => do return { v with vr := ← attrUnsigned a.value 32 }
    | "causality" => pure { v with causality := a.value }
    | _ => pure v)
    (fun v k =>
      match k.tag.name with
      | "Real" => some (do return { v with real := some (← decodeTyped broken (v.real.getD {}) k) })
      | "Integer" => some (do return { v with integer := some (← decodeTyped broken (v.integer.getD {}) k) })
      | "Boolean" => some (do return { v with boolean := some (← decodeTyped broken (v.boolean.getD {}) k) })
      | "String" => some (do return { v with string := some (← decodeTyped broken (v.string.getD {}) k) })
      | "Enumeration" =>
        some (do return { v with enumeration := some (← decodeTyped broken (v.enumeration.getD {}) k) })
      | _ => none) {}

end Decoders

/-- The kind of an FMI 3 variable element. -/
def elementKind : String → Option Kind
  | "Float32" => some .float32
  | "Float64" => some .float64
  | "Int8" => some .int8
  | "Int16" => some .int16
  | "Int32" => some .int32
  | "Int64" => some .int64
  | "UInt8" => some .uint8
  | "UInt16" => some .uint16
  | "UInt32" => some .uint32
  | "UInt64" => some .uint64
  | "Boolean" => some .bool
  | "String" => some .string
  | "Binary" => some .binary
  | "Enumeration" => some .enum
  | "Clock" => some .clock
  | _ => none

/-- The failure `variable NAME: detail`. -/
def variableFault (name detail : String) : Fault := .text ("variable " ++ name ++ ": " ++ detail)

/-- The variable an FMI 3 declaration of kind `k` declares. -/
def VariableDecl.toVariable (x : VariableDecl) (k : Kind) : Except Fault Variable := do
  let c ← (Causality.parse x.causality).mapError fun f => variableFault x.name f.message
  let start := if x.start == "" && !x.starts.isEmpty then " ".intercalate x.starts else x.start
  let dims ← x.dimensions.zipIdx.mapM fun (d, i) =>
    match d.start, d.vr with
    | some s, none => .ok (Dimension.fixed s)
    | none, some r => .ok (Dimension.parameter r)
    | _, _ => .error (variableFault x.name
        ("dimension " ++ toString i ++ " needs exactly one of start or valueReference"))
  let clocks ← (Text.fields x.clocks).mapM fun f =>
    (Number.readUnsigned f 32).mapError fun e => variableFault x.name ("clocks: " ++ e.message)
  return { name := x.name, vr := x.vr, causality := c, kind := k, declaredType := x.declaredType,
           unit := x.unit, start, dimensions := dims, clocks }

/-- The variable an FMI 2 declaration declares; its kind is that of the first typed child in
the order real, integer, boolean, string, enumeration. -/
def ScalarDecl.toVariable (x : ScalarDecl) : Except Fault Variable := do
  let c ← (Causality.parse x.causality).mapError fun f => variableFault x.name f.message
  let typed : Option (Kind × TypedDecl) :=
    match x.real, x.integer, x.boolean, x.string, x.enumeration with
    | some t, _, _, _, _ => some (.float64, t)
    | none, some t, _, _, _ => some (.int32, t)
    | none, none, some t, _, _ => some (.bool, t)
    | none, none, none, some t, _ => some (.string, t)
    | none, none, none, none, some t => some (.enum, t)
    | none, none, none, none, none => none
  match typed with
  | none => throw (variableFault x.name "no type element")
  | some (k, t) =>
    return { name := x.name, vr := x.vr, causality := c, kind := k, declaredType := t.declaredType,
             unit := t.unit, start := t.start }

namespace ModelDescription

/-- Adds declared units, each checked. -/
def addUnits (md : ModelDescription) (us : List UnitDecl) : Except Fault ModelDescription :=
  us.foldlM (fun md u => do
    let unit : UnitScale := { factor := u.factor.getD 1, offset := u.offset.getD 0 }
    match unit.validate with
    | .error f => throw (Fault.configurationf ("unit " ++ u.name) .invalidConfig f.message)
    | .ok () => return { md with units := upsert u.name unit md.units }) md

/-- Adds type definitions: units of declared types and enumerations. -/
def addTypes (md : ModelDescription) (t : TypeDecls) : ModelDescription :=
  let md := t.simple.foldl (fun md st =>
    let md := match st.real with
      | some r => if r.unit != "" then { md with declaredUnits := upsert st.name r.unit md.declaredUnits } else md
      | none => md
    match st.enumeration with
    | some e => { md with enums := md.enums ++ [⟨st.name, e.items⟩] }
    | none => md) md
  let md := t.enumerations.foldl (fun md e => { md with enums := md.enums ++ [⟨e.name, e.items⟩] }) md
  (t.float32 ++ t.float64).foldl (fun md ft =>
    if ft.unit != "" then { md with declaredUnits := upsert ft.name ft.unit md.declaredUnits } else md) md

/-- Takes the attributes of the root element. -/
def withRoot (md : ModelDescription) (attrs : List Attr) : ModelDescription :=
  attrs.foldl (fun md a =>
    match a.key.name with
    | "fmiVersion" => { md with fmiVersion := a.value }
    | "modelName" => { md with modelName := a.value }
    | "guid" | "instantiationToken" => { md with token := a.value }
    | _ => md) md

end ModelDescription

/-- The fault of a token stream's failure. -/
def endingFault : Ending → Fault
  | .failure e => .text e.message
  | .eof => .text "unexpected EOF"

/-- Reads variable elements up to the end of `ModelVariables`; answers them and the tokens
after its end tag. -/
def readVariables (ending : Ending) : Nat → List Token → List Variable →
    Except Fault (List Variable × List Token)
  | 0, ts, acc => .ok (acc, ts)
  | _ + 1, [], _ => .error (endingFault ending)
  | _ + 1, .stop _ :: rest, acc => .ok (acc, rest)
  | n + 1, .start t as :: rest, acc => do
    let broken := endingFault ending
    if t.name == "ScalarVariable" then
      let (node, rest') := readElement t as rest
      let v ← (← decodeScalar broken node).toVariable
      readVariables ending n rest' (acc ++ [v])
    else
      match elementKind t.name with
      | none => throw (.text ("unsupported variable element <" ++ t.name ++ ">"))
      | some k =>
        let (node, rest') := readElement t as rest
        let v ← (← decodeVariable broken node).toVariable k
        readVariables ending n rest' (acc ++ [v])

/-- Walks the tags of the document; answers the description read so far and whether the root
was seen. -/
def walk (ending : Ending) : Nat → List Token → ModelDescription → Bool →
    Except Fault (ModelDescription × Bool)
  | 0, _, md, seen => .ok (md, seen)
  | _ + 1, [], md, seen =>
    match ending with
    | .eof => .ok (md, seen)
    | .failure e => .error (Fault.context "parse model description" (.text e.message))
  | n + 1, .stop _ :: rest, md, seen => walk ending n rest md seen
  | n + 1, .start t as :: rest, md, seen => do
    let broken := endingFault ending
    match t.name with
    | "fmiModelDescription" => walk ending n rest (md.withRoot as) true
    | "UnitDefinitions" =>
      let (node, rest') := readElement t as rest
      let us ← (decodeUnits broken node).mapError (Fault.context "parse UnitDefinitions")
      walk ending n rest' (← md.addUnits us) seen
    | "TypeDefinitions" =>
      let (node, rest') := readElement t as rest
      let ts ← (decodeTypes broken node).mapError (Fault.context "parse TypeDefinitions")
      walk ending n rest' (md.addTypes ts) seen
    | "DefaultExperiment" =>
      let (node, rest') := readElement t as rest
      let (a, b, c) ← (decodeExperiment broken node).mapError (Fault.context "parse DefaultExperiment")
      walk ending n rest' { md with startTime := a, stopTime := b, stepSize := c } seen
    | "ModelVariables" =>
      let (vs, rest') ← (readVariables ending (rest.length + 1) rest []).mapError
        (Fault.context "parse ModelVariables")
      walk ending n rest' { md with modelVariables := md.modelVariables ++ vs } seen
    | other =>
      if !seen then throw (.text ("unexpected root element <" ++ other ++ ">"))
      let (node, rest') := readElement t as rest
      if !node.closed then throw (Fault.context "parse model description" broken)
      walk ending n rest' md seen

/-- The first name that occurs twice, at its second occurrence. -/
def firstRepeatedName : List String → List String → Option String
  | _, [] => none
  | seen, n :: rest => if seen.contains n then some n else firstRepeatedName (n :: seen) rest

namespace ModelDescription

/-- Reads a model description from its XML text. -/
def ofXml (text : String) : Except Fault ModelDescription := do
  let st := tokenize text
  let (md, seen) ← walk st.ending (st.tokens.length + 1) st.tokens {} false
  if !seen then throw (.text "no fmiModelDescription element")
  if md.fmiVersion == "" then throw (.text "fmiVersion attribute missing")
  match firstRepeatedName [] (md.modelVariables.map (·.name)) with
  | some n => throw (.text ("variable " ++ Text.quote n ++ " declared twice"))
  | none => return md

end ModelDescription

end CoSimBridge.Fmu
