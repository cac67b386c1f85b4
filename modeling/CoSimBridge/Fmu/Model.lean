import CoSimBridge.Fmu.Status
import CoSimBridge.Types.Kind
import CoSimBridge.Types.Descriptor
import CoSimBridge.Transform
import CoSimBridge.Number.Read
import CoSimBridge.Text.Space
/-!
Model descriptions: what an FMU declares about itself.

A description names its FMI version, model and instantiation token, the default experiment,
its variables, the units with their conversions, the units of declared types, and the
enumerations. A variable has a name, a value reference, a causality, a kind, an optional
declared type and unit, its start value as text, the dimensions of an array, and the clocks it
is tied to. A dimension is either a fixed size or the value reference of a structural parameter
whose start value gives the size.
-/

namespace CoSimBridge.Fmu

/-- One dimension of an array variable. -/
inductive Dimension where
  | fixed (size : Nat)
  | parameter (vr : Nat)
deriving Repr, DecidableEq, Inhabited

/-- A variable of the model. -/
structure Variable where
  name : String
  vr : Nat
  causality : Causality := .local
  kind : Kind := .invalid
  declaredType : String := ""
  unit : String := ""
  start : String := ""
  dimensions : List Dimension := []
  clocks : List Nat := []
deriving Repr, Inhabited

/-- Whether the variable is an array. -/
def Variable.isArray (v : Variable) : Bool := !v.dimensions.isEmpty

/-- A model description. `units` and `declaredUnits` hold each name once. -/
structure ModelDescription where
  fmiVersion : String := ""
  modelName : String := ""
  token : String := ""
  startTime : Float := 0
  stopTime : Float := 0
  stepSize : Float := 0
  modelVariables : List Variable := []
  units : List (String × UnitScale) := []
  declaredUnits : List (String × String) := []
  enums : List EnumDef := []
deriving Inhabited

/-- Sets the value of a key: in place when the key is there, else at the end. -/
def upsert {β : Type} (k : String) (v : β) (l : List (String × β)) : List (String × β) :=
  if l.any (·.1 == k) then l.map fun e => if e.1 == k then (k, v) else e else l ++ [(k, v)]

/-- An integer reduced into the 64-bit two's complement range: a 64-bit word read as signed. -/
def signed64 (x : Int) : Int := Int.bmod x (Nat.pow 2 64)

/-- The number of elements of an array of the given shape, in 64-bit two's complement
arithmetic; a scalar (empty shape) has one. -/
def elementCount (shape : List Int) : Int := signed64 (shape.foldl (· * ·) 1)

namespace ModelDescription

/-- The variable of a name. -/
def variableNamed? (md : ModelDescription) (name : String) : Option Variable :=
  md.modelVariables.find? (·.name == name)

/-- The first variable with a value reference. -/
def byReference? (md : ModelDescription) (vr : Nat) : Option Variable :=
  md.modelVariables.find? (·.vr == vr)

/-- The major FMI version: 2 for versions starting with "2", else 3. -/
def majorVersion (md : ModelDescription) : Nat :=
  if md.fmiVersion.startsWith "2" then 2 else 3

/-- The width in bytes of enumeration values in the FMU's interface. -/
def enumWidth (md : ModelDescription) : Nat :=
  if md.majorVersion == 2 then 4 else 8

/-- The enumeration of a name. -/
def enum? (md : ModelDescription) (name : String) : Option EnumDef :=
  md.enums.find? (·.name == name)

/-- The unit of a variable: its own, else its declared type's; the bus unit when the
description does not define it. -/
def unitOf (md : ModelDescription) (v : Variable) : UnitScale :=
  let name :=
    if v.unit == "" && v.declaredType != "" then
      ((md.declaredUnits.find? (·.1 == v.declaredType)).map (·.2)).getD ""
    else v.unit
  ((md.units.find? (·.1 == name)).map (·.2)).getD UnitScale.identity

/-- The sizes of an array variable's dimensions; empty for a scalar. A size given by a
structural parameter is that parameter's start value. -/
def shape (md : ModelDescription) (v : Variable) : Except Fault (List Int) :=
  (v.dimensions.zipIdx).mapM fun (d, i) =>
    match d with
    | .fixed n => .ok (signed64 n)
    | .parameter vr =>
      match md.byReference? vr with
      | none => .error (.text ("variable " ++ v.name ++ ": dimension " ++ toString i ++
          " references unknown value reference " ++ toString vr))
      | some p =>
        match Number.readUnsigned (Text.trim p.start) 64 with
        | .ok n => .ok (signed64 n)
        | .error e => .error (.text ("variable " ++ v.name ++ ": dimension " ++ toString i ++
            ": structural parameter " ++ p.name ++ " has no usable start value: " ++ e.message))

end ModelDescription

end CoSimBridge.Fmu
