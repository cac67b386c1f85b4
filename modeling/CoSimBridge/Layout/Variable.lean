import CoSimBridge.Fmu.Model
import CoSimBridge.Name.Path
import CoSimBridge.Types.Registry
import CoSimBridge.Value.Cast
import CoSimBridge.Transform
/-!
FMU variables bound to the bus.

An output variable is published and an input variable is subscribed; other causalities are not
exchanged. A bound variable carries its structured name, topic, array shape, unit conversion,
optional linear transformation and its wire type. The wire type defaults to the variable's
native kind (an enumeration keeps its declared type), with one list level per array dimension;
a configured type or a transmission type replaces it. Either way the type must have as many
list levels as the variable has dimensions, and its leaf kind must be able to carry the native
values. Units and transformations only apply to numeric and boolean variables. Clocks carry no
data and get no wire type.
-/

namespace CoSimBridge

namespace Layout

/-- Which way a variable's values travel. -/
inductive Direction where
  /-- FMU outputs to the bus. -/
  | publish
  /-- Bus samples into FMU inputs. -/
  | subscribe
deriving Repr, DecidableEq, Inhabited

/-- The direction's name. -/
def Direction.name : Direction → String
  | .publish => "publish"
  | .subscribe => "subscribe"

/-- The direction of a variable's causality, if it is exchanged. -/
def directionOf (v : Fmu.Variable) : Option Direction :=
  match v.causality with
  | .output => some .publish
  | .input => some .subscribe
  | _ => none

/-- How one FMU variable is exchanged, as configured. -/
structure Override where
  name : String
  topic : String := ""
  type : String := ""
  transform : Option Transform := none
  skip : Bool := false
deriving Inhabited

/-- An FMU variable bound to its wire representation. -/
structure BoundVariable where
  /-- The FMU variable. -/
  fmu : Fmu.Variable
  path : Path
  topic : String
  direction : Direction
  /-- The size of every array dimension, outermost first. -/
  shape : List Int
  unit : UnitScale
  /-- The wire type; none for clocks. -/
  type : Option Descriptor
  transform : Option Transform
  enumWidth : Nat
  /-- Whether the wire type was configured rather than derived. -/
  explicit : Bool := false
deriving Inhabited

namespace BoundVariable

/-- The FMU variable's name. -/
def name (b : BoundVariable) : String := b.fmu.name

/-- The native kind. -/
def kind (b : BoundVariable) : Kind := b.fmu.kind

/-- Whether the variable is an FMU clock. -/
def isClock (b : BoundVariable) : Bool := b.fmu.kind == .clock

/-- Whether values cross without unit or transformation arithmetic. -/
def linear (b : BoundVariable) : Bool :=
  b.unit.isIdentity && (b.transform.map Transform.isIdentity).getD true

/-- `variable "<name>"`, the subject of failures about the variable. -/
def subject (b : BoundVariable) : String := "variable " ++ Text.quote b.name

/-- An invalid configuration about this variable. -/
def invalid (b : BoundVariable) (detail : String) : Fault :=
  Fault.configurationf b.subject .invalidConfig detail

/-- Checks that `d` can carry the variable's values: one list level per dimension and a leaf
kind the native kind can travel as. -/
def check (b : BoundVariable) (d : Descriptor) : Except Fault Unit := do
  if d.depth != b.shape.length then
    throw (b.invalid ("type " ++ d.toToken ++ " has " ++ toString d.depth ++
      " list levels, variable has " ++ toString b.shape.length ++ " dimensions"))
  if !Kind.compatible b.kind d.leafOf.kind then
    throw (b.invalid ("native " ++ b.kind.name ++ " cannot travel as " ++ d.toToken))

/-- Makes a declared member type the wire type. A configured type must be the same type. -/
def adopt (b : BoundVariable) (d : Descriptor) : Except Fault BoundVariable := do
  let current := b.type.getD (.primitive .invalid)
  if b.explicit && !current.same d then
    throw (b.invalid ("configured type " ++ current.toToken ++ " conflicts with member type " ++
      d.toToken))
  b.check d
  return { b with type := some d }

end BoundVariable

/-- Replaces the leaf of a tree, keeping the leaf's optional flag. -/
def Descriptor.replaceLeaf (leaf : Descriptor) : Descriptor → Descriptor
  | .list o e => .list o (replaceLeaf leaf e)
  | .leaf o _ _ _ => leaf.withOptional o

/-- The wire type derived from the native kind: an enumeration keeps its declared type, bound to
the registry's or else the model's enumeration of that name; one list level per dimension. -/
def defaultType (md : Fmu.ModelDescription) (reg : Registry) (v : Fmu.Variable) (dims : Nat) :
    Descriptor :=
  let leaf :=
    if v.kind == .enum && v.declaredType != "" then
      let binding := match reg.enum? v.declaredType, md.enum? v.declaredType with
        | some e, _ => Binding.enum e
        | none, some e => Binding.enum e
        | none, none => Binding.unbound
      Descriptor.leaf false .enum v.declaredType binding
    else Descriptor.primitive v.kind
  (List.range dims).foldl (fun d _ => Descriptor.listOf d) leaf

/-- Replaces the leaf kind of the wire type by a transmission type, which must be a primitive or
an enumeration. -/
def withTransmission (reg : Registry) (b : BoundVariable) (token : String) :
    Except Fault BoundVariable := do
  let subject := "variable " ++ Text.quote b.name ++ " transmission type"
  let tt ← Descriptor.parse token
  let tt ← reg.resolve subject tt
  if tt.isList || tt.isStruct then
    throw (Fault.configurationf subject .invalidConfig
      (tt.toToken ++ " is not a primitive or enum type"))
  let current := b.type.getD (.primitive .invalid)
  return { b with type := some (Descriptor.replaceLeaf tt current), explicit := true }

namespace BoundVariable

/-- Sends the variable on a configured topic, if one is given. -/
def withTopic (b : BoundVariable) (topic : String) : BoundVariable :=
  if topic != "" then { b with topic } else b

/-- Gives the variable a configured wire type, if one is given; the type must resolve. -/
def withType (reg : Registry) (b : BoundVariable) (token : String) : Except Fault BoundVariable :=
  if token != "" then do
    let d ← Descriptor.parse token
    let d ← reg.resolve ("variable " ++ Text.quote b.name) d
    pure { b with type := some d, explicit := true }
  else pure b

/-- Gives the variable a linear transformation, if one is given; it must be valid. -/
def withTransform (b : BoundVariable) : Option Transform → Except Fault BoundVariable
  | none => pure b
  | some t =>
    match t.validate with
    | .error e =>
      throw (Fault.configurationf ("variable " ++ Text.quote b.name) .invalidConfig e.message)
    | .ok () => pure { b with transform := some t }

/-- Applies the override of a data variable, if it has one: its topic, its type and its
transformation. -/
def applyOverride (reg : Registry) (b : BoundVariable) :
    Option Override → Except Fault BoundVariable
  | none => pure b
  | some o => do
    let b ← (b.withTopic o.topic).withType reg o.type
    b.withTransform o.transform

/-- Applies the transmission type of the variable's transformation, if it names one. -/
def transmit (reg : Registry) (b : BoundVariable) : Except Fault BoundVariable :=
  match b.transform with
  | some t => if t.transmission != "" then withTransmission reg b t.transmission else pure b
  | none => pure b

/-- Checks the wire type against the variable, and that only numeric and boolean variables have
a unit or a linear transformation. -/
def validate (b : BoundVariable) : Except Fault Unit := do
  b.check (b.type.getD (.primitive .invalid))
  if !b.linear && !b.kind.isNumeric && b.kind != .bool then
    throw (b.invalid ("unit or linear transformation on " ++ b.kind.name ++ " variable"))

end BoundVariable

/-- Binds an exchanged variable in direction `dir`, applying its override if there is one. -/
def bindVariable (md : Fmu.ModelDescription) (reg : Registry) (v : Fmu.Variable) (dir : Direction)
    (o : Option Override) : Except Fault BoundVariable := do
  let subject := "variable " ++ Text.quote v.name
  let path ← Path.parse v.name
  let shape ← (match md.shape v with
    | .ok s => pure s
    | .error e => throw (Fault.configurationf subject .invalidConfig e.message))
  let b : BoundVariable :=
    { fmu := v, path, topic := v.name, direction := dir, shape, unit := md.unitOf v,
      type := none, transform := none, enumWidth := md.enumWidth }
  if v.kind == .clock then return b
  let b := { b with type := some (defaultType md reg v shape.length) }
  let b ← b.applyOverride reg o
  let b ← b.transmit reg
  b.validate
  return b

end Layout

end CoSimBridge
