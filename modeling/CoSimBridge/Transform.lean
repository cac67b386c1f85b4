import CoSimBridge.Fault
import CoSimBridge.Number.Text
/-!
Linear transformations between FMU values and bus values.

A transformation maps `v` to `v · factor + offset`; reversed, it uses the inverse map, whose
factor is `1 / factor` and offset `-offset / factor`. A unit conversion maps raw FMU values to
bus values by `(raw - offset) / factor` and back by `v · factor + offset`. All arithmetic is
binary64.
-/

namespace CoSimBridge

/-- A linear transformation of a variable: optional factor and offset, whether the inverse map
is meant, and the transmission type it names. -/
structure Transform where
  factor : Option Float := none
  offset : Option Float := none
  reverse : Bool := false
  transmission : String := ""
deriving Inhabited

namespace Transform

/-- Whether a double is NaN or infinite. -/
def notFinite (x : Float) : Bool := x.isNaN || x.isInf

/-- Checks that the factor is finite and non-zero and the offset finite. -/
def validate (t : Transform) : Except Fault Unit := do
  if let some f := t.factor then
    if notFinite f then throw (.text ("factor must be a finite number, got " ++ f.render))
    if f == 0 then throw (.text "factor must be non-zero")
  if let some o := t.offset then
    if notFinite o then throw (.text ("offset must be a finite number, got " ++ o.render))

/-- The factor and offset of the map the transformation applies; an absent factor is 1 and an
absent offset 0. -/
def effective (t : Transform) : Float × Float :=
  let f := t.factor.getD 1
  let o := t.offset.getD 0
  if t.reverse then (1 / f, -o / f) else (f, o)

/-- Whether the map is the identity. -/
def isIdentity (t : Transform) : Bool :=
  let (f, o) := t.effective
  f == 1 && o == 0

/-- The image of `v`. -/
def apply (t : Transform) (v : Float) : Float :=
  let (f, o) := t.effective
  v * f + o

/-- The preimage of `v`. -/
def invert (t : Transform) (v : Float) : Float :=
  let (f, o) := t.effective
  (v - o) / f

end Transform

/-- A unit of an FMU variable: raw values are `bus · factor + offset`. -/
structure UnitScale where
  factor : Float := 1
  offset : Float := 0
deriving Inhabited

namespace UnitScale

/-- The unit of bus values themselves. -/
def identity : UnitScale := {}

/-- Checks that the factor is finite and non-zero and the offset finite. -/
def validate (u : UnitScale) : Except Fault Unit := do
  if Transform.notFinite u.factor || u.factor == 0 then
    throw (.text ("unit factor must be a finite non-zero number, got " ++ u.factor.render))
  if Transform.notFinite u.offset then
    throw (.text ("unit offset must be a finite number, got " ++ u.offset.render))

/-- Whether the unit is the bus unit. -/
def isIdentity (u : UnitScale) : Bool := u.factor == 1 && u.offset == 0

/-- The bus value of a raw value. -/
def toBus (u : UnitScale) (raw : Float) : Float := (raw - u.offset) / u.factor

/-- The raw value of a bus value. -/
def fromBus (u : UnitScale) (v : Float) : Float := v * u.factor + u.offset

end UnitScale

end CoSimBridge
