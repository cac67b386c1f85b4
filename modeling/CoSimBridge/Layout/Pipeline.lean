import CoSimBridge.Layout.Configure
import CoSimBridge.Fmu.Binding
import CoSimBridge.Wire.Codec
import CoSimBridge.Value.Shape
import CoSimBridge.Value.Cast
/-!
Moving values between the FMU and wire payloads, as a layout says.

Exporting reads a variable's native elements, maps each through the unit and the transformation
into the wire kind (or casts it directly when both are the identity), nests arrays one list
level per dimension and encodes the result with the topic's type. A structure exports as a
record of its slots. Importing decodes a payload, which must be consumed exactly, and writes
every element that is present back through the same maps into the FMU; an absent element keeps
the FMU's current value, and an absent optional structure or member writes nothing. Importing a
topic then ticks its input clocks.

An output topic with clocks is active only while one of its clocks is.
-/

namespace CoSimBridge

namespace Layout

open Fmu

/-- A shape as written in messages: `[2 3]`. -/
def shapeText (shape : List Int) : String := "[" ++ " ".intercalate (shape.map toString) ++ "]"

/-- Raises a failure of a pure step, with context added in front of its message. -/
def liftWith {α : Type} (ctx : String) (r : Except Fault α) : DeviceM α :=
  match r with
  | .ok a => pure a
  | .error f => throw (if ctx == "" then f else Fault.context ctx f)

namespace BoundVariable

/-- The wire value of one native element: through the unit to the bus and then through the
transformation, cast to the wire kind `target`. -/
def toWire (b : BoundVariable) (x : Value) (target : Kind) : Except Fault Value :=
  if b.linear then x.convert target
  else do
    let bits ← x.toDouble
    let t := b.transform.getD {}
    Cast.ofDouble (t.apply (b.unit.toBus (Float.ofBits bits))).toBits target

/-- The native element of one wire value: through the transformation and then from the bus
unit, cast to the native kind. -/
def fromWire (b : BoundVariable) (x : Value) : Except Fault Value :=
  if b.linear then x.convert b.kind
  else do
    let bits ← x.toDouble
    let t := b.transform.getD {}
    Cast.ofDouble (b.unit.fromBus (t.apply (Float.ofBits bits))).toBits b.kind

end BoundVariable

/-- The wire value of a variable: its elements mapped to the wire's leaf kind, nested by its
shape. Nesting by a shape with a dimension before the last that is not positive panics. -/
def exportVariable (b : BoundVariable) : DeviceM Value := do
  let nv ← Device.get [b.fmu.vr] b.kind
  let raw ← liftWith "" nv.unpack
  let n := elementCount b.shape
  if (raw.length : Int) != n then
    throw (Fault.codecf "export" .shape ("variable " ++ b.name ++ ": got " ++ toString raw.length ++
      " elements, shape " ++ shapeText b.shape ++ " needs " ++ toString n))
  let leaf := (b.type.getD (.primitive .invalid)).leafOf.kind
  let wired ← liftWith ("variable " ++ b.name) (raw.mapM fun x => b.toWire x leaf)
  if b.shape.isEmpty then return wired.headD .nil
  -- a dimension before the last that is not positive divides by zero or sizes a level
  -- negatively
  match Value.nest b.shape wired with
  | some v => return v
  | none => throw .panic

/-- The record of a structure's slots. -/
def exportAssembly (l : Layout) : Assembly → DeviceM Value
  | .mk _ _ _ _ slots _ => go slots
where
  go : List (String × Descriptor × Option String × Option Assembly) → DeviceM Value
    | [] => pure (.record [])
    | (m, _, _, some s) :: rest => do
      let v ← exportAssembly l s
      let r ← go rest
      match r with
      | .record fs => pure (.record ((m, v) :: fs))
      | other => pure other
    | (m, _, name, none) :: rest => do
      let v ← match l.findVariable (name.getD "") with
        | some b => exportVariable b
        | none => pure .nil
      let r ← go rest
      match r with
      | .record fs => pure (.record ((m, v) :: fs))
      | other => pure other

/-- Encodes a value with a wire type. -/
def encodeAs (d : Descriptor) (v : Value) : DeviceM Bytes := liftWith "" (Wire.encode d v)

/-- The payload of a structure. -/
def exportStructure (l : Layout) (s : Assembly) : DeviceM Bytes := do
  let rec_ ← tryCatch (exportAssembly l s) fun f => throw (Fault.context ("export " ++ s.name) f)
  encodeAs s.descriptor rec_

/-- The payload of an output topic. -/
def exportTopic (l : Layout) (t : Topic) : DeviceM Bytes := do
  match t.carrier with
  | .assembly root =>
    match l.findStructure root with
    | some s => exportStructure l s
    | none => throw (.text ("no structure " ++ root))
  | .single name =>
    match l.findVariable name with
    | none => throw (.text ("no variable " ++ name))
    | some b =>
      let v ← tryCatch (exportVariable b) fun f => throw (Fault.context ("export " ++ t.name) f)
      encodeAs t.type v

/-- Decodes a payload that must hold exactly one value of type `d`. -/
def decodePayload (d : Descriptor) (payload : Bytes) : Except Fault Value :=
  match Wire.decode d (Wire.Reader.ofBytes payload) with
  | .error f _ => .error f
  | .ok v r =>
    if r.remaining != 0 then
      .error (Fault.codecf "decode" .shape (toString r.remaining ++ " trailing bytes after " ++ d.toToken))
    else .ok v

/-- Writes a wire value into a variable; absent elements keep their current value. -/
def importVariable (l : Layout) (b : BoundVariable) (v : Value) : DeviceM Unit := do
  if v.isNil then return
  let ctx := "variable " ++ b.name
  let flat ← liftWith ctx (Value.flatten b.shape v)
  let mut current : Option NativeValues := none
  let mut out : List Value := []
  for (x, i) in flat.zipIdx do
    if x.isNil then
      let cur ← match current with
        | some c => pure c
        | none => Device.get [b.fmu.vr] b.kind
      current := some cur
      out := out ++ [← liftWith ctx (cur.at? i)]
    else
      out := out ++ [← liftWith ctx (b.fromWire x)]
  let nv ← liftWith ctx (pack b.kind l.enumWidth out)
  Device.set b.fmu.vr nv

/-- Writes the present members of a record into a structure's slots. -/
def importAssembly (l : Layout) : Assembly → List (String × Value) → DeviceM Unit
  | .mk _ _ _ _ slots _, fs => go slots fs
where
  go : List (String × Descriptor × Option String × Option Assembly) → List (String × Value) →
      DeviceM Unit
    | [], _ => pure ()
    | (m, _, name, nested) :: rest, fs => do
      match Value.field? fs m with
      | none | some .nil => pure ()
      | some v =>
        match nested, v with
        | some s, .record inner => importAssembly l s inner
        | some _, _ => pure ()
        | none, _ =>
          match l.findVariable (name.getD "") with
          | some b => importVariable l b v
          | none => pure ()
      go rest fs

/-- Decodes a structure's payload and writes its present members. -/
def importStructure (l : Layout) (s : Assembly) (payload : Bytes) : DeviceM Unit := do
  let ctx := "import " ++ s.name
  let v ← liftWith ctx (decodePayload s.descriptor payload)
  match v with
  | .record fs => tryCatch (importAssembly l s fs) fun f => throw (Fault.context ctx f)
  | _ => pure ()

/-- Activates the input clocks among `clocks`. -/
def tick (l : Layout) (clocks : List String) : DeviceM Unit := do
  for c in clocks do
    match l.findVariable c with
    | none => pure ()
    | some b =>
      if b.direction != .subscribe then continue
      let nv ← liftWith "" (pack .clock l.enumWidth [.bool true])
      Device.set b.fmu.vr nv

/-- Decodes a payload of an input topic, writes it into the FMU and ticks the topic's clocks. -/
def importTopic (l : Layout) (t : Topic) (payload : Bytes) : DeviceM Unit := do
  match t.carrier with
  | .assembly root =>
    match l.findStructure root with
    | some s => importStructure l s payload
    | none => pure ()
  | .single name =>
    let ctx := "import " ++ t.name
    let v ← liftWith ctx (decodePayload t.type payload)
    match l.findVariable name with
    | some b => tryCatch (importVariable l b v) fun f => throw (Fault.context ctx f)
    | none => pure ()
  tick l t.clocks

/-- Whether the clock variable is active: any of its elements set. -/
def clockActive (b : BoundVariable) : DeviceM Bool := do
  let nv ← Device.get [b.fmu.vr] .clock
  let vs ← liftWith "" nv.unpack
  return vs.any fun v => match v with | .bool true => true | _ => false

/-- Whether `clocks` is empty or one of them is active; stops at the first active clock. -/
def anyTicked (l : Layout) (clocks : List String) : DeviceM Bool := do
  if clocks.isEmpty then return true
  for c in clocks do
    match l.findVariable c with
    | none => pure ()
    | some b => if ← clockActive b then return true
  return false

/-- Whether an output topic is to be published now. -/
def active (l : Layout) (t : Topic) : DeviceM Bool := anyTicked l t.clocks

/-- The bytes of a binary variable. -/
def readBinary (b : BoundVariable) : DeviceM Bytes := do
  let nv ← Device.get [b.fmu.vr] .binary
  return nv.data

/-- Makes `bs` the single element of a binary variable. -/
def writeBinary (l : Layout) (b : BoundVariable) (bs : Bytes) : DeviceM Unit := do
  let nv ← liftWith "" (pack .binary l.enumWidth [.bytes bs])
  Device.set b.fmu.vr nv

end Layout

end CoSimBridge
