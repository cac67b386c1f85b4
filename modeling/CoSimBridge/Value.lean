import CoSimBridge.Text.Utf8
import CoSimBridge.Number.Text
/-!
Dynamic values: what travels through the codec, the casts and the FMU.

A value is absent (`nil`), a boolean, an integer of one of the eight fixed widths, a single or
double (kept as its bit pattern, so that every NaN keeps its payload), a string or a byte
string (both byte sequences), a list of values or a record from member names to values.
-/

namespace CoSimBridge

/-- A dynamic value. -/
inductive Value where
  | nil
  | bool (b : Bool)
  | int8 (x : Int8)
  | int16 (x : Int16)
  | int32 (x : Int32)
  | int64 (x : Int64)
  | uint8 (x : UInt8)
  | uint16 (x : UInt16)
  | uint32 (x : UInt32)
  | uint64 (x : UInt64)
  | float32 (bits : UInt32)
  | float64 (bits : UInt64)
  | string (bytes : Bytes)
  | bytes (b : Bytes)
  | list (items : List Value)
  | record (fields : List (String × Value))
deriving Repr, Inhabited

namespace Value

/-- A string value from text. -/
def ofString (s : String) : Value := .string (Utf8.encode s)

/-- A double value. -/
def ofFloat (x : Float) : Value := .float64 x.toBits

/-- A single value. -/
def ofFloat32 (x : Float32) : Value := .float32 x.toBits

/-- The name of the value's dynamic type, as messages print it. -/
def typeName : Value → String
  | .nil => "<nil>"
  | .bool _ => "bool"
  | .int8 _ => "int8"
  | .int16 _ => "int16"
  | .int32 _ => "int32"
  | .int64 _ => "int64"
  | .uint8 _ => "uint8"
  | .uint16 _ => "uint16"
  | .uint32 _ => "uint32"
  | .uint64 _ => "uint64"
  | .float32 _ => "float32"
  | .float64 _ => "float64"
  | .string _ => "string"
  | .bytes _ => "[]uint8"
  | .list _ => "[]interface {}"
  | .record _ => "wire.Record"

/-- The value of the record field `n`. -/
def field? (fields : List (String × Value)) (n : String) : Option Value :=
  (fields.find? (·.1 == n)).map (·.2)

/-- The integer a value of an integer type holds. -/
def toInt? : Value → Option Int
  | .int8 x => some x.toInt
  | .int16 x => some x.toInt
  | .int32 x => some x.toInt
  | .int64 x => some x.toInt
  | .uint8 x => some x.toNat
  | .uint16 x => some x.toNat
  | .uint32 x => some x.toNat
  | .uint64 x => some x.toNat
  | _ => none

/-- Whether the value is `nil`. -/
def isNil : Value → Bool
  | .nil => true
  | _ => false

end Value

end CoSimBridge
