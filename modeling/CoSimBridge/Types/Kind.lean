import CoSimBridge.Text.Case
/-!
Kinds: the primitive leaves of a type tree.

Every leaf of a wire type is one of the integer kinds, the two float kinds, `Bool`, `String`,
`Binary`, an enumeration or a custom (struct or enum) name; `Clock` only describes FMU
variables. Type tokens name the primitive kinds by aliases, in any case.
-/

namespace CoSimBridge

/-- The primitive kind of a leaf. -/
inductive Kind where
  | invalid
  | bool
  | int8
  | int16
  | int32
  | int64
  | uint8
  | uint16
  | uint32
  | uint64
  | float32
  | float64
  | string
  | binary
  | enum
  | custom
  | clock
deriving Repr, DecidableEq, Inhabited

namespace Kind

/-- Every kind, in code order. -/
def all : List Kind :=
  [.invalid, .bool, .int8, .int16, .int32, .int64, .uint8, .uint16, .uint32, .uint64, .float32,
   .float64, .string, .binary, .enum, .custom, .clock]

/-- The kind's name. -/
def name : Kind → String
  | .invalid => "Invalid"
  | .bool => "Bool"
  | .int8 => "Int8"
  | .int16 => "Int16"
  | .int32 => "Int32"
  | .int64 => "Int64"
  | .uint8 => "UInt8"
  | .uint16 => "UInt16"
  | .uint32 => "UInt32"
  | .uint64 => "UInt64"
  | .float32 => "Float32"
  | .float64 => "Float64"
  | .string => "String"
  | .binary => "Binary"
  | .enum => "Enum"
  | .custom => "Custom"
  | .clock => "Clock"

instance : ToString Kind := ⟨Kind.name⟩

/-- The kind whose name is `s`, if any. -/
def ofName? (s : String) : Option Kind := all.find? (·.name == s)

/-- The fixed wire width in bytes, 0 for variable-width and composite kinds. Enumerations
travel as 64-bit signed integers. -/
def size : Kind → Nat
  | .bool | .int8 | .uint8 => 1
  | .int16 | .uint16 => 2
  | .int32 | .uint32 | .float32 => 4
  | .int64 | .uint64 | .float64 | .enum => 8
  | _ => 0

/-- A signed integer kind. -/
def isSigned : Kind → Bool
  | .int8 | .int16 | .int32 | .int64 => true
  | _ => false

/-- An unsigned integer kind. -/
def isUnsigned : Kind → Bool
  | .uint8 | .uint16 | .uint32 | .uint64 => true
  | _ => false

/-- An integer kind. -/
def isInteger (k : Kind) : Bool := k.isSigned || k.isUnsigned

/-- A float kind. -/
def isFloat : Kind → Bool
  | .float32 | .float64 => true
  | _ => false

/-- An integer, float or enumeration kind. -/
def isNumeric (k : Kind) : Bool := k.isInteger || k.isFloat || k == .enum

/-- Bits of an integer kind (enumerations: 64). -/
def bits (k : Kind) : Nat := 8 * k.size

/-- The aliases of the primitive kinds, lower case. -/
def aliases : List (String × Kind) :=
  [("bool", .bool), ("boolean", .bool), ("int8", .int8), ("sbyte", .int8), ("int16", .int16),
   ("short", .int16), ("int", .int32), ("integer", .int32), ("int32", .int32),
   ("int64", .int64), ("long", .int64), ("uint8", .uint8), ("byte", .uint8),
   ("uint16", .uint16), ("ushort", .uint16), ("uint", .uint32), ("uint32", .uint32),
   ("uint64", .uint64), ("ulong", .uint64), ("float", .float32), ("single", .float32),
   ("float32", .float32), ("double", .float64), ("float64", .float64), ("real", .float64),
   ("string", .string), ("binary", .binary), ("bytes", .binary)]

/-- The primitive kind an alias names, ignoring case. -/
def lookupPrimitive (token : String) : Option Kind :=
  (aliases.find? (·.1 == Text.lower token)).map (·.2)

end Kind

end CoSimBridge
