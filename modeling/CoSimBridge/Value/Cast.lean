import CoSimBridge.Value
import CoSimBridge.Number.Convert
import CoSimBridge.Types.Kind
import CoSimBridge.Fault
/-!
Casts between the values of FMU variables and the values of wire leaves.

Integers convert exactly: a cast succeeds iff the integer lies in the range of the target kind.
Floats convert to integer kinds by rounding halves away from zero and then range-checking;
NaN and the infinities fit no integer kind. Floats convert to floats by rounding to nearest.
Strings and byte strings only go to their own kind.
-/

namespace CoSimBridge

namespace Kind

/-- The integers an integer kind (or an enumeration, held as a 64-bit signed integer) holds,
as inclusive bounds. -/
def intRange? : Kind → Option (Int × Int)
  | .int8 => some (-Int.pow 2 7, Int.pow 2 7 - 1)
  | .int16 => some (-Int.pow 2 15, Int.pow 2 15 - 1)
  | .int32 => some (-Int.pow 2 31, Int.pow 2 31 - 1)
  | .int64 | .enum => some (-Int.pow 2 63, Int.pow 2 63 - 1)
  | .uint8 => some (0, Int.pow 2 8 - 1)
  | .uint16 => some (0, Int.pow 2 16 - 1)
  | .uint32 => some (0, Int.pow 2 32 - 1)
  | .uint64 => some (0, Int.pow 2 64 - 1)
  | _ => none

/-- Whether an FMU variable of kind `native` can be carried by a wire leaf of kind `wire`:
strings and byte strings only pair with themselves, clocks pair with nothing, no variable
maps onto a custom leaf, and all numeric and boolean kinds pair freely. -/
def compatible (native wire : Kind) : Bool :=
  if native == .string || wire == .string then native == wire
  else if native == .binary || wire == .binary then native == wire
  else !(native == .clock || wire == .clock || wire == .custom)

end Kind

namespace Cast

open Number

/-- The failure of a value that does not fit its target kind; `shown` is the value's text. -/
def outOfRange (shown : String) (target : Kind) : Fault :=
  Fault.codecf "cast" .valueRange (shown ++ " does not fit " ++ target.name)

/-- The value of kind `to` that holds the integer `i`. Booleans hold whether `i` is non-zero,
floats the nearest value. -/
def ofInteger (i : Int) (target : Kind) : Except Fault Value :=
  match target with
  | .bool | .clock => .ok (.bool (i != 0))
  | .float32 => .ok (.float32 (BinaryFormat.binary32.ofInt i).toUInt32)
  | .float64 => .ok (.float64 (BinaryFormat.binary64.ofInt i).toUInt64)
  | _ =>
    match target.intRange? with
    | some (lo, hi) =>
      if i < lo || i > hi then .error (outOfRange (toString i) target)
      else .ok (match target with
        | .int8 => .int8 (Int8.ofInt i)
        | .int16 => .int16 (Int16.ofInt i)
        | .int32 => .int32 (Int32.ofInt i)
        | .uint8 => .uint8 (UInt8.ofNat i.toNat)
        | .uint16 => .uint16 (UInt16.ofNat i.toNat)
        | .uint32 => .uint32 (UInt32.ofNat i.toNat)
        | .uint64 => .uint64 (UInt64.ofNat i.toNat)
        | _ => .int64 (Int64.ofInt i))
    | none =>
      if i < Int.pow 2 63 then
        .error (Fault.codecf "cast" .valueType ("cannot cast an integer to " ++ target.name))
      else .error (outOfRange (toString i) target)

/-- The value of kind `to` for the double with bits `bits`. -/
def ofDouble (bits : UInt64) (target : Kind) : Except Fault Value :=
  let d := BinaryFormat.binary64.decode bits.toNat
  match target with
  | .float64 => .ok (.float64 bits)
  | .float32 =>
    .ok (.float32 (BinaryFormat.convert .binary64 .binary32 bits.toNat).toUInt32)
  | .bool | .clock => .ok (.bool !d.isZero)
  | _ =>
    let fault := outOfRange (renderBits64 bits) target
    match d.roundHalfAway with
    | none => .error fault
    | some r =>
      if target == .uint64 then
        if r < 0 || r ≥ Int.pow 2 64 then .error fault else .ok (.uint64 (UInt64.ofNat r.toNat))
      else if r < -Int.pow 2 63 || r ≥ Int.pow 2 63 then .error fault
      else ofInteger r target

end Cast

namespace Value

open Number

/-- The value as the variable or leaf kind `to` needs it. -/
def convert (v : Value) (target : Kind) : Except Fault Value :=
  let mismatch : Except Fault Value :=
    .error (Fault.codecf "cast" .valueType ("cannot cast " ++ v.typeName ++ " to " ++ target.name))
  match v with
  | .bool b => if target == .bool || target == .clock then .ok v else Cast.ofInteger (if b then 1 else 0) target
  | .float32 b =>
    if target == .float32 then .ok v
    else Cast.ofDouble (BinaryFormat.convert .binary32 .binary64 b.toNat).toUInt64 target
  | .float64 b => Cast.ofDouble b target
  | .string _ => if target == .string then .ok v else mismatch
  | .bytes _ => if target == .binary then .ok v else mismatch
  | _ => match v.toInt? with
    | some i => Cast.ofInteger i target
    | none => mismatch

/-- The bits of the double a numeric or boolean value stands for. -/
def toDouble (v : Value) : Except Fault UInt64 :=
  match v with
  | .bool b => .ok (BinaryFormat.binary64.ofInt (if b then 1 else 0)).toUInt64
  | .float32 b => .ok (BinaryFormat.convert .binary32 .binary64 b.toNat).toUInt64
  | .float64 b => .ok b
  | _ => match v.toInt? with
    | some i => .ok (BinaryFormat.binary64.ofInt i).toUInt64
    | none => .error (Fault.codecf "cast" .valueType (v.typeName ++ " is not numeric"))

end Value

end CoSimBridge
