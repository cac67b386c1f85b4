import CoSimBridge.Value
import CoSimBridge.Types.Kind
import CoSimBridge.Wire.Writer
import CoSimBridge.Wire.Reader
import CoSimBridge.Number.Read
import CoSimBridge.Text.Space
/-!
Native values: the elements of FMU variables in the form the FMU interface exchanges them.

Fixed-width kinds are packed back to back in little-endian byte order: booleans and clocks take
one byte (booleans four when enumerations are four bytes wide, as in FMI 2), enumerations four or
eight bytes, numbers their size. Strings are kept as a list; byte strings are packed back to
back with a list of their sizes. Whether the lists of sizes and strings were ever started is
part of the value.

Start values of variables are read from their text: fields separated by blanks, one per element
(a string kind takes the whole text as one field); a single field fills the whole variable, and
an empty text gives zero elements.
-/

namespace CoSimBridge.Fmu

/-- The elements of a variable of one kind. -/
structure NativeValues where
  kind : Kind
  enumWidth : Int := 8
  data : Bytes := []
  sizes : Option (List Nat) := none
  strings : Option (List Bytes) := none
deriving Repr, Inhabited

namespace NativeValues

/-- The bytes of one element of a fixed-width kind; zero for strings and byte strings. -/
def width (nv : NativeValues) : Nat :=
  match nv.kind with
  | .clock => 1
  | .bool => if nv.enumWidth == 4 then 4 else 1
  | .enum => if nv.enumWidth == 4 then 4 else 8
  | .string | .binary => 0
  | k => k.size

/-- The number of elements. -/
def len (nv : NativeValues) : Nat :=
  match nv.kind with
  | .string => (nv.strings.getD []).length
  | .binary => (nv.sizes.getD []).length
  | _ => if nv.width > 0 then nv.data.length / nv.width else 0

/-- The elements from `a` up to `b`. -/
def slice (nv : NativeValues) (a b : Nat) : NativeValues :=
  let base : NativeValues := { kind := nv.kind, enumWidth := nv.enumWidth }
  match nv.kind with
  | .string => { base with strings := nv.strings.map fun l => (l.take b).drop a }
  | .binary =>
    let sz := nv.sizes.getD []
    let off := ((sz.take a).foldl (· + ·) 0)
    let stop := off + (((sz.take b).drop a).foldl (· + ·) 0)
    { base with data := (nv.data.take stop).drop off, sizes := nv.sizes.map fun l => (l.take b).drop a }
  | _ => { base with data := (nv.data.take (b * nv.width)).drop (a * nv.width) }

/-- Appends the elements of another value of the same kind. -/
def concat (nv other : NativeValues) : NativeValues :=
  let join {α : Type} (x y : Option (List α)) : Option (List α) :=
    match x, y with
    | none, none => none
    | _, _ => some (x.getD [] ++ y.getD [])
  { nv with data := nv.data ++ other.data, sizes := join nv.sizes other.sizes,
            strings := join nv.strings other.strings }

/-- The element at position `i`. -/
def at? (nv : NativeValues) (i : Int) : Except Fault Value :=
  if i < 0 || i ≥ nv.len then
    .error (Fault.codecf "native value" .shape ("index " ++ toString i ++ " out of " ++
      toString nv.len ++ " " ++ nv.kind.name ++ " elements"))
  else
    let i := i.toNat
    match nv.kind with
    | .string => .ok (.string (((nv.strings.getD []).drop i).headD []))
    | .binary => .ok (.bytes (nv.slice i (i + 1)).data)
    | k =>
      let w := nv.width
      let n := Wire.ofLittleEndian ((nv.data.drop (i * w)).take w)
      match k with
      | .bool => .ok (.bool (n != 0))
      | .clock => .ok (.bool (n % 256 != 0))
      | .int8 => .ok (.int8 (Int8.ofInt (Int.bmod n (Nat.pow 2 8))))
      | .uint8 => .ok (.uint8 (UInt8.ofNat n))
      | .int16 => .ok (.int16 (Int16.ofInt (Int.bmod n (Nat.pow 2 16))))
      | .uint16 => .ok (.uint16 (UInt16.ofNat n))
      | .int32 => .ok (.int32 (Int32.ofInt (Int.bmod n (Nat.pow 2 32))))
      | .uint32 => .ok (.uint32 (UInt32.ofNat n))
      | .int64 => .ok (.int64 (Int64.ofInt (Int.bmod n (Nat.pow 2 64))))
      | .uint64 => .ok (.uint64 (UInt64.ofNat n))
      | .float32 => .ok (.float32 (UInt32.ofNat n))
      | .float64 => .ok (.float64 (UInt64.ofNat n))
      | .enum => .ok (.int64 (Int64.ofInt (Int.bmod n (Nat.pow 2 (8 * w)))))
      | _ => .error (Fault.codecf "native value" .valueType ("kind " ++ k.name ++ " has no native form"))

/-- Appends one element, which must have the kind's own type. -/
def push (nv : NativeValues) (v : Value) : Except Fault NativeValues :=
  let mismatch : Except Fault NativeValues :=
    .error (Fault.codecf "native value" .valueType (v.typeName ++ " for native " ++ nv.kind.name))
  let bytes (bs : Bytes) : Except Fault NativeValues := .ok { nv with data := nv.data ++ bs }
  match nv.kind, v with
  | .bool, .bool b | .clock, .bool b => bytes (Wire.littleEndian nv.width (if b then 1 else 0))
  | .int8, .int8 x => bytes (Wire.littleEndian 1 x.toBitVec.toNat)
  | .uint8, .uint8 x => bytes (Wire.littleEndian 1 x.toNat)
  | .int16, .int16 x => bytes (Wire.littleEndian 2 x.toBitVec.toNat)
  | .uint16, .uint16 x => bytes (Wire.littleEndian 2 x.toNat)
  | .int32, .int32 x => bytes (Wire.littleEndian 4 x.toBitVec.toNat)
  | .uint32, .uint32 x => bytes (Wire.littleEndian 4 x.toNat)
  | .int64, .int64 x => bytes (Wire.littleEndian 8 x.toBitVec.toNat)
  | .uint64, .uint64 x => bytes (Wire.littleEndian 8 x.toNat)
  | .float32, .float32 b => bytes (Wire.littleEndian 4 b.toNat)
  | .float64, .float64 b => bytes (Wire.littleEndian 8 b.toNat)
  | .enum, .int64 x =>
    if nv.width == 4 then
      if x.toInt < -Int.pow 2 31 || x.toInt ≥ Int.pow 2 31 then
        .error (Fault.codecf "native value" .enumRange
          (toString x.toInt ++ " does not fit " ++ toString nv.width ++ " bytes"))
      else bytes (Wire.littleEndian 4 (x.toInt % Int.pow 2 32).toNat)
    else bytes (Wire.littleEndian 8 x.toBitVec.toNat)
  | .string, .string s => .ok { nv with strings := some (nv.strings.getD [] ++ [s]) }
  | .binary, .bytes b => .ok { nv with data := nv.data ++ b, sizes := some (nv.sizes.getD [] ++ [b.length]) }
  | _, _ => mismatch

/-- Every element, in order. -/
def unpack (nv : NativeValues) : Except Fault (List Value) :=
  (List.range nv.len).mapM fun (i : Nat) => nv.at? i

end NativeValues

/-- The elements of kind `k`, each of the kind's own type. -/
def pack (k : Kind) (enumWidth : Int) (vs : List Value) : Except Fault NativeValues :=
  vs.zipIdx.foldlM (fun nv (v, i) =>
    (nv.push v).mapError (Fault.context ("element " ++ toString i))) { kind := k, enumWidth }

/-- The zero element of a kind; none for kinds without elements. -/
def zeroOf : Kind → Value
  | .bool | .clock => .bool false
  | .int8 => .int8 0
  | .uint8 => .uint8 0
  | .int16 => .int16 0
  | .uint16 => .uint16 0
  | .int32 => .int32 0
  | .uint32 => .uint32 0
  | .int64 | .enum => .int64 0
  | .uint64 => .uint64 0
  | .float32 => .float32 0
  | .float64 => .float64 0
  | .string => .string []
  | .binary => .bytes []
  | _ => .nil

/-- The value of a hexadecimal digit byte. -/
def hexNibble (b : UInt8) : Option Nat :=
  let c := b.toNat
  if 48 ≤ c && c ≤ 57 then some (c - 48)
  else if 97 ≤ c && c ≤ 102 then some (c - 87)
  else if 65 ≤ c && c ≤ 70 then some (c - 55)
  else none

/-- The failure of a byte that is no hexadecimal digit, naming it as `U+00hh` and, when
printable, the character. -/
def badHexByte (b : UInt8) : String :=
  let c := Char.ofNat b.toNat
  let shown := if Text.isPrintable c then " '" ++ c.toString ++ "'" else ""
  "encoding/hex: invalid byte: U+" ++ (Text.hexFixed b.toNat 4).toUpper ++ shown

/-- Reads pairs of hexadecimal digits. -/
def hexPairs : Bytes → Except String Bytes
  | [] => .ok []
  | [b] => if (hexNibble b).isNone then .error (badHexByte b) else .error "encoding/hex: odd length hex string"
  | p :: q :: rest =>
    match hexNibble p, hexNibble q with
    | none, _ => .error (badHexByte p)
    | _, none => .error (badHexByte q)
    | some a, some b => do return (a * 16 + b).toUInt8 :: (← hexPairs rest)

/-- Reads one start value field as an element of kind `k`. -/
def readField (k : Kind) (s : String) : Except String Value :=
  let num {α : Type} (r : Except Number.ReadError α) : Except String α := r.mapError (·.message)
  match k with
  | .bool | .clock =>
    if s == "true" || s == "1" then .ok (.bool true)
    else if s == "false" || s == "0" then .ok (.bool false)
    else .error "not a boolean"
  | .int8 => do return .int8 (Int8.ofInt (← num (Number.readSigned s 8)))
  | .int16 => do return .int16 (Int16.ofInt (← num (Number.readSigned s 16)))
  | .int32 => do return .int32 (Int32.ofInt (← num (Number.readSigned s 32)))
  | .int64 | .enum => do return .int64 (Int64.ofInt (← num (Number.readSigned s 64)))
  | .uint8 => do return .uint8 (UInt8.ofNat (← num (Number.readUnsigned s 8)))
  | .uint16 => do return .uint16 (UInt16.ofNat (← num (Number.readUnsigned s 16)))
  | .uint32 => do return .uint32 (UInt32.ofNat (← num (Number.readUnsigned s 32)))
  | .uint64 => do return .uint64 (UInt64.ofNat (← num (Number.readUnsigned s 64)))
  | .float32 => do return .float32 (← num (Number.BinaryFormat.binary32.readText s)).toUInt32
  | .float64 => do return .float64 (← num (Number.BinaryFormat.binary64.readText s)).toUInt64
  | .string => .ok (.ofString s)
  | .binary => do return .bytes (← hexPairs (Utf8.encode s))
  | _ => .error ("kind " ++ k.name ++ " has no start value")

/-- Repeats the first element until there are `n`; `fuel` bounds the steps. -/
def NativeValues.fill (nv : NativeValues) (n : Nat) : Nat → Except Fault NativeValues
  | 0 => .ok nv
  | fuel + 1 =>
    if nv.len < n then do
      let v ← nv.at? 0
      (← nv.push v).fill n fuel
    else .ok nv

/-- The elements of a variable of kind `k` with `n` elements and start value text `start`. -/
def parseStart (k : Kind) (enumWidth : Int) (start : String) (n : Int) : Except Fault NativeValues := do
  let empty : NativeValues := { kind := k, enumWidth }
  let fields :=
    if k == .string then (if start != "" || n > 0 then [start] else []) else Text.fields start
  if fields.isEmpty then
    (List.replicate n.toNat (zeroOf k)).foldlM NativeValues.push empty
  else
    let nv ← fields.foldlM (fun nv f => do
      let v ← (readField k f).mapError fun m => Fault.text ("start value " ++ Text.quote f ++ ": " ++ m)
      nv.push v) empty
    if fields.length == 1 then nv.fill n.toNat n.toNat else return nv

end CoSimBridge.Fmu
