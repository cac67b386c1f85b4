import CoSimBridge.Wire.Reader
import CoSimBridge.Types.Descriptor
import CoSimBridge.Value
/-!
Encoding and decoding values by type tree.

An optional node writes a presence byte and, when present, its value; a list writes its count
and its elements; a bound struct writes its members back to back in declaration order; a leaf
writes its primitive. Each kind takes exactly one dynamic type (`Int64` and enumerations take
64-bit integers, `Binary` byte strings). Decoding reads the same layout back; a struct becomes a
record holding every member, absent optional members as `nil`.
-/

namespace CoSimBridge.Wire

/-- The bytes of a primitive value of kind `k`, when the value has the kind's type. -/
def scalarBytes : Kind → Value → Option Bytes
  | .bool, .bool b => some [if b then 1 else 0]
  | .int8, .int8 x => some (littleEndian 1 (x.toInt % Int.pow 2 8).toNat)
  | .int16, .int16 x => some (littleEndian 2 (x.toInt % Int.pow 2 16).toNat)
  | .int32, .int32 x => some (littleEndian 4 (x.toInt % Int.pow 2 32).toNat)
  | .int64, .int64 x | .enum, .int64 x => some (littleEndian 8 (x.toInt % Int.pow 2 64).toNat)
  | .uint8, .uint8 x => some (littleEndian 1 x.toNat)
  | .uint16, .uint16 x => some (littleEndian 2 x.toNat)
  | .uint32, .uint32 x => some (littleEndian 4 x.toNat)
  | .uint64, .uint64 x => some (littleEndian 8 x.toNat)
  | .float32, .float32 b => some (littleEndian 4 b.toNat)
  | .float64, .float64 b => some (littleEndian 8 b.toNat)
  | .string, .string s => some (littleEndian 4 s.length ++ s)
  | .binary, .bytes s => some (littleEndian 4 s.length ++ s)
  | _, _ => none

/-- Whether a kind is a wire primitive. -/
def isWirePrimitive : Kind → Bool
  | .invalid | .custom | .clock => false
  | _ => true

/-- Encodes one primitive value of kind `k`. -/
def encodeScalar (k : Kind) (v : Value) : Except Fault Bytes :=
  if !isWirePrimitive k then
    .error (Fault.codecf "encode" .valueType ("kind " ++ k.name ++ " is not a wire primitive"))
  else match scalarBytes k v with
    | some bs => .ok bs
    | none => .error (Fault.codecf "encode" .valueType (v.typeName ++ " for " ++ k.name))

mutual

/-- Encodes a value by its type tree. -/
def encode (d : Descriptor) (v : Value) : Except Fault Bytes :=
  match v with
  | .nil =>
    if d.optional then .ok [0]
    else .error (Fault.codecf "encode" .valueType ("nil value for non-optional " ++ d.toToken))
  | _ =>
    let body : Except Fault Bytes := match d with
      | .list _ e =>
        match v with
        | .list items => do
          let parts ← encodeItems e 0 items
          return littleEndian 4 items.length ++ parts
        | _ => .error (Fault.codecf "encode" .valueType (v.typeName ++ " for " ++ d.toToken))
      | .leaf _ .custom n b =>
        match b with
        | .struct (.mk sname members) =>
          match v with
          | .record fields => encodeMembers sname fields members
          | _ => .error (Fault.codecf "encode" .valueType (v.typeName ++ " for struct " ++ n))
        | _ => .error (Fault.codecf "encode" .unresolvedType n)
      | .leaf _ k _ _ => encodeScalar k v
    body.map fun bs => if d.optional then 1 :: bs else bs
termination_by (sizeOf d, 0, 0)

/-- Encodes list elements from index `i` on. -/
def encodeItems (e : Descriptor) (i : Nat) (xs : List Value) : Except Fault Bytes :=
  match xs with
  | [] => .ok []
  | x :: rest =>
    match encode e x with
    | .error f => .error (Fault.context ("element " ++ toString i) f)
    | .ok bs => (encodeItems e (i + 1) rest).map (bs ++ ·)
termination_by (sizeOf e, 1, xs.length)

/-- Encodes the members of struct `sname` from a record, in declaration order. -/
def encodeMembers (sname : String) (fields : List (String × Value))
    (ms : List (String × Descriptor)) : Except Fault Bytes :=
  match ms with
  | [] => .ok []
  | (m, t) :: rest =>
    match Value.field? fields m with
    | none =>
      if t.optional then (encodeMembers sname fields rest).map (0 :: ·)
      else .error (Fault.codecf "encode" .shape
        ("struct " ++ sname ++ ": member " ++ Text.quote m ++ " missing"))
    | some mv =>
      match encode t mv with
      | .error f => .error (.wrap ("struct " ++ sname ++ " member " ++ m ++ ": ") f "")
      | .ok bs => (encodeMembers sname fields rest).map (bs ++ ·)
termination_by (sizeOf ms, 1, 0)

end

/-- Decodes one primitive value of kind `k`. -/
def decodeScalar : Kind → Reading Value
  | .bool => return .bool (← readBool)
  | .int8 => return .int8 (Int8.ofNat (← readUnsigned 1))
  | .int16 => return .int16 (Int16.ofNat (← readUnsigned 2))
  | .int32 => return .int32 (Int32.ofNat (← readUnsigned 4))
  | .int64 | .enum => return .int64 (Int64.ofNat (← readUnsigned 8))
  | .uint8 => return .uint8 (UInt8.ofNat (← readUnsigned 1))
  | .uint16 => return .uint16 (UInt16.ofNat (← readUnsigned 2))
  | .uint32 => return .uint32 (UInt32.ofNat (← readUnsigned 4))
  | .uint64 => return .uint64 (UInt64.ofNat (← readUnsigned 8))
  | .float32 => return .float32 (UInt32.ofNat (← readUnsigned 4))
  | .float64 => return .float64 (UInt64.ofNat (← readUnsigned 8))
  | .string => return .string (← readSized "string")
  | .binary => return .bytes (← readSized "binary")
  | k => throw (Fault.codecf "decode" .valueType ("kind " ++ k.name ++ " is not a wire primitive"))

/-- Runs a reading and wraps its failure in context. -/
def withContext (f : Fault → Fault) (x : Reading α) : Reading α := fun r =>
  match x r with
  | .ok a r' => .ok a r'
  | .error e r' => .error (f e) r'

mutual

/-- Decodes one value of a type tree. -/
def decode (d : Descriptor) : Reading Value := do
  if d.optional then
    let present ← readBool
    if !present then return .nil
  match d with
  | .list _ e => do
    let n ← readUnsigned 4
    let items ← decodeItems e 0 n
    return .list items
  | .leaf _ .custom n b =>
    match b with
    | .struct (.mk sname members) => do
      let fields ← decodeMembers sname members
      return .record fields
    | _ => throw (Fault.codecf "decode" .unresolvedType n)
  | .leaf _ k _ _ => decodeScalar k
termination_by (sizeOf d, 0, 0)

/-- Decodes `n` list elements, numbering them from `i`. -/
def decodeItems (e : Descriptor) (i : Nat) (n : Nat) : Reading (List Value) :=
  match n with
  | 0 => return []
  | k + 1 => do
    let x ← withContext (Fault.context ("element " ++ toString i)) (decode e)
    let rest ← decodeItems e (i + 1) k
    return x :: rest
termination_by (sizeOf e, 1, n)

/-- Decodes the members of struct `sname` in declaration order. -/
def decodeMembers (sname : String) (ms : List (String × Descriptor)) :
    Reading (List (String × Value)) :=
  match ms with
  | [] => return []
  | (m, t) :: rest => do
    let x ← withContext (fun f => .wrap ("struct " ++ sname ++ " member " ++ m ++ ": ") f "")
      (decode t)
    let more ← decodeMembers sname rest
    return (m, x) :: more
termination_by (sizeOf ms, 1, 0)

end

end CoSimBridge.Wire
