import CoSimBridge.Wire.Reader
/-!
CAN operation records, as a CAN-capable FMU exchanges them through its binary variables.

Every record starts with a 32-bit opcode and the 32-bit length of the whole record:

* transmit: `[0x10][16+N][id u32][IDE u8][RTR u8][N u16][N data bytes]`
* confirm: `[0x20][12][id u32]`

A binary variable holds any number of records back to back; a record with another opcode is
skipped by its length.
-/

namespace CoSimBridge.Can

/-- One CAN frame. -/
structure Frame where
  id : UInt32
  extended : Bool := false
  remote : Bool := false
  data : Bytes := []
deriving Repr, DecidableEq, Inhabited

/-- The transmit opcode. -/
def opTransmit : UInt32 := 0x10

/-- The confirm opcode. -/
def opConfirm : UInt32 := 0x20

/-- A natural in lowercase hexadecimal with a `0x` mark. -/
def hexMarked (n : Nat) : String :=
  "0x" ++ String.ofList ((Nat.toDigits 16 n).map fun c => if c.isUpper then c.toLower else c)

/-- The frame as text: `can[id=0x1f ide=false rtr=false len=3]`. -/
def Frame.toText (f : Frame) : String :=
  "can[id=" ++ hexMarked f.id.toNat ++ " ide=" ++ toString f.extended ++ " rtr=" ++
    toString f.remote ++ " len=" ++ toString f.data.length ++ "]"

/-- An operation: transmitting a frame, confirming the transmission of a frame id, or an
operation with another opcode, which has no record. -/
inductive Operation where
  | transmit (f : Frame)
  | confirm (id : UInt32)
  | other (opcode id : UInt32)
deriving Repr, DecidableEq, Inhabited

namespace Operation

/-- The opcode. -/
def opcode : Operation → UInt32
  | .transmit _ => opTransmit
  | .confirm _ => opConfirm
  | .other c _ => c

/-- The frame id the operation concerns. -/
def id : Operation → UInt32
  | .transmit f => f.id
  | .confirm i => i
  | .other _ i => i

/-- The key that identifies an operation for last-is-best buffering. -/
def key (op : Operation) : UInt32 × UInt32 := (op.opcode, op.id)

end Operation

/-- The record of one operation. A frame of more than 65535 bytes has no record, nor has an
unknown opcode. -/
def encodeOne : Operation → Except Fault Bytes
  | .transmit f =>
    let n := f.data.length
    if n > 0xFFFF then
      .error (Fault.codecf "encode can" .shape
        ("frame " ++ hexMarked f.id.toNat ++ " carries " ++ toString n ++ " bytes"))
    else .ok (Wire.littleEndian 4 0x10 ++ Wire.littleEndian 4 (16 + n) ++
      Wire.littleEndian 4 f.id.toNat ++ [if f.extended then 1 else 0, if f.remote then 1 else 0] ++
      Wire.littleEndian 2 n ++ f.data)
  | .confirm i => .ok (Wire.littleEndian 4 0x20 ++ Wire.littleEndian 4 12 ++ Wire.littleEndian 4 i.toNat)
  | .other c _ => .error (Fault.codecf "encode can" .valueType ("unknown opcode " ++ hexMarked c.toNat))

/-- The records of operations, back to back. -/
def encode (ops : List Operation) : Except Fault Bytes := do
  let parts ← ops.mapM encodeOne
  return parts.flatten

/-- Reads the body of a transmit record of the given length, after its header. -/
def readTransmit (length : Nat) : Wire.Reading Frame := do
  if length < 16 then
    throw (Fault.codecf "decode can" .shape
      ("transmit record length " ++ toString length ++ " below header size"))
  let id ← Wire.readUnsigned 4
  let ide ← Wire.readBool
  let rtr ← Wire.readBool
  let n ← Wire.readUnsigned 2
  if n + 16 != length then
    throw (Fault.codecf "decode can" .shape
      ("data length " ++ toString n ++ " does not match record length " ++ toString length))
  let data ← Wire.take n "uint8"
  return { id := UInt32.ofNat id, extended := ide, remote := rtr, data }

/-- Reads one record; unknown opcodes give no operation. Each record takes at least its 8
header bytes. -/
def readRecord : Wire.Reading (Option Operation) := fun r => (do
  let start := (← get).offset
  let opcode ← Wire.readUnsigned 4
  let length ← Wire.readUnsigned 4
  let avail := (← get).remaining
  if length < 8 || length - 8 > avail then
    throw (Fault.codecf "decode can" .truncated
      ("record at offset " ++ toString start ++ " claims " ++ toString length ++ " bytes, " ++
        toString (avail + 8) ++ " available"))
  if opcode == 0x10 then
    let f ← fun s => match readTransmit length s with
      | .ok f s' => .ok f s'
      | .error e s' => .error (Fault.context ("record at offset " ++ toString start) e) s'
    return some (.transmit f)
  else if opcode == 0x20 then
    if length != 12 then
      throw (Fault.codecf "decode can" .shape
        ("confirm record at offset " ++ toString start ++ " has length " ++ toString length))
    let i ← Wire.readUnsigned 4
    return some (.confirm (UInt32.ofNat i))
  else
    let _ ← Wire.take (length - 8) "uint8"
    return none : Wire.Reading (Option Operation)) r

/-- Reads records until the payload ends; `fuel` bounds the number of records. -/
def readRecords : Nat → Wire.Reading (List Operation)
  | 0 => return []
  | fuel + 1 => do
    if (← get).remaining == 0 then return []
    let op ← readRecord
    let rest ← readRecords fuel
    return op.toList ++ rest

/-- Decodes every record of a payload. -/
def decode (bs : Bytes) : Except Fault (List Operation) :=
  match readRecords (bs.length / 8 + 1) (Wire.Reader.ofBytes bs) with
  | .ok ops _ => .ok ops
  | .error f _ => .error f

/-- A frame as a single transmit record. -/
def Frame.marshal (f : Frame) : Except Fault Bytes := encode [.transmit f]

/-- The frame of a payload that holds exactly one transmit record. -/
def Frame.unmarshal (bs : Bytes) : Except Fault Frame := do
  let ops ← decode bs
  match ops with
  | [.transmit f] => return f
  | _ => throw (Fault.codecf "decode can" .shape
      ("expected one transmit record, got " ++ toString ops.length ++ " records"))

end CoSimBridge.Can
