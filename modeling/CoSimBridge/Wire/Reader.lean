import CoSimBridge.Wire.Writer
/-!
The wire reader: a cursor over a payload.

Reading past the end fails with a truncated-buffer failure naming what was read, how many bytes
were needed, the offset and what remained, and leaves the cursor where it was; a string or byte
string whose body is cut short also gives back its length field.
-/

namespace CoSimBridge.Wire

/-- The unread bytes of a payload and how many were read before them. -/
structure Reader where
  rest : Bytes
  offset : Nat
deriving Repr, Inhabited

/-- Reading from a cursor: a result or a failure, and the cursor either way. -/
abbrev Reading := EStateM Fault Reader

namespace Reader

/-- A cursor at the start of a payload. -/
def ofBytes (bs : Bytes) : Reader := ⟨bs, 0⟩

/-- The number of unread bytes. -/
def remaining (r : Reader) : Nat := r.rest.length

end Reader

/-- The little-endian value of bytes. -/
def ofLittleEndian (bs : Bytes) : Nat := bs.foldr (fun b acc => b.toNat + 256 * acc) 0

/-- Takes `n` bytes, naming `what` in the failure. -/
def take (n : Nat) (what : String) : Reading Bytes := fun r =>
  if r.rest.length < n then
    .error (Fault.codecf ("read " ++ what) .truncated
      ("need " ++ toString n ++ " bytes at offset " ++ toString r.offset ++ ", " ++
        toString r.rest.length ++ " remaining")) r
  else .ok (r.rest.take n) ⟨r.rest.drop n, r.offset + n⟩

/-- An unsigned value of `width` bytes; the failure names the unsigned type of that width. -/
def readUnsigned (width : Nat) : Reading Nat := do
  let bs ← take width ("uint" ++ toString (8 * width))
  return ofLittleEndian bs

/-- A boolean: any nonzero byte is true. -/
def readBool : Reading Bool := do
  let bs ← take 1 "bool"
  return bs.headD 0 != 0

/-- A 32-bit length and that many bytes; if the body is cut short the cursor goes back to the
length field. -/
def readSized (what : String) : Reading Bytes := fun r =>
  match readUnsigned 4 r with
  | .ok n r' =>
    match take n what r' with
    | .ok bs r'' => .ok bs r''
    | .error f _ => .error f r
  | .error f r' => .error f r'

/-- An unsigned value of a width given in bits (8, 16, 32 or 64). -/
def readUint (bits : Int) : Reading Nat :=
  if supportedWidth bits then readUnsigned (bits.toNat / 8) else throw (widthFault "read" bits)

end CoSimBridge.Wire
