import CoSimBridge.Fault
import CoSimBridge.Text.Utf8
/-!
The wire writer: primitives in little-endian byte order.

Fixed-width integers and floats take their width in bytes, least significant byte first;
strings and byte strings are a 32-bit length followed by their bytes; a list opens with its
32-bit element count; an optional value opens with a presence byte (1 or 0).
-/

namespace CoSimBridge.Wire

/-- The `width` low bytes of `n`, least significant first. -/
def littleEndian (width n : Nat) : Bytes :=
  (List.range width).map fun i => (n / Nat.pow 256 i % 256).toUInt8

/-- The failure of a width that is not 8, 16, 32 or 64 bits: a width that is not a whole
number of bytes would leave the stream unaligned, any other is unsupported. -/
def widthFault (op : String) (bits : Int) : Fault :=
  if bits.tmod 8 != 0 then
    Fault.codecf op .subByteAlignment (toString bits ++ "-bit value would leave the stream unaligned")
  else Fault.codecf op .shape ("unsupported width of " ++ toString bits ++ " bits")

/-- Whether a width in bits is one the wire supports. -/
def supportedWidth (bits : Int) : Bool := bits == 8 || bits == 16 || bits == 32 || bits == 64

/-- A payload being written, with the number of open list frames. -/
structure Writer where
  bytes : Bytes := []
  depth : Nat := 0
deriving Repr, Inhabited

namespace Writer

/-- Appends bytes. -/
def put (w : Writer) (bs : Bytes) : Writer := { w with bytes := w.bytes ++ bs }

/-- The number of bytes written. -/
def len (w : Writer) : Nat := w.bytes.length

/-- Forgets everything written. -/
def reset (_ : Writer) : Writer := {}

/-- A boolean as one byte, 1 or 0. -/
def writeBool (w : Writer) (b : Bool) : Writer := w.put [if b then 1 else 0]

/-- An unsigned value of `width` bytes. -/
def writeUnsigned (w : Writer) (width n : Nat) : Writer := w.put (littleEndian width n)

/-- A byte string with its 32-bit length. -/
def writeSized (w : Writer) (bs : Bytes) : Writer :=
  (w.writeUnsigned 4 bs.length).put bs

/-- The low bits of `v` in a width given in bits (8, 16, 32 or 64). -/
def writeUint (w : Writer) (bits : Int) (v : Nat) : Except Fault Writer :=
  if supportedWidth bits then .ok (w.writeUnsigned (bits.toNat / 8) v)
  else .error (widthFault "write" bits)

/-- Opens a list frame: the element count, truncated to 32 bits. -/
def beginArray (w : Writer) (count : Int) : Writer :=
  { w.writeUnsigned 4 (count % Int.pow 2 32).toNat with depth := w.depth + 1 }

/-- Closes the innermost list frame; nothing is written. -/
def endArray (w : Writer) : Writer := { w with depth := w.depth - 1 }

/-- The presence byte of an optional value. -/
def writeOptional (w : Writer) (present : Bool) : Writer := w.writeBool present

end Writer

end CoSimBridge.Wire
