/-!
Byte strings and their UTF-8 reading.

Text on the wire and in names is a sequence of bytes that need not be valid UTF-8. `Bytes` is
such a sequence; `Utf8.decode` splits it into characters and the single bytes that start no
valid sequence (overlong forms, surrogates and values past U+10FFFF are invalid), each invalid
byte standing alone.
-/

namespace CoSimBridge

/-- A byte string. -/
abbrev Bytes := List UInt8

namespace Utf8

/-- The UTF-8 bytes of a character. -/
def encodeChar (c : Char) : Bytes :=
  let n := c.toNat
  if n < 0x80 then [n.toUInt8]
  else if n < 0x800 then [(0xC0 + n / 64).toUInt8, (0x80 + n % 64).toUInt8]
  else if n < 0x10000 then
    [(0xE0 + n / 4096).toUInt8, (0x80 + n / 64 % 64).toUInt8, (0x80 + n % 64).toUInt8]
  else
    [(0xF0 + n / 262144).toUInt8, (0x80 + n / 4096 % 64).toUInt8,
      (0x80 + n / 64 % 64).toUInt8, (0x80 + n % 64).toUInt8]

/-- The UTF-8 bytes of a string. -/
def encode (s : String) : Bytes := s.toList.flatMap encodeChar

/-- One step of reading: a character or a byte that starts no valid sequence. -/
inductive Piece where
  | char (c : Char)
  | invalid (b : UInt8)
deriving Repr, DecidableEq

/-- Whether `b` is a continuation byte within `[lo, hi]`. -/
private def within (b : UInt8) (lo hi : Nat) : Bool := lo ≤ b.toNat && b.toNat ≤ hi

/-- The bounds of the second byte after a leading byte, and the sequence length. -/
private def leadShape (b : Nat) : Option (Nat × Nat × Nat) :=
  if 0xC2 ≤ b && b ≤ 0xDF then some (2, 0x80, 0xBF)
  else if b == 0xE0 then some (3, 0xA0, 0xBF)
  else if 0xE1 ≤ b && b ≤ 0xEC then some (3, 0x80, 0xBF)
  else if b == 0xED then some (3, 0x80, 0x9F)
  else if 0xEE ≤ b && b ≤ 0xEF then some (3, 0x80, 0xBF)
  else if b == 0xF0 then some (4, 0x90, 0xBF)
  else if 0xF1 ≤ b && b ≤ 0xF3 then some (4, 0x80, 0xBF)
  else if b == 0xF4 then some (4, 0x80, 0x8F)
  else none

/-- Reads the first piece of a nonempty byte string; returns it and the bytes it took. -/
def step (b : UInt8) (rest : Bytes) : Piece × Nat :=
  let n := b.toNat
  if n < 0x80 then (.char (Char.ofNat n), 1)
  else match leadShape n with
    | none => (.invalid b, 1)
    | some (len, lo, hi) =>
      match len, rest with
      | 2, b1 :: _ =>
        if within b1 lo hi then (.char (Char.ofNat ((n % 32) * 64 + b1.toNat % 64)), 2)
        else (.invalid b, 1)
      | 3, b1 :: b2 :: _ =>
        if within b1 lo hi && within b2 0x80 0xBF then
          (.char (Char.ofNat ((n % 16) * 4096 + (b1.toNat % 64) * 64 + b2.toNat % 64)), 3)
        else (.invalid b, 1)
      | 4, b1 :: b2 :: b3 :: _ =>
        if within b1 lo hi && within b2 0x80 0xBF && within b3 0x80 0xBF then
          (.char (Char.ofNat ((n % 8) * 262144 + (b1.toNat % 64) * 4096 +
            (b2.toNat % 64) * 64 + b3.toNat % 64)), 4)
        else (.invalid b, 1)
      | _, _ => (.invalid b, 1)

/-- Splits a byte string into characters and invalid bytes. -/
def decode : Bytes → List Piece
  | [] => []
  | b :: rest =>
    let (p, n) := step b rest
    p :: decode (rest.drop (n - 1))
termination_by bs => bs.length
decreasing_by simp only [List.length_drop, List.length_cons]; omega

/-- The bytes as a string when they are valid UTF-8. -/
def toString? (bs : Bytes) : Option String :=
  (decode bs).foldr (fun p acc => match p, acc with
    | .char c, some s => some (String.singleton c ++ s)
    | _, _ => none) (some "")

/-- Whether the bytes are valid UTF-8. -/
def isValid (bs : Bytes) : Bool := (toString? bs).isSome

/-- The bytes as a string, each invalid byte read as U+FFFD. -/
def lossy (bs : Bytes) : String :=
  String.ofList ((decode bs).map fun
    | .char c => c
    | .invalid _ => Char.ofNat 0xFFFD)

end Utf8

end CoSimBridge
