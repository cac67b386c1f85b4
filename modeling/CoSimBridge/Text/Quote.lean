import CoSimBridge.Text.Utf8
import CoSimBridge.Text.Printable
/-!
Double-quoted string literals.

A byte string is written between double quotes. A printable character stands for itself, the
quote and the backslash are preceded by a backslash, the usual control characters take their
one-letter escapes (`\n`, `\t`, …), other characters below U+0080 and every byte that starts no
valid UTF-8 sequence are written `\xhh`, and other characters `\uhhhh` or `\Uhhhhhhhh`, all in
lowercase hexadecimal.
-/

namespace CoSimBridge.Text

/-- The lowercase hexadecimal digit of `n < 16`. -/
def hexDigit (n : Nat) : Char :=
  if n < 10 then Char.ofNat ('0'.toNat + n) else Char.ofNat ('a'.toNat + n - 10)

/-- `n` in lowercase hexadecimal with exactly `width` digits (the low ones). -/
def hexFixed (n width : Nat) : String :=
  String.ofList ((List.range width).reverse.map fun i => hexDigit (n / Nat.pow 16 i % 16))

/-- A byte string as lowercase hexadecimal text, two digits a byte. -/
def hexString (bs : Bytes) : String := String.join (bs.map fun b => hexFixed b.toNat 2)

/-- The escape of one character inside a quoted literal. -/
def escapeChar (c : Char) : String :=
  if c == '"' || c == '\\' then "\\" ++ c.toString
  else if isPrintable c then c.toString
  else match c with
    | '\x07' => "\\a" | '\x08' => "\\b" | '\x0c' => "\\f" | '\n' => "\\n"
    | '\r' => "\\r" | '\t' => "\\t" | '\x0b' => "\\v"
    | _ =>
      if c.toNat < 0x20 || c.toNat == 0x7F then "\\x" ++ hexFixed c.toNat 2
      else if c.toNat < 0x10000 then "\\u" ++ hexFixed c.toNat 4
      else "\\U" ++ hexFixed c.toNat 8

/-- The escape of one piece of a byte string. -/
def escapePiece : Utf8.Piece → String
  | .char c => escapeChar c
  | .invalid b => "\\x" ++ hexFixed b.toNat 2

/-- A byte string as a quoted literal. -/
def quoteBytes (bs : Bytes) : String :=
  "\"" ++ String.join ((Utf8.decode bs).map escapePiece) ++ "\""

/-- A string as a quoted literal. -/
def quote (s : String) : String :=
  "\"" ++ String.join (s.toList.map escapeChar) ++ "\""

end CoSimBridge.Text
