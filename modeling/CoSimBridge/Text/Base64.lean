import CoSimBridge.Text.Utf8
/-!
Base64 text: the standard alphabet `A–Z a–z 0–9 + /`, with `=` padding.

Decoding passes over line breaks (CR and LF) wherever they stand. What remains must be groups of
four characters of the alphabet, of which only the last may end in one or two `=` standing for
the bytes it lacks. The bits a padded group has to spare are not checked.
-/

namespace CoSimBridge.Base64

/-- The value of a character of the alphabet. -/
def digit? (c : Char) : Option Nat :=
  if 'A' ≤ c && c ≤ 'Z' then some (c.toNat - 'A'.toNat)
  else if 'a' ≤ c && c ≤ 'z' then some (c.toNat - 'a'.toNat + 26)
  else if '0' ≤ c && c ≤ '9' then some (c.toNat - '0'.toNat + 52)
  else if c == '+' then some 62
  else if c == '/' then some 63
  else none

/-- The bytes of a run of four-character groups; none if it is not one. -/
def decodeGroups : List Char → Option Bytes
  | [] => some []
  | [a, b, '=', '='] => do
    let v := (← digit? a) * 64 + (← digit? b)
    return [(v / 16).toUInt8]
  | [a, b, c, '='] => do
    let v := ((← digit? a) * 64 + (← digit? b)) * 64 + (← digit? c)
    return [(v / 1024).toUInt8, (v / 4 % 256).toUInt8]
  | a :: b :: c :: d :: rest => do
    let v := (((← digit? a) * 64 + (← digit? b)) * 64 + (← digit? c)) * 64 + (← digit? d)
    return [(v / 65536).toUInt8, (v / 256 % 256).toUInt8, (v % 256).toUInt8] ++ (← decodeGroups rest)
  | _ => none

/-- The bytes a base64 text stands for, line breaks apart; none if it is not base64. -/
def decode? (s : String) : Option Bytes :=
  decodeGroups (s.toList.filter fun c => c != '\n' && c != '\r')

end CoSimBridge.Base64
