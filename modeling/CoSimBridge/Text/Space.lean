/-!
White space in the Unicode sense: the ASCII blanks (tab, line feed, vertical tab, form feed,
carriage return, space), U+0085, U+00A0 and the space, line and paragraph separators. Trimming
removes such characters from both ends.
-/

namespace CoSimBridge.Text

/-- Whether a character is white space. -/
def isSpace (c : Char) : Bool :=
  let n := c.toNat
  (0x09 ≤ n && n ≤ 0x0D) || n == 0x20 || n == 0x85 || n == 0xA0 || n == 0x1680 ||
    (0x2000 ≤ n && n ≤ 0x200A) || n == 0x2028 || n == 0x2029 || n == 0x202F || n == 0x205F ||
    n == 0x3000

/-- The characters without the white space at both ends. -/
def trimList (cs : List Char) : List Char :=
  ((cs.dropWhile isSpace).reverse.dropWhile isSpace).reverse

/-- A string without the white space at both ends. -/
def trim (s : String) : String := String.ofList (trimList s.toList)

/-- The fields of a string separated by runs of white space. -/
def fields (s : String) : List String :=
  let step (acc : List String × List Char) (c : Char) :=
    if isSpace c then
      (if acc.2.isEmpty then acc else (String.ofList acc.2.reverse :: acc.1, []))
    else (acc.1, c :: acc.2)
  let (done, cur) := s.toList.foldl step ([], [])
  let done := if cur.isEmpty then done else String.ofList cur.reverse :: done
  done.reverse

end CoSimBridge.Text
