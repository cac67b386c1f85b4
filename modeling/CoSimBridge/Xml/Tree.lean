import CoSimBridge.Xml.Token
/-!
Elements read back from a token stream, and decoding them in document order.

An element read from a stream holds its attributes and the elements inside it; it is marked as
not closed when the stream failed before its end tag. Decoding an element looks at its
attributes first, then at each element inside it, in document order, so that of two faults the
one that comes first in the document is reported; the failure of the stream itself is reported
where the stream was cut short.
-/

namespace CoSimBridge.Xml

/-- An element with the elements inside it. -/
inductive Node where
  | element (tag : QName) (attrs : List Attr) (children : List Node) (closed : Bool)
deriving Repr, Inhabited

namespace Node

/-- The element's tag. -/
def tag : Node → QName
  | .element t _ _ _ => t

/-- Whether the element's end tag was read. -/
def closed : Node → Bool
  | .element _ _ _ c => c

end Node

/-- Reads the elements inside an element whose start tag was read, up to its end tag; answers
them, whether the end tag came, and the tokens after it. -/
def readContent : Nat → List Token → List Node × Bool × List Token
  | 0, ts => ([], false, ts)
  | _ + 1, [] => ([], false, [])
  | _ + 1, .stop _ :: rest => ([], true, rest)
  | n + 1, .start t as :: rest =>
    let (kids, closed, rest') := readContent n rest
    let child := Node.element t as kids closed
    if closed then
      let (sibs, done, rest'') := readContent n rest'
      (child :: sibs, done, rest'')
    else ([child], false, rest')

/-- Reads the element whose start tag (`tag`, `attrs`) was just read. -/
def readElement (tag : QName) (attrs : List Attr) (ts : List Token) : Node × List Token :=
  let (kids, closed, rest) := readContent (ts.length + 1) ts
  (.element tag attrs kids closed, rest)

section Decode

variable {σ ε : Type}

/-- Decodes an element in document order: `onAttr` takes each attribute, then `onChild` each
element inside, answering none for one it does not take, which is skipped. An element cut
short by the stream fails with `broken` where the cut is. -/
def Node.decode (broken : ε) (onAttr : σ → Attr → Except ε σ)
    (onChild : σ → Node → Option (Except ε σ)) (init : σ) : Node → Except ε σ
  | .element _ attrs kids closed => do
    let s ← attrs.foldlM onAttr init
    let s ← kids.foldlM (fun s k =>
      match onChild s k with
      | some r => r
      | none => if k.closed then pure s else throw broken) s
    if closed then pure s else throw broken

end Decode

end CoSimBridge.Xml
