import CoSimBridge.Value
import CoSimBridge.Fault
/-!
Array values: an FMU array variable holds its elements flat, in row-major order, while its wire
value has one list level per dimension. `nest` builds the levels and `flatten` takes them
apart again, checking every level against its dimension.
-/

namespace CoSimBridge

namespace Value

/-- `n` consecutive pieces of `size` elements from the front of `xs`. -/
def chunks {α : Type} (size : Nat) : Nat → List α → List (List α)
  | 0, _ => []
  | n + 1, xs => xs.take size :: chunks size n (xs.drop size)

/-- The nested value of a row-major list: the last dimension keeps the whole list it is given,
every other dimension splits its list into as many equal pieces. None when the shape is empty
or a dimension before the last is not positive. -/
def nest : List Int → List Value → Option Value
  | [], _ => none
  | [_], flat => some (.list flat)
  | d :: rest@(_ :: _), flat =>
    if d ≤ 0 then none
    else
      let n := d.toNat
      ((chunks (flat.length / n) n flat).mapM (nest rest)).map .list

/-- The row-major elements of a nested value; each level must be a list as long as its
dimension. -/
def flatten : List Int → Value → Except Fault (List Value)
  | [], v => .ok [v]
  | d :: rest, .list items =>
    if (items.length : Int) != d then
      .error (Fault.codecf "import" .shape
        ("list of " ++ toString items.length ++ " elements for dimension of " ++ toString d))
    else do
      let parts ← items.mapM (flatten rest)
      return parts.flatten
  | _ :: _, v => .error (Fault.codecf "import" .valueType (v.typeName ++ " where a list was expected"))

end Value

end CoSimBridge
