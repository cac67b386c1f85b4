import CoSimBridge.Types.Kind
import CoSimBridge.Fault
import CoSimBridge.Text.Quote
import CoSimBridge.Text.Space
/-!
Type trees and type tokens.

A type token such as `List<Double?>?` describes a tree: list nodes over a leaf that is a
primitive kind or a custom name, each node optional or not. Reading a token is `Descriptor.parse`
and writing the canonical token back is `Descriptor.toToken`. A custom name is bound to a struct
or an enumeration definition by a registry; a bound struct carries its definition, whose
members are type trees again.
-/

namespace CoSimBridge

/-- One literal of an enumeration. -/
structure EnumItem where
  name : String
  value : Int
deriving Repr, DecidableEq, Inhabited

/-- An enumeration: a name and its literals. -/
structure EnumDef where
  name : String
  items : List EnumItem
deriving Repr, DecidableEq, Inhabited

mutual

/-- A type tree. -/
inductive Descriptor where
  /-- A list of elements of one type. -/
  | list (optional : Bool) (elem : Descriptor)
  /-- A leaf: a kind, the custom or enumeration name it was written with, and what the name is
  bound to. -/
  | leaf (optional : Bool) (kind : Kind) (name : String) (binding : Binding)

/-- What a custom name is bound to. -/
inductive Binding where
  | unbound
  | struct (target : StructDef)
  | enum (target : EnumDef)

/-- A struct: a name and its members, encoded back to back in this order. -/
inductive StructDef where
  | mk (name : String) (members : List (String × Descriptor))

end

instance : Inhabited Descriptor := ⟨.leaf false .invalid "" .unbound⟩

namespace StructDef

/-- The struct's name. -/
def name : StructDef → String
  | .mk n _ => n

/-- The struct's members, in order. -/
def members : StructDef → List (String × Descriptor)
  | .mk _ ms => ms

/-- The type of the member called `n`. -/
def member? (s : StructDef) (n : String) : Option Descriptor :=
  (s.members.find? (·.1 == n)).map (·.2)

end StructDef

namespace EnumDef

/-- The value of the literal called `n`. -/
def valueOf? (e : EnumDef) (n : String) : Option Int :=
  (e.items.find? (·.name == n)).map (·.value)

end EnumDef

namespace Descriptor

/-- A non-optional leaf of a primitive kind. -/
def primitive (k : Kind) : Descriptor := .leaf false k "" .unbound

/-- A non-optional list of `elem`. -/
def listOf (elem : Descriptor) : Descriptor := .list false elem

/-- Whether the node is optional. -/
def optional : Descriptor → Bool
  | .list o _ => o
  | .leaf o _ _ _ => o

/-- The node marked optional, or not. -/
def withOptional (o : Bool) : Descriptor → Descriptor
  | .list _ e => .list o e
  | .leaf _ k n b => .leaf o k n b

/-- The node marked optional. -/
def optionalOf (d : Descriptor) : Descriptor := d.withOptional true

/-- Whether the node is a list. -/
def isList : Descriptor → Bool
  | .list _ _ => true
  | .leaf _ _ _ _ => false

/-- The kind of a leaf; lists have none (`Invalid`). -/
def kind : Descriptor → Kind
  | .list _ _ => .invalid
  | .leaf _ k _ _ => k

/-- The name of a leaf. -/
def name : Descriptor → String
  | .list _ _ => ""
  | .leaf _ _ n _ => n

/-- The innermost non-list node. -/
def leafOf : Descriptor → Descriptor
  | .list _ e => e.leafOf
  | d => d

/-- The number of nested list levels. -/
def depth : Descriptor → Nat
  | .list _ e => e.depth + 1
  | .leaf _ _ _ _ => 0

/-- The struct a leaf is bound to, if it is a bound custom leaf. -/
def structDef? : Descriptor → Option StructDef
  | .leaf _ .custom _ (.struct s) => some s
  | _ => none

/-- The enumeration a leaf is bound to. -/
def enumDef? : Descriptor → Option EnumDef
  | .leaf _ _ _ (.enum e) => some e
  | _ => none

/-- Whether the node is a bound struct reference. -/
def isStruct (d : Descriptor) : Bool := d.structDef?.isSome

/-- Whether every custom name in the tree is bound. -/
def isResolved : Descriptor → Bool
  | .list _ e => e.isResolved
  | .leaf _ k _ b => k != .custom || (match b with | .struct _ => true | _ => false)

/-- The canonical token: `List<…>` for lists, the name for custom and named enumeration
leaves, the kind's name otherwise, and `?` after an optional node. -/
def toToken : Descriptor → String
  | .list o e => "List<" ++ e.toToken ++ ">" ++ (if o then "?" else "")
  | .leaf o k n _ =>
    let s := if k == .custom || (k == .enum && n != "") then n else k.name
    s ++ (if o then "?" else "")

instance : ToString Descriptor := ⟨toToken⟩

/-- Whether two trees describe the same type: same optional flags, list spine, kinds and
names; bindings are compared by name only. -/
def same : Descriptor → Descriptor → Bool
  | .list o e, .list o' e' => o == o' && e.same e'
  | .leaf o k n _, .leaf o' k' n' _ => o == o' && k == k' && n == n'
  | _, _ => false

/-! Reading tokens. -/

/-- Whether the characters start with `list<`, ignoring ASCII case. -/
def startsWithList (cs : List Char) : Bool :=
  (cs.take 5).map Char.toLower == "list<".toList

/-- Reads a trimmed token; `fuel` bounds the nesting (the token's length suffices). -/
def parseChars : Nat → List Char → Except String Descriptor
  | 0, _ => .error "empty type token"
  | fuel + 1, tok =>
    if tok.isEmpty then .error "empty type token"
    else
      let (optional, tok) :=
        if tok.getLast? == some '?' then (true, Text.trimList tok.dropLast) else (false, tok)
      if optional && (tok.isEmpty || tok.getLast? == some '?') then .error "misplaced '?'"
      else if tok.length ≥ 5 && startsWithList tok then
        if tok.getLast? != some '>' then
          .error ("unterminated List<...> in " ++ Text.quote (String.ofList tok))
        else
          match parseChars fuel (Text.trimList ((tok.drop 5).dropLast)) with
          | .ok e => .ok (.list optional e)
          | .error m => .error m
      else if tok.any (fun c => c == '<' || c == '>' || c == '?' || c == ',' || c == ' ') then
        .error ("invalid type name " ++ Text.quote (String.ofList tok))
      else
        let s := String.ofList tok
        match Kind.lookupPrimitive s with
        | some k => .ok (.leaf optional k "" .unbound)
        | none => .ok (.leaf optional .custom s .unbound)

/-- Reads a type token. Custom names stay unbound. A token that does not read is an unknown
type token, reported about `type "<token>"`. -/
def parse (token : String) : Except Fault Descriptor :=
  let cs := Text.trimList token.toList
  match parseChars (cs.length + 1) cs with
  | .ok d => .ok d
  | .error m => .error (Fault.configurationf ("type " ++ Text.quote token) .unknownType m)

end Descriptor

end CoSimBridge
