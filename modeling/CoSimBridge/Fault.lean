/-!
Failures of the bridge.

A failure is a chain: an innermost cause (a named condition or a plain text), wrapped by
context texts and by classified layers that say which part of the bridge raised it
(configuration, codec, native calls, ordering), in which operation and about which subject.
The message of a chain is read from the outside in; its class is that of the outermost
classified layer, and it matches every named condition inside it.
-/

namespace CoSimBridge

/-- The named conditions a failure can carry. -/
inductive Condition where
  | unresolvedType
  | unknownType
  | malformedName
  | incompleteStruct
  | duplicateName
  | unexpectedMember
  | cyclicType
  | invalidConfig
  | truncated
  | shape
  | subByteAlignment
  | enumRange
  | valueType
  | valueRange
  | nativeCall
  | futureMessage
  | terminated
  | closed
deriving Repr, DecidableEq, Inhabited

/-- The words of a condition. -/
def Condition.text : Condition → String
  | .unresolvedType => "unresolved type name"
  | .unknownType => "unknown type token"
  | .malformedName => "malformed structured name"
  | .incompleteStruct => "incomplete structure"
  | .duplicateName => "duplicate name"
  | .unexpectedMember => "unexpected structure member"
  | .cyclicType => "cyclic type definition"
  | .invalidConfig => "invalid configuration"
  | .truncated => "truncated buffer"
  | .shape => "shape mismatch"
  | .subByteAlignment => "sub-byte width is not supported"
  | .enumRange => "value too large for target enum width"
  | .valueType => "value does not match descriptor"
  | .valueRange => "value out of range for target type"
  | .nativeCall => "native call failed"
  | .futureMessage => "message further in the future than next step"
  | .terminated => "session terminated"
  | .closed => "bus closed"

/-- The conditions in declaration order. -/
def Condition.all : List Condition := (List.range 18).map Condition.ofNat

/-- The name of a condition's sentinel error, as `ErrTruncated`. -/
def Condition.sentinel (c : Condition) : String :=
  "Err" ++ (((repr c).pretty.splitOn ".").getLastD "").capitalize

/-- The part of the bridge a classified failure comes from. Codes other than the four named
classes can occur; code 0 means "no class". -/
inductive FaultClass where
  | configuration
  | codec
  | native
  | ordering
  | other (code : Int)
deriving Repr, DecidableEq, Inhabited

/-- The numeric code of a class. -/
def FaultClass.code : FaultClass → Int
  | .configuration => 1
  | .codec => 2
  | .native => 3
  | .ordering => 4
  | .other c => c

/-- The class with a given code. -/
def FaultClass.ofCode : Int → FaultClass
  | 1 => .configuration
  | 2 => .codec
  | 3 => .native
  | 4 => .ordering
  | c => .other c

/-- The class's name in messages. -/
def FaultClass.name : FaultClass → String
  | .configuration => "configuration"
  | .codec => "codec"
  | .native => "native"
  | .ordering => "ordering"
  | .other _ => "unknown"

/-- A failure. -/
inductive Fault where
  /-- A named condition alone. -/
  | condition (c : Condition)
  /-- A plain text with no identity. -/
  | text (message : String)
  /-- An inner failure with text before and after its message. -/
  | wrap (before : String) (inner : Fault) (after : String)
  /-- An inner failure classified, with the operation and subject it concerns (either may be
  empty). -/
  | classified (cls : FaultClass) (op subject : String) (inner : Fault)
  /-- A run-time panic, such as an integer division by zero: the code crashes instead of
  returning an error, and nothing recovers it. -/
  | panic
deriving Repr, Inhabited

namespace Fault

/-- The message of a failure. -/
def message : Fault → String
  | .condition c => c.text
  | .text m => m
  | .wrap b f a => b ++ f.message ++ a
  | .classified cls op subject f =>
    let head := cls.name ++ " error"
    let place :=
      if op != "" && subject != "" then " in " ++ op ++ " (" ++ subject ++ ")"
      else if op != "" then " in " ++ op
      else if subject != "" then " (" ++ subject ++ ")"
      else ""
    head ++ place ++ ": " ++ f.message
  | .panic => "runtime panic"

/-- The class of the outermost classified layer, if any. -/
def cls? : Fault → Option FaultClass
  | .condition _ | .text _ | .panic => none
  | .wrap _ f _ => f.cls?
  | .classified c _ _ _ => some c

/-- The class code of a failure: that of its outermost classified layer, else 0. -/
def classCode (f : Fault) : Int := (f.cls?.map FaultClass.code).getD 0

/-- The named conditions in the chain, outermost first. -/
def conditions : Fault → List Condition
  | .condition c => [c]
  | .text _ | .panic => []
  | .wrap _ f _ => f.conditions
  | .classified _ _ _ f => f.conditions

/-- Whether the chain carries condition `c`. -/
def has (f : Fault) (c : Condition) : Bool := f.conditions.contains c

/-- Whether the chain ends in a run-time panic. -/
def panicked : Fault → Bool
  | .panic => true
  | .wrap _ f _ | .classified _ _ _ f => f.panicked
  | .condition _ | .text _ => false

/-- How a failure is reported: the name of its class when its code is not 0 and the sentinel of
its first condition in declaration order, as `codec:ErrTruncated`; `error` when it has neither,
and `panic` for a run-time panic. -/
def kind (f : Fault) : String :=
  if f.panicked then "panic" else
  let c := if f.classCode != 0 then f.cls?.map FaultClass.name else none
  match c, (Condition.all.find? f.has).map Condition.sentinel with
  | some c, some s => c ++ ":" ++ s
  | some c, none => c
  | none, some s => s
  | none, none => "error"

/-- Whether the failure must end a session: it is classified (with a nonzero class) or the
session was terminated. -/
def isFatal (f : Fault) : Bool := f.classCode != 0 || f.has .terminated

/-- Context before a failure's message: `context: message`. -/
def context (prefixText : String) (f : Fault) : Fault := .wrap (prefixText ++ ": ") f ""

/-- A configuration failure about `subject`. -/
def configuration (subject : String) (f : Fault) : Fault := .classified .configuration "" subject f

/-- A configuration failure with a condition and a detail: `condition: detail`. -/
def configurationf (subject : String) (c : Condition) (detail : String) : Fault :=
  configuration subject (.wrap "" (.condition c) (": " ++ detail))

/-- A codec failure raised by operation `op`. -/
def codec (op : String) (f : Fault) : Fault := .classified .codec op "" f

/-- A codec failure with a condition and a detail. -/
def codecf (op : String) (c : Condition) (detail : String) : Fault :=
  codec op (.wrap "" (.condition c) (": " ++ detail))

/-- A native call `op` that answered a failing status. -/
def native (op status : String) : Fault :=
  .classified .native op "" (.wrap "" (.condition .nativeCall) (" with status " ++ status))

/-- An ordering failure about `subject`. -/
def ordering (subject : String) (f : Fault) : Fault := .classified .ordering "" subject f

end Fault

end CoSimBridge
