import CoSimBridge.Fmu.Model
import CoSimBridge.Fmu.Native
import CoSimBridge.Fmu.Status
import CoSimBridge.Log
/-!
The in-memory FMU.

It keeps the native value of every value reference, starting from the start values of the model
description (the first variable of a reference decides). A step copies every link's source
value into its target and then resets every input clock; it can also complete later, in which
case the step answers `Pending` and its result waits to be collected. Reads and writes name a
reference and a kind, which must be the variable's own kind; a write of a fixed-width kind must
keep the number of elements. After termination every call fails.
-/

namespace CoSimBridge.Fmu

/-- The in-memory FMU's state. -/
structure Loopback where
  model : ModelDescription
  /-- Source and target references copied after every step. -/
  links : List (Nat × Nat) := []
  /-- Whether steps complete later. -/
  async : Bool := false
  /-- The value of every reference, in model order. -/
  values : List (Nat × NativeValues) := []
  steps : Nat := 0
  terminated : Bool := false
  /-- The time and status of a finished asynchronous step not yet collected. -/
  finished : Option (Float × Status) := none
deriving Inhabited

namespace Loopback

/-- Resolves links given by variable names, source first. -/
def linksByName (md : ModelDescription) (pairs : List (String × String)) :
    Except Fault (List (Nat × Nat)) :=
  pairs.mapM fun (src, dst) =>
    match md.variableNamed? src, md.variableNamed? dst with
    | none, _ => .error (.text ("link source " ++ Text.quote src ++ " is not a variable"))
    | _, none => .error (.text ("link target " ++ Text.quote dst ++ " is not a variable"))
    | some f, some t => .ok (f.vr, t.vr)

/-- The stored value of a reference; an empty value of the reference's kind if there is none. -/
def valueOf (fmu : Loopback) (vr : Nat) : NativeValues :=
  (fmu.values.lookup vr).getD { kind := .invalid, enumWidth := 0 }

/-- Replaces the stored value of a reference. -/
def store (fmu : Loopback) (vr : Nat) (nv : NativeValues) : Loopback :=
  { fmu with values := fmu.values.map fun (r, x) => if r == vr then (r, nv) else (r, x) }

/-- Adds the start value of every variable of `vs` whose reference has none in `values` yet, so
that the first variable of a reference decides. -/
def startValues (md : ModelDescription) :
    List (Nat × NativeValues) → List Variable → Except Fault (List (Nat × NativeValues))
  | values, [] => .ok values
  | values, v :: vs =>
    if (values.lookup v.vr).isSome then startValues md values vs
    else do
      let shape ← md.shape v
      let nv ← (parseStart v.kind md.enumWidth v.start (elementCount shape)).mapError
        (Fault.context ("variable " ++ v.name))
      startValues md (values ++ [(v.vr, nv)]) vs

/-- Checks that a link, source first, joins two variables of one kind. -/
def checkLink (md : ModelDescription) : Nat × Nat → Except Fault Unit
  | (src, dst) =>
    match md.byReference? src, md.byReference? dst with
    | some f, some t =>
      if f.kind != t.kind then
        .error (.text ("link " ++ f.name ++ "->" ++ t.name ++ " joins " ++ f.kind.name ++ " and " ++
          t.kind.name))
      else .ok ()
    | _, _ =>
      .error (.text ("link " ++ toString src ++ "->" ++ toString dst ++
        " references an unknown variable"))

/-- Builds the FMU: every reference starts at its start value, and every link must join two
variables of one kind. -/
def new (md : ModelDescription) (links : List (Nat × Nat)) (async : Bool) : Except Fault Loopback := do
  let values ← startValues md [] md.modelVariables
  links.forM (checkLink md)
  return { model := md, links, async, values }

/-- Reads the references `refs`, all of kind `k`, one after the other. A reference that is
unknown or of another kind fails the call, with a debug line. -/
def getValues (fmu : Loopback) (refs : List Nat) (k : Kind) : NativeValues × Status × Journal :=
  if fmu.terminated then ({ kind := .invalid, enumWidth := 0 }, .error, #[])
  else
    let md := fmu.model
    let rec go : List Nat → NativeValues → NativeValues × Status × Journal
      | [], acc => (acc, .ok, #[])
      | r :: rest, acc =>
        match md.byReference? r with
        | some v =>
          if v.kind == k then go rest (acc.concat (fmu.valueOf r))
          else ({ kind := .invalid, enumWidth := 0 }, .error,
            #[⟨.debug, "[loopback] get " ++ k.name ++ ": bad reference " ++ toString r⟩])
        | none => ({ kind := .invalid, enumWidth := 0 }, .error,
            #[⟨.debug, "[loopback] get " ++ k.name ++ ": bad reference " ++ toString r⟩])
    go refs { kind := k, enumWidth := md.enumWidth }

/-- Writes every element of `nv` into the reference `vr` of kind `k`. -/
def setValues (fmu : Loopback) (vr : Nat) (k : Kind) (nv : NativeValues) : Loopback × Status :=
  if fmu.terminated then (fmu, .error)
  else
    match fmu.model.byReference? vr with
    | none => (fmu, .error)
    | some v =>
      if v.kind != k || nv.kind != k then (fmu, .error)
      else if k != .binary && k != .string && nv.len != (fmu.valueOf vr).len then (fmu, .error)
      else (fmu.store vr (NativeValues.concat { kind := k, enumWidth := fmu.model.enumWidth } nv), .ok)

/-- Copies the value of every link's source into its target, one link after the other. -/
def copyLinks (fmu : Loopback) : Loopback :=
  fmu.links.foldl (fun f (src, dst) => f.store dst (f.valueOf src)) fmu

/-- Resets every input clock, keeping its number of elements. -/
def resetClocks (fmu : Loopback) : Loopback :=
  fmu.model.modelVariables.foldl (fun f v =>
    if v.kind == .clock && v.causality == .input then
      f.store v.vr { kind := .clock, enumWidth := 0, data := List.replicate (f.valueOf v.vr).len 0 }
    else f) fmu

/-- Steps from `t` by `h`: copies the links, resets the input clocks and counts the step. The
reached time is `t + h`; a later completing FMU answers `Pending` at `t` and keeps the result. -/
def doStep (fmu : Loopback) (t h : Float) : Loopback × Float × Status :=
  if fmu.terminated then (fmu, t, .error)
  else
    let fmu := fmu.copyLinks.resetClocks
    let fmu := { fmu with steps := fmu.steps + 1 }
    let reached := t + h
    if fmu.async then ({ fmu with finished := some (reached, .ok) }, t, .pending)
    else (fmu, reached, .ok)

/-- Takes the result of the finished asynchronous step. -/
def collect (fmu : Loopback) : Loopback × Option (Float × Status) :=
  ({ fmu with finished := none }, fmu.finished)

/-- Ends the simulation; a second termination fails. -/
def terminate (fmu : Loopback) : Loopback × Status :=
  if fmu.terminated then (fmu, .error) else ({ fmu with terminated := true }, .ok)

end Loopback

end CoSimBridge.Fmu
