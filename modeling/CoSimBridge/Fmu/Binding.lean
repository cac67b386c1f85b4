import CoSimBridge.Fmu.Loopback
import CoSimBridge.Fault
/-!
Calls into an FMU with its status codes turned into failures.

`OK` and `Pending` succeed; `Warning` and `Discard` are logged and the call counts as
successful; `Error` and `Fatal` become native failures naming the call, and are logged too. A
step answered `Pending` is completed by collecting the FMU's finished result.

Calls run in `DeviceM`: the FMU's state and the log lines written so far, kept even when a call
fails, since the FMU changed before it answered.
-/

namespace CoSimBridge.Fmu

/-- An FMU behind the binding, with the log lines its calls wrote. -/
structure Device where
  fmu : Loopback
  log : Journal := #[]
deriving Inhabited

/-- A call into the FMU: it may change the FMU and write log lines, and may fail. -/
abbrev DeviceM := ExceptT Fault (StateM Device)

namespace Device

/-- Writes log lines. -/
def note (ls : Journal) : DeviceM Unit :=
  modify fun d => { d with log := d.log ++ ls }

/-- Turns the status of call `op` into success or a native failure. -/
def check (op : String) (s : Status) : DeviceM Unit := do
  if s.succeeded then return
  if s.tolerable then
    note #[⟨.warning, "[fmi] " ++ op ++ " returned " ++ s.name⟩]
    return
  let f := Fault.native op s.name
  note #[⟨.error, "[fmi] " ++ f.message⟩]
  throw f

/-- A list of references as written in call names: `[1 4]`. -/
def refList (refs : List Nat) : String := "[" ++ " ".intercalate (refs.map toString) ++ "]"

/-- Reads the references `refs` of kind `k`. -/
def get (refs : List Nat) (k : Kind) : DeviceM NativeValues := do
  let d ← MonadState.get
  let (nv, s, ls) := d.fmu.getValues refs k
  note ls
  check ("get " ++ k.name ++ " " ++ refList refs) s
  return nv

/-- Writes `nv` into the reference `vr`. -/
def set (vr : Nat) (nv : NativeValues) : DeviceM Unit := do
  let d ← MonadState.get
  let (fmu, s) := d.fmu.setValues vr nv.kind nv
  modify fun d => { d with fmu }
  check ("set " ++ nv.kind.name ++ " " ++ toString vr) s

/-- Steps from `t` by `h` and gives the time reached. -/
def doStep (t h : Float) : DeviceM Float := do
  let op := "doStep t=" ++ t.render ++ " h=" ++ h.render
  let d ← MonadState.get
  let (fmu, reached, s) := d.fmu.doStep t h
  modify fun d => { d with fmu }
  check op s
  if s != .pending then return reached
  note #[⟨.debug, "[fmi] " ++ op ++ " pending, waiting for completion"⟩]
  let d ← MonadState.get
  let (fmu, result) := d.fmu.collect
  modify fun d => { d with fmu }
  match result with
  | none => throw (Fault.native (op ++ " (completion still pending)") Status.pending.name)
  | some (t', s') =>
    check op s'
    if s' == .pending then throw (Fault.native (op ++ " (completion still pending)") s'.name)
    return t'

/-- Ends the simulation on the FMU side. -/
def terminate : DeviceM Unit := do
  let d ← MonadState.get
  let (fmu, s) := d.fmu.terminate
  modify fun d => { d with fmu }
  check "terminate" s

end Device

end CoSimBridge.Fmu
