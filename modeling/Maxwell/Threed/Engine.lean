import Maxwell.Threed.Core

/-! The 3D engine: method calls to registers, and method calls that collect the arguments of a macro.

    Each macro slot has two methods. The even one starts an invocation with its argument, the odd one adds
    an argument to it. An invocation runs at the call that is marked as the last of its batch, or before the
    next call that does not belong to it. All invocations run on one interpreter, which a reset leaves alone. -/

namespace Maxwell

namespace Threed

/-- A macro whose arguments are being collected. -/
structure Invocation where
  slot : Mme.Slot
  arguments : Array Word
  deriving DecidableEq, Repr

end Threed

/-- The 3D engine. -/
structure Threed where
  core : Threed.Core
  pending : Option Threed.Invocation := none
  interpreter : Mme.Interpreter

namespace Threed

/-- An engine after power-up, over a host clock. -/
def new (stepLimit : Nat) (readings : Nat → UInt64) : Threed :=
  { core := { timer := { readings } }, interpreter := { stepLimit } }

/-- The number of instructions after which a macro is stopped. -/
def stepLimit (t : Threed) : Nat := t.interpreter.stepLimit

/-- The engine with its registers reset and no invocation pending. The macro store, the timer and the interpreter stay
    as they are. -/
def reset (t : Threed) : Threed :=
  { t with core := { t.core with live := .reset, shadow := .reset }, pending := none }

section
variable {η : Type} [Host η]

/-- Works on the core of an engine. -/
def withCore {α : Type} (act : EStateM Fault (Core × η) α) : EStateM Fault (Threed × η) α :=
  fun (⟨core, pending, interpreter⟩, host) =>
    match act (core, host) with
    | .ok a (core, host) => .ok a (⟨core, pending, interpreter⟩, host)
    | .error fault (core, host) => .error fault (⟨core, pending, interpreter⟩, host)

/-- Runs a macro with its arguments on the interpreter. -/
def invoke (invocation : Invocation) : EStateM Fault (Mme.Interpreter × (Core × η)) Mme.Ending :=
  fun (interpreter, core, host) =>
    Mme.execute (core.store.entry invocation.slot) invocation.arguments.toList (interpreter, (core, host))

/-- Runs the pending invocation, if there is one. It is pending no more, even if it fails. -/
def flush : EStateM Fault (Threed × η) Unit := fun (⟨core, pending, interpreter⟩, host) =>
  match pending with
  | none => .ok () (⟨core, none, interpreter⟩, host)
  | some invocation =>
    match invoke invocation (interpreter, (core, host)) with
    | .ok _ (interpreter, core, host) => .ok () (⟨core, none, interpreter⟩, host)
    | .error fault (interpreter, core, host) => .error fault (⟨core, none, interpreter⟩, host)

/-- Adds an argument to the pending invocation if that is one of `slot`. -/
def append? (t : Threed) (slot : Mme.Slot) (argument : Word) : Option Threed :=
  match t with
  | ⟨core, some ⟨pendingSlot, arguments⟩, interpreter⟩ =>
    if pendingSlot = slot then some ⟨core, some ⟨pendingSlot, arguments.push argument⟩, interpreter⟩ else none
  | ⟨_, none, _⟩ => none

/-- The slot that a macro method belongs to. -/
def slotOf (method : Nat) : Mme.Slot := .ofNat ((method - registerCount) / 2)

/-- Whether a macro method adds to an invocation. The others start one. -/
def isParameter (method : Nat) : Bool := (method - registerCount) % 2 == 1

/-- Takes an argument of a macro. -/
def collect (method : Nat) (argument : Word) : EStateM Fault (Threed × η) Unit := fun (t, host) =>
  match if isParameter method then t.append? (slotOf method) argument else none with
  | some t => .ok () (t, host)
  | none =>
    match flush (t, host) with
    | .ok _ (t, host) => .ok () ({ t with pending := some ⟨slotOf method, #[argument]⟩ }, host)
    | .error fault s => .error fault s

/-- A method call. `last` marks the last call of a batch. -/
def call (method : Nat) (argument : Word) (last : Bool) : EStateM Fault (Threed × η) Unit :=
  if registerCount ≤ method then do
    collect method argument
    if last then flush
  else do
    flush
    withCore (write method argument)

end

end Threed

end Maxwell
