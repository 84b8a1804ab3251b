import Maxwell.Mme.Alu
import Maxwell.Mme.Store

/-! The macro machine: eight scratch registers, a stream of arguments and a method address, run on a bus
    that holds the code and takes the sends.

    A taken branch and an exit both run the instruction after them, their delay slot. In a delay slot
    neither a branch nor an exit has any effect. A run ends with the delay slot of its first exit, or after
    as many instructions as it was allowed.

    An interpreter has one machine for all its runs, which each run finds as the one before left it. -/

namespace Maxwell.Mme

/-! ### The bus -/

/-- What a machine runs on. Only a send can fail, with a fault of type `ε`. -/
class Bus (ε : outParam Type) (β : Type) where
  /-- The word of code at an offset. -/
  fetch : CodeOffset → β → Word × β
  /-- The value of the register of a method. -/
  read : (method : Nat) → β → Word × β
  /-- Sends a value to a method. -/
  write : (method : Nat) → (value : Word) → EStateM ε β Unit

/-- What a machine asks of its bus. -/
inductive BusEvent where
  | fetch (offset : CodeOffset)
  | read (method : Nat) (value : Word)
  | write (method : Nat) (value : Word)
  deriving DecidableEq, Repr

/-- A bus with a record of what was asked of it, the latest first. A send is recorded before it is made. -/
structure Recorded (β : Type) where
  bus : β
  events : List BusEvent := []

instance {ε β : Type} [Bus ε β] : Bus ε (Recorded β) where
  fetch offset r :=
    let (word, bus) := Bus.fetch offset r.bus
    (word, ⟨bus, .fetch offset :: r.events⟩)
  read method r :=
    let (value, bus) := Bus.read method r.bus
    (value, ⟨bus, .read method value :: r.events⟩)
  write method value := fun ⟨bus, events⟩ =>
    match Bus.write method value bus with
    | .ok _ bus => .ok () ⟨bus, .write method value :: events⟩
    | .error fault bus => .error fault ⟨bus, .write method value :: events⟩

/-! ### The machine -/

/-- Where sends go: a method, and how far it moves after each send. -/
structure MethodAddress where
  method : Fin 0x1000 := 0
  increment : Fin 64 := 0
  deriving DecidableEq, Repr

/-- The address in a word: the method in bits 11:0, the increment in bits 17:12. -/
def MethodAddress.ofWord (w : Word) : MethodAddress :=
  ⟨⟨w.field 0 12, w.field_lt 0 12⟩, ⟨w.field 12 6, w.field_lt 12 6⟩⟩

/-- The address after a send. It wraps. -/
def MethodAddress.next (a : MethodAddress) : MethodAddress :=
  { a with method := Fin.ofNat 0x1000 (a.method + a.increment) }

/-- What the next instruction is. -/
inductive Stage where
  /-- An instruction of its own. -/
  | plain
  /-- The delay slot of a branch to `target`. -/
  | branchSlot (target : CodeOffset)
  /-- The delay slot of an exit. -/
  | exitSlot
  deriving DecidableEq, Repr

structure Machine where
  pc : CodeOffset
  stage : Stage := .plain
  /-- The scratch registers. The first is never read. -/
  scratch : Vector Word 8 := Vector.replicate 8 0
  carry : Bool := false
  address : MethodAddress := {}
  /-- The arguments not fetched yet. -/
  arguments : List Word := []
  deriving DecidableEq, Repr

namespace Machine

/-- The value of a scratch register. Register 0 is always zero. -/
def get (m : Machine) (r : RegisterId) : Word := if r = 0 then 0 else m.scratch[r]

/-- Sets a scratch register. Register 0 stays zero. -/
def set (m : Machine) (r : RegisterId) (value : Word) : Machine :=
  if r = 0 then m else { m with scratch := m.scratch.set r value }

/-- Moves the next argument to a scratch register. Past the last argument there are zeros. -/
def fetchTo (m : Machine) (r : RegisterId) : Machine :=
  { m.set r (m.arguments.headD 0) with arguments := m.arguments.tail }

/-- A machine that never ran. -/
def new : Machine := { pc := .ofNat 0 }

/-- The machine made ready to run the code at `entry`, whatever it ran before. The first argument is in scratch
    register 1. -/
def prepare (m : Machine) (entry : Word) (arguments : List Word) : Machine :=
  { m with
    scratch := .replicate 8 0
    carry := false
    stage := .plain
    address := {}
    pc := .ofNat entry.toNat
    arguments }.fetchTo 1

/-- A new machine about to run the code at `entry`. -/
def start (entry : Word) (arguments : List Word) : Machine := new.prepare entry arguments

/-- Nothing is left of what a machine ran before. -/
theorem prepare_eq_start (m : Machine) (entry : Word) (arguments : List Word) :
    m.prepare entry arguments = start entry arguments := rfl

def setMethod (m : Machine) (value : Word) : Machine := { m with address := .ofWord value }

end Machine

/-- The place `offset` words from `pc`, around the end of code memory if need be. -/
def CodeOffset.jump (pc : CodeOffset) (offset : Int) : CodeOffset :=
  .ofNat (((pc.val : Int) + offset) % codeSize).toNat

/-! ### One instruction -/

section
variable {ε β : Type} [Bus ε β]

/-- Sends `value` to the method address, which then advances. -/
def send (value : Word) : EStateM ε (Machine × β) Unit := fun (m, bus) =>
  match Bus.write m.address.method value bus with
  | .ok _ bus => .ok () ({ m with address := m.address.next }, bus)
  | .error fault bus => .error fault (m, bus)

/-- Does with the computed `value` what `op` says. -/
def ResultOp.perform (op : ResultOp) (target : RegisterId) (value : Word) : EStateM ε (Machine × β) Unit :=
  fun (m, bus) =>
    match op with
    | .ignoreAndFetch => .ok () (m.fetchTo target, bus)
    | .move => .ok () (m.set target value, bus)
    | .moveAndSetMethod => .ok () ((m.set target value).setMethod value, bus)
    | .fetchAndSend => send value (m.fetchTo target, bus)
    | .moveAndSend => send value (m.set target value, bus)
    | .fetchAndSetMethod => .ok () ((m.fetchTo target).setMethod value, bus)
    | .moveAndSetMethodFetchAndSend =>
      let argument := m.arguments.headD 0
      send argument ({ (m.set target value).setMethod value with arguments := m.arguments.tail }, bus)
    | .moveAndSetMethodSend =>
      send (UInt32.ofNat (value.field 12 6)) ((m.set target value).setMethod value, bus)

/-- Does what an operation does besides jumping. -/
def Operation.perform (operation : Operation) : EStateM ε (Machine × β) Unit := fun (m, bus) =>
  match operation with
  | .alu op result target a b =>
    let (value, carry) := op.eval m.carry (m.get a) (m.get b)
    result.perform target value ({ m with carry }, bus)
  | .addImmediate result target a immediate =>
    result.perform target (m.get a + UInt32.ofBitVec (immediate.signExtend 32)) (m, bus)
  | .extractInsert result target a b bits =>
    result.perform target (bits.insert (m.get a) (m.get b)) (m, bus)
  | .extractShiftLeftImmediate result target a b bits =>
    result.perform target (bits.extractFrom (m.get a) (m.get b)) (m, bus)
  | .extractShiftLeftRegister result target a b bits =>
    result.perform target (bits.extractTo (m.get a) (m.get b)) (m, bus)
  | .read result target a immediate =>
    let (value, bus) := Bus.read (m.get a + UInt32.ofBitVec (immediate.signExtend 32)).toNat bus
    result.perform target value (m, bus)
  | .branch .. | .invalid _ => .ok () (m, bus)

/-- Whether a branch on a register of this value is taken. -/
def Condition.holds : Condition → Word → Bool
  | .zero, value => value == 0
  | .notZero, value => value != 0

/-- Where an instruction outside a delay slot leads: the place and the stage of the next one. A branch that
    is taken hides the exit of its own word. -/
def Instruction.next (i : Instruction) (m : Machine) : CodeOffset × Stage :=
  let straight := (m.pc.jump 1, if i.exit then .exitSlot else .plain)
  match i.operation with
  | .branch condition annul source offset =>
    if condition.holds (m.get source) then
      let target := m.pc.jump offset.toInt
      if annul then (target, .plain) else (m.pc.jump 1, .branchSlot target)
    else straight
  | _ => straight

/-- Runs one instruction. Returns whether the run is over. -/
def step : EStateM ε (Machine × β) Bool := fun (m, bus) =>
  let (word, bus) := Bus.fetch m.pc bus
  let i := CodeWord.decode word
  let (next, finished) : (CodeOffset × Stage) × Bool :=
    match m.stage with
    | .plain => (i.next m, false)
    | .branchSlot target => ((target, .plain), false)
    | .exitSlot => ((m.pc.jump 1, .exitSlot), true)
  match i.operation.perform ({ m with pc := next.1, stage := next.2 }, bus) with
  | .ok _ s => .ok finished s
  | .error fault s => .error fault s

/-! ### A run -/

/-- How a run ended. -/
inductive Ending where
  | exited
  | stepLimitReached
  deriving DecidableEq, Repr

/-- Runs at most `limit` instructions. -/
def runFrom : (limit : Nat) → EStateM ε (Machine × β) Ending
  | 0 => fun s => .ok .stepLimitReached s
  | limit + 1 => fun s =>
    match step s with
    | .ok true s => .ok .exited s
    | .ok false s => runFrom limit s
    | .error fault s => .error fault s

end

/-! ### Interpreters -/

/-- An interpreter stops a run after `stepLimit` instructions. Its machine is as the latest run left it. -/
structure Interpreter where
  stepLimit : Nat
  machine : Machine := .new
  deriving DecidableEq, Repr

section
variable {ε β : Type} [Bus ε β]

/-- Runs the code at `entry` with `arguments` on the machine of an interpreter. -/
def execute (entry : Word) (arguments : List Word) : EStateM ε (Interpreter × β) Ending :=
  fun (⟨stepLimit, machine⟩, bus) =>
    match runFrom stepLimit (machine.prepare entry arguments, bus) with
    | .ok ending (machine, bus) => .ok ending (⟨stepLimit, machine⟩, bus)
    | .error fault (machine, bus) => .error fault (⟨stepLimit, machine⟩, bus)

/-- Runs the code at `entry` with `arguments` on a new interpreter. -/
def run (limit : Nat) (entry : Word) (arguments : List Word) : EStateM ε β Ending := fun bus =>
  match execute entry arguments (({ stepLimit := limit } : Interpreter), bus) with
  | .ok ending (_, bus) => .ok ending bus
  | .error fault (_, bus) => .error fault bus

end

end Maxwell.Mme
