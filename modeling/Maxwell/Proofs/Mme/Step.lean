import Maxwell.Mme.Machine

/-! One instruction as a change of the machine around at most three requests to the bus: the fetch of its
    word, the read of a register, and a send. What the machine becomes and what it asks for depend only on
    the words it is given, so facts about runs are facts about the functions defined here. -/

namespace Maxwell.Mme

/-! ### Result operations -/

/-- The machine after a result operation. If the operation sends, the address is where the value goes. -/
def ResultOp.settle (op : ResultOp) (target : RegisterId) (value : Word) (m : Machine) : Machine :=
  match op with
  | .ignoreAndFetch | .fetchAndSend => m.fetchTo target
  | .move | .moveAndSend => m.set target value
  | .moveAndSetMethod | .moveAndSetMethodSend => (m.set target value).setMethod value
  | .fetchAndSetMethod => (m.fetchTo target).setMethod value
  | .moveAndSetMethodFetchAndSend => { (m.set target value).setMethod value with arguments := m.arguments.tail }

/-- The value a result operation sends, if it sends one. -/
def ResultOp.sent? (op : ResultOp) (value : Word) (m : Machine) : Option Word :=
  match op with
  | .fetchAndSend | .moveAndSend => some value
  | .moveAndSetMethodFetchAndSend => some (m.arguments.headD 0)
  | .moveAndSetMethodSend => some (UInt32.ofNat (value.field 12 6))
  | .ignoreAndFetch | .move | .moveAndSetMethod | .fetchAndSetMethod => none

theorem ResultOp.settle_flow (op : ResultOp) (target : RegisterId) (value : Word) (m : Machine) :
    (op.settle target value m).pc = m.pc ∧ (op.settle target value m).stage = m.stage := by
  unfold ResultOp.settle Machine.fetchTo Machine.setMethod Machine.set
  cases op <;> by_cases ht : target = 0 <;> simp [ht]

/-! ### Operations -/

/-- What an operation hands to its result operation, and the carry after it. -/
structure Computed where
  op : ResultOp
  target : RegisterId
  value : Word
  carry : Bool

namespace Computed

def settle (c : Computed) (m : Machine) : Machine := c.op.settle c.target c.value { m with carry := c.carry }

def sent? (c : Computed) (m : Machine) : Option Word := c.op.sent? c.value m

end Computed

def Operation.consults? (operation : Operation) (m : Machine) : Option Nat :=
  match operation with
  | .read _ _ a immediate => some (m.get a + UInt32.ofBitVec (immediate.signExtend 32)).toNat
  | _ => none

/-- What an operation computes, given the value of the register that it reads. -/
def Operation.computes? (operation : Operation) (m : Machine) (answer : Word) : Option Computed :=
  match operation with
  | .alu op result target a b =>
    let (value, carry) := op.eval m.carry (m.get a) (m.get b)
    some ⟨result, target, value, carry⟩
  | .addImmediate result target a immediate =>
    some ⟨result, target, m.get a + UInt32.ofBitVec (immediate.signExtend 32), m.carry⟩
  | .extractInsert result target a b bits => some ⟨result, target, bits.insert (m.get a) (m.get b), m.carry⟩
  | .extractShiftLeftImmediate result target a b bits =>
    some ⟨result, target, bits.extractFrom (m.get a) (m.get b), m.carry⟩
  | .extractShiftLeftRegister result target a b bits =>
    some ⟨result, target, bits.extractTo (m.get a) (m.get b), m.carry⟩
  | .read result target _ _ => some ⟨result, target, answer, m.carry⟩
  | .branch .. | .invalid _ => none

/-! ### Where the machine goes -/

/-- The machine moved past instruction `i`, to the place and the stage of the next one. -/
def Machine.advance (m : Machine) (i : Instruction) : Machine :=
  match m.stage with
  | .plain => { m with pc := (i.next m).1, stage := (i.next m).2 }
  | .branchSlot target => { m with pc := target, stage := .plain }
  | .exitSlot => { m with pc := m.pc.jump 1, stage := .exitSlot }

/-- Whether the run is over after the next instruction. -/
def Machine.finishes (m : Machine) : Bool :=
  match m.stage with
  | .exitSlot => true
  | .plain | .branchSlot _ => false

/-! ### The requests -/

section
variable {ε β : Type} [Bus ε β]

/-- The answer to the read of an operation, zero if it reads nothing. -/
def Operation.consult (operation : Operation) (m : Machine) (bus : β) : Word × β :=
  match operation.consults? m with
  | some method => Bus.read method bus
  | none => (0, bus)

def deliver (sent? : Option Word) : EStateM ε (Machine × β) Unit :=
  match sent? with
  | some value => send value
  | none => pure ()

theorem ResultOp.perform_eq (op : ResultOp) (target : RegisterId) (value : Word) (m : Machine) (bus : β) :
    op.perform target value (m, bus) = deliver (op.sent? value m) (op.settle target value m, bus) := by
  cases op <;> rfl

theorem Operation.perform_eq (operation : Operation) (m : Machine) (bus : β) :
    operation.perform (m, bus) =
      match operation.computes? m (operation.consult m bus).1 with
      | some c => deliver (c.sent? m) (c.settle m, (operation.consult m bus).2)
      | none => .ok () (m, (operation.consult m bus).2) := by
  cases operation <;> simp only [Operation.perform, ResultOp.perform_eq] <;> rfl

/-- One instruction: its word is fetched, the machine moves on, and the operation is performed. -/
theorem step_eq (m : Machine) (bus : β) :
    step (m, bus) =
      match (CodeWord.decode (Bus.fetch m.pc bus).1).operation.perform
          (m.advance (CodeWord.decode (Bus.fetch m.pc bus).1), (Bus.fetch m.pc bus).2) with
      | .ok _ s => .ok m.finishes s
      | .error fault s => .error fault s := by
  obtain ⟨pc, stage, scratch, carry, address, arguments⟩ := m
  cases stage <;> rfl

theorem deliver_flow {sent? : Option Word} {m m' : Machine} {bus bus' : β}
    (h : deliver sent? (m, bus) = .ok () (m', bus')) : m'.pc = m.pc ∧ m'.stage = m.stage := by
  cases sent? with
  | none =>
    cases h
    exact ⟨rfl, rfl⟩
  | some value =>
    simp only [deliver, send] at h
    split at h <;> cases h
    exact ⟨rfl, rfl⟩

theorem Operation.perform_flow {operation : Operation} {m m' : Machine} {bus bus' : β}
    (h : operation.perform (m, bus) = .ok () (m', bus')) : m'.pc = m.pc ∧ m'.stage = m.stage := by
  rw [Operation.perform_eq] at h
  split at h
  · rename_i c hc
    obtain ⟨hpc, hstage⟩ := deliver_flow h
    obtain ⟨hpc', hstage'⟩ := ResultOp.settle_flow c.op c.target c.value { m with carry := c.carry }
    exact ⟨hpc.trans hpc', hstage.trans hstage'⟩
  · cases h
    exact ⟨rfl, rfl⟩

/-- Where an instruction that does not fail leaves the machine, and whether the run is over. -/
theorem step_flow {m m' : Machine} {bus bus' : β} {finished : Bool}
    (h : step (m, bus) = .ok finished (m', bus')) :
    m'.pc = (m.advance (CodeWord.decode (Bus.fetch m.pc bus).1)).pc ∧
      m'.stage = (m.advance (CodeWord.decode (Bus.fetch m.pc bus).1)).stage ∧ finished = m.finishes := by
  rw [step_eq] at h
  split at h
  · rename_i s hs
    cases h
    obtain ⟨hpc, hstage⟩ := Operation.perform_flow hs
    exact ⟨hpc, hstage, rfl⟩
  · cases h

theorem runFrom_succ (limit : Nat) (s : Machine × β) :
    runFrom (limit + 1) s = match step s with
      | .ok true t => .ok .exited t
      | .ok false t => runFrom limit t
      | .error fault t => .error fault t := rfl

end

end Maxwell.Mme
