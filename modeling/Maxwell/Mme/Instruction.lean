import Maxwell.Word

/-! Instructions of the macro machine: what a code word says, field by field, and the word that says it.

    | Bits  | Field                                        |
    |-------|----------------------------------------------|
    | 2:0   | opcode                                       |
    | 6:4   | result operation (bit 4: branch condition)   |
    | 5     | branch annul                                 |
    | 7     | exit                                         |
    | 10:8  | target register                              |
    | 13:11 | source register A                            |
    | 16:14 | source register B                            |
    | 31:14 | signed immediate                             |
    | 21:17 | arithmetic operation / bit field source bit  |
    | 26:22 | bit field size                               |
    | 31:27 | bit field target bit                         | -/

namespace Maxwell.Mme

/-- A word of code memory. -/
abbrev CodeWord := Word

/-- The number of a scratch register. -/
abbrev RegisterId := Fin 8

/-- What the arithmetic unit does with two registers. -/
inductive AluOp where
  | add
  | addWithCarry
  | subtract
  | subtractWithBorrow
  | xor
  | or
  | and
  | andNot
  | nand
  deriving DecidableEq, Repr

/-- What becomes of the value an instruction computes: where it goes, and whether an argument is fetched. -/
inductive ResultOp where
  | ignoreAndFetch
  | move
  | moveAndSetMethod
  | fetchAndSend
  | moveAndSend
  | fetchAndSetMethod
  | moveAndSetMethodFetchAndSend
  | moveAndSetMethodSend
  deriving DecidableEq, Repr

/-- Which value of its source register takes a branch. -/
inductive Condition where
  | zero
  | notZero
  deriving DecidableEq, Repr

/-- The bits an extract instruction moves: `size` bits from `sourceBit` on, to `targetBit` on. -/
structure Bitfield where
  sourceBit : Fin 32
  size : Fin 32
  targetBit : Fin 32
  deriving DecidableEq, Repr

/-- What one instruction does. -/
inductive Operation where
  | alu (op : AluOp) (result : ResultOp) (target sourceA sourceB : RegisterId)
  | addImmediate (result : ResultOp) (target source : RegisterId) (immediate : BitVec 18)
  | extractInsert (result : ResultOp) (target sourceA sourceB : RegisterId) (bits : Bitfield)
  | extractShiftLeftImmediate (result : ResultOp) (target sourceA sourceB : RegisterId) (bits : Bitfield)
  | extractShiftLeftRegister (result : ResultOp) (target sourceA sourceB : RegisterId) (bits : Bitfield)
  | read (result : ResultOp) (target source : RegisterId) (immediate : BitVec 18)
  /-- A jump by `offset` words from the branch itself. Unless annulled it runs the next instruction first. -/
  | branch (condition : Condition) (annul : Bool) (source : RegisterId) (offset : BitVec 18)
  /-- A word with no meaning. It does nothing. -/
  | invalid (word : CodeWord)
  deriving DecidableEq, Repr

/-- An instruction: what it does, and whether the run ends after the next one. -/
structure Instruction where
  operation : Operation
  exit : Bool
  deriving DecidableEq, Repr

/-! ### Numbers of the operations -/

def AluOp.ofCode? : Nat → Option AluOp
  | 0 => some .add
  | 1 => some .addWithCarry
  | 2 => some .subtract
  | 3 => some .subtractWithBorrow
  | 8 => some .xor
  | 9 => some .or
  | 10 => some .and
  | 11 => some .andNot
  | 12 => some .nand
  | _ => none

def AluOp.code : AluOp → Nat
  | .add => 0
  | .addWithCarry => 1
  | .subtract => 2
  | .subtractWithBorrow => 3
  | .xor => 8
  | .or => 9
  | .and => 10
  | .andNot => 11
  | .nand => 12

/-- Only the three low bits count. -/
def ResultOp.ofCode (code : Nat) : ResultOp :=
  match code % 8 with
  | 0 => .ignoreAndFetch
  | 1 => .move
  | 2 => .moveAndSetMethod
  | 3 => .fetchAndSend
  | 4 => .moveAndSend
  | 5 => .fetchAndSetMethod
  | 6 => .moveAndSetMethodFetchAndSend
  | _ => .moveAndSetMethodSend

def ResultOp.code : ResultOp → Nat
  | .ignoreAndFetch => 0
  | .move => 1
  | .moveAndSetMethod => 2
  | .fetchAndSend => 3
  | .moveAndSend => 4
  | .fetchAndSetMethod => 5
  | .moveAndSetMethodFetchAndSend => 6
  | .moveAndSetMethodSend => 7

def Condition.code : Condition → Nat
  | .zero => 0
  | .notZero => 1

@[simp] theorem AluOp.ofCode?_code (op : AluOp) : AluOp.ofCode? op.code = some op := by cases op <;> rfl

@[simp] theorem ResultOp.ofCode_code (op : ResultOp) : ResultOp.ofCode op.code = op := by cases op <;> rfl

/-! ### Fields of a code word, whatever its opcode -/

namespace CodeWord

def opcode (w : CodeWord) : Nat := w.field 0 3

def resultOp (w : CodeWord) : ResultOp := .ofCode (w.field 4 3)

def condition (w : CodeWord) : Condition := if w.bit 4 then .notZero else .zero

def annul (w : CodeWord) : Bool := w.bit 5

def exit (w : CodeWord) : Bool := w.bit 7

def target (w : CodeWord) : RegisterId := ⟨w.field 8 3, w.field_lt 8 3⟩

def sourceA (w : CodeWord) : RegisterId := ⟨w.field 11 3, w.field_lt 11 3⟩

def sourceB (w : CodeWord) : RegisterId := ⟨w.field 14 3, w.field_lt 14 3⟩

def immediate (w : CodeWord) : BitVec 18 := .ofNatLT (w.field 14 18) (w.field_lt 14 18)

def aluOp? (w : CodeWord) : Option AluOp := AluOp.ofCode? (w.field 17 5)

def bitfield (w : CodeWord) : Bitfield where
  sourceBit := ⟨w.field 17 5, w.field_lt 17 5⟩
  size := ⟨w.field 22 5, w.field_lt 22 5⟩
  targetBit := ⟨w.field 27 5, w.field_lt 27 5⟩

/-- What the word does. -/
def operation (w : CodeWord) : Operation :=
  match w.opcode with
  | 0 =>
    match w.aluOp? with
    | some op => .alu op w.resultOp w.target w.sourceA w.sourceB
    | none => .invalid w
  | 1 => .addImmediate w.resultOp w.target w.sourceA w.immediate
  | 2 => .extractInsert w.resultOp w.target w.sourceA w.sourceB w.bitfield
  | 3 => .extractShiftLeftImmediate w.resultOp w.target w.sourceA w.sourceB w.bitfield
  | 4 => .extractShiftLeftRegister w.resultOp w.target w.sourceA w.sourceB w.bitfield
  | 5 => .read w.resultOp w.target w.sourceA w.immediate
  | 7 => .branch w.condition w.annul w.sourceA w.immediate
  | _ => .invalid w

/-- The instruction a code word stands for. -/
def decode (w : CodeWord) : Instruction := ⟨w.operation, w.exit⟩

end CodeWord

/-! ### The word of an instruction -/

/-- The fields of an instruction that computes a value. -/
def resultFields (opcode : Nat) (result : ResultOp) (exit : Bool) (target source : RegisterId) :
    List (Nat × Nat) :=
  [(0, opcode), (4, result.code), (7, exit.toNat), (8, target.val), (11, source.val)]

/-- The fields of an instruction that moves bits. -/
def bitfieldFields (sourceB : RegisterId) (bits : Bitfield) : List (Nat × Nat) :=
  [(14, sourceB.val), (17, bits.sourceBit.val), (22, bits.size.val), (27, bits.targetBit.val)]

/-- The word that stands for an instruction, with every unused bit clear. -/
def Instruction.encode : Instruction → CodeWord
  | ⟨.alu op result target sourceA sourceB, exit⟩ =>
    .pack (resultFields 0 result exit target sourceA ++ [(14, sourceB.val), (17, op.code)])
  | ⟨.addImmediate result target source immediate, exit⟩ =>
    .pack (resultFields 1 result exit target source ++ [(14, immediate.toNat)])
  | ⟨.extractInsert result target sourceA sourceB bits, exit⟩ =>
    .pack (resultFields 2 result exit target sourceA ++ bitfieldFields sourceB bits)
  | ⟨.extractShiftLeftImmediate result target sourceA sourceB bits, exit⟩ =>
    .pack (resultFields 3 result exit target sourceA ++ bitfieldFields sourceB bits)
  | ⟨.extractShiftLeftRegister result target sourceA sourceB bits, exit⟩ =>
    .pack (resultFields 4 result exit target sourceA ++ bitfieldFields sourceB bits)
  | ⟨.read result target source immediate, exit⟩ =>
    .pack (resultFields 5 result exit target source ++ [(14, immediate.toNat)])
  | ⟨.branch condition annul source offset, exit⟩ =>
    .pack [(0, 7), (4, condition.code), (5, annul.toNat), (7, exit.toNat), (11, source.val),
      (14, offset.toNat)]
  | ⟨.invalid word, _⟩ => word

end Maxwell.Mme
