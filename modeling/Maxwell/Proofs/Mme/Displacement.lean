import Maxwell.Proofs.Mme.Effect
import Maxwell.Proofs.Mme.Flow

/-! Code in another place. A machine knows places only by their distance around code memory, so code that is moved as a
    whole, and entered at the place that moved with it, does what it did before. The machines of the two runs may also
    differ in the zeros after their last arguments. -/

namespace Maxwell.Mme

/-! ### Places -/

theorem CodeOffset.jump_add (pc d : CodeOffset) (distance : Int) : (pc + d).jump distance = pc.jump distance + d := by
  have hmoved := coe_jump (pc + d) distance
  have hplace := coe_jump pc distance
  apply Fin.ext
  rw [Fin.val_add] at hmoved ⊢
  simp only [codeSize] at hmoved hplace ⊢
  omega

def Stage.moved (d : CodeOffset) : Stage → Stage
  | .plain => .plain
  | .branchSlot target => .branchSlot (target + d)
  | .exitSlot => .exitSlot

def BusEvent.moved (d : CodeOffset) : BusEvent → BusEvent
  | .fetch offset => .fetch (offset + d)
  | .read method value => .read method value
  | .write method value => .write method value

/-! ### Machines -/

/-- Arguments that give the same values, with zeros after the last of them. -/
def SameStream (arguments arguments' : List Word) : Prop := ∀ i, arguments'.getD i 0 = arguments.getD i 0

namespace SameStream
variable {arguments arguments' : List Word}

theorem headD (h : SameStream arguments arguments') : arguments'.headD 0 = arguments.headD 0 := by
  cases arguments <;> cases arguments' <;> exact h 0

theorem tail (h : SameStream arguments arguments') : SameStream arguments.tail arguments'.tail := by
  intro i
  simpa using h (i + 1)

end SameStream

/-- A machine and one at the place `d` words further on that is otherwise in the same state. -/
structure Counterpart (d : CodeOffset) (m m' : Machine) : Prop where
  pc : m'.pc = m.pc + d
  stage : m'.stage = m.stage.moved d
  scratch : m'.scratch = m.scratch
  carry : m'.carry = m.carry
  address : m'.address = m.address
  arguments : SameStream m.arguments m'.arguments

namespace Counterpart
variable {d : CodeOffset} {m m' : Machine} (h : Counterpart d m m')
include h

theorem get (r : RegisterId) : m'.get r = m.get r := by
  rw [Machine.get, Machine.get, h.scratch]

theorem set (r : RegisterId) (value : Word) : Counterpart d (m.set r value) (m'.set r value) := by
  unfold Machine.set
  split
  · exact h
  · exact { h with scratch := congrArg (fun scratch => scratch.set r value) h.scratch }

theorem setMethod (value : Word) : Counterpart d (m.setMethod value) (m'.setMethod value) := { h with address := rfl }

theorem withCarry (carry : Bool) : Counterpart d { m with carry } { m' with carry } := { h with carry := rfl }

theorem fetchTo (r : RegisterId) : Counterpart d (m.fetchTo r) (m'.fetchTo r) := by
  have hset := h.set r (m.arguments.headD 0)
  unfold Machine.fetchTo
  rw [h.arguments.headD]
  exact { hset with arguments := h.arguments.tail }

theorem settle (op : ResultOp) (target : RegisterId) (value : Word) :
    Counterpart d (op.settle target value m) (op.settle target value m') := by
  cases op with
  | ignoreAndFetch => exact h.fetchTo target
  | fetchAndSend => exact h.fetchTo target
  | move => exact h.set target value
  | moveAndSend => exact h.set target value
  | moveAndSetMethod => exact (h.set target value).setMethod value
  | moveAndSetMethodSend => exact (h.set target value).setMethod value
  | fetchAndSetMethod => exact (h.fetchTo target).setMethod value
  | moveAndSetMethodFetchAndSend =>
    exact { (h.set target value).setMethod value with arguments := h.arguments.tail }

theorem sent? (op : ResultOp) (value : Word) : op.sent? value m' = op.sent? value m := by
  cases op <;> simp only [ResultOp.sent?, h.arguments.headD]

theorem consults? (operation : Operation) : operation.consults? m' = operation.consults? m := by
  cases operation <;> simp only [Operation.consults?, h.get]

theorem computes? (operation : Operation) (answer : Word) :
    operation.computes? m' answer = operation.computes? m answer := by
  cases operation <;> simp only [Operation.computes?, h.get, h.carry]

theorem next (i : Instruction) : i.next m' = ((i.next m).1 + d, (i.next m).2.moved d) := by
  have hjump : i.jump? m' = i.jump? m := by
    simp only [Instruction.jump?, h.get]
  rw [Instruction.next_eq, Instruction.next_eq, hjump, h.pc]
  rcases i.jump? m with _ | ⟨_ | _, distance⟩
  · cases i.exit <;> simp [Stage.moved, CodeOffset.jump_add]
  · simp [Stage.moved, CodeOffset.jump_add]
  · simp [Stage.moved, CodeOffset.jump_add]

theorem advance (i : Instruction) : Counterpart d (m.advance i) (m'.advance i) := by
  have hpc : m'.pc.jump 1 = m.pc.jump 1 + d := by
    rw [h.pc, CodeOffset.jump_add]
  unfold Machine.advance
  rw [h.stage]
  cases m.stage with
  | plain => exact { h with pc := congrArg Prod.fst (h.next i), stage := congrArg Prod.snd (h.next i) }
  | branchSlot target => exact { h with pc := rfl, stage := rfl }
  | exitSlot => exact { h with pc := hpc, stage := rfl }

theorem finishes : m'.finishes = m.finishes := by
  unfold Machine.finishes
  rw [h.stage]
  cases m.stage <;> rfl

end Counterpart

/-! ### Instructions and runs -/

section
variable {ε β β' : Type} [Bus ε β] [Bus ε β']

/-- A relation of buses that answer alike, but for what they answer to fetches: there the second has at `d` words
    further on what the first has. -/
structure Displaced (d : CodeOffset) (R : β → β' → Prop) : Prop where
  fetch : ∀ {b c}, R b c → ∀ offset, (Bus.fetch (offset + d) c).1 = (Bus.fetch offset b).1 ∧
    R (Bus.fetch offset b).2 (Bus.fetch (offset + d) c).2
  read : ∀ {b c}, R b c → ∀ method, (Bus.read method c).1 = (Bus.read method b).1 ∧
    R (Bus.read method b).2 (Bus.read method c).2
  write : ∀ {b c}, R b c → ∀ method value, Paired R (Bus.write method value b) (Bus.write method value c)

structure Counterparts (d : CodeOffset) (R : β → β' → Prop) (s : Machine × β) (t : Machine × β') : Prop where
  machine : Counterpart d s.1 t.1
  bus : R s.2 t.2

namespace Displaced
variable {d : CodeOffset} {R : β → β' → Prop} (h : Displaced d R)

section
variable {s : Machine × β} {t : Machine × β'} (hst : Counterparts d R s t)
include h hst

theorem fetched : (Bus.fetch t.1.pc t.2).1 = (Bus.fetch s.1.pc s.2).1 ∧
    R (Bus.fetch s.1.pc s.2).2 (Bus.fetch t.1.pc t.2).2 := by
  rw [hst.machine.pc]
  exact h.fetch hst.bus s.1.pc

theorem instructionAt : instructionAt t = instructionAt s := congrArg CodeWord.decode (h.fetched hst).1

theorem advance : Counterpart d (s.1.advance (Mme.instructionAt s)) (t.1.advance (Mme.instructionAt t)) := by
  rw [h.instructionAt hst]
  exact hst.machine.advance _

theorem consultedAt? : consultedAt? t = consultedAt? s := by
  rw [Mme.consultedAt?, (h.advance hst).consults?, h.instructionAt hst]
  rfl

theorem answerAt : (answerAt t).1 = (answerAt s).1 ∧ R (answerAt s).2 (answerAt t).2 := by
  have hconsults := h.consultedAt? hst
  unfold Mme.consultedAt? at hconsults
  unfold Mme.answerAt Operation.consult
  rw [hconsults]
  split
  · exact h.read (h.fetched hst).2 _
  · exact ⟨rfl, (h.fetched hst).2⟩

theorem computedAt? : computedAt? t = computedAt? s := by
  rw [Mme.computedAt?, (h.advance hst).computes?, (h.answerAt hst).1, h.instructionAt hst]
  rfl

theorem settledAt : Counterpart d (settledAt s) (settledAt t) := by
  unfold Mme.settledAt
  rw [h.computedAt? hst]
  split
  · exact ((h.advance hst).withCarry _).settle _ _ _
  · exact h.advance hst

theorem sentAt? : sentAt? t = sentAt? s := by
  unfold Mme.sentAt?
  rw [h.computedAt? hst]
  exact congrArg _ (funext fun c => (h.advance hst).sent? c.op c.value)

theorem stepEvents : stepEvents t = (stepEvents s).map (BusEvent.moved d) := by
  rw [stepEvents_eq, stepEvents_eq, h.consultedAt? hst, h.sentAt? hst, (h.answerAt hst).1, (h.settledAt hst).address,
    hst.machine.pc, List.map_cons, List.map_append, List.map_map, List.map_map]
  rfl

theorem step : Paired (Counterparts d R) (step s) (step t) := by
  have hsettled := h.settledAt hst
  have hbus := (h.answerAt hst).2
  rw [step_eq_deliver, step_eq_deliver, h.sentAt? hst, hst.machine.finishes]
  cases Mme.sentAt? s with
  | none => exact .ok _ ⟨hsettled, hbus⟩
  | some value =>
    have hwrite := h.write hbus (Mme.settledAt s).address.method value
    simp only [deliver, send, hsettled.address]
    generalize Bus.write _ value (Mme.answerAt s).2 = r, Bus.write _ value (Mme.answerAt t).2 = r' at hwrite
    cases hwrite with
    | ok _ hbus => exact .ok _ ⟨{ hsettled with address := rfl }, hbus⟩
    | error fault hbus => exact .error fault ⟨hsettled, hbus⟩

end

include h

theorem runFrom (limit : Nat) {s : Machine × β} {t : Machine × β'} (hst : Counterparts d R s t) :
    Paired (Counterparts d R) (runFrom limit s) (runFrom limit t) ∧
      eventsFrom limit t = (eventsFrom limit s).map (BusEvent.moved d) := by
  induction limit generalizing s t with
  | zero => exact ⟨.ok _ hst, rfl⟩
  | succ limit ih =>
    have hstep := h.step hst
    rw [runFrom_succ, runFrom_succ, eventsFrom, eventsFrom, h.stepEvents hst, List.map_append]
    generalize Mme.step s = r, Mme.step t = r' at hstep
    cases hstep with
    | error fault hst => exact ⟨.error fault hst, rfl⟩
    | ok finished hst =>
      cases finished with
      | true => exact ⟨.ok _ hst, rfl⟩
      | false =>
        obtain ⟨hrun, hevents⟩ := ih hst
        exact ⟨hrun, congrArg _ hevents⟩

theorem run (limit : Nat) {m m' : Machine} (hm : Counterpart d m m') {b : β} {c : β'} (hbc : R b c) :
    Paired R (through Prod.snd (Mme.runFrom limit (m, b))) (through Prod.snd (Mme.runFrom limit (m', c))) :=
  (h.runFrom limit ⟨hm, hbc⟩).1.map fun _ _ hst => hst.bus

end Displaced

theorem CodeOffset.ofNat_add (entry d : Word) :
    CodeOffset.ofNat (entry + d).toNat = .ofNat entry.toNat + .ofNat d.toNat := by
  apply Fin.ext
  simp only [CodeOffset.ofNat, Fin.val_add, Fin.val_ofNat, UInt32.toNat_add, codeSize]
  omega

theorem counterpart_start (entry d : Word) {arguments arguments' : List Word} (h : SameStream arguments arguments') :
    Counterpart (.ofNat d.toNat) (Machine.start entry arguments) (Machine.start (entry + d) arguments') := by
  have hmachine : Counterpart (.ofNat d.toNat) { pc := .ofNat entry.toNat, arguments }
      { pc := .ofNat (entry + d).toNat, arguments := arguments' } :=
    ⟨CodeOffset.ofNat_add entry d, rfl, rfl, rfl, rfl, h⟩
  exact hmachine.fetchTo 1

/-- A relation of buses that have each their own code, which no request changes, and that answer alike to all but
    fetches. -/
structure FixedCode (code code' : CodeOffset → Word) (R : β → β' → Prop) : Prop where
  fetch : ∀ {b c}, R b c → ∀ offset offset', (Bus.fetch offset b).1 = code offset ∧
    (Bus.fetch offset' c).1 = code' offset' ∧ R (Bus.fetch offset b).2 (Bus.fetch offset' c).2
  read : ∀ {b c}, R b c → ∀ method, (Bus.read method c).1 = (Bus.read method b).1 ∧
    R (Bus.read method b).2 (Bus.read method c).2
  write : ∀ {b c}, R b c → ∀ method value, Paired R (Bus.write method value b) (Bus.write method value c)

theorem FixedCode.displaced {code code' : CodeOffset → Word} {R : β → β' → Prop} (h : FixedCode code code' R)
    {d : CodeOffset} (hcode : ∀ x, code' (x + d) = code x) : Displaced d R where
  fetch hbc offset := by
    obtain ⟨hb, hc, hbc⟩ := h.fetch hbc offset (offset + d)
    exact ⟨by rw [hb, hc, hcode], hbc⟩
  read := h.read
  write := h.write

/-- Macro code does not depend on where it lies in code memory. Take two buses whose codes are fixed and which are alike
    but that the code of the second is that of the first, moved around code memory by `d` words. A run on the second
    that is entered `d` words further on, as words are added, makes the same requests with the same answers, but that
    every fetch is from `d` words further on. It ends in the same way, with the buses alike still. -/
theorem run_displaced {code code' : CodeOffset → Word} {R : β → β' → Prop} (h : FixedCode code code' R) {d : Word}
    (hcode : ∀ x, code' (x + .ofNat d.toNat) = code x) {b : β} {c : β'} (hbc : R b c) (limit : Nat) (entry : Word)
    (arguments : List Word) :
    Paired R (run limit entry arguments b) (run limit (entry + d) arguments c) ∧
    asked limit (entry + d) arguments c =
      (asked limit entry arguments b).map (BusEvent.moved (.ofNat d.toNat)) := by
  have hdisplaced := h.displaced hcode
  have hstart : Counterpart (.ofNat d.toNat) (Machine.start entry arguments) (Machine.start (entry + d) arguments) :=
    counterpart_start entry d fun _ => rfl
  rw [run_eq, run_eq, asked_eq, asked_eq]
  exact ⟨hdisplaced.run limit hstart hbc, (hdisplaced.runFrom limit ⟨hstart, hbc⟩).2⟩

end

/-! ### A bus with fixed code -/

/-- A bus of fixed code before registers that hold what was sent to them. -/
structure Programmed where
  code : CodeOffset → Word
  registers : Nat → Word

instance : Bus Empty Programmed where
  fetch offset p := (p.code offset, p)
  read method p := (p.registers method, p)
  write method value p :=
    .ok () { p with registers := fun other => if other = method then value else p.registers other }

theorem fixedCode_programmed (code code' : CodeOffset → Word) :
    FixedCode code code' fun p q : Programmed => p.code = code ∧ q.code = code' ∧ q.registers = p.registers where
  fetch := fun ⟨hp, hq, h⟩ offset offset' => ⟨congrFun hp offset, congrFun hq offset', hp, hq, h⟩
  read := fun ⟨hp, hq, h⟩ method => ⟨congrFun h method, hp, hq, h⟩
  write := fun ⟨hp, hq, h⟩ method value => .ok () ⟨hp, hq, by dsimp only; rw [h]⟩

/-- Code across the end of code memory, with a branch that is taken there, and the same code two places further on. The
    number that it is moved by wraps with the entry point. -/
theorem run_displaced_across :
    let program : List (CodeOffset × Instruction) :=
      [(0x1FFE, ⟨.addImmediate .moveAndSetMethod 2 0 0x1040, false⟩), (0x1FFF, ⟨.branch .notZero false 1 4, false⟩),
        (0, ⟨.addImmediate .moveAndSend 0 1 1, false⟩), (3, ⟨.read .moveAndSend 0 0 0x40, true⟩)]
    let code : CodeOffset → Word := fun x => ((program.lookup x).map Instruction.encode).getD 0
    let code' : CodeOffset → Word := fun x => code (x - 2)
    let p : Programmed := ⟨code, fun _ => 0⟩
    let q : Programmed := ⟨code', fun _ => 0⟩
    let alike := fun p q : Programmed => p.code = code ∧ q.code = code' ∧ q.registers = p.registers
    (FixedCode code code' alike ∧ (∀ x, code' (x + .ofNat (0xFFFFE002 : Word).toNat) = code x) ∧ alike p q) ∧
    Paired alike (run 9 0x1FFE [6] p) (run 9 (0x1FFE + 0xFFFFE002) [6] q) ∧
    asked 9 (0x1FFE + 0xFFFFE002) [6] q =
      [.fetch 0, .fetch 1, .fetch 2, .write 0x40 7, .fetch 5, .read 0x40 7, .write 0x41 7, .fetch 6] := by
  intro program code code' p q alike
  have hcode (x : CodeOffset) : code' (x + .ofNat (0xFFFFE002 : Word).toNat) = code x := by
    have hd : CodeOffset.ofNat (0xFFFFE002 : Word).toNat = 2 := rfl
    rw [hd]
    exact congrArg code (by grind)
  obtain ⟨hpaired, hasked⟩ := run_displaced (fixedCode_programmed code code') (d := 0xFFFFE002) hcode
    (b := p) (c := q) ⟨rfl, rfl, rfl⟩ 9 0x1FFE [6]
  refine ⟨⟨fixedCode_programmed code code', hcode, rfl, rfl, rfl⟩, hpaired, hasked.trans ?_⟩
  decide +kernel

end Maxwell.Mme
