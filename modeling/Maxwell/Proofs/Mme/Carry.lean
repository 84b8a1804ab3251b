import Mathlib.Data.Nat.Digits.Defs
import Maxwell.Proofs.Mme.Displacement

/-! Numbers of many words. A macro adds and subtracts them limb by limb, from the lowest on, and the carry takes what is
    over from one limb to the next. Only the four operations of such a chain change the carry, so whatever else is
    executed between two limbs, the chain is that of the limbs alone. -/

namespace Maxwell.Mme

/-! ### Numbers and their limbs -/

/-- The number of a list of limbs, the lowest first. -/
def number (limbs : List Word) : Nat := Nat.ofDigits (2 ^ 32) (limbs.map UInt32.toNat)

theorem number_cons (limb : Word) (limbs : List Word) :
    number (limb :: limbs) = limb.toNat + 2 ^ 32 * number limbs := by
  rw [number, List.map_cons, Nat.ofDigits_cons]
  rfl

theorem number_lt (limbs : List Word) : number limbs < 2 ^ (32 * limbs.length) := by
  have hdigits : ∀ digit ∈ limbs.map UInt32.toNat, digit < 2 ^ 32 := by
    intro digit hdigit
    obtain ⟨limb, -, rfl⟩ := List.mem_map.mp hdigit
    exact limb.toNat_lt
  rw [pow_mul, number, ← List.length_map UInt32.toNat]
  exact Nat.ofDigits_lt_base_pow_length (by decide) hdigits

/-! ### Operations one after the other -/

/-- An operation of the arithmetic unit on two words. -/
structure AluCall where
  op : AluOp
  a : Word
  b : Word
  deriving DecidableEq, Repr

namespace AluCall

/-- The values of operations that are done one after the other, and the carry after them. -/
def evalAll : (carry : Bool) → List AluCall → List Word × Bool
  | carry, [] => ([], carry)
  | carry, call :: calls =>
    let first := call.op.eval carry call.a call.b
    let others := evalAll first.2 calls
    (first.1 :: others.1, others.2)

theorem evalAll_append (carry : Bool) (calls calls' : List AluCall) :
    evalAll carry (calls ++ calls') =
      ((evalAll carry calls).1 ++ (evalAll (evalAll carry calls).2 calls').1,
        (evalAll (evalAll carry calls).2 calls').2) := by
  induction calls generalizing carry with
  | nil => rfl
  | cons call calls ih =>
    rw [List.cons_append, evalAll, ih]
    rfl

theorem length_evalAll (carry : Bool) (calls : List AluCall) : (evalAll carry calls).1.length = calls.length := by
  induction calls generalizing carry with
  | nil => rfl
  | cons call calls ih => exact congrArg Nat.succ (ih _)

end AluCall

/-- The words of two numbers, limb by limb. -/
abbrev Limbs := List (Word × Word)

namespace Limbs

/-- The numbers of as many limbs are those below this one. -/
def modulus (limbs : Limbs) : Nat := 2 ^ (32 * limbs.length)

def left (limbs : Limbs) : Nat := number (limbs.map Prod.fst)

def right (limbs : Limbs) : Nat := number (limbs.map Prod.snd)

def calls (op : AluOp) (limbs : Limbs) : List AluCall := limbs.map fun limb => ⟨op, limb.1, limb.2⟩

theorem number_lt_modulus {limbs : Limbs} {values : List Word} (h : values.length = limbs.length) :
    number values < limbs.modulus := by
  rw [modulus, ← h]
  exact number_lt values

/-- The calls of a chain, with an operation of its own for the lowest limb. -/
def chain (lowest others : AluOp) : Limbs → List AluCall
  | [] => []
  | limb :: limbs => ⟨lowest, limb.1, limb.2⟩ :: calls others limbs

theorem modulus_cons (limb : Word × Word) (limbs : Limbs) : modulus (limb :: limbs) = 2 ^ 32 * modulus limbs := by
  rw [modulus, List.length_cons, Nat.mul_succ, Nat.add_comm, pow_add]
  rfl

theorem left_cons (limb : Word × Word) (limbs : Limbs) :
    left (limb :: limbs) = limb.1.toNat + 2 ^ 32 * left limbs := number_cons _ _

theorem right_cons (limb : Word × Word) (limbs : Limbs) :
    right (limb :: limbs) = limb.2.toNat + 2 ^ 32 * right limbs := number_cons _ _

/-- The operation of the lowest limb does what the others do after a carry of its own. -/
theorem evalAll_chain {lowest others : AluOp} {start : Bool}
    (h : ∀ carry a b, lowest.eval carry a b = others.eval start a b) (carry : Bool) (limb : Word × Word)
    (limbs : Limbs) :
    AluCall.evalAll carry (chain lowest others (limb :: limbs)) =
      AluCall.evalAll start (calls others (limb :: limbs)) := by
  rw [chain, AluCall.evalAll, h]
  rfl

theorem evalAll_calls_cons (op : AluOp) (carry : Bool) (limb : Word × Word) (limbs : Limbs) :
    AluCall.evalAll carry (calls op (limb :: limbs)) =
      ((op.eval carry limb.1 limb.2).1 :: (AluCall.evalAll (op.eval carry limb.1 limb.2).2 (calls op limbs)).1,
        (AluCall.evalAll (op.eval carry limb.1 limb.2).2 (calls op limbs)).2) := rfl

theorem length_evalAll_calls (op : AluOp) (carry : Bool) (limbs : Limbs) :
    (AluCall.evalAll carry (calls op limbs)).1.length = limbs.length := by
  rw [AluCall.length_evalAll, calls, List.length_map]

end Limbs

/-! ### Sums -/

theorem toNat_toUInt32 (b : Bool) : b.toUInt32.toNat = b.toNat := by
  cases b <;> rfl

namespace AluOp

theorem add_eval (carry : Bool) (a b : Word) : add.eval carry a b = addWithCarry.eval false a b := by
  have hzero : a + b + false.toUInt32 = a + b := UInt32.add_zero _
  rw [eval, eval, hzero]
  rfl

theorem addWithCarry_eval (carry : Bool) (a b : Word) :
    (addWithCarry.eval carry a b).1.toNat + 2 ^ 32 * (addWithCarry.eval carry a b).2.toNat =
      a.toNat + b.toNat + carry.toNat := by
  have ha := a.toNat_lt
  have hb := b.toNat_lt
  have hcarry := carry.toNat_le
  rw [eval]
  dsimp only
  rw [UInt32.toNat_add, UInt32.toNat_add, toNat_toUInt32]
  by_cases h : 0x100000000 ≤ a.toNat + b.toNat + carry.toNat
  · rw [decide_eq_true h, Bool.toNat_true]
    omega
  · rw [decide_eq_false h, Bool.toNat_false]
    omega

end AluOp

/-- The limbs of the sum of two numbers, and the carry after it. -/
structure IsSum (limbs : Limbs) (result : List Word × Bool) : Prop where
  length : result.1.length = limbs.length
  value : number result.1 = (limbs.left + limbs.right) % limbs.modulus
  carry : result.2 = true ↔ limbs.modulus ≤ limbs.left + limbs.right

namespace Limbs

theorem number_addWithCarry (carry : Bool) (limbs : Limbs) :
    number (AluCall.evalAll carry (calls .addWithCarry limbs)).1 +
        limbs.modulus * (AluCall.evalAll carry (calls .addWithCarry limbs)).2.toNat =
      limbs.left + limbs.right + carry.toNat := by
  induction limbs generalizing carry with
  | nil => cases carry <;> rfl
  | cons limb limbs ih =>
    have hlimb := AluOp.addWithCarry_eval carry limb.1 limb.2
    have hlimbs := ih (AluOp.addWithCarry.eval carry limb.1 limb.2).2
    rw [evalAll_calls_cons]
    dsimp only
    rw [number_cons, left_cons, right_cons, modulus_cons, Nat.mul_assoc]
    omega

theorem isSum_chain (carry : Bool) (limb : Word × Word) (limbs : Limbs) :
    IsSum (limb :: limbs) (AluCall.evalAll carry (chain .add .addWithCarry (limb :: limbs))) := by
  rw [evalAll_chain AluOp.add_eval]
  have hlength := length_evalAll_calls .addWithCarry false (limb :: limbs)
  have hnumber := number_addWithCarry false (limb :: limbs)
  have hlt := number_lt_modulus hlength
  generalize AluCall.evalAll false (calls .addWithCarry (limb :: limbs)) = result at hlength hnumber hlt ⊢
  obtain ⟨values, last⟩ := result
  rw [Bool.toNat_false, Nat.add_zero] at hnumber
  refine ⟨hlength, ?_, ?_⟩
  · rw [← hnumber, Nat.add_mul_mod_self_left, Nat.mod_eq_of_lt hlt]
  · rw [← hnumber]
    cases last <;> simp [hlt]

end Limbs

/-! ### Differences -/

namespace AluOp

theorem subtract_eval (carry : Bool) (a b : Word) : subtract.eval carry a b = subtractWithBorrow.eval true a b := by
  have hzero : a - b - (!true).toUInt32 = a - b := UInt32.sub_zero _
  rw [eval, eval, hzero]
  rfl

theorem subtractWithBorrow_eval (carry : Bool) (a b : Word) :
    (subtractWithBorrow.eval carry a b).1.toNat + b.toNat + (!carry).toNat =
      a.toNat + 2 ^ 32 * (!(subtractWithBorrow.eval carry a b).2).toNat := by
  have ha := a.toNat_lt
  have hb := b.toNat_lt
  have hborrow := (!carry).toNat_le
  rw [eval]
  dsimp only
  rw [UInt32.toNat_sub, UInt32.toNat_sub, toNat_toUInt32]
  by_cases h : b.toNat + (!carry).toNat ≤ a.toNat
  · rw [decide_eq_true h, Bool.not_true, Bool.toNat_false]
    omega
  · rw [decide_eq_false h, Bool.not_false, Bool.toNat_true]
    omega

end AluOp

/-- The limbs of the difference of two numbers, and the carry after it. -/
structure IsDifference (limbs : Limbs) (result : List Word × Bool) : Prop where
  length : result.1.length = limbs.length
  value : (number result.1 : Int) = ((limbs.left : Int) - limbs.right) % limbs.modulus
  carry : result.2 = false ↔ limbs.left < limbs.right

namespace Limbs

theorem number_subtractWithBorrow (carry : Bool) (limbs : Limbs) :
    number (AluCall.evalAll carry (calls .subtractWithBorrow limbs)).1 + limbs.right + (!carry).toNat =
      limbs.left + limbs.modulus * (!(AluCall.evalAll carry (calls .subtractWithBorrow limbs)).2).toNat := by
  induction limbs generalizing carry with
  | nil => cases carry <;> rfl
  | cons limb limbs ih =>
    have hlimb := AluOp.subtractWithBorrow_eval carry limb.1 limb.2
    have hlimbs := ih (AluOp.subtractWithBorrow.eval carry limb.1 limb.2).2
    rw [evalAll_calls_cons]
    dsimp only
    rw [number_cons, left_cons, right_cons, modulus_cons, Nat.mul_assoc]
    omega

theorem isDifference_chain (carry : Bool) (limb : Word × Word) (limbs : Limbs) :
    IsDifference (limb :: limbs) (AluCall.evalAll carry (chain .subtract .subtractWithBorrow (limb :: limbs))) := by
  rw [evalAll_chain AluOp.subtract_eval]
  have hlength := length_evalAll_calls .subtractWithBorrow true (limb :: limbs)
  have hnumber := number_subtractWithBorrow true (limb :: limbs)
  have hlt := number_lt_modulus hlength
  generalize AluCall.evalAll true (calls .subtractWithBorrow (limb :: limbs)) = result at hlength hnumber hlt ⊢
  obtain ⟨values, last⟩ := result
  dsimp only at hnumber hlt
  rw [Bool.not_true, Bool.toNat_false, Nat.add_zero] at hnumber
  have hvalue : (number values : Int) % modulus (limb :: limbs) = number values :=
    Int.emod_eq_of_lt (Int.natCast_nonneg _) (Int.ofNat_lt.mpr hlt)
  cases last with
  | true =>
    rw [Bool.not_true, Bool.toNat_false, Nat.mul_zero] at hnumber
    have hdifference : (left (limb :: limbs) : Int) - right (limb :: limbs) = number values := by omega
    refine ⟨hlength, ?_, iff_of_false Bool.noConfusion (by omega)⟩
    rw [hdifference, hvalue]
  | false =>
    rw [Bool.not_false, Bool.toNat_true, Nat.mul_one] at hnumber
    have hdifference : (left (limb :: limbs) : Int) - right (limb :: limbs) =
        number values - modulus (limb :: limbs) := by omega
    refine ⟨hlength, ?_, iff_of_true rfl (by omega)⟩
    rw [hdifference, Int.sub_emod_right, hvalue]

end Limbs

/-! ### Chains in a run -/

/-- Whether an operation says what the carry is after it. -/
def AluOp.setsCarry : AluOp → Bool
  | .add | .addWithCarry | .subtract | .subtractWithBorrow => true
  | .xor | .or | .and | .andNot | .nand => false

theorem AluOp.eval_carry {op : AluOp} (h : op.setsCarry = false) (carry : Bool) (a b : Word) :
    (op.eval carry a b).2 = carry := by
  cases op <;> first | rfl | cases h

/-- An operation of a run that sets the carry: what it is done on, and the value that is handed on. -/
structure Carried where
  call : AluCall
  value : Word

namespace Machine
variable (m : Machine) (r : RegisterId) (value : Word) (i : Instruction)

@[simp] theorem get_advance : (m.advance i).get r = m.get r := by
  unfold advance
  split <;> rfl

@[simp] theorem carry_advance : (m.advance i).carry = m.carry := by
  unfold advance
  split <;> rfl

@[simp] theorem carry_set : (m.set r value).carry = m.carry := by
  unfold set
  split <;> rfl

end Machine

theorem Computed.carry_settle (c : Computed) (m : Machine) : (c.settle m).carry = c.carry := by
  unfold Computed.settle ResultOp.settle Machine.fetchTo Machine.setMethod
  cases c.op <;> simp

section
variable {ε β : Type} [Bus ε β]

/-- The operation that is executed in a state, if it sets the carry. -/
def carriedAt? (s : Machine × β) : Option Carried :=
  match (instructionAt s).operation with
  | .alu op _ _ a b =>
    if op.setsCarry then (computedAt? s).map fun c => ⟨⟨op, s.1.get a, s.1.get b⟩, c.value⟩ else none
  | _ => none

/-- The operations of at most `limit` instructions that set the carry, in order. -/
def carriedFrom (limit : Nat) (s : Machine × β) : List Carried := (statesFrom limit s).filterMap carriedAt?

theorem carry_step (s : Machine × β) :
    (stateOf (step s)).1.carry = ((computedAt? s).map Computed.carry).getD s.1.carry := by
  obtain ⟨address, hstate⟩ := stateOf_step s
  rw [hstate, settledAt]
  cases computedAt? s with
  | none => exact Machine.carry_advance s.1 _
  | some c => exact c.carry_settle _

/-- An instruction does to the carry what its operation does, if it is one that sets the carry, and else nothing. -/
theorem evalAll_carriedAt? (s : Machine × β) :
    AluCall.evalAll s.1.carry ((carriedAt? s).toList.map Carried.call) =
      ((carriedAt? s).toList.map Carried.value, (stateOf (step s)).1.carry) := by
  rw [carry_step]
  unfold carriedAt? computedAt?
  generalize answerAt s = answer
  cases hoperation : (instructionAt s).operation with
  | alu op result target a b =>
    cases hop : op.setsCarry with
    | true => simp [Operation.computes?, AluCall.evalAll, hop]
    | false => simp [Operation.computes?, AluCall.evalAll, AluOp.eval_carry, hop]
  | _ => simp [Operation.computes?, AluCall.evalAll]

theorem carriedFrom_succ (limit : Nat) (s : Machine × β) :
    carriedFrom (limit + 1) s = (carriedAt? s).toList ++ match step s with
      | .ok false t => carriedFrom limit t
      | _ => [] := by
  unfold carriedFrom
  rw [statesFrom, List.filterMap_cons]
  cases carriedAt? s <;> rcases step s with ⟨_ | _, t⟩ | ⟨fault, t⟩ <;> rfl

/-- The carry goes through a run as through the operations that set it, done one after the other. -/
theorem evalAll_carriedFrom (limit : Nat) (s : Machine × β) :
    AluCall.evalAll s.1.carry ((carriedFrom limit s).map Carried.call) =
      ((carriedFrom limit s).map Carried.value, (stateOf (runFrom limit s)).1.carry) := by
  -- Whether or not the run goes on after the first instruction, the carry that it leaves is that of the next state.
  induction limit generalizing s with
  | zero => rfl
  | succ limit ih =>
    rw [carriedFrom_succ, List.map_append, AluCall.evalAll_append, evalAll_carriedAt?, List.map_append, runFrom_succ]
    rcases step s with ⟨_ | _, t⟩ | ⟨fault, t⟩
    · simp only [stateOf, ih]
    · simp [stateOf, AluCall.evalAll]
    · simp [stateOf, AluCall.evalAll]

/-- Additions that begin with the lowest limbs and go on with the carry make the sum of two numbers, and subtractions in
    the same way the difference. In a run this is so from any state on and whatever else is executed, as long as the
    operations that set the carry are those of the chain. -/
theorem carry_chain (limb : Word × Word) (limbs : Limbs) :
    (∀ carry,
      IsSum (limb :: limbs) (AluCall.evalAll carry (Limbs.chain .add .addWithCarry (limb :: limbs))) ∧
      IsDifference (limb :: limbs)
        (AluCall.evalAll carry (Limbs.chain .subtract .subtractWithBorrow (limb :: limbs)))) ∧
    ∀ limit (s : Machine × β),
      let result := ((carriedFrom limit s).map Carried.value, (stateOf (runFrom limit s)).1.carry)
      ((carriedFrom limit s).map Carried.call = Limbs.chain .add .addWithCarry (limb :: limbs) →
        IsSum (limb :: limbs) result) ∧
      ((carriedFrom limit s).map Carried.call = Limbs.chain .subtract .subtractWithBorrow (limb :: limbs) →
        IsDifference (limb :: limbs) result) := by
  have hcalls (carry : Bool) := And.intro (Limbs.isSum_chain carry limb limbs) (Limbs.isDifference_chain carry limb limbs)
  refine ⟨hcalls, fun limit s => ?_⟩
  have hrun := evalAll_carriedFrom limit s
  refine ⟨fun hsum => ?_, fun hdifference => ?_⟩
  · rw [← hrun, hsum]
    exact (hcalls s.1.carry).1
  · rw [← hrun, hdifference]
    exact (hcalls s.1.carry).2

end

/-- Chains of two limbs. Between them the arguments are fetched, a branch is taken, and bits are moved in its delay
    slot. -/
theorem carry_chain_interleaved :
    let program := fun lowest others : AluOp => ([
      (0, ⟨.addImmediate .ignoreAndFetch 2 0 0, false⟩), (1, ⟨.alu lowest .move 3 1 2, false⟩),
      (2, ⟨.addImmediate .ignoreAndFetch 4 0 0, false⟩), (3, ⟨.addImmediate .ignoreAndFetch 5 0 0, false⟩),
      (4, ⟨.alu .xor .move 6 3 3, false⟩), (5, ⟨.branch .zero false 6 2, false⟩),
      (6, ⟨.extractInsert .move 6 4 5 ⟨0, 4, 0⟩, false⟩), (7, ⟨.alu others .moveAndSend 7 4 5, true⟩),
      (8, ⟨.read .move 6 0 0x40, false⟩)] : List (CodeOffset × Instruction))
    let bus := fun lowest others =>
      (⟨fun x => (((program lowest others).lookup x).map Instruction.encode).getD 0, fun _ => 0⟩ : Programmed)
    let sum := (Machine.start 0 [0xFFFFFFFF, 1, 5, 3], bus .add .addWithCarry)
    let difference := (Machine.start 0 [0, 1, 5, 3], bus .subtract .subtractWithBorrow)
    ((carriedFrom 9 sum).map Carried.call = Limbs.chain .add .addWithCarry [(0xFFFFFFFF, 1), (5, 3)] ∧
      IsSum [(0xFFFFFFFF, 1), (5, 3)]
        ((carriedFrom 9 sum).map Carried.value, (stateOf (runFrom 9 sum)).1.carry)) ∧
    (carriedFrom 9 difference).map Carried.call = Limbs.chain .subtract .subtractWithBorrow [(0, 1), (5, 3)] ∧
      IsDifference [(0, 1), (5, 3)]
        ((carriedFrom 9 difference).map Carried.value, (stateOf (runFrom 9 difference)).1.carry) := by
  intro program bus sum difference
  have hsum : (carriedFrom 9 sum).map Carried.call = Limbs.chain .add .addWithCarry [(0xFFFFFFFF, 1), (5, 3)] := by
    decide +kernel
  have hdifference : (carriedFrom 9 difference).map Carried.call =
      Limbs.chain .subtract .subtractWithBorrow [(0, 1), (5, 3)] := by
    decide +kernel
  exact ⟨⟨hsum, ((carry_chain _ _).2 9 sum).1 hsum⟩, hdifference, ((carry_chain _ _).2 9 difference).2 hdifference⟩

end Maxwell.Mme
