import Maxwell.Mme.Instruction

/-! The arithmetic of the macro machine. After a subtraction the carry says that nothing was borrowed. -/

namespace Maxwell.Mme

/-- The value of an operation on `a` and `b`, and the carry after it. -/
def AluOp.eval (op : AluOp) (carry : Bool) (a b : Word) : Word × Bool :=
  match op with
  | .add => (a + b, decide (0x100000000 ≤ a.toNat + b.toNat))
  | .addWithCarry => (a + b + carry.toUInt32, decide (0x100000000 ≤ a.toNat + b.toNat + carry.toNat))
  | .subtract => (a - b, decide (b.toNat ≤ a.toNat))
  | .subtractWithBorrow => (a - b - (!carry).toUInt32, decide (b.toNat + (!carry).toNat ≤ a.toNat))
  | .xor => (a ^^^ b, carry)
  | .or => (a ||| b, carry)
  | .and => (a &&& b, carry)
  | .andNot => (a &&& ~~~b, carry)
  | .nand => (~~~(a &&& b), carry)

/-- `w` moved up by `n` bits. Nothing is left of it from 32 bits on. -/
def shiftUp (w n : Word) : Word := if n < 32 then w <<< n else 0

/-- `w` moved down by `n` bits. Nothing is left of it from 32 bits on. -/
def shiftDown (w n : Word) : Word := if n < 32 then w >>> n else 0

namespace Bitfield

/-- The word whose `size` lowest bits are set. -/
def mask (bits : Bitfield) : Word := (1 <<< UInt32.ofNat bits.size) - 1

/-- `a` with the bits of `b` put in. -/
def insert (bits : Bitfield) (a b : Word) : Word :=
  let place := UInt32.ofNat bits.targetBit
  (a &&& ~~~(bits.mask <<< place)) ||| (((b >>> UInt32.ofNat bits.sourceBit) &&& bits.mask) <<< place)

/-- The bits of `b` from bit `a` on, moved to the target bit. -/
def extractFrom (bits : Bitfield) (a b : Word) : Word :=
  (shiftDown b a &&& bits.mask) <<< UInt32.ofNat bits.targetBit

/-- The bits of `b` from the source bit on, moved to bit `a`. -/
def extractTo (bits : Bitfield) (a b : Word) : Word :=
  shiftUp ((b >>> UInt32.ofNat bits.sourceBit) &&& bits.mask) a

end Bitfield

end Maxwell.Mme
