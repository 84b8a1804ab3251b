import Mathlib.Algebra.Group.Nat.Defs
import Maxwell.Mme.Machine

/-! The instructions that move bits, bit by bit. Each takes some bits of its second register to another place, in the
    first register or in a word of zeros, and what goes past the end of the word is lost. -/

namespace Maxwell

/-! ### Bits of a word -/

namespace Word

theorem bit_eq_testBit (w : Word) (i : Nat) : w.bit i = w.toNat.testBit i := by
  rw [bit, field, Nat.testBit_eq_decide_div_mod_eq, Nat.shiftRight_eq_div_pow]
  rfl

/-- Past its last bit a word has zeros. -/
theorem bit_of_le (w : Word) {i : Nat} (h : 32 ≤ i) : w.bit i = false := by
  rw [bit_eq_testBit]
  exact Nat.testBit_lt_two_pow (Nat.lt_of_lt_of_le w.toNat_lt (Nat.pow_le_pow_right (by decide) h))

theorem bit_zero (i : Nat) : (0 : Word).bit i = false := by
  rw [bit_eq_testBit]
  exact Nat.zero_testBit i

theorem bit_and (v w : Word) (i : Nat) : (v &&& w).bit i = (v.bit i && w.bit i) := by
  simp only [bit_eq_testBit, UInt32.toNat_and, Nat.testBit_and]

theorem bit_or (v w : Word) (i : Nat) : (v ||| w).bit i = (v.bit i || w.bit i) := by
  simp only [bit_eq_testBit, UInt32.toNat_or, Nat.testBit_or]

theorem bit_not (w : Word) (i : Fin 32) : (~~~w).bit i = !w.bit i := by
  have hlt : w.toNat < 2 ^ 32 := w.toNat_lt
  have hnot : (~~~w).toNat = 2 ^ 32 - (w.toNat + 1) := by
    rw [UInt32.toNat_not, Nat.sub_sub, Nat.add_comm]
    rfl
  rw [bit_eq_testBit, hnot, Nat.testBit_two_pow_sub_succ hlt, ← bit_eq_testBit]
  simp

end Word

namespace Mme

/-! ### Shifts -/

theorem bit_shiftDown (w n : Word) (i : Nat) : (shiftDown w n).bit i = w.bit (i + n.toNat) := by
  unfold shiftDown
  split
  · rename_i h
    have hn : n.toNat % 32 = n.toNat := Nat.mod_eq_of_lt h
    rw [Word.bit_eq_testBit, UInt32.toNat_shiftRight, hn, Nat.testBit_shiftRight, ← Word.bit_eq_testBit, Nat.add_comm]
  · rename_i h
    have hn : 32 ≤ n.toNat := Nat.le_of_not_lt h
    rw [Word.bit_zero, w.bit_of_le (by omega)]

theorem bit_shiftUp (w n : Word) (i : Fin 32) :
    (shiftUp w n).bit i = (decide (n.toNat ≤ i) && w.bit (i - n.toNat)) := by
  unfold shiftUp
  split
  · rename_i h
    have hn : n.toNat % 32 = n.toNat := Nat.mod_eq_of_lt h
    rw [Word.bit_eq_testBit, UInt32.toNat_shiftLeft, hn, Nat.testBit_mod_two_pow, Nat.testBit_shiftLeft,
      ← Word.bit_eq_testBit]
    simp
  · rename_i h
    have hn : ¬n.toNat ≤ i := fun hle => h (Nat.lt_of_le_of_lt hle i.isLt)
    simp [Word.bit_zero, hn]

/-- An amount that an instruction names is below 32, and the operators shift by the whole of it. -/
theorem toNat_ofNat_amount (k : Fin 32) : (UInt32.ofNat k).toNat = k := by
  rw [UInt32.toNat_ofNat']
  omega

theorem ofNat_amount_lt (k : Fin 32) : UInt32.ofNat k < 32 := by
  rw [UInt32.lt_iff_toNat_lt, toNat_ofNat_amount]
  exact k.isLt

theorem shiftDown_ofNat (w : Word) (k : Fin 32) : shiftDown w (.ofNat k) = w >>> .ofNat k := if_pos (ofNat_amount_lt k)

theorem shiftUp_ofNat (w : Word) (k : Fin 32) : shiftUp w (.ofNat k) = w <<< .ofNat k := if_pos (ofNat_amount_lt k)

/-! ### Bits that are moved -/

/-- A word holds `size` bits of `b`, from bit `source` on, in the places from bit `target` on, and the bits of `rest` in
    all other places. -/
def Placed (word b rest : Word) (source target size : Nat) : Prop :=
  ∀ i : Fin 32, word.bit i = if target ≤ i ∧ i < target + size then b.bit (i - target + source) else rest.bit i

namespace Bitfield

theorem toNat_mask (bits : Bitfield) : bits.mask.toNat = 2 ^ bits.size.val - 1 := by
  have hpow : (2 : Nat) ^ bits.size.val < 2 ^ 32 := Nat.pow_lt_pow_right (by decide) bits.size.isLt
  have hone : ((1 : Word) <<< UInt32.ofNat bits.size).toNat = 2 ^ bits.size.val := by
    rw [UInt32.toNat_shiftLeft, toNat_ofNat_amount, Nat.mod_eq_of_lt bits.size.isLt]
    show 1 <<< _ % _ = _
    rw [Nat.one_shiftLeft, Nat.mod_eq_of_lt hpow]
  have hle : (1 : Word) ≤ 1 <<< UInt32.ofNat bits.size := by
    rw [UInt32.le_iff_toNat_le, hone]
    exact Nat.one_le_two_pow
  rw [mask, UInt32.toNat_sub_of_le _ _ hle, hone]
  rfl

theorem bit_mask (bits : Bitfield) (i : Nat) : bits.mask.bit i = decide (i < bits.size) := by
  rw [Word.bit_eq_testBit, toNat_mask, Nat.testBit_two_pow_sub_one]

/-- The bits that an instruction takes out of `b`, moved up. -/
theorem placed_shiftUp (bits : Bitfield) (b source target : Word) :
    Placed (shiftUp (shiftDown b source &&& bits.mask) target) b 0 source.toNat target.toNat bits.size := by
  intro i
  rw [bit_shiftUp, Word.bit_and, bit_shiftDown, bit_mask, Word.bit_zero]
  by_cases hle : target.toNat ≤ i
  · have hlt : i - target.toNat < bits.size ↔ i < target.toNat + bits.size := by omega
    simp only [hle, hlt, decide_true, Bool.true_and, true_and]
    split <;> rename_i h <;> simp [h]
  · simp [hle]

theorem placed_extractFrom (bits : Bitfield) (a b : Word) :
    Placed (bits.extractFrom a b) b 0 a.toNat bits.targetBit bits.size := by
  have hplaced := bits.placed_shiftUp b a (.ofNat bits.targetBit)
  rwa [shiftUp_ofNat, toNat_ofNat_amount] at hplaced

theorem placed_extractTo (bits : Bitfield) (a b : Word) :
    Placed (bits.extractTo a b) b 0 bits.sourceBit a.toNat bits.size := by
  have hplaced := bits.placed_shiftUp b (.ofNat bits.sourceBit) a
  rwa [shiftDown_ofNat, toNat_ofNat_amount] at hplaced

/-- The places that are cleared for the bits are those that they go to. -/
theorem placed_insert (bits : Bitfield) (a b : Word) :
    Placed (bits.insert a b) b a bits.sourceBit bits.targetBit bits.size := by
  intro i
  have hmoved := bits.placed_shiftUp b (.ofNat bits.sourceBit) (.ofNat bits.targetBit) i
  have hcleared : (bits.mask <<< UInt32.ofNat bits.targetBit).bit i =
      decide (bits.targetBit ≤ i.val ∧ i < bits.targetBit.val + bits.size) := by
    rw [← shiftUp_ofNat, bit_shiftUp, bit_mask, toNat_ofNat_amount, ← Bool.decide_and, decide_eq_decide]
    omega
  rw [shiftDown_ofNat, shiftUp_ofNat, toNat_ofNat_amount, toNat_ofNat_amount] at hmoved
  rw [insert, Word.bit_or, Word.bit_and, Word.bit_not, hcleared, hmoved, Word.bit_zero]
  split <;> rename_i h
  · rw [decide_eq_true h, Bool.not_true, Bool.and_false, Bool.false_or]
  · rw [decide_eq_false h, Bool.not_false, Bool.and_true, Bool.or_false]

end Bitfield

section
variable {ε β : Type} [Bus ε β]

/-- What the instructions compute that move bits. From a word past its last bit they take zeros, and an amount in a
    register can be any. The amounts in the instruction itself are below the size of a word, where the operators shift
    by all of it. -/
theorem placed_extract (bits : Bitfield) :
    (∀ a b : Word, Placed (bits.insert a b) b a bits.sourceBit bits.targetBit bits.size ∧
      Placed (bits.extractFrom a b) b 0 a.toNat bits.targetBit bits.size ∧
      Placed (bits.extractTo a b) b 0 bits.sourceBit a.toNat bits.size) ∧
    (∀ (w : Word) (i : Nat), 32 ≤ i → w.bit i = false) ∧
    (UInt32.ofNat bits.sourceBit < 32 ∧ UInt32.ofNat bits.size < 32 ∧ UInt32.ofNat bits.targetBit < 32) ∧
    ∀ (result : ResultOp) (target sourceA sourceB : RegisterId) (m : Machine) (bus : β),
      let a := m.get sourceA
      let b := m.get sourceB
      (Operation.extractInsert result target sourceA sourceB bits).perform (m, bus) =
        result.perform target (bits.insert a b) (m, bus) ∧
      (Operation.extractShiftLeftImmediate result target sourceA sourceB bits).perform (m, bus) =
        result.perform target (bits.extractFrom a b) (m, bus) ∧
      (Operation.extractShiftLeftRegister result target sourceA sourceB bits).perform (m, bus) =
        result.perform target (bits.extractTo a b) (m, bus) :=
  ⟨fun a b => ⟨bits.placed_insert a b, bits.placed_extractFrom a b, bits.placed_extractTo a b⟩,
    fun w _ h => w.bit_of_le h,
    ⟨ofNat_amount_lt _, ofNat_amount_lt _, ofNat_amount_lt _⟩,
    fun _ _ _ _ _ _ => ⟨rfl, rfl, rfl⟩⟩

end
end Mme
end Maxwell
