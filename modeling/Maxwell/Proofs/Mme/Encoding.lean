import Mathlib.Algebra.Group.Nat.Defs
import Maxwell.Mme.Instruction

/-! Instructions and their words. The word of an instruction is read back as that instruction, and the word of what was
    read is the word that was read, but that the bits which its operation does not use are clear. -/

namespace Maxwell

/-! ### Fields and masks -/

namespace Word

theorem field_eq (w : Word) (low size : Nat) : w.field low size = w.toNat / 2 ^ low % 2 ^ size := by
  rw [field, Nat.shiftRight_eq_div_pow, Nat.one_shiftLeft]

/-- A field that lies in another. -/
theorem field_within (w : Word) (low : Nat) {size i n : Nat} (h : i + n ≤ size) :
    w.field low size / 2 ^ i % 2 ^ n = w.field (low + i) n := by
  obtain ⟨rest, rfl⟩ := Nat.exists_eq_add_of_le h
  rw [field_eq, field_eq, Nat.pow_add 2 low, ← Nat.div_div_eq_div_mul, Nat.add_assoc, Nat.pow_add 2 i,
    Nat.mod_mul_right_div_self, Nat.pow_add 2 n, Nat.mod_mul_right_mod]

theorem toNat_bit (w : Word) (i : Nat) : (w.bit i).toNat = w.field i 1 := by
  have hlt : w.field i 1 < 2 := w.field_lt i 1
  obtain h | h : w.field i 1 = 0 ∨ w.field i 1 = 1 := by omega
  all_goals simp [bit, h]

/-- A mask of `size` bits from bit `low` on cuts out a field. -/
theorem and_field_add (n size : Nat) {low mask : Nat} (hmask : mask < 2 ^ low) :
    n &&& ((2 ^ size - 1) * 2 ^ low + mask) = n / 2 ^ low % 2 ^ size * 2 ^ low + (n &&& mask) := by
  have hdiv : ((2 ^ size - 1) * 2 ^ low + mask) / 2 ^ low = 2 ^ size - 1 := by
    rw [Nat.mul_comm, Nat.mul_add_div (Nat.two_pow_pos low), Nat.div_eq_of_lt hmask, Nat.add_zero]
  have hmod : (n &&& ((2 ^ size - 1) * 2 ^ low + mask)) % 2 ^ low = n &&& mask := by
    rw [Nat.and_mod_two_pow, Nat.mul_add_mod', ← Nat.and_mod_two_pow]
    exact Nat.mod_eq_of_lt (Nat.lt_of_le_of_lt Nat.and_le_right hmask)
  rw [← Nat.div_add_mod' (n &&& _) (2 ^ low), Nat.and_div_two_pow, hdiv, hmod, Nat.and_two_pow_sub_one_eq_mod]

end Word

namespace Mme

/-! ### Numbers of the operations -/

theorem AluOp.code_lt (op : AluOp) : op.code < 32 := by
  cases op <;> decide

theorem AluOp.code_of_ofCode? {code : Nat} {op : AluOp} (h : ofCode? code = some op) : op.code = code := by
  unfold ofCode? at h
  split at h <;> cases h <;> rfl

theorem AluOp.ofCode?_eq_none_iff {code : Nat} : ofCode? code = none ↔ code ∉ [0, 1, 2, 3, 8, 9, 10, 11, 12] := by
  unfold ofCode?
  split <;> simp_all

theorem ResultOp.code_lt (op : ResultOp) : op.code < 8 := by
  cases op <;> decide

theorem ResultOp.code_ofCode (code : Nat) : (ofCode code).code = code % 8 := by
  have hlt : code % 8 < 8 := Nat.mod_lt _ (by decide)
  unfold ofCode
  generalize code % 8 = n at hlt
  match n, hlt with
  | 0, _ | 1, _ | 2, _ | 3, _ | 4, _ | 5, _ | 6, _ | 7, _ => rfl

/-! ### The word of an instruction, read -/

/-- What stands in the lower bits of a word, and the number in its upper eighteen. -/
structure CodeWord.Holds (w : CodeWord) (opcode : Nat) (result : ResultOp) (exit : Bool) (target source : RegisterId)
    (upper : Nat) : Prop where
  opcode : w.opcode = opcode
  result : w.resultOp = result
  exit : w.exit = exit
  target : w.target = target
  source : w.sourceA = source
  upper : w.field 14 18 = upper

theorem holds_pack {opcode upper : Nat} (hopcode : opcode < 8) (hupper : upper < 0x40000) {fields : List (Nat × Nat)}
    (hfields : Word.packed fields = upper * 0x4000) (result : ResultOp) (exit : Bool) (target source : RegisterId) :
    CodeWord.Holds (.pack (resultFields opcode result exit target source ++ fields)) opcode result exit target source
      upper := by
  have hresult := result.code_lt
  have hexit : exit.toNat < 2 := exit.toNat_lt
  have hpacked : Word.packed (resultFields opcode result exit target source ++ fields) =
      opcode + result.code * 0x10 + exit.toNat * 0x80 + target.val * 0x100 + source.val * 0x800 + upper * 0x4000 := by
    simp only [resultFields, List.cons_append, List.nil_append, Word.packed, hfields, Nat.shiftLeft_eq]
    omega
  have hfield (low size : Nat) :
      Word.field (.pack (resultFields opcode result exit target source ++ fields)) low size =
        (opcode + result.code * 0x10 + exit.toNat * 0x80 + target.val * 0x100 + source.val * 0x800 + upper * 0x4000) /
          2 ^ low % 2 ^ size := by
    rw [Word.field_pack (by omega), hpacked, Nat.shiftRight_eq_div_pow, Nat.one_shiftLeft]
  have hcode : Word.field (.pack (resultFields opcode result exit target source ++ fields)) 4 3 = result.code := by
    rw [hfield]
    omega
  have hbit : Word.field (.pack (resultFields opcode result exit target source ++ fields)) 7 1 = exit.toNat := by
    rw [hfield]
    omega
  constructor
  · rw [CodeWord.opcode, hfield]
    omega
  · rw [CodeWord.resultOp, hcode, ResultOp.ofCode_code]
  · rw [CodeWord.exit, Word.bit, hbit]
    cases exit <;> rfl
  · refine Fin.ext ((hfield 8 3).trans ?_)
    omega
  · refine Fin.ext ((hfield 11 3).trans ?_)
    omega
  · rw [hfield]
    omega

namespace CodeWord.Holds
variable {w : CodeWord} {opcode upper : Nat} {result : ResultOp} {exit : Bool} {target source : RegisterId}
  (h : w.Holds opcode result exit target source upper)
include h

theorem field {i n : Nat} (hin : i + n ≤ 18) : w.field (14 + i) n = upper / 2 ^ i % 2 ^ n := by
  rw [← h.upper, w.field_within 14 hin]

theorem sourceB {b : RegisterId} (hb : upper % 8 = b) : w.sourceB = b := by
  refine Fin.ext ((h.field (i := 0) (n := 3) (by decide)).trans ?_)
  omega

theorem aluOp? {op : AluOp} (hop : upper / 8 % 32 = op.code) : w.aluOp? = some op := by
  have hfield : Word.field w 17 5 = op.code := (h.field (i := 3) (by decide)).trans hop
  rw [CodeWord.aluOp?, hfield, AluOp.ofCode?_code]

theorem immediate {immediate : BitVec 18} (himmediate : upper = immediate.toNat) : w.immediate = immediate :=
  BitVec.eq_of_toNat_eq (h.upper.trans himmediate)

theorem bitfield {bits : Bitfield} (hsource : upper / 8 % 32 = bits.sourceBit) (hsize : upper / 0x100 % 32 = bits.size)
    (htarget : upper / 0x2000 % 32 = bits.targetBit) : w.bitfield = bits := by
  obtain ⟨sourceBit, size, targetBit⟩ := bits
  simp only [CodeWord.bitfield, Bitfield.mk.injEq]
  refine ⟨Fin.ext ?_, Fin.ext ?_, Fin.ext ?_⟩
  · exact (h.field (i := 3) (by decide)).trans hsource
  · exact (h.field (i := 8) (by decide)).trans hsize
  · exact (h.field (i := 13) (by decide)).trans htarget

end CodeWord.Holds

section
variable (result : ResultOp) (exit : Bool) (target source : RegisterId)

theorem decode_alu (op : AluOp) (sourceB : RegisterId) :
    CodeWord.decode (.pack (resultFields 0 result exit target source ++ [(14, sourceB.val), (17, op.code)])) =
      ⟨.alu op result target source sourceB, exit⟩ := by
  have hop := op.code_lt
  have hpacked : Word.packed [(14, sourceB.val), (17, op.code)] = (sourceB.val + op.code * 8) * 0x4000 := by
    simp only [Word.packed, Nat.shiftLeft_eq]
    omega
  have hholds := holds_pack (show 0 < 8 by decide) (by omega) hpacked result exit target source
  have hnumber : (sourceB.val + op.code * 8) / 8 % 32 = op.code := by omega
  have hsource : (sourceB.val + op.code * 8) % 8 = sourceB := by omega
  simp only [CodeWord.decode, CodeWord.operation, hholds.opcode, hholds.aluOp? hnumber, hholds.result, hholds.target,
    hholds.source, hholds.sourceB hsource, hholds.exit]

/-- An operation on an immediate is known by its opcode. -/
theorem decode_immediate {opcode : Nat} (hopcode : opcode < 8)
    {make : ResultOp → RegisterId → RegisterId → BitVec 18 → Operation}
    (hmake : ∀ w : CodeWord, w.opcode = opcode → w.operation = make w.resultOp w.target w.sourceA w.immediate)
    (immediate : BitVec 18) :
    CodeWord.decode (.pack (resultFields opcode result exit target source ++ [(14, immediate.toNat)])) =
      ⟨make result target source immediate, exit⟩ := by
  have hpacked : Word.packed [(14, immediate.toNat)] = immediate.toNat * 0x4000 := by
    simp only [Word.packed, Nat.shiftLeft_eq]
    omega
  have hholds := holds_pack hopcode immediate.isLt hpacked result exit target source
  rw [CodeWord.decode, hmake _ hholds.opcode, hholds.result, hholds.target, hholds.source, hholds.immediate rfl,
    hholds.exit]

theorem decode_bitfield {opcode : Nat} (hopcode : opcode < 8)
    {make : ResultOp → RegisterId → RegisterId → RegisterId → Bitfield → Operation}
    (hmake : ∀ w : CodeWord,
      w.opcode = opcode → w.operation = make w.resultOp w.target w.sourceA w.sourceB w.bitfield)
    (sourceB : RegisterId) (bits : Bitfield) :
    CodeWord.decode (.pack (resultFields opcode result exit target source ++ bitfieldFields sourceB bits)) =
      ⟨make result target source sourceB bits, exit⟩ := by
  have hpacked : Word.packed (bitfieldFields sourceB bits) =
      (sourceB.val + bits.sourceBit.val * 8 + bits.size.val * 0x100 + bits.targetBit.val * 0x2000) * 0x4000 := by
    simp only [bitfieldFields, Word.packed, Nat.shiftLeft_eq]
    omega
  have hholds := holds_pack hopcode (by omega) hpacked result exit target source
  have hb : CodeWord.sourceB _ = sourceB := hholds.sourceB (by omega)
  have hbits : CodeWord.bitfield _ = bits := hholds.bitfield (by omega) (by omega) (by omega)
  rw [CodeWord.decode, hmake _ hholds.opcode, hholds.result, hholds.target, hholds.source, hb, hbits, hholds.exit]

end

theorem decode_branch (condition : Condition) (annul exit : Bool) (source : RegisterId) (offset : BitVec 18) :
    CodeWord.decode (Instruction.encode ⟨.branch condition annul source offset, exit⟩) =
      ⟨.branch condition annul source offset, exit⟩ := by
  have hcondition : condition.code < 2 := by cases condition <;> decide
  have hannul := annul.toNat_lt
  have hexit := exit.toNat_lt
  have hpacked : Word.packed [(0, 7), (4, condition.code), (5, annul.toNat), (7, exit.toNat), (11, source.val),
      (14, offset.toNat)] = 7 + condition.code * 0x10 + annul.toNat * 0x20 + exit.toNat * 0x80 + source.val * 0x800 +
        offset.toNat * 0x4000 := by
    simp only [Word.packed, Nat.shiftLeft_eq]
    omega
  have hfield (low size : Nat) :
      Word.field (Instruction.encode ⟨.branch condition annul source offset, exit⟩) low size =
        (7 + condition.code * 0x10 + annul.toNat * 0x20 + exit.toNat * 0x80 + source.val * 0x800 +
          offset.toNat * 0x4000) / 2 ^ low % 2 ^ size := by
    rw [Instruction.encode, Word.field_pack (by omega), hpacked, Nat.shiftRight_eq_div_pow, Nat.one_shiftLeft]
  generalize Instruction.encode ⟨.branch condition annul source offset, exit⟩ = w at hfield
  have hopcode : CodeWord.opcode w = 7 := by
    rw [CodeWord.opcode, hfield]
    omega
  have hcode : Word.field w 4 1 = condition.code := by
    rw [hfield]
    omega
  have hannulBit : Word.field w 5 1 = annul.toNat := by
    rw [hfield]
    omega
  have hexitBit : Word.field w 7 1 = exit.toNat := by
    rw [hfield]
    omega
  have hsource : CodeWord.sourceA w = source := by
    refine Fin.ext ((hfield 11 3).trans ?_)
    omega
  have hoffset : CodeWord.immediate w = offset := by
    refine BitVec.eq_of_toNat_eq ((hfield 14 18).trans ?_)
    omega
  simp only [CodeWord.decode, CodeWord.operation, hopcode, CodeWord.condition, CodeWord.annul, CodeWord.exit, Word.bit,
    hcode, hannulBit, hexitBit, hsource, hoffset]
  cases condition <;> cases annul <;> cases exit <;> rfl

theorem decode_encode {i : Instruction} (h : ∀ word, i.operation ≠ .invalid word) : CodeWord.decode i.encode = i := by
  obtain ⟨operation, exit⟩ := i
  cases operation with
  | alu op result target a b => exact decode_alu result exit target a op b
  | addImmediate result target a immediate =>
    refine decode_immediate result exit target a (show 1 < 8 by decide) (fun w hw => ?_) immediate
    simp only [CodeWord.operation, hw]
  | extractInsert result target a b bits =>
    refine decode_bitfield result exit target a (show 2 < 8 by decide) (fun w hw => ?_) b bits
    simp only [CodeWord.operation, hw]
  | extractShiftLeftImmediate result target a b bits =>
    refine decode_bitfield result exit target a (show 3 < 8 by decide) (fun w hw => ?_) b bits
    simp only [CodeWord.operation, hw]
  | extractShiftLeftRegister result target a b bits =>
    refine decode_bitfield result exit target a (show 4 < 8 by decide) (fun w hw => ?_) b bits
    simp only [CodeWord.operation, hw]
  | read result target a immediate =>
    refine decode_immediate result exit target a (show 5 < 8 by decide) (fun w hw => ?_) immediate
    simp only [CodeWord.operation, hw]
  | branch condition annul source offset => exact decode_branch condition annul exit source offset
  | invalid word => exact absurd rfl (h word)

/-! ### The instruction of a word, written -/

/-- The bits of a code word that its operation does not use: bit 3, and for arithmetic the bits from 22 on, and for a
    branch bit 6 and the bits 8 to 10. -/
def Operation.unusedBits : Operation → Word
  | .alu .. => 0xFFC00008
  | .branch .. => 0x748
  | .invalid _ => 0
  | _ => 8

section
variable (w : CodeWord)

/-- What is left of a word without bit 3 and the bits from `4 + n` on. -/
theorem toNat_and_low {mask : Word} {n : Nat} (hmask : mask.toNat = (2 ^ n - 1) * 2 ^ 4 + ((2 ^ 3 - 1) * 2 ^ 0 + 0)) :
    (w &&& mask).toNat = w.field 0 3 + w.field 4 n * 0x10 := by
  rw [UInt32.toNat_and, hmask, Word.and_field_add _ _ (by decide), Word.and_field_add _ _ (by decide), Nat.and_zero,
    Word.field_eq, Word.field_eq]
  omega

theorem toNat_and_branch :
    (w &&& ~~~0x748).toNat = w.field 0 3 + w.field 4 2 * 0x10 + w.field 7 1 * 0x80 + w.field 11 21 * 0x800 := by
  have hmask : (~~~(0x748 : Word)).toNat =
      (2 ^ 21 - 1) * 2 ^ 11 + ((2 ^ 1 - 1) * 2 ^ 7 + ((2 ^ 2 - 1) * 2 ^ 4 + ((2 ^ 3 - 1) * 2 ^ 0 + 0))) := by decide
  rw [UInt32.toNat_and, hmask]
  simp only [Word.field_eq]
  iterate 4 rw [Word.and_field_add _ _ (by decide)]
  rw [Nat.and_zero]
  omega

theorem packed_resultFields (fields : List (Nat × Nat)) :
    Word.packed (resultFields w.opcode w.resultOp w.exit w.target w.sourceA ++ fields) =
      w.field 0 3 + w.field 4 10 * 0x10 + Word.packed fields := by
  simp only [resultFields, List.cons_append, List.nil_append, Word.packed, Nat.shiftLeft_eq, CodeWord.opcode,
    CodeWord.resultOp, ResultOp.code_ofCode, CodeWord.exit, Word.toNat_bit, CodeWord.target, CodeWord.sourceA,
    Word.field_eq]
  omega

/-- A word packed from the fields of `w` that are in use. -/
theorem pack_eq_and {fields : List (Nat × Nat)} {mask : Word} (h : Word.packed fields = (w &&& mask).toNat) :
    Word.pack fields = w &&& mask := by
  rw [Word.pack, h, UInt32.ofNat_toNat]

theorem pack_immediate :
    Word.pack (resultFields w.opcode w.resultOp w.exit w.target w.sourceA ++ [(14, w.immediate.toNat)]) =
      w &&& ~~~8 := by
  refine pack_eq_and w ?_
  have himmediate : w.immediate.toNat = w.field 14 18 := rfl
  rw [packed_resultFields, toNat_and_low w (n := 28) rfl, himmediate]
  simp only [Word.packed, Nat.shiftLeft_eq, Word.field_eq]
  omega

theorem pack_bitfield :
    Word.pack (resultFields w.opcode w.resultOp w.exit w.target w.sourceA ++ bitfieldFields w.sourceB w.bitfield) =
      w &&& ~~~8 := by
  refine pack_eq_and w ?_
  rw [packed_resultFields, toNat_and_low w (n := 28) rfl]
  simp only [bitfieldFields, CodeWord.sourceB, CodeWord.bitfield, Word.packed, Nat.shiftLeft_eq, Word.field_eq]
  have hlt := w.toNat_lt
  omega

theorem pack_alu {op : AluOp} (hop : w.aluOp? = some op) :
    Word.pack (resultFields w.opcode w.resultOp w.exit w.target w.sourceA ++ [(14, w.sourceB.val), (17, op.code)]) =
      w &&& ~~~0xFFC00008 := by
  refine pack_eq_and w ?_
  rw [packed_resultFields, toNat_and_low w (n := 18) rfl, AluOp.code_of_ofCode? hop]
  simp only [CodeWord.sourceB, Word.packed, Nat.shiftLeft_eq, Word.field_eq]
  omega

theorem pack_branch : Word.pack [(0, w.opcode), (4, w.condition.code), (5, w.annul.toNat), (7, w.exit.toNat),
    (11, w.sourceA.val), (14, w.immediate.toNat)] = w &&& ~~~0x748 := by
  refine pack_eq_and w ?_
  have hcondition : w.condition.code = w.field 4 1 := by
    rw [← Word.toNat_bit, CodeWord.condition]
    cases w.bit 4 <;> rfl
  have himmediate : w.immediate.toNat = w.field 14 18 := rfl
  rw [toNat_and_branch, hcondition, himmediate]
  simp only [CodeWord.annul, CodeWord.exit, Word.toNat_bit, CodeWord.opcode, CodeWord.sourceA, Word.packed,
    Nat.shiftLeft_eq, Word.field_eq]
  omega

theorem opcode_cases : w.opcode = 0 ∨ w.opcode = 1 ∨ w.opcode = 2 ∨ w.opcode = 3 ∨ w.opcode = 4 ∨ w.opcode = 5 ∨
    w.opcode = 6 ∨ w.opcode = 7 := by
  have hlt : w.opcode < 8 := w.field_lt 0 3
  omega

theorem encode_decode : (CodeWord.decode w).encode = w &&& ~~~(CodeWord.decode w).operation.unusedBits := by
  have hinvalid : Instruction.encode ⟨.invalid w, w.exit⟩ = w &&& ~~~(Operation.invalid w).unusedBits := by
    simp [Instruction.encode, Operation.unusedBits]
  have himmediate := pack_immediate w
  have hbitfield := pack_bitfield w
  have hbranch := pack_branch w
  obtain h | h | h | h | h | h | h | h := opcode_cases w <;> rw [h] at himmediate hbitfield hbranch <;>
    simp only [CodeWord.decode, CodeWord.operation, h]
  · cases hop : w.aluOp? with
    | some op =>
      have halu := pack_alu w hop
      rw [h] at halu
      exact halu
    | none => exact hinvalid
  · exact himmediate
  · exact hbitfield
  · exact hbitfield
  · exact hbitfield
  · exact himmediate
  · exact hinvalid
  · exact hbranch

/-- A word has no meaning if its opcode has none, or else the number of its arithmetic operation. -/
theorem operation_eq_invalid_iff {word : CodeWord} : w.operation = .invalid word ↔
    word = w ∧ (w.opcode = 6 ∨ w.opcode = 0 ∧ w.field 17 5 ∉ [0, 1, 2, 3, 8, 9, 10, 11, 12]) := by
  rw [← AluOp.ofCode?_eq_none_iff, ← CodeWord.aluOp?]
  obtain h | h | h | h | h | h | h | h := opcode_cases w
  · cases hop : w.aluOp? <;> simp [CodeWord.operation, h, hop, eq_comm]
  all_goals simp [CodeWord.operation, h, eq_comm]

/-- The immediate is the upper part of the word, with its sign. -/
theorem toInt_immediate : w.immediate.toInt = w.toBitVec.toInt / 0x4000 := by
  have hnat : w.immediate.toNat = w.toNat / 0x4000 % 0x40000 := w.field_eq 14 18
  have hlt := w.toNat_lt
  rw [BitVec.toInt_eq_toNat_cond, BitVec.toInt_eq_toNat_cond, hnat]
  show _ = (if 2 * w.toNat < _ then (w.toNat : Int) else (w.toNat : Int) - _) / _
  split <;> split <;> omega

end

/-- Every instruction that has a meaning is read from its word as it was written, an immediate with its sign. What is
    read from a word is written as that word, but that the bits which its operation does not use are clear. A word is
    read as itself if its opcode has no meaning, or else the number of its arithmetic operation, and only then. -/
theorem codeWord_roundTrip :
    (∀ i : Instruction, (∀ word, i.operation ≠ .invalid word) → CodeWord.decode i.encode = i) ∧
    (∀ w : CodeWord, w.immediate.toInt = w.toBitVec.toInt / 0x4000) ∧
    (∀ w : CodeWord, (CodeWord.decode w).encode = w &&& ~~~(CodeWord.decode w).operation.unusedBits) ∧
    ∀ w word : CodeWord, (CodeWord.decode w).operation = .invalid word ↔
      word = w ∧ (w.opcode = 6 ∨ w.opcode = 0 ∧ w.field 17 5 ∉ [0, 1, 2, 3, 8, 9, 10, 11, 12]) :=
  ⟨fun _ h => decode_encode h, toInt_immediate, encode_decode, fun w _ => operation_eq_invalid_iff w⟩

/-- The branch to the farthest place behind it, and a branch with every bit set. -/
theorem codeWord_roundTrip_branch :
    let i : Instruction := ⟨.branch .notZero true 3 (.ofInt 18 (-0x20000)), true⟩
    (∀ word, i.operation ≠ .invalid word) ∧ CodeWord.decode i.encode = i ∧ i.encode = 0x800018B7 ∧
      (CodeWord.decode 0xFFFFFFFF).encode = 0xFFFFF8B7 := by
  intro i
  obtain ⟨hdecode, -, hencode, -⟩ := codeWord_roundTrip
  refine ⟨nofun, hdecode i nofun, by decide, (hencode 0xFFFFFFFF).trans ?_⟩
  decide

end Mme
end Maxwell
