import Maxwell.Proofs.Register.Names
import Maxwell.Proofs.Register.Writes
import Maxwell.Replay.Run

/-! The register dump loses nothing. A line tells its register and its word, and a register has a line just when it is
    not at its reset value, so the lines and the reset values give back every register. -/

namespace Maxwell

/-! ### Files told by their registers -/

theorem RegisterFile.eq_of_read {file other : RegisterFile}
    (h : ∀ offset < registerCount, file.read offset = other.read offset) : file = other := by
  obtain ⟨words⟩ := file
  obtain ⟨words'⟩ := other
  congr 1
  refine Vector.ext fun offset hoffset => ?_
  have hread := h offset hoffset
  rwa [read, dif_pos hoffset, read, dif_pos hoffset] at hread

theorem RegisterFile.mem_changes {file other : RegisterFile} {offset : Nat} {value : Word} :
    (offset, value) ∈ file.changes other ↔
      offset < registerCount ∧ file.read offset = value ∧ value ≠ other.read offset := by
  rw [changes, List.mem_filterMap]
  constructor
  · rintro ⟨i, hi, h⟩
    split at h
    · cases h
    · next hne =>
      cases h
      exact ⟨List.mem_range.mp hi, rfl, hne⟩
  · rintro ⟨hoffset, rfl, hne⟩
    exact ⟨offset, List.mem_range.mpr hoffset, if_neg hne⟩

namespace Replay
open Blank Numeral

variable {file other : RegisterFile} {offset offset' : Nat} {value value' : Word}

/-! ### Lines -/

theorem toList_registerLine (offset : Nat) (value : Word) :
    (registerLine offset value).toList = (describe offset).toList ++
      (List.replicate (32 - (describe offset).length) ' ' ++ " 0x".toList ++ (hex value.toNat 8).toList) := by
  simp only [registerLine, String.toList_append, String.toList_ofList, List.append_assoc]

/-- The name of a register ends at the first blank. -/
theorem registerLine_inj (h : registerLine offset value = registerLine offset' value') :
    offset = offset' ∧ value = value' := by
  have hname (offset : Nat) : ∀ c ∈ (describe offset).toList, (!isBlank c) = true := fun c hc => by
    rw [isBlank_of_mem_describe hc, Bool.not_false]
  have hrest (count : Nat) (cs : List Char) :
      ∀ c ∈ (List.replicate count ' ' ++ " 0x".toList ++ cs).head?, (!isBlank c) = false := by
    cases count with
    | zero =>
      rintro c ⟨⟩
      decide
    | succ count =>
      rintro c ⟨⟩
      decide
  have htext := congrArg String.toList h
  rw [toList_registerLine, toList_registerLine] at htext
  obtain ⟨hdescribe, hword⟩ := append_inj_of_run (hname offset) (hrest _ _) (hname offset') (hrest _ _) htext
  obtain rfl := describe_inj (String.toList_inj.mp hdescribe)
  exact ⟨rfl, UInt32.toNat_inj.mp (hex_inj (List.append_cancel_left hword))⟩

theorem lineBreak_not_mem_registerLine (offset : Nat) (value : Word) : '\n' ∉ (registerLine offset value).toList := by
  rw [toList_registerLine]
  intro hmem
  rcases List.mem_append.mp hmem with hmem | hmem
  · exact absurd (isBlank_of_mem_describe hmem) (by decide)
  rcases List.mem_append.mp hmem with hmem | hmem
  · rcases List.mem_append.mp hmem with hmem | hmem
    · exact absurd (List.eq_of_mem_replicate hmem) (by decide)
    · exact absurd hmem (by decide)
  · exact absurd (isBlank_of_mem_figures ((denotes_hex _ _).mem_figures hmem)) (by decide)

/-! ### Dumps -/

theorem registerLine_mem_dump :
    registerLine offset value ∈ dump file ↔
      offset < registerCount ∧ file.read offset = value ∧ value ≠ RegisterFile.reset.read offset := by
  rw [dump, List.mem_map, ← RegisterFile.mem_changes]
  constructor
  · rintro ⟨⟨offset', value'⟩, hmem, hline⟩
    obtain ⟨rfl, rfl⟩ := registerLine_inj hline
    exact hmem
  · exact fun hmem => ⟨_, hmem, rfl⟩

theorem read_eq_iff_dump (hoffset : offset < registerCount) :
    file.read offset = value ↔
      registerLine offset value ∈ dump file ∨
      value = RegisterFile.reset.read offset ∧ ∀ word, registerLine offset word ∉ dump file := by
  simp only [registerLine_mem_dump]
  constructor
  · intro hread
    by_cases hreset : value = RegisterFile.reset.read offset
    · exact Or.inr ⟨hreset, fun word h => h.2.2 (h.2.1.symm.trans (hread.trans hreset))⟩
    · exact Or.inl ⟨hoffset, hread, hreset⟩
  · rintro (h | ⟨rfl, hnone⟩)
    · exact h.2.1
    · by_contra hne
      exact hnone _ ⟨hoffset, rfl, hne⟩

theorem dump_inj (h : dump file = dump other) : file = other := by
  refine RegisterFile.eq_of_read fun offset hoffset => ?_
  rw [read_eq_iff_dump hoffset, h, ← read_eq_iff_dump hoffset]

/-- A dump tells a file from every other. The word of a register is the one in its line, or its reset value if it has no
    line, and the lines stay apart when they are printed. -/
theorem dump_lossless :
    (∀ file other, dump file = dump other ↔ file = other) ∧
    (∀ file offset value, offset < registerCount →
      (file.read offset = value ↔
        registerLine offset value ∈ dump file ∨
        value = RegisterFile.reset.read offset ∧ ∀ word, registerLine offset word ∉ dump file)) ∧
    ∀ file, ∀ line ∈ dump file, '\n' ∉ line.toList := by
  refine ⟨fun _ _ => ⟨dump_inj, congrArg dump⟩, fun _ _ _ => read_eq_iff_dump, fun file line hline => ?_⟩
  obtain ⟨⟨offset, value⟩, -, rfl⟩ := List.mem_map.mp hline
  exact lineBreak_not_mem_registerLine offset value

/-- The width of a render target. -/
theorem dump_lossless_width :
    let file := RegisterFile.reset.write 0x222 640
    let line := "renderTargets[2]+2               0x00000280"
    0x222 < registerCount ∧ file.read 0x222 = 640 ∧ RegisterFile.reset.read 0x222 = 0 ∧
    registerLine 0x222 640 = line ∧ line ∈ dump file ∧ '\n' ∉ line.toList ∧ dump file ≠ dump .reset := by
  intro file line
  have hoffset : 0x222 < registerCount := by decide
  have hread : file.read 0x222 = 640 := by rw [RegisterFile.read_write, if_pos ⟨rfl, hoffset⟩]
  have hreset : RegisterFile.reset.read 0x222 = 0 := RegisterFile.read_reset_of_ne (by decide +kernel)
  have htext : registerLine 0x222 640 = line := by decide +kernel
  obtain ⟨hdump, hlines, hbreaks⟩ := dump_lossless
  have hline : line ∈ dump file := by
    rcases (hlines file 0x222 640 hoffset).mp hread with hline | ⟨hword, -⟩
    · exact htext ▸ hline
    · rw [hreset] at hword
      exact absurd hword (by decide)
  refine ⟨hoffset, hread, hreset, htext, hline, hbreaks file line hline, fun h => ?_⟩
  rw [(hdump _ _).mp h, hreset] at hread
  exact absurd hread (by decide)

end Replay

end Maxwell
