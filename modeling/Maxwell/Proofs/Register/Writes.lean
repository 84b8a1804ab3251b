import Maxwell.Register.File

/-! Files after lists of writes. The words that a list of writes stages in one file, brought to another file by the same
    writes, leave it as the writes themselves do. In between the two need not agree: the word that is staged last is
    brought already by the first write. -/

namespace Maxwell.RegisterFile

variable {o : Nat} {writes : List (Nat × Word)}

/-- The file after writes of words to registers. -/
def writeAll (file : RegisterFile) (writes : List (Nat × Word)) : RegisterFile :=
  writes.foldl (fun file w => file.write w.1 w.2) file

theorem read_writeAll_of_ne (h : ∀ w ∈ writes, w.1 ≠ o) (file : RegisterFile) :
    (file.writeAll writes).read o = file.read o := by
  induction writes generalizing file with
  | nil => rfl
  | cons w writes ih =>
    have hw : w.1 ≠ o := h w List.mem_cons_self
    refine (ih (fun w hw => h w (List.mem_cons_of_mem _ hw)) _).trans ?_
    rw [read_write, if_neg (fun hmethod => hw hmethod.1)]

theorem shadowMode_write_of_ne {offset : Nat} (h : offset ≠ 0x49) (file : RegisterFile) (value : Word) :
    (file.write offset value).shadowMode = file.shadowMode :=
  congrArg ShadowMode.ofWord ((read_write file offset 0x49 value).trans (if_neg fun heq => h heq.1))

/-! ### Reset values -/

theorem read_reset_of_ne (h : ∀ w ∈ resetValues, w.1 ≠ o) : reset.read o = 0 :=
  (read_writeAll_of_ne h zero).trans (by simp [zero, read])

/-- The shadow mode is the last of the reset values. -/
theorem shadowMode_reset : reset.shadowMode = .passthrough := by
  have hread : reset.read 0x49 = ShadowMode.passthrough.toWord := by
    rw [reset, resetValues, List.foldl_append]
    simp only [List.foldl_cons, List.foldl_nil]
    rw [read_write, if_pos (by decide)]
  rw [shadowMode, show Field.mmeShadowRamControl.start = 0x49 from rfl, hread, ShadowMode.ofWord_toWord]

/-! ### Live registers -/

/-- The live copy after a word landed. The fourth firmware call acknowledges itself. -/
def land (live : RegisterFile) (w : Nat × Word) : RegisterFile :=
  if w.1 = 0x8C4 then (live.write w.1 w.2).write 0xD00 1 else live.write w.1 w.2

def landAll (live : RegisterFile) (writes : List (Nat × Word)) : RegisterFile := writes.foldl land live

theorem read_land {w : Nat × Word} (hw : w.1 < registerCount) (live : RegisterFile) :
    (live.land w).read o = if w.1 = 0x8C4 ∧ o = 0xD00 then 1 else if w.1 = o then w.2 else live.read o := by
  unfold land
  grind [read_write]

/-- Whether one of the writes decides the word of a register, whatever was there. -/
def Decides (writes : List (Nat × Word)) (o : Nat) : Prop := ∃ w ∈ writes, w.1 = o ∨ w.1 = 0x8C4 ∧ o = 0xD00

/-- The writes with the words that a file has for them. -/
def replay (shadow : RegisterFile) (writes : List (Nat × Word)) : List (Nat × Word) :=
  writes.map fun w => (w.1, shadow.read w.1)

/-- Staged words make a file agree with one that got the writes at once, wherever the two agreed before or a write
    decides. -/
theorem read_landAll_replay (hfile : ∀ w ∈ writes, w.1 < registerCount) (shadow : RegisterFile)
    {live live' : RegisterFile} (h : Decides writes o ∨ live'.read o = live.read o) :
    (live'.landAll ((shadow.writeAll writes).replay writes)).read o = (live.landAll writes).read o := by
  -- The last write that decides the word makes the two agree, and the writes after it keep them so.
  induction writes generalizing shadow live live' with
  | nil =>
    rcases h with ⟨w, hw, -⟩ | h
    · cases hw
    · exact h
  | cons w writes ih =>
    have hw : w.1 < registerCount := hfile w List.mem_cons_self
    refine ih (fun w hw => hfile w (List.mem_cons_of_mem _ hw)) (shadow.write w.1 w.2) ?_
    by_cases hlater : Decides writes o
    · exact Or.inl hlater
    refine Or.inr ?_
    rw [read_land (by exact hw), read_land hw]
    dsimp only
    by_cases hack : w.1 = 0x8C4 ∧ o = 0xD00
    · rw [if_pos hack, if_pos hack]
    rw [if_neg hack, if_neg hack]
    by_cases hown : w.1 = o
    · -- No later write goes to the register, so the word is staged as it was written.
      have hlast : ∀ v ∈ writes, v.1 ≠ w.1 := fun v hv hmethod => hlater ⟨v, hv, Or.inl (hmethod.trans hown)⟩
      rw [if_pos hown, if_pos hown]
      show ((shadow.write w.1 w.2).writeAll writes).read w.1 = w.2
      rw [read_writeAll_of_ne hlast, read_write, if_pos ⟨rfl, hw⟩]
    · rw [if_neg hown, if_neg hown]
      rcases h with ⟨v, hv, hdecides⟩ | h
      · rcases List.mem_cons.mp hv with rfl | hv
        · exact absurd hdecides (by simp [hown, hack])
        · exact absurd ⟨v, hv, hdecides⟩ hlater
      · exact h

end Maxwell.RegisterFile
