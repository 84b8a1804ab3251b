import Maxwell.Proofs.Text.Numeral
import Maxwell.Proofs.Text.Runs
import Maxwell.Replay.Configuration

/-! The numbers of settings. A text is read as the number it means, if that is below `2 ^ 64`, and a document sets a
    number to what the text of its own key means, if that is in range. So no document makes a number of the settings
    zero. -/

namespace Maxwell.Settings
open Blank Numeral

variable {cs : List Char} {text : String} {m n : Nat}

/-! ### Numbers as texts -/

/-- `cs` spells `n`: in decimal, or in hexadecimal after `0x`, with a plus sign or none before the digits. -/
inductive Spells : List Char → Nat → Prop
  | decimal {cs : List Char} {n : Nat} (h : DenotesUnsigned 10 cs n) : Spells cs n
  | hexadecimal {x : Char} {cs : List Char} {n : Nat} (hx : x = 'x' ∨ x = 'X') (h : DenotesUnsigned 16 cs n) :
    Spells ('0' :: x :: cs) n

/-- `text` means `n`: it spells the number, with blanks around it or none. -/
def Means (text : String) (n : Nat) : Prop := ∃ cs, Trimmed text.toList cs ∧ Spells cs n

theorem spells_hexadecimal_iff {x : Char} (hx : x = 'x' ∨ x = 'X') :
    Spells ('0' :: x :: cs) n ↔ DenotesUnsigned 16 cs n := by
  refine ⟨fun h => ?_, .hexadecimal hx⟩
  cases h with
  | decimal h =>
    -- The letter is no digit, so this is no decimal numeral.
    cases h with
    | plain h =>
      have hdigit : x ∈ figures := h.mem_figures (List.mem_cons_of_mem _ List.mem_cons_self)
      rcases hx with rfl | rfl
      · exact absurd hdigit (by decide)
      · exact absurd hdigit (by decide)
  | hexadecimal hx h => exact h

theorem Spells.unique (hm : Spells cs m) (hn : Spells cs n) : m = n := by
  cases hm with
  | decimal hm =>
    cases hn with
    | decimal hn => exact hm.unique hn
    | hexadecimal hx hn => exact ((spells_hexadecimal_iff hx).mp (.decimal hm)).unique hn
  | hexadecimal hx hm => exact hm.unique ((spells_hexadecimal_iff hx).mp hn)

theorem means_iff : Means text n ↔ Spells (trim text.toList) n := by
  constructor
  · rintro ⟨cs, htrim, h⟩
    rwa [trim_eq_iff.mpr htrim]
  · exact fun h => ⟨_, trimmed_trim _, h⟩

theorem Means.unique (hm : Means text m) (hn : Means text n) : m = n := (means_iff.mp hm).unique (means_iff.mp hn)

theorem number?_eq_some_iff : number? text = some n ↔ Means text n ∧ n < 0x10000000000000000 := by
  rw [means_iff, number?]
  split
  · next cs hcs => rw [hcs, unsigned?_eq_some_iff, spells_hexadecimal_iff (Or.inl rfl)]
  · next cs hcs => rw [hcs, unsigned?_eq_some_iff, spells_hexadecimal_iff (Or.inr rfl)]
  · next hlower hupper =>
    rw [unsigned?_eq_some_iff]
    refine and_congr_left fun _ => ⟨.decimal, fun h => ?_⟩
    generalize trim text.toList = cs at h hlower hupper
    cases h with
    | decimal h => exact h
    | hexadecimal hx h =>
      rcases hx with rfl | rfl
      · exact absurd rfl (hlower _)
      · exact absurd rfl (hupper _)

/-- No character of a number is blank. -/
theorem Spells.isBlank_eq_false (h : Spells cs n) {c : Char} (hc : c ∈ cs) : isBlank c = false := by
  have hunsigned (hc : c = '+' ∨ c ∈ figures) : isBlank c = false := by
    rcases hc with rfl | hc
    · decide
    · exact isBlank_of_mem_figures hc
  cases h with
  | decimal h => exact hunsigned (h.mem_figures hc)
  | hexadecimal hx h =>
    rcases List.mem_cons.mp hc with rfl | hc
    · decide
    rcases List.mem_cons.mp hc with rfl | hc
    · rcases hx with rfl | rfl
      · decide
      · decide
    · exact hunsigned (h.mem_figures hc)

theorem means_of_spells (h : Spells cs n) : Means (.ofList cs) n := by
  refine ⟨cs, ⟨⟨[], [], by simp, by simp, by simp⟩, fun c hc => ?_, fun c hc => ?_⟩, h⟩
  · exact h.isBlank_eq_false (List.mem_of_head? hc)
  · exact h.isBlank_eq_false (List.mem_of_getLast? hc)

theorem means_decimal (n : Nat) : Means (decimal n) n := by
  have h : Spells (decimal n).toList n := .decimal (.plain (denotes_decimal n))
  rw [← String.ofList_toList (s := decimal n)]
  exact means_of_spells h

/-- A hexadecimal numeral may have zeros in front and letters of either case, in the mark before it, too. -/
theorem means_hex {x : Char} (hx : x = 'x' ∨ x = 'X') {width : Nat} (h : cs.map Char.toUpper = (hex n width).toList) :
    Means (.ofList ('0' :: x :: cs)) n := by
  have hcs : Denotes 16 (cs.map Char.toUpper) n := h ▸ denotes_hex n width
  exact means_of_spells (.hexadecimal hx (.plain hcs.of_map_toUpper))

/-! ### Numbers in range -/

theorem stepLimit?_eq_some_iff : stepLimit? text = some n ↔ Means text n ∧ 0 < n ∧ n < 0x100000000 := by
  rw [stepLimit?, Option.filter_eq_some_iff, number?_eq_some_iff]
  simp only [Bool.and_eq_true, decide_eq_true_iff]
  constructor
  · rintro ⟨⟨h, -⟩, hrange⟩
    exact ⟨h, hrange⟩
  · rintro ⟨h, hpos, hbound⟩
    exact ⟨⟨h, by omega⟩, hpos, hbound⟩

theorem memorySize?_eq_some_iff : memorySize? text = some n ↔ Means text n ∧ 0 < n ∧ n < 0x10000000000000000 := by
  rw [memorySize?, Option.filter_eq_some_iff, number?_eq_some_iff, decide_eq_true_iff, and_right_comm, and_assoc]

/-! ### Documents -/

/-- What the text of a key, if a document has one, makes of a number that was `old`. A number from one on and below the
    bound that the text means takes its place, and any other text leaves it as it was. -/
inductive Laid (bound old : Nat) : Option String → Nat → Prop
  | absent : Laid bound old none old
  | set {text : String} {n : Nat} (h : Means text n) (hpos : 0 < n) (hbound : n < bound) : Laid bound old (some text) n
  | ignored {text : String} (h : ∀ n, Means text n → ¬(0 < n ∧ n < bound)) : Laid bound old (some text) old

namespace Laid

variable {bound old new : Nat} {text? : Option String}

/-- The number does not depend on anything else in the document. -/
theorem unique {other : Nat} (hnew : Laid bound old text? new) (hother : Laid bound old text? other) : new = other := by
  cases hnew with
  | absent => cases hother with | absent => rfl
  | set h hpos hbound =>
    cases hother with
    | set h' _ _ => exact h.unique h'
    | ignored h' => exact absurd ⟨hpos, hbound⟩ (h' _ h)
  | ignored h =>
    cases hother with
    | set h' hpos hbound => exact absurd ⟨hpos, hbound⟩ (h _ h')
    | ignored _ => rfl

theorem inRange (h : Laid bound old text? new) (hold : 0 < old ∧ old < bound) : 0 < new ∧ new < bound := by
  cases h with
  | absent | ignored => exact hold
  | set h hpos hbound => exact ⟨hpos, hbound⟩

theorem of_read? {read? : String → Option Nat}
    (hread : ∀ text n, read? text = some n ↔ Means text n ∧ 0 < n ∧ n < bound) (old : Nat)
    (text? : Option String) : Laid bound old text? ((text?.bind read?).getD old) := by
  cases text? with
  | none => exact .absent
  | some text =>
    rw [Option.bind_some]
    cases h : read? text with
    | none =>
      refine .ignored fun n hmeans hrange => ?_
      rw [(hread text n).mpr ⟨hmeans, hrange⟩] at h
      cases h
    | some n =>
      obtain ⟨hmeans, hpos, hbound⟩ := (hread text n).mp h
      exact .set hmeans hpos hbound

end Laid

theorem laid_stepLimit (s : Settings) (ini : Ini) :
    Laid 0x100000000 s.macroStepLimit (ini.get? "Gpu" "macro_step_limit") (s.overlay ini).macroStepLimit :=
  .of_read? (fun _ _ => stepLimit?_eq_some_iff) _ _

theorem laid_memorySize (s : Settings) (ini : Ini) :
    Laid 0x10000000000000000 s.memorySize (ini.get? "Gpu" "memory_size") (s.overlay ini).memorySize :=
  .of_read? (fun _ _ => memorySize?_eq_some_iff) _ _

/-- The numbers fit the words that hold them, and none is zero. -/
structure InRange (s : Settings) : Prop where
  macroStepLimit : 0 < s.macroStepLimit ∧ s.macroStepLimit < 0x100000000
  memorySize : 0 < s.memorySize ∧ s.memorySize < 0x10000000000000000

theorem inRange_default : InRange {} := ⟨by decide, by decide⟩

theorem InRange.overlay {s : Settings} (h : s.InRange) (ini : Ini) : (s.overlay ini).InRange :=
  ⟨(laid_stepLimit s ini).inRange h.macroStepLimit, (laid_memorySize s ini).inRange h.memorySize⟩

theorem InRange.foldl_overlay {s : Settings} (h : s.InRange) (inis : List Ini) :
    (inis.foldl Settings.overlay s).InRange := by
  induction inis generalizing s with
  | nil => exact h
  | cons ini inis ih => exact ih (h.overlay ini)

theorem inRange_configure (source : Option Replay.Source) : (Replay.configure source).1.InRange := by
  unfold Replay.configure
  split
  · exact inRange_default
  · split
    · split
      · exact inRange_default
      · exact inRange_default.overlay _
    · exact inRange_default

/-- Numbers are taken as they are meant. What a text is read as is the number it means, if that fits 64 bits, and all
    such numbers can be written. A document sets the step limit and the memory size to what their own texts mean, if it
    is in range, and nothing else in the document matters to them. From the defaults on they stay in range. -/
theorem numbers_as_meant :
    (∀ text n, number? text = some n ↔ Means text n ∧ n < 0x10000000000000000) ∧
    (∀ n < 0x10000000000000000, number? (decimal n) = some n ∧
      ∀ x, x = 'x' ∨ x = 'X' → ∀ width cs, cs.map Char.toUpper = (hex n width).toList →
        number? (.ofList ('0' :: x :: cs)) = some n) ∧
    (∀ s ini, Laid 0x100000000 s.macroStepLimit (ini.get? "Gpu" "macro_step_limit") (overlay s ini).macroStepLimit ∧
      Laid 0x10000000000000000 s.memorySize (ini.get? "Gpu" "memory_size") (overlay s ini).memorySize) ∧
    (∀ s other ini ini', s.macroStepLimit = other.macroStepLimit →
      ini.get? "Gpu" "macro_step_limit" = ini'.get? "Gpu" "macro_step_limit" →
      (overlay s ini).macroStepLimit = (overlay other ini').macroStepLimit) ∧
    (∀ s other ini ini', s.memorySize = other.memorySize →
      ini.get? "Gpu" "memory_size" = ini'.get? "Gpu" "memory_size" →
      (overlay s ini).memorySize = (overlay other ini').memorySize) ∧
    (∀ inis : List Ini, (inis.foldl overlay {}).InRange) ∧
    ∀ source, (Replay.configure source).1.InRange := by
  refine ⟨fun _ _ => number?_eq_some_iff, fun n hn => ⟨?_, fun x hx width cs hcs => ?_⟩,
    fun s ini => ⟨laid_stepLimit s ini, laid_memorySize s ini⟩, fun s other ini ini' hold htext => ?_,
    fun s other ini ini' hold htext => ?_, inRange_default.foldl_overlay, inRange_configure⟩
  · exact number?_eq_some_iff.mpr ⟨means_decimal n, hn⟩
  · exact number?_eq_some_iff.mpr ⟨means_hex hx hcs, hn⟩
  · have h := laid_stepLimit other ini'
    rw [← hold, ← htext] at h
    exact (laid_stepLimit s ini).unique h
  · have h := laid_memorySize other ini'
    rw [← hold, ← htext] at h
    exact (laid_memorySize s ini).unique h

/-- The greatest numbers that fit, and the first that does not. -/
theorem numbers_as_meant_greatest :
    let cs := "FFffFFffFFffFFff".toList
    let ini : Ini :=
      ⟨[], [⟨"Gpu", [("memory_size", "0x10000000000000000"), ("macro_step_limit", "\t0X+fFfFfFfF ")]⟩]⟩
    0xFFFFFFFFFFFFFFFF < 0x10000000000000000 ∧ cs.map Char.toUpper = (hex 0xFFFFFFFFFFFFFFFF 1).toList ∧
    number? (decimal 0xFFFFFFFFFFFFFFFF) = some 0xFFFFFFFFFFFFFFFF ∧
    number? (.ofList ('0' :: 'X' :: cs)) = some 0xFFFFFFFFFFFFFFFF ∧
    ini.get? "Gpu" "memory_size" = some "0x10000000000000000" ∧
    (overlay {} ini).macroStepLimit = 0xFFFFFFFF ∧ (overlay {} ini).memorySize = 0x4000000 := by
  intro cs ini
  have hcs : cs.map Char.toUpper = (hex 0xFFFFFFFFFFFFFFFF 1).toList := by simp [cs, hex, digits, digit]
  obtain ⟨hread, hwritten, hlaid, -⟩ := numbers_as_meant
  obtain ⟨hdecimal, hhex⟩ := hwritten 0xFFFFFFFFFFFFFFFF (by decide)
  obtain ⟨hlimit, hsize⟩ := hlaid {} ini
  refine ⟨by decide, hcs, hdecimal, hhex 'X' (Or.inr rfl) 1 cs hcs, rfl, ?_, ?_⟩
  · have hmeans : Means "\t0X+fFfFfFfF " 0xFFFFFFFF := ((hread _ _).mp (by decide)).1
    exact hlimit.unique (.set hmeans (by decide) (by decide))
  · refine hsize.unique (.ignored fun n hmeans hrange => ?_)
    have hn : number? "0x10000000000000000" = some n := (hread _ n).mpr ⟨hmeans, hrange.2⟩
    have hnone : number? "0x10000000000000000" = none := by decide
    rw [hnone] at hn
    cases hn

end Maxwell.Settings
