import Mathlib.Data.List.Nodup
import Maxwell.Proofs.Register.Partition
import Maxwell.Proofs.Text.Numeral
import Maxwell.Proofs.Text.Runs

/-! The names of registers. A name begins with a run of letters and points, which tells the field, and what follows the
    run tells the element and the word. So no two registers have one name, and no name has a blank in it. -/

namespace Maxwell
open Blank Numeral

variable {f g : Field} {offset other index index' within within' : Nat}

/-! ### Names of fields -/

/-- A letter or a point. -/
def isNameChar (c : Char) : Bool := c.isAlpha || c == '.'

theorem isBlank_of_isNameChar {c : Char} (h : isNameChar c = true) : isBlank c = false := by
  have hc : c ≤ 'z' := by
    rcases (Bool.or_eq_true _ _).mp h with hletter | hpoint
    · rcases (Bool.or_eq_true _ _).mp hletter with hupper | hlower
      · have hc : c ≤ 'Z' := (of_decide_eq_true hupper).2
        exact Char.le_trans hc (by decide)
      · exact of_decide_eq_true ((Bool.and_eq_true _ _).mp hlower).2
    · rw [beq_iff_eq.mp hpoint]
      decide
  have hblank := of_forall_ofNat (p := fun c => isNameChar c = true → isBlank c = false) (by decide) hc
  exact hblank h

theorem isNameChar_of_mem {c : Char} (hf : f ∈ layout) (hc : c ∈ f.name.toList) : isNameChar c = true := by
  have h : ∀ f ∈ layout, f.name.toList.all isNameChar = true := by decide +kernel
  exact List.all_eq_true.mp (h f hf) c hc

theorem eq_of_name_eq (hf : f ∈ layout) (hg : g ∈ layout) (h : f.name = g.name) : f = g := by
  have hnames : (layout.map Field.name).Nodup := by decide +kernel
  exact List.inj_on_of_nodup_map hnames hf hg h

/-! ### Places in fields -/

theorem decimal_append_inj {m n : Nat} {xs ys : List Char} (hxs : ∀ c ∈ xs.head?, c ∉ figures)
    (hys : ∀ c ∈ ys.head?, c ∉ figures) (h : (decimal m).toList ++ xs = (decimal n).toList ++ ys) :
    m = n ∧ xs = ys := by
  have hdigits (n : Nat) : ∀ c ∈ (decimal n).toList, decide (c ∈ figures) = true := fun c hc =>
    decide_eq_true ((denotes_decimal n).mem_figures hc)
  obtain ⟨hmn, hrest⟩ := append_inj_of_run (hdigits m) (fun c hc => decide_eq_false (hxs c hc)) (hdigits n)
    (fun c hc => decide_eq_false (hys c hc)) h
  exact ⟨decimal_inj hmn, hrest⟩

namespace Field

/-- The index of an element, in the name of a register of an array. -/
def indexText (f : Field) (index : Nat) : List Char :=
  if f.count > 1 then '[' :: ((decimal index).toList ++ [']']) else []

/-- The distance from the start of an element, in the name of a register of a block. -/
def distanceText (f : Field) (within : Nat) : List Char := if f.stride > 1 then '+' :: (decimal within).toList else []

theorem distanceText_inj (hwithin : within < f.stride) (hwithin' : within' < f.stride)
    (h : f.distanceText within = f.distanceText within') : within = within' := by
  unfold distanceText at h
  by_cases hstride : f.stride > 1
  · rw [if_pos hstride, if_pos hstride] at h
    exact decimal_inj (List.cons.inj h).2
  · omega

theorem place_inj (hindex : index < f.count) (hindex' : index' < f.count) (hwithin : within < f.stride)
    (hwithin' : within' < f.stride)
    (h : f.indexText index ++ f.distanceText within = f.indexText index' ++ f.distanceText within') :
    index = index' ∧ within = within' := by
  unfold indexText at h
  by_cases hcount : f.count > 1
  · rw [if_pos hcount, if_pos hcount, List.cons_append, List.cons_append, List.append_assoc, List.append_assoc] at h
    have hclose (text : List Char) : ∀ c ∈ ([']'] ++ text).head?, c ∉ figures := by
      rintro c ⟨⟩
      decide
    obtain ⟨rfl, hdistance⟩ := decimal_append_inj (hclose _) (hclose _) (List.cons.inj h).2
    exact ⟨rfl, distanceText_inj hwithin hwithin' (List.cons.inj hdistance).2⟩
  · rw [if_neg hcount, if_neg hcount] at h
    exact ⟨by omega, distanceText_inj hwithin hwithin' h⟩

theorem head_place {c : Char} (hc : c ∈ (f.indexText index ++ f.distanceText within).head?) :
    c = '[' ∨ c = '+' := by
  unfold indexText distanceText at hc
  split at hc
  · exact Or.inl (Option.some.inj hc).symm
  split at hc
  · exact Or.inr (Option.some.inj hc).symm
  · cases hc

theorem isBlank_of_mem_place {c : Char} (hc : c ∈ f.indexText index ++ f.distanceText within) :
    isBlank c = false := by
  have hdigit {n : Nat} (hc : c ∈ (decimal n).toList) : isBlank c = false :=
    isBlank_of_mem_figures ((denotes_decimal n).mem_figures hc)
  unfold indexText distanceText at hc
  rcases List.mem_append.mp hc with hc | hc
  · split at hc
    · rcases List.mem_cons.mp hc with rfl | hc
      · decide
      rcases List.mem_append.mp hc with hc | hc
      · exact hdigit hc
      · rw [List.mem_singleton.mp hc]
        decide
    · cases hc
  · split at hc
    · rcases List.mem_cons.mp hc with rfl | hc
      · decide
      · exact hdigit hc
    · cases hc

end Field

/-! ### Names of registers -/

theorem toList_describe_of_lookup_none (h : lookup offset = none) :
    (describe offset).toList = "reg_0x".toList ++ (hex offset 3).toList := by
  rw [describe, h]
  exact String.toList_append

theorem toList_describe_of_lookup (h : lookup offset = some (f, index)) :
    (describe offset).toList = f.name.toList ++ (f.indexText index ++ f.distanceText (offset - f.element index)) := by
  rw [describe, h]
  by_cases hcount : f.count > 1 <;> by_cases hstride : f.stride > 1 <;>
    simp [Field.indexText, Field.distanceText, hcount, hstride]

/-- A register of an element is told by its distance from the start of the element. -/
theorem element_add_of_lookup (h : lookup offset = some (f, index)) :
    ∃ within < f.stride, offset - f.element index = within ∧ offset = f.element index + within := by
  obtain ⟨hf, hcontains, rfl⟩ := of_lookup_eq_some h
  obtain ⟨hstart, hstop⟩ := (Field.mem_elementSpan hf hcontains).1
  refine ⟨_, ?_, rfl, ?_⟩
  · exact Nat.sub_lt_left_of_lt_add hstart hstop
  · exact (Nat.add_sub_cancel' hstart).symm

theorem Field.not_isNameChar_head_place {c : Char} (hc : c ∈ (f.indexText index ++ f.distanceText within).head?) :
    isNameChar c = false := by
  rcases Field.head_place hc with rfl | rfl
  · decide
  · decide

/-- No field has the name that registers outside every field begin with. -/
theorem describe_ne_of_lookup (hoffset : lookup offset = none) (hother : lookup other = some (f, index)) :
    describe offset ≠ describe other := by
  intro h
  have hf : f ∈ layout := (of_lookup_eq_some hother).1
  have htext : "reg".toList ++ '_' :: '0' :: 'x' :: (hex offset 3).toList = (describe other).toList :=
    (toList_describe_of_lookup_none hoffset).symm.trans (congrArg String.toList h)
  rw [toList_describe_of_lookup hother] at htext
  obtain ⟨-, hrest⟩ := append_inj_of_run (p := isNameChar) (List.all_eq_true.mp (by decide))
    (by rintro c ⟨⟩; decide) (fun c hc => isNameChar_of_mem hf hc)
    (fun c hc => Field.not_isNameChar_head_place hc) htext
  have hhead : '_' ∈ (f.indexText index ++ f.distanceText (other - f.element index)).head? := by
    rw [← hrest]
    rfl
  rcases Field.head_place hhead with h | h
  · exact absurd h (by decide)
  · exact absurd h (by decide)

theorem describe_inj (h : describe offset = describe other) : offset = other := by
  have htext := congrArg String.toList h
  cases hoffset : lookup offset with
  | none =>
    cases hother : lookup other with
    | none =>
      rw [toList_describe_of_lookup_none hoffset, toList_describe_of_lookup_none hother] at htext
      exact hex_inj (List.append_cancel_left htext)
    | some found => exact absurd h (describe_ne_of_lookup hoffset hother)
  | some found =>
    obtain ⟨f, index⟩ := found
    cases hother : lookup other with
    | none => exact absurd h.symm (describe_ne_of_lookup hother hoffset)
    | some found =>
      obtain ⟨g, index'⟩ := found
      have hf : f ∈ layout := (of_lookup_eq_some hoffset).1
      have hg : g ∈ layout := (of_lookup_eq_some hother).1
      rw [toList_describe_of_lookup hoffset, toList_describe_of_lookup hother] at htext
      obtain ⟨hname, hplace⟩ := append_inj_of_run (p := isNameChar)
        (fun c hc => isNameChar_of_mem hf hc) (fun c hc => Field.not_isNameChar_head_place hc)
        (fun c hc => isNameChar_of_mem hg hc) (fun c hc => Field.not_isNameChar_head_place hc) htext
      obtain rfl := eq_of_name_eq hf hg (String.toList_inj.mp hname)
      have hindex := lt_count_of_lookup hoffset
      have hindex' := lt_count_of_lookup hother
      obtain ⟨within, hwithin, hdistance, rfl⟩ := element_add_of_lookup hoffset
      obtain ⟨within', hwithin', hdistance', rfl⟩ := element_add_of_lookup hother
      rw [hdistance, hdistance'] at hplace
      obtain ⟨rfl, rfl⟩ := Field.place_inj hindex hindex' hwithin hwithin' hplace
      rfl

theorem isBlank_of_mem_describe {c : Char} (hc : c ∈ (describe offset).toList) : isBlank c = false := by
  cases hoffset : lookup offset with
  | none =>
    have hunnamed : "reg_0x".toList.any isBlank = false := by decide
    rw [toList_describe_of_lookup_none hoffset] at hc
    rcases List.mem_append.mp hc with hc | hc
    · exact eq_false_of_ne_true (List.any_eq_false.mp hunnamed c hc)
    · exact isBlank_of_mem_figures ((denotes_hex offset 3).mem_figures hc)
  | some found =>
    obtain ⟨f, index⟩ := found
    rw [toList_describe_of_lookup hoffset] at hc
    rcases List.mem_append.mp hc with hc | hc
    · exact isBlank_of_isNameChar (isNameChar_of_mem (of_lookup_eq_some hoffset).1 hc)
    · exact Field.isBlank_of_mem_place hc

end Maxwell
