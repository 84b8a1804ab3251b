import Maxwell.Register.File

/-! The elements that changes are reported for. A register lies in the span it is reported with, and whatever
    else lies there is in the same field. -/

namespace Maxwell

instance : Membership Nat Span := ⟨fun span offset => span.start ≤ offset ∧ offset < span.stop⟩

theorem mem_span {span : Span} {offset : Nat} : offset ∈ span ↔ span.start ≤ offset ∧ offset < span.stop := Iff.rfl

instance (span : Span) (offset : Nat) : Decidable (offset ∈ span) := decidable_of_iff' _ mem_span

/-! ### Fields -/

theorem stride_pos {f : Field} (hf : f ∈ layout) : 0 < f.stride := by
  have h : ∀ f ∈ layout, 0 < f.stride := by decide
  exact h f hf

theorem Field.contains_iff {f : Field} {offset : Nat} :
    f.contains offset = true ↔ f.start ≤ offset ∧ offset < f.start + f.stride * f.count := by
  rw [Field.contains, Bool.and_eq_true, decide_eq_true_iff, decide_eq_true_iff]
  rfl

theorem Field.elementSpan_stop_le {f : Field} {index : Nat} (hindex : index < f.count) :
    (f.elementSpan index).stop ≤ f.stop := by
  have hcount : f.stride * index + f.stride ≤ f.stride * f.count := Nat.mul_le_mul_left f.stride hindex
  show f.start + f.stride * index + f.stride ≤ f.start + f.stride * f.count
  omega

theorem Field.contains_of_mem {f : Field} {index offset : Nat} (hindex : index < f.count)
    (hoffset : offset ∈ f.elementSpan index) : f.contains offset = true := by
  obtain ⟨hstart, hstop⟩ := hoffset
  have hstop' : offset < f.stop := Nat.lt_of_lt_of_le hstop (Field.elementSpan_stop_le hindex)
  exact Field.contains_iff.mpr ⟨Nat.le_trans (Nat.le_add_right _ _) hstart, hstop'⟩

theorem Field.index_lt {f : Field} {offset : Nat} (hoffset : f.contains offset = true) :
    (offset - f.start) / f.stride < f.count := by
  obtain ⟨hstart, hstop⟩ := Field.contains_iff.mp hoffset
  exact Nat.div_lt_of_lt_mul (Nat.sub_lt_left_of_lt_add hstart hstop)

/-- The element of a register lies in the field of the register. -/
theorem Field.mem_elementSpan {f : Field} {offset : Nat} (hf : f ∈ layout) (hoffset : f.contains offset = true) :
    offset ∈ f.elementSpan ((offset - f.start) / f.stride) ∧
    ∀ other ∈ f.elementSpan ((offset - f.start) / f.stride), f.contains other = true := by
  refine ⟨?_, fun other => Field.contains_of_mem (Field.index_lt hoffset)⟩
  obtain ⟨hstart, -⟩ := Field.contains_iff.mp hoffset
  let index := (offset - f.start) / f.stride
  have hlow : f.stride * index ≤ offset - f.start := Nat.mul_div_le _ _
  have hhigh : offset - f.start < f.stride * index + f.stride := Nat.lt_mul_div_succ _ (stride_pos hf)
  show f.start + f.stride * index ≤ offset ∧ offset < f.start + f.stride * index + f.stride
  omega

theorem of_lookup_eq_some {offset index : Nat} {f : Field} (h : lookup offset = some (f, index)) :
    f ∈ layout ∧ f.contains offset = true ∧ index = (offset - f.start) / f.stride := by
  unfold lookup at h
  split at h
  · cases h
  · next g hg =>
    split at h
    · next hcontains =>
      cases h
      exact ⟨List.takeWhile_subset _ (List.mem_of_getLast? hg), hcontains, rfl⟩
    · cases h

/-! ### Reported spans -/

theorem mem_notifySpan_self (offset : Nat) : offset ∈ notifySpan offset := by
  unfold notifySpan
  split
  · next f index h =>
    obtain ⟨hf, hcontains, rfl⟩ := of_lookup_eq_some h
    exact (Field.mem_elementSpan hf hcontains).1
  · exact mem_span.mpr ⟨Nat.le_refl _, Nat.lt_succ_self _⟩

theorem of_mem_notifySpan {offset other : Nat} (h : other ∈ notifySpan offset) :
    other = offset ∨ ∃ f ∈ layout, f.contains offset = true ∧ f.contains other = true := by
  unfold notifySpan at h
  split at h
  · next f index hlookup =>
    obtain ⟨hf, hcontains, rfl⟩ := of_lookup_eq_some hlookup
    exact Or.inr ⟨f, hf, hcontains, (Field.mem_elementSpan hf hcontains).2 other h⟩
  · obtain ⟨hstart, hstop⟩ := h
    change offset ≤ other at hstart
    change other < offset + 1 at hstop
    exact Or.inl (by omega)

/-! ### Copies of spans -/

namespace RegisterFile

/-- The file with the words of a span taken from another. -/
def copy (file source : RegisterFile) (span : Span) : RegisterFile :=
  ⟨Vector.ofFn fun i => if i.val ∈ span then source.read i else file.read i⟩

theorem read_copy (file source : RegisterFile) (span : Span) (offset : Nat) :
    (file.copy source span).read offset = if offset ∈ span then source.read offset else file.read offset := by
  by_cases h : offset < registerCount
  · simp [copy, read, h]
  · simp [read, h]

end RegisterFile

end Maxwell
