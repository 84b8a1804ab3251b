import Mathlib.Data.List.TakeWhile
import Maxwell.Proofs.Register.Elements

/-! Fields stand one after the other, so their elements and the words outside every field partition the file. The
    lookup finds the field of a word by halves, the span a change is reported for is the part the word lies in, and
    a view of an element changes with that element alone. -/

namespace Maxwell

/-! ### Search by halves -/

/-- The first index between two bounds that fails a test which no index after it passes. -/
def bisect (p : Nat → Bool) (low high : Nat) : Nat :=
  if low < high then
    if p ((low + high) / 2) then bisect p ((low + high) / 2 + 1) high else bisect p low ((low + high) / 2)
  else low
termination_by high - low

theorem bisect_eq {p : Nat → Bool} {low high n : Nat} (hlow : low ≤ n) (hhigh : n ≤ high)
    (hp : ∀ i, low ≤ i → i < high → (p i = true ↔ i < n)) : bisect p low high = n := by
  induction low, high using bisect.induct p with
  | case1 low high hlt hmiddle ih =>
    rw [bisect, if_pos hlt, if_pos hmiddle]
    have hn := (hp _ (by omega) (by omega)).mp hmiddle
    exact ih (by omega) hhigh fun i hi => hp i (by omega)
  | case2 low high hlt hmiddle ih =>
    rw [bisect, if_pos hlt, if_neg hmiddle]
    have hn := mt (hp _ (by omega) (by omega)).mpr hmiddle
    exact ih hlow (by omega) fun i hi hi' => hp i hi (by omega)
  | case3 low high hlt =>
    rw [bisect, if_neg hlt]
    omega

/-- Elements that pass a test stand before those that fail it, so the test tells an index from the number that
    pass. -/
theorem lt_length_takeWhile {α : Type} {p : α → Bool} {xs : List α} (hxs : xs.Pairwise fun x y => p y → p x)
    {i : Nat} (hi : i < xs.length) : p xs[i] = true ↔ i < (xs.takeWhile p).length := by
  induction xs generalizing i with
  | nil => exact absurd hi (Nat.not_lt_zero i)
  | cons x xs ih =>
    obtain ⟨hx, hxs⟩ := List.pairwise_cons.mp hxs
    by_cases hpx : p x = true
    · rw [List.takeWhile_cons_of_pos hpx, List.length_cons]
      cases i with
      | zero => exact iff_of_true hpx (Nat.succ_pos _)
      | succ i => exact (ih hxs (Nat.lt_of_succ_lt_succ hi)).trans Nat.succ_lt_succ_iff.symm
    · rw [List.takeWhile_cons_of_neg hpx]
      refine iff_of_false (fun hpi => hpx ?_) (Nat.not_lt_zero i)
      cases i with
      | zero => exact hpi
      | succ i => exact hx _ (List.getElem_mem _) hpi

/-! ### Fields one after the other -/

theorem layout_pairwise : layout.Pairwise fun f g => f.stop ≤ g.start := by decide

theorem stop_le_registerCount {f : Field} (hf : f ∈ layout) : f.stop ≤ registerCount := by
  have h : ∀ f ∈ layout, f.stop ≤ registerCount := by decide
  exact h f hf

/-- The fields that start at a register or before it. -/
def fieldsUpTo (offset : Nat) : List Field := layout.takeWhile fun f => f.start ≤ offset

theorem fieldsUpTo_isPrefix (offset : Nat) : fieldsUpTo offset <+: layout := List.takeWhile_prefix _

theorem lt_length_fieldsUpTo {offset i : Nat} (hi : i < layout.length) :
    decide (layout[i].start ≤ offset) = true ↔ i < (fieldsUpTo offset).length := by
  have hstarts : layout.Pairwise fun f g => decide (g.start ≤ offset) = true → decide (f.start ≤ offset) = true := by
    refine layout_pairwise.imp fun {f g} hfg hg => decide_eq_true ?_
    exact Nat.le_trans (Nat.le_add_right _ _) (Nat.le_trans hfg (of_decide_eq_true hg))
  exact lt_length_takeWhile hstarts hi

theorem mem_fieldsUpTo {f : Field} {offset : Nat} : f ∈ fieldsUpTo offset ↔ f ∈ layout ∧ f.start ≤ offset := by
  constructor
  · intro hf
    have hstart := List.mem_takeWhile_imp hf
    exact ⟨(fieldsUpTo_isPrefix offset).subset hf, of_decide_eq_true hstart⟩
  · rintro ⟨hf, hstart⟩
    obtain ⟨i, hi, rfl⟩ := List.getElem_of_mem hf
    have hi' : i < (fieldsUpTo offset).length := (lt_length_fieldsUpTo hi).mp (decide_eq_true hstart)
    rw [← (fieldsUpTo_isPrefix offset).getElem hi']
    exact List.getElem_mem hi'

/-- A field that holds a register is the last that starts at it or before. -/
theorem getLast?_fieldsUpTo {f : Field} {offset : Nat} (hf : f ∈ layout) (hoffset : f.contains offset = true) :
    (fieldsUpTo offset).getLast? = some f := by
  obtain ⟨hstart, hstop⟩ := Field.contains_iff.mp hoffset
  have hfields : f ∈ fieldsUpTo offset := mem_fieldsUpTo.mpr ⟨hf, hstart⟩
  obtain ⟨g, hg⟩ := Option.isSome_iff_exists.mp (List.getLast?_isSome.mpr (List.ne_nil_of_mem hfields))
  obtain ⟨before, hsplit⟩ := List.getLast?_eq_some_iff.mp hg
  have hpairs : (fieldsUpTo offset).Pairwise fun f g => f.stop ≤ g.start :=
    layout_pairwise.sublist (fieldsUpTo_isPrefix offset).sublist
  rw [hsplit] at hfields hpairs
  rcases List.mem_append.mp hfields with hbefore | hlast
  · -- A field before the last ends where the last starts, which is not past the register.
    have hfg : f.stop ≤ g.start := (List.pairwise_append.mp hpairs).2.2 f hbefore g (List.mem_singleton_self g)
    have hgstart : g.start ≤ offset := (mem_fieldsUpTo.mp (List.mem_of_getLast? hg)).2
    exact absurd (Nat.lt_of_lt_of_le hstop (Nat.le_trans hfg hgstart)) (Nat.lt_irrefl _)
  · rw [hg, List.mem_singleton.mp hlast]

theorem filter_contains {f : Field} {offset : Nat} (hf : f ∈ layout) (hoffset : f.contains offset = true) :
    layout.filter (·.contains offset) = [f] := by
  have hmem : f ∈ layout.filter (·.contains offset) := List.mem_filter.mpr ⟨hf, hoffset⟩
  have hpairs := layout_pairwise.filter (·.contains offset)
  rcases h : layout.filter (·.contains offset) with _ | ⟨g, _ | ⟨g', fields⟩⟩
  · rw [h] at hmem
    exact absurd hmem List.not_mem_nil
  · rw [h] at hmem
    rw [List.mem_singleton.mp hmem, h]
  · -- Two fields do not hold one register.
    have hholds : ∀ g ∈ layout.filter (·.contains offset), g.start ≤ offset ∧ offset < g.stop := fun g hg =>
      Field.contains_iff.mp (List.mem_filter.mp hg).2
    rw [h] at hpairs hholds
    have hgg' : g.stop ≤ g'.start := (List.pairwise_cons.mp hpairs).1 g' List.mem_cons_self
    have hg : offset < g.stop := (hholds g List.mem_cons_self).2
    have hg' : g'.start ≤ offset := (hholds g' (List.mem_cons_of_mem _ List.mem_cons_self)).1
    exact absurd (Nat.lt_of_lt_of_le hg hgg') (Nat.not_lt.mpr hg')

/-! ### Lookup -/

theorem lookup_eq (offset : Nat) :
    lookup offset = (fieldsUpTo offset).getLast?.bind fun f =>
      if f.contains offset then some (f, (offset - f.start) / f.stride) else none := by
  rw [fieldsUpTo, lookup]
  cases (layout.takeWhile fun f => f.start ≤ offset).getLast? <;> rfl

theorem lookup_of_contains {f : Field} {offset : Nat} (hf : f ∈ layout) (hoffset : f.contains offset = true) :
    lookup offset = some (f, (offset - f.start) / f.stride) := by
  rw [lookup_eq, getLast?_fieldsUpTo hf hoffset, Option.bind_some, if_pos hoffset]

/-- The lookup by halves: the field before the first that starts past the register is the only one that can hold
    it. -/
def search (offset : Nat) : Option (Field × Nat) :=
  match bisect (fun i => layout[i]?.any fun f => f.start ≤ offset) 0 layout.length with
  | 0 => none
  | n + 1 =>
    layout[n]?.bind fun f => if f.contains offset then some (f, (offset - f.start) / f.stride) else none

theorem search_eq_lookup (offset : Nat) : search offset = lookup offset := by
  have hinit := fieldsUpTo_isPrefix offset
  have hbisect : bisect (fun i => layout[i]?.any fun f => f.start ≤ offset) 0 layout.length =
      (fieldsUpTo offset).length := by
    refine bisect_eq (Nat.zero_le _) hinit.length_le fun i _ hi => ?_
    rw [List.getElem?_eq_getElem hi]
    exact lt_length_fieldsUpTo hi
  rw [search, hbisect, lookup_eq, List.getLast?_eq_getElem?]
  cases hn : (fieldsUpTo offset).length with
  | zero =>
    rw [List.length_eq_zero_iff.mp hn]
    rfl
  | succ n =>
    have hn' : n < (fieldsUpTo offset).length := hn ▸ Nat.lt_succ_self n
    have hlast : (fieldsUpTo offset)[n]? = layout[n]? := by
      rw [List.getElem?_eq_getElem hn', List.getElem?_eq_getElem (Nat.lt_of_lt_of_le hn' hinit.length_le)]
      exact congrArg some (hinit.getElem hn')
    rw [Nat.add_sub_cancel, hlast]

theorem lookup_eq_some_iff {f : Field} {offset index : Nat} :
    lookup offset = some (f, index) ↔
      layout.filter (·.contains offset) = [f] ∧ index = (offset - f.start) / f.stride := by
  constructor
  · intro h
    obtain ⟨hf, hoffset, hindex⟩ := of_lookup_eq_some h
    exact ⟨filter_contains hf hoffset, hindex⟩
  · rintro ⟨h, rfl⟩
    have hmem : f ∈ layout.filter (·.contains offset) := h ▸ List.mem_singleton_self f
    exact lookup_of_contains (List.mem_filter.mp hmem).1 (List.mem_filter.mp hmem).2

theorem lt_count_of_lookup {f : Field} {offset index : Nat} (h : lookup offset = some (f, index)) :
    index < f.count := by
  obtain ⟨-, hoffset, rfl⟩ := of_lookup_eq_some h
  exact Field.index_lt hoffset

/-! ### Elements -/

theorem Field.index_of_mem {f : Field} {index offset : Nat} (hoffset : offset ∈ f.elementSpan index) :
    (offset - f.start) / f.stride = index := by
  obtain ⟨hstart, hstop⟩ := hoffset
  change f.start + f.stride * index ≤ offset at hstart
  change offset < f.start + f.stride * index + f.stride at hstop
  refine Nat.div_eq_of_lt_le ?_ ?_
  · rw [Nat.mul_comm]
    omega
  · rw [Nat.mul_comm, Nat.mul_succ]
    omega

theorem lookup_of_mem {f : Field} {index offset : Nat} (hf : f ∈ layout) (hindex : index < f.count)
    (hoffset : offset ∈ f.elementSpan index) : lookup offset = some (f, index) := by
  rw [lookup_of_contains hf (Field.contains_of_mem hindex hoffset), Field.index_of_mem hoffset]

theorem notifySpan_of_mem {f : Field} {index offset : Nat} (hf : f ∈ layout) (hindex : index < f.count)
    (hoffset : offset ∈ f.elementSpan index) : notifySpan offset = f.elementSpan index := by
  rw [notifySpan, lookup_of_mem hf hindex hoffset]

/-- The registers of a span are all reported with it. -/
theorem notifySpan_eq {offset other : Nat} (h : other ∈ notifySpan offset) : notifySpan other = notifySpan offset := by
  cases hlookup : lookup offset with
  | none =>
    rw [notifySpan, hlookup] at h
    rw [Nat.le_antisymm (Nat.le_of_lt_succ h.2) h.1]
  | some found =>
    obtain ⟨f, index⟩ := found
    have hspan : notifySpan offset = f.elementSpan index := by rw [notifySpan, hlookup]
    rw [hspan] at h ⊢
    exact notifySpan_of_mem (of_lookup_eq_some hlookup).1 (lt_count_of_lookup hlookup) h

theorem notifySpan_eq_or_disjoint (offset other : Nat) :
    notifySpan offset = notifySpan other ∨ ∀ word, ¬(word ∈ notifySpan offset ∧ word ∈ notifySpan other) := by
  by_cases h : ∃ word, word ∈ notifySpan offset ∧ word ∈ notifySpan other
  · obtain ⟨word, hoffset, hother⟩ := h
    exact Or.inl ((notifySpan_eq hoffset).symm.trans (notifySpan_eq hother))
  · exact Or.inr (not_exists.mp h)

theorem notifySpan_stop_le {offset : Nat} (hoffset : offset < registerCount) :
    (notifySpan offset).stop ≤ registerCount := by
  unfold notifySpan
  split
  · next f index h =>
    have hf : f ∈ layout := (of_lookup_eq_some h).1
    exact Nat.le_trans (Field.elementSpan_stop_le (lt_count_of_lookup h)) (stop_le_registerCount hf)
  · exact hoffset

/-! ### Views of elements -/

/-- A view of the elements of a field shows each of them, and it changes with the words reported for that element
    alone. -/
def Follows {α : Type} (f : Field) (view : RegisterFile → Nat → Option α) : Prop :=
  ∀ file index, index < f.count →
    (view file index).isSome = true ∧
    ∀ offset value, view (file.write offset value) index ≠ view file index → notifySpan offset = f.elementSpan index

theorem follows_of_read {α : Type} {f : Field} {view : RegisterFile → Nat → Option α} (hf : f ∈ layout)
    (hsome : ∀ file index, index < f.count → (view file index).isSome = true)
    (hview : ∀ file other index, (∀ offset ∈ f.elementSpan index, other.read offset = file.read offset) →
      view other index = view file index) : Follows f view := by
  intro file index hindex
  refine ⟨hsome file index hindex, fun offset value hne => ?_⟩
  by_cases hoffset : offset ∈ f.elementSpan index
  · exact notifySpan_of_mem hf hindex hoffset
  · -- A write elsewhere leaves the words of the element as they were.
    refine absurd (hview _ _ _ fun word hword => ?_) hne
    rw [RegisterFile.read_write, if_neg]
    rintro ⟨rfl, -⟩
    exact hoffset hword

theorem RegisterFile.element?_eq_of_read {file other : RegisterFile} {f : Field} {index : Nat}
    (h : ∀ offset ∈ f.elementSpan index, other.read offset = file.read offset) :
    other.element? f index = file.element? f index := by
  unfold element? block?
  split
  · next hsize =>
    have hread (source : RegisterFile) (i : Fin f.stride) :
        source.words[f.element index + i.val] = source.read (f.element index + i.val) := by rw [read, dif_pos]
    congr 2
    funext i
    rw [hread, hread]
    exact h _ ⟨Nat.le_add_right _ _, Nat.add_lt_add_left i.isLt _⟩
  · rfl

theorem isSome_element? {f : Field} {index : Nat} (file : RegisterFile) (hf : f ∈ layout) (hindex : index < f.count) :
    (file.element? f index).isSome = true := by
  have hstop : f.element index + f.stride ≤ registerCount :=
    Nat.le_trans (Field.elementSpan_stop_le hindex) (stop_le_registerCount hf)
  rw [RegisterFile.element?, RegisterFile.block?, dif_pos hstop]
  rfl

theorem follows_element? {f : Field} (hf : f ∈ layout) : Follows f fun file index => file.element? f index :=
  follows_of_read hf (fun file _ hindex => isSome_element? file hf hindex) fun _ _ _ h =>
    RegisterFile.element?_eq_of_read h

theorem follows_map {α : Type} {f : Field} (hf : f ∈ layout) (decode : Vector Word f.stride → α) :
    Follows f fun file index => (file.element? f index).map decode := by
  refine follows_of_read hf (fun file index hindex => ?_) fun file other index h => ?_
  · rw [Option.isSome_map]
    exact isSome_element? file hf hindex
  · rw [RegisterFile.element?_eq_of_read h]

theorem follows_word {α : Type} {f : Field} (hf : f ∈ layout) (decode : Word → α) :
    Follows f fun file index => some (decode (file.read (f.element index))) := by
  refine follows_of_read hf (fun _ _ _ => rfl) fun file other index h => ?_
  have hmem : f.element index ∈ f.elementSpan index := ⟨Nat.le_refl _, Nat.lt_add_of_pos_right (stride_pos hf)⟩
  rw [h _ hmem]

/-- The fields partition the registers. A register is in one field at most, which the lookup finds, and spans that
    changes are reported for coincide or do not meet. What is decoded from an element changes only with words
    that are reported for it. -/
theorem elements_partition :
    (∀ offset, search offset = lookup offset) ∧
    (∀ offset f index, lookup offset = some (f, index) ↔
      layout.filter (·.contains offset) = [f] ∧ index = (offset - f.start) / f.stride) ∧
    (∀ offset f index, lookup offset = some (f, index) → index < f.count) ∧
    (∀ offset, offset < registerCount → offset ∈ notifySpan offset ∧ (notifySpan offset).stop ≤ registerCount) ∧
    (∀ offset other, notifySpan offset = notifySpan other ∨
      ∀ word, ¬(word ∈ notifySpan offset ∧ word ∈ notifySpan other)) ∧
    (∀ f ∈ layout, Follows f fun file index => file.element? f index) ∧
    Follows Field.renderTargets RegisterFile.renderTarget? ∧
    Follows Field.viewportTransforms RegisterFile.viewportTransform? ∧
    Follows Field.viewports RegisterFile.viewport? ∧
    Follows Field.scissors RegisterFile.scissor? ∧
    Follows Field.independentBlend RegisterFile.independentBlend? ∧
    (Follows Field.colorMask fun file index => some (file.colorMask index)) ∧
    (Follows Field.vertexAttributeState fun file index => some (file.vertexAttribute index)) := by
  refine ⟨search_eq_lookup, fun _ _ _ => lookup_eq_some_iff, fun _ _ _ => lt_count_of_lookup,
    fun offset hoffset => ⟨mem_notifySpan_self offset, notifySpan_stop_le hoffset⟩, notifySpan_eq_or_disjoint,
    fun _ => follows_element?, ?_, ?_, ?_, ?_, ?_, ?_, ?_⟩
  · exact follows_map (f := Field.renderTargets) (by decide) RenderTarget.ofWords
  · exact follows_map (f := Field.viewportTransforms) (by decide) ViewportTransform.ofWords
  · exact follows_map (f := Field.viewports) (by decide) Viewport.ofWords
  · exact follows_map (f := Field.scissors) (by decide) Scissor.ofWords
  · exact follows_map (f := Field.independentBlend) (by decide) Blend.ofWords
  · exact follows_word (by decide) ColorWriteMask.ofWord
  · exact follows_word (by decide) VertexAttribute.ofWord

/-- A write of the width of a render target, the third of its words. -/
theorem elements_partition_width :
    let file := RegisterFile.zero
    0x222 < registerCount ∧ 2 < Field.renderTargets.count ∧
    (file.write 0x222 640).renderTarget? 2 ≠ file.renderTarget? 2 ∧
    search 0x222 = some (Field.renderTargets, 2) ∧ 0x222 ∈ notifySpan 0x222 ∧ notifySpan 0x222 = ⟨0x220, 0x230⟩ := by
  intro file
  have hwidth (file : RegisterFile) : (file.renderTarget? 2).map RenderTarget.width = some (file.read 0x222) := by
    have hin : Field.renderTargets.element 2 + Field.renderTargets.stride ≤ registerCount := by decide
    rw [RegisterFile.renderTarget?, RegisterFile.element?, RegisterFile.block?, dif_pos hin]
    rw [RegisterFile.read, dif_pos (show 0x222 < registerCount by decide)]
    simp [RenderTarget.ofWords, Field.element, Field.renderTargets]
  have hchanged : (file.write 0x222 640).renderTarget? 2 ≠ file.renderTarget? 2 := by
    intro h
    have hread : (file.write 0x222 640).read 0x222 = file.read 0x222 :=
      Option.some.inj (by rw [← hwidth, ← hwidth, h])
    have hzero : file.read 0x222 = 0 := by simp [file, RegisterFile.zero, RegisterFile.read]
    rw [RegisterFile.read_write, if_pos (by decide), hzero] at hread
    exact absurd hread (by decide)
  obtain ⟨hsearch, hlookup, -, hspan, -, -, htargets, -⟩ := elements_partition
  have hcount : 2 < Field.renderTargets.count := by decide
  refine ⟨by decide, hcount, hchanged, ?_, (hspan 0x222 (by decide)).1, (htargets file 2 hcount).2 0x222 640 hchanged⟩
  rw [hsearch, hlookup]
  exact ⟨by decide, by decide⟩

end Maxwell
