import Mathlib.Algebra.Group.Nat.Defs
import Maxwell.Memory.AddressSpace

/-! Page tables that mapping makes. Every page is mapped to the start of a page, so the bytes of a page lie side by
    side in the memory behind. -/

namespace Maxwell.PageTable

/-- The arguments of one `map`. -/
structure Mapping where
  address : UInt64
  target : UInt64
  size : Nat

/-- The page table after some mappings. -/
def ofMappings (mappings : List Mapping) : PageTable :=
  mappings.foldl (fun table m => table.map m.address m.target m.size) {}

/-! ### Entries -/

/-- The page number in bits 39:12 of an address. The bits above do not count. -/
def pageOf (address : UInt64) : Nat := address.toNat / pageSize % 0x10000000

theorem val_leafOf (address : UInt64) : (leafOf address).val = pageOf address / leafSize := by
  simp only [leafOf, pageOf, pageSize, leafSize, Fin.val_ofNat, Nat.shiftRight_eq_div_pow]
  omega

theorem val_slotOf (address : UInt64) : (slotOf address).val = pageOf address % leafSize := by
  simp only [slotOf, pageOf, pageSize, leafSize, Fin.val_ofNat, Nat.shiftRight_eq_div_pow]
  omega

/-- Leaf and slot are the halves of the page number. -/
theorem pageOf_eq_iff {address other : UInt64} :
    pageOf address = pageOf other ↔ leafOf address = leafOf other ∧ slotOf address = slotOf other := by
  rw [Fin.ext_iff, Fin.ext_iff, val_leafOf, val_leafOf, val_slotOf, val_slotOf]
  constructor
  · intro h
    rw [h]
    exact ⟨rfl, rfl⟩
  · rintro ⟨hleaf, hslot⟩
    rw [← Nat.div_add_mod (pageOf address) leafSize, hleaf, hslot, Nat.div_add_mod]

theorem leaves_setEntry (table : PageTable) (address value : UInt64) (i : Fin leafSize) :
    (table.setEntry address value).leaves.get i =
      if leafOf address = i then
        some (((table.leaves.get (leafOf address)).getD Leaf.empty).set (slotOf address) value (slotOf address).isLt)
      else table.leaves.get i := by
  have hget : ∀ leaves : Vector (Option Leaf) leafSize, leaves.get i = leaves[i.val] := fun _ => rfl
  simp only [setEntry, hget, Vector.getElem_set, Fin.ext_iff]
  split <;> rfl

/-- A leaf that is not there has no page mapped. -/
theorem entry_eq (table : PageTable) (address : UInt64) :
    table.entry address = ((table.leaves.get (leafOf address)).getD Leaf.empty).get (slotOf address) := by
  show table.entry address = (table.leaves[leafOf address].getD Leaf.empty)[slotOf address]
  rw [entry]
  cases table.leaves[leafOf address] with
  | some leaf => rfl
  | none => simp [Leaf.empty]

/-- The addresses of a page have the same entry. -/
theorem entry_congr (table : PageTable) {address other : UInt64} (h : pageOf address = pageOf other) :
    table.entry address = table.entry other := by
  obtain ⟨hleaf, hslot⟩ := pageOf_eq_iff.mp h
  simp only [entry_eq, hleaf, hslot]

theorem entry_empty (address : UInt64) : entry {} address = Leaf.unmapped := by
  simp [entry]

/-- An entry that is set is found from every address of its page, and no other changes. -/
theorem entry_setEntry (table : PageTable) (address value other : UInt64) :
    (table.setEntry address value).entry other =
      if pageOf address = pageOf other then value else table.entry other := by
  simp only [pageOf_eq_iff]
  rw [entry_eq, entry_eq, leaves_setEntry]
  by_cases hleaf : leafOf address = leafOf other
  · have hget : ∀ leaf : Leaf, leaf.get (slotOf other) = leaf[(slotOf other).val] := fun _ => rfl
    simp only [hleaf, if_true, Option.getD_some, true_and, hget, Vector.getElem_set, Fin.ext_iff]
  · rw [if_neg hleaf, if_neg (fun h => hleaf h.1)]

/-! ### Targets -/

/-- The entries of mapped pages are starts of pages. -/
def Aligned (table : PageTable) : Prop :=
  ∀ address, table.entry address ≠ Leaf.unmapped → (table.entry address).toNat % pageSize = 0

theorem toNat_baseOf (address : UInt64) : (baseOf address).toNat = address.toNat - address.toNat % pageSize := by
  have hoffset : (UInt64.ofNat (offsetOf address)).toNat = address.toNat % pageSize :=
    UInt64.toNat_ofNat_of_lt' (Nat.lt_of_le_of_lt (Nat.mod_le _ _) address.toNat_lt)
  have hle : UInt64.ofNat (offsetOf address) ≤ address := by
    rw [UInt64.le_iff_toNat_le, hoffset]
    exact Nat.mod_le _ _
  rw [baseOf, UInt64.toNat_sub_of_le _ _ hle, hoffset]

theorem toNat_baseOf_mod (address : UInt64) : (baseOf address).toNat % pageSize = 0 := by
  rw [toNat_baseOf]
  simp only [pageSize]
  omega

/-- No page starts at the address that stands for a page that is not mapped. -/
theorem baseOf_ne_unmapped (address : UInt64) : baseOf address ≠ Leaf.unmapped := by
  intro h
  have hmod := toNat_baseOf_mod address
  rw [h] at hmod
  exact absurd hmod (by decide)

/-- Mapping a page decides where the addresses of this page lead, and nothing else. -/
theorem translate_mapPage (table : PageTable) (address target other : UInt64) :
    (table.mapPage address target).translate other =
      if pageOf address = pageOf other then some (baseOf target + .ofNat (offsetOf other))
      else table.translate other := by
  rw [translate, mapPage, entry_setEntry]
  by_cases hpage : pageOf address = pageOf other
  · rw [if_pos hpage, if_pos hpage, if_neg (baseOf_ne_unmapped target)]
  · rw [if_neg hpage, if_neg hpage, translate]

theorem translate_empty (address : UInt64) : translate {} address = none := by
  rw [translate, entry_empty, if_pos rfl]

theorem translate_eq_some_iff {table : PageTable} {address target : UInt64} :
    table.translate address = some target ↔
      table.entry address ≠ Leaf.unmapped ∧ table.entry address + .ofNat (offsetOf address) = target := by
  rw [translate]
  split
  · next h => simp [h]
  · next h => simp [h]

theorem aligned_empty : Aligned {} := fun address h => absurd (entry_empty address) h

theorem Aligned.mapPage {table : PageTable} (h : table.Aligned) (address target : UInt64) :
    (table.mapPage address target).Aligned := by
  intro other hentry
  rw [PageTable.mapPage, entry_setEntry] at hentry ⊢
  split at hentry
  · next hpage =>
    rw [if_pos hpage]
    exact toNat_baseOf_mod target
  · next hpage =>
    rw [if_neg hpage]
    exact h other hentry

theorem Aligned.map {table : PageTable} (h : table.Aligned) (address target : UInt64) (size : Nat) :
    (table.map address target size).Aligned := by
  unfold PageTable.map
  generalize (size + (pageSize - 1)) / pageSize = count
  induction count with
  | zero => exact h
  | succ count ih =>
    rw [Nat.fold_succ]
    exact ih.mapPage _ _

theorem aligned_ofMappings (mappings : List Mapping) : (ofMappings mappings).Aligned :=
  List.foldlRecOn mappings _ aligned_empty fun _ h m _ => h.map m.address m.target m.size

/-! ### Within a page -/

section
variable {address : UInt64} {k : Nat}

theorem toNat_add_ofNat (h : address.toNat + k < 2 ^ 64) : (address + .ofNat k).toNat = address.toNat + k := by
  rw [UInt64.toNat_add, UInt64.toNat_ofNat_of_lt' (by rw [UInt64.size]; omega), Nat.mod_eq_of_lt h]

/-- The bytes of a page are translated alike. -/
theorem translate_add (table : PageTable) (hpage : offsetOf address + k < pageSize) :
    table.translate (address + .ofNat k) = (table.translate address).map (· + .ofNat k) := by
  have hlt := address.toNat_lt
  have hnat : (address + .ofNat k).toNat = address.toNat + k := by
    refine toNat_add_ofNat ?_
    simp only [offsetOf, pageSize] at hpage
    omega
  have hnumber : pageOf (address + .ofNat k) = pageOf address := by
    simp only [offsetOf, pageSize] at hpage
    simp only [pageOf, pageSize, hnat]
    omega
  have hoffset : offsetOf (address + .ofNat k) = offsetOf address + k := by
    simp only [offsetOf, pageSize] at hpage
    simp only [offsetOf, pageSize, hnat]
    omega
  rw [translate, translate, entry_congr table hnumber, hoffset]
  split
  · rfl
  · rw [Option.map_some, UInt64.ofNat_add, UInt64.add_assoc]

/-- The rest of a page does not go past the last address. -/
theorem Aligned.toNat_add {table : PageTable} (h : table.Aligned) {target : UInt64}
    (htarget : table.translate address = some target) (hpage : offsetOf address + k < pageSize) :
    (target + .ofNat k).toNat = target.toNat + k := by
  obtain ⟨hmapped, rfl⟩ := translate_eq_some_iff.mp htarget
  have hlt := (table.entry address).toNat_lt
  have haligned := h address hmapped
  have hoffset : (table.entry address + .ofNat (offsetOf address)).toNat =
      (table.entry address).toNat + offsetOf address := by
    refine toNat_add_ofNat ?_
    simp only [pageSize] at *
    omega
  refine toNat_add_ofNat ?_
  rw [hoffset]
  simp only [pageSize] at *
  omega

end

end Maxwell.PageTable
