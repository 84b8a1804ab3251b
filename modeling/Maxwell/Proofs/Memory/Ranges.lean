import Maxwell.Proofs.Memory.Translation

/-! Ranges that are mapped. A mapping maps as many pages as its size has, begun ones included, from the page of its
    first address on. So it maps a whole range that begins with a page, but of a range that begins within a page the
    end may lie on one page more, which stays as it was. -/

namespace Maxwell.PageTable

/-- The number of bytes on the pages that a mapping maps. -/
def Mapping.extent (m : Mapping) : Nat := (m.size + (pageSize - 1)) / pageSize * pageSize

/-- A mapping of a range to one that lies alike on its pages. The range is shorter than the address space by a page at
    least, and neither range goes past the last 64-bit address. -/
structure Mapping.Regular (m : Mapping) : Prop where
  offset : offsetOf m.address = offsetOf m.target
  size : m.size + pageSize ≤ 2 ^ 40
  address : m.address.toNat + m.size < 2 ^ 64
  target : m.target.toNat + m.size < 2 ^ 64

namespace Mapping.Regular
variable {m : Mapping} (h : m.Regular) {x : Nat}
include h

/-- Of the pages of a mapping only one is the page of an address in its range, and none if the address lies behind
    them all. -/
theorem covers_iff (hx : x < m.size) {k : Nat} :
    m.Covers k (m.address + .ofNat x) ↔
      k = (offsetOf m.address + x) / pageSize ∧ offsetOf m.address + x < m.extent := by
  obtain ⟨-, hsize, haddress, -⟩ := h
  have hpage : pageOf (m.address + .ofNat x) =
      (m.address.toNat / pageSize + (offsetOf m.address + x) / pageSize) % 0x10000000 := by
    rw [pageOf, toNat_add_ofNat (by omega), offsetOf]
    simp only [pageSize]
    omega
  have hstart : k * pageSize < m.size → pageOf (m.address + .ofNat (k * pageSize)) =
      (m.address.toNat / pageSize + k) % 0x10000000 := by
    intro hk
    rw [pageOf, toNat_add_ofNat (by omega)]
    simp only [pageSize]
    omega
  have hoffset : offsetOf m.address < pageSize := Nat.mod_lt _ (by decide)
  -- Fewer pages are in question than there are page numbers, so the numbers tell them apart.
  unfold extent
  simp only [pageSize] at *
  constructor
  · rintro ⟨hwithin, hnumber⟩
    rw [hstart hwithin, hpage] at hnumber
    simp only [pageSize] at *
    omega
  · rintro ⟨rfl, hbelow⟩
    have hwithin : (offsetOf m.address + x) / pageSize * pageSize < m.size := by
      simp only [pageSize]
      omega
    exact ⟨hwithin, (hstart hwithin).trans hpage.symm⟩

/-- A page of the mapping takes an address in its range as far into the other range. -/
theorem lead_eq (hx : x < m.size) (hbelow : offsetOf m.address + x < m.extent) :
    m.lead ((offsetOf m.address + x) / pageSize) (m.address + .ofNat x) = m.target + .ofNat x := by
  obtain ⟨hoffset, -, haddress, htarget⟩ := h
  have hwithin : (offsetOf m.address + x) / pageSize * pageSize < m.size := by
    simp only [extent, pageSize] at hbelow ⊢
    omega
  rw [← UInt64.toNat_inj, m.toNat_lead, toNat_add_ofNat (by omega), toNat_add_ofNat (by omega),
    toNat_add_ofNat (by omega)]
  simp only [offsetOf, pageSize] at *
  omega

end Mapping.Regular

/-- After a mapping of a range, its addresses lead as far into the other range as they lie in their own, up to the end
    of the last page that is mapped, and addresses of the range behind that page lead where they led before. So a range
    is mapped whole if its last byte lies on one of as many pages as its size has, counted from its first page on, and
    not otherwise. -/
theorem translate_map_range {m : Mapping} (h : m.Regular) :
    (∀ (table : PageTable), ∀ x < m.size, (table.map m.address m.target m.size).translate (m.address + .ofNat x) =
      if offsetOf m.address + x < m.extent then some (m.target + .ofNat x)
      else table.translate (m.address + .ofNat x)) ∧
    ((∀ (table : PageTable), ∀ x < m.size,
        (table.map m.address m.target m.size).translate (m.address + .ofNat x) = some (m.target + .ofNat x)) ↔
      m.size = 0 ∨ offsetOf m.address + m.size ≤ m.extent) := by
  have hrange : ∀ (table : PageTable), ∀ x < m.size,
      (table.map m.address m.target m.size).translate (m.address + .ofNat x) =
        if offsetOf m.address + x < m.extent then some (m.target + .ofNat x)
        else table.translate (m.address + .ofNat x) := by
    intro table x hx
    rcases translate_map table m (m.address + .ofNat x) with ⟨hnone, hsame⟩ | ⟨k, hk, -, hlead⟩
    · have hbehind : ¬offsetOf m.address + x < m.extent := fun hbelow => hnone _ ((h.covers_iff hx).mpr ⟨rfl, hbelow⟩)
      rw [hsame, if_neg hbehind]
    · obtain ⟨rfl, hbelow⟩ := (h.covers_iff hx).mp hk
      rw [hlead, if_pos hbelow, h.lead_eq hx hbelow]
  refine ⟨hrange, fun hall => ?_, fun hreach table x hx => ?_⟩
  · refine Classical.or_iff_not_imp_left.mpr fun hsize => Nat.le_of_not_lt fun hreach => ?_
    have hoffset : offsetOf m.address < pageSize := Nat.mod_lt _ (by decide)
    have hextent : m.size ≤ m.extent ∧ pageSize ≤ m.extent := by
      simp only [Mapping.extent, pageSize]
      omega
    -- The first address behind the pages was not mapped before.
    have hx : m.extent - offsetOf m.address < m.size := by omega
    have hlost := hall {} _ hx
    rw [hrange {} _ hx, if_neg (by omega), translate_empty] at hlost
    cases hlost
  · rw [hrange table x hx, if_pos (by omega)]

/-- A range that begins in the middle of a page and goes over the end of a leaf. Half a page at its end is left out. -/
theorem translate_map_range_leaves :
    let m : Mapping := ⟨0x3FFF800, 0x5800, 0x2000⟩
    m.Regular ∧
    (∀ table : PageTable,
      (table.map m.address m.target m.size).translate (m.address + .ofNat 0x17FF) = some (m.target + .ofNat 0x17FF) ∧
      (table.map m.address m.target m.size).translate (m.address + .ofNat 0x1800) =
        table.translate (m.address + .ofNat 0x1800)) ∧
    ¬∀ (table : PageTable), ∀ x < m.size,
      (table.map m.address m.target m.size).translate (m.address + .ofNat x) = some (m.target + .ofNat x) := by
  intro m
  have h : m.Regular := ⟨by decide, by decide, by decide, by decide⟩
  obtain ⟨hrange, hwhole⟩ := translate_map_range h
  refine ⟨h, fun table => ⟨?_, ?_⟩, fun hall => absurd (hwhole.mp hall) (by decide)⟩
  · exact (hrange table 0x17FF (by decide)).trans (if_pos (by decide))
  · exact (hrange table 0x1800 (by decide)).trans (if_neg (by decide))

/-- A page that is mapped from its middle on: the next page, where its second half lies, is not mapped. -/
theorem translate_map_unreached :
    Mapping.Regular ⟨0x1800, 0x2800, 0x1000⟩ ∧ 0x800 < 0x1000 ∧
    (map {} 0x1800 0x2800 0x1000).translate (0x1800 + .ofNat 0x800) = none := by
  refine ⟨⟨by decide, by decide, by decide, by decide⟩, by decide, ?_⟩
  have htable : map {} 0x1800 0x2800 0x1000 = mapPage {} 0x1800 0x2800 := rfl
  rw [htable, translate_mapPage, if_neg (by decide), translate_empty]

end Maxwell.PageTable
