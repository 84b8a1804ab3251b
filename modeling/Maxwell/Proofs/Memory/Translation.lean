import Mathlib.Data.List.Induction
import Maxwell.Proofs.Memory.PageTable

/-! Where addresses lead after any mappings: a page leads to where the last mapping of it says, and a page that
    none of them maps leads nowhere. The two levels of the table show in nothing but the 40 bits that count. -/

namespace Maxwell.PageTable

/-! ### Pages of a mapping -/

/-- Page `k` of a mapping is the page of an address, as far as bits 39:12 tell. -/
structure Mapping.Covers (m : Mapping) (k : Nat) (address : UInt64) : Prop where
  within : k * pageSize < m.size
  page : pageOf (m.address + .ofNat (k * pageSize)) = pageOf address

/-- Where page `k` of a mapping takes an address of the page. -/
def Mapping.lead (m : Mapping) (k : Nat) (address : UInt64) : UInt64 :=
  baseOf (m.target + .ofNat (k * pageSize)) + .ofNat (offsetOf address)

/-- Page `k` of mapping `j` is the page of an address. -/
def Maps (mappings : List Mapping) (j k : Nat) (address : UInt64) : Prop :=
  ∃ m, mappings[j]? = some m ∧ m.Covers k address

/-- Page `k` of mapping `j` is the page of an address, and no later page of `j` and of no later mapping any page is. -/
structure MapsLast (mappings : List Mapping) (j k : Nat) (address : UInt64) : Prop where
  maps : Maps mappings j k address
  last : ∀ j' k', Maps mappings j' k' address → j' < j ∨ j' = j ∧ k' ≤ k

theorem maps_snoc {mappings : List Mapping} {m : Mapping} {j k : Nat} {address : UInt64} :
    Maps (mappings ++ [m]) j k address ↔ Maps mappings j k address ∨ j = mappings.length ∧ m.Covers k address := by
  constructor
  · rintro ⟨m', hm', hcovers⟩
    rcases Nat.lt_trichotomy j mappings.length with hlt | rfl | hgt
    · rw [List.getElem?_append_left hlt] at hm'
      exact Or.inl ⟨m', hm', hcovers⟩
    · rw [List.getElem?_concat_length] at hm'
      cases hm'
      exact Or.inr ⟨rfl, hcovers⟩
    · rw [List.getElem?_eq_none (by simp; omega)] at hm'
      cases hm'
  · rintro (⟨m', hm', hcovers⟩ | ⟨rfl, hcovers⟩)
    · have hlt : j < mappings.length := (List.getElem?_eq_some_iff.mp hm').1
      exact ⟨m', (List.getElem?_append_left hlt).trans hm', hcovers⟩
    · exact ⟨m, List.getElem?_concat_length, hcovers⟩

theorem lt_length_of_maps {mappings : List Mapping} {j k : Nat} {address : UInt64} (h : Maps mappings j k address) :
    j < mappings.length := by
  obtain ⟨m, hm, -⟩ := h
  exact (List.getElem?_eq_some_iff.mp hm).1

/-- The start of a page and an offset within it add up without a carry out of 64 bits. -/
theorem Mapping.toNat_lead (m : Mapping) (k : Nat) (address : UInt64) :
    (m.lead k address).toNat =
      (m.target + .ofNat (k * pageSize)).toNat / pageSize * pageSize + address.toNat % pageSize := by
  rw [lead]
  generalize m.target + .ofNat (k * pageSize) = start
  have hlt := start.toNat_lt
  have hbase : (baseOf start).toNat = start.toNat / pageSize * pageSize := by
    rw [toNat_baseOf]
    simp only [pageSize]
    omega
  rw [toNat_add_ofNat, hbase, offsetOf]
  rw [hbase]
  simp only [offsetOf, pageSize]
  omega

/-! ### One mapping -/

theorem mul_pageSize_lt_iff {k size : Nat} : k * pageSize < size ↔ k < (size + (pageSize - 1)) / pageSize := by
  simp only [pageSize]
  omega

/-- A table after the first pages of a mapping. -/
def Mapping.mapPages (m : Mapping) (count : Nat) (table : PageTable) : PageTable :=
  count.fold (fun k _ table => table.mapPage (m.address + .ofNat (k * pageSize)) (m.target + .ofNat (k * pageSize)))
    table

theorem Mapping.mapPages_succ (m : Mapping) (count : Nat) (table : PageTable) :
    m.mapPages (count + 1) table =
      (m.mapPages count table).mapPage (m.address + .ofNat (count * pageSize)) (m.target + .ofNat (count * pageSize)) :=
  Nat.fold_succ ..

/-- Among the first pages of a mapping, page `k` is the page of an address. -/
structure Mapping.CoversBelow (m : Mapping) (count k : Nat) (address : UInt64) : Prop where
  below : k < count
  page : pageOf (m.address + .ofNat (k * pageSize)) = pageOf address

theorem Mapping.covers_iff {m : Mapping} {k : Nat} {address : UInt64} :
    m.Covers k address ↔ m.CoversBelow ((m.size + (pageSize - 1)) / pageSize) k address :=
  ⟨fun h => ⟨mul_pageSize_lt_iff.mp h.within, h.page⟩, fun h => ⟨mul_pageSize_lt_iff.mpr h.below, h.page⟩⟩

/-- Pages decide where the addresses on them lead, the last of them that is the page of an address. -/
theorem translate_mapPages (table : PageTable) (m : Mapping) (count : Nat) (address : UInt64) :
    (∀ k, ¬m.CoversBelow count k address) ∧ (m.mapPages count table).translate address = table.translate address ∨
    ∃ k, m.CoversBelow count k address ∧ (∀ l, m.CoversBelow count l address → l ≤ k) ∧
      (m.mapPages count table).translate address = some (m.lead k address) := by
  induction count with
  | zero => exact Or.inl ⟨fun k h => absurd h.below (Nat.not_lt_zero k), rfl⟩
  | succ count ih =>
    rw [m.mapPages_succ, translate_mapPage]
    by_cases hcount : pageOf (m.address + .ofNat (count * pageSize)) = pageOf address
    · rw [if_pos hcount]
      exact Or.inr ⟨count, ⟨Nat.lt_succ_self count, hcount⟩, fun l hl => Nat.le_of_lt_succ hl.below, rfl⟩
    · rw [if_neg hcount]
      have hbefore : ∀ k, m.CoversBelow (count + 1) k address → m.CoversBelow count k address := by
        rintro k ⟨hk, hpage⟩
        refine ⟨Nat.lt_of_le_of_ne (Nat.le_of_lt_succ hk) ?_, hpage⟩
        rintro rfl
        exact hcount hpage
      rcases ih with ⟨hnone, htable⟩ | ⟨k, hk, hlast, hlead⟩
      · exact Or.inl ⟨fun k hk => hnone k (hbefore k hk), htable⟩
      · exact Or.inr ⟨k, ⟨Nat.lt_succ_of_lt hk.below, hk.page⟩, fun l hl => hlast l (hbefore l hl), hlead⟩

/-- A mapping decides where the pages it covers lead, each by the last of its pages that is that one, and changes
    nothing else. -/
theorem translate_map (table : PageTable) (m : Mapping) (address : UInt64) :
    (∀ k, ¬m.Covers k address) ∧ (table.map m.address m.target m.size).translate address = table.translate address ∨
    ∃ k, m.Covers k address ∧ (∀ l, m.Covers l address → l ≤ k) ∧
      (table.map m.address m.target m.size).translate address = some (m.lead k address) := by
  simp only [Mapping.covers_iff]
  exact translate_mapPages table m _ address

/-! ### Mappings in order -/

theorem ofMappings_snoc (mappings : List Mapping) (m : Mapping) :
    ofMappings (mappings ++ [m]) = (ofMappings mappings).map m.address m.target m.size := by
  rw [ofMappings, List.foldl_append]
  rfl

theorem translate_ofMappings_cases (mappings : List Mapping) (address : UInt64) :
    (∀ j k, ¬Maps mappings j k address) ∧ (ofMappings mappings).translate address = none ∨
    ∃ j k m, mappings[j]? = some m ∧ MapsLast mappings j k address ∧
      (ofMappings mappings).translate address = some (m.lead k address) := by
  induction mappings using List.reverseRecOn with
  | nil =>
    refine Or.inl ⟨?_, translate_empty address⟩
    rintro j k ⟨m, hm, -⟩
    cases hm
  | append_singleton mappings m ih =>
    rw [ofMappings_snoc]
    rcases translate_map (ofMappings mappings) m address with ⟨hnone, hsame⟩ | ⟨k, hk, hlast, hlead⟩
    · -- The new mapping does not reach the page.
      rw [hsame]
      rcases ih with ⟨hbefore, htranslate⟩ | ⟨j, k, m', hm', hmaps, htranslate⟩
      · refine Or.inl ⟨fun j k h => ?_, htranslate⟩
        rcases maps_snoc.mp h with h | ⟨-, h⟩
        · exact hbefore j k h
        · exact hnone k h
      · have hlt : j < mappings.length := lt_length_of_maps hmaps.maps
        refine Or.inr ⟨j, k, m', (List.getElem?_append_left hlt).trans hm', ⟨maps_snoc.mpr (Or.inl hmaps.maps), ?_⟩,
          htranslate⟩
        intro j' k' h
        rcases maps_snoc.mp h with h | ⟨-, h⟩
        · exact hmaps.last j' k' h
        · exact absurd h (hnone k')
    · -- It does, and it is the last one.
      refine Or.inr ⟨mappings.length, k, m, List.getElem?_concat_length,
        ⟨maps_snoc.mpr (Or.inr ⟨rfl, hk⟩), ?_⟩, hlead⟩
      intro j' k' h
      rcases maps_snoc.mp h with hbefore | ⟨hnew, hcovers⟩
      · exact Or.inl (lt_length_of_maps hbefore)
      · exact Or.inr ⟨hnew, hlast k' hcovers⟩

theorem pageOf_congr {address other : UInt64} (h : address.toNat % 2 ^ 40 = other.toNat % 2 ^ 40) :
    pageOf address = pageOf other := by
  simp only [pageOf, pageSize]
  omega

/-- The bits of an address above the lowest 40 do not count. -/
theorem translate_congr (table : PageTable) {address other : UInt64}
    (h : address.toNat % 2 ^ 40 = other.toNat % 2 ^ 40) : table.translate address = table.translate other := by
  have hoffset : offsetOf address = offsetOf other := by
    simp only [offsetOf, pageSize]
    omega
  rw [translate, translate, entry_congr table (pageOf_congr h), hoffset]

/-- After any mappings, an address leads to where the last page mapped over its own leads, at the same distance from
    the start of the page, and nowhere if there is none. No page that is mapped has the entry of one that is not, bits
    above the lowest 40 do not count, and a further mapping changes nothing for pages it does not cover. -/
theorem translate_ofMappings (mappings : List Mapping) (address : UInt64) :
    let table := ofMappings mappings
    ((∀ j k, ¬Maps mappings j k address) → table.translate address = none) ∧
    (∀ j₀ k₀, Maps mappings j₀ k₀ address →
      table.entry address ≠ Leaf.unmapped ∧
      ∃ j k m target, mappings[j]? = some m ∧ MapsLast mappings j k address ∧
        table.translate address = some target ∧
        target.toNat = (m.target + .ofNat (k * pageSize)).toNat / pageSize * pageSize + address.toNat % pageSize) ∧
    (∀ other : UInt64, other.toNat % 2 ^ 40 = address.toNat % 2 ^ 40 →
      table.translate other = table.translate address) ∧
    ∀ m : Mapping, (∀ k, ¬m.Covers k address) →
      (table.map m.address m.target m.size).translate address = table.translate address := by
  intro table
  refine ⟨fun h => ?_, fun j₀ k₀ h => ?_, fun other h => translate_congr table h, fun m h => ?_⟩
  · rcases translate_ofMappings_cases mappings address with ⟨-, htranslate⟩ | ⟨j, k, -, -, hmaps, -⟩
    · exact htranslate
    · exact absurd hmaps.maps (h j k)
  · rcases translate_ofMappings_cases mappings address with ⟨hnone, -⟩ | ⟨j, k, m, hm, hmaps, htranslate⟩
    · exact absurd h (hnone j₀ k₀)
    · exact ⟨(translate_eq_some_iff.mp htranslate).1, j, k, m, m.lead k address, hm, hmaps, htranslate,
        m.toNat_lead k address⟩
  · rcases translate_map table m address with ⟨-, hsame⟩ | ⟨k, hk, -⟩
    · exact hsame
    · exact absurd hk (h k)

end Maxwell.PageTable
