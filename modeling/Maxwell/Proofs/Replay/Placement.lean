import Mathlib.Algebra.Group.Nat.Defs
import Maxwell.Memory.AddressSpace
import Maxwell.Replay.Placement

/-! The place of a trace and the entries that name it. A trace that has a place lies in whole pages below the end
    of memory. An entry names the low 40 bits of its address and the length that it was made for. -/

namespace Maxwell

/-! ### Rounding -/

/-- A number with its low `k` bits cleared. -/
theorem and_complement {v w k : Nat} (hv : v < 2 ^ w) (hk : k ≤ w) :
    v &&& (2 ^ w - 1 - (2 ^ k - 1)) = v / 2 ^ k * 2 ^ k := by
  have hpow : 2 ^ k ≤ 2 ^ w := Nat.pow_le_pow_right (by decide) hk
  have hpos : 0 < 2 ^ k := Nat.two_pow_pos k
  have hsub : 2 ^ w - 1 - (2 ^ k - 1) = 2 ^ w - (2 ^ k - 1 + 1) := by omega
  refine Nat.eq_of_testBit_eq fun i => ?_
  rw [hsub, Nat.testBit_and, Nat.testBit_two_pow_sub_succ (by omega), Nat.testBit_two_pow_sub_one,
    ← Nat.shiftRight_eq_div_pow, ← Nat.shiftLeft_eq, Nat.testBit_shiftLeft, Nat.testBit_shiftRight]
  by_cases hi : i < k
  · simp [hi, Nat.not_le_of_lt hi]
  · have hle : k ≤ i := Nat.le_of_not_lt hi
    rw [Nat.add_sub_cancel' hle]
    by_cases hw : i < w
    · simp [hi, hle, hw]
    · have hbit : v.testBit i = false :=
        Nat.testBit_lt_two_pow (Nat.lt_of_lt_of_le hv (Nat.pow_le_pow_right (by decide) (Nat.le_of_not_lt hw)))
      simp [hbit]

theorem toNat_alignDown (value : UInt64) :
    (alignDown value (.ofNat pageSize)).toNat = value.toNat / pageSize * pageSize := by
  rw [alignDown, UInt64.toNat_and, UInt64.toNat_not]
  exact and_complement value.toNat_lt (show 12 ≤ 64 by decide)

theorem toNat_alignUp {value : UInt64} (h : value.toNat + pageSize ≤ 2 ^ 64) :
    (alignUp value (.ofNat pageSize)).toNat = (value.toNat + (pageSize - 1)) / pageSize * pageSize := by
  have hsum : (value + (.ofNat pageSize - 1)).toNat = value.toNat + (pageSize - 1) := by
    rw [UInt64.toNat_add]
    exact Nat.mod_eq_of_lt (by simp only [pageSize] at *; show value.toNat + 4095 < _; omega)
  rw [alignUp, toNat_alignDown, hsum]

/-! ### Places -/

namespace Replay

/-- The end of a memory, at a page bound. -/
def topOf (memorySize : Nat) : Nat := memorySize / pageSize * pageSize

/-- The size of the pages that hold a trace of `size` bytes. -/
def roomOf (size : Nat) : Nat := (size + (pageSize - 1)) / pageSize * pageSize

/-- A trace has a place if its pages fit, and then they end where memory does. -/
theorem Placement.of?_cases (memorySize : Nat) {size : Nat} (hsize : size + pageSize ≤ 2 ^ 64) :
    let top := topOf (UInt64.ofNat memorySize).toNat
    (top < roomOf size ∧ Placement.of? memorySize size = none) ∨
    ∃ place, Placement.of? memorySize size = some place ∧ place.top.toNat = top ∧
      place.base.toNat + roomOf size = top := by
  have hlt : size < UInt64.size := by
    show size < 2 ^ 64
    simp only [pageSize] at hsize
    omega
  have htop : (alignDown (.ofNat memorySize) (.ofNat pageSize)).toNat = topOf (UInt64.ofNat memorySize).toNat :=
    toNat_alignDown _
  have hroom : (alignUp (.ofNat size) (.ofNat pageSize)).toNat = roomOf size := by
    rw [toNat_alignUp, UInt64.toNat_ofNat_of_lt' hlt, roomOf]
    rwa [UInt64.toNat_ofNat_of_lt' hlt]
  unfold Placement.of?
  dsimp only
  generalize alignDown (.ofNat memorySize) (.ofNat pageSize) = top at htop
  generalize alignUp (.ofNat size) (.ofNat pageSize) = room at hroom
  rw [← htop, ← hroom]
  by_cases hle : room ≤ top
  · have hbase : (top - room).toNat = top.toNat - room.toNat := UInt64.toNat_sub_of_le _ _ hle
    refine Or.inr ⟨⟨top, top - room⟩, if_pos hle, rfl, ?_⟩
    rw [hbase, Nat.sub_add_cancel (UInt64.le_iff_toNat_le.mp hle)]
  · exact Or.inl ⟨Nat.lt_of_not_le (mt UInt64.le_iff_toNat_le.mpr hle), if_neg hle⟩

/-- What holds of the place of a trace of `size` bytes. -/
structure Placement.Sound (place : Placement) (size : Nat) : Prop where
  top : place.top.toNat % pageSize = 0
  base : place.base.toNat % pageSize = 0
  fits : place.base.toNat + size ≤ place.top.toNat
  near : place.top.toNat ≤ place.base.toNat + 2 ^ 40

theorem Placement.Sound.pages {place : Placement} {size : Nat} (h : place.Sound size) :
    place.top.toNat / pageSize * pageSize = place.top.toNat := by
  have htop := h.top
  simp only [pageSize] at htop ⊢
  omega

theorem Placement.sound_of_eq_some {memorySize size : Nat} {place : Placement} (hsize : size ≤ 2 ^ 40)
    (h : Placement.of? memorySize size = some place) : place.Sound size := by
  have hpages : size + pageSize ≤ 2 ^ 64 := by
    simp only [pageSize]
    omega
  obtain ⟨-, hnone⟩ | ⟨place', hsome, htop, hbase⟩ := Placement.of?_cases memorySize hpages
  · cases h.symm.trans hnone
  · cases h.symm.trans hsome
    simp only [topOf, roomOf, pageSize] at htop hbase
    constructor
    · show place.top.toNat % 4096 = 0
      omega
    · show place.base.toNat % 4096 = 0
      omega
    · omega
    · omega

end Replay

/-! ### Entries -/

namespace Entry

theorem packed_high {address length : Nat} (h : address < 0x100 ∧ length < 0x200000) :
    Word.packed [(0, address), (10, length)] = address + length * 0x400 ∧
      Word.packed [(0, address), (10, length)] < 0x100000000 := by
  simp only [Word.packed, Nat.shiftLeft_eq]
  omega

theorem length_ofSegment (address : UInt64) (length : Nat) : (ofSegment address length).length = length % 0x200000 := by
  obtain ⟨hpacked, hlt⟩ := packed_high ⟨Nat.mod_lt (address.toNat >>> 32) (by decide : 0 < 0x100),
    Nat.mod_lt length (by decide : 0 < 0x200000)⟩
  rw [Entry.length, ofSegment, Word.field_pack hlt, hpacked, Nat.shiftRight_eq_div_pow, Nat.one_shiftLeft]
  omega

/-- An entry names the low bits of its address, up to whole words. -/
theorem address_ofSegment (address : UInt64) (length : Nat) :
    (ofSegment address length).address.toNat = address.toNat % 2 ^ 40 / 4 * 4 := by
  obtain ⟨hpacked, hlt⟩ := packed_high ⟨Nat.mod_lt (address.toNat >>> 32) (by decide : 0 < 0x100),
    Nat.mod_lt length (by decide : 0 < 0x200000)⟩
  have hlow : (address.toUInt32 &&& ~~~3).toNat = address.toNat % 2 ^ 32 / 4 * 4 := by
    rw [UInt32.toNat_and, UInt32.toNat_not, UInt64.toNat_toUInt32]
    exact and_complement (Nat.mod_lt _ (Nat.two_pow_pos 32)) (show 2 ≤ 32 by decide)
  have hhigh : (ofSegment address length).high.field 0 8 = address.toNat / 2 ^ 32 % 0x100 := by
    rw [ofSegment, Word.field_pack hlt, hpacked, Nat.shiftRight_eq_div_pow, Nat.shiftRight_eq_div_pow,
      Nat.one_shiftLeft]
    omega
  have hfield : (ofSegment address length).low.field 2 30 = address.toNat % 2 ^ 32 / 4 := by
    rw [ofSegment, Word.field, hlow, Nat.shiftRight_eq_div_pow, Nat.one_shiftLeft]
    omega
  rw [Entry.address, hhigh, hfield, UInt64.toNat_ofNat', Nat.shiftLeft_eq, Nat.shiftLeft_eq]
  omega

end Entry

end Maxwell
