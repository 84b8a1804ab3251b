import Mathlib.Algebra.Group.Nat.Defs
import Maxwell.Memory.AddressSpace
import Maxwell.Proofs.Memory.PageTable
import Maxwell.Proofs.Memory.Ram
import Maxwell.Proofs.Outcome

/-! Memory seen through a page table that leaves addresses as they are. The page table knows the 40 low bits of an
    address only, so of the pages that agree in these it leads to the one that was mapped last. -/

namespace Maxwell

/-! ### Addresses that stay as they are -/

namespace PageTable

/-- The first `n` pages, each mapped to itself. -/
def identity (n : Nat) : PageTable := map {} 0 0 (n * pageSize)

theorem identity_succ {n : Nat} :
    identity (n + 1) = (identity n).mapPage (.ofNat (n * pageSize)) (.ofNat (n * pageSize)) := by
  have hcount : ∀ n, (n * pageSize + (pageSize - 1)) / pageSize = n := by
    intro n
    simp only [pageSize]
    omega
  rw [identity, identity, map, map, hcount, hcount, Nat.fold_succ, UInt64.zero_add]

theorem pageOf_ofNat {n : Nat} (hn : n * pageSize < 2 ^ 64) : pageOf (.ofNat (n * pageSize)) = n % 0x10000000 := by
  rw [pageOf, UInt64.toNat_ofNat_of_lt' hn, Nat.mul_div_cancel n (by decide)]

theorem baseOf_ofNat {n : Nat} (hn : n * pageSize < 2 ^ 64) :
    baseOf (.ofNat (n * pageSize)) = .ofNat (n * pageSize) := by
  rw [baseOf, offsetOf, UInt64.toNat_ofNat_of_lt' hn, Nat.mul_mod_left]
  simp

/-- An address that agrees with another in the 40 low bits leads to it, if its page is one of the last 2^28. -/
theorem translate_identity {n : Nat} {address target : UInt64} (hn : n * pageSize ≤ 2 ^ 64)
    (hsame : address.toNat % 2 ^ 40 = target.toNat % 2 ^ 40) (hin : target.toNat < n * pageSize)
    (hlast : n * pageSize ≤ target.toNat + 2 ^ 40) : (identity n).translate address = some target := by
  have hnumber : pageOf address = target.toNat / pageSize % 0x10000000 := by
    simp only [pageOf, pageSize]
    omega
  have hoffset : offsetOf address = target.toNat % pageSize := by
    simp only [offsetOf, pageSize]
    omega
  induction n with
  | zero => exact absurd hin (by simp)
  | succ n ih =>
    have hlt : n * pageSize < 2 ^ 64 := by
      simp only [pageSize] at *
      omega
    rw [identity_succ, translate_mapPage, pageOf_ofNat hlt, baseOf_ofNat hlt, hnumber]
    by_cases hlatest : target.toNat / pageSize = n
    · rw [if_pos (by rw [hlatest]), hoffset, ← UInt64.ofNat_add, ← hlatest, Nat.mul_comm, Nat.div_add_mod,
        UInt64.ofNat_toNat]
    · have hbefore : target.toNat < n * pageSize ∧ n * pageSize ≤ target.toNat + 2 ^ 40 ∧
          ¬n % 0x10000000 = target.toNat / pageSize % 0x10000000 := by
        simp only [pageSize] at *
        omega
      rw [if_neg hbefore.2.2]
      exact ih (Nat.le_of_lt hlt) hbefore.1 hbefore.2.1

end PageTable

end Maxwell
