import Mathlib.Data.List.Induction
import Maxwell.Text.Blank
import Maxwell.Text.Numeral

/-! Numerals and the numbers they denote. A numeral below the bound is read as the number it denotes and nothing else is
    read, and what is written for a number denotes it, with zeros in front and letters of either case. -/

namespace Maxwell.Numeral

variable {base bound n : Nat} {cs : List Char}

/-! ### Digits -/

/-- `c` stands for `d`. From ten on digits are letters, of either case. -/
def Stands (c : Char) (d : Nat) : Prop :=
  "0123456789abcdef".toList[d]? = some c ∨ "0123456789ABCDEF".toList[d]? = some c

instance (c : Char) (d : Nat) : Decidable (Stands c d) := inferInstanceAs (Decidable (_ ∨ _))

theorem Stands.lt {c : Char} {d : Nat} (h : Stands c d) : d < 16 := by
  rcases h with h | h
  · exact (List.getElem?_eq_some_iff.mp h).1
  · exact (List.getElem?_eq_some_iff.mp h).1

/-- The characters that stand for digits. -/
def figures : List Char := "0123456789abcdefABCDEF".toList

theorem Stands.mem_figures {c : Char} {d : Nat} (h : Stands c d) : c ∈ figures := by
  have hlower : "0123456789abcdef".toList ⊆ figures := by decide
  have hupper : "0123456789ABCDEF".toList ⊆ figures := by decide
  rcases h with h | h
  · exact hlower (List.mem_of_getElem? h)
  · exact hupper (List.mem_of_getElem? h)

theorem isBlank_of_mem_figures {c : Char} (hc : c ∈ figures) : Blank.isBlank c = false := by
  have h : figures.any Blank.isBlank = false := by decide
  exact eq_false_of_ne_true (List.any_eq_false.mp h c hc)

theorem stands_digit {d : Nat} (hd : d < 16) : Stands (digit d) d := by
  have h : ∀ d < 16, Stands (digit d) d := by decide
  exact h d hd

/-- What holds of the characters up to one, each told by its number, holds of a character up to it. -/
theorem of_forall_ofNat {p : Char → Prop} {c last : Char} (h : ∀ i < last.toNat + 1, p (.ofNat i))
    (hc : c ≤ last) : p c := by
  have hchar := h c.toNat (Nat.lt_succ_of_le hc)
  rwa [Char.ofNat_toNat] at hchar

theorem stands_of_digit? {c : Char} {d : Nat} (h : digit? c = some d) : Stands c d := by
  have hc : c ≤ 'f' := by
    unfold digit? at h
    split at h
    · next hc => exact Char.le_trans hc.2 (by decide)
    split at h
    · next hc => exact hc.2
    split at h
    · next hc => exact Char.le_trans hc.2 (by decide)
    · cases h
  have hstands := of_forall_ofNat (p := fun c => ∀ d ∈ digit? c, Stands c d) (by decide) hc
  exact hstands d h

theorem digit?_eq_some_iff {c : Char} {d : Nat} : digit? c = some d ↔ Stands c d := by
  refine ⟨stands_of_digit?, fun h => ?_⟩
  have hdigits : ∀ d < 16, ("0123456789abcdef".toList[d]?.bind digit?) = some d ∧
      ("0123456789ABCDEF".toList[d]?.bind digit?) = some d := by decide
  obtain ⟨hlower, hupper⟩ := hdigits d h.lt
  rcases h with h | h
  · rwa [h] at hlower
  · rwa [h] at hupper

/-! ### Numerals -/

/-- `cs` is a numeral of `n`: digits of the base, the highest first. -/
inductive Denotes (base : Nat) : List Char → Nat → Prop
  | digit {c : Char} {d : Nat} (hc : Stands c d) (hd : d < base) : Denotes base [c] d
  | append {cs : List Char} {n : Nat} {c : Char} {d : Nat} (h : Denotes base cs n) (hc : Stands c d) (hd : d < base) :
    Denotes base (cs ++ [c]) (n * base + d)

namespace Denotes

theorem ne_nil (h : Denotes base cs n) : cs ≠ [] := by
  cases h <;> simp

theorem mem_figures (h : Denotes base cs n) {c : Char} (hmem : c ∈ cs) : c ∈ figures := by
  induction h with
  | digit hc hd => exact List.mem_singleton.mp hmem ▸ hc.mem_figures
  | append h hc hd ih =>
    rcases List.mem_append.mp hmem with hmem | hmem
    · exact ih hmem
    · exact List.mem_singleton.mp hmem ▸ hc.mem_figures

theorem zero_cons (h : Denotes base cs n) : Denotes base ('0' :: cs) n := by
  have hzero : Stands '0' 0 := by decide
  induction h with
  | digit hc hd =>
    have h := append (digit hzero (Nat.zero_lt_of_lt hd)) hc hd
    rwa [Nat.zero_mul, Nat.zero_add] at h
  | append h hc hd ih => exact append ih hc hd

theorem replicate_append (h : Denotes base cs n) (count : Nat) :
    Denotes base (List.replicate count '0' ++ cs) n := by
  induction count with
  | zero => exact h
  | succ count ih =>
    rw [List.replicate_succ, List.cons_append]
    exact ih.zero_cons

end Denotes

/-! ### Reading -/

theorem natural?_cons (c : Char) (cs : List Char) :
    natural? base bound (c :: cs) = (c :: cs).foldlM (fun n c => (digit? c).bind fun d =>
      if d < base ∧ n * base + d < bound then some (n * base + d) else none) 0 := rfl

theorem natural?_singleton (c : Char) :
    natural? base bound [c] = (digit? c).bind fun d =>
      if d < base ∧ 0 * base + d < bound then some (0 * base + d) else none := by
  rw [natural?_cons, List.foldlM_cons]
  exact bind_pure _

theorem natural?_append_singleton (hcs : cs ≠ []) (c : Char) :
    natural? base bound (cs ++ [c]) = (natural? base bound cs).bind fun n => (digit? c).bind fun d =>
      if d < base ∧ n * base + d < bound then some (n * base + d) else none := by
  obtain ⟨first, rest, rfl⟩ := List.exists_cons_of_ne_nil hcs
  rw [List.cons_append, natural?_cons, natural?_cons, ← List.cons_append, List.foldlM_append]
  refine bind_congr fun n => ?_
  rw [List.foldlM_cons]
  exact bind_pure _

/-- A digit is read onto a number if it is one of the base and the bound is not reached. -/
theorem bind_digit?_eq_some_iff {c : Char} {m n : Nat} :
    ((digit? c).bind fun d => if d < base ∧ m * base + d < bound then some (m * base + d) else none) = some n ↔
      ∃ d < base, Stands c d ∧ n = m * base + d ∧ n < bound := by
  simp only [Option.bind_eq_some_iff, Option.ite_none_right_eq_some, digit?_eq_some_iff]
  constructor
  · rintro ⟨d, hc, ⟨hd, hbound⟩, hn⟩
    cases hn
    exact ⟨d, hd, hc, rfl, hbound⟩
  · rintro ⟨d, hd, hc, rfl, hbound⟩
    exact ⟨d, hc, ⟨hd, hbound⟩, rfl⟩

theorem natural?_eq_some_iff : natural? base bound cs = some n ↔ Denotes base cs n ∧ n < bound := by
  constructor
  · intro h
    induction cs using List.reverseRecOn generalizing n with
    | nil => cases h
    | append_singleton cs c ih =>
      rcases eq_or_ne cs [] with rfl | hcs
      · rw [List.nil_append, natural?_singleton] at h
        obtain ⟨d, hd, hc, rfl, hbound⟩ := bind_digit?_eq_some_iff.mp h
        rw [Nat.zero_mul, Nat.zero_add] at hbound ⊢
        exact ⟨.digit hc hd, hbound⟩
      · rw [natural?_append_singleton hcs] at h
        obtain ⟨m, hm, h⟩ := Option.bind_eq_some_iff.mp h
        obtain ⟨d, hd, hc, rfl, hbound⟩ := bind_digit?_eq_some_iff.mp h
        exact ⟨.append (ih hm).1 hc hd, hbound⟩
  · rintro ⟨h, hbound⟩
    induction h with
    | digit hc hd =>
      rw [natural?_singleton]
      exact bind_digit?_eq_some_iff.mpr ⟨_, hd, hc, by rw [Nat.zero_mul, Nat.zero_add], hbound⟩
    | @append cs m c d h hc hd ih =>
      -- The first digits denote no more than all of them.
      have hm : m ≤ m * base := Nat.le_mul_of_pos_right m (Nat.zero_lt_of_lt hd)
      rw [natural?_append_singleton h.ne_nil, ih (by omega)]
      exact bind_digit?_eq_some_iff.mpr ⟨d, hd, hc, rfl, hbound⟩

/-- A numeral denotes one number. -/
theorem Denotes.unique {m : Nat} (hm : Denotes base cs m) (hn : Denotes base cs n) : m = n := by
  have hreadm : natural? base (m + n + 1) cs = some m := natural?_eq_some_iff.mpr ⟨hm, by omega⟩
  have hreadn : natural? base (m + n + 1) cs = some n := natural?_eq_some_iff.mpr ⟨hn, by omega⟩
  exact Option.some.inj (hreadm.symm.trans hreadn)

/-- `cs` is a numeral of `n` after a plus sign or none. -/
inductive DenotesUnsigned (base : Nat) : List Char → Nat → Prop
  | plain {cs : List Char} {n : Nat} (h : Denotes base cs n) : DenotesUnsigned base cs n
  | plus {cs : List Char} {n : Nat} (h : Denotes base cs n) : DenotesUnsigned base ('+' :: cs) n

theorem DenotesUnsigned.mem_figures (h : DenotesUnsigned base cs n) {c : Char} (hc : c ∈ cs) :
    c = '+' ∨ c ∈ figures := by
  cases h with
  | plain h => exact Or.inr (h.mem_figures hc)
  | plus h => exact (List.mem_cons.mp hc).imp_right h.mem_figures

theorem unsigned?_eq_some_iff : unsigned? base bound cs = some n ↔ DenotesUnsigned base cs n ∧ n < bound := by
  unfold unsigned?
  split
  · next cs =>
    rw [natural?_eq_some_iff]
    refine and_congr_left fun _ => ⟨.plus, fun h => ?_⟩
    cases h with
    | plain h => exact absurd (h.mem_figures List.mem_cons_self) (by decide)
    | plus h => exact h
  · next hplus =>
    rw [natural?_eq_some_iff]
    refine and_congr_left fun _ => ⟨.plain, fun h => ?_⟩
    cases h with
    | plain h => exact h
    | plus h => exact absurd rfl (hplus _)

theorem DenotesUnsigned.unique {m : Nat} (hm : DenotesUnsigned base cs m) (hn : DenotesUnsigned base cs n) : m = n := by
  have hreadm : unsigned? base (m + n + 1) cs = some m := unsigned?_eq_some_iff.mpr ⟨hm, by omega⟩
  have hreadn : unsigned? base (m + n + 1) cs = some n := unsigned?_eq_some_iff.mpr ⟨hn, by omega⟩
  exact Option.some.inj (hreadm.symm.trans hreadn)

/-! ### Writing -/

theorem denotes_digits (hlow : 2 ≤ base) (hhigh : base ≤ 16) (n : Nat) : Denotes base (digits base n) n := by
  fun_induction digits base n with
  | case1 n hn =>
    have hn' : n < base := by omega
    exact .digit (stands_digit (by omega)) hn'
  | case2 n hn ih =>
    have hrest : n % base < base := Nat.mod_lt _ (by omega)
    have h := ih.append (stands_digit (by omega)) hrest
    rwa [Nat.div_add_mod'] at h

theorem denotes_decimal (n : Nat) : Denotes 10 (decimal n).toList n := by
  rw [decimal, String.toList_ofList]
  exact denotes_digits (by decide) (by decide) n

theorem denotes_hex (n width : Nat) : Denotes 16 (hex n width).toList n := by
  rw [hex, String.toList_ofList]
  exact (denotes_digits (by decide) (by decide) n).replicate_append _

theorem decimal_inj {m : Nat} (h : (decimal m).toList = (decimal n).toList) : m = n :=
  (denotes_decimal m).unique (h ▸ denotes_decimal n)

theorem hex_inj {m width : Nat} (h : (hex m width).toList = (hex n width).toList) : m = n :=
  (denotes_hex m width).unique (h ▸ denotes_hex n width)

theorem stands_of_toUpper {c : Char} {d : Nat} (h : Stands c.toUpper d) : Stands c d := by
  by_cases hc : c ≤ 'z'
  · have hstands := of_forall_ofNat (p := fun c => ∀ d ∈ digit? c.toUpper, Stands c d) (by decide) hc
    exact hstands d (digit?_eq_some_iff.mpr h)
  · have hupper : c.toUpper = c := dif_neg fun hlower => hc hlower.2
    rwa [hupper] at h

/-- The letters of a numeral may be of either case. -/
theorem Denotes.of_map_toUpper (h : Denotes base (cs.map Char.toUpper) n) : Denotes base cs n := by
  generalize hds : cs.map Char.toUpper = ds at h
  induction h generalizing cs with
  | digit hc hd =>
    obtain ⟨c, rfl, rfl⟩ := List.map_eq_singleton_iff.mp hds
    exact .digit (stands_of_toUpper hc) hd
  | append h hc hd ih =>
    obtain ⟨cs, last, rfl, hcs, hlast⟩ := List.map_eq_append_iff.mp hds
    obtain ⟨c, rfl, rfl⟩ := List.map_eq_singleton_iff.mp hlast
    exact .append (ih hcs) (stands_of_toUpper hc) hd

end Maxwell.Numeral
