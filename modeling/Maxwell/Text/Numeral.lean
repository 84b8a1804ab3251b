/-! Numerals: the digits of a number in a base, and the number that digits denote. -/

namespace Maxwell.Numeral

/-- The digit of value `d`, in upper case above nine. -/
def digit (d : Nat) : Char :=
  if d < 10 then Char.ofNat ('0'.toNat + d) else Char.ofNat ('A'.toNat + (d - 10))

/-- The value of a digit of either case, below sixteen. -/
def digit? (c : Char) : Option Nat :=
  if '0' ≤ c ∧ c ≤ '9' then some (c.toNat - '0'.toNat)
  else if 'a' ≤ c ∧ c ≤ 'f' then some (c.toNat - 'a'.toNat + 10)
  else if 'A' ≤ c ∧ c ≤ 'F' then some (c.toNat - 'A'.toNat + 10)
  else none

/-- The digits of `n`, the highest first and without leading zeros. A base below two has no digits to
    split, and gives one. -/
def digits (base n : Nat) : List Char :=
  if base < 2 ∨ n < base then [digit n] else digits base (n / base) ++ [digit (n % base)]
termination_by n
decreasing_by
  rename_i h
  exact Nat.div_lt_self (by omega) (by omega)

/-- The number below `bound` denoted by `cs`, one digit of the base or more and nothing else. No number is
    below one that its first digits denote, so reading stops at the digit that reaches the bound. -/
def natural? (base bound : Nat) : List Char → Option Nat
  | [] => none
  | cs =>
    cs.foldlM (fun n c => (digit? c).bind fun d =>
      if d < base ∧ n * base + d < bound then some (n * base + d) else none) 0

/-- The number below `bound` denoted by `cs`, digits of the base after a plus sign or none. -/
def unsigned? (base bound : Nat) : List Char → Option Nat
  | '+' :: cs => natural? base bound cs
  | cs => natural? base bound cs

/-- The decimal numeral of `n`. -/
def decimal (n : Nat) : String := .ofList (digits 10 n)

/-- The hexadecimal numeral of `n`, filled up with zeros to `width` digits. -/
def hex (n : Nat) (width : Nat) : String :=
  let cs := digits 16 n
  .ofList (List.replicate (width - cs.length) '0' ++ cs)

end Maxwell.Numeral
