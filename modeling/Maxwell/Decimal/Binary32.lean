import Maxwell.Decimal.Shortest
import Maxwell.Text.Numeral
import Maxwell.Word

/-! 32-bit floating-point numbers as decimal text: the fewest digits that read back as the same number. -/

namespace Maxwell.Decimal
open Numeral

/-! ### Values -/

/-- The interval of the reals that are read as the positive number with a fraction field of 23 bits and an
    exponent field of 8 bits, below 255. Below a power of two the numbers lie twice as close as above it. -/
def roundingInterval (exponentField fraction : Nat) : Interval :=
  if exponentField = 0 then ⟨2 * fraction - 1, 2 * fraction, 2 * fraction + 1, -150, true⟩
  else
    let mantissa := 0x800000 + fraction
    let closed := mantissa % 2 == 0
    if fraction = 0 then ⟨4 * mantissa - 1, 4 * mantissa, 4 * mantissa + 2, exponentField - 152, closed⟩
    else ⟨2 * mantissa - 1, 2 * mantissa, 2 * mantissa + 1, exponentField - 151, closed⟩

/-- The shortest decimal of a positive number. All of them are less than `10 ^ 39`, and every rounding interval is
    wider than `10 ^ -45`. -/
def shortest32 (exponentField fraction : Nat) : Scaled := (roundingInterval exponentField fraction).shortest 39 90

/-! ### Texts -/

/-- How numbers are written. -/
structure Style where
  /-- The least and the greatest power of ten of a first digit that is written without an exponent. -/
  positional : Option (Int × Int)
  /-- Whether a number without a fraction gets one, of a zero. -/
  zeroFraction : Bool

/-- The power of ten of the first digit. -/
def Scaled.magnitude (s : Scaled) : Int := s.exponent + (digits 10 s.coefficient).length - 1

/-- The decimal without an exponent. -/
def Scaled.positional (zeroFraction : Bool) (s : Scaled) : List Char :=
  let ds := digits 10 s.coefficient
  if 0 ≤ s.exponent then
    ds ++ List.replicate s.exponent.toNat '0' ++ (if zeroFraction then ['.', '0'] else [])
  else
    let places := (-s.exponent).toNat
    let ds := List.replicate (places + 1 - ds.length) '0' ++ ds
    ds.take (ds.length - places) ++ '.' :: ds.drop (ds.length - places)

/-- The decimal as its first digit, a fraction if there are more, and an exponent. -/
def Scaled.scientific (s : Scaled) : List Char :=
  let exponent := (if s.magnitude < 0 then ['-'] else []) ++ digits 10 s.magnitude.natAbs
  match digits 10 s.coefficient with
  | [d] => d :: 'e' :: exponent
  | d :: ds => d :: '.' :: ds ++ 'e' :: exponent
  | [] => []

/-- A decimal in a style. -/
def Scaled.text (style : Style) (s : Scaled) : List Char :=
  match style.positional with
  | none => s.positional style.zeroFraction
  | some (least, greatest) =>
    if s.coefficient = 0 ∨ (least ≤ s.magnitude ∧ s.magnitude ≤ greatest) then s.positional style.zeroFraction
    else s.scientific

/-- The number with the bits of `w`: a sign, eight bits of exponent and 23 of fraction. -/
def text32 (style : Style) (w : Word) : String :=
  let exponentField := w.field 23 8
  let fraction := w.field 0 23
  let sign := if w.bit 31 then ['-'] else []
  if exponentField = 255 then
    if fraction = 0 then .ofList (sign ++ ['i', 'n', 'f']) else "NaN"
  else if exponentField = 0 ∧ fraction = 0 then .ofList (sign ++ Scaled.text style ⟨0, 0⟩)
  else .ofList (sign ++ (shortest32 exponentField fraction).text style)

end Maxwell.Decimal
