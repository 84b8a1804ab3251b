import Maxwell.Text.Blank
import Maxwell.Text.Numeral

/-! The values of settings as texts: switches and numbers. Blanks around a value do not count. -/

namespace Maxwell.Settings
open Blank Numeral

/-- A switch: one of four words for on or for off, in either case. -/
def switch? (text : String) : Option Bool :=
  let word := String.ofList ((trim text.toList).map Char.toLower)
  if word ∈ ["1", "true", "yes", "on"] then some true
  else if word ∈ ["0", "false", "no", "off"] then some false
  else none

/-- A number below `2 ^ 64`: a decimal numeral, or a hexadecimal one after `0x`. Either may have a plus sign. -/
def number? (text : String) : Option Nat :=
  match trim text.toList with
  | '0' :: 'x' :: cs | '0' :: 'X' :: cs => unsigned? 16 0x10000000000000000 cs
  | cs => unsigned? 10 0x10000000000000000 cs

end Maxwell.Settings
