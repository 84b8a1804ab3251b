import Maxwell.Text.Numeral
import Maxwell.Text.Unprintable

/-! Quoted text: characters and strings written so that every character can be seen. -/

namespace Maxwell.Quoted
open Numeral Unprintable

/-- The characters that are written as a backslash and a letter. -/
def letters : List (Char × Char) := [('\x00', '0'), ('\t', 't'), ('\r', 'r'), ('\n', 'n'), ('\\', '\\')]

/-- A character between two of `mark`. The mark itself gets a backslash, and what has no form of its own is
    written by its number. -/
def escape (mark c : Char) : List Char :=
  match letters.lookup c with
  | some letter => ['\\', letter]
  | none =>
    if c = mark then ['\\', c]
    else if isUnprintable c then "\\u\x7b".toList ++ (digits 16 c.toNat).map Char.toLower ++ ['\x7d']
    else [c]

/-- A character in single quotes. -/
def character (c : Char) : String := .ofList ('\'' :: escape '\'' c ++ ['\''])

/-- A string in double quotes. -/
def string (s : String) : String := .ofList ('"' :: s.toList.flatMap (escape '"') ++ ['"'])

end Maxwell.Quoted
