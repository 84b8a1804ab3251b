import Maxwell.Ini.Document
import Maxwell.Text.Blank
import Maxwell.Text.Quoted

/-! Reading INI documents.

    A document is a run of comments, headings and properties, with blanks between them. A comment starts with
    `;` or `#` at the start of a line and ends with it. A heading stands in brackets. A property is a key, `=`
    or `:`, and a value that ends with its line. A key may reach over several lines. Parts of a value may stand
    in quotes, which keep blanks and line breaks, and a backslash starts an escape.

    An indented line, one that starts with spaces or tabs, holds a heading, nothing, or a property: it has no
    comments. Where its key cannot be read, what was read of it is left out. Blanks other than spaces, tabs and
    line breaks belong to a key that they start at the start of the text and after an indented line with nothing
    on it. -/

namespace Maxwell.Ini
open Blank Numeral

/-! ### Places -/

/-- A character with its place: lines count from 0, columns from 1. A line break is column 0 of the line
    that it opens. -/
structure Located where
  char : Char
  line : Nat
  column : Nat
  deriving DecidableEq, Repr

/-- The characters of a text with their places, after a character at a given place. -/
def locate (line column : Nat) : List Char → List Located
  | [] => []
  | '\n' :: cs => ⟨'\n', line + 1, 0⟩ :: locate (line + 1) 0 cs
  | c :: cs => ⟨c, line, column + 1⟩ :: locate line (column + 1) cs

/-! ### Faults -/

/-- What ends a run of characters. -/
inductive Stop where
  | bracket
  | assignment
  | quote (mark : Char)
  | lineEnd
  deriving DecidableEq, Repr

/-- The characters that end a run. -/
def Stop.chars : Stop → List Char
  | .bracket => [']']
  | .assignment => ['=', ':']
  | .quote mark => [mark]
  | .lineEnd => ['\n', '\r']

/-- Whether a run may end with the text. -/
def Stop.atEnd : Stop → Bool
  | .lineEnd => true
  | _ => false

/-- A character or the end of the text, in words. -/
def expectation : Option Char → String
  | some c => "Some(" ++ Quoted.character c ++ ")"
  | none => "None"

/-- What may end a run, in words. -/
def Stop.message (stop : Stop) : String :=
  let ends := stop.chars.map some ++ if stop.atEnd then [none] else []
  "[" ++ ", ".intercalate (ends.map expectation) ++ "]"

/-- What is wrong with a text. -/
inductive Flaw where
  /-- A comment does not start its line. -/
  | inlineComment
  /-- There is no key before `=` or `:`. -/
  | missingKey
  /-- The text ends within a run. -/
  | unfinished (stop : Stop)
  /-- A number in an escape is not that of a character. -/
  | unknownCharacter
  /-- A backslash in the number of an escape is not followed by a line break. -/
  | brokenNumber (found : Option Char)
  deriving DecidableEq, Repr

def Flaw.message : Flaw → String
  | .inlineComment => "doesn't support inline comment"
  | .missingKey => "missing key"
  | .unfinished stop => "expecting \"" ++ stop.message ++ "\" but found EOF."
  | .unknownCharacter => "unknown character in \\xHH form"
  | .brokenNumber found => "expecting \"\\\\n\" but found \"" ++ expectation found ++ "\"."

/-- A flaw, with the text from its place on. -/
structure Failure where
  flaw : Flaw
  rest : List Located
  deriving DecidableEq, Repr

/-- What is said of a failure in a text. A flaw at the end has the place of the last character. Both numbers
    of a place are one higher than the character's own. -/
def Failure.message (text : List Located) (failure : Failure) : String :=
  let (line, column) :=
    match failure.rest.head?.or text.getLast? with
    | some c => (c.line, c.column)
    | none => (0, 0)
  decimal (line + 1) ++ ":" ++ decimal (column + 1) ++ " " ++ failure.flaw.message

/-! ### Runs -/

/-- The character that an escape of one letter stands for. A line break stands for nothing, and what has no
    meaning of its own for itself. -/
def escaped : Char → List Char
  | '0' => ['\x00']
  | 'a' => ['\x07']
  | 'b' => ['\x08']
  | 't' => ['\t']
  | 'r' => ['\r']
  | 'n' => ['\n']
  | '\n' => []
  | c => [c]

/-- The character with the number of a hexadecimal numeral. -/
def numbered? (cs : List Char) : Option Char :=
  (unsigned? 16 0x110000 cs).bind fun n => if n.isValidChar then some (.ofNat n) else none

/-- Why the next `count` characters are not the number of a character. -/
def numberFailure (stop : Stop) : (count : Nat) → List Located → Failure
  | _, [] => ⟨.unfinished stop, []⟩
  | count, c :: cs =>
    if c.char = '\\' then
      match cs with
      | [] => ⟨.brokenNumber none, []⟩
      | d :: cs =>
        if d.char ≠ '\n' then ⟨.brokenNumber d.char, d :: cs⟩
        else if count ≤ 1 then ⟨.unknownCharacter, d :: cs⟩
        else numberFailure stop (count - 1) cs
    else if count ≤ 1 then ⟨.unknownCharacter, c :: cs⟩
    else numberFailure stop (count - 1) cs

/-- Puts characters in front of a run. -/
def prepend (cs : List Char) :
    Except Failure (List Char × List Located) → Except Failure (List Char × List Located)
  | .ok (run, rest) => .ok (cs ++ run, rest)
  | .error failure => .error failure

/-- Reads a run, with its escapes resolved, up to what ends it. A backslash at the end of the text stands for
    itself. -/
def readRun (stop : Stop) : List Located → Except Failure (List Char × List Located)
  | [] => if stop.atEnd then .ok ([], []) else .error ⟨.unfinished stop, []⟩
  | c :: cs =>
    if c.char ∈ stop.chars then .ok ([], c :: cs)
    else if c.char = '\\' then
      match cs with
      | [] => if stop.atEnd then .ok ([c.char], []) else .error ⟨.unfinished stop, []⟩
      | e :: cs =>
        if e.char = 'x' then
          match cs with
          | c₁ :: c₂ :: c₃ :: c₄ :: rest =>
            match numbered? [c₁.char, c₂.char, c₃.char, c₄.char] with
            | some char => prepend [char] (readRun stop rest)
            | none => .error (numberFailure stop 4 cs)
          | _ => .error (numberFailure stop 4 cs)
        else prepend (escaped e.char) (readRun stop cs)
    else prepend [c.char] (readRun stop cs)

theorem length_rest_numberFailure_le (stop : Stop) (count : Nat) (text : List Located) :
    (numberFailure stop count text).rest.length ≤ text.length := by
  fun_induction numberFailure stop count text <;>
    grind

theorem prepend_eq_ok {cs run : List Char} {rest : List Located}
    {result : Except Failure (List Char × List Located)} (h : prepend cs result = .ok (run, rest)) :
    ∃ run', result = .ok (run', rest) := by
  unfold prepend at h
  split at h
  · cases h
    exact ⟨_, rfl⟩
  · cases h

/-- A run does not lengthen the text. -/
theorem length_le_of_readRun {stop : Stop} {text rest : List Located} {run : List Char}
    (h : readRun stop text = .ok (run, rest)) : rest.length ≤ text.length := by
  fun_induction readRun stop text generalizing run rest <;>
    grind [prepend_eq_ok]

theorem prepend_eq_error {cs : List Char} {failure : Failure}
    {result : Except Failure (List Char × List Located)} (h : prepend cs result = .error failure) :
    result = .error failure := by
  unfold prepend at h
  split at h
  · cases h
  · cases h
    rfl

/-- A failed run does not lengthen the text. -/
theorem length_rest_le_of_readRun {stop : Stop} {text : List Located} {failure : Failure}
    (h : readRun stop text = .error failure) : failure.rest.length ≤ text.length := by
  fun_induction readRun stop text generalizing failure <;>
    simp only [List.length_cons, List.length_nil] <;>
    grind [prepend_eq_error, length_rest_numberFailure_le]

/-! ### Values -/

theorem length_dropWhile_le {α : Type} (p : α → Bool) (l : List α) : (l.dropWhile p).length ≤ l.length :=
  (List.dropWhile_sublist p).length_le

/-- Leaves out the blanks that do not break the line. -/
def skipInLine (text : List Located) : List Located :=
  text.dropWhile fun c => isBlank c.char && c.char ≠ '\n' && c.char ≠ '\r'

/-- Reads the parts of a value: any number in quotes, and a last one without, which is trimmed. Only the first
    part is trimmed at its start. -/
def readParts (first : Bool) (text : List Located) : Except Failure (List Char × List Located) :=
  match text with
  | [] => .ok ([], [])
  | c :: cs =>
    if c.char = '"' ∨ c.char = '\'' then
      match _h : readRun (.quote c.char) cs with
      | .ok (part, rest) => prepend part (readParts false (rest.drop 1))
      | .error failure => .error failure
    else
      match readRun .lineEnd (c :: cs) with
      | .ok (part, rest) => .ok (if first then trim part else trimEnd part, rest)
      | .error failure => .error failure
termination_by text.length
decreasing_by
  have := length_le_of_readRun _h
  simp only [List.length_drop, List.length_cons]
  omega

/-- A value does not lengthen the text. -/
theorem length_le_of_readParts {first : Bool} {text rest : List Located} {value : List Char}
    (h : readParts first text = .ok (value, rest)) : rest.length ≤ text.length := by
  fun_induction readParts first text generalizing value rest with
  | case1 => grind
  | case2 first c cs mark part rest₁ run ih =>
    obtain ⟨value', h⟩ := prepend_eq_ok h
    have := ih h
    have := length_le_of_readRun run
    simp only [List.length_drop, List.length_cons] at *
    omega
  | case3 => cases h
  | case4 first c cs mark part rest₁ run =>
    cases h
    exact length_le_of_readRun run
  | case5 => cases h

/-- Reads a value. -/
def readValue (text : List Located) : Except Failure (List Char × List Located) := readParts true (skipInLine text)

theorem length_le_of_readValue {text rest : List Located} {value : List Char}
    (h : readValue text = .ok (value, rest)) : rest.length ≤ text.length :=
  Nat.le_trans (length_le_of_readParts h) (length_dropWhile_le _ _)

/-! ### Documents -/

/-- Whether `c` breaks a line. -/
def isBreak (c : Char) : Bool := c = '\n' || c = '\r'

/-- Whether `c` indents a line that it starts. -/
def isIndent (c : Char) : Bool := c = ' ' || c = '\t'

/-- Leaves out the indent of a line. -/
def skipIndent (text : List Located) : List Located := text.dropWhile fun c => isIndent c.char

theorem length_skipIndent_le (text : List Located) : (skipIndent text).length ≤ text.length :=
  length_dropWhile_le _ _

theorem skipIndent_cons {c : Located} {cs : List Located} (h : isIndent c.char) :
    skipIndent (c :: cs) = skipIndent cs := by
  simp [skipIndent, h]

/-- Leaves out blanks, up to the next item or the next indented line. -/
def skipBlanks : List Located → List Located
  | [] => []
  | c :: cs =>
    if isBreak c.char then if cs.head?.any fun d => isIndent d.char then cs else skipBlanks cs
    else if isBlank c.char then skipBlanks cs
    else c :: cs

theorem length_skipBlanks_le (text : List Located) : (skipBlanks text).length ≤ text.length := by
  fun_induction skipBlanks text <;> grind

/-- Leaves out the rest of a line. -/
def skipLine (text : List Located) : List Located := (text.dropWhile fun c => c.char ≠ '\n').drop 1

/-- Reads the value of a property, from the mark after its key on. -/
def readProperty (key : List Char) (text : List Located) : Except Failure (Item × List Located) :=
  if trim key = [] then .error ⟨.missingKey, text⟩
  else
    match readValue (text.drop 1) with
    | .ok (value, rest) => .ok (.property (.ofList (trim key)) (.ofList value), rest)
    | .error failure => .error failure

theorem length_le_of_readProperty {key : List Char} {text rest : List Located} {item : Item}
    (h : readProperty key text = .ok (item, rest)) : rest.length ≤ text.length - 1 := by
  unfold readProperty at h
  split at h
  · cases h
  · split at h
    · rename_i hvalue
      cases h
      simpa using length_le_of_readValue hvalue
    · cases h

/-- Reads the items of a document. -/
def readItems (text : List Located) : Except Failure (List Item) :=
  match text with
  | [] => .ok []
  | c :: cs =>
    if c.char = ';' ∨ c.char = '#' then
      if 1 < c.column then .error ⟨.inlineComment, c :: cs⟩ else readItems (skipBlanks (skipLine cs))
    else if isBreak c.char then readItems (skipBlanks cs)
    else
      match _line : skipIndent (c :: cs) with
      | [] => .ok []
      | d :: ds =>
        if d.char = '[' then
          match _run : readRun .bracket ds with
          | .ok (name, rest) => (.heading (.ofList (trim name)) :: ·) <$> readItems (skipBlanks (rest.drop 1))
          | .error failure => .error failure
        else if isBreak d.char then readItems ds
        else
          match _run : readRun .assignment (d :: ds) with
          | .ok (key, rest) =>
            match _property : readProperty key rest with
            | .ok (item, rest) => (item :: ·) <$> readItems (skipBlanks rest)
            | .error failure => .error failure
          | .error failure =>
            if _indent : isIndent c.char then readItems (skipBlanks failure.rest) else .error failure
termination_by text.length
decreasing_by
  · have := length_skipBlanks_le (skipLine cs)
    have := length_dropWhile_le (fun c => c.char ≠ '\n') cs
    simp only [skipLine, List.length_drop, List.length_cons] at *
    omega
  · have := length_skipBlanks_le cs
    grind
  · have := length_skipIndent_le (c :: cs)
    have := length_le_of_readRun _run
    have := length_skipBlanks_le (rest.drop 1)
    grind
  · have := length_skipIndent_le (c :: cs)
    grind
  · have := length_skipIndent_le (c :: cs)
    have := length_le_of_readRun _run
    have := length_le_of_readProperty _property
    have := length_skipBlanks_le rest
    grind
  · have := length_skipIndent_le cs
    have := length_rest_le_of_readRun _run
    have := length_skipBlanks_le failure.rest
    grind [skipIndent_cons]

/-- The document of a text, or what is wrong with it. -/
def read (text : String) : Except String Ini :=
  let located := locate 0 0 text.toList
  match readItems located with
  | .ok items => .ok (ofItems items)
  | .error failure => .error (failure.message located)

end Maxwell.Ini
