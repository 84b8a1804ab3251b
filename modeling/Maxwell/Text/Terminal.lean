/-! Text without what steers a terminal.

    A terminal acts on control characters and on the sequences that an escape character starts, and shows the
    rest. Blanks that are control characters are shown all the same: the tab, the line feed, the form feed and
    the carriage return. One of them within a sequence suspends it: text is shown again up to the next control
    character, and there the sequence goes on. -/

namespace Maxwell.Terminal

/-- Where a terminal is within a sequence. -/
inductive State where
  /-- In no sequence. -/
  | ground
  /-- After an escape character. -/
  | escape
  /-- In an escape sequence of several characters. -/
  | intermediate
  /-- In a control sequence, after `[`. -/
  | control
  /-- At the head of a device control string, after `P`. -/
  | device
  /-- Among the parameters of a device control string. -/
  | deviceParameters
  /-- Between the parameters of a device control string and its text. -/
  | deviceIntermediate
  /-- In the text of a device control string, a message or a command to an application. -/
  | text
  /-- In a command to the operating system, after `]`. -/
  | command
  deriving DecidableEq, Repr

/-- Whether `c` is from `first` to `last`. -/
def between (first last c : Char) : Bool := first ≤ c && c ≤ last

/-- Where `c` leads. A sequence is broken off by cancel and substitute, and a new one starts at an escape. A text
    ends with the byte `9C`, wherever it stands among the bytes of a character. -/
def State.next (state : State) (c : Char) : State :=
  if c = '\x1b' then .escape
  else if c = '\x18' || c = '\x1a' then .ground
  else
    match state with
    | .ground => .ground
    | .escape =>
      if between ' ' '/' c then .intermediate
      else if c = '[' then .control
      else if c = ']' then .command
      else if c = 'P' then .device
      else if c = 'X' || c = '^' || c = '_' then .text
      else if between '0' '~' c then .ground
      else .escape
    | .intermediate => if between '0' '~' c then .ground else .intermediate
    | .control => if between '@' '~' c then .ground else .control
    | .device =>
      if between ' ' '/' c then .deviceIntermediate
      else if between '0' '?' c then .deviceParameters
      else if between '@' '~' c then .text
      else .device
    | .deviceParameters =>
      if between ' ' '/' c then .deviceIntermediate
      else if between '<' '~' c then .text
      else .deviceParameters
    | .deviceIntermediate => if between '0' '~' c then .text else .deviceIntermediate
    | .text => if 0x9C ∈ String.utf8EncodeChar c then .ground else .text
    | .command => if c = '\x07' then .ground else .command

/-- Whether control characters keep their meaning within a sequence. -/
def State.heedsControls : State → Bool
  | .ground | .escape | .intermediate | .control => true
  | _ => false

/-- The blanks among the control characters. -/
def spacing : List Char := ['\t', '\n', '\x0c', '\r']

/-- Whether `c` is shown outside of sequences. -/
def isShown (c : Char) : Bool := c ∈ spacing || (' ' ≤ c && c ≠ '\x7f')

/-- What is shown of a text. `showing` says that characters are shown though a sequence may be suspended. A
    character that is not ASCII ends a suspended sequence. -/
def shown (showing : Bool) (state : State) : List Char → List Char
  | [] => []
  | c :: cs =>
    if isShown c && (showing || state = .ground || (c ∈ spacing && state.heedsControls)) then
      c :: shown true (if c ≤ '\x7f' then state else .ground) cs
    else shown false (state.next c) cs

/-- What a terminal shows of a text. -/
def plain (s : String) : String := .ofList (shown true .ground s.toList)

end Maxwell.Terminal
