/-! The command line of a replay.

    A switch has a long name after two dashes, and most have a letter too. Letters may stand together after one
    dash. A switch that takes a text takes the rest of its argument, or else the next argument, which must not
    look like a switch. No switch may be given twice. -/

namespace Maxwell.Replay

/-- What a replay is asked to do. -/
structure Options where
  trace : String
  config : Option String := none
  verbose : Bool := false
  dump : Bool := false
  deriving DecidableEq, Repr

/-- What a command line asks for. -/
inductive Command where
  | replay (options : Options)
  | help
  | version
  deriving DecidableEq, Repr

/-! ### Switches -/

/-- A switch that takes a text. -/
inductive Taking where
  | trace
  | config
  deriving DecidableEq, Repr

/-- A switch that stands alone. -/
inductive Plain where
  | verbose
  | dump
  | help
  | version
  deriving DecidableEq, Repr

/-- A switch. -/
inductive Switch where
  | taking (switch : Taking)
  | plain (switch : Plain)
  deriving DecidableEq, Repr

def Switch.ofName? (name : String) : Option Switch :=
  match name with
  | "trace" => some (.taking .trace)
  | "config" => some (.taking .config)
  | "verbose" => some (.plain .verbose)
  | "dump" => some (.plain .dump)
  | "help" => some (.plain .help)
  | "version" => some (.plain .version)
  | _ => none

def Switch.ofLetter? : Char → Option Switch
  | 't' => some (.taking .trace)
  | 'c' => some (.taking .config)
  | 'v' => some (.plain .verbose)
  | 'h' => some (.plain .help)
  | 'V' => some (.plain .version)
  | _ => none

/-! ### Arguments as switches -/

/-- A switch as it was given, or something that is none. -/
inductive Given where
  | text (switch : Taking) (text : String)
  | plain (switch : Plain)
  | wrong
  deriving DecidableEq, Repr

/-- The switches in letters that stand together, and the last of them if its text is still to come. -/
def ofLetters : List Char → List Given × Option Taking
  | [] => ([], none)
  | c :: cs =>
    match Switch.ofLetter? c with
    | none => ([.wrong], none)
    | some (.plain switch) =>
      let (given, wanting) := ofLetters cs
      (.plain switch :: given, wanting)
    | some (.taking switch) =>
      match cs with
      | [] => ([], some switch)
      | '=' :: text => ([.text switch (.ofList text)], none)
      | text => ([.text switch (.ofList text)], none)

/-- The switch with a long name, which may have a text after `=`. -/
def ofLong (cs : List Char) : List Given × Option Taking :=
  let text := (cs.dropWhile (· ≠ '=')).drop 1
  match Switch.ofName? (.ofList (cs.takeWhile (· ≠ '='))), cs.contains '=' with
  | some (.taking switch), true => ([.text switch (.ofList text)], none)
  | some (.taking switch), false => ([], some switch)
  | some (.plain switch), false => ([.plain switch], none)
  | some (.plain _), true | none, _ => ([.wrong], none)

/-- Whether an argument looks like a switch. A dash alone does not. -/
def looksLikeSwitch (argument : String) : Bool :=
  match argument.toList with
  | '-' :: _ :: _ => true
  | _ => false

/-- The switches of a command line, up to two dashes that stand alone. Nothing may follow those. -/
def givenIn : List String → List Given
  | [] => []
  | argument :: rest =>
    let (given, wanting) : List Given × Option Taking :=
      match argument.toList with
      | '-' :: '-' :: cs => ofLong cs
      | '-' :: c :: cs => ofLetters (c :: cs)
      | _ => ([.wrong], none)
    if argument = "--" then if rest.isEmpty then [] else [.wrong]
    else
      match wanting, rest with
      | none, rest => given ++ givenIn rest
      | some _, [] => given ++ [.wrong]
      | some switch, text :: rest =>
        given ++ if looksLikeSwitch text then [.wrong] else .text switch text :: givenIn rest

/-! ### Switches as a command -/

/-- The options of the switches so far. -/
structure Draft where
  trace : Option String := none
  config : Option String := none
  verbose : Bool := false
  dump : Bool := false

/-- The command of switches, taken from left to right. Help and version end the command line at once. -/
def Draft.command? (draft : Draft) : List Given → Option Command
  | [] => draft.trace.map fun trace => .replay ⟨trace, draft.config, draft.verbose, draft.dump⟩
  | .text switch text :: rest =>
    if text = "" then none
    else
      match switch with
      | .trace => if draft.trace.isSome then none else command? { draft with trace := text } rest
      | .config => if draft.config.isSome then none else command? { draft with config := text } rest
  | .plain .verbose :: rest => if draft.verbose then none else command? { draft with verbose := true } rest
  | .plain .dump :: rest => if draft.dump then none else command? { draft with dump := true } rest
  | .plain .help :: _ => some .help
  | .plain .version :: _ => some .version
  | .wrong :: _ => none

/-- The command of a command line, if it is one. -/
def Command.parse? (arguments : List String) : Option Command := Draft.command? {} (givenIn arguments)

end Maxwell.Replay
