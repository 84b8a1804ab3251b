import Maxwell.Ini.Reader
import Maxwell.Replay.Log
import Maxwell.Settings

/-! Files as a replay finds them, and the settings that a configuration file gives. -/

namespace Maxwell.Replay
open Numeral

/-- Why a file cannot be read. -/
inductive FileFault where
  | notFound
  | notDirectory
  | isDirectory
  | nameTooLong
  | other (reason : String)
  deriving DecidableEq, Repr

def FileFault.message : FileFault → String
  | .notFound => "No such file or directory (os error 2)"
  | .notDirectory => "Not a directory (os error 20)"
  | .isDirectory => "Is a directory (os error 21)"
  | .nameTooLong => "File name too long (os error 36)"
  | .other reason => reason

/-- A file as it was found under a path. -/
structure Source where
  path : String
  contents : Except FileFault ByteArray

/-- Whether there is a file or a directory under the path. -/
def Source.present (source : Source) : Bool :=
  match source.contents with
  | .error .notFound | .error .notDirectory | .error .nameTooLong => false
  | _ => true

/-- The text of a file. A byte order mark at its start is not part of it. -/
def Source.text (source : Source) : Except String String :=
  match source.contents with
  | .error fault => .error fault.message
  | .ok bytes =>
    match String.fromUTF8? bytes with
    | none => .error "stream did not contain valid UTF-8"
    | some text =>
      match text.toList with
      | '\uFEFF' :: cs => .ok (.ofList cs)
      | _ => .ok text

/-- The document in a file. -/
def Source.ini (source : Source) : Except String Ini := source.text.bind Ini.read

/-- What is logged of a number in a document: that it is out of range, or what it sets. -/
def remarks (key : String) (text : Option String) (read? : String → Option Nat) (accepted : Nat → List LogLine) :
    List LogLine :=
  match text with
  | none => []
  | some text =>
    match read? text with
    | none => [⟨.warn, "Ignoring " ++ key ++ " = " ++ Quoted.string text⟩]
    | some n => accepted n

/-- What is logged of a document. -/
def remarksOn (ini : Ini) : List LogLine :=
  remarks "macro_step_limit" (Settings.stepLimitText ini) Settings.stepLimit?
    (fun n => [⟨.debug, "Macro step limit: 0x" ++ hex n 1⟩]) ++
  remarks "memory_size" (Settings.memorySizeText ini) Settings.memorySize? (fun _ => [])

/-- The settings of a replay, and what is logged about them. Without a configuration that can be read, they
    are the defaults. -/
def configure : Option Source → Settings × List LogLine
  | none => ({}, [⟨.info, "No config given, using defaults"⟩])
  | some source =>
    if source.present then
      let loading : LogLine := ⟨.info, "Loading config from: " ++ source.path⟩
      match source.ini with
      | .error reason => ({}, [loading, ⟨.warn, "Failed to parse config: " ++ reason⟩])
      | .ok ini => (Settings.overlay {} ini, loading :: remarksOn ini)
    else ({}, [⟨.warn, "Config file not found: " ++ source.path⟩])

end Maxwell.Replay
