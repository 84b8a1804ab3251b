import Maxwell.Decimal.Binary32
import Maxwell.Host
import Maxwell.Replay.Log

/-! A sink that counts what it is told, and may log every report. -/

namespace Maxwell.Replay
open Numeral Decimal

/-- A sink that counts what it is told. -/
structure Narrator where
  /-- The level at which reports are logged, if they are. -/
  level : Option Level := none
  changes : Nat := 0
  flushes : Nat := 0
  clears : Nat := 0
  /-- What was logged, the latest first. -/
  lines : List LogLine := []
  deriving DecidableEq

/-! ### Texts -/

/-- An element of a list of numbers: positional from `10 ^ -4` to below `10 ^ 16`, always with a fraction. -/
def listed : Style := ⟨some (-4, 15), true⟩

/-- A number on its own: always positional, with a fraction only where it has one. -/
def alone : Style := ⟨none, false⟩

def componentName : ClearComponent → String
  | .depth => "DEPTH"
  | .stencil => "STENCIL"
  | .red => "RED"
  | .green => "GREEN"
  | .blue => "BLUE"
  | .alpha => "ALPHA"

def componentsText (components : List ClearComponent) : String :=
  let inside := if components.isEmpty then "0x0" else " | ".intercalate (components.map componentName)
  "ClearComponents(" ++ inside ++ ")"

def changeText (span : Span) : String :=
  "state: " ++ describe span.start ++ " (" ++ decimal (span.stop - span.start) ++ " words)"

def flushText (flushes changes : Nat) : String :=
  "flush #" ++ decimal flushes ++ " after " ++ decimal changes ++ " state changes"

def clearText (live : RegisterFile) (request : ClearRequest) : String :=
  "clear " ++ componentsText request.components ++ " rt=" ++ decimal request.renderTarget ++ " layer=" ++
    decimal request.layer ++ " color=[" ++ ", ".intercalate (live.clearColor.map (text32 listed)) ++ "] depth=" ++
    text32 alone live.clearDepth

namespace Narrator

/-- The counts in words. -/
def summary (n : Narrator) : String :=
  "Sink: " ++ decimal n.changes ++ " state changes, " ++ decimal n.flushes ++ " flushes, " ++ decimal n.clears ++
    " clears"

/-- Logs a report. -/
def say (n : Narrator) (message : Unit → String) : Narrator :=
  match n.level with
  | some level => { n with lines := ⟨level, message ()⟩ :: n.lines }
  | none => n

instance : Sink Narrator where
  notify _ span := fun n => .ok () ({ n with changes := n.changes + 1 }.say fun _ => changeText span)
  flush := fun n =>
    .ok () ({ n with flushes := n.flushes + 1 }.say fun _ => flushText (n.flushes + 1) n.changes)
  clear live request := fun n => .ok () ({ n with clears := n.clears + 1 }.say fun _ => clearText live request)

end Narrator

end Maxwell.Replay
