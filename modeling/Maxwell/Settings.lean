import Maxwell.Ini.Document
import Maxwell.Settings.Value

/-! The settings of the GPU, and what an INI document says of them. -/

namespace Maxwell

structure Settings where
  /-- The number of instructions after which a macro is stopped. -/
  macroStepLimit : Nat := 0x100000
  /-- The number of bytes of guest memory. -/
  memorySize : Nat := 0x4000000
  /-- Whether every report of the engine is logged. -/
  debugLogging : Bool := false
  deriving DecidableEq, Repr

namespace Settings

/-- A step limit: a number from 1 to `2 ^ 32 - 1`. -/
def stepLimit? (text : String) : Option Nat := (number? text).filter fun n => 0 < n && n < 0x100000000

/-- A memory size: a number from 1 to `2 ^ 64 - 1`. -/
def memorySize? (text : String) : Option Nat := (number? text).filter (0 < ·)

/-- What a document says of the step limit. -/
def stepLimitText (ini : Ini) : Option String := ini.get? "Gpu" "macro_step_limit"

/-- What a document says of the memory size. -/
def memorySizeText (ini : Ini) : Option String := ini.get? "Gpu" "memory_size"

/-- What a document says of logging. -/
def debugLoggingText (ini : Ini) : Option String := ini.get? "Debugging" "use_debug_logging"

/-- The settings with what a document says laid over them. A number that is out of range changes nothing, and
    a switch that is not one is off. -/
def overlay (s : Settings) (ini : Ini) : Settings where
  macroStepLimit := ((stepLimitText ini).bind stepLimit?).getD s.macroStepLimit
  memorySize := ((memorySizeText ini).bind memorySize?).getD s.memorySize
  debugLogging :=
    match debugLoggingText ini with
    | some text => (switch? text).getD false
    | none => s.debugLogging

end Settings

end Maxwell
