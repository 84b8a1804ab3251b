import Maxwell.Text.Terminal

/-! The log of a replay. -/

namespace Maxwell.Replay

inductive Level where
  | debug
  | info
  | warn
  deriving DecidableEq, Repr

structure LogLine where
  level : Level
  message : String
  deriving DecidableEq, Repr

def Level.name : Level → String
  | .debug => "DEBUG"
  | .info => "INFO"
  | .warn => "WARN"

/-- The line as text. Further lines of a message are indented, and nothing in a message steers a terminal. -/
def LogLine.text (line : LogLine) : String :=
  let message := line.message.toList.flatMap fun c => if c = '\n' then "\n    ".toList else [c]
  line.level.name ++ " " ++ Terminal.plain (.ofList message)

end Maxwell.Replay
