import Maxwell.Replay.Run

/-! The command line: reads the files that the arguments name, and tells what the replay made of them. -/

namespace Maxwell.Replay

/-- Why a file could not be read. The numbers of the reasons may come negated. -/
def faultOf (e : IO.Error) : FileFault :=
  match e with
  | .noFileOrDirectory _ _ _ => .notFound
  | .inappropriateType _ code _ => if min code (0 - code) = 20 then .notDirectory else .isDirectory
  | .invalidArgument _ code _ => if min code (0 - code) = 36 then .nameTooLong else .other e.toString
  | _ => .other e.toString

/-- Reads a file. -/
def fetch (path : String) : IO (Except FileFault ByteArray) := do
  try
    return .ok (← IO.FS.readBinFile path)
  catch e => return .error (faultOf e)

/-- Reads the files that a command names. -/
def fetchAll (command : Option Command) : IO (List (String × Except FileFault ByteArray)) :=
  match command with
  | some (.replay options) => (options.trace :: options.config.toList).mapM fun path => do return (path, ← fetch path)
  | _ => return []

/-- Prints an outcome: the log and the report on standard error, the rest on standard output. -/
def tell (outcome : Outcome) : IO Unit := do
  for line in outcome.log do
    IO.eprintln line.text
  for line in outcome.output do
    IO.println line
  if let some report := outcome.error then
    IO.eprintln report.text

/-- Runs the program over a clock that stands at its start. -/
def runProgram (arguments : List String) : IO UInt32 := do
  let command := Command.parse? arguments
  if command.isNone then
    IO.eprintln usageText
  let files ← fetchAll command
  let now ← IO.monoNanosNow
  let outcome := program command (fun _ => .ofNat now) fun path => (files.lookup path).getD (.error .notFound)
  tell outcome
  return .ofNat outcome.exit

end Maxwell.Replay

def main (arguments : List String) : IO UInt32 := Maxwell.Replay.runProgram arguments
