import Maxwell.Context
import Maxwell.Replay.Arguments
import Maxwell.Replay.Configuration
import Maxwell.Replay.Narrator
import Maxwell.Replay.Placement

/-! A replay: a trace is put into guest memory and fed to the GPU, and what comes of it is told. -/

namespace Maxwell.Replay
open Numeral

/-! ### Outcomes -/

/-- Why a replay failed: a message, and the messages of what caused it, the outermost first. -/
structure Report where
  message : String
  causes : List String := []
  deriving DecidableEq, Repr

/-- The report as text. Several causes are numbered. -/
def Report.text (report : Report) : String :=
  let error := "Error: " ++ report.message
  match report.causes with
  | [] => error
  | [cause] => error ++ "\n\nCaused by:\n    " ++ cause
  | causes =>
    error ++ "\n\nCaused by:\n" ++ "\n".intercalate (causes.mapIdx fun i cause => "    " ++ decimal i ++ ": " ++ cause)

/-- What a program run leaves behind. -/
structure Outcome where
  exit : Nat := 0
  output : List String := []
  log : List LogLine := []
  error : Option Report := none
  deriving DecidableEq, Repr

/-! ### Registers as text -/

/-- A register and its word. -/
def registerLine (offset : Nat) (value : Word) : String :=
  let name := describe offset
  name ++ .ofList (List.replicate (32 - name.length) ' ') ++ " 0x" ++ hex value.toNat 8

/-- The registers that differ from their reset values, a line each. -/
def dump (live : RegisterFile) : List String :=
  (live.changes .reset).map fun (offset, value) => registerLine offset value

/-! ### The replay -/

/-- A GPU over a memory that holds a trace, with its page table set up so that addresses stay as they are. -/
def prepared {σ : Type} (stepLimit : Nat) (readings : Nat → UInt64) (place : Placement) (trace : ByteArray) (sink : σ) :
    Context (Board σ Ram) :=
  let memory := (Ram.zeros place.top.toNat).put place.base.toNat trace
  (Context.new stepLimit readings ⟨sink, memory, {}⟩).map 0 0 place.top.toNat

/-- What a replay makes of a trace of whole words that has its place. -/
def execute (options : Options) (settings : Settings) (readings : Nat → UInt64) (place : Placement)
    (trace : ByteArray) : Outcome :=
  let level := if settings.debugLogging then some .info else if options.verbose then some .debug else none
  let narrator : Narrator := { level }
  let count := trace.size / 4
  let entries := entriesOf place.base count
  -- The sink tells its counts when it is set up, too.
  let start : List LogLine :=
    [⟨.info, narrator.summary⟩,
      ⟨.info, "Replaying " ++ decimal count ++ " words from " ++ options.trace ++ " as " ++ decimal entries.length ++
        " GPFIFO entries"⟩]
  let finish (context : Context (Board Narrator Ram)) (finished : List LogLine) : List LogLine :=
    let narrator := context.host.sink
    start ++ narrator.lines.reverse ++ finished ++ [⟨.info, narrator.summary⟩]
  match ((prepared settings.macroStepLimit readings place trace narrator).submit entries).flush with
  | .ok _ context =>
    { output := if options.dump then ((context.registers? Context.threedSubchannel).map dump).getD [] else []
      log := finish context [⟨.info, "Replay finished"⟩] }
  | .error fault context =>
    { exit := 1, log := finish context [], error := some ⟨"Pushbuffer replay failed", fault.causes⟩ }

/-- What a replay makes of a trace. -/
def replay (options : Options) (settings : Settings) (readings : Nat → UInt64) (trace : Source) : Outcome :=
  let failed (report : Report) : Outcome := { exit := 1, error := some report }
  match trace.contents with
  | .error fault => failed ⟨"Failed to read trace: " ++ trace.path, [fault.message]⟩
  | .ok bytes =>
    if bytes.size % 4 ≠ 0 then
      failed { message :=
        "Trace " ++ trace.path ++ " is " ++ decimal bytes.size ++ " bytes, not a whole number of words" }
    else
      match Placement.of? settings.memorySize bytes.size with
      | none =>
        failed { message :=
          "Trace of " ++ decimal bytes.size ++ " bytes does not fit in 0x" ++ hex settings.memorySize 1 ++
            " bytes of guest memory" }
      | some place => execute options settings readings place bytes

/-- Runs a replay over a host clock, with the files that its options name. Lines for debugging are left out
    unless they are asked for. -/
def run (options : Options) (readings : Nat → UInt64) (config : Option Source) (trace : Source) : Outcome :=
  let (settings, remarks) := configure config
  let outcome := replay options settings readings trace
  let log : List LogLine :=
    ⟨.info, "gm20b - Maxwell 3D pushbuffer replay"⟩ :: remarks ++
      ⟨.info, "Macro step limit 0x" ++ hex settings.macroStepLimit 1 ++ ", guest memory 0x" ++
        hex settings.memorySize 1 ++ " bytes"⟩ :: outcome.log
  { outcome with log := log.filter fun line => options.verbose || line.level != .debug }

/-! ### The program -/

def versionText : String := "gm20b 0.1.0"

def usageText : String := "Usage: gm20b [OPTIONS] --trace <TRACE>"

def helpText : List String :=
  ["Replays Maxwell 3D pushbuffers through the engine",
    "",
    usageText,
    "",
    "Options:",
    "  -t, --trace <TRACE>    Pushbuffer to replay (little-endian 32-bit words)",
    "  -c, --config <CONFIG>  Path to config file",
    "  -v, --verbose          Enable verbose logging",
    "      --dump             Print every live register that differs from its reset value",
    "  -h, --help             Print help",
    "  -V, --version          Print version"]

/-- What the program does with a command, or with a command line that is none. `find` gives the file under a
    path. -/
def program (command : Option Command) (readings : Nat → UInt64) (find : String → Except FileFault ByteArray) :
    Outcome :=
  let source (path : String) : Source := ⟨path, find path⟩
  match command with
  | none => { exit := 2 }
  | some .help => { output := helpText }
  | some .version => { output := [versionText] }
  | some (.replay options) => run options readings (options.config.map source) (source options.trace)

end Maxwell.Replay
