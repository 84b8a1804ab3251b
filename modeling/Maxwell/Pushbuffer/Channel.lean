import Maxwell.Pushbuffer.Entry
import Maxwell.Pushbuffer.Packet
import Maxwell.Threed.Engine

/-! A channel: engines bound to subchannels, fed from pushbuffers. -/

namespace Maxwell

/-- An engine of type `τ` in a world `ω` that engines share. -/
class Engine (τ ω : Type) where
  call : (method : Nat) → (argument : Word) → (last : Bool) → EStateM Fault (τ × ω) Unit

instance {η : Type} [Host η] : Engine Threed η := ⟨Threed.call⟩

structure Channel (τ ω : Type) where
  engines : Vector (Option τ) 8
  world : ω

namespace Channel

variable {τ ω : Type}

/-- The engine of a subchannel. There are no engines past the last subchannel. -/
def engine? (c : Channel τ ω) (subchannel : Nat) : Option τ :=
  if h : subchannel < 8 then c.engines[subchannel] else none

section
variable [Engine τ ω]

/-- Makes a call on the engine of its subchannel. Without an engine nothing happens. -/
def deliver (call : Call) : EStateM Fault (Channel τ ω) Unit := fun ⟨engines, world⟩ =>
  match engines[call.subchannel] with
  | none => .ok () ⟨engines, world⟩
  | some engine =>
    -- The place of the engine is empty during the call, so that the engine has one owner.
    let engines := engines.set call.subchannel none
    match Engine.call call.method call.argument call.last (engine, world) with
    | .ok _ (engine, world) => .ok () ⟨engines.set call.subchannel (some engine), world⟩
    | .error fault (engine, world) => .error fault ⟨engines.set call.subchannel (some engine), world⟩

/-- Executes the packets of a segment. -/
def execute (words : List Word) : EStateM Fault (Channel τ ω) Unit := fun c =>
  match _h : Packet.read? words with
  | none => .ok () c
  | some (packet, rest) =>
    match packet.calls.forM deliver c with
    | .ok _ c => execute rest c
    | .error fault c => .error fault c
termination_by words.length
decreasing_by exact Packet.length_lt_of_read? _h

/-- Fetches the segment of an entry and executes it. A segment without words is not fetched. -/
def processEntry [GuestMemory ω] (entry : Entry) : EStateM Fault (Channel τ ω) Unit := fun c =>
  if entry.length = 0 then .ok () c
  else
    match GuestMemory.fetch c.world entry.address (4 * entry.length) with
    | .ok bytes => execute (wordsOfBytes bytes) c
    | .error fault => .error (.memory fault) c

/-- Executes the segments of entries in order, up to the first fault. -/
def process [GuestMemory ω] (entries : List Entry) : EStateM Fault (Channel τ ω) Unit :=
  entries.forM processEntry

end

end Channel

end Maxwell
