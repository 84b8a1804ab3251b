import Maxwell.Memory.AddressSpace
import Maxwell.Pushbuffer.Channel

/-! The GPU as a whole: a channel with the 3D engine, its address space, and a queue of entries. -/

namespace Maxwell

/-- A GPU over a host. Entries wait in the queue until it is flushed. -/
structure Context (η : Type) where
  channel : Channel Threed (AddressSpace η)
  queue : List Entry := []

namespace Context

variable {η : Type}

/-- The subchannel of the 3D engine. -/
def threedSubchannel : Nat := 0

/-- A GPU after power-up: no page is mapped and no entry waits. -/
def new (stepLimit : Nat) (readings : Nat → UInt64) (host : η) : Context η where
  channel :=
    { engines := (Vector.replicate 8 none).setIfInBounds threedSubchannel (some (Threed.new stepLimit readings))
      world := { backing := host } }

/-- The host behind the address space. -/
def host (c : Context η) : η := c.channel.world.backing

/-- The GPU with another host. -/
def withHost (c : Context η) (host : η) : Context η :=
  { c with channel := { c.channel with world := { c.channel.world with backing := host } } }

/-- Maps pages of the address space. -/
def map (c : Context η) (address target : UInt64) (size : Nat) : Context η :=
  { c with channel := { c.channel with world := c.channel.world.map address target size } }

/-- Puts entries into the queue. -/
def submit (c : Context η) (entries : List Entry) : Context η := { c with queue := c.queue ++ entries }

/-- The live registers of the engine of a subchannel. -/
def registers? (c : Context η) (subchannel : Nat) : Option RegisterFile :=
  (c.channel.engine? subchannel).map fun engine => engine.core.live

/-- Executes the entries of the queue. None of them is left, even if one fails. -/
def flush [Host η] : EStateM Fault (Context η) Unit := fun ⟨channel, queue⟩ =>
  match Channel.process queue channel with
  | .ok _ channel => .ok () ⟨channel, []⟩
  | .error fault channel => .error fault ⟨channel, []⟩

end Context

end Maxwell
