import Maxwell.Fault
import Maxwell.Register.File
import Maxwell.Syncpoint

/-! The host: all that an engine reaches outside itself. It sees state changes through a sink, holds guest
    memory, and counts syncpoints. What fails leaves the host as it was at the failure. -/

namespace Maxwell

/-- Guest memory behind byte addresses. -/
class GuestMemory (μ : Type) where
  /-- Appends the bytes of a range to a buffer. After a fault the buffer has the bytes before it. -/
  load : μ → (address : UInt64) → (length : Nat) → EStateM MemoryFault ByteArray Unit
  /-- Writes bytes from an address on. After a fault the bytes before it are written. -/
  store : (address : UInt64) → ByteArray → EStateM MemoryFault μ Unit

/-- What an engine tells of its registers. -/
class Sink (σ : Type) where
  /-- The live registers of a range changed. -/
  notify : (live : RegisterFile) → Span → EStateM SinkFault σ Unit
  /-- Work that was put off is to be done. -/
  flush : EStateM SinkFault σ Unit
  /-- Surfaces are to be cleared with the clear values of the registers. -/
  clear : (live : RegisterFile) → ClearRequest → EStateM SinkFault σ Unit

/-- Everything an engine reaches: a sink, guest memory and syncpoints. -/
class Host (η : Type) extends GuestMemory η, Sink η where
  /-- Counts up a syncpoint. -/
  increment : (id : Nat) → η → η

/-- The bytes of a range, or the fault that kept them back. -/
def GuestMemory.fetch {μ : Type} [GuestMemory μ] (memory : μ) (address : UInt64) (length : Nat) :
    Except MemoryFault ByteArray :=
  match GuestMemory.load memory address length .empty with
  | .ok _ bytes => .ok bytes
  | .error fault _ => .error fault

/-! ### A host of separate parts -/

structure Board (σ μ : Type) where
  sink : σ
  memory : μ
  syncpoints : Syncpoints := {}

namespace Board

variable {σ μ : Type}

/-- Works on the sink of a board. -/
def onSink (act : EStateM SinkFault σ Unit) : EStateM SinkFault (Board σ μ) Unit := fun ⟨sink, memory, syncpoints⟩ =>
  match act sink with
  | .ok _ sink => .ok () ⟨sink, memory, syncpoints⟩
  | .error fault sink => .error fault ⟨sink, memory, syncpoints⟩

/-- Works on the memory of a board. -/
def onMemory (act : EStateM MemoryFault μ Unit) : EStateM MemoryFault (Board σ μ) Unit :=
  fun ⟨sink, memory, syncpoints⟩ =>
    match act memory with
    | .ok _ memory => .ok () ⟨sink, memory, syncpoints⟩
    | .error fault memory => .error fault ⟨sink, memory, syncpoints⟩

instance [Sink σ] [GuestMemory μ] : Host (Board σ μ) where
  load board := GuestMemory.load board.memory
  store address bytes := onMemory (GuestMemory.store address bytes)
  notify live span := onSink (Sink.notify live span)
  flush := onSink Sink.flush
  clear live request := onSink (Sink.clear live request)
  increment id board := { board with syncpoints := board.syncpoints.increment id }

end Board

/-! ### A record of what a host was asked -/

/-- A request to a host, with the fault it ended in. -/
inductive HostEvent where
  | notify (live : RegisterFile) (span : Span) (fault : Option SinkFault)
  | flush (fault : Option SinkFault)
  | clear (live : RegisterFile) (request : ClearRequest) (fault : Option SinkFault)
  | store (address : UInt64) (bytes : ByteArray) (fault : Option MemoryFault)
  | increment (id : Nat)

/-- A host with a record of what was asked of it, the latest first. -/
structure Traced (η : Type) where
  host : η
  events : List HostEvent := []

namespace Traced

variable {ε η : Type}

/-- Works on the host and records the request with its outcome. -/
def record (event : Option ε → HostEvent) (act : EStateM ε η Unit) : EStateM ε (Traced η) Unit := fun ⟨host, events⟩ =>
  match act host with
  | .ok _ host => .ok () ⟨host, event none :: events⟩
  | .error fault host => .error fault ⟨host, event (some fault) :: events⟩

instance [Host η] : Host (Traced η) where
  load traced := GuestMemory.load traced.host
  store address bytes := record (.store address bytes) (GuestMemory.store address bytes)
  notify live span := record (.notify live span) (Sink.notify live span)
  flush := record .flush Sink.flush
  clear live request := record (.clear live request) (Sink.clear live request)
  increment id traced := ⟨Host.increment id traced.host, .increment id :: traced.events⟩

end Traced

/-! ### A sink that takes everything -/

/-- A sink without state that never fails. -/
structure NullSink where
  deriving DecidableEq

instance : Sink NullSink where
  notify _ _ := pure ()
  flush := pure ()
  clear _ _ := pure ()

end Maxwell
