import Maxwell.Text.Numeral

/-! Faults: what can fail on the host's side of the GPU. Guest data alone never causes one. -/

namespace Maxwell
open Numeral

/-- Why guest memory refused an access. -/
inductive MemoryFault where
  /-- No page is mapped at the GPU address. -/
  | unmapped (address : UInt64)
  /-- The range does not lie in memory. -/
  | outOfBounds (address : UInt64) (length : Nat)
  deriving DecidableEq, Repr

/-- Why the sink refused a request. -/
inductive SinkFault where
  | deviceLost (reason : String)
  | submitFailed (reason : String)
  deriving DecidableEq, Repr

/-- Why a method call failed. -/
inductive Fault where
  | sink (fault : SinkFault)
  | memory (fault : MemoryFault)
  deriving DecidableEq, Repr

def MemoryFault.message : MemoryFault → String
  | .unmapped address => "unmapped GPU address: 0x" ++ hex address.toNat 10
  | .outOfBounds address length =>
    "guest memory access out of bounds: addr=0x" ++ hex address.toNat 1 ++ ", len=0x" ++ hex length 1

def SinkFault.message : SinkFault → String
  | .deviceLost reason => "backend lost: " ++ reason
  | .submitFailed reason => "backend submission failed: " ++ reason

def Fault.message : Fault → String
  | .sink fault => "state sink error: " ++ fault.message
  | .memory fault => "guest memory error: " ++ fault.message

/-- The messages of a fault and of what caused it, the outermost first. -/
def Fault.causes : Fault → List String
  | .sink fault => [Fault.message (.sink fault), fault.message]
  | .memory fault => [Fault.message (.memory fault), fault.message]

end Maxwell
