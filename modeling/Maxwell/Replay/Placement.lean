import Maxwell.Memory.Alignment
import Maxwell.Memory.Ram
import Maxwell.Pushbuffer.Entry

/-! Where a trace lies in guest memory: in whole pages at its top. -/

namespace Maxwell.Replay

/-- The place of a trace. -/
structure Placement where
  /-- The end of guest memory, at a page bound. -/
  top : UInt64
  /-- The address of the trace. -/
  base : UInt64
  deriving DecidableEq, Repr

/-- The place of a trace of `size` bytes in a memory of `memorySize` bytes, if it fits. -/
def Placement.of? (memorySize size : Nat) : Option Placement :=
  let top := alignDown (.ofNat memorySize) (.ofNat pageSize)
  let room := alignUp (.ofNat size) (.ofNat pageSize)
  if room ≤ top then some ⟨top, top - room⟩ else none

/-- The entries of `count` words from an address on, all as long as they can be but the last. -/
def entriesOf (address : UInt64) (count : Nat) : List Entry :=
  (List.range ((count + (Entry.maxLength - 1)) / Entry.maxLength)).map fun i =>
    let first := i * Entry.maxLength
    .ofSegment (address + .ofNat (4 * first)) (min Entry.maxLength (count - first))

end Maxwell.Replay
