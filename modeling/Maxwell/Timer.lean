/-! The clock behind semaphore timestamps: host time in GPU ticks, strictly rising. -/

namespace Maxwell

/-- GPU ticks per second. -/
def ticksPerSecond : Nat := 19200000

/-- The whole GPU ticks in a number of nanoseconds. -/
def ticksOfNanoseconds (ns : UInt64) : UInt64 := .ofNat (ns.toNat * ticksPerSecond / 1000000000)

/-- A source of ticks over the readings of a host clock. -/
structure Timer where
  /-- What the host clock shows at each reading, in nanoseconds. -/
  readings : Nat → UInt64
  /-- The number of readings made. -/
  taken : Nat := 0
  /-- The latest tick. -/
  last : Option UInt64 := none

/-- Reads the clock. A reading that is not past the latest tick gives the tick after that. -/
def Timer.tick (t : Timer) : UInt64 × Timer :=
  let now := ticksOfNanoseconds (t.readings t.taken)
  let tick :=
    match t.last with
    | some last => max now (last + 1)
    | none => now
  (tick, { t with taken := t.taken + 1, last := some tick })

end Maxwell
