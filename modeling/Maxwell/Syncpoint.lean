import Maxwell.Word

/-! Syncpoints: 32-bit counters that the GPU advances and that others wait on. A wait ends when the counter has reached
    a threshold, or when its time is up. -/

namespace Maxwell

/-- The number of syncpoints. -/
abbrev syncpointCount : Nat := 192

structure Syncpoints where
  counters : Vector Word syncpointCount := Vector.replicate syncpointCount 0
  deriving DecidableEq

namespace Syncpoints

/-- The value of a syncpoint, zero where there is none. -/
def value (s : Syncpoints) (id : Nat) : Word :=
  if h : id < syncpointCount then s.counters[id] else 0

/-- Counts a syncpoint up by one. It wraps. -/
def increment (s : Syncpoints) (id : Nat) : Syncpoints :=
  if h : id < syncpointCount then ⟨s.counters.set id (s.counters[id] + 1)⟩ else s

/-- Whether a counter has reached a threshold: it is less than half a turn past it. -/
def passed (value threshold : Word) : Bool := (value - threshold).toNat < 0x80000000

/-- The loop of a wait: it looks at the counter now, after each change that wakes it, and once more when its time is
    up. -/
def waitFrom (id : Nat) (threshold : Word) (expired : Syncpoints) : (now : Syncpoints) → List Syncpoints → Bool
  | now, [] => passed (now.value id) threshold || passed (expired.value id) threshold
  | now, next :: changes => passed (now.value id) threshold || waitFrom id threshold expired next changes

/-- Waits until a syncpoint reaches a threshold. `changes` is what it finds each time that it is woken in time, and
    `expired` what it finds when its time is up. There is no wait for a syncpoint that is not there. -/
def wait (id : Nat) (threshold : Word) (now : Syncpoints) (changes : List Syncpoints) (expired : Syncpoints) : Bool :=
  decide (id < syncpointCount) && waitFrom id threshold expired now changes

/-- Whether a syncpoint has reached a threshold, which a wait tells that has no time: nothing wakes it, and nothing has
    changed when its time is up. -/
def reached (s : Syncpoints) (id : Nat) (threshold : Word) : Bool := wait id threshold s [] s

theorem value_increment (s : Syncpoints) (id other : Nat) :
    (s.increment id).value other = if id = other ∧ id < syncpointCount then s.value id + 1 else s.value other := by
  by_cases hid : id < syncpointCount
  · by_cases hother : other < syncpointCount
    · simp [increment, value, hid, hother, Vector.getElem_set]
    · have hne : id ≠ other := by omega
      simp [value, hother, hne]
  · simp [increment, hid]

end Syncpoints

end Maxwell
