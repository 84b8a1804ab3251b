/-! Addresses rounded to multiples of a power of two. -/

namespace Maxwell

/-- `value` rounded down to a multiple of `alignment`, by clearing the bits below it. -/
def alignDown (value alignment : UInt64) : UInt64 := value &&& ~~~(alignment - 1)

/-- `value` rounded up to a multiple of `alignment`. -/
def alignUp (value alignment : UInt64) : UInt64 := alignDown (value + (alignment - 1)) alignment

end Maxwell
