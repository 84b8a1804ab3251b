import Maxwell.Word

/-! Queue entries: each names a segment of a pushbuffer, by its address and its length in words.

    | Bits of the high word | Field                | Bits of the low word | Field             |
    |-----------------------|----------------------|----------------------|-------------------|
    | 7:0                   | address, bits 39:32  | 31:2                 | address, bits 31:2 |
    | 30:10                 | length               |                      |                   | -/

namespace Maxwell

structure Entry where
  low : Word
  high : Word
  deriving DecidableEq, Repr

namespace Entry

/-- The most words one entry can name. -/
def maxLength : Nat := 0x1FFFFF

/-- The entry of a segment. The address loses its two low bits and those above 39, the length all above 20. -/
def ofSegment (address : UInt64) (length : Nat) : Entry where
  low := address.toUInt32 &&& ~~~3
  high := .pack [(0, address.toNat >>> 32 % 0x100), (10, length % 0x200000)]

/-- The address of the segment. -/
def address (e : Entry) : UInt64 := .ofNat (e.high.field 0 8 <<< 32 + e.low.field 2 30 <<< 2)

/-- The number of words of the segment. -/
def length (e : Entry) : Nat := e.high.field 10 21

end Entry

end Maxwell
