import Maxwell.Host

/-! Contiguous guest memory from address zero on, all zero at first. Pages that were never written share one
    page of zeros, so a large memory costs little. -/

namespace Maxwell

/-- The number of bytes of a page. -/
abbrev pageSize : Nat := 4096

/-- A page of memory. -/
abbrev Page := Vector UInt8 pageSize

structure Ram where
  size : Nat
  pages : Array Page
  /-- Every byte of the memory lies in a page. -/
  size_le : size ≤ pageSize * pages.size

namespace Ram

/-- A memory of `size` zero bytes. -/
def zeros (size : Nat) : Ram where
  size := size
  pages := Array.replicate ((size + (pageSize - 1)) / pageSize) (Vector.replicate pageSize 0)
  size_le := by simp only [Array.size_replicate, pageSize]; omega

/-- The byte at an address. Past the last page there are zeros. -/
def byte (ram : Ram) (address : Nat) : UInt8 :=
  have : address % pageSize < pageSize := Nat.mod_lt _ (by decide)
  if h : address / pageSize < ram.pages.size then ram.pages[address / pageSize][address % pageSize] else 0

/-- The memory with one byte changed. -/
def setByte (ram : Ram) (address : Nat) (value : UInt8) : Ram where
  size := ram.size
  pages := ram.pages.modify (address / pageSize) fun page =>
    page.set (address % pageSize) value (Nat.mod_lt _ (by decide))
  size_le := by simpa using ram.size_le

/-- The memory with the bytes from `start` on replaced. -/
def put (ram : Ram) (start : Nat) (bytes : ByteArray) : Ram :=
  bytes.size.fold (fun i h ram => ram.setByte (start + i) bytes[i]) ram

/-- A buffer with the bytes of a range appended. -/
def appendTo (ram : Ram) (start length : Nat) (buffer : ByteArray) : ByteArray :=
  length.fold (fun i _ buffer => buffer.push (ram.byte (start + i))) buffer

/-- The bytes of a range, if it lies in memory. -/
def slice? (ram : Ram) (start length : Nat) : Option ByteArray :=
  if start + length ≤ ram.size then some (ram.appendTo start length .empty) else none

/-- A range that does not lie in memory is refused whole. -/
instance : GuestMemory Ram where
  load ram address length := fun buffer =>
    if address.toNat + length ≤ ram.size then .ok () (ram.appendTo address.toNat length buffer)
    else .error (.outOfBounds address length) buffer
  store address bytes := fun ram =>
    if address.toNat + bytes.size ≤ ram.size then .ok () (ram.put address.toNat bytes)
    else .error (.outOfBounds address bytes.size) ram

end Ram

end Maxwell
