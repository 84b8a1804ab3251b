import Maxwell.Memory.Ram

/-! The GPU's address space: 40-bit addresses in pages of 4 KiB, mapped onto the memory behind it.

    The page table has two levels: 14 bits of an address pick a leaf, the 14 bits below pick its entry. An access
    is cut at page bounds, and each piece goes to where its page is mapped. The pieces before one that fails have
    been done. -/

namespace Maxwell

/-- The number of entries of a leaf, and the number of leaves. -/
abbrev leafSize : Nat := 0x4000

/-- The entries of pages that follow one another: addresses of pages of the memory behind. -/
abbrev Leaf := Vector UInt64 leafSize

/-- The entry of a page that is not mapped. -/
def Leaf.unmapped : UInt64 := 0xFFFFFFFFFFFFFFFF

/-- A leaf with no page mapped. -/
def Leaf.empty : Leaf := Vector.replicate leafSize unmapped

/-- Where pages are mapped to. A leaf is there as soon as one of its pages is mapped. -/
structure PageTable where
  leaves : Vector (Option Leaf) leafSize := Vector.replicate leafSize none

namespace PageTable

/-- The leaf of an address, from its bits 39:26. The bits above do not count. -/
def leafOf (address : UInt64) : Fin leafSize := Fin.ofNat leafSize (address.toNat >>> 26)

/-- The place of an address in its leaf, from its bits 25:12. -/
def slotOf (address : UInt64) : Fin leafSize := Fin.ofNat leafSize (address.toNat >>> 12)

/-- The distance of an address from the start of its page. -/
def offsetOf (address : UInt64) : Nat := address.toNat % pageSize

/-- The start of the page of an address. -/
def baseOf (address : UInt64) : UInt64 := address - .ofNat (offsetOf address)

/-- The entry of the page of an address. -/
def entry (table : PageTable) (address : UInt64) : UInt64 :=
  match table.leaves[leafOf address] with
  | some leaf => leaf[slotOf address]
  | none => Leaf.unmapped

/-- Sets the entry of the page of an address. -/
def setEntry (table : PageTable) (address value : UInt64) : PageTable :=
  let leaf := table.leaves[leafOf address].getD Leaf.empty
  -- With the leaf out of the directory, nothing else holds it and it is changed in place.
  let leaves := table.leaves.set (leafOf address) none
  ⟨leaves.set (leafOf address) (some (leaf.set (slotOf address) value))⟩

/-- Maps one page. -/
def mapPage (table : PageTable) (address target : UInt64) : PageTable := table.setEntry address (baseOf target)

/-- Maps the pages of `address`, `address + 4096` and so on, below `address + size`. A later mapping of a
    page replaces an earlier one. -/
def map (table : PageTable) (address target : UInt64) (size : Nat) : PageTable :=
  ((size + (pageSize - 1)) / pageSize).fold
    (fun k _ table => table.mapPage (address + .ofNat (k * pageSize)) (target + .ofNat (k * pageSize))) table

/-- Where an address leads, if its page is mapped. -/
def translate (table : PageTable) (address : UInt64) : Option UInt64 :=
  if table.entry address = Leaf.unmapped then none else some (table.entry address + .ofNat (offsetOf address))

end PageTable

/-! ### Pieces of an access -/

/-- A part of an access that lies in one page. -/
structure Piece where
  address : UInt64
  /-- The distance from the start of the access. -/
  offset : Nat
  length : Nat
  deriving DecidableEq, Repr

/-- The pieces of an access to `length` bytes from `address` on, the first of them `offset` bytes into it. -/
def piecesFrom (address : UInt64) (offset length : Nat) : List Piece :=
  if length = 0 then []
  else
    let here := min length (pageSize - PageTable.offsetOf address)
    ⟨address, offset, here⟩ :: piecesFrom (address + .ofNat here) (offset + here) (length - here)
termination_by length
decreasing_by
  have : PageTable.offsetOf address < pageSize := Nat.mod_lt _ (by decide)
  omega

/-- The pieces of an access. -/
def pieces (address : UInt64) (length : Nat) : List Piece := piecesFrom address 0 length

/-! ### The address space -/

/-- A memory seen through a page table. -/
structure AddressSpace (μ : Type) where
  table : PageTable := {}
  backing : μ

namespace AddressSpace

variable {ε μ : Type}

/-- Maps pages of the address space. -/
def map (space : AddressSpace μ) (address target : UInt64) (size : Nat) : AddressSpace μ :=
  { space with table := space.table.map address target size }

def translate (space : AddressSpace μ) (address : UInt64) : Option UInt64 := space.table.translate address

/-- Works on what is behind the address space. -/
def onBacking (act : EStateM ε μ Unit) : EStateM ε (AddressSpace μ) Unit := fun ⟨table, backing⟩ =>
  match act backing with
  | .ok _ backing => .ok () ⟨table, backing⟩
  | .error fault backing => .error fault ⟨table, backing⟩

section
variable [GuestMemory μ]

/-- Appends the bytes of one piece to a buffer. -/
def loadPiece (space : AddressSpace μ) (piece : Piece) : EStateM MemoryFault ByteArray Unit :=
  match space.translate piece.address with
  | some target => GuestMemory.load space.backing target piece.length
  | none => throw (.unmapped piece.address)

/-- Writes the bytes of one piece. -/
def storePiece (bytes : ByteArray) (piece : Piece) : EStateM MemoryFault (AddressSpace μ) Unit := fun space =>
  match space.translate piece.address with
  | some target =>
    onBacking (GuestMemory.store target (bytes.extract piece.offset (piece.offset + piece.length))) space
  | none => .error (.unmapped piece.address) space

instance : GuestMemory (AddressSpace μ) where
  load space address length := (pieces address length).forM (loadPiece space)
  store address bytes := (pieces address bytes.size).forM (storePiece bytes)

end

/-- A host whose memory is seen through a page table. -/
instance [Host μ] : Host (AddressSpace μ) where
  notify live span := onBacking (Sink.notify live span)
  flush := onBacking Sink.flush
  clear live request := onBacking (Sink.clear live request)
  increment id space := { space with backing := Host.increment id space.backing }

end AddressSpace

end Maxwell
