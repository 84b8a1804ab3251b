/-! Words: 32-bit values, their bit fields, words packed from fields, and little-endian bytes. -/

namespace Maxwell

/-- What registers, code memory and pushbuffers hold. -/
abbrev Word := UInt32

namespace Word

/-- The number in the `size` bits of `w` that start at bit `low`. -/
@[inline] def field (w : Word) (low size : Nat) : Nat := w.toNat >>> low % 1 <<< size

/-- Whether bit `i` of `w` is set. -/
@[inline] def bit (w : Word) (i : Nat) : Bool := w.field i 1 == 1

/-- The sum of numbers, each moved up to its bit. -/
def packed : List (Nat × Nat) → Nat
  | [] => 0
  | (low, value) :: rest => value <<< low + packed rest

/-- The word that holds each number at its bit. The fields must not overlap and must fit. -/
def pack (fields : List (Nat × Nat)) : Word := UInt32.ofNat (packed fields)

/-- The word of four bytes, the lowest first. -/
def ofBytes (b₀ b₁ b₂ b₃ : UInt8) : Word :=
  b₀.toUInt32 + b₁.toUInt32 * 256 + b₂.toUInt32 * 65536 + b₃.toUInt32 * 16777216

theorem field_lt (w : Word) (low size : Nat) : w.field low size < 1 <<< size :=
  Nat.mod_lt _ (by rw [Nat.one_shiftLeft]; exact Nat.two_pow_pos size)

/-- A field of a packed word is cut out of the sum. -/
theorem field_pack {fields : List (Nat × Nat)} (h : packed fields < 0x100000000) (low size : Nat) :
    (pack fields).field low size = packed fields >>> low % 1 <<< size := by
  rw [field, pack, UInt32.toNat_ofNat', Nat.mod_eq_of_lt h]

end Word

/-- The `count` lowest bytes of `n`, the lowest first. -/
def littleEndian : (count n : Nat) → List UInt8
  | 0, _ => []
  | count + 1, n => UInt8.ofNat n :: littleEndian count (n / 256)

theorem length_littleEndian (count n : Nat) : (littleEndian count n).length = count := by
  induction count generalizing n with
  | zero => rfl
  | succ count ih => simp [littleEndian, ih]

/-- Byte `i` of `bytes`, zero past the end. -/
@[inline] def byteAt (bytes : ByteArray) (i : Nat) : UInt8 := if h : i < bytes.size then bytes[i] else 0

/-- The bytes of the words of a list, in order. -/
def bytesOfWords (words : List Word) : ByteArray :=
  words.foldl (fun (bytes : ByteArray) (w : Word) =>
    (((bytes.push w.toUInt8).push (w >>> 8).toUInt8).push (w >>> 16).toUInt8).push (w >>> 24).toUInt8) .empty

/-- The words that whole groups of four bytes make. Bytes past the last whole group are left out. -/
def wordsOfBytes (bytes : ByteArray) : List Word :=
  (List.range (bytes.size / 4)).map fun i =>
    .ofBytes (byteAt bytes (4 * i)) (byteAt bytes (4 * i + 1)) (byteAt bytes (4 * i + 2)) (byteAt bytes (4 * i + 3))

end Maxwell
