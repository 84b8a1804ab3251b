import Maxwell.Memory.Ram

/-! Words in memory. Bytes that are put into memory are found there, and all other bytes stay. So the words of a
    list are read back from where their bytes were put, as long as nothing else is put there. -/

namespace Maxwell

/-! ### Words and their bytes -/

/-- The word whose bytes lie from `start` on. -/
def wordAt (byte : Nat → UInt8) (start : Nat) : Word :=
  .ofBytes (byte start) (byte (start + 1)) (byte (start + 2)) (byte (start + 3))

theorem wordsOfBytes_eq (bytes : ByteArray) :
    wordsOfBytes bytes = (List.range (bytes.size / 4)).map fun i => wordAt (byteAt bytes) (4 * i) := rfl

/-- Words are the same if their bytes are. -/
theorem map_wordAt_congr {f g : Nat → UInt8} {count : Nat} (h : ∀ i < 4 * count, f i = g i) :
    ((List.range count).map fun i => wordAt f (4 * i)) = (List.range count).map fun i => wordAt g (4 * i) := by
  refine List.map_congr_left fun i hi => ?_
  have hi : i < count := List.mem_range.mp hi
  unfold wordAt
  rw [h _ (by omega), h _ (by omega), h _ (by omega), h _ (by omega)]

/-- The bytes of a word, the lowest first. -/
def wordBytes (w : Word) : List UInt8 :=
  [w.toUInt8, (w >>> 8).toUInt8, (w >>> 16).toUInt8, (w >>> 24).toUInt8]

theorem ofBytes_wordBytes (w : Word) :
    Word.ofBytes w.toUInt8 (w >>> 8).toUInt8 (w >>> 16).toUInt8 (w >>> 24).toUInt8 = w := by
  have h := w.toNat_lt
  rw [← UInt32.toNat_inj]
  simp only [Word.ofBytes, UInt32.toNat_add, UInt32.toNat_mul, UInt8.toNat_toUInt32, UInt32.toNat_toUInt8,
    UInt32.toNat_shiftRight, UInt32.toNat_ofNat, Nat.shiftRight_eq_div_pow, Nat.reduceMod, Nat.reducePow] at *
  omega

theorem toList_bytesOfWords (words : List Word) : (bytesOfWords words).data.toList = words.flatMap wordBytes := by
  have happend : ∀ (words : List Word) (bytes : ByteArray), (words.foldl (fun (bytes : ByteArray) (w : Word) =>
      (((bytes.push w.toUInt8).push (w >>> 8).toUInt8).push (w >>> 16).toUInt8).push (w >>> 24).toUInt8)
      bytes).data.toList = bytes.data.toList ++ words.flatMap wordBytes := by
    intro words
    induction words with
    | nil => simp
    | cons w words ih =>
      intro bytes
      rw [List.foldl_cons, ih, List.flatMap_cons, ← List.append_assoc]
      simp [wordBytes]
  exact happend words .empty

theorem size_bytesOfWords (words : List Word) : (bytesOfWords words).size = 4 * words.length := by
  show (bytesOfWords words).data.size = _
  rw [← Array.length_toList, toList_bytesOfWords]
  induction words with
  | nil => rfl
  | cons w words ih =>
    rw [List.flatMap_cons, List.length_append, ih, List.length_cons]
    show 4 + _ = _
    omega

theorem byteAt_eq (bytes : ByteArray) (i : Nat) : byteAt bytes i = bytes.data.toList.getD i 0 := by
  unfold byteAt
  split
  · next h =>
    rw [List.getD_eq_getElem?_getD, Array.getElem?_toList, Array.getElem?_eq_getElem h]
    rfl
  · next h =>
    rw [List.getD_eq_getElem?_getD, Array.getElem?_toList, Array.getElem?_eq_none (Nat.le_of_not_lt h)]
    rfl

theorem wordAt_bytesOfWords (words : List Word) {i : Nat} (hi : i < words.length) :
    wordAt (byteAt (bytesOfWords words)) (4 * i) = words[i] := by
  have hbyte : byteAt (bytesOfWords words) = fun j => (words.flatMap wordBytes).getD j 0 := by
    funext j
    rw [byteAt_eq, toList_bytesOfWords]
  rw [hbyte]
  induction words generalizing i with
  | nil => exact absurd hi (Nat.not_lt_zero i)
  | cons w words ih =>
    cases i with
    | zero => exact ofBytes_wordBytes w
    | succ i => exact ih (Nat.lt_of_succ_lt_succ hi) (by funext j; rw [byteAt_eq, toList_bytesOfWords])

theorem length_wordsOfBytes (bytes : ByteArray) : (wordsOfBytes bytes).length = bytes.size / 4 := by
  rw [wordsOfBytes_eq, List.length_map, List.length_range]

/-- Words are read back from their bytes. -/
theorem wordsOfBytes_bytesOfWords (words : List Word) : wordsOfBytes (bytesOfWords words) = words := by
  have hcount : (bytesOfWords words).size / 4 = words.length := by
    rw [size_bytesOfWords, Nat.mul_div_cancel_left _ (by decide)]
  refine List.ext_getElem (by rw [length_wordsOfBytes, hcount]) fun i _ hi => ?_
  simp only [wordsOfBytes_eq, List.getElem_map, List.getElem_range]
  exact wordAt_bytesOfWords words hi

theorem wordBytes_ofBytes (b₀ b₁ b₂ b₃ : UInt8) : wordBytes (.ofBytes b₀ b₁ b₂ b₃) = [b₀, b₁, b₂, b₃] := by
  have h₀ := b₀.toNat_lt
  have h₁ := b₁.toNat_lt
  have h₂ := b₂.toNat_lt
  have h₃ := b₃.toNat_lt
  simp only [wordBytes, Word.ofBytes, List.cons.injEq, ← UInt8.toNat_inj, UInt32.toNat_add, UInt32.toNat_mul,
    UInt8.toNat_toUInt32, UInt32.toNat_toUInt8, UInt32.toNat_shiftRight, UInt32.toNat_ofNat,
    Nat.shiftRight_eq_div_pow, Nat.reduceMod, Nat.reducePow] at *
  refine ⟨?_, ?_, ?_, ?_, trivial⟩ <;> omega

theorem flatMap_wordAt (f : Nat → UInt8) (count : Nat) :
    ((List.range count).map fun i => wordAt f (4 * i)).flatMap wordBytes = (List.range (4 * count)).map f := by
  induction count with
  | zero => rfl
  | succ count ih =>
    have hword : wordBytes (wordAt f (4 * count)) = (List.range 4).map fun k => f (4 * count + k) :=
      wordBytes_ofBytes ..
    rw [List.range_succ, List.map_append, List.flatMap_append, ih, List.map_singleton, List.flatMap_singleton, hword,
      Nat.mul_succ, List.range_add, List.map_append, List.map_map]
    rfl

/-- Whole words have the bytes that they were made of. -/
theorem bytesOfWords_wordsOfBytes {bytes : ByteArray} (h : bytes.size % 4 = 0) :
    bytesOfWords (wordsOfBytes bytes) = bytes := by
  have hsize : 4 * (bytes.size / 4) = bytes.data.toList.length := Nat.mul_div_cancel' (Nat.dvd_of_mod_eq_zero h)
  have hlist : (bytesOfWords (wordsOfBytes bytes)).data.toList = bytes.data.toList := by
    rw [toList_bytesOfWords, wordsOfBytes_eq, flatMap_wordAt, hsize]
    refine List.ext_getElem (by rw [List.length_map, List.length_range]) fun i hi hi' => ?_
    rw [List.getElem_map, List.getElem_range, byteAt_eq, List.getD_eq_getElem?_getD, List.getElem?_eq_getElem hi',
      Option.getD_some]
  exact ByteArray.ext (Array.toList_inj.mp hlist)

/-! ### Memory -/

namespace Ram

theorem mod_pageSize_lt (address : Nat) : address % pageSize < pageSize := Nat.mod_lt _ (by decide)

/-- Where a byte lies in a page. -/
def pageByte (page : Page) (address : Nat) : UInt8 := page.get ⟨address % pageSize, mod_pageSize_lt address⟩

theorem byte_eq (ram : Ram) (address : Nat) :
    ram.byte address = (ram.pages[address / pageSize]?.map (pageByte · address)).getD 0 := by
  unfold byte
  split
  · next h =>
    rw [Array.getElem?_eq_getElem h]
    rfl
  · next h =>
    rw [Array.getElem?_eq_none (Nat.le_of_not_lt h)]
    rfl

/-- A byte of the memory's pages that is set is found there. -/
theorem byte_setByte (ram : Ram) (address : Nat) (value : UInt8) (other : Nat) :
    (ram.setByte address value).byte other =
      if other = address ∧ address / pageSize < ram.pages.size then value else ram.byte other := by
  rw [byte_eq, byte_eq, setByte, Array.getElem?_modify]
  by_cases hpage : address / pageSize = other / pageSize
  · rw [if_pos hpage]
    by_cases hin : other / pageSize < ram.pages.size
    · rw [Array.getElem?_eq_getElem hin]
      have hlt := mod_pageSize_lt other
      show (ram.pages[other / pageSize].set (address % pageSize) value (mod_pageSize_lt address))[other % pageSize] = _
      rw [Vector.getElem_set]
      by_cases hoffset : address % pageSize = other % pageSize
      · have hother : other = address := by
          rw [← Nat.div_add_mod other pageSize, ← hpage, ← hoffset, Nat.div_add_mod]
        rw [if_pos hoffset, if_pos ⟨hother, hpage ▸ hin⟩]
      · rw [if_neg hoffset, if_neg (fun h => hoffset (congrArg (· % pageSize) h.1.symm))]
        rfl
    · rw [Array.getElem?_eq_none (Nat.le_of_not_lt hin), if_neg (fun h => hin (hpage ▸ h.2))]
      rfl
  · rw [if_neg hpage, if_neg (fun h => hpage (congrArg (· / pageSize) h.1.symm))]

/-- Bytes that are put into memory are found there, and nothing else changes. -/
theorem put_spec (ram : Ram) (start : Nat) (bytes : ByteArray) :
    (ram.put start bytes).size = ram.size ∧ (ram.put start bytes).pages.size = ram.pages.size ∧
    ∀ address, (ram.put start bytes).byte address =
      if start ≤ address ∧ address < start + bytes.size ∧ address / pageSize < ram.pages.size
      then byteAt bytes (address - start) else ram.byte address := by
  -- After the first `n` bytes.
  have hfold : ∀ n (hn : n ≤ bytes.size),
      let put := n.fold (fun i _ ram => ram.setByte (start + i) bytes[i]) ram
      put.size = ram.size ∧ put.pages.size = ram.pages.size ∧
      ∀ address, put.byte address =
        if start ≤ address ∧ address < start + n ∧ address / pageSize < ram.pages.size
        then byteAt bytes (address - start) else ram.byte address := by
    intro n hn
    induction n with
    | zero =>
      refine ⟨rfl, rfl, fun address => ?_⟩
      rw [if_neg (by omega)]
      rfl
    | succ n ih =>
      obtain ⟨hsize, hpages, hbyte⟩ := ih (Nat.le_of_succ_le hn)
      refine ⟨?_, ?_, fun address => ?_⟩
      · rw [Nat.fold_succ]
        exact hsize
      · rw [Nat.fold_succ]
        exact (Array.size_modify ..).trans hpages
      · rw [Nat.fold_succ, byte_setByte, hbyte, hpages]
        by_cases haddress : address = start + n
        · subst haddress
          by_cases hin : (start + n) / pageSize < ram.pages.size
          · rw [if_pos ⟨rfl, hin⟩, if_pos ⟨by omega, by omega, hin⟩, Nat.add_sub_cancel_left, byteAt, dif_pos]
          · rw [if_neg (fun h => hin h.2), if_neg (fun h => hin h.2.2), if_neg (fun h => hin h.2.2)]
        · rw [if_neg (fun h => haddress h.1)]
          by_cases hin : start ≤ address ∧ address < start + n ∧ address / pageSize < ram.pages.size
          · rw [if_pos hin, if_pos ⟨hin.1, by omega, hin.2.2⟩]
          · rw [if_neg hin, if_neg (by omega)]
  exact hfold bytes.size (Nat.le_refl _)

theorem div_lt_size {ram : Ram} {address : Nat} (h : address < ram.size) : address / pageSize < ram.pages.size := by
  have hle := ram.size_le
  exact Nat.div_lt_of_lt_mul (Nat.lt_of_lt_of_le h hle)

/-- The words whose bytes are put into memory are found there. -/
theorem wordAt_put {ram : Ram} {start : Nat} {words : List Word} (hfits : start + 4 * words.length ≤ ram.size) {i : Nat}
    (hi : i < words.length) : wordAt (ram.put start (bytesOfWords words)).byte (start + 4 * i) = words[i] := by
  obtain ⟨-, -, hbyte⟩ := put_spec ram start (bytesOfWords words)
  have hput : ∀ k, k < 4 → (ram.put start (bytesOfWords words)).byte (start + 4 * i + k) =
      byteAt (bytesOfWords words) (4 * i + k) := by
    intro k hk
    have hin : start + 4 * i + k < ram.size := by omega
    have hlt : start + 4 * i + k < start + (bytesOfWords words).size := by
      rw [size_bytesOfWords]
      omega
    rw [hbyte, if_pos ⟨by omega, hlt, div_lt_size hin⟩]
    congr 1
    omega
  rw [← wordAt_bytesOfWords words hi]
  simp only [wordAt, hput 1 (by decide), hput 2 (by decide), hput 3 (by decide)]
  rw [show start + 4 * i = start + 4 * i + 0 from rfl, hput 0 (by decide)]
  rfl

theorem toList_fold_push (f : Nat → UInt8) (count : Nat) (buffer : ByteArray) :
    (count.fold (fun i _ buffer => buffer.push (f i)) buffer).data.toList =
      buffer.data.toList ++ (List.range count).map f := by
  induction count with
  | zero => simp
  | succ count ih =>
    rw [Nat.fold_succ, List.range_succ, List.map_append, ← List.append_assoc, ← ih]
    exact Array.toList_push

/-- The words of a range of memory. -/
def wordsFrom (ram : Ram) (start count : Nat) : List Word :=
  (List.range count).map fun i => wordAt ram.byte (start + 4 * i)

theorem wordsFrom_eq (ram : Ram) (start count : Nat) : ram.wordsFrom start count =
    (List.range count).map fun i => wordAt (fun k => ram.byte (start + k)) (4 * i) := rfl

theorem wordsOfBytes_fold_push (f : Nat → UInt8) (count : Nat) :
    wordsOfBytes ((4 * count).fold (fun i _ buffer => buffer.push (f i)) .empty) =
      (List.range count).map fun i => wordAt f (4 * i) := by
  generalize hbytes : (4 * count).fold (fun i _ buffer => buffer.push (f i)) ByteArray.empty = bytes
  have hlist : bytes.data.toList = (List.range (4 * count)).map f := by
    rw [← hbytes, toList_fold_push]
    rfl
  have hsize : bytes.size = 4 * count := by
    show bytes.data.size = _
    rw [← Array.length_toList, hlist, List.length_map, List.length_range]
  rw [wordsOfBytes_eq, hsize, Nat.mul_div_cancel_left count (by decide)]
  refine map_wordAt_congr fun j hj => ?_
  rw [byteAt_eq, hlist, List.getD_eq_getElem?_getD, List.getElem?_map, List.getElem?_range hj]
  rfl

theorem wordsFrom_congr {ram ram' : Ram} {start count : Nat}
    (h : ∀ i, i < 4 * count → ram'.byte (start + i) = ram.byte (start + i)) :
    ram'.wordsFrom start count = ram.wordsFrom start count := by
  rw [wordsFrom_eq, wordsFrom_eq]
  exact map_wordAt_congr h

/-- A part of the words of a range. -/
theorem wordsFrom_part (ram : Ram) (start : Nat) {first count total : Nat} (h : first + count ≤ total) :
    ram.wordsFrom (start + 4 * first) count = ((ram.wordsFrom start total).drop first).take count := by
  refine List.ext_getElem ?_ fun i hi hi' => ?_
  · simp only [wordsFrom, List.length_map, List.length_range, List.length_take, List.length_drop]
    omega
  · simp only [wordsFrom, List.getElem_map, List.getElem_range, List.getElem_take, List.getElem_drop]
    congr 1
    omega

theorem wordsFrom_put {ram : Ram} {start : Nat} {words : List Word} (hfits : start + 4 * words.length ≤ ram.size) :
    (ram.put start (bytesOfWords words)).wordsFrom start words.length = words := by
  refine List.ext_getElem (by simp [wordsFrom]) fun i hi hi' => ?_
  simp only [wordsFrom, List.getElem_map, List.getElem_range]
  exact wordAt_put hfits hi'

end Ram

end Maxwell
