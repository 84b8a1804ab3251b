import Mathlib.Data.Nat.Find
import Maxwell.Proofs.Memory.PageTable
import Maxwell.Proofs.Memory.Ram
import Maxwell.Proofs.Outcome

/-! An access through a page table, byte by byte. It goes on piece by piece, but what is read and written is what
    single bytes would be, each where its own address leads, up to the first piece that is refused. -/

namespace Maxwell

/-! ### Where pieces begin -/

/-- Whether a piece of an access begins `o` bytes into it: at its first byte, and wherever a page begins. -/
def StartsPiece (address : UInt64) (length o : Nat) : Prop :=
  o < length ∧ (o = 0 ∨ (address.toNat + o) % pageSize = 0)

/-- The number of bytes from there to the end of the page or of the access. -/
def pieceLength (address : UInt64) (length o : Nat) : Nat :=
  min (length - o) (pageSize - (address.toNat + o) % pageSize)

section
variable {address : UInt64} {length o : Nat}

theorem pieceLength_pos (address : UInt64) (h : o < length) : 0 < pieceLength address length o := by
  have hpage := Ram.mod_pageSize_lt (address.toNat + o)
  unfold pieceLength
  omega

theorem startsPiece_zero (h : 0 < length) : StartsPiece address length 0 := ⟨h, .inl rfl⟩

/-- Where a piece ends, the access ends or another piece begins. -/
theorem startsPiece_next (h : o < length) :
    o + pieceLength address length o = length ∨ StartsPiece address length (o + pieceLength address length o) := by
  unfold StartsPiece pieceLength
  simp only [pageSize]
  omega

theorem not_startsPiece_within {e : Nat} (h : o < e) (he : e < o + pieceLength address length o) :
    ¬StartsPiece address length e := by
  unfold StartsPiece
  unfold pieceLength at he
  simp only [pageSize] at *
  omega

/-- Every byte of an access lies in a piece. -/
theorem exists_startsPiece (address : UInt64) {i : Nat} (hi : i < length) :
    ∃ o ≤ i, StartsPiece address length o ∧ i < o + pieceLength address length o := by
  have hmod := Nat.mod_le (address.toNat + i) pageSize
  by_cases hfirst : i ≤ (address.toNat + i) % pageSize
  · refine ⟨0, Nat.zero_le i, ⟨by omega, .inl rfl⟩, ?_⟩
    unfold pieceLength
    simp only [pageSize] at *
    omega
  · refine ⟨i - (address.toNat + i) % pageSize, Nat.sub_le _ _, ⟨by omega, .inr ?_⟩, ?_⟩
    · simp only [pageSize] at *
      omega
    · unfold pieceLength
      simp only [pageSize] at *
      omega

theorem offsetOf_add (hend : address.toNat + length < 2 ^ 64) (h : o ≤ length) :
    PageTable.offsetOf (address + .ofNat o) = (address.toNat + o) % pageSize := by
  rw [PageTable.offsetOf, PageTable.toNat_add_ofNat (by omega)]

theorem piecesFrom_of_lt (hend : address.toNat + length < 2 ^ 64) (h : o < length) :
    piecesFrom (address + .ofNat o) o (length - o) =
      ⟨address + .ofNat o, o, pieceLength address length o⟩ ::
        piecesFrom (address + .ofNat (o + pieceLength address length o)) (o + pieceLength address length o)
          (length - (o + pieceLength address length o)) := by
  rw [piecesFrom, if_neg (by omega), offsetOf_add hend (Nat.le_of_lt h)]
  show (⟨_, _, pieceLength address length o⟩ : Piece) ::
    piecesFrom (address + .ofNat o + .ofNat (pieceLength address length o)) _
      (length - o - pieceLength address length o) = _
  rw [UInt64.add_assoc, ← UInt64.ofNat_add, Nat.sub_sub]
  rfl

theorem pieces_eq (address : UInt64) (length : Nat) :
    pieces address length = piecesFrom (address + .ofNat 0) 0 (length - 0) := by
  rw [pieces, Nat.sub_zero, show address + .ofNat 0 = address from UInt64.add_zero address]

theorem pieces_zero (address : UInt64) : pieces address 0 = [] := by
  rw [pieces, piecesFrom, if_pos rfl]

theorem piecesFrom_length (address : UInt64) (length : Nat) :
    piecesFrom (address + .ofNat length) length (length - length) = [] := by
  rw [piecesFrom, if_pos (Nat.sub_self length)]

/-- An access that stays in its page is one piece. -/
theorem pieces_of_le (hpos : 0 < length) (hpage : length ≤ pageSize - PageTable.offsetOf address) :
    pieces address length = [⟨address, 0, length⟩] := by
  rw [pieces, piecesFrom, if_neg (Nat.ne_of_gt hpos), Nat.min_eq_left hpage]
  dsimp only
  rw [Nat.sub_self, piecesFrom, if_pos rfl]

end

namespace AddressSpace

theorem store_of_le {μ : Type} [GuestMemory μ] {space : AddressSpace μ} {address target : UInt64} {bytes : ByteArray}
    (hpos : 0 < bytes.size) (hpage : bytes.size ≤ pageSize - PageTable.offsetOf address)
    (hlead : space.translate address = some target) :
    GuestMemory.store address bytes space = onBacking (GuestMemory.store target bytes) space := by
  show (pieces address bytes.size).forM (storePiece bytes) space = _
  rw [pieces_of_le hpos hpage, forM_singleton_apply, storePiece, hlead]
  simp only [Nat.zero_add, ByteArray.extract_zero_size]

/-! ### Refusals -/

section
variable (space : AddressSpace Ram) (address : UInt64) (length : Nat)

/-- Why the piece of an access that begins `o` bytes into it is refused, if it is. -/
def refusal? (o : Nat) : Option MemoryFault :=
  match space.translate (address + .ofNat o) with
  | none => some (.unmapped (address + .ofNat o))
  | some target =>
    if target.toNat + pieceLength address length o ≤ space.backing.size then none
    else some (.outOfBounds target (pieceLength address length o))

/-- The first piece that is refused begins `o` bytes into the access. -/
structure RefusedAt (o : Nat) (fault : MemoryFault) : Prop where
  starts : StartsPiece address length o
  refusal : space.refusal? address length o = some fault
  first : ∀ e < o, StartsPiece address length e → space.refusal? address length e = none

/-- Every page of an access is mapped, and every piece ends within memory. -/
structure Admits : Prop where
  mapped : ∀ i < length, (space.translate (address + .ofNat i)).isSome
  fits : ∀ o target, StartsPiece address length o → space.translate (address + .ofNat o) = some target →
    target.toNat + pieceLength address length o ≤ space.backing.size

end

variable {space : AddressSpace Ram} {address : UInt64} {length : Nat}

theorem refusal?_eq_none {o : Nat} : space.refusal? address length o = none ↔
    ∃ target, space.translate (address + .ofNat o) = some target ∧
      target.toNat + pieceLength address length o ≤ space.backing.size := by
  unfold refusal?
  cases space.translate (address + .ofNat o) with
  | none => simp
  | some target => simp

/-- The bytes of a page, from one of them on. -/
theorem translate_within (haligned : space.table.Aligned) {o : Nat} {target : UInt64}
    (htarget : space.translate (address + .ofNat o) = some target) {i : Nat}
    (hi : PageTable.offsetOf (address + .ofNat o) + i < pageSize) :
    ∃ here, space.translate (address + .ofNat (o + i)) = some here ∧ here.toNat = target.toNat + i := by
  have hnat : (target + .ofNat i).toNat = target.toNat + i := haligned.toNat_add htarget hi
  refine ⟨target + UInt64.ofNat i, ?_, hnat⟩
  rw [UInt64.ofNat_add, ← UInt64.add_assoc, translate, space.table.translate_add hi]
  exact congrArg (Option.map _) htarget

/-- Within a piece that is not refused, every byte leads into memory. -/
theorem exists_target (haligned : space.table.Aligned) (hend : address.toNat + length < 2 ^ 64) {i : Nat}
    (hi : i < length) (hbefore : ∀ o ≤ i, StartsPiece address length o → space.refusal? address length o = none) :
    ∃ target, space.translate (address + .ofNat i) = some target ∧ target.toNat < space.backing.size := by
  obtain ⟨o, ho, hstarts, hin⟩ := exists_startsPiece address hi
  obtain ⟨target, htarget, hfits⟩ := refusal?_eq_none.mp (hbefore o ho hstarts)
  have hpage : PageTable.offsetOf (address + .ofNat o) + (i - o) < pageSize := by
    rw [offsetOf_add hend (by omega)]
    have hlt := Ram.mod_pageSize_lt (address.toNat + o)
    unfold pieceLength at hin
    omega
  obtain ⟨here, hhere, hnat⟩ := translate_within haligned htarget hpage
  rw [Nat.add_sub_cancel' ho] at hhere
  exact ⟨here, hhere, by omega⟩

theorem admits_iff (haligned : space.table.Aligned) (hend : address.toNat + length < 2 ^ 64) :
    space.Admits address length ↔ ∀ o, StartsPiece address length o → space.refusal? address length o = none := by
  constructor
  · intro h o ho
    obtain ⟨target, htarget⟩ := Option.isSome_iff_exists.mp (h.mapped o ho.1)
    exact refusal?_eq_none.mpr ⟨target, htarget, h.fits o target ho htarget⟩
  · intro h
    constructor
    · intro i hi
      obtain ⟨target, htarget, -⟩ := exists_target haligned hend hi fun o _ => h o
      exact Option.isSome_iff_exists.mpr ⟨target, htarget⟩
    · intro o target ho htarget
      obtain ⟨_, htarget', hfits⟩ := refusal?_eq_none.mp (h o ho)
      cases htarget.symm.trans htarget'
      exact hfits

theorem exists_refusedAt (haligned : space.table.Aligned) (hend : address.toNat + length < 2 ^ 64)
    (h : ¬space.Admits address length) : ∃ o fault, space.RefusedAt address length o fault := by
  classical
  have hsome : ∃ o, StartsPiece address length o ∧ space.refusal? address length o ≠ none := by
    rw [admits_iff haligned hend] at h
    obtain ⟨o, ho⟩ := not_forall.mp h
    exact ⟨o, Classical.not_imp.mp ho⟩
  obtain ⟨hstarts, hrefusal⟩ := Nat.find_spec hsome
  obtain ⟨fault, hfault⟩ := Option.ne_none_iff_exists'.mp hrefusal
  refine ⟨Nat.find hsome, fault, hstarts, hfault, fun e he hstarts => ?_⟩
  exact Classical.not_not.mp fun hrefusal => Nat.find_min hsome he ⟨hstarts, hrefusal⟩

/-! ### From piece to piece -/

section
variable {σ : Type} {f : Piece → EStateM MemoryFault σ Unit} (after : Nat → σ)
    (hend : address.toNat + length < 2 ^ 64)
    (hpiece : ∀ o, StartsPiece address length o →
      f ⟨address + .ofNat o, o, pieceLength address length o⟩ (after o) =
        match space.refusal? address length o with
        | none => .ok () (after (o + pieceLength address length o))
        | some fault => .error fault (after o))
include hend hpiece

/-- The pieces before one that is reached have been done. -/
theorem forM_piecesFrom {s o : Nat} (hs : s = length ∨ StartsPiece address length s)
    (ho : o = length ∨ StartsPiece address length o) (hle : s ≤ o)
    (hbefore : ∀ e < o, StartsPiece address length e → space.refusal? address length e = none) :
    (piecesFrom (address + .ofNat s) s (length - s)).forM f (after s) =
      (piecesFrom (address + .ofNat o) o (length - o)).forM f (after o) := by
  -- On the number of bytes between the two.
  induction hdistance : o - s using Nat.strongRecOn generalizing s with
  | ind distance ih =>
  rcases Nat.eq_or_lt_of_le hle with rfl | hlt
  · rfl
  · have holength : o ≤ length := by
      rcases ho with rfl | ho
      · exact Nat.le_refl _
      · exact Nat.le_of_lt ho.1
    have hstarts : StartsPiece address length s := hs.resolve_left (by omega)
    have hpos := pieceLength_pos address hstarts.1
    have hreach : s + pieceLength address length s ≤ o := by
      rcases ho with rfl | ho
      · unfold pieceLength
        omega
      · exact Nat.le_of_not_lt fun hwithin => not_startsPiece_within hlt hwithin ho
    rw [piecesFrom_of_lt hend hstarts.1, forM_cons_apply, hpiece s hstarts, hbefore s hlt hstarts]
    exact ih _ (by omega) (startsPiece_next hstarts.1) hreach rfl

theorem forM_pieces_admitted
    (hadmitted : ∀ o, StartsPiece address length o → space.refusal? address length o = none) :
    (pieces address length).forM f (after 0) = .ok () (after length) := by
  have hzero : 0 = length ∨ StartsPiece address length 0 := by
    rcases Nat.eq_zero_or_pos length with h | h
    · exact .inl h.symm
    · exact .inr (startsPiece_zero h)
  rw [pieces_eq, forM_piecesFrom after hend hpiece hzero (.inl rfl) (Nat.zero_le length) fun o _ => hadmitted o,
    piecesFrom_length, forM_nil_apply]

theorem forM_pieces_refused {o : Nat} {fault : MemoryFault} (h : space.RefusedAt address length o fault) :
    (pieces address length).forM f (after 0) = .error fault (after o) := by
  have hzero : StartsPiece address length 0 := startsPiece_zero (Nat.zero_lt_of_lt h.starts.1)
  rw [pieces_eq, forM_piecesFrom after hend hpiece (.inr hzero) (.inr h.starts) (Nat.zero_le o) h.first,
    piecesFrom_of_lt hend h.starts.1, forM_cons_apply, hpiece o h.starts, h.refusal]

end

/-! ### Reading -/

/-- The byte that an address leads to. -/
def byte (space : AddressSpace Ram) (address : UInt64) : UInt8 :=
  match space.translate address with
  | none => 0
  | some target => space.backing.byte target.toNat

/-- A buffer with `count` single bytes appended. -/
def gather (space : AddressSpace Ram) (address : UInt64) (buffer : ByteArray) (count : Nat) : ByteArray :=
  count.fold (fun i _ buffer => buffer.push (space.byte (address + .ofNat i))) buffer

theorem appendTo_gather (haligned : space.table.Aligned) {o : Nat} {target : UInt64}
    (htarget : space.translate (address + .ofNat o) = some target) (buffer : ByteArray) {n : Nat}
    (hn : PageTable.offsetOf (address + .ofNat o) + n ≤ pageSize) :
    space.backing.appendTo target.toNat n (space.gather address buffer o) = space.gather address buffer (o + n) := by
  induction n with
  | zero => rfl
  | succ n ih =>
    obtain ⟨here, hhere, hnat⟩ := translate_within haligned htarget (i := n) (by omega)
    have hbyte : space.byte (address + .ofNat (o + n)) = space.backing.byte (target.toNat + n) := by
      simp only [byte, hhere, hnat]
    have happend := ih (by omega)
    unfold Ram.appendTo gather at happend ⊢
    rw [Nat.fold_succ, happend, ← Nat.add_assoc, Nat.fold_succ, hbyte]

/-- Bytes that have been read, each from where its address leads. -/
structure Loaded (space : AddressSpace Ram) (address : UInt64) (length : Nat) (bytes : ByteArray) : Prop where
  size : bytes.size = length
  read : ∀ i < length, ∃ target, space.translate (address + .ofNat i) = some target ∧
    byteAt bytes i = space.backing.byte target.toNat

theorem loaded_gather (hin : ∀ i < length, ∃ target,
    space.translate (address + .ofNat i) = some target ∧ target.toNat < space.backing.size) :
    Loaded space address length (space.gather address .empty length) := by
  have hlist : (space.gather address .empty length).data.toList =
      (List.range length).map fun i => space.byte (address + .ofNat i) := by
    rw [gather, Ram.toList_fold_push]
    rfl
  constructor
  · show (space.gather address .empty length).data.size = length
    rw [← Array.length_toList, hlist, List.length_map, List.length_range]
  · intro i hi
    obtain ⟨target, htarget, -⟩ := hin i hi
    refine ⟨target, htarget, ?_⟩
    rw [byteAt_eq, hlist, List.getD_eq_getElem?_getD, List.getElem?_map, List.getElem?_range hi]
    simp only [Option.map_some, Option.getD_some, byte, htarget]

/-! ### Writing -/

/-- The address space with one byte written, if its page is mapped. -/
def putByte (space : AddressSpace Ram) (address : UInt64) (value : UInt8) : AddressSpace Ram :=
  match space.translate address with
  | none => space
  | some target => { space with backing := space.backing.setByte target.toNat value }

/-- The address space with the first `count` of some bytes written one by one. -/
def scatter (space : AddressSpace Ram) (address : UInt64) (bytes : ByteArray) (count : Nat) : AddressSpace Ram :=
  count.fold (fun i _ space => space.putByte (address + .ofNat i) (byteAt bytes i)) space

theorem scatter_succ (space : AddressSpace Ram) (address : UInt64) (bytes : ByteArray) (count : Nat) :
    space.scatter address bytes (count + 1) =
      (space.scatter address bytes count).putByte (address + .ofNat count) (byteAt bytes count) := by
  rw [scatter, Nat.fold_succ]
  rfl

theorem putByte_spec (space : AddressSpace Ram) (address : UInt64) (value : UInt8) :
    (space.putByte address value).table = space.table ∧
      (space.putByte address value).backing.size = space.backing.size := by
  unfold putByte
  split
  · exact ⟨rfl, rfl⟩
  · exact ⟨rfl, rfl⟩

theorem table_scatter (space : AddressSpace Ram) (address : UInt64) (bytes : ByteArray) (count : Nat) :
    (space.scatter address bytes count).table = space.table := by
  induction count with
  | zero => rfl
  | succ count ih => rw [scatter_succ, (putByte_spec _ _ _).1, ih]

theorem size_scatter (space : AddressSpace Ram) (address : UInt64) (bytes : ByteArray) (count : Nat) :
    (space.scatter address bytes count).backing.size = space.backing.size := by
  induction count with
  | zero => rfl
  | succ count ih => rw [scatter_succ, (putByte_spec _ _ _).2, ih]

theorem translate_scatter (space : AddressSpace Ram) (address : UInt64) (bytes : ByteArray) (count : Nat) :
    (space.scatter address bytes count).translate = space.translate := by
  funext other
  rw [translate, table_scatter, translate]

theorem put_eq (ram : Ram) (start : Nat) (bytes : ByteArray) :
    ram.put start bytes = bytes.size.fold (fun i _ ram => ram.setByte (start + i) (byteAt bytes i)) ram := by
  unfold Ram.put
  congr 1
  funext i hi ram
  rw [byteAt, dif_pos hi]

theorem byteAt_extract {bytes : ByteArray} {o n i : Nat} (hn : o + n ≤ bytes.size) (hi : i < n) :
    byteAt (bytes.extract o (o + n)) i = byteAt bytes (o + i) := by
  have hextract : i < (bytes.extract o (o + n)).size := by
    rw [ByteArray.size_extract]
    omega
  have hin : o + i < bytes.size := by omega
  rw [byteAt, byteAt, dif_pos hextract, dif_pos hin, ByteArray.getElem_extract]

theorem backing_scatter_succ {count : Nat} {target : UInt64}
    (htarget : space.translate (address + .ofNat count) = some target) (bytes : ByteArray) :
    (space.scatter address bytes (count + 1)).backing =
      (space.scatter address bytes count).backing.setByte target.toNat (byteAt bytes count) := by
  rw [scatter_succ, putByte, translate_scatter, htarget]

theorem put_scatter (haligned : space.table.Aligned) {o : Nat} {target : UInt64}
    (htarget : space.translate (address + .ofNat o) = some target) {bytes : ByteArray} {n : Nat}
    (hn : PageTable.offsetOf (address + .ofNat o) + n ≤ pageSize) (hbytes : o + n ≤ bytes.size) :
    (space.scatter address bytes o).backing.put target.toNat (bytes.extract o (o + n)) =
      (space.scatter address bytes (o + n)).backing := by
  have hsize : (bytes.extract o (o + n)).size = n := by
    rw [ByteArray.size_extract]
    omega
  -- After the first `m` bytes of the piece.
  have hfold : ∀ m ≤ n, m.fold (fun i _ ram => ram.setByte (target.toNat + i) (byteAt (bytes.extract o (o + n)) i))
      (space.scatter address bytes o).backing = (space.scatter address bytes (o + m)).backing := by
    intro m hm
    induction m with
    | zero => rfl
    | succ m ih =>
      obtain ⟨here, hhere, hnat⟩ := translate_within haligned htarget (i := m) (by omega)
      rw [Nat.fold_succ, ih (by omega), byteAt_extract hbytes (by omega), ← Nat.add_assoc, backing_scatter_succ hhere,
        hnat]
  rw [put_eq, hsize]
  exact hfold n (Nat.le_refl n)

/-- What is in memory after the first `count` of some bytes have been written, each where its address leads. Where
    several lead to the same place the last is found there, and what no address leads to stays. -/
structure Stored (space : AddressSpace Ram) (address : UInt64) (bytes : ByteArray) (count : Nat) (ram : Ram) : Prop where
  size : ram.size = space.backing.size
  written : ∀ i < count, ∀ target, space.translate (address + .ofNat i) = some target →
    (∀ j, i < j → j < count → space.translate (address + .ofNat j) ≠ some target) →
    ram.byte target.toNat = byteAt bytes i
  kept : ∀ place, (∀ i < count, ∀ target, space.translate (address + .ofNat i) = some target → target.toNat ≠ place) →
    ram.byte place = space.backing.byte place

theorem stored_scatter {bytes : ByteArray} {count : Nat} (hin : ∀ i < count, ∃ target,
    space.translate (address + .ofNat i) = some target ∧ target.toNat < space.backing.size) :
    Stored space address bytes count (space.scatter address bytes count).backing := by
  induction count with
  | zero => exact ⟨rfl, fun i hi => absurd hi (Nat.not_lt_zero i), fun _ _ => rfl⟩
  | succ count ih =>
    obtain ⟨hsize, hwritten, hkept⟩ := ih fun i hi => hin i (Nat.lt_succ_of_lt hi)
    obtain ⟨last, hlast, hmemory⟩ := hin count (Nat.lt_succ_self count)
    have hpage : last.toNat / pageSize < (space.scatter address bytes count).backing.pages.size := by
      refine Ram.div_lt_size ?_
      rwa [size_scatter]
    have hbyte : ∀ place, (space.scatter address bytes (count + 1)).backing.byte place =
        if place = last.toNat then byteAt bytes count else (space.scatter address bytes count).backing.byte place := by
      intro place
      rw [backing_scatter_succ hlast, Ram.byte_setByte]
      simp only [hpage, and_true]
    refine ⟨size_scatter space address bytes (count + 1), fun i hi target htarget hlater => ?_, fun place hplace => ?_⟩
    · rw [hbyte]
      rcases Nat.eq_or_lt_of_le (Nat.le_of_lt_succ hi) with rfl | hi
      · cases htarget.symm.trans hlast
        rw [if_pos rfl]
      · have hne : target.toNat ≠ last.toNat := by
          intro h
          rw [UInt64.toNat_inj.mp h] at hlater
          exact hlater count hi (Nat.lt_succ_self count) hlast
        rw [if_neg hne]
        exact hwritten i hi target htarget fun j hj hjc => hlater j hj (Nat.lt_succ_of_lt hjc)
    · rw [hbyte, if_neg (fun h => hplace count (Nat.lt_succ_self count) last hlast h.symm)]
      exact hkept place fun i hi => hplace i (Nat.lt_succ_of_lt hi)

/-! ### Accesses -/

section
variable (haligned : space.table.Aligned) (hend : address.toNat + length < 2 ^ 64)
include haligned hend

omit haligned in
theorem pieceLength_le {o : Nat} (ho : StartsPiece address length o) :
    PageTable.offsetOf (address + .ofNat o) + pieceLength address length o ≤ pageSize := by
  have hlt := Ram.mod_pageSize_lt (address.toNat + o)
  rw [offsetOf_add hend (Nat.le_of_lt ho.1)]
  unfold pieceLength
  omega

theorem loadPiece_gather (buffer : ByteArray) {o : Nat} (ho : StartsPiece address length o) :
    loadPiece space ⟨address + .ofNat o, o, pieceLength address length o⟩ (space.gather address buffer o) =
      match space.refusal? address length o with
      | none => .ok () (space.gather address buffer (o + pieceLength address length o))
      | some fault => .error fault (space.gather address buffer o) := by
  unfold loadPiece refusal?
  cases htarget : space.translate (address + .ofNat o) with
  | none => rfl
  | some target =>
    dsimp only
    show (if target.toNat + pieceLength address length o ≤ space.backing.size then _ else _ :
      EStateM.Result MemoryFault ByteArray Unit) = _
    split
    · rw [appendTo_gather haligned htarget buffer (pieceLength_le hend ho)]
    · rfl

theorem storePiece_scatter {bytes : ByteArray} (hbytes : bytes.size = length) {o : Nat}
    (ho : StartsPiece address length o) :
    storePiece bytes ⟨address + .ofNat o, o, pieceLength address length o⟩ (space.scatter address bytes o) =
      match space.refusal? address length o with
      | none => .ok () (space.scatter address bytes (o + pieceLength address length o))
      | some fault => .error fault (space.scatter address bytes o) := by
  have hpiece : o + pieceLength address length o ≤ bytes.size := by
    have hlt := ho.1
    unfold pieceLength
    omega
  unfold storePiece refusal?
  rw [translate_scatter]
  cases htarget : space.translate (address + .ofNat o) with
  | none => rfl
  | some target =>
    have hput := put_scatter haligned htarget (pieceLength_le hend ho) hpiece
    have hsize : (bytes.extract o (o + pieceLength address length o)).size = pieceLength address length o := by
      rw [ByteArray.size_extract]
      omega
    have htable : ∀ count, space.scatter address bytes count =
        ⟨space.table, (space.scatter address bytes count).backing⟩ := by
      intro count
      rw [← table_scatter space address bytes count]
    have hstore : (GuestMemory.store target (bytes.extract o (o + pieceLength address length o)) :
        EStateM MemoryFault Ram Unit) (space.scatter address bytes o).backing =
          if target.toNat + (bytes.extract o (o + pieceLength address length o)).size ≤
            (space.scatter address bytes o).backing.size
          then .ok () ((space.scatter address bytes o).backing.put target.toNat
            (bytes.extract o (o + pieceLength address length o)))
          else .error (.outOfBounds target (bytes.extract o (o + pieceLength address length o)).size)
            (space.scatter address bytes o).backing := rfl
    rw [hsize, size_scatter, hput] at hstore
    dsimp only
    by_cases hfits : target.toNat + pieceLength address length o ≤ space.backing.size
    · rw [if_pos hfits] at hstore ⊢
      simp only [onBacking, hstore, table_scatter]
      rw [← htable]
    · rw [if_neg hfits] at hstore ⊢
      simp only [onBacking, hstore, table_scatter]
      rw [← htable]

theorem load_admitted (h : space.Admits address length) (buffer : ByteArray) :
    GuestMemory.load space address length buffer = .ok () (space.gather address buffer length) :=
  forM_pieces_admitted (space.gather address buffer) hend (fun _ => loadPiece_gather haligned hend buffer)
    ((admits_iff haligned hend).mp h)

theorem load_refused {o : Nat} {fault : MemoryFault} (h : space.RefusedAt address length o fault) (buffer : ByteArray) :
    GuestMemory.load space address length buffer = .error fault (space.gather address buffer o) :=
  forM_pieces_refused (space.gather address buffer) hend (fun _ => loadPiece_gather haligned hend buffer) h

theorem store_admitted (h : space.Admits address length) {bytes : ByteArray} (hbytes : bytes.size = length) :
    GuestMemory.store address bytes space = .ok () (space.scatter address bytes length) := by
  show (pieces address bytes.size).forM (storePiece bytes) space = _
  rw [hbytes]
  exact forM_pieces_admitted (space.scatter address bytes) hend
    (fun _ => storePiece_scatter haligned hend hbytes) ((admits_iff haligned hend).mp h)

theorem store_refused {o : Nat} {fault : MemoryFault} (h : space.RefusedAt address length o fault)
    {bytes : ByteArray} (hbytes : bytes.size = length) :
    GuestMemory.store address bytes space = .error fault (space.scatter address bytes o) := by
  show (pieces address bytes.size).forM (storePiece bytes) space = _
  rw [hbytes]
  exact forM_pieces_refused (space.scatter address bytes) hend
    (fun _ => storePiece_scatter haligned hend hbytes) h

end

/-- An access succeeds if every page it touches is mapped and every piece of it ends within memory. Then it reads and
    writes what single bytes would be, in order. Otherwise it fails at the first piece that is refused, for the reason
    why this is, and has written what lies before it. -/
theorem access_bytewise (mappings : List PageTable.Mapping) (ram : Ram) {address : UInt64} {length : Nat}
    (hend : address.toNat + length < 2 ^ 64) :
    let space : AddressSpace Ram := ⟨.ofMappings mappings, ram⟩
    (space.Admits address length →
      (∃ bytes, GuestMemory.fetch space address length = .ok bytes ∧ Loaded space address length bytes) ∧
      ∀ bytes : ByteArray, bytes.size = length →
        ∃ ram', GuestMemory.store address bytes space = .ok () ⟨space.table, ram'⟩ ∧
          Stored space address bytes length ram') ∧
    (¬space.Admits address length →
      ∃ o fault, space.RefusedAt address length o fault ∧ GuestMemory.fetch space address length = .error fault ∧
        ∀ bytes : ByteArray, bytes.size = length →
          ∃ ram', GuestMemory.store address bytes space = .error fault ⟨space.table, ram'⟩ ∧
            Stored space address bytes o ram') ∧
    GuestMemory.fetch space address 0 = .ok .empty ∧ GuestMemory.store address .empty space = .ok () space := by
  intro space
  have haligned : space.table.Aligned := PageTable.aligned_ofMappings mappings
  have hscatter : ∀ bytes count, space.scatter address bytes count =
      ⟨space.table, (space.scatter address bytes count).backing⟩ := by
    intro bytes count
    rw [← table_scatter space address bytes count]
  refine ⟨fun h => ?_, fun h => ?_, ?_, ?_⟩
  · have hin : ∀ i < length, ∃ target,
        space.translate (address + .ofNat i) = some target ∧ target.toNat < space.backing.size := by
      intro i hi
      exact exists_target haligned hend hi fun o _ => (admits_iff haligned hend).mp h o
    refine ⟨⟨_, ?_, loaded_gather hin⟩, fun bytes hbytes => ⟨_, ?_, stored_scatter hin⟩⟩
    · rw [GuestMemory.fetch, load_admitted haligned hend h]
    · rw [store_admitted haligned hend h hbytes, ← hscatter]
  · obtain ⟨o, fault, hrefused⟩ := exists_refusedAt haligned hend h
    have hin : ∀ i < o, ∃ target,
        space.translate (address + .ofNat i) = some target ∧ target.toNat < space.backing.size := by
      intro i hi
      exact exists_target haligned hend (Nat.lt_trans hi hrefused.starts.1)
        fun e he => hrefused.first e (Nat.lt_of_le_of_lt he hi)
    refine ⟨o, fault, hrefused, ?_, fun bytes hbytes => ⟨_, ?_, stored_scatter hin⟩⟩
    · rw [GuestMemory.fetch, load_refused haligned hend hrefused]
    · rw [store_refused haligned hend hrefused hbytes, ← hscatter]
  · have hload : GuestMemory.load space address 0 .empty = .ok () .empty := by
      show (pieces address 0).forM (loadPiece space) .empty = _
      rw [pieces_zero, forM_nil_apply]
    rw [GuestMemory.fetch, hload]
  · show (pieces address 0).forM (storePiece .empty) space = _
    rw [pieces_zero, forM_nil_apply]

/-- Two pages lead to the same place, so the last byte of a write takes the place of the first. -/
theorem access_bytewise_aliased :
    let space : AddressSpace Ram := ⟨.ofMappings [⟨0x1000, 0x2000, 0x2000⟩, ⟨0x2000, 0x2000, 0x1000⟩], .zeros 0x3000⟩
    (0x1000 : UInt64).toNat + 0x1001 < 2 ^ 64 ∧ space.Admits 0x1000 0x1001 ∧
    (∃ bytes, GuestMemory.fetch space 0x1000 0x1001 = .ok bytes ∧ Loaded space 0x1000 0x1001 bytes) ∧
    ∀ bytes : ByteArray, bytes.size = 0x1001 →
      ∃ ram', GuestMemory.store 0x1000 bytes space = .ok () ⟨space.table, ram'⟩ ∧
        Stored space 0x1000 bytes 0x1001 ram' := by
  intro space
  have hend : (0x1000 : UInt64).toNat + 0x1001 < 2 ^ 64 := by decide
  have haligned : space.table.Aligned := PageTable.aligned_ofMappings _
  have htable : space.table =
      ((({} : PageTable).mapPage 0x1000 0x2000).mapPage 0x2000 0x3000).mapPage 0x2000 0x2000 := rfl
  have hfirst : space.translate (0x1000 + .ofNat 0) = some 0x2000 := by
    rw [translate, htable, PageTable.translate_mapPage, if_neg (by decide), PageTable.translate_mapPage,
      if_neg (by decide), PageTable.translate_mapPage, if_pos (by decide)]
    rfl
  have hsecond : space.translate (0x1000 + .ofNat 0x1000) = some 0x2000 := by
    rw [translate, htable, PageTable.translate_mapPage, if_pos (by decide)]
    rfl
  have hadmits : space.Admits 0x1000 0x1001 := by
    rw [admits_iff haligned hend]
    intro o ho
    have hcases : o = 0 ∨ o = 0x1000 := by
      obtain ⟨hlt, rfl | hpage⟩ := ho
      · exact .inl rfl
      · have hnat : (0x1000 : UInt64).toNat = 0x1000 := rfl
        rw [hnat] at hpage
        simp only [pageSize] at hpage
        omega
    rcases hcases with rfl | rfl
    · exact refusal?_eq_none.mpr ⟨0x2000, hfirst, by decide⟩
    · exact refusal?_eq_none.mpr ⟨0x2000, hsecond, by decide⟩
  obtain ⟨hfetch, hstore⟩ := (access_bytewise _ (.zeros 0x3000) hend).1 hadmits
  exact ⟨hend, hadmits, hfetch, hstore⟩

end AddressSpace

end Maxwell
