import Maxwell.Proofs.Memory.AddressSpace
import Maxwell.Proofs.Memory.Bytewise
import Maxwell.Proofs.Memory.Translation
import Maxwell.Proofs.Pushbuffer.Decode

/-! What entries read. A segment is read byte by byte, each from where its own address leads, so an entry for two
    segments that lie side by side reads the words of both. -/

namespace Maxwell

/-! ### Entries that can be read -/

/-- An entry names a segment of these words, and the memory gives them. -/
structure Entry.Reads {ω : Type} [GuestMemory ω] (entry : Entry) (world : ω) (words : List Word) : Prop where
  length : words.length = entry.length
  fetch : ∃ bytes, GuestMemory.fetch world entry.address (4 * entry.length) = .ok bytes ∧ wordsOfBytes bytes = words

/-- The board behind an address space is read by its memory alone. -/
theorem Entry.reads_board {σ : Type} [Sink σ] {entry : Entry} {space : AddressSpace (Board σ Ram)} {words : List Word} :
    entry.Reads space words ↔ entry.Reads (⟨space.table, space.backing.memory⟩ : AddressSpace Ram) words :=
  ⟨fun h => ⟨h.length, h.fetch⟩, fun h => ⟨h.length, h.fetch⟩⟩

theorem Entry.address_lt (entry : Entry) : entry.address.toNat < 2 ^ 40 := by
  have hhigh := entry.high.field_lt 0 8
  have hlow := entry.low.field_lt 2 30
  rw [Nat.one_shiftLeft] at hhigh hlow
  rw [Entry.address, Nat.shiftLeft_eq, Nat.shiftLeft_eq, UInt64.toNat_ofNat_of_lt' (by rw [UInt64.size]; omega)]
  omega

/-- The segment of an entry does not go past the last 64-bit address. -/
theorem Entry.end_lt (entry : Entry) : entry.address.toNat + 4 * entry.length < 2 ^ 64 := by
  have haddress := entry.address_lt
  have hlength := entry.high.field_lt 10 21
  rw [Nat.one_shiftLeft] at hlength
  rw [Entry.length]
  omega

theorem Channel.processEntry_of_reads {τ ω : Type} [Engine τ ω] [GuestMemory ω] {entry : Entry} {c : Channel τ ω}
    {words : List Word} (h : entry.Reads c.world words) : processEntry entry c = execute words c := by
  obtain ⟨hlength, bytes, hfetch, hwords⟩ := h
  unfold processEntry
  split
  · next hzero =>
    rw [List.eq_nil_of_length_eq_zero (hlength.trans hzero), execute_nil]
  · rw [hfetch, ← hwords]

/-! ### Segments in memory -/

namespace AddressSpace

section
variable {space : AddressSpace Ram} {address : UInt64} {length : Nat}

/-- An address leads to a byte of memory. -/
def Reaches (space : AddressSpace Ram) (address : UInt64) : Prop :=
  ∃ target, space.translate address = some target ∧ target.toNat < space.backing.size

/-- An access is admitted if each of its bytes is. -/
theorem admits_iff_reaches (haligned : space.table.Aligned) (hend : address.toNat + length < 2 ^ 64) :
    space.Admits address length ↔ ∀ i < length, space.Reaches (address + .ofNat i) := by
  rw [admits_iff haligned hend]
  constructor
  · intro h i hi
    exact exists_target haligned hend hi fun o _ => h o
  · intro h o ho
    obtain ⟨target, htarget, -⟩ := h o ho.1
    refine refusal?_eq_none.mpr ⟨target, htarget, ?_⟩
    -- The last byte of the piece lies in memory, and the others side by side before it.
    have hpos := pieceLength_pos address ho.1
    have hin : o + (pieceLength address length o - 1) < length := by
      unfold pieceLength at hpos ⊢
      omega
    have hpage := pieceLength_le hend ho
    obtain ⟨last, hlast, hnat⟩ := translate_within haligned htarget (i := pieceLength address length o - 1) (by omega)
    obtain ⟨last', hlast', hlt⟩ := h _ hin
    cases hlast.symm.trans hlast'
    omega

theorem fetch_eq_ok_iff (haligned : space.table.Aligned) (hend : address.toNat + length < 2 ^ 64) {bytes : ByteArray} :
    GuestMemory.fetch space address length = .ok bytes ↔
      space.Admits address length ∧ space.gather address .empty length = bytes := by
  by_cases h : space.Admits address length
  · rw [GuestMemory.fetch, load_admitted haligned hend h]
    simp [h]
  · obtain ⟨o, fault, hrefused⟩ := exists_refusedAt haligned hend h
    rw [GuestMemory.fetch, load_refused haligned hend hrefused]
    simp [h]

/-- The words of a range. -/
def wordsFrom (space : AddressSpace Ram) (address : UInt64) (count : Nat) : List Word :=
  (List.range count).map fun i => wordAt (fun k => space.byte (address + .ofNat k)) (4 * i)

theorem length_wordsFrom (space : AddressSpace Ram) (address : UInt64) (count : Nat) :
    (space.wordsFrom address count).length = count := by
  rw [wordsFrom, List.length_map, List.length_range]

theorem wordsFrom_congr {other : AddressSpace Ram} {address' : UInt64} {count : Nat}
    (h : ∀ i < 4 * count, other.byte (address' + .ofNat i) = space.byte (address + .ofNat i)) :
    other.wordsFrom address' count = space.wordsFrom address count := map_wordAt_congr h

/-- Addresses that agree in the 40 bits that count have the same byte. -/
theorem byte_congr (space : AddressSpace Ram) {address other : UInt64}
    (h : address.toNat % 2 ^ 40 = other.toNat % 2 ^ 40) : space.byte address = space.byte other := by
  rw [byte, byte, translate, PageTable.translate_congr space.table h]
  rfl

theorem Reaches.congr {address other : UInt64} (h : address.toNat % 2 ^ 40 = other.toNat % 2 ^ 40)
    (hreaches : space.Reaches address) : space.Reaches other := by
  obtain ⟨target, htarget, hlt⟩ := hreaches
  exact ⟨target, (PageTable.translate_congr space.table h.symm).trans htarget, hlt⟩

/-- A range is two ranges, one after the other. -/
theorem wordsFrom_add {first second : Nat} {next : UInt64}
    (hnext : ∀ i < 4 * second, (next + .ofNat i).toNat % 2 ^ 40 =
      (address + .ofNat (4 * first + i)).toNat % 2 ^ 40) :
    space.wordsFrom address (first + second) = space.wordsFrom address first ++ space.wordsFrom next second := by
  have hsecond : space.wordsFrom next second = (List.range second).map fun i =>
      wordAt (fun k => space.byte (address + .ofNat (4 * first + k))) (4 * i) :=
    map_wordAt_congr fun k hk => space.byte_congr (hnext k hk)
  rw [hsecond, wordsFrom, List.range_add, List.map_append, List.map_map]
  refine congrArg _ (List.map_congr_left fun i _ => ?_)
  simp only [Function.comp_apply, wordAt, Nat.mul_add, Nat.add_assoc]

end

end AddressSpace

namespace Entry
variable {space : AddressSpace Ram} {entry : Entry} {words : List Word}

/-- What an entry reads, byte by byte. -/
theorem reads_iff (haligned : space.table.Aligned) : entry.Reads space words ↔
    (∀ i < 4 * entry.length, space.Reaches (entry.address + .ofNat i)) ∧
      space.wordsFrom entry.address entry.length = words := by
  rw [← AddressSpace.admits_iff_reaches haligned entry.end_lt]
  have hgather : wordsOfBytes (space.gather entry.address .empty (4 * entry.length)) =
      space.wordsFrom entry.address entry.length := Ram.wordsOfBytes_fold_push _ _
  constructor
  · rintro ⟨-, bytes, hfetch, rfl⟩
    obtain ⟨hadmits, rfl⟩ := (AddressSpace.fetch_eq_ok_iff haligned entry.end_lt).mp hfetch
    exact ⟨hadmits, hgather.symm⟩
  · rintro ⟨hadmits, rfl⟩
    have hfetch := (AddressSpace.fetch_eq_ok_iff haligned entry.end_lt).mpr ⟨hadmits, rfl⟩
    exact ⟨space.length_wordsFrom _ _, _, hfetch, hgather⟩

/-- One entry covers two if it names the words of the first and, next to them, those of the second. -/
structure Covers (whole first second : Entry) : Prop where
  address : whole.address = first.address
  length : whole.length = first.length + second.length
  next : second.address.toNat % 2 ^ 40 = (first.address.toNat + 4 * first.length) % 2 ^ 40

theorem Covers.next_add {whole first second : Entry} (h : whole.Covers first second) {i : Nat}
    (hi : i < 4 * second.length) :
    (second.address + .ofNat i).toNat % 2 ^ 40 = (whole.address + .ofNat (4 * first.length + i)).toNat % 2 ^ 40 := by
  have hwhole := whole.end_lt
  have hsecond := second.end_lt
  obtain ⟨haddress, hlength, hnext⟩ := h
  rw [PageTable.toNat_add_ofNat (by omega), PageTable.toNat_add_ofNat (by omega), haddress]
  omega

/-- If both parts can be read, so can the whole. -/
theorem Reads.append {whole first second : Entry} (hcovers : whole.Covers first second) {a b : List Word}
    (haligned : space.table.Aligned) (ha : first.Reads space a) (hb : second.Reads space b) :
    whole.Reads space (a ++ b) := by
  rw [reads_iff haligned] at ha hb ⊢
  obtain ⟨hfirst, rfl⟩ := ha
  obtain ⟨hsecond, rfl⟩ := hb
  refine ⟨fun i hi => ?_, ?_⟩
  · by_cases hbelow : i < 4 * first.length
    · rw [hcovers.address]
      exact hfirst i hbelow
    · have hrest : i - 4 * first.length < 4 * second.length := by
        rw [hcovers.length] at hi
        omega
      refine (hsecond _ hrest).congr ?_
      rw [hcovers.next_add hrest, Nat.add_sub_cancel' (Nat.le_of_not_lt hbelow)]
  · rw [hcovers.length, AddressSpace.wordsFrom_add fun i hi => hcovers.next_add hi, hcovers.address]

/-- What an entry reads stays as long as the bytes stay to which its addresses lead. -/
theorem Reads.of_bytes {other : AddressSpace Ram} (haligned : space.table.Aligned) (h : entry.Reads space words)
    (htable : other.table = space.table) (hsize : other.backing.size = space.backing.size)
    (hbytes : ∀ i < 4 * entry.length, ∀ place, space.translate (entry.address + .ofNat i) = some place →
      other.backing.byte place.toNat = space.backing.byte place.toNat) : entry.Reads other words := by
  have htranslate : other.translate = space.translate := by
    funext address
    rw [AddressSpace.translate, htable, AddressSpace.translate]
  rw [reads_iff haligned] at h
  rw [reads_iff (htable ▸ haligned)]
  obtain ⟨hreaches, rfl⟩ := h
  refine ⟨fun i hi => ?_, AddressSpace.wordsFrom_congr fun i hi => ?_⟩
  · obtain ⟨target, htarget, hlt⟩ := hreaches i hi
    exact ⟨target, (congrFun htranslate _).trans htarget, hsize ▸ hlt⟩
  · obtain ⟨target, htarget, -⟩ := hreaches i hi
    rw [AddressSpace.byte, AddressSpace.byte, htranslate, htarget]
    exact hbytes i hi target htarget

/-- Through pages that are mapped to themselves, an entry reads a part of the words that lie in memory. It is found by
    the 40 low bits of its address, if the memory from the words on is no larger than these tell apart. -/
theorem reads_identity {n base first count : Nat} {trace : List Word} (htable : space.table = .identity n)
    (hsize : space.backing.size = n * pageSize) (hlast : n * pageSize < 2 ^ 64) (hnear : n * pageSize ≤ base + 2 ^ 40)
    (hfits : base + 4 * trace.length ≤ n * pageSize) (htrace : space.backing.wordsFrom base trace.length = trace)
    (haddress : entry.address.toNat % 2 ^ 40 = (base + 4 * first) % 2 ^ 40) (hlength : entry.length = count)
    (hpart : first + count ≤ trace.length) : entry.Reads space ((trace.drop first).take count) := by
  subst hlength
  have haligned : space.table.Aligned := htable ▸ PageTable.aligned_empty.map 0 0 (n * pageSize)
  have hend := entry.end_lt
  have hleads : ∀ i < 4 * entry.length, ∃ target, space.translate (entry.address + .ofNat i) = some target ∧
      target.toNat = base + 4 * first + i := by
    intro i hi
    have hnat : (UInt64.ofNat (base + 4 * first + i)).toNat = base + 4 * first + i :=
      UInt64.toNat_ofNat_of_lt' (by rw [UInt64.size]; omega)
    refine ⟨.ofNat (base + 4 * first + i), ?_, hnat⟩
    rw [AddressSpace.translate, htable]
    refine PageTable.translate_identity (Nat.le_of_lt hlast) ?_ (by omega) (by omega)
    rw [hnat, PageTable.toNat_add_ofNat (by omega)]
    omega
  rw [reads_iff haligned]
  constructor
  · intro i hi
    obtain ⟨target, hlead, hnat⟩ := hleads i hi
    exact ⟨target, hlead, by omega⟩
  · conv_rhs => rw [← htrace, ← Ram.wordsFrom_part _ _ hpart, Ram.wordsFrom_eq]
    refine map_wordAt_congr fun i hi => ?_
    obtain ⟨target, hlead, hnat⟩ := hleads i hi
    rw [AddressSpace.byte, hlead]
    show space.backing.byte target.toNat = space.backing.byte (base + 4 * first + i)
    rw [hnat]

/-- Through pages that are mapped to themselves, an entry reads a part of the words that were put at the start of a
    memory. -/
theorem reads_put {σ : Type} [Sink σ] {space : AddressSpace (Board σ Ram)} {n first count : Nat} {trace : List Word}
    (htable : space.table = .identity n) (hnear : n * pageSize ≤ 2 ^ 40) (hfits : 4 * trace.length ≤ n * pageSize)
    (hmemory : space.backing.memory = (Ram.zeros (n * pageSize)).put 0 (bytesOfWords trace))
    (haddress : entry.address.toNat = 4 * first) (hlength : entry.length = count)
    (hpart : first + count ≤ trace.length) : entry.Reads space ((trace.drop first).take count) := by
  have hsize : space.backing.memory.size = n * pageSize := by
    rw [hmemory]
    exact (Ram.put_spec (.zeros (n * pageSize)) 0 (bytesOfWords trace)).1
  have htrace : space.backing.memory.wordsFrom 0 trace.length = trace := by
    rw [hmemory]
    refine Ram.wordsFrom_put ?_
    rwa [Nat.zero_add]
  refine Entry.reads_board.mpr (reads_identity htable hsize ?_ ?_ ?_ htrace ?_ hlength hpart)
  · omega
  · rwa [Nat.zero_add]
  · rwa [Nat.zero_add]
  · rw [haddress, Nat.zero_add]

end Entry

end Maxwell
