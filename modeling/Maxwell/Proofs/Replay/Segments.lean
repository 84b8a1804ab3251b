import Maxwell.Proofs.Pushbuffer.Decode
import Maxwell.Proofs.Replay.Placement

/-! The segments of a trace. Its entries cut a trace after each greatest number of words that an entry can name,
    wherever that falls. If no cut goes through a packet the segments make the calls of the trace, but a packet that
    is cut is not put together again. -/

namespace Maxwell.Replay

/-! ### Parts of a trace -/

/-- The words that entry `i` of a trace names. -/
def segment (words : List Word) (i : Nat) : List Word := (words.drop (i * Entry.maxLength)).take Entry.maxLength

/-- The number of entries of a trace. -/
def segmentCount (words : List Word) : Nat := (words.length + (Entry.maxLength - 1)) / Entry.maxLength

/-- The segments that the entries of a trace name. -/
def segmentsOf (words : List Word) : List (List Word) := (List.range (segmentCount words)).map (segment words)

theorem lt_segmentCount {words : List Word} {i : Nat} :
    i < segmentCount words ↔ i * Entry.maxLength < words.length := by
  simp only [segmentCount, Entry.maxLength]
  omega

theorem take_succ_mul (words : List Word) (k : Nat) :
    words.take ((k + 1) * Entry.maxLength) = words.take (k * Entry.maxLength) ++ segment words k := by
  rw [segment, ← List.take_add, Nat.succ_mul]

theorem take_segmentCount (words : List Word) : words.take (segmentCount words * Entry.maxLength) = words := by
  refine List.take_of_length_le ?_
  simp only [segmentCount, Entry.maxLength]
  omega

/-- The segments are the trace, in order. -/
theorem flatten_segmentsOf (words : List Word) : (segmentsOf words).flatten = words := by
  have hfirst : ∀ k, ((List.range k).map (segment words)).flatten = words.take (k * Entry.maxLength) := by
    intro k
    induction k with
    | zero => rw [Nat.zero_mul, List.take_zero, List.range_zero, List.map_nil, List.flatten_nil]
    | succ k ih =>
      rw [List.range_succ, List.map_append, List.flatten_append, ih, List.map_singleton, List.flatten_singleton,
        take_succ_mul]
  rw [segmentsOf, hfirst, take_segmentCount]

/-- A segment of full length comes off the front of a trace. -/
theorem segmentsOf_append {first : List Word} (hfirst : first.length = Entry.maxLength) (rest : List Word) :
    segmentsOf (first ++ rest) = first :: segmentsOf rest := by
  have hcount : segmentCount (first ++ rest) = segmentCount rest + 1 := by
    simp only [segmentCount, List.length_append, hfirst, Entry.maxLength]
    omega
  have hzero : segment (first ++ rest) 0 = first := by
    rw [segment, Nat.zero_mul, List.drop_zero, List.take_left' hfirst]
  have hsucc : segment (first ++ rest) ∘ Nat.succ = segment rest := by
    funext i
    rw [Function.comp_apply, segment, segment, Nat.succ_mul, Nat.add_comm, ← List.drop_drop, List.drop_left' hfirst]
  rw [segmentsOf, hcount, List.range_succ_eq_map, List.map_cons, hzero, List.map_map, hsucc, segmentsOf]

/-- A trace that one entry can name. -/
theorem segmentsOf_of_length_le {words : List Word} (hne : words ≠ []) (hle : words.length ≤ Entry.maxLength) :
    segmentsOf words = [words] := by
  have hpos := List.length_pos_iff.mpr hne
  have hcount : segmentCount words = 1 := by
    simp only [segmentCount, Entry.maxLength] at hle ⊢
    omega
  rw [segmentsOf, hcount, List.range_one, List.map_singleton, segment, Nat.zero_mul, List.drop_zero,
    List.take_of_length_le hle]

/-- Whether words are whole packets, with no end of the segment among them. -/
def WholePackets (words : List Word) : Prop :=
  ∃ packets : List Packet, (∀ p ∈ packets, p.Whole) ∧ words = packets.flatMap Packet.words

theorem WholePackets.callsOf_append {words : List Word} (h : WholePackets words) (rest : List Word) :
    callsOf (words ++ rest) = callsOf words ++ callsOf rest := by
  obtain ⟨packets, hwhole, rfl⟩ := h
  rw [Maxwell.callsOf_append hwhole, callsOf_flatMap_words hwhole]

/-- If each cut falls between two packets, the segments make the calls of the trace. -/
theorem flatMap_segmentsOf {words : List Word}
    (hcuts : ∀ i, i * Entry.maxLength < words.length → WholePackets (words.take (i * Entry.maxLength))) :
    (segmentsOf words).flatMap callsOf = callsOf words := by
  -- After the first `k` segments.
  have hfirst : ∀ k, k ≤ segmentCount words →
      ((List.range k).map (segment words)).flatMap callsOf = callsOf (words.take (k * Entry.maxLength)) := by
    intro k hk
    induction k with
    | zero => rw [Nat.zero_mul, List.take_zero, callsOf_nil, List.range_zero, List.map_nil, List.flatMap_nil]
    | succ k ih =>
      have hwhole := hcuts k (lt_segmentCount.mp hk)
      rw [List.range_succ, List.map_append, List.flatMap_append, ih (Nat.le_of_succ_le hk), take_succ_mul,
        hwhole.callsOf_append, List.map_singleton, List.flatMap_singleton]
  rw [segmentsOf, hfirst _ (Nat.le_refl _), take_segmentCount]

theorem WholePackets.append {words rest : List Word} (h : WholePackets words) (hrest : WholePackets rest) :
    WholePackets (words ++ rest) := by
  obtain ⟨packets, hwhole, rfl⟩ := h
  obtain ⟨packets', hwhole', rfl⟩ := hrest
  exact ⟨packets ++ packets', List.forall_mem_append.mpr ⟨hwhole, hwhole'⟩, List.flatMap_append.symm⟩

/-- Words of zeros are headers of blocks without words, for which there are no calls. -/
theorem exists_packets_replicate (n : Nat) :
    ∃ packets : List Packet, (∀ p ∈ packets, p.Whole) ∧ List.replicate n 0 = packets.flatMap Packet.words ∧
      packets.flatMap Packet.calls = [] := by
  have hpacket : ∀ p ∈ List.replicate n (⟨⟨.group0, 0, 0, 0⟩, []⟩ : Packet), p.Whole ∧ p.calls = [] := by
    intro p hp
    cases List.eq_of_mem_replicate hp
    exact ⟨⟨nofun, rfl⟩, rfl⟩
  refine ⟨_, fun p hp => (hpacket p hp).1, ?_, List.flatMap_eq_nil_iff.mpr fun p hp => (hpacket p hp).2⟩
  induction n with
  | zero => rfl
  | succ n ih =>
    have hrest := ih fun p hp => hpacket p (List.mem_cons_of_mem _ hp)
    rw [List.replicate_succ, List.replicate_succ, List.flatMap_cons, ← hrest]
    rfl

theorem wholePackets_replicate (n : Nat) : WholePackets (List.replicate n 0) := by
  obtain ⟨packets, hwhole, hwords, -⟩ := exists_packets_replicate n
  exact ⟨packets, hwhole, hwords⟩

theorem callsOf_replicate_append (n : Nat) (rest : List Word) :
    callsOf (List.replicate n 0 ++ rest) = callsOf rest := by
  obtain ⟨packets, hwhole, hwords, hcalls⟩ := exists_packets_replicate n
  rw [hwords, Maxwell.callsOf_append hwhole, hcalls, List.nil_append]

/-- A cut through a packet: its header ends the first segment, which has none of its data, and the data is read as a
    header at the beginning of the second. -/
theorem flatMap_segmentsOf_cut {n : Nat} (hn : n + 1 = Entry.maxLength) :
    (segmentsOf (List.replicate n 0 ++ [0x20010040, 5])).flatMap callsOf = [] ∧
    callsOf (List.replicate n 0 ++ [0x20010040, 5]) = [⟨0, 0x40, 5, true⟩] := by
  have hfirst : (List.replicate n 0 ++ [(0x20010040 : Word)]).length = Entry.maxLength := by
    rw [List.length_append, List.length_replicate, ← hn]
    rfl
  have hwords : List.replicate n 0 ++ [(0x20010040 : Word), 5] = (List.replicate n 0 ++ [0x20010040]) ++ [5] := by
    rw [List.append_assoc]
    rfl
  have hheader : callsOf [0x20010040] = [] :=
    callsOf_of_length_le (h := ⟨.inc, 0, 0x40, 1⟩) nofun (Nat.zero_le _)
  have hdata : callsOf [5] = [] :=
    callsOf_of_length_le (h := ⟨.group0, 0, 5, 0⟩) nofun (Nat.zero_le _)
  have hwhole : callsOf [0x20010040, 5] = [⟨0, 0x40, 5, true⟩] :=
    callsOf_of_length_le (h := ⟨.inc, 0, 0x40, 1⟩) nofun (Nat.le_refl _)
  constructor
  · rw [hwords, segmentsOf_append hfirst, segmentsOf_of_length_le (List.cons_ne_nil _ _) (by decide), List.flatMap_cons,
      List.flatMap_singleton, callsOf_replicate_append, hheader, hdata, List.nil_append]
  · rw [callsOf_replicate_append, hwhole]

/-! ### Entries of segments -/

section
variable {place : Placement} {words : List Word} {i : Nat}

/-- The address of a segment. -/
def segmentStart (place : Placement) (i : Nat) : UInt64 := place.base + .ofNat (4 * (i * Entry.maxLength))

/-- The number of words of a segment. -/
def segmentLength (words : List Word) (i : Nat) : Nat := min Entry.maxLength (words.length - i * Entry.maxLength)

/-- The entry of a segment. -/
def entryAt (place : Placement) (words : List Word) (i : Nat) : Entry :=
  .ofSegment (segmentStart place i) (segmentLength words i)

theorem entriesOf_eq (place : Placement) (words : List Word) :
    entriesOf place.base words.length = (List.range (segmentCount words)).map (entryAt place words) := rfl

theorem segment_eq (words : List Word) (i : Nat) :
    segment words i = (words.drop (i * Entry.maxLength)).take (segmentLength words i) := by
  rw [segment, segmentLength, List.take_eq_take_iff, List.length_drop]
  omega

theorem segmentLength_spec (hi : i * Entry.maxLength < words.length) :
    0 < segmentLength words i ∧ segmentLength words i < 0x200000 ∧
      i * Entry.maxLength + segmentLength words i ≤ words.length := by
  simp only [segmentLength, Entry.maxLength] at hi ⊢
  omega

theorem length_entryAt (hi : i * Entry.maxLength < words.length) :
    (entryAt place words i).length = segmentLength words i := by
  rw [entryAt, Entry.length_ofSegment]
  exact Nat.mod_eq_of_lt (segmentLength_spec hi).2.1

variable (hplace : place.Sound (4 * words.length)) (hi : i * Entry.maxLength < words.length)
include hplace hi

theorem toNat_segmentStart : (segmentStart place i).toNat = place.base.toNat + 4 * (i * Entry.maxLength) := by
  have htop := place.top.toNat_lt
  have hfits := hplace.fits
  rw [segmentStart, UInt64.toNat_add, UInt64.toNat_ofNat', Nat.mod_eq_of_lt (by omega)]
  omega

theorem address_entryAt : (entryAt place words i).address.toNat = (segmentStart place i).toNat % 2 ^ 40 := by
  have hbase := hplace.base
  have hstart := toNat_segmentStart hplace hi
  simp only [pageSize] at hbase
  rw [entryAt, Entry.address_ofSegment]
  omega

end

/-! ### Entries one after the other -/

/-- Entries for `count` words from an address on. Each begins where the one before it ends, and is neither empty nor
    longer than an entry can be. -/
inductive Tiles : (start : Nat) → List Entry → (count : Nat) → Prop
  | nil (start : Nat) : Tiles start [] 0
  | cons {start count : Nat} {entry : Entry} {entries : List Entry} (address : entry.address.toNat = start)
      (pos : 1 ≤ entry.length) (le : entry.length ≤ Entry.maxLength)
      (next : Tiles (start + 4 * entry.length) entries count) : Tiles start (entry :: entries) (entry.length + count)

/-- What is left of a trace from a segment on, and what the segments after it leave. -/
theorem segmentLength_add {words : List Word} {k : Nat} (hk : k * Entry.maxLength < words.length) :
    segmentLength words k + (words.length - (k + 1) * Entry.maxLength) = words.length - k * Entry.maxLength := by
  rw [segmentLength, Nat.succ_mul k]
  omega

/-- The entries of a trace that lies below the end of the 40 bits of an address. -/
theorem tiles_entriesOf {place : Placement} {words : List Word} (hplace : place.Sound (4 * words.length))
    (hspace : place.top.toNat ≤ 2 ^ 40) : Tiles place.base.toNat (entriesOf place.base words.length) words.length := by
  let left k := words.length - k * Entry.maxLength
  -- The entries from the `k`th on, for the words that are left there.
  have hrest : ∀ n k, k + n = segmentCount words →
      Tiles (place.base.toNat + 4 * (words.length - left k)) ((List.range' k n).map (entryAt place words)) (left k) := by
    intro n
    induction n with
    | zero =>
      intro k hk
      have hdone : left k = 0 :=
        Nat.sub_eq_zero_of_le (Nat.le_of_not_lt fun hlt => Nat.ne_of_lt (lt_segmentCount.mpr hlt) hk)
      rw [hdone]
      exact .nil _
    | succ n ih =>
      intro k hk
      have hlt : k * Entry.maxLength < words.length := lt_segmentCount.mp (by omega)
      have hfits := hplace.fits
      have hstart : words.length - left k = k * Entry.maxLength := Nat.sub_sub_self (Nat.le_of_lt hlt)
      have haddress : (entryAt place words k).address.toNat = place.base.toNat + 4 * (words.length - left k) := by
        rw [address_entryAt hplace hlt, toNat_segmentStart hplace hlt, hstart]
        exact Nat.mod_eq_of_lt (by omega)
      have hlength : (entryAt place words k).length = segmentLength words k := length_entryAt hlt
      have hleft : (entryAt place words k).length + left (k + 1) = left k := hlength ▸ segmentLength_add hlt
      have hnext : words.length - left (k + 1) = words.length - left k + (entryAt place words k).length := by
        have hle : left k ≤ words.length := Nat.sub_le _ _
        omega
      obtain ⟨hpos, hmax, -⟩ := segmentLength_spec hlt
      have htail := ih (k + 1) (by omega)
      rw [hnext, Nat.mul_add, ← Nat.add_assoc] at htail
      rw [List.range'_succ, List.map_cons]
      rw [← hleft] at haddress htail ⊢
      exact .cons haddress (hlength ▸ hpos) (hlength ▸ Nat.le_of_lt_succ hmax) htail
  have hall : left 0 = words.length := by
    show words.length - 0 * Entry.maxLength = _
    rw [Nat.zero_mul, Nat.sub_zero]
  have h := hrest (segmentCount words) 0 (Nat.zero_add _)
  rwa [hall, Nat.sub_self, Nat.mul_zero, Nat.add_zero, ← List.range_eq_range', ← entriesOf_eq] at h

end Maxwell.Replay
