import Mathlib.Algebra.Group.Nat.Defs
import Maxwell.Proofs.Outcome
import Maxwell.Pushbuffer.Channel

/-! Reading a segment. The words of a packet are read back as this packet, and execution makes the calls of all
    packets of the segment in order. A segment that begins with whole packets is read as these packets and then
    like the words after them. -/

namespace Maxwell

/-! ### Headers -/

namespace SecOp

theorem code_lt (op : SecOp) : op.code < 8 := by
  cases op <;> decide

end SecOp

namespace Header

/-- The fields of a header lie side by side in its word. -/
theorem field_toWord (h : Header) (low size : Nat) : h.toWord.field low size =
    (h.method.val + h.subchannel.val * 0x2000 + h.count.val * 0x10000 + h.op.code * 0x20000000) / 2 ^ low %
      2 ^ size := by
  have hpacked : Word.packed [(0, h.method.val), (13, h.subchannel.val), (16, h.count.val), (29, h.op.code)] =
      h.method.val + h.subchannel.val * 0x2000 + h.count.val * 0x10000 + h.op.code * 0x20000000 := by
    simp only [Word.packed, Nat.shiftLeft_eq]
    omega
  have hcode := h.op.code_lt
  rw [toWord, Word.field_pack (by omega), hpacked, Nat.shiftRight_eq_div_pow, Nat.one_shiftLeft]

theorem ofWord_toWord (h : Header) : ofWord h.toWord = h := by
  have hmethod : h.toWord.field 0 13 = h.method := by
    rw [field_toWord]
    omega
  have hsubchannel : h.toWord.field 13 3 = h.subchannel := by
    rw [field_toWord]
    omega
  have hcount : h.toWord.field 16 13 = h.count := by
    rw [field_toWord]
    omega
  have hop : h.toWord.field 29 3 = h.op.code := by
    have hcode := h.op.code_lt
    rw [field_toWord]
    omega
  simp only [ofWord, hmethod, hsubchannel, hcount, hop, SecOp.ofCode_code]

end Header

/-! ### Packets -/

namespace Packet

/-- The number of data words that a header announces. -/
def announced (h : Header) : Nat := if h.op = .immediate then 0 else h.count

theorem read?_cons (h : Header) (rest : List Word) : read? (h.toWord :: rest) =
    if h.op = .endSegment then none else some (⟨h, rest.take (announced h)⟩, rest.drop (announced h)) := by
  rw [read?, Header.ofWord_toWord, announced]
  cases h.op <;> rfl

end Packet

theorem packetsOf_of_read?_eq_none {words : List Word} (h : Packet.read? words = none) : packetsOf words = [] := by
  rw [packetsOf]
  split
  · rfl
  · next heq => rw [h] at heq; cases heq

theorem packetsOf_of_read?_eq_some {words rest : List Word} {p : Packet} (h : Packet.read? words = some (p, rest)) :
    packetsOf words = p :: packetsOf rest := by
  rw [packetsOf]
  split
  · next heq => rw [h] at heq; cases heq
  · next heq => rw [h] at heq; cases heq; rfl

theorem packetsOf_nil : packetsOf [] = [] := packetsOf_of_read?_eq_none rfl

theorem callsOf_nil : callsOf [] = [] := by
  rw [callsOf, packetsOf_nil, List.flatMap_nil]

theorem packetsOf_endSegment {h : Header} (hop : h.op = .endSegment) (rest : List Word) :
    packetsOf (h.toWord :: rest) = [] := by
  refine packetsOf_of_read?_eq_none ?_
  rw [Packet.read?_cons, if_pos hop]

/-- A packet that the end of its segment cuts short. -/
theorem packetsOf_of_length_le {h : Header} {data : List Word} (hop : h.op ≠ .endSegment)
    (hlength : data.length ≤ Packet.announced h) : packetsOf (h.toWord :: data) = [⟨h, data⟩] := by
  have hread : Packet.read? (h.toWord :: data) = some (⟨h, data⟩, []) := by
    rw [Packet.read?_cons, if_neg hop, List.take_of_length_le hlength, List.drop_of_length_le hlength]
  rw [packetsOf_of_read?_eq_some hread, packetsOf_nil]

theorem callsOf_of_length_le {h : Header} {data : List Word} (hop : h.op ≠ .endSegment)
    (hlength : data.length ≤ Packet.announced h) : callsOf (h.toWord :: data) = Packet.calls ⟨h, data⟩ := by
  rw [callsOf, packetsOf_of_length_le hop hlength, List.flatMap_singleton]

namespace Packet

/-- Whether a packet has all the data that its header announces. The end of a segment is no packet. -/
structure Whole (p : Packet) : Prop where
  op : p.header.op ≠ .endSegment
  length : p.data.length = announced p.header

instance (p : Packet) : Decidable p.Whole :=
  decidable_of_iff (p.header.op ≠ .endSegment ∧ p.data.length = announced p.header)
    ⟨fun h => ⟨h.1, h.2⟩, fun h => ⟨h.op, h.length⟩⟩

theorem packetsOf_words {p : Packet} (h : p.Whole) (rest : List Word) :
    packetsOf (p.words ++ rest) = p :: packetsOf rest := by
  refine packetsOf_of_read?_eq_some ?_
  rw [words, List.cons_append, read?_cons, if_neg h.op, ← h.length, List.take_left, List.drop_left]

end Packet

/-- Whole packets at the beginning of a segment are read as they were written. -/
theorem packetsOf_append {packets : List Packet} (h : ∀ p ∈ packets, p.Whole) (rest : List Word) :
    packetsOf (packets.flatMap Packet.words ++ rest) = packets ++ packetsOf rest := by
  induction packets with
  | nil => rfl
  | cons p packets ih =>
    rw [List.flatMap_cons, List.append_assoc, Packet.packetsOf_words (h p List.mem_cons_self),
      ih fun q hq => h q (List.mem_cons_of_mem _ hq), List.cons_append]

theorem callsOf_append {packets : List Packet} (h : ∀ p ∈ packets, p.Whole) (rest : List Word) :
    callsOf (packets.flatMap Packet.words ++ rest) = packets.flatMap Packet.calls ++ callsOf rest := by
  rw [callsOf, packetsOf_append h, List.flatMap_append]
  rfl

theorem callsOf_flatMap_words {packets : List Packet} (h : ∀ p ∈ packets, p.Whole) :
    callsOf (packets.flatMap Packet.words) = packets.flatMap Packet.calls := by
  have hcalls := callsOf_append h []
  rwa [callsOf_nil, List.append_nil, List.append_nil] at hcalls

/-! ### Execution -/

namespace Channel
variable {τ ω : Type} [Engine τ ω]

/-- A segment is executed by its calls. -/
theorem execute_eq (words : List Word) (c : Channel τ ω) : execute words c = (callsOf words).forM deliver c := by
  induction words using packetsOf.induct generalizing c with
  | case1 words hread =>
    rw [execute, callsOf, packetsOf_of_read?_eq_none hread]
    split
    · rfl
    · next heq => rw [hread] at heq; cases heq
  | case2 words packet rest hread ih =>
    rw [execute, callsOf, packetsOf_of_read?_eq_some hread, List.flatMap_cons, forM_append_apply]
    split
    · next heq => rw [hread] at heq; cases heq
    · next heq =>
      rw [hread] at heq
      cases heq
      cases packet.calls.forM deliver c with
      | ok _ d => exact ih d
      | error fault d => rfl

theorem execute_nil (c : Channel τ ω) : execute [] c = .ok () c := by
  rw [execute_eq, callsOf_nil, forM_nil_apply]

/-! ### Entries -/

variable [GuestMemory ω]

theorem process_cons (entry : Entry) (entries : List Entry) (c : Channel τ ω) :
    process (entry :: entries) c = (processEntry entry >>= fun _ => process entries) c := rfl

theorem process_singleton (entry : Entry) (c : Channel τ ω) : process [entry] c = processEntry entry c :=
  forM_singleton_apply processEntry entry c

/-- Entries without words do nothing, wherever their addresses lead. -/
theorem process_empty_append {empty : List Entry} (h : ∀ entry ∈ empty, entry.length = 0) (entries : List Entry)
    (c : Channel τ ω) : process (empty ++ entries) c = process entries c := by
  induction empty with
  | nil => rfl
  | cons entry empty ih =>
    have hentry : processEntry entry c = .ok () c := if_pos (h entry List.mem_cons_self)
    rw [List.cons_append, process_cons, bind_ok hentry]
    exact ih fun e he => h e (List.mem_cons_of_mem _ he)

theorem process_empty {empty : List Entry} (h : ∀ entry ∈ empty, entry.length = 0) (c : Channel τ ω) :
    process empty c = .ok () c := by
  rw [← List.append_nil empty, process_empty_append h]
  rfl

end Channel

end Maxwell
