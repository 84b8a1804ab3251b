import Maxwell.Proofs.Pushbuffer.Entries
import Maxwell.Proofs.Replay.Trace

/-! Cuts between packets. Words that are read to their end, packet by packet, can be executed apart from those that
    follow them. So an entry can be cut in two after such words, as long as their execution leaves the rest alone. -/

namespace Maxwell

/-! ### Words that are read to their end -/

/-- Reading takes one packet after another off the words until none is left. Each packet has all its data. -/
inductive ReadsWhole : List Word → Prop
  | nil : ReadsWhole []
  | packet {words rest : List Word} {p : Packet} (read : Packet.read? words = some (p, rest)) (whole : p.Whole)
      (next : ReadsWhole rest) : ReadsWhole words

theorem SecOp.code_ofCode (code : Nat) : (ofCode code).code = code % 8 := by
  have hlt : code % 8 < 8 := Nat.mod_lt _ (by decide)
  unfold ofCode
  generalize code % 8 = n at hlt
  match n, hlt with
  | 0, _ | 1, _ | 2, _ | 3, _ | 4, _ | 5, _ | 6, _ | 7, _ => rfl

theorem Header.toWord_ofWord (w : Word) : (ofWord w).toWord = w := by
  have hlt := w.toNat_lt
  have hpacked : Word.packed [(0, w.field 0 13), (13, w.field 13 3), (16, w.field 16 13), (29, w.field 29 3 % 8)] =
      w.toNat := by
    simp only [Word.packed, Word.field, Nat.shiftLeft_eq, Nat.shiftRight_eq_div_pow]
    omega
  show Word.pack [(0, w.field 0 13), (13, w.field 13 3), (16, w.field 16 13), (29, (SecOp.ofCode (w.field 29 3)).code)] =
    w
  rw [SecOp.code_ofCode, Word.pack, hpacked, UInt32.ofNat_toNat]

/-- What is read is the beginning of the words. -/
theorem Packet.words_append_of_read? {words rest : List Word} {p : Packet} (h : read? words = some (p, rest)) :
    p.words ++ rest = words := by
  cases words with
  | nil => cases h
  | cons word words =>
    rw [← Header.toWord_ofWord word, read?_cons] at h
    split at h
    · cases h
    · cases h
      rw [Packet.words, List.cons_append, List.take_append_drop, Header.toWord_ofWord]

theorem ReadsWhole.wholePackets {words : List Word} (h : ReadsWhole words) : Replay.WholePackets words := by
  induction h with
  | nil => exact ⟨[], fun _ hp => absurd hp List.not_mem_nil, rfl⟩
  | @packet _ _ p hread hwhole _ ih =>
    obtain ⟨packets, hpackets, rfl⟩ := ih
    refine ⟨p :: packets, List.forall_mem_cons.mpr ⟨hwhole, hpackets⟩, ?_⟩
    rw [List.flatMap_cons, Packet.words_append_of_read? hread]

namespace Channel
variable {τ ω : Type} [Engine τ ω]

/-- Words that are read to their end are executed as if nothing followed them, and what follows as if they were not
    there. -/
theorem execute_append {a : List Word} (ha : ReadsWhole a) (b : List Word) (c : Channel τ ω) :
    execute (a ++ b) c = (execute a >>= fun _ => execute b) c := by
  rw [bind_apply, execute_eq, execute_eq, ha.wholePackets.callsOf_append, forM_append_apply]
  cases (callsOf a).forM deliver c with
  | ok _ d => exact (execute_eq b d).symm
  | error fault d => rfl

/-! ### Entries one after another -/

variable [GuestMemory ω]

/-- An entry can be replaced by two, if the second still reads its words when the first is done. -/
theorem process_two {whole first second : Entry} {a b : List Word} (ha : ReadsWhole a) {c : Channel τ ω}
    (hwhole : whole.Reads c.world (a ++ b)) (hfirst : first.Reads c.world a)
    (hsecond : ∀ d, execute a c = .ok () d → second.Reads d.world b) {before between after : List Entry}
    (hempty : ∀ entry ∈ before ++ between ++ after, entry.length = 0) :
    process (before ++ first :: (between ++ second :: after)) c = process [whole] c := by
  have hbefore : ∀ entry ∈ before, entry.length = 0 := fun e he => hempty e (by simp [he])
  have hbetween : ∀ entry ∈ between, entry.length = 0 := fun e he => hempty e (by simp [he])
  have hafter : ∀ entry ∈ after, entry.length = 0 := fun e he => hempty e (by simp [he])
  rw [process_empty_append hbefore, process_cons, bind_apply, processEntry_of_reads hfirst, process_singleton,
    processEntry_of_reads hwhole, execute_append ha, bind_apply]
  cases hrun : execute a c with
  | error fault d => rfl
  | ok _ d =>
    dsimp only
    rw [process_empty_append hbetween, process_cons, bind_apply, processEntry_of_reads (hsecond d hrun)]
    cases execute b d with
    | error fault e => rfl
    | ok _ e => exact process_empty hafter e

end Channel

/-! ### Entries that are cut -/

section
variable {σ : Type} [Sink σ]

namespace Channel

/-- No request of an execution writes to a place in memory that the segment of an entry is read from. -/
def Spares (words : List Word) (c : Channel Threed (AddressSpace (Board σ Ram))) (entry : Entry) : Prop :=
  ∀ e ∈ (stateOf (execute words c.observed)).space.backing.events, ∀ i < 4 * entry.length, ∀ place,
    c.world.translate (entry.address + .ofNat i) = some place → ¬e.Writes place.toNat

/-- An entry reads the same words as before after an execution that spares its segment. -/
theorem reads_of_spares {words rest : List Word} {c d : Channel Threed (AddressSpace (Board σ Ram))} {entry : Entry}
    (haligned : c.world.table.Aligned) (hreads : entry.Reads c.world rest) (hspares : Spares words c entry)
    (hd : execute words c = .ok () d) : entry.Reads d.world rest := by
  have hforget := execute_forget words c.observed
  rw [forget_observed, hd] at hforget
  have hframed := framed_calls (callsOf words) c.observed
  rw [← execute_eq] at hframed
  unfold Spares at hspares
  cases hrun : execute words c.observed with
  | error fault e =>
    rw [hrun] at hforget
    cases hforget
  | ok _ e =>
    rw [hrun] at hforget hframed hspares
    cases hforget
    exact Entry.reads_board.mpr ((Entry.reads_board.mp hreads).of_bytes haligned hframed.table hframed.size
      fun i hi place hplace => hframed.bytes _ fun event hevent => hspares event hevent i hi place hplace)

/-- A cut between packets shows in nothing. The words after it are executed as if they began a segment. An entry for
    both parts can be replaced by an entry for each, among others without words, if both can be read and the execution
    of the first part spares the second. -/
theorem process_cut {a : List Word} (ha : ReadsWhole a) (b : List Word) :
    (∀ {τ ω : Type} [Engine τ ω] (c : Channel τ ω), execute (a ++ b) c = (execute a >>= fun _ => execute b) c) ∧
    ∀ (mappings : List PageTable.Mapping) (c : Channel Threed (AddressSpace (Board σ Ram))),
      c.world.table = .ofMappings mappings →
      ∀ (whole first second : Entry), whole.Covers first second →
      first.Reads c.world a → second.Reads c.world b → Spares a c second →
      ∀ before between after : List Entry, (∀ entry ∈ before ++ between ++ after, entry.length = 0) →
      process (before ++ first :: (between ++ second :: after)) c = process [whole] c := by
  refine ⟨fun c => execute_append ha b c, ?_⟩
  intro mappings c htable whole first second hcovers hfirst hsecond hspares before between after hempty
  have haligned : c.world.table.Aligned := htable ▸ PageTable.aligned_ofMappings mappings
  have hwhole : whole.Reads c.world (a ++ b) :=
    Entry.reads_board.mpr (.append hcovers haligned (Entry.reads_board.mp hfirst) (Entry.reads_board.mp hsecond))
  exact process_two ha hwhole hfirst (fun d hd => reads_of_spares haligned hsecond hspares hd) hempty

/-- Two packets in one page, and entries without words whose address is not mapped. -/
theorem process_cut_noOperation :
    let a : List Word := [0x80000040]
    let b : List Word := [0x80010040]
    let c := (Replay.prepared 100 (fun _ => 0) ⟨0x1000, 0⟩ (bytesOfWords (a ++ b)) NullSink.mk).channel
    let whole : Entry := .ofSegment 0 2
    let first : Entry := .ofSegment 0 1
    let second : Entry := .ofSegment 4 1
    let empty : Entry := .ofSegment 0x5000 0
    ReadsWhole a ∧ c.world.table = .ofMappings [⟨0, 0, 0x1000⟩] ∧ whole.Covers first second ∧
    first.Reads c.world a ∧ second.Reads c.world b ∧ Spares a c second ∧
    empty.length = 0 ∧ c.world.translate empty.address = none ∧
    execute (a ++ b) c = (execute a >>= fun _ => execute b) c ∧
    process [empty, first, empty, second, empty] c = process [whole] c := by
  intro a b c whole first second empty
  have ha : ReadsWhole a := .packet (p := ⟨⟨.immediate, 0, 0x40, 0⟩, []⟩) rfl ⟨by decide, rfl⟩ .nil
  have htable : c.world.table = .ofMappings [⟨0, 0, 0x1000⟩] := rfl
  have hcovers : whole.Covers first second := ⟨by decide, by decide, by decide⟩
  have hmemory : c.world.backing.memory = (Ram.zeros (1 * pageSize)).put 0 (bytesOfWords (a ++ b)) := rfl
  have hreads : ∀ (n : Nat) (entry : Entry), entry.address.toNat = 4 * n → entry.length = 1 → n + 1 ≤ 2 →
      entry.Reads c.world (((a ++ b).drop n).take 1) := fun _ _ haddress hlength hpart =>
    Entry.reads_put (n := 1) rfl (by decide) (by decide) hmemory haddress hlength hpart
  have hfirst : first.Reads c.world a := hreads 0 first (by decide) (by decide) (by decide)
  have hsecond : second.Reads c.world b := hreads 1 second (by decide) (by decide) (by decide)
  have hspares : Spares a c second := by
    obtain ⟨d, hd, hspace, -⟩ :=
      Replay.deliver_noOperation_started 0 true 100 (fun _ => 0) ⟨0x1000, 0⟩ (a ++ b) NullSink.mk
    have hcalls : callsOf a = [⟨0, 0x40, 0, true⟩] :=
      callsOf_of_length_le (h := ⟨.immediate, 0, 0x40, 0⟩) (by decide) (Nat.zero_le _)
    have hrun : execute a c.observed = .ok () d := by
      rw [execute_eq, hcalls, forM_singleton_apply]
      exact hd
    intro e he
    rw [hrun, stateOf, hspace] at he
    exact absurd he List.not_mem_nil
  have hempty : empty.length = 0 := by decide
  have hunmapped : c.world.translate empty.address = none := by
    have htable : c.world.table = .mapPage {} 0 0 := rfl
    rw [AddressSpace.translate, htable, PageTable.translate_mapPage, if_neg (by decide), PageTable.translate_empty]
  obtain ⟨hexecute, hprocess⟩ := process_cut (σ := NullSink) ha b
  exact ⟨ha, htable, hcovers, hfirst, hsecond, hspares, hempty, hunmapped, hexecute c,
    hprocess _ c htable whole first second hcovers hfirst hsecond hspares [empty] [empty] [empty]
      (by simpa using hempty)⟩

end Channel

end

end Maxwell
