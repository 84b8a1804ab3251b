import Maxwell.Proofs.Replay.Trace

/-! What a replay fetches. A trace that fits into memory lies in whole pages at its top, its entries name it from
    end to end, and each of them reads its segment as long as nothing is written to the trace before. -/

namespace Maxwell.Replay
open Channel Numeral

section
variable {σ : Type} [Sink σ] {place : Placement} {words : List Word}

omit [Sink σ] in
theorem reads_forget {η : Type} [Host η] {entry : Entry} {c : Observed η} :
    entry.Reads c.forget.world words ↔ entry.Reads c.world words :=
  ⟨fun h => ⟨h.length, h.fetch⟩, fun h => ⟨h.length, h.fetch⟩⟩

omit [Sink σ] in
theorem byte_prepared {trace : ByteArray} (hplace : place.Sound trace.size) (stepLimit : Nat)
    (readings : Nat → UInt64) (sink : σ) {i : Nat} (hi : i < trace.size) :
    (prepared stepLimit readings place trace sink).host.memory.byte (place.base.toNat + i) = byteAt trace i := by
  obtain ⟨-, -, hbyte⟩ := Ram.put_spec (.zeros place.top.toNat) place.base.toNat trace
  have hin : place.base.toNat + i < (Ram.zeros place.top.toNat).size :=
    Nat.lt_of_lt_of_le (Nat.add_lt_add_left hi _) hplace.fits
  refine (hbyte (place.base.toNat + i)).trans ?_
  rw [if_pos ⟨Nat.le_add_right _ _, Nat.add_lt_add_left hi _, Ram.div_lt_size hin⟩, Nat.add_sub_cancel_left]

theorem eq_entryAt_of_entriesOf {before after : List Entry} {entry : Entry}
    (hentries : entriesOf place.base words.length = before ++ entry :: after) :
    before.length * Entry.maxLength < words.length ∧ entry = entryAt place words before.length := by
  have hget : (entriesOf place.base words.length)[before.length]? = some entry := by
    rw [hentries, List.getElem?_append_right (Nat.le_refl _), Nat.sub_self, List.getElem?_cons_zero]
  rw [entriesOf_eq, List.getElem?_map, Option.map_eq_some_iff] at hget
  obtain ⟨i, hi, rfl⟩ := hget
  obtain ⟨hlt, rfl⟩ := List.getElem?_eq_some_iff.mp hi
  rw [List.getElem_range]
  rw [List.length_range] at hlt
  exact ⟨lt_segmentCount.mp hlt, rfl⟩

/-- An entry reads its segment when the entries before it have been executed, if these left the trace alone. -/
theorem reads_after (hplace : place.Sound (4 * words.length)) (stepLimit : Nat) (readings : Nat → UInt64) (sink : σ)
    {before after : List Entry} {entry : Entry}
    (hentries : entriesOf place.base words.length = before ++ entry :: after)
    (hquiet : Quiet place words (stateOf (process before (started stepLimit readings place words sink)))) :
    entry.Reads (stateOf (process before (prepared stepLimit readings place (bytesOfWords words) sink).channel)).world
      (segment words before.length) := by
  obtain ⟨hlt, rfl⟩ := eq_entryAt_of_entriesOf hentries
  let start := started stepLimit readings place words sink
  have hintact : Intact place words (stateOf (process before start)) :=
    (intact_started hplace stepLimit readings sink).of_framed (framed_process before start) hquiet
  have hforget : process before (prepared stepLimit readings place (bytesOfWords words) sink).channel =
      through forget (process before start) := by
    rw [← process_forget]
    exact congrArg (process before) (forget_observed _).symm
  rw [hforget, stateOf_through, reads_forget]
  exact reads_entryAt hplace hlt hintact

/-- A trace of whole words is either refused or it lies in whole pages at the top of memory. Then the entries name it
    from its first word to its last, and each of them reads its part of the trace if the entries before it write
    nothing there. -/
theorem replay_placed (options : Options) (settings : Settings) (readings : Nat → UInt64) (path : String)
    {trace : ByteArray} (sink : σ) (hwhole : trace.size % 4 = 0) (hsize : trace.size < 2 ^ 63)
    (hmemory : settings.memorySize < 2 ^ 64) (hspace : topOf settings.memorySize ≤ 2 ^ 40) :
    (topOf settings.memorySize < roomOf trace.size ∧
      replay options settings readings ⟨path, .ok trace⟩ =
        { exit := 1
          error := some
            { message := "Trace of " ++ decimal trace.size ++ " bytes does not fit in 0x" ++
                hex settings.memorySize 1 ++ " bytes of guest memory" } }) ∨
    ∃ place : Placement,
      let gpu := prepared settings.macroStepLimit readings place trace sink
      let entries := entriesOf place.base (trace.size / 4)
      let words := wordsOfBytes trace
      replay options settings readings ⟨path, .ok trace⟩ = execute options settings readings place trace ∧
      place.top.toNat = topOf settings.memorySize ∧ place.base.toNat + roomOf trace.size = place.top.toNat ∧
      place.base.toNat % pageSize = 0 ∧ place.base.toNat + trace.size ≤ place.top.toNat ∧
      (∀ i < trace.size, gpu.host.memory.byte (place.base.toNat + i) = byteAt trace i) ∧
      Tiles place.base.toNat entries (trace.size / 4) ∧
      ((List.range entries.length).map (segment words)).flatten = words ∧
      ∀ before entry after, entries = before ++ entry :: after →
        (∀ e ∈ (stateOf (process before gpu.channel.observed)).space.backing.events,
          ∀ i < trace.size, ¬e.Writes (place.base.toNat + i)) →
        entry.Reads (stateOf (process before gpu.channel)).world (segment words before.length) := by
  have hpages : trace.size + pageSize ≤ 2 ^ 64 := by
    simp only [pageSize]
    omega
  have hplaces := Placement.of?_cases settings.memorySize hpages
  rw [UInt64.toNat_ofNat_of_lt' hmemory] at hplaces
  rcases hplaces with ⟨hover, hnone⟩ | ⟨place, hsome, htop, hbase⟩
  · left
    refine ⟨hover, ?_⟩
    unfold replay
    dsimp only
    rw [if_neg (not_not.mpr hwhole), hnone]
  · right
    have hroom : trace.size ≤ roomOf trace.size := by
      simp only [roomOf, pageSize]
      omega
    have hplace : place.Sound trace.size := Placement.sound_of_eq_some (by omega) hsome
    have hbytes : bytesOfWords (wordsOfBytes trace) = trace := bytesOfWords_wordsOfBytes hwhole
    have hlength : (wordsOfBytes trace).length = trace.size / 4 := length_wordsOfBytes trace
    have hwords : 4 * (wordsOfBytes trace).length = trace.size := by rw [← size_bytesOfWords, hbytes]
    have hsound : place.Sound (4 * (wordsOfBytes trace).length) := by
      rw [hwords]
      exact hplace
    have htop' : place.top.toNat ≤ 2 ^ 40 := htop.symm ▸ hspace
    refine ⟨place, ?_, htop, hbase.trans htop.symm, hplace.base, hplace.fits, ?_, ?_, ?_, ?_⟩
    · unfold replay
      dsimp only
      rw [if_neg (not_not.mpr hwhole), hsome]
    · exact fun i hi => byte_prepared hplace _ readings sink hi
    · rw [← hlength]
      exact tiles_entriesOf hsound htop'
    · rw [← hlength, entriesOf_eq, List.length_map, List.length_range]
      exact flatten_segmentsOf _
    · intro before entry after hentries hquiet
      rw [← hlength] at hentries
      have hstart : started settings.macroStepLimit readings place (wordsOfBytes trace) sink =
          (prepared settings.macroStepLimit readings place trace sink).channel.observed := by rw [started, hbytes]
      have hreads := reads_after hsound settings.macroStepLimit readings sink hentries fun e he i hi =>
        hquiet e (hstart ▸ he) i (Nat.lt_of_lt_of_eq hi hwords)
      rwa [hbytes] at hreads

end

/-- A trace of two entries at the top of a memory that does not end at a page bound. The second entry, whose words lie
    in two pages, is fetched after the first has stored a record outside the trace. -/
theorem replay_placed_two :
    let packets : List Packet :=
      [⟨⟨.immediate, 0, 0x40, 0⟩, []⟩, ⟨⟨.immediate, 0, 0x6C2, 7⟩, []⟩, ⟨⟨.immediate, 0, 0x6C3, 0⟩, []⟩]
    let lead : List Word := List.replicate (Entry.maxLength - 3) 0 ++ packets.flatMap Packet.words
    let rest : List Word := [0x80010040, 0x80020040]
    let trace : ByteArray := bytesOfWords (lead ++ rest)
    let options : Options := { trace := "two" }
    let settings : Settings := { macroStepLimit := 100, memorySize := 0x901234 }
    let place : Placement := ⟨0x901000, 0x100000⟩
    let gpu := prepared settings.macroStepLimit (fun _ => 0) place trace NullSink.mk
    let first : Entry := .ofSegment 0x100000 0x1FFFFF
    let second : Entry := .ofSegment 0x8FFFFC 2
    trace.size % 4 = 0 ∧ trace.size < 2 ^ 63 ∧ settings.memorySize < 2 ^ 64 ∧ topOf settings.memorySize ≤ 2 ^ 40 ∧
    replay options settings (fun _ => 0) ⟨"two", .ok trace⟩ = execute options settings (fun _ => 0) place trace ∧
    entriesOf place.base (trace.size / 4) = [first, second] ∧ first.Reads gpu.channel.world lead ∧
    (∃ live, (stateOf (process [first] gpu.channel.observed)).space.backing.events =
      [.store 0 [7, 0, 0, 0, 0, 0, 0, 0].toByteArray none, .notify live (notifySpan 0x6C2) none]) ∧
    second.Reads (stateOf (process [first] gpu.channel)).world rest := by
  intro packets lead rest trace options settings place gpu first second
  have hlead : lead.length = Entry.maxLength := by
    show (_ ++ packets.flatMap Packet.words).length = _
    rw [List.length_append, List.length_replicate]
    rfl
  have hlength : (lead ++ rest).length = 0x200001 := by
    rw [List.length_append, hlead]
    rfl
  have hbytes : trace.size = 0x800004 := by rw [size_bytesOfWords, hlength]
  have hwhole : trace.size % 4 = 0 := by rw [hbytes]
  have hsize : trace.size < 2 ^ 63 := by
    rw [hbytes]
    decide
  have hmemory : settings.memorySize < 2 ^ 64 := by decide
  have hspace : topOf settings.memorySize ≤ 2 ^ 40 := by decide
  have hentries : entriesOf place.base (trace.size / 4) = [first, second] := by
    rw [hbytes]
    decide
  have hplace : place.Sound (4 * (lead ++ rest).length) := by
    have hsome : Placement.of? settings.memorySize (4 * (lead ++ rest).length) = some place := by
      rw [hlength]
      decide
    exact Placement.sound_of_eq_some (by rw [hlength]; decide) hsome
  have hsegment : segment (lead ++ rest) 0 = lead ∧ segment (lead ++ rest) 1 = rest := by
    constructor
    · rw [segment, Nat.zero_mul, List.drop_zero, List.take_left' hlead]
    · rw [segment, Nat.one_mul, List.drop_left' hlead]
      rfl
  have hcalls : callsOf lead = [⟨0, 0x40, 0, true⟩, ⟨0, 0x6C2, 7, true⟩, ⟨0, 0x6C3, 0, true⟩] := by
    rw [callsOf_replicate_append]
    exact callsOf_flatMap_words (show ∀ p ∈ packets, p.Whole by decide)
  let start := started 100 (fun _ => 0) place (lead ++ rest) NullSink.mk
  have hstart : gpu.channel.observed = start := rfl
  have hfirst : first = entryAt place (lead ++ rest) 0 := by
    rw [entryAt, segmentLength, hlength]
    rfl
  obtain ⟨d, live, hrun, hquiet, hevents, -⟩ := forM_deliver_release hplace (by decide) (by decide)
  have hprocess : process [first] start = .ok () d := by
    have hintact : Intact place (lead ++ rest) start := intact_started hplace 100 (fun _ => 0) NullSink.mk
    rw [process_singleton, hfirst, processEntry_entryAt hplace (by rw [hlength]; decide) hintact, hsegment.1,
      execute_eq, hcalls]
    exact hrun
  obtain ⟨hover, -⟩ | ⟨place', hreplay, htop, hbase, -, -, -, -, -, hreads⟩ :=
    replay_placed options settings (fun _ => 0) "two" NullSink.mk hwhole hsize hmemory hspace
  · rw [hbytes] at hover
    exact absurd hover (by decide)
  · have hsame : place' = place := by
      have htop' : place'.top = 0x901000 := UInt64.toNat_inj.mp (htop.trans (by decide))
      have hbase' : place'.base = 0x100000 := by
        have hroom : roomOf trace.size = 0x801000 := by
          rw [hbytes]
          decide
        rw [htop', hroom] at hbase
        exact UInt64.toNat_inj.mp (Nat.add_right_cancel (hbase.trans (by decide)))
      rw [show place = ⟨0x901000, 0x100000⟩ from rfl, ← htop', ← hbase']
    subst hsame
    rw [wordsOfBytes_bytesOfWords] at hreads
    have hlead := hreads [] first [second] hentries fun _ he => absurd he List.not_mem_nil
    have hrest := hreads [first] second [] hentries (by
      rw [hstart, hprocess]
      exact fun e he i hi => hquiet e he i (by rwa [← size_bytesOfWords]))
    rw [List.length_nil, hsegment.1] at hlead
    rw [List.length_singleton, hsegment.2] at hrest
    refine ⟨hwhole, hsize, hmemory, hspace, hreplay, hentries, hlead, ⟨live, ?_⟩, hrest⟩
    rw [hstart, hprocess]
    exact hevents

end Maxwell.Replay
