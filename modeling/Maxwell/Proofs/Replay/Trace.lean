import Maxwell.Proofs.Pushbuffer.Entries
import Maxwell.Proofs.Register.Writes
import Maxwell.Proofs.Replay.Frame
import Maxwell.Proofs.Replay.Segments
import Maxwell.Proofs.Threed.Semaphores
import Maxwell.Replay.Run

/-! What a replay executes: each segment of the trace by itself, in order, as long as the trace in memory is left
    alone. This is the execution of the whole trace if no cut goes through a packet. -/

namespace Maxwell.Replay
open Channel

section
variable {σ : Type} [Sink σ]

/-! ### A trace in memory -/

/-- The trace is in memory at its place, and addresses stay as they are. -/
structure Intact (place : Placement) (words : List Word) (c : Observed (Board σ Ram)) : Prop where
  table : c.space.table = .identity (place.top.toNat / pageSize)
  size : c.space.backing.host.memory.size = place.top.toNat
  words : c.space.backing.host.memory.wordsFrom place.base.toNat words.length = words

/-- No request on record wrote to the region of the trace. -/
def Quiet (place : Placement) (words : List Word) (c : Observed (Board σ Ram)) : Prop :=
  ∀ e ∈ c.space.backing.events, ∀ i < 4 * words.length, ¬e.Writes (place.base.toNat + i)

omit [Sink σ] in
theorem Quiet.of_framed {place : Placement} {words : List Word} {c d : Observed (Board σ Ram)}
    (h : Quiet place words d) (hframed : Framed c.space d.space) : Quiet place words c :=
  fun e he => h e (hframed.events.subset he)

omit [Sink σ] in
theorem Intact.of_framed {place : Placement} {words : List Word} {c d : Observed (Board σ Ram)}
    (h : Intact place words c) (hframed : Framed c.space d.space) (hquiet : Quiet place words d) :
    Intact place words d where
  table := hframed.table.trans h.table
  size := hframed.size.trans h.size
  words := by
    rw [Ram.wordsFrom_congr fun i hi => hframed.bytes _ fun e he => hquiet e he i hi]
    exact h.words

variable {place : Placement} {words : List Word}

/-- What is observed is read by the memory of its board alone. -/
theorem reads_observed {entry : Entry} {c : Observed (Board σ Ram)} {words : List Word} :
    entry.Reads c.world words ↔ entry.Reads (c.space.mapBacking fun traced => traced.host.memory) words :=
  ⟨fun h => ⟨h.length, h.fetch⟩, fun h => ⟨h.length, h.fetch⟩⟩

/-- The words of a segment are read through its entry. -/
theorem reads_entryAt (hplace : place.Sound (4 * words.length)) {i : Nat} (hi : i * Entry.maxLength < words.length)
    {c : Observed (Board σ Ram)} (h : Intact place words c) :
    (entryAt place words i).Reads c.world (segment words i) := by
  have haddress := address_entryAt hplace hi
  rw [toNat_segmentStart hplace hi] at haddress
  rw [reads_observed, segment_eq]
  refine Entry.reads_identity h.table ?_ ?_ ?_ ?_ h.words ?_ (length_entryAt hi) (segmentLength_spec hi).2.2
  · exact h.size.trans hplace.pages.symm
  · rw [hplace.pages]
    exact place.top.toNat_lt
  · rw [hplace.pages]
    exact hplace.near
  · rw [hplace.pages]
    exact hplace.fits
  · rw [haddress, Nat.mod_mod]

omit [Sink σ] in
/-- The first address stays as it is, if there is memory. -/
theorem Intact.translate_zero (hplace : place.Sound (4 * words.length)) {c : Observed (Board σ Ram)}
    (h : Intact place words c) (hpos : 0 < place.top.toNat) (hspace : place.top.toNat ≤ 2 ^ 40) :
    c.space.translate 0 = some 0 := by
  show PageTable.translate c.space.table 0 = some 0
  rw [h.table]
  refine PageTable.translate_identity ?_ rfl ?_ ?_
  all_goals rw [hplace.pages]
  · exact Nat.le_of_lt place.top.toNat_lt
  · exact hpos
  · exact Nat.le_add_left_of_le hspace

/-- An entry is executed as the segment it names. -/
theorem processEntry_entryAt (hplace : place.Sound (4 * words.length)) {i : Nat}
    (hi : i * Entry.maxLength < words.length) {c : Observed (Board σ Ram)} (h : Intact place words c) :
    processEntry (entryAt place words i) c = Channel.execute (segment words i) c :=
  processEntry_of_reads (reads_entryAt hplace hi h)

/-- As long as the trace is in memory, its entries make the calls of its segments. The trace stays in memory if
    either run leaves it alone. -/
theorem process_map_entryAt (hplace : place.Sound (4 * words.length)) {is : List Nat}
    (his : ∀ i ∈ is, i * Entry.maxLength < words.length) {c : Observed (Board σ Ram)} (h : Intact place words c)
    (hquiet : Quiet place words (stateOf (process (is.map (entryAt place words)) c)) ∨
      Quiet place words (stateOf (((is.map (segment words)).flatMap callsOf).forM deliver c))) :
    process (is.map (entryAt place words)) c = ((is.map (segment words)).flatMap callsOf).forM deliver c := by
  induction is generalizing c with
  | nil => rfl
  | cons i is ih =>
    have hentry : processEntry (entryAt place words i) c = (callsOf (segment words i)).forM deliver c := by
      rw [processEntry_entryAt hplace (his i List.mem_cons_self) h, execute_eq]
    have hframed := framed_calls (callsOf (segment words i)) c
    simp only [process, List.map_cons, List.flatMap_cons, forM_cons_apply, forM_append_apply, hentry] at hquiet ⊢
    cases hrun : (callsOf (segment words i)).forM deliver c with
    | error fault d => rfl
    | ok _ d =>
      rw [hrun] at hquiet hframed
      have hquiet' : Quiet place words d := by
        rcases hquiet with hquiet | hquiet
        · exact hquiet.of_framed (framed_process _ d)
        · exact hquiet.of_framed (framed_calls _ d)
      exact ih (fun i hi => his i (List.mem_cons_of_mem _ hi)) (h.of_framed hframed hquiet') hquiet

/-! ### Replays -/

/-- The channel of a replay under observation, with the trace in memory. -/
def started (stepLimit : Nat) (readings : Nat → UInt64) (place : Placement) (words : List Word) (sink : σ) :
    Observed (Board σ Ram) :=
  (prepared stepLimit readings place (bytesOfWords words) sink).channel.observed

omit [Sink σ] in
theorem intact_started (hplace : place.Sound (4 * words.length)) (stepLimit : Nat) (readings : Nat → UInt64)
    (sink : σ) :
    Intact place words (started stepLimit readings place words sink) where
  table := by
    rw [PageTable.identity, hplace.pages]
    rfl
  size := (Ram.put_spec (Ram.zeros place.top.toNat) place.base.toNat (bytesOfWords words)).1
  words := by
    show ((Ram.zeros place.top.toNat).put place.base.toNat (bytesOfWords words)).wordsFrom _ _ = _
    exact Ram.wordsFrom_put hplace.fits

/-- The entries of a trace make the calls of its segments, if either run leaves the trace alone. -/
theorem process_entriesOf (hplace : place.Sound (4 * words.length)) (stepLimit : Nat) (readings : Nat → UInt64)
    (sink : σ)
    (hquiet : Quiet place words
        (stateOf (process (entriesOf place.base words.length) (started stepLimit readings place words sink))) ∨
      Quiet place words
        (stateOf (((segmentsOf words).flatMap callsOf).forM deliver (started stepLimit readings place words sink)))) :
    process (entriesOf place.base words.length) (started stepLimit readings place words sink) =
      ((segmentsOf words).flatMap callsOf).forM deliver (started stepLimit readings place words sink) := by
  rw [entriesOf_eq, segmentsOf] at hquiet ⊢
  exact process_map_entryAt hplace (fun _ hi => lt_segmentCount.mp (List.mem_range.mp hi))
    (intact_started hplace stepLimit readings sink) hquiet

/-! ### First calls of a replay -/

omit [Sink σ] in
theorem started_idleAt (stepLimit : Nat) (readings : Nat → UInt64) (place : Placement) (words : List Word) (sink : σ) :
    let start := started stepLimit readings place words sink
    start.idleAt 0 { stepLimit } [] ((Threed.new stepLimit readings).core, start.space) = start := by
  intro start
  have hengine : start.engines.get 0 = some ⟨0, Threed.new stepLimit readings⟩ := by
    show start.engines[0] = _
    simp [start, started, observed, journaled, Channel.map, prepared, Context.map, Context.new,
      Context.threedSubchannel]
  exact replace_self hengine

/-- A call that does nothing to the host. -/
theorem deliver_noOperation (argument : Word) (last : Bool) (c : Observed (Board σ Ram)) (interpreter : Mme.Interpreter)
    (calls : List Call) (s : Threed.Core × AddressSpace (Traced (Board σ Ram))) :
    deliver ⟨0, 0x40, argument, last⟩ (c.idleAt 0 interpreter calls s) =
      .ok () (c.idleAt 0 interpreter (⟨0, 0x40, argument, last⟩ :: calls)
        ({ s.1 with live := s.1.live.write 0x40 argument }, s.2)) := by
  have hwrite : Threed.write 0x40 argument s = .ok () ({ s.1 with live := s.1.live.write 0x40 argument }, s.2) :=
    Threed.write_control (show Threed.Control.ofMethod? 0x40 = some .noOperation from rfl) argument s
  have hdeliver := deliver_idleAt (show 0x40 < registerCount by decide) 0 argument last c interpreter calls s
  rwa [hwrite] at hdeliver

/-- The first call of a replay, if it does nothing to the host. -/
theorem deliver_noOperation_started (argument : Word) (last : Bool) (stepLimit : Nat) (readings : Nat → UInt64)
    (place : Placement) (words : List Word) (sink : σ) :
    let start := started stepLimit readings place words sink
    ∃ d, deliver ⟨0, 0x40, argument, last⟩ start = .ok () d ∧ d.space = start.space ∧
      d.world.calls = [⟨0, 0x40, argument, last⟩] := by
  intro start
  have hstart := started_idleAt stepLimit readings place words sink
  have hnop (s : Threed.Core × AddressSpace (Traced (Board σ Ram))) :
      ∃ d, deliver ⟨0, 0x40, argument, last⟩ (start.idleAt 0 { stepLimit } [] s) = .ok () d ∧ d.space = s.2 ∧
        d.world.calls = [⟨0, 0x40, argument, last⟩] :=
    ⟨_, deliver_noOperation argument last start { stepLimit } [] s, rfl, rfl⟩
  have hfirst := hnop ((Threed.new stepLimit readings).core, start.space)
  rwa [hstart] at hfirst

/-- An address space after a report to a sink that hears nothing. -/
def reported (space : AddressSpace (Traced (Board NullSink Ram))) (live : RegisterFile) (offset : Nat) :
    AddressSpace (Traced (Board NullSink Ram)) :=
  ⟨space.table, ⟨space.backing.host, .notify live (notifySpan offset) none :: space.backing.events⟩⟩

/-- A payload that was not there before is reported. -/
theorem write_payload {core : Threed.Core} (hmode : core.live.shadowMode = .passthrough) {payload : Word}
    (hchanged : (core.live.read 0x6C2 != payload) = true) (space : AddressSpace (Traced (Board NullSink Ram))) :
    Threed.write 0x6C2 payload (core, space) =
      .ok () ({ core with live := core.live.write 0x6C2 payload },
        reported space (core.live.write 0x6C2 payload) 0x6C2) := by
  let core' : Threed.Core := { core with live := core.live.write 0x6C2 payload }
  have hreport : Threed.report 0x6C2 (core', space) = .ok () (core', reported space core'.live 0x6C2) := rfl
  rw [Threed.write_passthrough (show Threed.Control.ofMethod? 0x6C2 = none from rfl) hmode, Threed.land_apply,
    if_pos hchanged]
  exact bind_ok hreport _

/-- A release whose registers are at zero, but for the payload, stores the payload at the start of memory. -/
theorem write_release {core : Threed.Core} (hmode : core.live.shadowMode = .passthrough)
    (hword : core.live.read 0x6C3 = 0) (hhigh : core.live.read 0x6C0 = 0) (hlow : core.live.read 0x6C1 = 0)
    {space : AddressSpace (Traced (Board σ Ram))} (hlead : space.translate 0 = some 0)
    (hfits : 8 ≤ space.backing.host.memory.size) :
    let bytes := (lowBytes (core.live.read 0x6C2).toNat ++ [0, 0, 0, 0]).toByteArray
    ∃ host, Threed.write 0x6C3 0 (core, space) = .ok () ({ core with live := core.live.write 0x6C3 0 },
      ⟨space.table, ⟨host, .store 0 bytes none :: space.backing.events⟩⟩) := by
  intro bytes
  let fired : Threed.Core := { core with live := core.live.write 0x6C3 0 }
  have hfired : fired.live.read 0x6C3 = 0 := (core.live.read_write 0x6C3 0x6C3 0).trans (if_pos (by decide))
  have hother : ∀ o, 0x6C3 ≠ o → fired.live.read o = core.live.read o := fun o ho =>
    (core.live.read_write 0x6C3 o 0).trans (if_neg fun h => ho h.1)
  have hperform : Threed.write 0x6C3 0 (core, space) = Threed.performSemaphore (fired, space) := by
    have hunchanged : ¬((0 : Word) != 0) = true := by decide
    rw [Threed.write_passthrough rfl hmode, Threed.land_apply, hword, if_neg hunchanged]
    rfl
  have hasked : Threed.askedStore? fired.live (fired.live.read 0x6C3) core.timer.tick.1 = some (0, bytes) := by
    rw [hfired, Threed.askedStore?, hother 0x6C0 (by decide), hother 0x6C1 (by decide), hother 0x6C2 (by decide), hhigh,
      hlow]
    rfl
  have htick : Threed.asksTick (fired.live.read 0x6C3) = false := by
    rw [hfired]
    decide
  have hsize : bytes.size = 8 := by
    rw [List.size_toByteArray]
    rfl
  rw [hperform, Threed.performSemaphore_eq, show fired.timer = core.timer from rfl, hasked]
  dsimp only
  rw [Threed.onHost, AddressSpace.store_of_le (by rw [hsize]; decide) (by rw [hsize]; decide) hlead]
  obtain ⟨table, ⟨⟨sink, ram, syncpoints⟩, events⟩⟩ := space
  have hram : (0 : UInt64).toNat + bytes.size ≤ ram.size := by
    rw [hsize]
    exact hfits
  simp only [AddressSpace.onBacking, GuestMemory.store, Traced.record, Board.onMemory, if_pos hram, htick,
    Bool.false_eq_true, if_false]
  exact ⟨_, rfl⟩

/-- Three calls at the beginning of a replay. The first does nothing to the host, the second sets a payload and the
    third stores it at the start of memory. -/
theorem forM_deliver_release (hplace : place.Sound (4 * words.length)) (hbase : 8 ≤ place.base.toNat)
    (hspace : place.top.toNat ≤ 2 ^ 40) :
    let calls : List Call := [⟨0, 0x40, 0, true⟩, ⟨0, 0x6C2, 7, true⟩, ⟨0, 0x6C3, 0, true⟩]
    ∃ d live, calls.forM deliver (started 100 (fun _ => 0) place words NullSink.mk) = .ok () d ∧ Quiet place words d ∧
      d.space.backing.events =
        [.store 0 [7, 0, 0, 0, 0, 0, 0, 0].toByteArray none, .notify live (notifySpan 0x6C2) none] ∧
      d.world.calls = calls.reverse := by
  intro calls
  let start := started 100 (fun _ => 0) place words NullSink.mk
  have hintact : Intact place words start := intact_started hplace 100 (fun _ => 0) NullSink.mk
  let core := (Threed.new 100 fun _ => 0).core
  have hstart : core.live = .reset := by dsimp only [core, Threed.new]
  -- The core after the first call and after the second.
  let core₁ : Threed.Core := { core with live := core.live.write 0x40 0 }
  let core₂ : Threed.Core := { core₁ with live := core₁.live.write 0x6C2 7 }
  have hmode₁ : core₁.live.shadowMode = .passthrough := by
    rw [RegisterFile.shadowMode_write_of_ne (by decide), hstart, RegisterFile.shadowMode_reset]
  have hmode₂ : core₂.live.shadowMode = .passthrough := by
    rw [RegisterFile.shadowMode_write_of_ne (by decide), hmode₁]
  have hread₁ : ∀ o, o ≠ 0x40 → (∀ w ∈ RegisterFile.resetValues, w.1 ≠ o) → core₁.live.read o = 0 := by
    intro o ho hreset
    rw [RegisterFile.read_write, if_neg (fun h => ho h.1.symm), hstart, RegisterFile.read_reset_of_ne hreset]
  have hread₂ : ∀ o, o ≠ 0x40 ∧ o ≠ 0x6C2 → (∀ w ∈ RegisterFile.resetValues, w.1 ≠ o) → core₂.live.read o = 0 := by
    intro o ho hreset
    rw [RegisterFile.read_write, if_neg (fun h => ho.2 h.1.symm), hread₁ o ho.1 hreset]
  have hchanged : (core₁.live.read 0x6C2 != 7) = true := by
    rw [hread₁ 0x6C2 (by decide) (by decide +kernel)]
    decide
  let space₂ := reported start.space core₂.live 0x6C2
  have hwrite : Threed.write 0x6C2 7 (core₁, start.space) = .ok () (core₂, space₂) :=
    write_payload hmode₁ hchanged start.space
  have htop : 8 ≤ place.top.toNat := Nat.le_trans hbase (Nat.le_of_add_right_le hplace.fits)
  have hlead : space₂.translate 0 = some 0 :=
    hintact.translate_zero hplace (Nat.lt_of_lt_of_le (by decide) htop) hspace
  have hroom : 8 ≤ space₂.backing.host.memory.size := by
    show 8 ≤ start.space.backing.host.memory.size
    rw [hintact.size]
    exact htop
  obtain ⟨host, hstore⟩ := write_release hmode₂ (hread₂ 0x6C3 (by decide) (by decide +kernel))
    (hread₂ 0x6C0 (by decide) (by decide +kernel)) (hread₂ 0x6C1 (by decide) (by decide +kernel)) hlead hroom
  have hcontents : (lowBytes (core₂.live.read 0x6C2).toNat ++ [0, 0, 0, 0]).toByteArray =
      [7, 0, 0, 0, 0, 0, 0, 0].toByteArray := by
    rw [RegisterFile.read_write, if_pos (by decide)]
    rfl
  rw [hcontents] at hstore
  let interpreter : Mme.Interpreter := { stepLimit := 100 }
  have hnop := deliver_noOperation 0 true start interpreter [] (core, start.space)
  rw [started_idleAt] at hnop
  have hpayload := deliver_idleAt (show 0x6C2 < registerCount by decide) 0 7 true start interpreter
    [⟨0, 0x40, 0, true⟩] (core₁, start.space)
  rw [hwrite, through_ok] at hpayload
  have hrelease := deliver_idleAt (show 0x6C3 < registerCount by decide) 0 0 true start interpreter
    [⟨0, 0x6C2, 7, true⟩, ⟨0, 0x40, 0, true⟩] (core₂, space₂)
  rw [hstore, through_ok] at hrelease
  have hrun := forM_cons_eq_ok.mpr ⟨_, hnop, forM_cons_eq_ok.mpr ⟨_, hpayload,
    (forM_singleton_apply deliver _ _).trans hrelease⟩⟩
  refine ⟨_, core₂.live, hrun, ?_, rfl, rfl⟩
  intro e he i _
  rcases List.mem_cons.mp he with rfl | he
  · exact fun h => Nat.not_lt_of_le (Nat.le_add_right_of_le hbase) h.2
  · cases List.mem_singleton.mp he
    exact id

/-! ### Whole traces -/

/-- The replay of a trace that fits into memory and into the 40 bits of an address, under observation. If no request
    on record wrote to the region of the trace, the engines get the calls of the segments that the entries name, and
    if moreover each cut falls between two packets, everything goes as in the execution of the whole trace. -/
theorem flush_prepared {memorySize : Nat}
    (hfits : Placement.of? memorySize (bytesOfWords words).size = some place)
    (hspace : (bytesOfWords words).size ≤ 2 ^ 40) (stepLimit : Nat) (readings : Nat → UInt64) (sink : σ)
    (hquiet : ∀ e ∈ (stateOf (process (entriesOf place.base words.length)
        (started stepLimit readings place words sink))).space.backing.events,
      ∀ i < (bytesOfWords words).size, ¬e.Writes (place.base.toNat + i)) :
    let start := started stepLimit readings place words sink
    let replayed := process (entriesOf place.base words.length) start
    ((prepared stepLimit readings place (bytesOfWords words) sink).submit (entriesOf place.base words.length)).flush =
      through (fun c => ⟨c.forget, []⟩) replayed ∧
    replayed = ((segmentsOf words).flatMap callsOf).forM deliver start ∧
    ((∀ i, i * Entry.maxLength < words.length → WholePackets (words.take (i * Entry.maxLength))) →
      replayed = Channel.execute words start) := by
  intro start replayed
  rw [size_bytesOfWords] at hfits hspace hquiet
  have hcalls : replayed = ((segmentsOf words).flatMap callsOf).forM deliver start :=
    process_entriesOf (Placement.sound_of_eq_some hspace hfits) stepLimit readings sink (Or.inl hquiet)
  refine ⟨?_, hcalls, fun hcuts => ?_⟩
  · have hforget := process_forget (entriesOf place.base words.length) start
    have hstart : start.forget = (prepared stepLimit readings place (bytesOfWords words) sink).channel :=
      forget_observed _
    rw [hstart] at hforget
    rw [Context.flush_submit rfl, hforget, through_through]
    rfl
  · rw [hcalls, flatMap_segmentsOf hcuts, execute_eq]

end

/-- A trace of two entries, cut between its first packet, which does nothing, and two others that store a record at the
    start of memory. -/
theorem flush_prepared_two :
    let nop : Packet := ⟨⟨.immediate, 0, 0x40, 0⟩, []⟩
    let payload : Packet := ⟨⟨.immediate, 0, 0x6C2, 7⟩, []⟩
    let release : Packet := ⟨⟨.immediate, 0, 0x6C3, 0⟩, []⟩
    let words := List.replicate (Entry.maxLength - 1) 0 ++ nop.words ++ [payload, release].flatMap Packet.words
    let place : Placement := ⟨0x4000000, 0x37FF000⟩
    let start := started 100 (fun _ => 0) place words NullSink.mk
    let replayed := process (entriesOf place.base words.length) start
    Placement.of? 0x4000000 (bytesOfWords words).size = some place ∧ (bytesOfWords words).size ≤ 2 ^ 40 ∧
    (∀ e ∈ (stateOf replayed).space.backing.events, ∀ i < (bytesOfWords words).size,
      ¬e.Writes (place.base.toNat + i)) ∧
    (∀ i, i * Entry.maxLength < words.length → WholePackets (words.take (i * Entry.maxLength))) ∧
    (entriesOf place.base words.length).length = 2 ∧ replayed = Channel.execute words start ∧
    ∃ d live, replayed = .ok () d ∧
      d.space.backing.events =
        [.store 0 [7, 0, 0, 0, 0, 0, 0, 0].toByteArray none, .notify live (notifySpan 0x6C2) none] ∧
      d.world.calls = [⟨0, 0x6C3, 0, true⟩, ⟨0, 0x6C2, 7, true⟩, ⟨0, 0x40, 0, true⟩] := by
  intro nop payload release words place start replayed
  have hfirst : (List.replicate (Entry.maxLength - 1) 0 ++ nop.words).length = Entry.maxLength := by
    rw [List.length_append, List.length_replicate]
    rfl
  have hlength : words.length = Entry.maxLength + 2 := by
    show (_ ++ [payload, release].flatMap Packet.words).length = _
    rw [List.length_append, hfirst]
    rfl
  have hfits : Placement.of? 0x4000000 (4 * words.length) = some place := by
    rw [hlength]
    decide
  have hspace : 4 * words.length ≤ 2 ^ 40 := by
    rw [hlength]
    decide
  have hplace : place.Sound (4 * words.length) := Placement.sound_of_eq_some hspace hfits
  have hcuts : ∀ i, i * Entry.maxLength < words.length → WholePackets (words.take (i * Entry.maxLength)) := by
    intro i hi
    have hwhole : WholePackets (List.replicate (Entry.maxLength - 1) 0 ++ nop.words) :=
      (wholePackets_replicate _).append ⟨[nop], by decide, rfl⟩
    have hcases : i = 0 ∨ i = 1 := by
      rw [hlength] at hi
      simp only [Entry.maxLength] at hi
      omega
    rcases hcases with rfl | rfl
    · rw [Nat.zero_mul, List.take_zero]
      exact ⟨[], by decide, rfl⟩
    · rwa [Nat.one_mul, ← hfirst, List.take_left]
  have hcalls : (segmentsOf words).flatMap callsOf =
      [⟨0, 0x40, 0, true⟩, ⟨0, 0x6C2, 7, true⟩, ⟨0, 0x6C3, 0, true⟩] := by
    rw [flatMap_segmentsOf hcuts]
    show callsOf (List.replicate (Entry.maxLength - 1) 0 ++ nop.words ++ [payload, release].flatMap Packet.words) = _
    rw [List.append_assoc, callsOf_replicate_append]
    exact callsOf_flatMap_words (show ∀ p ∈ [nop, payload, release], p.Whole by decide)
  obtain ⟨d, live, hrun, hquiet, hevents, hmade⟩ := forM_deliver_release hplace (by decide) (by decide)
  have hreplayed : replayed = .ok () d := by
    have hsegments : ((segmentsOf words).flatMap callsOf).forM deliver start = .ok () d := by
      rw [hcalls]
      exact hrun
    have hprocess := process_entriesOf hplace 100 (fun _ => 0) NullSink.mk (Or.inr (by
      show Quiet place words (stateOf (((segmentsOf words).flatMap callsOf).forM deliver start))
      rw [hsegments]
      exact hquiet))
    exact hprocess.trans hsegments
  rw [← size_bytesOfWords] at hfits hspace
  have hleft : ∀ e ∈ (stateOf replayed).space.backing.events, ∀ i < (bytesOfWords words).size,
      ¬e.Writes (place.base.toNat + i) := by
    rw [hreplayed, size_bytesOfWords]
    exact hquiet
  obtain ⟨-, -, hexecute⟩ := flush_prepared hfits hspace 100 (fun _ => 0) NullSink.mk hleft
  have hcount : (entriesOf place.base words.length).length = 2 := by
    rw [hlength]
    decide
  exact ⟨hfits, hspace, hleft, hcuts, hcount, hexecute hcuts, d, live, hreplayed, hevents, hmade⟩

/-- A trace whose last packet is cut. Nothing fails and nothing is written in its replay, but the call of this packet,
    which the execution of the whole trace makes, is lost. -/
theorem process_entriesOf_cut :
    let words : List Word := List.replicate (Entry.maxLength - 1) 0 ++ [0x20010040, 5]
    let place : Placement := ⟨0x4000000, 0x3800000⟩
    let start := started 100 (fun _ => 0) place words NullSink.mk
    Placement.of? 0x4000000 (bytesOfWords words).size = some place ∧
    process (entriesOf place.base words.length) start = .ok () start ∧
    start.space.backing.events = [] ∧ start.world.calls = [] ∧
    ∃ d, Channel.execute words start = .ok () d ∧ d.world.calls = [⟨0, 0x40, 5, true⟩] := by
  have hn : Entry.maxLength - 1 + 1 = Entry.maxLength := by decide
  intro words place start
  obtain ⟨hnone, hwhole⟩ := flatMap_segmentsOf_cut hn
  have hlength : words.length = 0x200000 := by
    show (List.replicate (Entry.maxLength - 1) 0 ++ [(0x20010040 : Word), 5]).length = _
    rw [List.length_append, List.length_replicate]
    rfl
  have hfits : Placement.of? 0x4000000 (4 * words.length) = some place := by
    rw [hlength]
    decide
  have hplace : place.Sound (4 * words.length) := Placement.sound_of_eq_some (by rw [hlength]; decide) hfits
  obtain ⟨d, hd, -, hcalls⟩ := deliver_noOperation_started 5 true 100 (fun _ => 0) place words NullSink.mk
  refine ⟨by rw [size_bytesOfWords]; exact hfits, ?_, rfl, rfl, d, ?_, hcalls⟩
  · refine (process_entriesOf hplace 100 (fun _ => 0) NullSink.mk (Or.inr ?_)).trans ?_
    · rw [hnone]
      exact fun _ he => absurd he List.not_mem_nil
    · rw [hnone]
      rfl
  · rw [execute_eq, hwhole, forM_singleton_apply, hd]

end Maxwell.Replay
