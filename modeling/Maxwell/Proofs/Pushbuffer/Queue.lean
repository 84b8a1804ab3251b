import Maxwell.Proofs.Pushbuffer.Boundaries
import Maxwell.Proofs.Pushbuffer.Entries
import Maxwell.Proofs.Threed.Install

/-! The queue of a GPU. A flush takes all entries that wait and executes them in order. So as long as no flush fails,
    every entry is executed once, in the order in which it was put into the queue, however the entries were grouped. A
    flush that fails has executed the entries up to the failing one, and drops those after it. -/

namespace Maxwell

/-! ### Entries that fail -/

namespace Channel
variable {τ ω : Type} [Engine τ ω] [GuestMemory ω]

/-- An entry fails, with what was done up to then: its segment cannot be fetched and nothing of it was done, or one of
    its calls fails and the calls before it and this one were made. -/
inductive FailsAt (c : Channel τ ω) (entry : Entry) : Fault → Channel τ ω → Prop
  | fetch {fault : MemoryFault} (length : entry.length ≠ 0)
      (fetch : GuestMemory.fetch c.world entry.address (4 * entry.length) = .error fault) :
      FailsAt c entry (.memory fault) c
  | call {bytes : ByteArray} {made rest : List Call} {call : Call} {d e : Channel τ ω} {fault : Fault}
      (length : entry.length ≠ 0)
      (fetch : GuestMemory.fetch c.world entry.address (4 * entry.length) = .ok bytes)
      (calls : callsOf (wordsOfBytes bytes) = made ++ call :: rest) (made : made.forM deliver c = .ok () d)
      (fails : deliver call d = .error fault e) : FailsAt c entry fault e

theorem processEntry_eq_error {entry : Entry} {c d : Channel τ ω} {fault : Fault} :
    processEntry entry c = .error fault d ↔ FailsAt c entry fault d := by
  unfold processEntry
  constructor
  · intro h
    split at h
    · cases h
    · next hlength =>
      split at h
      · next bytes hfetch =>
        rw [execute_eq, forM_eq_error] at h
        obtain ⟨made, call, rest, e, hcalls, hmade, hfails⟩ := h
        exact .call hlength hfetch hcalls hmade hfails
      · next hfetch =>
        cases h
        exact .fetch hlength hfetch
  · rintro (⟨hlength, hfetch⟩ | ⟨hlength, hfetch, hcalls, hmade, hfails⟩)
    · rw [if_neg hlength, hfetch]
    · rw [if_neg hlength, hfetch]
      dsimp only
      rw [execute_eq, forM_eq_error]
      exact ⟨_, _, _, _, hcalls, hmade, hfails⟩

theorem process_eq_error {entries : List Entry} {c d : Channel τ ω} {fault : Fault} :
    process entries c = .error fault d ↔ ∃ before entry after e, entries = before ++ entry :: after ∧
      process before c = .ok () e ∧ FailsAt e entry fault d := by
  simp only [← processEntry_eq_error]
  exact forM_eq_error

/-- An entry for registers of an idle engine makes the writes that its packets stand for. -/
theorem processEntry_marked {ω : Type} [Host ω] {c : Channel Threed ω} {i : Fin 8} {interpreter : Mme.Interpreter}
    {s : Threed.Core × ω} {entry : Entry} {packets : List Packet} {writes : List (Nat × Word)}
    (hreads : entry.Reads s.2 (packets.flatMap Packet.words)) (hwhole : ∀ p ∈ packets, p.Whole)
    (hcalls : packets.flatMap Packet.calls = (Threed.marked (fun _ => true) writes).map (Threed.Request.on i))
    (hfile : ∀ w ∈ writes, w.1 < registerCount) :
    processEntry entry (c.replace i (Threed.idle interpreter s)) =
      through (fun t => c.replace i (Threed.idle interpreter t)) (writes.forM (fun w => Threed.write w.1 w.2) s) := by
  have hreads : entry.Reads (c.replace i (Threed.idle interpreter s)).world (packets.flatMap Packet.words) := hreads
  rw [processEntry_of_reads hreads, execute_eq, callsOf_flatMap_words hwhole, hcalls]
  exact forM_deliver_marked hfile _ c i interpreter s

end Channel

/-! ### Runs of a queue -/

namespace Context

/-- What is done with a queue. -/
inductive Operation where
  | submit (entries : List Entry)
  | flush

namespace Operation

/-- The entries that an operation puts into the queue. -/
def entries : Operation → List Entry
  | .submit entries => entries
  | .flush => []

/-- The entries that operations put into the queue, in order. -/
def submitted (operations : List Operation) : List Entry := operations.flatMap entries

@[simp] theorem submitted_nil : submitted [] = [] := rfl

@[simp] theorem submitted_submit (entries : List Entry) (operations : List Operation) :
    submitted (.submit entries :: operations) = entries ++ submitted operations := rfl

@[simp] theorem submitted_flush (operations : List Operation) :
    submitted (.flush :: operations) = submitted operations := rfl

end Operation

open Operation (submitted)

variable {η : Type} [Host η]

def perform : Operation → EStateM Fault (Context η) Unit
  | .submit entries => fun c => .ok () (c.submit entries)
  | .flush => flush

/-- Performs operations one after another, whether they fail or not. -/
def run (operations : List Operation) (c : Context η) : Context η :=
  operations.foldl (fun c operation => stateOf (perform operation c)) c

theorem perform_submit (entries : List Entry) (c : Context η) :
    perform (.submit entries) c = .ok () ⟨c.channel, c.queue ++ entries⟩ := rfl

/-- A flush is the execution of the entries in the queue, which is empty after it. -/
theorem perform_flush (c : Context η) :
    perform .flush c = through (fun channel => ⟨channel, []⟩) (Channel.process c.queue c.channel) := by
  obtain ⟨channel, queue⟩ := c
  show flush ⟨channel, queue⟩ = _
  simp only [flush]
  cases Channel.process queue channel <;> rfl

theorem queue_flush (c : Context η) : (stateOf (perform .flush c)).queue = [] := by
  rw [perform_flush, stateOf_through]

/-- Without a flush, entries wait. -/
theorem forM_perform_of_flush_notMem {operations : List Operation} (h : Operation.flush ∉ operations) (c : Context η) :
    operations.forM perform c = .ok () ⟨c.channel, c.queue ++ submitted operations⟩ := by
  induction operations generalizing c with
  | nil =>
    rw [forM_nil_apply, Operation.submitted_nil, List.append_nil]
  | cons operation operations ih =>
    cases operation with
    | flush => exact absurd List.mem_cons_self h
    | submit entries =>
      rw [forM_cons_apply, perform_submit]
      dsimp only
      rw [ih (fun hmem => h (List.mem_cons_of_mem _ hmem)), Operation.submitted_submit, List.append_assoc]

/-- If no flush fails, the entries that were put into the queue are those that were executed, one after another, and
    those that wait. -/
theorem exists_executed {operations : List Operation} {c d : Context η}
    (h : operations.forM perform c = .ok () d) :
    ∃ executed, executed ++ d.queue = c.queue ++ submitted operations ∧
      Channel.process executed c.channel = .ok () d.channel := by
  induction operations generalizing c with
  | nil =>
    cases h
    exact ⟨[], (List.append_nil _).symm, rfl⟩
  | cons operation operations ih =>
    obtain ⟨e, hfirst, hrest⟩ := forM_cons_eq_ok.mp h
    obtain ⟨executed, hqueue, hprocess⟩ := ih hrest
    cases operation with
    | submit entries =>
      cases hfirst
      exact ⟨executed, hqueue.trans (List.append_assoc ..), hprocess⟩
    | flush =>
      rw [perform_flush] at hfirst
      obtain ⟨m, hbatch, rfl⟩ := through_eq_ok.mp hfirst
      refine ⟨c.queue ++ executed, ?_, (forM_append_ok hbatch executed).trans hprocess⟩
      rw [List.append_assoc, hqueue, Operation.submitted_flush, List.nil_append]

theorem run_append (first second : List Operation) (c : Context η) :
    run (first ++ second) c = run second (run first c) :=
  List.foldl_append

theorem run_of_forM_perform {operations : List Operation} {c d : Context η}
    (h : operations.forM perform c = .ok () d) : run operations c = d := by
  induction operations generalizing c with
  | nil =>
    cases h
    rfl
  | cons operation operations ih =>
    obtain ⟨e, hfirst, hrest⟩ := forM_cons_eq_ok.mp h
    rw [← ih hrest, run, List.foldl_cons, hfirst]
    rfl

/-- After a flush, whether it fails or not, what waits is what was put into the queue since. -/
theorem queue_run {after : List Operation} (h : Operation.flush ∉ after) (before : List Operation) (c : Context η) :
    (run (before ++ .flush :: after) c).queue = submitted after := by
  have hafter := run_of_forM_perform (forM_perform_of_flush_notMem h (stateOf (perform .flush (run before c))))
  rw [queue_flush, List.nil_append] at hafter
  rw [run_append]
  exact congrArg Context.queue hafter

/-- If every flush succeeds, the last one leaves behind what the execution of all entries in order leaves, those in the
    queue at first and those that were put into it before this flush. Those since then wait, also if a flush fails. A
    flush that fails has executed the entries before one that fails and this one as far as it goes, and everything goes
    on as if there had been no entries after it. -/
theorem flush_in_order (c : Context η) :
    (∀ before after d, Operation.flush ∉ after → (before ++ .flush :: after).forM perform c = .ok () d →
      Channel.process (c.queue ++ submitted before) c.channel = .ok () d.channel ∧ d.queue = submitted after) ∧
    (∀ before after, Operation.flush ∉ after → (run (before ++ .flush :: after) c).queue = submitted after) ∧
    ∀ fault d, c.flush = .error fault d → d.queue = [] ∧
      ∃ before entry after m, c.queue = before ++ entry :: after ∧ Channel.process before c.channel = .ok () m ∧
        m.FailsAt entry fault d.channel ∧
        ∀ others operations, run (.flush :: operations) ⟨c.channel, before ++ entry :: others⟩ =
          run operations ⟨d.channel, []⟩ := by
  refine ⟨?_, ?_, ?_⟩
  · intro before after d hafter h
    obtain ⟨e, hbefore, hrest⟩ := forM_append_eq_ok.mp h
    obtain ⟨_, hflush, hlast⟩ := forM_cons_eq_ok.mp hrest
    obtain ⟨executed, hqueue, hprocess⟩ := exists_executed hbefore
    rw [perform_flush] at hflush
    obtain ⟨m, hbatch, rfl⟩ := through_eq_ok.mp hflush
    rw [forM_perform_of_flush_notMem hafter, List.nil_append] at hlast
    cases hlast
    rw [← hqueue]
    exact ⟨(forM_append_ok hprocess e.queue).trans hbatch, rfl⟩
  · intro before after hafter
    exact queue_run hafter before c
  · intro fault d h
    have h : perform .flush c = .error fault d := h
    rw [perform_flush] at h
    obtain ⟨e, hprocess, rfl⟩ := through_eq_error.mp h
    obtain ⟨before, entry, after, m, hqueue, hbefore, hfails⟩ := Channel.process_eq_error.mp hprocess
    refine ⟨rfl, before, entry, after, m, hqueue, hbefore, hfails, fun others operations => ?_⟩
    have hothers : Channel.process (before ++ entry :: others) c.channel = .error fault e :=
      Channel.process_eq_error.mpr ⟨before, entry, others, m, rfl, hbefore, hfails⟩
    rw [run, List.foldl_cons, perform_flush, hothers]
    rfl

/-- A sink whose device is lost. It takes reports, but what was put off cannot be done any more. -/
structure LostSink where
  deriving DecidableEq

instance : Sink LostSink where
  notify _ _ := pure ()
  flush := throw (.deviceLost "gone")
  clear _ _ := throw (.deviceLost "gone")

/-- Entries that put one word of code each into the store come in groups, one of them twice, and two flushes succeed. In
    the third one an entry fails at its second call, between two others that put a word into the store. -/
theorem flush_in_order_uploads :
    let upload (word : Fin 0x2000) : Packet := ⟨⟨.immediate, 0, 0x46, word⟩, []⟩
    let wait : Packet := ⟨⟨.immediate, 0, 0x44, 0⟩, []⟩
    let words := [upload 1, upload 2, upload 3, wait, upload 4].flatMap Packet.words
    let memory := (Ram.zeros 0x1000).put 0 (bytesOfWords words)
    let c := (Context.new 100 (fun _ => 0) (⟨⟨⟩, memory, {}⟩ : Board LostSink Ram)).map 0 0 0x1000
    let store? (c : Context (Board LostSink Ram)) := (c.channel.engines.get 0).map fun engine => engine.core.store
    let one : Entry := .ofSegment 0 1
    let two : Entry := .ofSegment 4 1
    let lost : Entry := .ofSegment 8 3
    let before : List Operation := [.submit [one, two], .flush, .submit [one]]
    let after : List Operation := [.submit [two], .submit [lost, one]]
    ∃ d e : Context (Board LostSink Ram),
      (before ++ .flush :: after).forM perform c = .ok () d ∧
      Channel.process [one, two, one] c.channel = .ok () d.channel ∧
      store? d = some (Mme.Store.empty.uploadAll [1, 2, 1]) ∧
      (run (before ++ .flush :: after) c).queue = [two, lost, one] ∧
      d.flush = .error (.sink (.deviceLost "gone")) e ∧ e.queue = [] ∧
      store? e = some (Mme.Store.empty.uploadAll [1, 2, 1, 2, 3]) ∧
      ∃ first entry rest m, d.queue = first ++ entry :: rest ∧ Channel.process first d.channel = .ok () m ∧
        m.FailsAt entry (.sink (.deviceLost "gone")) e.channel ∧
        ∀ others operations, run (.flush :: operations) ⟨d.channel, first ++ entry :: others⟩ =
          run operations ⟨e.channel, []⟩ := by
  intro upload wait words memory c store? one two lost before after
  have hmemory : memory = (Ram.zeros (1 * pageSize)).put 0 (bytesOfWords words) := rfl
  clear_value memory
  let world := c.channel.world
  let core := (Threed.new 100 fun _ => 0).core
  let channel (core : Threed.Core) := c.channel.replace 0 (Threed.idle { stepLimit := 100 } (core, world))
  have hupload : ∀ (code : List Word) (word : Word),
      Threed.write 0x46 word (core.uploaded code, world) = .ok () (core.uploaded (code ++ [word]), world) := by
    intro code word
    rw [Threed.Core.uploaded_append]
    rfl
  have hreads : ∀ (first count : Nat) (entry : Entry), entry.address.toNat = 4 * first → entry.length = count →
      first + count ≤ 5 → entry.Reads world ((words.drop first).take count) := by
    have hfits : 4 * words.length ≤ 1 * pageSize := show 4 * 5 ≤ 1 * pageSize by decide
    intro first count entry
    exact Entry.reads_put rfl (by decide) hfits hmemory
  have hput : ∀ {entry : Entry} (word : Fin 0x2000), entry.Reads world ([upload word].flatMap Packet.words) → ∀ code,
      Channel.processEntry entry (channel (core.uploaded code)) =
        .ok () (channel (core.uploaded (code ++ [.ofNat word]))) := by
    intro entry word hread code
    have hcalls : [upload word].flatMap Packet.calls =
        (Threed.marked (fun _ => true) [(0x46, .ofNat word)]).map (Threed.Request.on 0) := rfl
    have hwhole : ∀ p ∈ [upload word], p.Whole := List.forall_mem_singleton.mpr ⟨nofun, rfl⟩
    have hfile : ∀ w ∈ [((0x46 : Nat), UInt32.ofNat word)], w.1 < registerCount := by simp [registerCount]
    rw [Channel.processEntry_marked hread hwhole hcalls hfile, forM_singleton_apply, hupload, through_ok]
  have hone := hput 1 (hreads 0 1 one (by decide) (by decide) (by decide))
  have htwo := hput 2 (hreads 1 1 two (by decide) (by decide) (by decide))
  have hlost : ∀ code, ∃ lostCore, lostCore.store = (core.uploaded (code ++ [3])).store ∧
      Channel.processEntry lost (channel (core.uploaded code)) =
        .error (.sink (.deviceLost "gone")) (channel lostCore) := by
    intro code
    have hread : lost.Reads world ([upload 3, wait, upload 4].flatMap Packet.words) :=
      hreads 2 3 lost (by decide) (by decide) (by decide)
    have hcalls : [upload 3, wait, upload 4].flatMap Packet.calls =
        (Threed.marked (fun _ => true) [(0x46, 3), (0x44, 0), (0x46, 4)]).map (Threed.Request.on 0) := rfl
    have hwait : ∀ core, Threed.write 0x44 0 (core, world) =
        .error (.sink (.deviceLost "gone")) ({ core with live := core.live.write 0x44 0 }, world) := fun _ => rfl
    refine ⟨{ core.uploaded (code ++ [3]) with live := (core.uploaded (code ++ [3])).live.write 0x44 0 }, rfl, ?_⟩
    rw [Channel.processEntry_marked hread (by decide) hcalls (by decide)]
    simp only [forM_cons_apply, hupload, hwait, through_error, channel]
  obtain ⟨lostCore, hstore, hlost⟩ := hlost [1, 2, 1, 2]
  have hstart : channel (core.uploaded []) = c.channel := by
    rw [Threed.Core.uploaded_nil]
    exact Channel.replace_self (show c.channel.engines.get 0 = some (Threed.new 100 fun _ => 0) from rfl)
  have hfirst : Channel.process [one, two] c.channel = .ok () (channel (core.uploaded [1, 2])) := by
    rw [← hstart]
    exact forM_cons_eq_ok.mpr ⟨_, hone [], (Channel.process_singleton two _).trans (htwo [1])⟩
  have hsecond : Channel.process [one] (channel (core.uploaded [1, 2])) = .ok () (channel (core.uploaded [1, 2, 1])) :=
    (Channel.process_singleton one _).trans (hone [1, 2])
  have hthird : Channel.process [two, lost, one] (channel (core.uploaded [1, 2, 1])) =
      .error (.sink (.deviceLost "gone")) (channel lostCore) :=
    forM_eq_error.mpr ⟨[two], lost, [one], _, rfl, (Channel.process_singleton two _).trans (htwo [1, 2, 1]), hlost⟩
  let d : Context (Board LostSink Ram) := ⟨channel (core.uploaded [1, 2, 1]), [two, lost, one]⟩
  let e : Context (Board LostSink Ram) := ⟨channel lostCore, []⟩
  have hrun : (before ++ .flush :: after).forM perform c = .ok () d := by
    have hflush₁ : perform .flush ⟨c.channel, [one, two]⟩ = .ok () ⟨channel (core.uploaded [1, 2]), []⟩ := by
      rw [perform_flush, hfirst, through_ok]
    have hflush₂ : perform .flush ⟨channel (core.uploaded [1, 2]), [one]⟩ =
        .ok () ⟨channel (core.uploaded [1, 2, 1]), []⟩ := by
      rw [perform_flush, hsecond, through_ok]
    refine forM_cons_eq_ok.mpr ⟨_, rfl, forM_cons_eq_ok.mpr ⟨_, hflush₁, ?_⟩⟩
    refine forM_cons_eq_ok.mpr ⟨_, rfl, forM_cons_eq_ok.mpr ⟨_, hflush₂, ?_⟩⟩
    exact forM_perform_of_flush_notMem (by simp [after]) _
  have hflush : d.flush = .error (.sink (.deviceLost "gone")) e := by
    show perform .flush d = _
    rw [perform_flush, hthird, through_error]
  obtain ⟨hsuccess, hpending, -⟩ := flush_in_order c
  obtain ⟨-, -, hfailure⟩ := flush_in_order d
  have hlast : Operation.flush ∉ after := by simp [after]
  exact ⟨d, e, hrun, (hsuccess before after d hlast hrun).1, rfl, hpending before after hlast, hflush, rfl,
    congrArg some hstore, (hfailure _ _ hflush).2⟩

end Context

end Maxwell
