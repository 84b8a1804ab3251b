import Maxwell.Proofs.Pushbuffer.Boundaries
import Maxwell.Proofs.Threed.Transport

/-! A GPU under observation: its engines keep a journal of their calls, and requests to the host are put on record.
    Neither changes what happens. -/

namespace Maxwell

/-- A channel of 3D engines with a journal of their calls and a record of the requests to the host. -/
abbrev Observed (η : Type) : Type := Channel (Named Threed) (Journal (AddressSpace (Traced η)))

instance {ω : Type} [GuestMemory ω] : GuestMemory (Journal ω) where
  load journal := GuestMemory.load journal.world
  store address bytes := fun ⟨world, calls⟩ => through (Journal.mk · calls) (GuestMemory.store address bytes world)

/-! ### Maps of channels -/

theorem HostMap.engineMap {η η' : Type} [Host η] [Host η'] {f : η → η'} (hf : HostMap f) :
    EngineMap (id : Threed → Threed) f where
  call method argument last := hf.make ⟨method, argument, last⟩

namespace EngineMap
variable {τ τ' ω ω' : Type} [Engine τ ω] [Engine τ' ω'] {f : τ → τ'} {g : ω → ω'}

theorem execute (hf : EngineMap f g) (words : List Word) :
    Commutes (Channel.map f g) (Channel.execute words) (Channel.execute words) := by
  intro c
  rw [Channel.execute_eq, Channel.execute_eq]
  exact Commutes.forM hf.deliver _ c

variable [GuestMemory ω] [GuestMemory ω']

/-- Maps that go along with every call go along with entries, if memory reads alike. -/
theorem process (hf : EngineMap f g)
    (hload : ∀ world address length, GuestMemory.load (g world) address length = GuestMemory.load world address length)
    (entries : List Entry) : Commutes (Channel.map f g) (Channel.process entries) (Channel.process entries) := by
  refine Commutes.forM (fun entry c => ?_) entries
  have hfetch : GuestMemory.fetch (c.map f g).world entry.address (4 * entry.length) =
      GuestMemory.fetch c.world entry.address (4 * entry.length) := by
    simp only [GuestMemory.fetch, Channel.map, hload]
  unfold Channel.processEntry
  rw [hfetch]
  split
  · rfl
  · split
    · exact hf.execute _ c
    · rfl

end EngineMap

namespace Channel
variable {η : Type}

/-- The channel under observation from now on. -/
def observed (c : Channel Threed (AddressSpace η)) : Observed η :=
  (c.map id (AddressSpace.mapBacking fun host => (⟨host, []⟩ : Traced η))).journaled

/-- The channel without what was observed. -/
def forget (c : Observed η) : Channel Threed (AddressSpace η) :=
  (c.map Named.engine Journal.world).map id (AddressSpace.mapBacking Traced.host)

theorem forget_observed (c : Channel Threed (AddressSpace η)) : c.observed.forget = c := by
  obtain ⟨engines, world⟩ := c
  rw [forget, observed, map_journaled]
  simp only [map, mk.injEq]
  exact ⟨by simp, rfl⟩

/-- Observation changes nothing. -/
theorem execute_forget [Host η] (words : List Word) (c : Observed η) :
    execute words c.forget = through forget (execute words c) := by
  have hjournal := (engineMap_journal (τ := Threed) (ω := AddressSpace (Traced η))).execute words c
  have hrecord := (AddressSpace.hostMap (Traced.hostMap (η := η))).engineMap.execute words
    (c.map Named.engine Journal.world)
  rw [forget, hrecord, hjournal, through_through]
  rfl

theorem process_forget [Host η] (entries : List Entry) (c : Observed η) :
    process entries c.forget = through forget (process entries c) := by
  have hjournal := (engineMap_journal (τ := Threed) (ω := AddressSpace (Traced η))).process (fun _ _ _ => rfl) entries c
  have hrecord := (AddressSpace.hostMap Traced.hostMap).engineMap.process
    (AddressSpace.hostMap (Traced.hostMap (η := η))).load entries (c.map Named.engine Journal.world)
  rw [forget, hrecord, hjournal, through_through]
  rfl

/-- The channel with an idle engine in a place, and with these calls in the journal. -/
def idleAt (c : Observed η) (i : Fin 8) (interpreter : Mme.Interpreter) (calls : List Call)
    (s : Threed.Core × AddressSpace (Traced η)) : Observed η :=
  c.replace i (⟨i, (Threed.idle interpreter s).1⟩, ⟨s.2, calls⟩)

/-- A call to a register of an idle engine is a write, and is written down. -/
theorem deliver_idleAt [Host η] {method : Nat} (hfile : method < registerCount) (i : Fin 8) (argument : Word)
    (last : Bool) (c : Observed η) (interpreter : Mme.Interpreter) (calls : List Call)
    (s : Threed.Core × AddressSpace (Traced η)) :
    deliver ⟨i, method, argument, last⟩ (c.idleAt i interpreter calls s) =
      through (c.idleAt i interpreter (⟨i, method, argument, last⟩ :: calls)) (Threed.write method argument s) := by
  have hmake := Threed.make_idle (r := ⟨method, argument, last⟩) hfile interpreter s
  have hcall : Engine.call method argument last
      ((⟨i, (Threed.idle interpreter s).1⟩ : Named Threed), (⟨s.2, calls⟩ : Journal _)) =
      through (fun t => (⟨i, (Threed.idle interpreter t).1⟩, ⟨t.2, ⟨i, method, argument, last⟩ :: calls⟩))
        (Threed.write method argument s) := by
    show through _ (Threed.Request.make ⟨method, argument, last⟩ (Threed.idle interpreter s)) = _
    rw [hmake, through_through]
    rfl
  rw [idleAt, deliver_of_some (get_replace c i _)]
  show through _ (Engine.call _ _ _
    ((⟨i, (Threed.idle interpreter s).1⟩ : Named Threed), (⟨s.2, calls⟩ : Journal _))) = _
  rw [hcall, through_through]
  congr 1
  funext t
  exact replace_replace c i _ _

end Channel

/-- A GPU whose queue is empty executes the entries that are put into it. -/
theorem Context.flush_submit {η : Type} [Host η] {c : Context η} (hqueue : c.queue = []) (entries : List Entry) :
    (c.submit entries).flush = through (fun channel => ⟨channel, []⟩) (Channel.process entries c.channel) := by
  obtain ⟨channel, queue⟩ := c
  cases hqueue
  simp only [submit, flush, List.nil_append]
  cases Channel.process entries channel <;> rfl

end Maxwell
