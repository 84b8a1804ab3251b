import Maxwell.Proofs.Outcome
import Maxwell.Pushbuffer.Channel

/-! A journal of the calls that engines get. Engines that know their subchannel write down each call before its
    outcome is known, and work as they do without a journal. Of the calls that are delivered, the engines get
    those for a subchannel that has one, up to the first that fails. -/

namespace Maxwell

/-! ### Channels seen through maps -/

/-- Maps of engines and worlds that go along with every call. -/
structure EngineMap {τ τ' ω ω' : Type} [Engine τ ω] [Engine τ' ω'] (f : τ → τ') (g : ω → ω') : Prop where
  call : ∀ method argument last, Commutes (Prod.map f g) (Engine.call method argument last : EStateM Fault (τ × ω) Unit)
    (Engine.call method argument last)

namespace Channel

variable {τ τ' ω ω' : Type}

def map (f : τ → τ') (g : ω → ω') (c : Channel τ ω) : Channel τ' ω' := ⟨c.engines.map (Option.map f), g c.world⟩

theorem subchannel_lt (call : Call) : call.subchannel.val < 8 := call.subchannel.isLt

section
variable [Engine τ ω]

/-- A call that finds no engine. -/
theorem deliver_of_none {call : Call} {c : Channel τ ω} (h : c.engines.get call.subchannel = none) :
    deliver call c = .ok () c := by
  have h : c.engines[call.subchannel] = none := h
  simp only [deliver, h]

/-- A call that finds an engine changes this engine and the world. -/
theorem deliver_of_some {call : Call} {c : Channel τ ω} {engine : τ} (h : c.engines.get call.subchannel = some engine) :
    deliver call c = through (fun s => ⟨c.engines.set call.subchannel (some s.1) (subchannel_lt call), s.2⟩)
      (Engine.call call.method call.argument call.last (engine, c.world)) := by
  have h : c.engines[call.subchannel] = some engine := h
  simp only [deliver, h, Vector.set_set]
  cases Engine.call call.method call.argument call.last (engine, c.world) <;> rfl

end

end Channel

namespace EngineMap
variable {τ τ' ω ω' : Type} [Engine τ ω] [Engine τ' ω'] {f : τ → τ'} {g : ω → ω'} (hf : EngineMap f g)
include hf

theorem deliver (call : Call) : Commutes (Channel.map f g) (Channel.deliver call) (Channel.deliver call) := by
  intro c
  cases h : c.engines[call.subchannel] with
  | none =>
    have hmap : (c.map f g).engines[call.subchannel] = none := by
      rw [Channel.map, Fin.getElem_fin, Vector.getElem_map, ← Fin.getElem_fin, h, Option.map_none]
    rw [Channel.deliver_of_none h, Channel.deliver_of_none hmap]
    rfl
  | some engine =>
    have hmap : (c.map f g).engines[call.subchannel] = some (f engine) := by
      rw [Channel.map, Fin.getElem_fin, Vector.getElem_map, ← Fin.getElem_fin, h, Option.map_some]
    have hcall := hf.call call.method call.argument call.last (engine, c.world)
    rw [Channel.deliver_of_some h, Channel.deliver_of_some hmap, through_through]
    simp only [Prod.map] at hcall
    show through _ (Engine.call call.method call.argument call.last (f engine, g c.world)) = _
    rw [hcall, through_through]
    congr 1
    funext s
    simp only [Function.comp, Channel.map, Vector.map_set, Option.map_some]
    rfl

end EngineMap

/-! ### Journals -/

/-- An engine that knows its subchannel. -/
structure Named (τ : Type) where
  subchannel : Fin 8
  engine : τ

/-- A world with the calls that were made, the latest first. -/
structure Journal (ω : Type) where
  world : ω
  calls : List Call := []

variable {τ ω : Type} [Engine τ ω]

instance : Engine (Named τ) (Journal ω) where
  call method argument last := fun (named, journal) =>
    through (fun s => (⟨named.subchannel, s.1⟩, ⟨s.2, ⟨named.subchannel, method, argument, last⟩ :: journal.calls⟩))
      (Engine.call method argument last (named.engine, journal.world))

/-- A journal can be forgotten. -/
theorem engineMap_journal : EngineMap (Named.engine : Named τ → τ) (Journal.world : Journal ω → ω) where
  call method argument last := by
    rintro ⟨named, journal⟩
    show Engine.call method argument last (named.engine, journal.world) = through _ (through _ _)
    rw [through_through]
    cases Engine.call method argument last (named.engine, journal.world) <;> rfl

namespace Channel

/-- The channel with a journal in which nothing is written yet. -/
def journaled (c : Channel τ ω) : Channel (Named τ) (Journal ω) :=
  ⟨Vector.ofFn fun i => c.engines[i].map (Named.mk i), ⟨c.world, []⟩⟩

omit [Engine τ ω] in
theorem map_journaled (c : Channel τ ω) : c.journaled.map Named.engine Journal.world = c := by
  obtain ⟨engines, world⟩ := c
  simp only [journaled, map, mk.injEq, and_true]
  ext i hi : 1
  simp only [Vector.getElem_map, Vector.getElem_ofFn, Option.map_map]
  exact Option.map_id'

/-- Whether a call finds an engine. -/
def finds (c : Channel τ ω) (call : Call) : Bool := (c.engines.get call.subchannel).isSome

omit [Engine τ ω] in
theorem finds_journaled (c : Channel τ ω) : c.journaled.finds = c.finds := by
  funext call
  show c.journaled.engines[call.subchannel].isSome = c.engines[call.subchannel].isSome
  simp [journaled]

/-- Every engine is in the place of the subchannel that it knows. -/
def Placed (c : Channel (Named τ) (Journal ω)) : Prop :=
  ∀ (i : Fin 8) (named : Named τ), c.engines[i] = some named → named.subchannel = i

omit [Engine τ ω] in
theorem placed_journaled (c : Channel τ ω) : Placed c.journaled := by
  intro i named h
  simp only [journaled, Fin.getElem_fin, Vector.getElem_ofFn, Option.map_eq_some_iff] at h
  obtain ⟨engine, -, rfl⟩ := h
  rfl

/-- A call that finds an engine is written down, whatever comes of it. The engine keeps its place. -/
theorem stateOf_deliver {call : Call} {c : Channel (Named τ) (Journal ω)} (hplaced : Placed c)
    (hfinds : c.finds call = true) :
    (stateOf (deliver call c)).world.calls = call :: c.world.calls ∧ (stateOf (deliver call c)).finds = c.finds ∧
      Placed (stateOf (deliver call c)) := by
  obtain ⟨named, hnamed⟩ := Option.isSome_iff_exists.mp hfinds
  have hsubchannel : named.subchannel = call.subchannel := hplaced _ _ hnamed
  obtain ⟨engine, world, hstate⟩ : ∃ engine world, stateOf (deliver call c) =
      ⟨c.engines.set call.subchannel (some ⟨call.subchannel, engine⟩), ⟨world, call :: c.world.calls⟩⟩ := by
    rw [deliver_of_some hnamed, stateOf_through]
    simp only [Engine.call, stateOf_through, hsubchannel]
    exact ⟨_, _, rfl⟩
  rw [hstate]
  refine ⟨rfl, ?_, ?_⟩
  · funext other
    show (c.engines.set call.subchannel _)[other.subchannel].isSome = c.engines[other.subchannel].isSome
    simp only [Fin.getElem_fin, Vector.getElem_set]
    split
    · next h =>
      have hnamed : c.engines[call.subchannel.val] = some named := hnamed
      simp only [← h, hnamed, Option.isSome_some]
    · rfl
  · intro i other h
    simp only [Fin.getElem_fin, Vector.getElem_set] at h
    split at h
    · next hi =>
      cases h
      exact Fin.ext hi
    · exact hplaced i other h

/-- The engines get the calls that find one, in order, up to the first that fails. -/
theorem calls_forM_deliver (calls : List Call) {c : Channel (Named τ) (Journal ω)} (hplaced : Placed c) :
    ∃ made rest, calls.filter c.finds = made ++ rest ∧
      (stateOf (calls.forM deliver c)).world.calls = made.reverse ++ c.world.calls ∧
      ∀ d, calls.forM deliver c = .ok () d → rest = [] := by
  induction calls generalizing c with
  | nil => exact ⟨[], [], rfl, rfl, fun _ _ => rfl⟩
  | cons call calls ih =>
    rw [forM_cons_apply]
    cases hfinds : c.finds call with
    | false =>
      have hnone : c.engines.get call.subchannel = none := Option.isNone_iff_eq_none.mp (by simpa [finds] using hfinds)
      rw [deliver_of_none hnone, List.filter_cons_of_neg (by simp [hfinds])]
      exact ih hplaced
    | true =>
      obtain ⟨hcalls, hkept, hplaced'⟩ := stateOf_deliver hplaced hfinds
      rw [List.filter_cons_of_pos hfinds]
      cases hdeliver : deliver call c with
      | ok _ d =>
        rw [hdeliver, stateOf] at hcalls hkept hplaced'
        obtain ⟨made, rest, hfilter, hmade, hrest⟩ := ih hplaced'
        refine ⟨call :: made, rest, ?_, ?_, hrest⟩
        · rw [← hkept, hfilter, List.cons_append]
        · rw [hmade, hcalls, List.reverse_cons, List.append_assoc, List.singleton_append]
      | error fault d =>
        rw [hdeliver, stateOf] at hcalls
        exact ⟨[call], calls.filter c.finds, rfl, hcalls, nofun⟩

/-- The calls that the engines of a channel get from work on it. -/
def received (work : EStateM Fault (Channel (Named τ) (Journal ω)) Unit) (c : Channel τ ω) : List Call :=
  (stateOf (work c.journaled)).world.calls.reverse

/-- Delivery does not depend on the journal, and if nothing fails the engines get all calls that find one. -/
theorem received_forM_deliver (calls : List Call) (c : Channel τ ω) :
    through (map Named.engine Journal.world) (calls.forM deliver c.journaled) = calls.forM deliver c ∧
    received (calls.forM deliver) c <+: calls.filter c.finds ∧
    ((∃ d, calls.forM deliver c = .ok () d) → received (calls.forM deliver) c = calls.filter c.finds) := by
  have hforget := Commutes.forM (fun call => engineMap_journal.deliver call) calls c.journaled
  rw [map_journaled] at hforget
  obtain ⟨made, rest, hfilter, hmade, hrest⟩ := calls_forM_deliver calls (placed_journaled c)
  have hreceived : received (calls.forM deliver) c = made := by
    rw [received, hmade, show c.journaled.world.calls = [] from rfl, List.append_nil, List.reverse_reverse]
  rw [finds_journaled] at hfilter
  rw [hreceived]
  refine ⟨hforget.symm, ⟨rest, hfilter.symm⟩, ?_⟩
  rintro ⟨d, hd⟩
  rw [hforget] at hd
  cases hjournaled : calls.forM deliver c.journaled with
  | ok _ d' => rw [hfilter, hrest d' hjournaled, List.append_nil]
  | error fault d' =>
    rw [hjournaled] at hd
    cases hd

end Channel

end Maxwell
