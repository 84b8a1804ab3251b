import Maxwell.Proofs.Memory.Ram
import Maxwell.Proofs.Replay.Observed

/-! What a run leaves alone. Whatever a channel executes, the page table stays, and a byte of memory changes only by
    a request on record that writes to it. -/

namespace Maxwell

/-- Whether a request wrote to the byte at an address. -/
def HostEvent.Writes (e : HostEvent) (address : Nat) : Prop :=
  match e with
  | .store start bytes none => start.toNat ≤ address ∧ address < start.toNat + bytes.size
  | _ => False

section
variable {σ : Type}

/-- Of two address spaces before a board, the second can come after the first: it has the same page table, and the
    memory behind it is as large and has the same bytes where no request on record wrote. -/
structure Framed (s t : AddressSpace (Traced (Board σ Ram))) : Prop where
  table : t.table = s.table
  size : t.backing.host.memory.size = s.backing.host.memory.size
  events : s.backing.events <:+ t.backing.events
  bytes : ∀ address, (∀ e ∈ t.backing.events, ¬e.Writes address) →
    t.backing.host.memory.byte address = s.backing.host.memory.byte address

namespace Framed

theorem refl (s : AddressSpace (Traced (Board σ Ram))) : Framed s s :=
  ⟨rfl, rfl, List.suffix_refl _, fun _ _ => rfl⟩

theorem trans {s t u : AddressSpace (Traced (Board σ Ram))} (h₁ : Framed s t) (h₂ : Framed t u) : Framed s u where
  table := h₂.table.trans h₁.table
  size := h₂.size.trans h₁.size
  events := h₁.events.trans h₂.events
  bytes address hquiet := by
    have hquiet₁ : ∀ e ∈ t.backing.events, ¬e.Writes address := fun e he => hquiet e (h₂.events.subset he)
    rw [h₂.bytes address hquiet, h₁.bytes address hquiet₁]

/-- A request that leaves the memory alone. -/
theorem of_memory_eq (table : PageTable) (host : Board σ Ram) (events : List HostEvent) (e : HostEvent)
    {host' : Board σ Ram} (h : host'.memory = host.memory) :
    Framed ⟨table, ⟨host, events⟩⟩ ⟨table, ⟨host', e :: events⟩⟩ where
  table := rfl
  size := congrArg Ram.size h
  events := List.suffix_cons e events
  bytes address _ := by
    show host'.memory.byte address = host.memory.byte address
    rw [h]

end Framed

/-! ### Requests -/

theorem framed_record {ε : Type} {event : Option ε → HostEvent} {act : EStateM ε (Board σ Ram) Unit}
    (h : ∀ host, (stateOf (act host)).memory = host.memory) (s : AddressSpace (Traced (Board σ Ram))) :
    Framed s (stateOf (AddressSpace.onBacking (Traced.record event act) s)) := by
  obtain ⟨table, host, events⟩ := s
  have hmemory := h host
  simp only [AddressSpace.onBacking, Traced.record]
  cases hact : act host with
  | ok _ host' | error fault host' =>
    rw [hact] at hmemory
    exact Framed.of_memory_eq table host events _ hmemory

variable [Sink σ]

/-- A store changes the bytes that it names, if it succeeds. -/
theorem framed_store (address : UInt64) (bytes : ByteArray) (s : AddressSpace (Traced (Board σ Ram))) :
    Framed s (stateOf (AddressSpace.onBacking (GuestMemory.store address bytes) s)) := by
  obtain ⟨table, ⟨sink, ram, syncpoints⟩, events⟩ := s
  by_cases hfits : address.toNat + bytes.size ≤ ram.size
  · have hstore : AddressSpace.onBacking (GuestMemory.store address bytes)
        (⟨table, ⟨⟨sink, ram, syncpoints⟩, events⟩⟩ : AddressSpace (Traced (Board σ Ram))) =
        .ok () ⟨table, ⟨⟨sink, ram.put address.toNat bytes, syncpoints⟩, .store address bytes none :: events⟩⟩ := by
      simp only [AddressSpace.onBacking, GuestMemory.store, Traced.record, Board.onMemory, if_pos hfits]
    obtain ⟨hsize, -, hbyte⟩ := Ram.put_spec ram address.toNat bytes
    rw [hstore]
    refine ⟨rfl, hsize, List.suffix_cons _ events, fun other hquiet => ?_⟩
    have hout : ¬(address.toNat ≤ other ∧ other < address.toNat + bytes.size) := hquiet _ List.mem_cons_self
    show (ram.put address.toNat bytes).byte other = ram.byte other
    rw [hbyte, if_neg (fun h => hout ⟨h.1, h.2.1⟩)]
  · have hstore : AddressSpace.onBacking (GuestMemory.store address bytes)
        (⟨table, ⟨⟨sink, ram, syncpoints⟩, events⟩⟩ : AddressSpace (Traced (Board σ Ram))) =
        .error (.outOfBounds address bytes.size) ⟨table, ⟨⟨sink, ram, syncpoints⟩,
          .store address bytes (some (.outOfBounds address bytes.size)) :: events⟩⟩ := by
      simp only [AddressSpace.onBacking, GuestMemory.store, Traced.record, Board.onMemory, if_neg hfits]
    rw [hstore]
    exact Framed.of_memory_eq table _ events _ rfl

theorem framed_hostLaw :
    Threed.HostLaw fun (s : AddressSpace (Traced (Board σ Ram))) r => Framed s (stateOf r) where
  toSequential := sequential_leads Framed.refl Framed.trans
  notify live span s := by
    rw [Threed.stateOf_caused]
    exact framed_record (Threed.memory_onSink _) s
  flush s := by
    rw [Threed.stateOf_caused]
    exact framed_record (Threed.memory_onSink _) s
  clear live request s := by
    rw [Threed.stateOf_caused]
    exact framed_record (Threed.memory_onSink _) s
  memory address bytes s := by
    rw [Threed.stateOf_caused]
    refine (sequential_leads Framed.refl Framed.trans).forM (fun piece _ s => ?_) s
    unfold AddressSpace.storePiece
    cases s.translate piece.address with
    | none => exact Framed.refl s
    | some target => exact framed_store target _ s
  increment id s := Framed.of_memory_eq s.table s.backing.host s.backing.events _ rfl

/-! ### Calls and segments -/

namespace Channel

/-- The address space of a channel, with the record of requests behind it. -/
def space (c : Observed (Board σ Ram)) : AddressSpace (Traced (Board σ Ram)) := c.world.world

theorem framed_deliver (call : Call) (c : Observed (Board σ Ram)) :
    Framed c.space (stateOf (deliver call c)).space := by
  cases h : c.engines[call.subchannel] with
  | none =>
    rw [deliver_of_none h]
    exact Framed.refl c.space
  | some named =>
    have hmake := framed_hostLaw.make ⟨call.method, call.argument, call.last⟩ (named.engine, c.space)
    rw [stateOf_through] at hmake
    rw [deliver_of_some h, stateOf_through]
    simp only [Engine.call, stateOf_through]
    exact hmake

omit [Sink σ] in
theorem framed_sequential :
    Sequential fun (c : Observed (Board σ Ram)) (r : EStateM.Result Fault _ Unit) => Framed c.space (stateOf r).space :=
  sequential_leads (Q := fun c d : Observed (Board σ Ram) => Framed c.space d.space) (fun c => Framed.refl c.space)
    Framed.trans

theorem framed_calls (calls : List Call) (c : Observed (Board σ Ram)) :
    Framed c.space (stateOf (calls.forM deliver c)).space :=
  framed_sequential.forM (fun call _ => framed_deliver call) c

theorem framed_processEntry (entry : Entry) (c : Observed (Board σ Ram)) :
    Framed c.space (stateOf (processEntry entry c)).space := by
  unfold processEntry
  split
  · exact Framed.refl c.space
  · split
    · rw [execute_eq]
      exact framed_calls _ c
    · exact Framed.refl c.space

theorem framed_process (entries : List Entry) (c : Observed (Board σ Ram)) :
    Framed c.space (stateOf (process entries c)).space :=
  framed_sequential.forM (fun entry _ => framed_processEntry entry) c

end Channel

end

end Maxwell
