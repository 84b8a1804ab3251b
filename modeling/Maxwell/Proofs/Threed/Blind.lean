import Maxwell.Memory.AddressSpace
import Maxwell.Proofs.Memory.Ram
import Maxwell.Proofs.Outcome

/-! Hosts that do not look at what they store. Whether bytes are taken depends on where they go and how many they are,
    and nothing that an engine gets from a host depends on bytes that were stored before. -/

namespace Maxwell

/-- A host with a relation of states that differ at most in stored bytes. Requests that are the same, or stores of as
    many bytes to the same place, end alike on both and keep them related. -/
class BlindHost (η : Type) [Host η] where
  alike : η → η → Prop
  refl : ∀ g, alike g g
  store : ∀ {g h}, alike g h → ∀ address {bytes bytes' : ByteArray}, bytes'.size = bytes.size →
    Paired alike (GuestMemory.store address bytes g) (GuestMemory.store address bytes' h)
  notify : ∀ {g h}, alike g h → ∀ live span, Paired alike (Sink.notify live span g) (Sink.notify live span h)
  flush : ∀ {g h}, alike g h → Paired alike (Sink.flush g) (Sink.flush h)
  clear : ∀ {g h}, alike g h → ∀ live request, Paired alike (Sink.clear live request g) (Sink.clear live request h)
  increment : ∀ {g h}, alike g h → ∀ id, alike (Host.increment id g) (Host.increment id h)

/-! ### Boards with contiguous memory -/

namespace Board
variable {σ : Type}

/-- Two boards that differ at most in the bytes of their memories. -/
structure Alike (g h : Board σ Ram) : Prop where
  sink : h.sink = g.sink
  size : h.memory.size = g.memory.size
  syncpoints : h.syncpoints = g.syncpoints

theorem Alike.onSink {g h : Board σ Ram} (hgh : Alike g h) (act : EStateM SinkFault σ Unit) :
    Paired Alike (onSink act g) (onSink act h) := by
  obtain ⟨_, memory, _⟩ := g
  obtain ⟨sink, memory', syncpoints⟩ := h
  obtain ⟨rfl, hsize, rfl⟩ := hgh
  simp only [Board.onSink]
  cases act sink with
  | ok _ sink => exact .ok () ⟨rfl, hsize, rfl⟩
  | error fault sink => exact .error fault ⟨rfl, hsize, rfl⟩

theorem Alike.store {g h : Board σ Ram} (hgh : Alike g h) (address : UInt64) {bytes bytes' : ByteArray}
    (hbytes : bytes'.size = bytes.size) : Paired Alike (onMemory (GuestMemory.store address bytes) g)
      (onMemory (GuestMemory.store address bytes') h) := by
  obtain ⟨_, memory, _⟩ := g
  obtain ⟨sink, memory', syncpoints⟩ := h
  obtain ⟨rfl, hsize, rfl⟩ := hgh
  dsimp only at hsize
  by_cases hfits : address.toNat + bytes.size ≤ memory.size
  · simp only [onMemory, GuestMemory.store, hbytes, hsize, if_pos hfits]
    refine .ok () ⟨rfl, ?_, rfl⟩
    rw [(Ram.put_spec memory' _ _).1, (Ram.put_spec memory _ _).1, hsize]
  · simp only [onMemory, GuestMemory.store, hbytes, hsize, if_neg hfits]
    exact .error _ ⟨rfl, hsize, rfl⟩

instance [Sink σ] : BlindHost (Board σ Ram) where
  alike := Alike
  refl _ := ⟨rfl, rfl, rfl⟩
  store h := h.store
  notify h live span := h.onSink (Sink.notify live span)
  flush h := h.onSink Sink.flush
  clear h live request := h.onSink (Sink.clear live request)
  increment h id := ⟨h.sink, h.size, congrArg (·.increment id) h.syncpoints⟩

end Board

/-! ### Address spaces -/

namespace AddressSpace
variable {η : Type} [Host η] [BlindHost η]

structure Alike (s t : AddressSpace η) : Prop where
  table : t.table = s.table
  backing : BlindHost.alike s.backing t.backing

theorem Alike.onBacking {ε : Type} {s t : AddressSpace η} (hst : Alike s t) {act act' : EStateM ε η Unit}
    (hact : Paired BlindHost.alike (act s.backing) (act' t.backing)) :
    Paired Alike (onBacking act s) (onBacking act' t) := by
  obtain ⟨_, g⟩ := s
  obtain ⟨table, h⟩ := t
  obtain ⟨rfl, -⟩ := hst
  simp only [AddressSpace.onBacking]
  generalize act g = r, act' h = r' at hact
  cases hact with
  | ok _ h => exact .ok () ⟨rfl, h⟩
  | error fault h => exact .error fault ⟨rfl, h⟩

theorem Alike.storePiece {s t : AddressSpace η} (hst : Alike s t) {bytes bytes' : ByteArray}
    (hbytes : bytes'.size = bytes.size) (piece : Piece) :
    Paired Alike (storePiece bytes piece s) (storePiece bytes' piece t) := by
  have htranslate : t.translate piece.address = s.translate piece.address := by
    rw [translate, hst.table, translate]
  unfold AddressSpace.storePiece
  rw [htranslate]
  cases s.translate piece.address with
  | none => exact .error _ hst
  | some target =>
    refine hst.onBacking (BlindHost.store hst.backing target ?_)
    rw [ByteArray.size_extract, ByteArray.size_extract, hbytes]

theorem Alike.store {s t : AddressSpace η} (hst : Alike s t) (address : UInt64) {bytes bytes' : ByteArray}
    (hbytes : bytes'.size = bytes.size) :
    Paired Alike (GuestMemory.store address bytes s) (GuestMemory.store address bytes' t) := by
  show Paired Alike ((pieces address bytes.size).forM (AddressSpace.storePiece bytes) s)
    ((pieces address bytes'.size).forM (AddressSpace.storePiece bytes') t)
  rw [hbytes]
  exact Paired.forM (fun piece _ _ h => h.storePiece hbytes piece) _ hst

instance : BlindHost (AddressSpace η) where
  alike := Alike
  refl s := ⟨rfl, BlindHost.refl s.backing⟩
  store h := h.store
  notify h live span := h.onBacking (BlindHost.notify h.backing live span)
  flush h := h.onBacking (BlindHost.flush h.backing)
  clear h live request := h.onBacking (BlindHost.clear h.backing live request)
  increment h id := ⟨h.table, BlindHost.increment h.backing id⟩

end AddressSpace

end Maxwell
