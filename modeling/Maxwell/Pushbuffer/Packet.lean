import Maxwell.Pushbuffer.Header

/-! Packets: a header and its data words, the method calls they stand for, and how a segment splits into
    packets. -/

namespace Maxwell

/-- A method call on the engine of a subchannel. `last` marks the last call of a packet. -/
structure Call where
  subchannel : Fin 8
  method : Nat
  argument : Word
  last : Bool
  deriving DecidableEq, Repr

structure Packet where
  header : Header
  /-- The data words. A packet that its segment cuts short has fewer than its header says. -/
  data : List Word
  deriving DecidableEq, Repr

namespace Packet

/-- The method that data word `i` goes to. -/
def target (p : Packet) (i : Nat) : Nat :=
  match p.header.op with
  | .inc => p.header.method + i
  | .oneInc => if i = 0 then p.header.method else p.header.method + 1
  | _ => p.header.method

/-- The method calls of a packet, in order. -/
def calls (p : Packet) : List Call :=
  match p.header.op with
  | .inc | .nonInc | .oneInc =>
    p.data.mapIdx fun i word => ⟨p.header.subchannel, p.target i, word, i + 1 == p.data.length⟩
  | .immediate => [⟨p.header.subchannel, p.header.method, .ofNat p.header.count, true⟩]
  | .group0 | .group2 | .reserved6 | .endSegment => []

/-- The words of a packet. -/
def words (p : Packet) : List Word := p.header.toWord :: p.data

/-- Takes the first packet off the words of a segment, unless the segment ends there. -/
def read? : List Word → Option (Packet × List Word)
  | [] => none
  | word :: rest =>
    let header := Header.ofWord word
    match header.op with
    | .endSegment => none
    | .immediate => some (⟨header, []⟩, rest)
    | _ => some (⟨header, rest.take header.count⟩, rest.drop header.count)

theorem length_lt_of_read? {words rest : List Word} {p : Packet} (h : read? words = some (p, rest)) :
    rest.length < words.length := by
  cases words with
  | nil => simp [read?] at h
  | cons word words =>
    simp only [read?] at h
    split at h <;> simp only [reduceCtorEq, Option.some.injEq, Prod.mk.injEq] at h
    · rw [← h.2]
      simp
    · rw [← h.2, List.length_drop, List.length_cons]
      omega

end Packet

/-- The packets of a segment. -/
def packetsOf (words : List Word) : List Packet :=
  match _h : Packet.read? words with
  | none => []
  | some (packet, rest) => packet :: packetsOf rest
termination_by words.length
decreasing_by exact Packet.length_lt_of_read? _h

/-- The method calls of a segment, in order. -/
def callsOf (words : List Word) : List Call := (packetsOf words).flatMap Packet.calls

end Maxwell
