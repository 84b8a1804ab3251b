import Maxwell.Proofs.Pushbuffer.Decode
import Maxwell.Proofs.Pushbuffer.Journal

/-! Execution of an encoded list of messages. The words that an encoder writes are executed as the messages it
    was asked for, in order, whatever blocks of unassigned operations stand between them and whatever follows an
    end of the segment. A message that the segment cuts short is executed as far as its words go. -/

namespace Maxwell

/-! ### Messages -/

/-- The data words of a packet. -/
abbrev Payload := { data : List Word // data.length < 0x2000 }

/-- How a batch of data words spreads over methods. -/
inductive Spread where
  | inc
  | nonInc
  | oneInc
  deriving DecidableEq, Repr

namespace Spread

def op : Spread → SecOp
  | .inc => .inc
  | .nonInc => .nonInc
  | .oneInc => .oneInc

/-- The method that data word `i` goes to. -/
def target : Spread → (method i : Nat) → Nat
  | .inc, method, i => method + i
  | .nonInc, method, _ => method
  | .oneInc, method, 0 => method
  | .oneInc, method, _ + 1 => method + 1

end Spread

/-- What an encoder is asked to send. -/
inductive Message where
  | batch (spread : Spread) (subchannel : Fin 8) (method : Fin 0x2000) (data : Payload)
  | immediate (subchannel : Fin 8) (method : Fin 0x2000) (data : Fin 0x2000)
  deriving DecidableEq, Repr

namespace Message

/-- The packet that an encoder writes for a message. -/
def packet : Message → Packet
  | .batch spread subchannel method data => ⟨⟨spread.op, subchannel, method, ⟨data.val.length, data.property⟩⟩, data⟩
  | .immediate subchannel method data => ⟨⟨.immediate, subchannel, method, data⟩, []⟩

/-- The words that an encoder writes for a message. -/
def words (m : Message) : List Word := m.packet.words

/-- The calls that a message stands for. The one of the final word is marked. -/
def calls : Message → List Call
  | .batch spread subchannel method data =>
    data.val.mapIdx fun i word => ⟨subchannel, spread.target method i, word, i + 1 == data.val.length⟩
  | .immediate subchannel method data => [⟨subchannel, method, .ofNat data, true⟩]

/-- The message with the first `k` of its data words. -/
def cut (k : Nat) : Message → Message
  | .batch spread subchannel method data =>
    .batch spread subchannel method ⟨data.val.take k, Nat.lt_of_le_of_lt (List.length_take_le' k _) data.property⟩
  | .immediate subchannel method data => .immediate subchannel method data

theorem whole_packet (m : Message) : m.packet.Whole := by
  cases m with
  | batch spread => cases spread <;> exact ⟨nofun, rfl⟩
  | immediate => exact ⟨nofun, rfl⟩

theorem calls_packet (m : Message) : m.packet.calls = m.calls := by
  cases m with
  | batch spread subchannel method data =>
    have htarget : ∀ i, (packet (.batch spread subchannel method data)).target i = spread.target method i := by
      intro i
      cases spread <;> cases i <;> rfl
    have hcalls : (packet (.batch spread subchannel method data)).calls = data.val.mapIdx fun i word =>
        ⟨subchannel, (packet (.batch spread subchannel method data)).target i, word, i + 1 == data.val.length⟩ := by
      cases spread <;> rfl
    simp only [hcalls, htarget, calls]
  | immediate => rfl

/-- A message whose last words are missing is executed like the message without them. -/
theorem callsOf_take_words (m : Message) (k : Nat) : callsOf (m.words.take (k + 1)) = (m.cut k).calls := by
  have hcut : (m.packet.header.toWord :: m.packet.data.take k) = m.words.take (k + 1) := rfl
  have hlength : (m.packet.data.take k).length ≤ Packet.announced m.packet.header :=
    Nat.le_trans (List.length_take_le' k _) (Nat.le_of_eq m.whole_packet.length)
  rw [← hcut, callsOf_of_length_le m.whole_packet.op hlength, ← calls_packet]
  cases m with
  | batch spread => cases spread <;> rfl
  | immediate => rfl

end Message

/-! ### Blocks between messages -/

/-- A block of an operation that is not assigned: a header and as many words as it says. -/
structure Gap where
  op : SecOp
  unassigned : op = .group0 ∨ op = .group2 ∨ op = .reserved6
  subchannel : Fin 8
  method : Fin 0x2000
  data : Payload

namespace Gap

def packet (g : Gap) : Packet := ⟨⟨g.op, g.subchannel, g.method, ⟨g.data.val.length, g.data.property⟩⟩, g.data⟩

theorem whole_packet (g : Gap) : g.packet.Whole := by
  obtain ⟨op, rfl | rfl | rfl, subchannel, method, data⟩ := g <;> exact ⟨nofun, rfl⟩

theorem calls_packet (g : Gap) : g.packet.calls = [] := by
  obtain ⟨op, rfl | rfl | rfl, subchannel, method, data⟩ := g <;> rfl

end Gap

/-- A part of an encoded list. -/
inductive Item where
  | message (m : Message)
  | gap (g : Gap)

namespace Item

def packet : Item → Packet
  | .message m => m.packet
  | .gap g => g.packet

def words (item : Item) : List Word := item.packet.words

/-- The message of an item, if it is one. -/
def message? : Item → Option Message
  | .message m => some m
  | .gap _ => none

theorem whole_packet (item : Item) : item.packet.Whole := by
  cases item with
  | message m => exact m.whole_packet
  | gap g => exact g.whole_packet

theorem calls_packets (items : List Item) :
    (items.map packet).flatMap Packet.calls = (items.filterMap message?).flatMap Message.calls := by
  induction items with
  | nil => rfl
  | cons item items ih =>
    rw [List.map_cons, List.flatMap_cons, ih]
    cases item with
    | message m => exact congrArg (· ++ _) m.calls_packet
    | gap g => exact congrArg (· ++ _) g.calls_packet

theorem callsOf_append (items : List Item) (rest : List Word) :
    callsOf (items.flatMap words ++ rest) = (items.filterMap message?).flatMap Message.calls ++ callsOf rest := by
  have hwords : items.flatMap words = (items.map packet).flatMap Packet.words := by
    rw [List.flatMap_map]
    rfl
  have hwhole : ∀ p ∈ items.map packet, p.Whole := by
    intro p hp
    obtain ⟨item, -, rfl⟩ := List.mem_map.mp hp
    exact item.whole_packet
  rw [hwords, Maxwell.callsOf_append hwhole, calls_packets]

theorem callsOf_words (items : List Item) :
    callsOf (items.flatMap words) = (items.filterMap message?).flatMap Message.calls := by
  have h := callsOf_append items []
  rwa [callsOf_nil, List.append_nil, List.append_nil] at h

end Item

theorem Message.callsOf_flatMap_words (messages : List Message) :
    callsOf (messages.flatMap words) = messages.flatMap calls := by
  have hwords : messages.flatMap words = (messages.map Item.message).flatMap Item.words := by
    rw [List.flatMap_map]
    rfl
  have hmessages : (messages.map Item.message).filterMap Item.message? = messages := by
    rw [List.filterMap_map]
    exact List.filterMap_some
  rw [hwords, Item.callsOf_words, hmessages]

/-! ### Execution -/

namespace Channel
variable {τ ω : Type} [Engine τ ω]

/-- An encoded list is executed as the calls of its messages in order, and the engines get those calls that find
    one, up to the first that fails. Blocks between the messages change nothing, nor does anything after an end of
    the segment. A last message that is cut short after some data words counts as the message with these words. -/
theorem execute_encode (items : List Item) (c : Channel τ ω) :
    let words := items.flatMap Item.words
    let messages := items.filterMap Item.message?
    let calls := messages.flatMap Message.calls
    execute words c = calls.forM deliver c ∧
    (received (execute words) c <+: calls.filter c.finds ∧
      ((∃ d, execute words c = .ok () d) → received (execute words) c = calls.filter c.finds)) ∧
    execute words c = execute (messages.flatMap Message.words) c ∧
    (∀ (header : Header) (after : List Word), header.op = .endSegment →
      execute (words ++ header.toWord :: after) c = execute words c) ∧
    ∀ (m : Message) (k : Nat), execute (words ++ m.words.take (k + 1)) c = execute (words ++ (m.cut k).words) c := by
  intro words messages calls
  have hcalls : callsOf words = calls := Item.callsOf_words items
  have hexecute : execute words c = calls.forM deliver c := by
    rw [execute_eq, hcalls]
  have hreceived : received (execute words) c = received (calls.forM deliver) c := by
    rw [received, received, execute_eq, hcalls]
  obtain ⟨-, hfirst, hall⟩ := received_forM_deliver calls c
  refine ⟨hexecute, ?_, ?_, fun header after hop => ?_, fun m k => ?_⟩
  · rw [hreceived, hexecute]
    exact ⟨hfirst, hall⟩
  · rw [hexecute, execute_eq, Message.callsOf_flatMap_words]
  · have hend : callsOf (header.toWord :: after) = [] := by
      rw [callsOf, packetsOf_endSegment hop, List.flatMap_nil]
    rw [hexecute, execute_eq, Item.callsOf_append, hend, List.append_nil]
  · have hwords : callsOf (m.cut k).words = (m.cut k).calls := by
      have h := Message.callsOf_flatMap_words [m.cut k]
      rwa [List.flatMap_singleton, List.flatMap_singleton] at h
    rw [execute_eq, execute_eq, Item.callsOf_append, Item.callsOf_append, Message.callsOf_take_words, hwords]

end Channel

end Maxwell
