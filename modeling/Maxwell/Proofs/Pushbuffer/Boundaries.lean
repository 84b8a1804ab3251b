import Maxwell.Context
import Maxwell.Memory.Ram
import Maxwell.Proofs.Pushbuffer.Decode
import Maxwell.Proofs.Pushbuffer.Journal
import Maxwell.Proofs.Threed.Sealed

/-! Packet boundaries. The final call of every packet is marked, also if the segment cuts the packet short, and a call
    that fails leaves nothing pending. So between packets no engine has an invocation pending, whatever the words are,
    and words for a macro run it once. -/

namespace Maxwell

open Threed (Request sealedCalls makeAll timeline idle idleAfter)

/-! ### The calls of a packet -/

/-- A request as a call on a subchannel. -/
def Threed.Request.on (subchannel : Fin 8) (r : Request) : Call := ⟨subchannel, r.method, r.argument, r.last⟩

namespace Packet

/-- The words that the calls of a packet carry. -/
def arguments (p : Packet) : List Word :=
  match p.header.op with
  | .inc | .nonInc | .oneInc => p.data
  | .immediate => [.ofNat p.header.count]
  | .group0 | .group2 | .reserved6 | .endSegment => []

def requests (p : Packet) : List Request := sealedCalls p.target p.arguments

theorem calls_eq (p : Packet) : p.calls = p.requests.map (Request.on p.header.subchannel) := by
  obtain ⟨⟨op, subchannel, method, count⟩, data⟩ := p
  cases op <;> simp only [calls, requests, arguments, sealedCalls, List.mapIdx_eq_zipIdx_map, List.map_map] <;> rfl

/-- The packet has words for the macro of a number, from its first argument on. -/
def Feeds (p : Packet) (number : Nat) : Prop :=
  p.data ≠ [] ∧ (p.header.op = .oneInc ∧ p.header.method.val = 0xE00 + 2 * number ∨
    p.header.op = .nonInc ∧ p.header.method.val = 0xE01 + 2 * number)

/-- Words for a macro are the arguments of one invocation, which runs at the final one of them. -/
theorem requests_of_feeds {p : Packet} {number : Nat} (h : p.Feeds number) :
    timeline p.requests = [(p.data.length - 1, .invoke ⟨.ofNat number, p.data.toArray⟩)] ∧
    ∀ {η : Type} [Host η] (interpreter : Mme.Interpreter) (s : Threed.Core × η),
      makeAll p.requests (idle interpreter s) =
        through idleAfter (settled (Threed.invoke ⟨.ofNat number, p.data.toArray⟩ (interpreter, s))) := by
  obtain ⟨hdata, hop⟩ := h
  have harguments : p.arguments = p.data := by
    rcases hop with ⟨hop, -⟩ | ⟨hop, -⟩ <;> rw [arguments, hop]
  have htarget : ∀ i, p.target i = 0xE00 + 2 * number ∨ p.target i = 0xE01 + 2 * number := by
    intro i
    rcases hop with ⟨hop, hmethod⟩ | ⟨hop, hmethod⟩ <;> simp only [target, hop, hmethod]
    · split <;> omega
    · exact .inr trivial
  have hodd : ∀ i, p.target (i + 1) = 0xE01 + 2 * number := by
    intro i
    rcases hop with ⟨hop, hmethod⟩ | ⟨hop, hmethod⟩ <;> simp only [target, hop, hmethod]
    rw [if_neg (Nat.succ_ne_zero i)]
    omega
  have hmethod : ∀ i, registerCount ≤ p.target i := by
    intro i
    have hcases := htarget i
    unfold registerCount
    omega
  have hslot : ∀ i, Threed.slotOf (p.target i) = .ofNat number := fun i => Threed.slotOf_eq_ofNat (htarget i)
  have hparameter : ∀ i, Threed.isParameter (p.target (i + 1)) = true := by
    intro i
    rw [hodd i]
    exact Threed.isParameter_odd number
  rw [requests, harguments]
  constructor
  · rw [timeline, Threed.timelineFrom_sealedCalls hmethod hslot hparameter hdata, Nat.zero_add]
  · intro η _ interpreter s
    exact Threed.makeAll_sealedCalls hmethod hslot hparameter hdata interpreter s

end Packet

/-! ### Packets on a channel -/

namespace Channel

section
variable {τ ω : Type}

theorem place_lt (i : Fin 8) : i.val < 8 := i.isLt

/-- The channel with another engine in a place, and another world. -/
def replace (c : Channel τ ω) (i : Fin 8) (s : τ × ω) : Channel τ ω :=
  ⟨c.engines.set i (some s.1) (place_lt i), s.2⟩

theorem get_replace (c : Channel τ ω) (i : Fin 8) (s : τ × ω) : (c.replace i s).engines.get i = some s.1 := by
  show (c.engines.set i (some s.1))[i.val] = some s.1
  exact Vector.getElem_set_self i.isLt

/-- An engine that is put where it is. -/
theorem replace_self {c : Channel τ ω} {i : Fin 8} {engine : τ} (h : c.engines.get i = some engine) :
    c.replace i (engine, c.world) = c := by
  have h : c.engines[i.val] = some engine := h
  rw [replace, ← h, Vector.set_getElem_self]

theorem replace_replace (c : Channel τ ω) (i : Fin 8) (s t : τ × ω) : (c.replace i s).replace i t = c.replace i t := by
  simp only [replace, Vector.set_set]

variable [Engine τ ω]

def perform (p : Packet) : EStateM Fault (Channel τ ω) Unit := p.calls.forM deliver

theorem execute_eq_forM_perform (words : List Word) (c : Channel τ ω) :
    execute words c = (packetsOf words).forM perform c := by
  rw [execute_eq, callsOf]
  induction packetsOf words generalizing c with
  | nil => rfl
  | cons p packets ih =>
    rw [List.flatMap_cons, forM_append_apply, forM_cons_apply, perform]
    cases p.calls.forM deliver c with
    | ok _ d => exact ih d
    | error fault d => rfl

end

section
variable {ω : Type} [Host ω]

theorem forM_deliver_of_none {c : Channel Threed ω} {i : Fin 8} (h : c.engines.get i = none) (requests : List Request) :
    (requests.map (Request.on i)).forM deliver c = .ok () c := by
  induction requests with
  | nil => rfl
  | cons r requests ih =>
    rw [List.map_cons, forM_cons_apply, deliver_of_none h]
    exact ih

/-- Calls on one subchannel are calls to its engine. -/
theorem forM_deliver_of_some {c : Channel Threed ω} {i : Fin 8} {engine : Threed}
    (h : c.engines.get i = some engine) (requests : List Request) :
    (requests.map (Request.on i)).forM deliver c = through (c.replace i) (makeAll requests (engine, c.world)) := by
  induction requests generalizing c engine with
  | nil =>
    rw [List.map_nil, forM_nil_apply, makeAll, forM_nil_apply, through_ok, replace_self h]
  | cons r requests ih =>
    have hdeliver : deliver (r.on i) c = through (c.replace i) (r.make (engine, c.world)) := deliver_of_some h
    rw [List.map_cons, forM_cons_apply, hdeliver, makeAll, forM_cons_apply]
    cases r.make (engine, c.world) with
    | error fault s => rfl
    | ok _ s =>
      have hrest := ih (get_replace c i s)
      rw [show (c.replace i s).replace i = c.replace i from funext (replace_replace c i s)] at hrest
      exact hrest

/-- Calls to registers of an idle engine are writes. -/
theorem forM_deliver_marked {writes : List (Nat × Word)} (hfile : ∀ w ∈ writes, w.1 < registerCount)
    (flags : Nat → Bool) (c : Channel Threed ω) (i : Fin 8) (interpreter : Mme.Interpreter) (s : Threed.Core × ω) :
    ((Threed.marked flags writes).map (Request.on i)).forM deliver (c.replace i (idle interpreter s)) =
      through (fun t => c.replace i (idle interpreter t)) (writes.forM (fun w => Threed.write w.1 w.2) s) := by
  have hmake := Threed.makeAll_marked hfile flags interpreter s
  rw [forM_deliver_of_some (get_replace c i _)]
  show through _ (makeAll _ (idle interpreter s)) = _
  rw [hmake, through_through]
  congr 1
  funext t
  exact replace_replace c i _ _

/-- No engine has an invocation pending. -/
def Idle (c : Channel Threed ω) : Prop := ∀ (i : Fin 8) engine, c.engines.get i = some engine → engine.pending = none

omit [Host ω] in
theorem Idle.replace {c : Channel Threed ω} (hidle : c.Idle) (i : Fin 8) {s : Threed × ω} (hs : s.1.pending = none) :
    (c.replace i s).Idle := by
  intro j engine h
  have h : (c.engines.set i (some s.1))[j.val] = some engine := h
  rw [Vector.getElem_set] at h
  split at h
  · cases h
    exact hs
  · exact hidle j engine h

theorem idle_perform (p : Packet) {c : Channel Threed ω} (hidle : c.Idle) : (stateOf (perform p c)).Idle := by
  rw [perform, p.calls_eq]
  cases hengine : c.engines.get p.header.subchannel with
  | none =>
    rw [forM_deliver_of_none hengine]
    exact hidle
  | some engine =>
    rw [forM_deliver_of_some hengine, stateOf_through]
    have hpending : engine.pending = none := hidle _ engine hengine
    exact hidle.replace _ (Threed.pending_makeAll (Threed.pendingFrom_sealedCalls p.target fun _ => hpending))

theorem idle_forM_perform (packets : List Packet) {c : Channel Threed ω} (hidle : c.Idle) :
    (stateOf (packets.forM perform c)).Idle :=
  (sequential_keeps Idle).forM (fun p _ _ => idle_perform p) c hidle

theorem idle_execute (words : List Word) {c : Channel Threed ω} (hidle : c.Idle) :
    (stateOf (execute words c)).Idle := by
  rw [execute_eq_forM_perform]
  exact idle_forM_perform (packetsOf words) hidle

theorem idle_processEntry (entry : Entry) {c : Channel Threed ω} (hidle : c.Idle) :
    (stateOf (processEntry entry c)).Idle := by
  unfold processEntry
  split
  · exact hidle
  · split
    · exact idle_execute _ hidle
    · exact hidle

theorem idle_process (entries : List Entry) {c : Channel Threed ω} (hidle : c.Idle) :
    (stateOf (process entries c)).Idle :=
  (sequential_keeps Idle).forM (fun entry _ _ => idle_processEntry entry) c hidle

theorem perform_of_feeds {p : Packet} {number : Nat} (hfeeds : p.Feeds number) {c : Channel Threed ω} (hidle : c.Idle)
    {engine : Threed} (hengine : c.engines.get p.header.subchannel = some engine) :
    perform p c = through (fun s => c.replace p.header.subchannel (idleAfter s))
      (settled (Threed.invoke ⟨.ofNat number, p.data.toArray⟩ (engine.interpreter, (engine.core, c.world)))) := by
  obtain ⟨core, pending, interpreter⟩ := engine
  obtain rfl : pending = none := hidle _ _ hengine
  rw [perform, p.calls_eq, forM_deliver_of_some hengine]
  have hmake := (Packet.requests_of_feeds hfeeds).2 interpreter (core, c.world)
  rw [idle] at hmake
  rw [hmake, through_through]
  rfl

end

end Channel

/-! ### A GPU -/

namespace Context
variable {η : Type} [Host η]

omit [Host η] in
theorem idle_new (stepLimit : Nat) (readings : Nat → UInt64) (host : η) :
    (Context.new stepLimit readings host).channel.Idle := by
  intro i engine h
  have h : ((Vector.replicate 8 none).setIfInBounds threedSubchannel (some (Threed.new stepLimit readings)))[i.val] =
      some engine := h
  rw [Vector.getElem_setIfInBounds] at h
  split at h
  · rw [← Option.some.inj h, Threed.new]
  · rw [Vector.getElem_replicate] at h
    cases h

theorem idle_flush {context : Context η} (hidle : context.channel.Idle) : (stateOf context.flush).channel.Idle := by
  obtain ⟨channel, queue⟩ := context
  have hprocess := Channel.idle_process queue hidle
  simp only [flush]
  cases hresult : Channel.process queue channel with
  | ok _ d => rwa [hresult] at hprocess
  | error fault d => rwa [hresult] at hprocess

end Context

/-- No engine has an invocation pending between the packets of a segment, nor after a segment, entries or a flush,
    whether they succeed or fail. So a packet with words for a macro is one invocation with these words. -/
theorem Channel.idle_boundaries {ω η : Type} [Host ω] [Host η] {c : Channel Threed ω} (hc : c.Idle)
    {context : Context η} (hcontext : context.channel.Idle) (words : List Word) (entries : List Entry) :
    (execute words c = (packetsOf words).forM perform c ∧
      ∀ k, (stateOf (((packetsOf words).take k).forM perform c)).Idle) ∧
    (stateOf (execute words c)).Idle ∧ (stateOf (process entries c)).Idle ∧ (stateOf context.flush).channel.Idle ∧
    ∀ k p number d engine, (packetsOf words)[k]? = some p → p.Feeds number →
      ((packetsOf words).take k).forM perform c = .ok () d → d.engines.get p.header.subchannel = some engine →
      timeline p.requests = [(p.data.length - 1, .invoke ⟨.ofNat number, p.data.toArray⟩)] ∧
      perform p d = through (fun s => d.replace p.header.subchannel (idleAfter s))
        (settled (Threed.invoke ⟨.ofNat number, p.data.toArray⟩ (engine.interpreter, (engine.core, d.world)))) := by
  have hpackets : ∀ k, (stateOf (((packetsOf words).take k).forM perform c)).Idle := by
    intro k
    exact idle_forM_perform _ hc
  refine ⟨⟨execute_eq_forM_perform words c, hpackets⟩, idle_execute words hc, idle_process entries hc,
    Context.idle_flush hcontext, ?_⟩
  intro k p number d engine _ hfeeds hd hengine
  have hidle := hpackets k
  rw [hd] at hidle
  exact ⟨(Packet.requests_of_feeds hfeeds).1, perform_of_feeds hfeeds hidle hengine⟩

/-- The first of the packets has two words for the macro that has number 133 as well as 5. The segment ends within the
    second. -/
theorem Channel.idle_boundaries_slot :
    let context := Context.new 100 (fun _ => 0) (⟨⟨⟩, Ram.zeros 0, {}⟩ : Board NullSink Ram)
    let engine := Threed.new 100 fun _ => 0
    let words : List Word := [0xA0020F0A, 7, 9, 0x60050E0B, 1]
    let p : Packet := ⟨⟨.oneInc, 0, 0xF0A, 2⟩, [7, 9]⟩
    context.channel.Idle ∧ (stateOf (execute words context.channel)).Idle ∧ (stateOf context.flush).channel.Idle ∧
    (packetsOf words)[0]? = some p ∧ p.Feeds 133 ∧ context.channel.engines.get 0 = some engine ∧
    timeline p.requests = [(1, .invoke ⟨5, #[7, 9]⟩)] ∧
    perform p context.channel = through (fun s => context.channel.replace 0 (idleAfter s))
      (settled (Threed.invoke ⟨5, #[7, 9]⟩ (engine.interpreter, (engine.core, context.channel.world)))) := by
  intro context engine words p
  have hidle : context.channel.Idle := Context.idle_new 100 (fun _ => 0) _
  have hp : (packetsOf words)[0]? = some p := by
    rw [packetsOf_of_read?_eq_some (show Packet.read? words = some (p, [0x60050E0B, 1]) from rfl)]
    rfl
  have hfeeds : p.Feeds 133 := ⟨by decide, .inl ⟨rfl, rfl⟩⟩
  have hengine : context.channel.engines.get 0 = some engine := rfl
  obtain ⟨-, hexecute, -, hflush, hpackets⟩ := idle_boundaries hidle hidle words []
  obtain ⟨htimeline, hperform⟩ := hpackets 0 p 133 context.channel engine hp hfeeds rfl hengine
  exact ⟨hidle, hexecute, hflush, hp, hfeeds, hengine, htimeline, hperform⟩

end Maxwell
