import Maxwell.Memory.AddressSpace
import Maxwell.Proofs.Mme.Transport
import Maxwell.Proofs.Threed.Law

/-! Engines on hosts that answer alike. If a map from one kind of host to another goes along with every request,
    a call on the second is the call on the first, seen through the map. So a record of requests changes nothing
    of what is recorded. -/

namespace Maxwell

variable {η η' : Type} [Host η] [Host η']

/-- A map of hosts that goes along with every request. -/
structure HostMap (f : η → η') : Prop where
  load : ∀ host address length, GuestMemory.load (f host) address length = GuestMemory.load host address length
  store : ∀ address bytes, Commutes f (GuestMemory.store address bytes) (GuestMemory.store address bytes)
  notify : ∀ live span, Commutes f (Sink.notify live span) (Sink.notify live span)
  flush : Commutes f (Sink.flush : EStateM SinkFault η Unit) Sink.flush
  clear : ∀ live request, Commutes f (Sink.clear live request) (Sink.clear live request)
  increment : ∀ id host, Host.increment id (f host) = f (Host.increment id host)

/-! ### Records and address spaces -/

namespace Traced

omit [Host η] in
theorem commutes_record {ε : Type} (event : Option ε → HostEvent) (act : EStateM ε η Unit) :
    Commutes Traced.host (record event act) act := by
  rintro ⟨host, events⟩
  simp only [record]
  cases act host <;> rfl

omit [Host η] in
theorem exists_stateOf_record {ε : Type} (event : Option ε → HostEvent) (act : EStateM ε η Unit) (s : Traced η) :
    ∃ fault?, stateOf (record event act s) = ⟨stateOf (act s.host), event fault? :: s.events⟩ := by
  obtain ⟨host, events⟩ := s
  simp only [record]
  cases act host with
  | ok _ host => exact ⟨none, rfl⟩
  | error fault host => exact ⟨some fault, rfl⟩

/-- A record can be forgotten. -/
theorem hostMap : HostMap (Traced.host : Traced η → η) where
  load _ _ _ := rfl
  store _ _ := commutes_record _ _
  notify _ _ := commutes_record _ _
  flush := commutes_record _ _
  clear _ _ := commutes_record _ _
  increment _ _ := rfl

end Traced

namespace AddressSpace

/-- The address space before another host. -/
def mapBacking (f : η → η') (space : AddressSpace η) : AddressSpace η' := ⟨space.table, f space.backing⟩

omit [Host η] [Host η'] in
theorem commutes_onBacking {ε : Type} {f : η → η'} {x : EStateM ε η Unit} {y : EStateM ε η' Unit}
    (h : Commutes f x y) : Commutes (mapBacking f) (onBacking x) (onBacking y) := by
  rintro ⟨table, backing⟩
  simp only [onBacking, mapBacking, h backing]
  cases x backing <;> rfl

omit [Host η] [Host η'] in
theorem translate_mapBacking (f : η → η') (space : AddressSpace η) :
    (mapBacking f space).translate = space.translate := rfl

theorem hostMap {f : η → η'} (hf : HostMap f) : HostMap (mapBacking f) where
  load space address length := by
    have hpiece : loadPiece (mapBacking f space) = loadPiece space := by
      funext piece
      unfold loadPiece
      rw [translate_mapBacking]
      cases space.translate piece.address with
      | none => rfl
      | some target => exact hf.load space.backing target piece.length
    show (pieces address length).forM (loadPiece (mapBacking f space)) = _
    rw [hpiece]
    rfl
  store address bytes := by
    refine Commutes.forM (fun piece space => ?_) _
    unfold storePiece
    rw [translate_mapBacking]
    cases space.translate piece.address with
    | none => rfl
    | some target => exact commutes_onBacking (hf.store target _) space
  notify live span := commutes_onBacking (hf.notify live span)
  flush := commutes_onBacking hf.flush
  clear live request := commutes_onBacking (hf.clear live request)
  increment id space := by
    show (⟨space.table, Host.increment id (f space.backing)⟩ : AddressSpace η') = _
    rw [hf.increment]
    rfl

end AddressSpace

/-! ### Calls -/

namespace Threed

omit [Host η] [Host η'] in
theorem commutes_onHost {ε : Type} {f : η → η'} (cause : ε → Fault) {x : EStateM ε η Unit} {y : EStateM ε η' Unit}
    (h : Commutes f x y) : Commutes (Prod.map id f : Core × η → _) (onHost cause x) (onHost cause y) := by
  rintro ⟨core, host⟩
  simp only [onHost, Prod.map, id, h host]
  cases x host <;> rfl

/-- The engine and its host, with the host seen through a map. -/
def mapHost (f : η → η') (s : Threed × η) : Threed × η' := (s.1, f s.2)

end Threed

namespace HostMap
open Threed
variable {f : η → η'} (hf : HostMap f)
include hf

theorem perform (control : Control) (value : Word) :
    Commutes (Prod.map id f) (control.perform value : CoreM η Unit) (control.perform value) := by
  cases control with
  | noOperation | shadowMode => exact Commutes.pure ()
  | waitForIdle => exact commutes_onHost .sink hf.flush
  | codePointer | codeLoad | startPointer | startLoad => exact fun _ => rfl

theorem semaphore : Commutes (Prod.map id f) (performSemaphore : CoreM η Unit) performSemaphore := by
  rintro ⟨core, host⟩
  simp only [Prod.map, id, performSemaphore]
  cases semaphoreResult? core.live with
  | none => rfl
  | some result => exact commutes_onHost .memory (hf.store _ _) (_, host)

theorem fire (trigger : Trigger) (value : Word) :
    Commutes (Prod.map id f) (trigger.fire value : CoreM η Unit) (trigger.fire value) := by
  cases trigger with
  | syncpoint =>
    refine (commutes_onHost .sink hf.flush).bind fun _ => ?_
    dsimp only
    split
    · rintro ⟨core, host⟩
      show EStateM.Result.ok () (core, Host.increment _ (f host)) = _
      rw [hf.increment]
      rfl
    · exact Commutes.pure ()
  | clear => exact fun s => commutes_onHost .sink (hf.clear s.1.live (.ofWord value)) s
  | semaphore => exact hf.semaphore
  | firmwareCall => exact fun _ => rfl

theorem land (method : Nat) (value : Word) :
    Commutes (Prod.map id f) (Threed.land method value : CoreM η Unit) (Threed.land method value) := by
  rintro ⟨core, host⟩
  show Threed.land method value (core, f host) = _
  rw [land_apply, land_apply]
  refine Commutes.bind (f := Prod.map id f) ?_ (fun _ => ?_) (_, host)
  · split
    · exact fun s => commutes_onHost .sink (hf.notify s.1.live _) s
    · exact Commutes.pure ()
  · cases Trigger.ofMethod? method with
    | none => exact Commutes.pure ()
    | some trigger => exact hf.fire trigger value

theorem write (method : Nat) (argument : Word) :
    Commutes (Prod.map id f) (Threed.write method argument : CoreM η Unit) (Threed.write method argument) := by
  rintro ⟨core, host⟩
  show Threed.write method argument (core, f host) = _
  cases hc : Control.ofMethod? method with
  | some control =>
    rw [write_control hc, write_control hc]
    exact hf.perform control argument (_, host)
  | none =>
    rw [write_route hc, write_route hc, route_apply, route_apply]
    dsimp only
    cases core.live.shadowMode with
    | trackWithFilter => rfl
    | track | passthrough | replay => exact hf.land method _ (_, host)

theorem busMap : Mme.BusMap (Prod.map id f : Core × η → Core × η') where
  fetch _ _ := rfl
  read _ _ := rfl
  write method value := by
    intro s
    show (if registerCount ≤ method then pure () else Threed.write method value : CoreM η' Unit) _ =
      through _ ((if registerCount ≤ method then pure () else Threed.write method value : CoreM η Unit) s)
    split
    · rfl
    · exact hf.write method value s

theorem act (act : Act) :
    Commutes (Prod.map id (Prod.map id f)) (act.perform : EStateM Fault (Mme.Interpreter × (Core × η)) Unit)
      act.perform := by
  cases act with
  | write method argument =>
    rintro ⟨interpreter, s⟩
    simp only [Act.perform, Prod.map, id]
    rw [show Threed.write method argument (s.1, f s.2) = _ from hf.write method argument s, through_through,
      through_through]
    rfl
  | invoke invocation =>
    rintro ⟨interpreter, core, host⟩
    have hexecute := hf.busMap.execute (core.store.entry invocation.slot) invocation.arguments.toList
      (interpreter, (core, host))
    simp only [Act.perform, invoke, Prod.map, id] at hexecute ⊢
    rw [hexecute]
    cases Mme.execute (core.store.entry invocation.slot) invocation.arguments.toList (interpreter, (core, host)) <;> rfl

/-- A call before one host is the call before the other. -/
theorem make (r : Request) : Commutes (mapHost f) (r.make : EStateM Fault (Threed × η) Unit) r.make := by
  rintro ⟨⟨core, pending, interpreter⟩, host⟩
  have hacts := Commutes.forM hf.act (r.acts pending) (interpreter, (core, host))
  simp only [Prod.map, id] at hacts
  show r.make (⟨core, pending, interpreter⟩, f host) = _
  rw [make_eq, make_eq, hacts]
  cases (r.acts pending).forM Act.perform (interpreter, (core, host)) <;> rfl

theorem makeAll (requests : List Request) :
    Commutes (mapHost f) (Threed.makeAll requests : EStateM Fault (Threed × η) Unit) (Threed.makeAll requests) :=
  Commutes.forM hf.make requests

theorem stateAfter (requests : List Request) (s : Threed × η) :
    Threed.stateAfter requests (mapHost f s) = mapHost f (Threed.stateAfter requests s) := by
  induction requests generalizing s with
  | nil => rfl
  | cons r requests ih =>
    show Threed.stateAfter requests (stateOf (r.make (mapHost f s))) = _
    rw [hf.make r s, stateOf_through, ih]
    rfl

end HostMap

end Maxwell
