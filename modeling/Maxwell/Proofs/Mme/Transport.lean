import Maxwell.Proofs.Mme.Record

/-! Runs on buses that answer alike. If a map from one kind of bus to another goes along with every request, a
    run on the second is the run on the first, seen through the map. -/

namespace Maxwell.Mme

variable {ε β β' : Type} [Bus ε β] [Bus ε β']

/-- A map of buses that goes along with every request. -/
structure BusMap (g : β → β') : Prop where
  fetch : ∀ offset bus, Bus.fetch offset (g bus) = ((Bus.fetch offset bus).1, g (Bus.fetch offset bus).2)
  read : ∀ method bus, Bus.read method (g bus) = ((Bus.read method bus).1, g (Bus.read method bus).2)
  write : ∀ method value, Commutes g (Bus.write method value) (Bus.write method value)

namespace BusMap
variable {g : β → β'} (hg : BusMap g)
include hg

theorem consult (operation : Operation) (m : Machine) (bus : β) :
    operation.consult m (g bus) = ((operation.consult m bus).1, g (operation.consult m bus).2) := by
  unfold Operation.consult
  cases operation.consults? m with
  | none => rfl
  | some method => exact hg.read method bus

theorem deliver (sent? : Option Word) :
    Commutes (Prod.map id g) (Mme.deliver sent? : EStateM ε (Machine × β) Unit) (Mme.deliver sent?) := by
  rintro ⟨m, bus⟩
  cases sent? with
  | none => rfl
  | some value =>
    simp only [Mme.deliver, send, Prod.map, id, hg.write _ _ bus]
    cases Bus.write m.address.method.val value bus <;> rfl

theorem perform (operation : Operation) :
    Commutes (Prod.map id g) (operation.perform : EStateM ε (Machine × β) Unit) operation.perform := by
  rintro ⟨m, bus⟩
  show operation.perform (m, g bus) = _
  rw [Operation.perform_eq, Operation.perform_eq, hg.consult]
  dsimp only
  cases operation.computes? m (operation.consult m bus).1 with
  | none => rfl
  | some c => exact hg.deliver (c.sent? m) (c.settle m, (operation.consult m bus).2)

theorem step : Commutes (Prod.map id g) (Mme.step : EStateM ε (Machine × β) Bool) Mme.step := by
  rintro ⟨m, bus⟩
  have hperform := hg.perform (CodeWord.decode (Bus.fetch m.pc bus).1).operation
    (m.advance (CodeWord.decode (Bus.fetch m.pc bus).1), (Bus.fetch m.pc bus).2)
  simp only [Prod.map, id] at hperform ⊢
  rw [step_eq, step_eq, hg.fetch]
  dsimp only
  rw [hperform]
  cases Operation.perform _ (_, (Bus.fetch m.pc bus).2) <;> rfl

theorem runFrom (limit : Nat) :
    Commutes (Prod.map id g) (Mme.runFrom limit : EStateM ε (Machine × β) Ending) (Mme.runFrom limit) := by
  induction limit with
  | zero => exact fun _ => rfl
  | succ limit ih =>
    intro s
    rw [runFrom_succ, runFrom_succ, hg.step s]
    cases Mme.step s with
    | error fault t => rfl
    | ok finished t =>
      cases finished with
      | true => rfl
      | false => exact ih t

theorem execute (entry : Word) (arguments : List Word) :
    Commutes (Prod.map id g) (Mme.execute entry arguments : EStateM ε (Interpreter × β) Ending)
      (Mme.execute entry arguments) := by
  rintro ⟨interpreter, bus⟩
  have hrun := hg.runFrom interpreter.stepLimit (Machine.start entry arguments, bus)
  simp only [Prod.map, id] at hrun ⊢
  rw [execute_eq, execute_eq, hrun, through_through, through_through]
  rfl

end BusMap

end Maxwell.Mme
