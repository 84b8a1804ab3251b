import Maxwell.Proofs.Mme.Step
import Maxwell.Proofs.Outcome

/-! What a run asks of its bus. A recorded bus answers like the bus itself, and its record of a run holds the
    requests of the instructions that were executed, in order. On a bus that fetches and reads leave as it
    is, making the sends of a run again, one after the other, has the same effect as the run. -/

namespace Maxwell.Mme

section
variable {ε β : Type} [Bus ε β]

/-! ### The requests of an instruction and of a run -/

/-- The requests of an operation: a read, then a send. -/
def Operation.events (operation : Operation) (m : Machine) (bus : β) : List BusEvent :=
  (operation.consults? m).toList.map (BusEvent.read · (operation.consult m bus).1) ++
    match operation.computes? m (operation.consult m bus).1 with
    | some c => (c.sent? m).toList.map (BusEvent.write (c.settle m).address.method)
    | none => []

def stepEvents (s : Machine × β) : List BusEvent :=
  .fetch s.1.pc :: (CodeWord.decode (Bus.fetch s.1.pc s.2).1).operation.events
    (s.1.advance (CodeWord.decode (Bus.fetch s.1.pc s.2).1)) (Bus.fetch s.1.pc s.2).2

/-- The requests of at most `limit` instructions. -/
def eventsFrom : (limit : Nat) → Machine × β → List BusEvent
  | 0, _ => []
  | limit + 1, s => stepEvents s ++
    match step s with
    | .ok false t => eventsFrom limit t
    | _ => []

/-- What a run asks of its bus, in order. -/
def asked (limit : Nat) (entry : Word) (arguments : List Word) (bus : β) : List BusEvent :=
  (stateOf (run limit entry arguments (⟨bus, []⟩ : Recorded β))).events.reverse

/-! ### Runs on a recorded bus -/

/-- The state on a recorded bus with `events` on record. -/
def onRecord (events : List BusEvent) (s : Machine × β) : Machine × Recorded β := (s.1, ⟨s.2, events⟩)

theorem consult_onRecord (operation : Operation) (m : Machine) (bus : β) (events : List BusEvent) :
    operation.consult m (⟨bus, events⟩ : Recorded β) = ((operation.consult m bus).1,
      ⟨(operation.consult m bus).2,
        (operation.consults? m).toList.map (BusEvent.read · (operation.consult m bus).1) ++ events⟩) := by
  unfold Operation.consult
  cases operation.consults? m <;> rfl

theorem deliver_onRecord (sent? : Option Word) (m : Machine) (bus : β) (events : List BusEvent) :
    deliver sent? (m, (⟨bus, events⟩ : Recorded β)) =
      through (onRecord (sent?.toList.map (BusEvent.write m.address.method) ++ events)) (deliver sent? (m, bus)) := by
  cases sent? with
  | none => rfl
  | some value =>
    show send value (m, (⟨bus, events⟩ : Recorded β)) =
      through (onRecord (.write m.address.method value :: events)) (send value (m, bus))
    simp only [send, Bus.write]
    cases Bus.write m.address.method value bus <;> rfl

theorem perform_onRecord (operation : Operation) (m : Machine) (bus : β) (events : List BusEvent) :
    operation.perform (m, (⟨bus, events⟩ : Recorded β)) =
      through (onRecord ((operation.events m bus).reverse ++ events)) (operation.perform (m, bus)) := by
  rw [Operation.perform_eq, Operation.perform_eq, consult_onRecord]
  simp only [Operation.events]
  cases operation.computes? m (operation.consult m bus).1 with
  | none => cases operation.consults? m <;> rfl
  | some c =>
    simp only [deliver_onRecord]
    cases operation.consults? m <;> cases c.sent? m <;> rfl

theorem fetch_onRecord (offset : CodeOffset) (bus : β) (events : List BusEvent) :
    Bus.fetch offset (⟨bus, events⟩ : Recorded β) =
      ((Bus.fetch offset bus).1, ⟨(Bus.fetch offset bus).2, .fetch offset :: events⟩) := rfl

/-- An instruction does on a recorded bus what it does on the bus, and its requests go on record. -/
theorem step_onRecord (s : Machine × β) (events : List BusEvent) :
    step (onRecord events s) = through (onRecord ((stepEvents s).reverse ++ events)) (step s) := by
  obtain ⟨m, bus⟩ := s
  rw [onRecord, step_eq, step_eq]
  simp only [fetch_onRecord, perform_onRecord, stepEvents, List.reverse_cons, List.append_assoc]
  cases Operation.perform _ (_, (Bus.fetch m.pc bus).2) <;> rfl

theorem runFrom_onRecord (limit : Nat) (s : Machine × β) (events : List BusEvent) :
    runFrom limit (onRecord events s) =
      through (onRecord ((eventsFrom limit s).reverse ++ events)) (runFrom limit s) := by
  induction limit generalizing s events with
  | zero => rfl
  | succ limit ih =>
    rw [runFrom_succ, step_onRecord, runFrom_succ, eventsFrom]
    cases step s with
    | error fault t => simp
    | ok finished t =>
      cases finished with
      | true => simp
      | false =>
        simp only [through_ok, ih, List.reverse_append, List.append_assoc]

/-- A run on an interpreter is one of a new machine, whatever its own machine was left with. -/
theorem execute_eq (interpreter : Interpreter) (entry : Word) (arguments : List Word) (bus : β) :
    execute entry arguments (interpreter, bus) = through (Prod.map (Interpreter.mk interpreter.stepLimit) id)
      (runFrom interpreter.stepLimit (Machine.start entry arguments, bus)) := by
  obtain ⟨stepLimit, machine⟩ := interpreter
  simp only [execute, Machine.prepare_eq_start]
  cases runFrom stepLimit (Machine.start entry arguments, bus) <;> rfl

theorem execute_eq_new (interpreter : Interpreter) (entry : Word) (arguments : List Word) (bus : β) :
    execute entry arguments (interpreter, bus) =
      execute entry arguments (({ stepLimit := interpreter.stepLimit } : Interpreter), bus) := by
  rw [execute_eq, execute_eq]

theorem through_execute (interpreter : Interpreter) (entry : Word) (arguments : List Word) (bus : β) :
    through Prod.snd (execute entry arguments (interpreter, bus)) = run interpreter.stepLimit entry arguments bus := by
  rw [run, execute_eq_new]
  cases execute entry arguments (({ stepLimit := interpreter.stepLimit } : Interpreter), bus) <;> rfl

theorem run_eq (limit : Nat) (entry : Word) (arguments : List Word) (bus : β) :
    run limit entry arguments bus = through Prod.snd (runFrom limit (Machine.start entry arguments, bus)) := by
  rw [← through_execute { stepLimit := limit }, execute_eq, through_through]
  rfl

/-- A run does on a recorded bus what it does on the bus, and its requests go on record. -/
theorem run_onRecord (limit : Nat) (entry : Word) (arguments : List Word) (bus : β) (events : List BusEvent) :
    run limit entry arguments (⟨bus, events⟩ : Recorded β) =
      through (fun bus' => ⟨bus', (eventsFrom limit (Machine.start entry arguments, bus)).reverse ++ events⟩)
        (run limit entry arguments bus) := by
  rw [run_eq, run_eq]
  show through Prod.snd (runFrom limit (onRecord events (Machine.start entry arguments, bus))) = _
  rw [runFrom_onRecord]
  cases runFrom limit (Machine.start entry arguments, bus) <;> rfl

theorem asked_eq (limit : Nat) (entry : Word) (arguments : List Word) (bus : β) :
    asked limit entry arguments bus = eventsFrom limit (Machine.start entry arguments, bus) := by
  rw [asked, run_onRecord, stateOf_through, List.append_nil, List.reverse_reverse]

/-! ### Sends -/

def BusEvent.send? : BusEvent → Option (Nat × Word)
  | .write method value => some (method, value)
  | .fetch _ | .read _ _ => none

/-- The sends of a run, in order. One that failed is the last. -/
def sends (limit : Nat) (entry : Word) (arguments : List Word) (bus : β) : List (Nat × Word) :=
  (asked limit entry arguments bus).filterMap BusEvent.send?

def makeSend (s : Nat × Word) : EStateM ε β Unit := Bus.write s.1 s.2

variable (ε β) in
/-- A bus that only sends change. -/
structure Quiet : Prop where
  fetch : ∀ offset (bus : β), (Bus.fetch offset bus).2 = bus
  read : ∀ method (bus : β), (Bus.read method bus).2 = bus

theorem filterMap_send?_read (asked? : Option Nat) (answer : Word) :
    (asked?.toList.map (BusEvent.read · answer)).filterMap BusEvent.send? = [] := by
  cases asked? <;> rfl

theorem filterMap_send?_write (sent? : Option Word) (method : Nat) :
    (sent?.toList.map (BusEvent.write method)).filterMap BusEvent.send? =
      sent?.toList.map (Prod.mk method) := by
  cases sent? <;> rfl

theorem forM_deliver (sent? : Option Word) (m : Machine) (bus : β) :
    (sent?.toList.map (Prod.mk m.address.method.val)).forM makeSend bus =
      through Prod.snd (deliver sent? (m, bus)) := by
  cases sent? with
  | none => rfl
  | some value =>
    show [(m.address.method.val, value)].forM makeSend bus = through Prod.snd (send value (m, bus))
    rw [forM_singleton_apply]
    simp only [makeSend, send]
    cases Bus.write m.address.method.val value bus <;> rfl

namespace Quiet
variable (quiet : Quiet ε β)
include quiet

theorem consult (operation : Operation) (m : Machine) (bus : β) : (operation.consult m bus).2 = bus := by
  unfold Operation.consult
  cases operation.consults? m with
  | none => rfl
  | some method => exact quiet.read method bus

theorem forM_step (s : Machine × β) :
    ((stepEvents s).filterMap BusEvent.send?).forM makeSend s.2 = settled (through Prod.snd (step s)) := by
  obtain ⟨m, bus⟩ := s
  rw [step_eq, Operation.perform_eq, quiet.consult, quiet.fetch]
  simp only [stepEvents, Operation.events, quiet.fetch]
  rw [List.filterMap_cons_none rfl, List.filterMap_append, filterMap_send?_read, List.nil_append]
  cases Operation.computes? _ _ _ with
  | none => rfl
  | some c =>
    simp only [filterMap_send?_write, forM_deliver]
    split <;> rename_i h <;> rw [h] <;> rfl

/-- The sends of a run, made one after the other, change the bus as the run does. -/
theorem forM_runFrom (limit : Nat) (s : Machine × β) :
    ((eventsFrom limit s).filterMap BusEvent.send?).forM makeSend s.2 =
      settled (through Prod.snd (runFrom limit s)) := by
  induction limit generalizing s with
  | zero => rfl
  | succ limit ih =>
    rw [eventsFrom, List.filterMap_append, forM_append_apply, quiet.forM_step, runFrom_succ]
    cases step s with
    | error fault t => rfl
    | ok finished t =>
      cases finished with
      | true => rfl
      | false => exact ih t

theorem forM_sends (limit : Nat) (entry : Word) (arguments : List Word) (bus : β) :
    (sends limit entry arguments bus).forM makeSend bus = settled (run limit entry arguments bus) := by
  rw [sends, asked_eq, run_eq]
  exact quiet.forM_runFrom limit (Machine.start entry arguments, bus)

end Quiet

end

end Maxwell.Mme
