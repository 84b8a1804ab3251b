import Maxwell.Proofs.Mme.Record

/-! What one instruction of a run does, told from the state in which it is executed: what it computes, the machine it
    leaves, and what it sends. -/

namespace Maxwell.Mme

/-! ### Parts of a machine -/

namespace Machine
variable (m : Machine) (r : RegisterId) (value : Word) (i : Instruction)

@[simp] theorem arguments_set : (m.set r value).arguments = m.arguments := by
  unfold set
  split <;> rfl

@[simp] theorem address_set : (m.set r value).address = m.address := by
  unfold set
  split <;> rfl

@[simp] theorem arguments_advance : (m.advance i).arguments = m.arguments := by
  unfold advance
  split <;> rfl

@[simp] theorem address_advance : (m.advance i).address = m.address := by
  unfold advance
  split <;> rfl

theorem get_set_self {r : RegisterId} (hr : r ≠ 0) : (m.set r value).get r = value := by
  simp [get, set, hr]

end Machine

/-! ### The instruction of a state -/

section
variable {ε β : Type} [Bus ε β]

/-- The instruction that is executed in a state. -/
def instructionAt (s : Machine × β) : Instruction := CodeWord.decode (Bus.fetch s.1.pc s.2).1

def consultedAt? (s : Machine × β) : Option Nat :=
  (instructionAt s).operation.consults? (s.1.advance (instructionAt s))

/-- The answer to its read, zero if it reads nothing, and the bus before its send. -/
def answerAt (s : Machine × β) : Word × β :=
  (instructionAt s).operation.consult (s.1.advance (instructionAt s)) (Bus.fetch s.1.pc s.2).2

def computedAt? (s : Machine × β) : Option Computed :=
  (instructionAt s).operation.computes? (s.1.advance (instructionAt s)) (answerAt s).1

/-- The machine that it leaves, at the address where its send goes. -/
def settledAt (s : Machine × β) : Machine :=
  match computedAt? s with
  | some c => c.settle (s.1.advance (instructionAt s))
  | none => s.1.advance (instructionAt s)

def sentAt? (s : Machine × β) : Option Word :=
  (computedAt? s).bind fun c => c.sent? (s.1.advance (instructionAt s))

theorem settledAt_eq {s : Machine × β} {c : Computed} (h : computedAt? s = some c) :
    settledAt s = c.settle (s.1.advance (instructionAt s)) := by
  rw [settledAt, h]

theorem perform_instructionAt (s : Machine × β) :
    (instructionAt s).operation.perform (s.1.advance (instructionAt s), (Bus.fetch s.1.pc s.2).2) =
      deliver (sentAt? s) (settledAt s, (answerAt s).2) := by
  rw [Operation.perform_eq]
  unfold sentAt? settledAt computedAt? answerAt
  split <;> rename_i hc <;> rw [hc] <;> rfl

theorem step_eq_deliver (s : Machine × β) :
    step s = match deliver (sentAt? s) (settledAt s, (answerAt s).2) with
      | .ok _ t => .ok s.1.finishes t
      | .error fault t => .error fault t := by
  rw [← perform_instructionAt]
  exact step_eq s.1 s.2

/-- A send changes nothing of the machine but its address. -/
theorem stateOf_step (s : Machine × β) :
    ∃ address, (stateOf (step s)).1 = { settledAt s with address } := by
  rw [step_eq_deliver]
  cases sentAt? s with
  | none => exact ⟨_, rfl⟩
  | some value =>
    simp only [deliver, send]
    cases Bus.write (settledAt s).address.method.val value (answerAt s).2 <;> exact ⟨_, rfl⟩

/-- The address moves on after a send that was made. -/
theorem address_step {s t : Machine × β} {finished : Bool} (h : step s = .ok finished t) :
    t.1.address = if (sentAt? s).isSome then (settledAt s).address.next else (settledAt s).address := by
  rw [step_eq_deliver] at h
  cases hsent : sentAt? s with
  | none =>
    rw [hsent] at h
    cases h
    rfl
  | some value =>
    rw [hsent] at h
    simp only [deliver, send] at h
    split at h <;> rename_i hsend
    · split at hsend <;> cases hsend
      cases h
      rfl
    · cases h

theorem events_instructionAt (s : Machine × β) :
    (instructionAt s).operation.events (s.1.advance (instructionAt s)) (Bus.fetch s.1.pc s.2).2 =
      (consultedAt? s).toList.map (BusEvent.read · (answerAt s).1) ++
        (sentAt? s).toList.map (BusEvent.write (settledAt s).address.method) := by
  unfold Operation.events sentAt? settledAt computedAt? consultedAt? answerAt
  split <;> rename_i hc <;> rw [hc] <;> rfl

theorem stepEvents_eq (s : Machine × β) :
    stepEvents s = .fetch s.1.pc :: ((consultedAt? s).toList.map (BusEvent.read · (answerAt s).1) ++
      (sentAt? s).toList.map (BusEvent.write (settledAt s).address.method)) :=
  congrArg (BusEvent.fetch s.1.pc :: ·) (events_instructionAt s)

theorem filterMap_send?_stepEvents (s : Machine × β) :
    (stepEvents s).filterMap BusEvent.send? = (sentAt? s).toList.map (Prod.mk (settledAt s).address.method.val) := by
  rw [stepEvents_eq, List.filterMap_cons_none rfl, List.filterMap_append, filterMap_send?_read, filterMap_send?_write,
    List.nil_append]

end

end Maxwell.Mme
