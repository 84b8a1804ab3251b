import Maxwell.Proofs.Mme.Flow

/-! The limit of a run. A run with a longer limit goes on from the state in which a shorter limit stops it, and is no
    other run if the shorter limit does not stop it. -/

namespace Maxwell.Mme

section
variable {ε β : Type} [Bus ε β]

/-! ### Runs in two parts -/

theorem runFrom_add (limit more : Nat) (s : Machine × β) :
    runFrom (limit + more) s = match runFrom limit s with
      | .ok .stepLimitReached t => runFrom more t
      | outcome => outcome := by
  induction limit generalizing s with
  | zero =>
    rw [Nat.zero_add]
    rfl
  | succ limit ih =>
    rw [Nat.add_right_comm, runFrom_succ, runFrom_succ]
    rcases step s with ⟨_ | _, t⟩ | ⟨fault, t⟩
    · exact ih t
    · rfl
    · rfl

theorem statesFrom_add (limit more : Nat) (s : Machine × β) :
    statesFrom (limit + more) s = statesFrom limit s ++ match runFrom limit s with
      | .ok .stepLimitReached t => statesFrom more t
      | _ => [] := by
  induction limit generalizing s with
  | zero =>
    rw [Nat.zero_add]
    rfl
  | succ limit ih =>
    rw [Nat.add_right_comm, statesFrom, statesFrom, runFrom_succ, List.cons_append]
    rcases step s with ⟨_ | _, t⟩ | ⟨fault, t⟩
    · exact congrArg (s :: ·) (ih t)
    · rfl
    · rfl

theorem eventsFrom_add (limit more : Nat) (s : Machine × β) :
    eventsFrom (limit + more) s = eventsFrom limit s ++ match runFrom limit s with
      | .ok .stepLimitReached t => eventsFrom more t
      | _ => [] := by
  rw [eventsFrom_eq, eventsFrom_eq, statesFrom_add, List.flatMap_append]
  split
  · rw [eventsFrom_eq]
  · rfl

/-- The state after `count` instructions of a run: the one in which the next instruction is executed, or the last. -/
def stateAfter (count limit : Nat) (s : Machine × β) : Machine × β :=
  (statesFrom limit s)[count]?.getD (stateOf (runFrom limit s))

theorem stateAfter_add {limit : Nat} {s t : Machine × β} (h : runFrom limit s = .ok .stepLimitReached t) (more : Nat) :
    stateAfter limit (limit + more) s = t := by
  obtain ⟨hlength, -⟩ := ending_of_runFrom h
  have hstates : (statesFrom (limit + more) s)[limit]? = (statesFrom more t)[0]? := by
    rw [statesFrom_add, h, List.getElem?_append_right (by omega), hlength, Nat.sub_self]
  rw [stateAfter, hstates, runFrom_add, h]
  cases more <;> rfl

/-! ### The limit -/

theorem length_fetched_eventsFrom (limit : Nat) (s : Machine × β) :
    ((eventsFrom limit s).filterMap BusEvent.fetched?).length = (statesFrom limit s).length := by
  rw [filterMap_fetched?_eventsFrom, List.length_map]

theorem head?_eventsFrom (limit : Nat) (s : Machine × β) :
    ∀ event ∈ (eventsFrom limit s).head?, ∃ offset, event = .fetch offset := by
  intro event hevent
  cases limit with
  | zero => cases hevent
  | succ limit =>
    cases hevent
    exact ⟨s.1.pc, rfl⟩

/-- A limit only cuts a run short. A run fetches no more instructions than its limit, and as many as that if the limit
    stops it. Then a run with a longer limit first asks for the same, next fetches an instruction if it asks for
    anything more, and after as many instructions is in the state in which the shorter run was left. A run that exits or
    fails is the same with every longer limit. -/
theorem run_add (limit more : Nat) (entry : Word) (arguments : List Word) (bus : β) :
    ((asked limit entry arguments bus).filterMap BusEvent.fetched?).length ≤ limit ∧
    match run limit entry arguments bus with
    | .ok .stepLimitReached bus' =>
      ((asked limit entry arguments bus).filterMap BusEvent.fetched?).length = limit ∧
      (∃ rest, asked (limit + more) entry arguments bus = asked limit entry arguments bus ++ rest ∧
        ∀ event ∈ rest.head?, ∃ offset, event = .fetch offset) ∧
      ∃ m, runFrom limit (Machine.start entry arguments, bus) = .ok .stepLimitReached (m, bus') ∧
        stateAfter limit (limit + more) (Machine.start entry arguments, bus) = (m, bus')
    | outcome =>
      run (limit + more) entry arguments bus = outcome ∧
      asked (limit + more) entry arguments bus = asked limit entry arguments bus := by
  rw [run_eq, run_eq, asked_eq, asked_eq, length_fetched_eventsFrom, runFrom_add, eventsFrom_add]
  refine ⟨length_statesFrom_le limit _, ?_⟩
  cases h : runFrom limit (Machine.start entry arguments, bus) with
  | error fault s => exact ⟨rfl, List.append_nil _⟩
  | ok ending s =>
    cases ending with
    | exited => exact ⟨rfl, List.append_nil _⟩
    | stepLimitReached =>
      obtain ⟨hlength, -⟩ := ending_of_runFrom h
      exact ⟨hlength, ⟨_, rfl, head?_eventsFrom more s⟩, s.1, rfl, stateAfter_add h more⟩

end

end Maxwell.Mme
