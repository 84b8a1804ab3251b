import Maxwell.Proofs.Mme.Displacement

/-! The arguments of a run are a stream that goes on with zeros. The instructions that fetch take its values one after
    the other, whatever is executed between them, and zeros after the last argument change nothing. -/

namespace Maxwell.Mme

/-! ### Instructions that fetch -/

/-- Whether a result operation fetches an argument. -/
def ResultOp.fetches : ResultOp → Bool
  | .ignoreAndFetch | .fetchAndSend | .fetchAndSetMethod | .moveAndSetMethodFetchAndSend => true
  | .move | .moveAndSetMethod | .moveAndSend | .moveAndSetMethodSend => false

theorem ResultOp.arguments_settle (op : ResultOp) (target : RegisterId) (value : Word) (m : Machine) :
    (op.settle target value m).arguments = if op.fetches then m.arguments.tail else m.arguments := by
  cases op <;> simp [settle, fetches, Machine.fetchTo, Machine.setMethod]

section
variable {ε β : Type} [Bus ε β]

def fetchesAt (s : Machine × β) : Bool := (computedAt? s).any (·.op.fetches)

/-- What the instruction of a state does with the argument that it fetches: it sends it to the method that it sets, or
    else leaves it in its target register. -/
def Yields (s : Machine × β) (argument : Word) : Prop :=
  ∃ c, computedAt? s = some c ∧
    match c.op with
    | .moveAndSetMethodFetchAndSend =>
      (stepEvents s).filterMap BusEvent.send? = [((MethodAddress.ofWord c.value).method.val, argument)]
    | _ => c.target.val ≠ 0 → (stateOf (step s)).1.get c.target = argument

theorem arguments_step (s : Machine × β) :
    (stateOf (step s)).1.arguments = if fetchesAt s then s.1.arguments.tail else s.1.arguments := by
  obtain ⟨address, hstep⟩ := stateOf_step s
  rw [hstep]
  cases hc : computedAt? s with
  | none => simp [settledAt, fetchesAt, hc]
  | some c =>
    have hsettle := c.op.arguments_settle c.target c.value { s.1.advance (instructionAt s) with carry := c.carry }
    rw [settledAt_eq hc, fetchesAt, hc, Option.any_some]
    simpa [Computed.settle] using hsettle

/-- An instruction that fetches has the first of the arguments that are left. -/
theorem yields_headD {s : Machine × β} (h : fetchesAt s = true) : Yields s (s.1.arguments.headD 0) := by
  obtain ⟨c, hc, hfetches⟩ := (Option.any_eq_true _ _).mp h
  refine ⟨c, hc, ?_⟩
  obtain ⟨address, hstep⟩ := stateOf_step s
  have hfetchTo (ht : c.target.val ≠ 0) :
      (({ s.1.advance (instructionAt s) with carry := c.carry } : Machine).fetchTo c.target).get c.target =
        s.1.arguments.headD 0 := by
    refine (Machine.get_set_self _ _ (Fin.val_ne_zero_iff.mp ht)).trans ?_
    exact congrArg (·.headD 0) (s.1.arguments_advance _)
  have hsend : (s.1.advance (instructionAt s)).arguments.headD 0 = s.1.arguments.headD 0 := by
    rw [Machine.arguments_advance]
  rw [hstep, filterMap_send?_stepEvents, sentAt?, hc, settledAt_eq hc]
  obtain ⟨op, target, value, carry⟩ := c
  cases op with
  | ignoreAndFetch => exact hfetchTo
  | fetchAndSend => exact hfetchTo
  | fetchAndSetMethod => exact hfetchTo
  | moveAndSetMethodFetchAndSend => exact congrArg (fun argument => [(_, argument)]) hsend
  | move => cases hfetches
  | moveAndSetMethod => cases hfetches
  | moveAndSend => cases hfetches
  | moveAndSetMethodSend => cases hfetches

/-! ### The stream -/

/-- One argument is gone for each instruction that fetched before. -/
theorem arguments_of_fetchesAt {limit j : Nat} {s t : Machine × β}
    (h : ((statesFrom limit s).filter fetchesAt)[j]? = some t) : t.1.arguments = s.1.arguments.drop j := by
  -- On the run: the later states begin with what the first leaves of the arguments, and `j` counts the first if it
  -- fetches.
  induction limit generalizing s j with
  | zero => cases h
  | succ limit ih =>
    obtain ⟨rest, hstates, hrest⟩ := statesFrom_succ limit s
    have hlater {i : Nat} (h : (rest.filter fetchesAt)[i]? = some t) :
        t.1.arguments = (if fetchesAt s then s.1.arguments.tail else s.1.arguments).drop i := by
      rcases hrest with rfl | ⟨u, hu, rfl⟩
      · cases h
      · have hstep := arguments_step s
        rw [hu] at hstep
        rw [← hstep]
        exact ih h
    rw [hstates] at h
    cases hfetches : fetchesAt s with
    | false =>
      rw [List.filter_cons_of_neg (by simp [hfetches])] at h
      simpa [hfetches] using hlater h
    | true =>
      rw [List.filter_cons_of_pos hfetches] at h
      cases j with
      | zero =>
        cases h
        rfl
      | succ j => simpa [hfetches] using hlater h

theorem yields_of_fetchesAt {limit j : Nat} {s t : Machine × β}
    (h : ((statesFrom limit s).filter fetchesAt)[j]? = some t) : Yields t (s.1.arguments.getD j 0) := by
  obtain ⟨-, hfetches⟩ := List.mem_filter.mp (List.mem_of_getElem? h)
  have hyields := yields_headD hfetches
  rw [arguments_of_fetchesAt h] at hyields
  simpa [List.headD_eq_head?_getD, List.head?_drop] using hyields

/-! ### Zeros after the last argument -/

theorem sameStream_append_replicate (arguments : List Word) (n : Nat) :
    SameStream arguments (arguments ++ List.replicate n 0) := by
  intro i
  simp only [List.getD_eq_getElem?_getD]
  rcases Nat.lt_or_ge i arguments.length with hlt | hge
  · rw [List.getElem?_append_left hlt]
  · rw [List.getElem?_append_right hge, List.getElem?_eq_none hge, List.getElem?_replicate]
    split <;> rfl

theorem BusEvent.moved_zero : moved 0 = id := by
  funext event
  cases event with
  | fetch offset => exact congrArg BusEvent.fetch (Fin.add_zero offset)
  | read method value => rfl
  | write method value => rfl

theorem displaced_zero : Displaced 0 (Eq : β → β → Prop) where
  fetch hbc offset := by
    rw [hbc, Fin.add_zero]
    exact ⟨rfl, rfl⟩
  read hbc method := by
    rw [hbc]
    exact ⟨rfl, rfl⟩
  write hbc method value := .of_eq (by rw [hbc])

theorem counterparts_append_replicate (entry : Word) (arguments : List Word) (n : Nat) (bus : β) :
    Counterparts 0 Eq (Machine.start entry arguments, bus)
      (Machine.start entry (arguments ++ List.replicate n 0), bus) := by
  have hstart := counterpart_start entry 0 (sameStream_append_replicate arguments n)
  rw [UInt32.add_zero] at hstart
  exact ⟨hstart, rfl⟩

/-- The arguments of a run are a stream that goes on with zeros. Register 1 starts with the first of them, and the
    instruction that is the next to fetch has the next of them. So zeros after the last argument change nothing: the
    run makes the same requests with the same answers, leaves the bus and the scratch registers the same, and ends in
    the same way. -/
theorem arguments_as_stream (limit : Nat) (entry : Word) (arguments : List Word) (bus : β) :
    (Machine.start entry arguments).get 1 = arguments.getD 0 0 ∧
    (∀ (j : Nat) (s : Machine × β),
      ((statesFrom limit (Machine.start entry arguments, bus)).filter fetchesAt)[j]? = some s →
        Yields s (arguments.getD (j + 1) 0)) ∧
    ∀ n, asked limit entry (arguments ++ List.replicate n 0) bus = asked limit entry arguments bus ∧
      run limit entry (arguments ++ List.replicate n 0) bus = run limit entry arguments bus ∧
      through (fun s => s.1.scratch) (runFrom limit (Machine.start entry (arguments ++ List.replicate n 0), bus)) =
        through (fun s => s.1.scratch) (runFrom limit (Machine.start entry arguments, bus)) := by
  refine ⟨?_, fun j s hs => ?_, fun n => ?_⟩
  · cases arguments <;> rfl
  · have hyields := yields_of_fetchesAt hs
    have htail : (Machine.start entry arguments).arguments = arguments.tail := rfl
    rw [htail] at hyields
    simpa using hyields
  · obtain ⟨hrun, hevents⟩ := displaced_zero.runFrom limit (counterparts_append_replicate entry arguments n bus)
    rw [asked_eq, asked_eq, run_eq, run_eq, hevents, BusEvent.moved_zero, List.map_id]
    exact ⟨rfl, (hrun.map fun _ _ h => h.bus).eq.symm, (hrun.map fun _ _ h => h.machine.scratch.symm).eq.symm⟩

end
end Maxwell.Mme
