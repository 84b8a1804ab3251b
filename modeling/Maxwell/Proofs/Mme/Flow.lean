import Maxwell.Proofs.Mme.Record

/-! The flow of control of a macro. A run is looked at as the list of the instructions it executed, and the
    delay slots are told from that list alone: an instruction outside a delay slot that is a taken branch and
    not annulled, or an exit and not a taken branch, makes the next one a delay slot. From the slots follow
    the place of every instruction and where the run ends. -/

namespace Maxwell.Mme

/-! ### What a run executed -/

/-- A branch that is taken: by what distance, and whether without a delay slot. -/
structure Jump where
  annul : Bool
  distance : Int

/-- The jump of an instruction whose condition holds. -/
def Instruction.jump? (i : Instruction) (m : Machine) : Option Jump :=
  match i.operation with
  | .branch condition annul source offset =>
    if condition.holds (m.get source) then some ⟨annul, offset.toInt⟩ else none
  | _ => none

/-- An instruction of a run: where it was fetched, whether it has the exit bit, and the jump it makes if no
    delay slot hinders it. -/
structure Executed where
  offset : CodeOffset
  exit : Bool
  jump? : Option Jump

/-- Whether an instruction makes the next one a delay slot, if it is not in one itself. -/
def Executed.hasSlot (x : Executed) : Bool :=
  match x.jump? with
  | some jump => !jump.annul
  | none => x.exit

section
variable {ε β : Type} [Bus ε β]

/-- The states in which the instructions of a run are executed. -/
def statesFrom : (limit : Nat) → Machine × β → List (Machine × β)
  | 0, _ => []
  | limit + 1, s => s ::
    match step s with
    | .ok false t => statesFrom limit t
    | _ => []

def observe (s : Machine × β) : Executed where
  offset := s.1.pc
  exit := (CodeWord.decode (Bus.fetch s.1.pc s.2).1).exit
  jump? := (CodeWord.decode (Bus.fetch s.1.pc s.2).1).jump? s.1

/-- The instructions of a run, in order. One whose send failed is the last. -/
def executed (limit : Nat) (entry : Word) (arguments : List Word) (bus : β) : List Executed :=
  (statesFrom limit (Machine.start entry arguments, bus)).map observe

end

/-! ### The rules of delay slots -/

/-- Whether instruction `k` of a run is a delay slot. -/
def inSlot (e : List Executed) : Nat → Bool
  | 0 => false
  | k + 1 => !inSlot e k && e[k]?.any Executed.hasSlot

/-- Whether instruction `k` is an exit that counts: in no delay slot, and not a taken branch. -/
def exitsAt (e : List Executed) (k : Nat) : Bool :=
  !inSlot e k && e[k]?.any fun x => x.exit && x.jump?.isNone

/-- The jump that takes effect after instruction `k`, with the place it starts from: in a delay slot the one of
    the branch before it, and elsewhere its own if that is annulled. -/
def jumpAfter? (e : List Executed) (k : Nat) : Option (CodeOffset × Int) :=
  if inSlot e k then e[k - 1]?.bind fun x => x.jump?.map fun jump => (x.offset, jump.distance)
  else e[k]?.bind fun x => (x.jump?.filter Jump.annul).map fun jump => (x.offset, jump.distance)

/-- What stage `k` of a run is, told from its instructions. -/
def StageAt (e : List Executed) (k : Nat) : Stage → Prop
  | .plain => inSlot e k = false
  | .branchSlot target => ∃ j x jump, k = j + 1 ∧ inSlot e j = false ∧ e[j]? = some x ∧ x.jump? = some jump ∧
      jump.annul = false ∧ target = x.offset.jump jump.distance
  | .exitSlot => ∃ j, k = j + 1 ∧ exitsAt e j = true

theorem inSlot_of_exitsAt {e : List Executed} {k : Nat} (h : exitsAt e k = true) : inSlot e (k + 1) = true := by
  simp only [exitsAt, Bool.and_eq_true, Option.any_eq_true] at h
  obtain ⟨hk, x, hx, hexit, hnone⟩ := h
  rw [inSlot, hk, hx, Option.any_some, Bool.true_and, Executed.hasSlot, Option.isNone_iff_eq_none.mp hnone]
  exact hexit

namespace StageAt
variable {e : List Executed} {k : Nat}

theorem inSlot_branchSlot {target : CodeOffset} (h : StageAt e k (.branchSlot target)) : inSlot e k = true := by
  obtain ⟨j, x, jump, rfl, hj, hx, hjump, hannul, -⟩ := h
  simp [inSlot, hj, hx, Executed.hasSlot, hjump, hannul]

theorem jumpAfter?_branchSlot {target : CodeOffset} (h : StageAt e k (.branchSlot target)) :
    ∃ source distance, jumpAfter? e k = some (source, distance) ∧ target = source.jump distance := by
  have hslot := h.inSlot_branchSlot
  obtain ⟨j, x, jump, rfl, hj, hx, hjump, hannul, htarget⟩ := h
  refine ⟨x.offset, jump.distance, ?_, htarget⟩
  rw [jumpAfter?, if_pos hslot, Nat.add_sub_cancel, hx, Option.bind_some, hjump, Option.map_some]

/-- After an exit that counts comes its delay slot. -/
theorem eq_exitSlot {stage : Stage} (h : StageAt e (k + 1) stage) (hexit : exitsAt e k = true) : stage = .exitSlot := by
  cases stage with
  | exitSlot => rfl
  | plain =>
    rw [StageAt, inSlot_of_exitsAt hexit] at h
    cases h
  | branchSlot target =>
    obtain ⟨j, x, jump, hj, -, hx, hjump, -, -⟩ := h
    obtain rfl : k = j := Nat.succ.inj hj
    simp [exitsAt, hx, hjump] at hexit

end StageAt

/-! ### Where an instruction leads -/

theorem coe_jump (pc : CodeOffset) (distance : Int) :
    ((pc.jump distance).val : Int) = (pc.val + distance) % codeSize := by
  have hpos : 0 ≤ ((pc.val : Int) + distance) % codeSize := Int.emod_nonneg _ (by decide)
  have hlt : ((pc.val : Int) + distance) % codeSize < codeSize := Int.emod_lt_of_pos _ (by decide)
  show (((((pc.val : Int) + distance) % codeSize).toNat % codeSize : Nat) : Int) = _
  rw [Nat.mod_eq_of_lt (by omega)]
  omega

theorem Instruction.next_eq (i : Instruction) (m : Machine) :
    i.next m = match i.jump? m with
      | some jump =>
        if jump.annul then (m.pc.jump jump.distance, .plain)
        else (m.pc.jump 1, .branchSlot (m.pc.jump jump.distance))
      | none => (m.pc.jump 1, if i.exit then .exitSlot else .plain) := by
  obtain ⟨operation, exit⟩ := i
  cases operation with
  | branch condition annul source offset =>
    simp only [Instruction.next, Instruction.jump?]
    by_cases hc : condition.holds (m.get source) = true <;> simp only [hc] <;> rfl
  | _ => rfl

section
variable {ε β : Type} [Bus ε β]

/-! ### The states of a run -/

theorem getElem?_statesFrom_zero {limit : Nat} {s t : Machine × β} (h : (statesFrom limit s)[0]? = some t) :
    t = s := by
  cases limit with
  | zero => simp [statesFrom] at h
  | succ limit =>
    rw [statesFrom, List.getElem?_cons_zero] at h
    exact (Option.some.inj h).symm

theorem statesFrom_succ (limit : Nat) (s : Machine × β) : ∃ rest, statesFrom (limit + 1) s = s :: rest ∧
    (rest = [] ∨ ∃ t, step s = .ok false t ∧ rest = statesFrom limit t) := by
  rw [statesFrom]
  refine ⟨_, rfl, ?_⟩
  rcases step s with ⟨_ | _, t⟩ | ⟨fault, t⟩
  · exact Or.inr ⟨t, rfl, rfl⟩
  · exact Or.inl rfl
  · exact Or.inl rfl

theorem step_of_getElem? {limit k : Nat} {s t u : Machine × β} (ht : (statesFrom limit s)[k]? = some t)
    (hu : (statesFrom limit s)[k + 1]? = some u) : step t = .ok false u := by
  -- On the run, with the index: the next state of the list is there only if the step left one.
  induction limit generalizing k s with
  | zero => simp [statesFrom] at ht
  | succ limit ih =>
    obtain ⟨rest, hstates, hrest⟩ := statesFrom_succ limit s
    rw [hstates] at ht hu
    rw [List.getElem?_cons_succ] at hu
    rcases hrest with rfl | ⟨v, hv, rfl⟩
    · simp at hu
    cases k with
    | zero =>
      cases ht
      obtain rfl := getElem?_statesFrom_zero hu
      exact hv
    | succ k => exact ih ht hu

theorem length_statesFrom_le (limit : Nat) (s : Machine × β) : (statesFrom limit s).length ≤ limit := by
  induction limit generalizing s with
  | zero => exact Nat.le_refl 0
  | succ limit ih =>
    obtain ⟨rest, hstates, rfl | ⟨t, -, rfl⟩⟩ := statesFrom_succ limit s <;> rw [hstates, List.length_cons]
    · exact Nat.succ_le_succ (Nat.zero_le limit)
    · exact Nat.succ_le_succ (ih t)

/-- The run is over after the delay slot of an exit. -/
theorem length_of_exitSlot {limit k : Nat} {s t : Machine × β} (ht : (statesFrom limit s)[k]? = some t)
    (hstage : t.1.stage = .exitSlot) : (statesFrom limit s).length = k + 1 := by
  obtain ⟨hk, -⟩ := List.getElem?_eq_some_iff.mp ht
  rcases Nat.eq_or_lt_of_le hk with heq | hlt
  · exact heq.symm
  have hstep := step_of_getElem? ht (List.getElem?_eq_getElem hlt)
  obtain ⟨-, -, hfinished⟩ := step_flow hstep
  rw [Machine.finishes, hstage] at hfinished
  cases hfinished

/-- A run that ends otherwise than by a fault has executed the delay slot of an exit, or all instructions it
    was allowed and no such slot. -/
theorem ending_of_runFrom {limit : Nat} {s t : Machine × β} {ending : Ending} (h : runFrom limit s = .ok ending t) :
    match ending with
    | .exited => ∃ (k : Nat) (u : Machine × β), (statesFrom limit s)[k]? = some u ∧ u.1.stage = .exitSlot
    | .stepLimitReached => (statesFrom limit s).length = limit ∧ ∀ u ∈ statesFrom limit s, u.1.stage ≠ .exitSlot := by
  induction limit generalizing s with
  | zero =>
    cases h
    exact ⟨rfl, fun u hu => by simp [statesFrom] at hu⟩
  | succ limit ih =>
    rw [runFrom_succ] at h
    split at h
    · rename_i u hu
      cases h
      obtain ⟨-, -, hfinished⟩ := step_flow hu
      refine ⟨0, s, rfl, ?_⟩
      unfold Machine.finishes at hfinished
      split at hfinished
      · assumption
      · cases hfinished
      · cases hfinished
    · rename_i u hu
      obtain ⟨-, -, hfinished⟩ := step_flow hu
      have hstates : statesFrom (limit + 1) s = s :: statesFrom limit u := by rw [statesFrom, hu]
      have hrest := ih h
      rw [hstates]
      cases ending with
      | exited =>
        obtain ⟨k, v, hv, hstage⟩ := hrest
        exact ⟨k + 1, v, hv, hstage⟩
      | stepLimitReached =>
        refine ⟨congrArg Nat.succ hrest.1, fun v hv => ?_⟩
        rcases List.mem_cons.mp hv with rfl | hv
        · intro hstage
          rw [Machine.finishes, hstage] at hfinished
          cases hfinished
        · exact hrest.2 v hv
    · cases h

/-! ### The stage of every instruction -/

theorem getElem?_observe {states : List (Machine × β)} {k : Nat} {t : Machine × β} (h : states[k]? = some t) :
    (states.map observe)[k]? = some (observe t) := by
  rw [List.getElem?_map, h, Option.map_some]

/-- What the next instruction is follows from the stage and the instruction executed in it. -/
theorem StageAt.succ {e : List Executed} {k : Nat} {t u : Machine × β} (hx : e[k]? = some (observe t))
    (h : StageAt e k t.1.stage) (hstep : step t = .ok false u) : StageAt e (k + 1) u.1.stage := by
  obtain ⟨m, bus⟩ := t
  obtain ⟨-, hstage, hfinished⟩ := step_flow hstep
  rw [hstage]
  unfold Machine.advance
  unfold Machine.finishes at hfinished
  cases hm : m.stage with
  | exitSlot =>
    rw [hm] at hfinished
    cases hfinished
  | branchSlot target =>
    rw [hm] at h
    show inSlot e (k + 1) = false
    rw [inSlot, h.inSlot_branchSlot, Bool.not_true, Bool.false_and]
  | plain =>
    have hplain : inSlot e k = false := by rwa [hm] at h
    have hnext : inSlot e (k + 1) = (observe (m, bus)).hasSlot := by
      rw [inSlot, hplain, hx, Option.any_some, Bool.not_false, Bool.true_and]
    dsimp only
    rw [Instruction.next_eq]
    cases hjump : (CodeWord.decode (Bus.fetch m.pc bus).1).jump? m with
    | none =>
      cases hexit : (CodeWord.decode (Bus.fetch m.pc bus).1).exit with
      | true => exact ⟨k, rfl, by simp [exitsAt, hplain, hx, observe, hjump, hexit]⟩
      | false =>
        show inSlot e (k + 1) = false
        rw [hnext]
        simp [Executed.hasSlot, observe, hjump, hexit]
    | some jump =>
      cases hannul : jump.annul with
      | true =>
        simp only [hannul, if_true]
        show inSlot e (k + 1) = false
        rw [hnext]
        simp [Executed.hasSlot, observe, hjump, hannul]
      | false =>
        simp only [hannul, Bool.false_eq_true, if_false]
        exact ⟨k, observe (m, bus), jump, rfl, hplain, hx, hjump, hannul, rfl⟩

theorem stageAt_of_getElem? {limit : Nat} {s : Machine × β} (hs : s.1.stage = .plain) {k : Nat} {t : Machine × β}
    (ht : (statesFrom limit s)[k]? = some t) : StageAt ((statesFrom limit s).map observe) k t.1.stage := by
  induction k generalizing t with
  | zero =>
    obtain rfl := getElem?_statesFrom_zero ht
    rw [hs]
    rfl
  | succ k ih =>
    obtain ⟨hk, -⟩ := List.getElem?_eq_some_iff.mp ht
    have hprev := List.getElem?_eq_getElem (Nat.lt_of_succ_lt hk)
    exact (ih hprev).succ (getElem?_observe hprev) (step_of_getElem? hprev ht)

/-- An instruction leads to the place of the jump that takes effect after it, or to the next place. -/
theorem StageAt.offset_succ {e : List Executed} {k : Nat} {t u : Machine × β} (hx : e[k]? = some (observe t))
    (h : StageAt e k t.1.stage) (hstep : step t = .ok false u) :
    (u.1.pc.val : Int) = (match jumpAfter? e k with
      | some (source, distance) => source.val + distance
      | none => t.1.pc.val + 1) % codeSize := by
  obtain ⟨m, bus⟩ := t
  obtain ⟨hpc, -, hfinished⟩ := step_flow hstep
  rw [hpc]
  unfold Machine.advance
  unfold Machine.finishes at hfinished
  cases hm : m.stage with
  | exitSlot =>
    rw [hm] at hfinished
    cases hfinished
  | branchSlot target =>
    rw [hm] at h
    obtain ⟨source, distance, hjump, rfl⟩ := h.jumpAfter?_branchSlot
    rw [hjump]
    exact coe_jump source distance
  | plain =>
    have hplain : inSlot e k = false := by rwa [hm] at h
    dsimp only
    have hobserve : (observe (m, bus)).jump? = (CodeWord.decode (Bus.fetch m.pc bus).1).jump? m := rfl
    rw [Instruction.next_eq, jumpAfter?, hplain, if_neg Bool.false_ne_true, hx, Option.bind_some, hobserve]
    cases (CodeWord.decode (Bus.fetch m.pc bus).1).jump? m with
    | none => exact coe_jump m.pc 1
    | some jump =>
      cases hannul : jump.annul with
      | true =>
        simp only [hannul, if_true, Option.filter_some, Option.map_some]
        exact coe_jump m.pc jump.distance
      | false =>
        simp only [hannul, Bool.false_eq_true, if_false, Option.filter_some, Option.map_none]
        exact coe_jump m.pc 1

/-! ### The end of a run -/

theorem exists_state {limit k : Nat} {s : Machine × β} {x : Executed}
    (h : ((statesFrom limit s).map observe)[k]? = some x) :
    ∃ t, (statesFrom limit s)[k]? = some t ∧ observe t = x := by
  rwa [List.getElem?_map, Option.map_eq_some_iff] at h

/-- An exit that counts is followed by its delay slot, unless the run is over before. -/
theorem exitSlot_of_exitsAt {limit k : Nat} {s : Machine × β} (hs : s.1.stage = .plain)
    (hexit : exitsAt ((statesFrom limit s).map observe) k = true) :
    (statesFrom limit s).length ≤ k + 1 ∨
      ∃ t, (statesFrom limit s)[k + 1]? = some t ∧ t.1.stage = .exitSlot := by
  rcases Nat.lt_or_ge (k + 1) (statesFrom limit s).length with hlt | hge
  · have ht := List.getElem?_eq_getElem hlt
    exact Or.inr ⟨_, ht, (stageAt_of_getElem? hs ht).eq_exitSlot hexit⟩
  · exact Or.inl hge

theorem ending_flow {limit : Nat} {s t : Machine × β} {ending : Ending} (hs : s.1.stage = .plain)
    (h : runFrom limit s = .ok ending t) :
    (ending = .exited ↔ ∃ k, exitsAt ((statesFrom limit s).map observe) k = true ∧ k + 1 < limit) ∧
    (ending = .exited →
      ∃ k, exitsAt ((statesFrom limit s).map observe) k = true ∧ (statesFrom limit s).length = k + 2) ∧
    (ending = .stepLimitReached → (statesFrom limit s).length = limit) := by
  have hending := ending_of_runFrom h
  cases ending with
  | exited =>
    obtain ⟨k, u, hu, hstage⟩ := hending
    have hat := stageAt_of_getElem? hs hu
    rw [hstage] at hat
    obtain ⟨j, rfl, hexit⟩ := hat
    have hlen := length_of_exitSlot hu hstage
    have hle := length_statesFrom_le limit s
    exact ⟨⟨fun _ => ⟨j, hexit, by omega⟩, fun _ => rfl⟩, fun _ => ⟨j, hexit, hlen⟩, nofun⟩
  | stepLimitReached =>
    obtain ⟨hlen, hnone⟩ := hending
    refine ⟨⟨nofun, fun ⟨k, hexit, hk⟩ => ?_⟩, nofun, fun _ => hlen⟩
    rcases exitSlot_of_exitsAt hs hexit with hle | ⟨u, hu, hstage⟩
    · omega
    · exact absurd hstage (hnone u (List.mem_of_getElem? hu))

/-! ### The fetches of a run -/

def BusEvent.fetched? : BusEvent → Option CodeOffset
  | .fetch offset => some offset
  | .read _ _ | .write _ _ => none

theorem Operation.filterMap_fetched?_events (operation : Operation) (m : Machine) (bus : β) :
    (operation.events m bus).filterMap BusEvent.fetched? = [] := by
  unfold Operation.events
  rw [List.filterMap_append]
  cases operation.consults? m <;> cases operation.computes? m (operation.consult m bus).1 with
  | none => rfl
  | some c => dsimp only; cases c.sent? m <;> rfl

theorem filterMap_fetched?_stepEvents (s : Machine × β) : (stepEvents s).filterMap BusEvent.fetched? = [s.1.pc] := by
  show s.1.pc :: List.filterMap BusEvent.fetched? _ = _
  rw [Operation.filterMap_fetched?_events]

/-- A run asks for what its instructions ask for, one after the other. -/
theorem eventsFrom_eq (limit : Nat) (s : Machine × β) :
    eventsFrom limit s = (statesFrom limit s).flatMap stepEvents := by
  induction limit generalizing s with
  | zero => rfl
  | succ limit ih =>
    rw [eventsFrom, statesFrom, List.flatMap_cons]
    rcases step s with ⟨_ | _, t⟩ | ⟨fault, t⟩
    · exact congrArg (stepEvents s ++ ·) (ih t)
    · rfl
    · rfl

theorem filterMap_fetched?_eventsFrom (limit : Nat) (s : Machine × β) :
    (eventsFrom limit s).filterMap BusEvent.fetched? = (statesFrom limit s).map fun t => t.1.pc := by
  simp only [eventsFrom_eq, List.filterMap_flatMap, filterMap_fetched?_stepEvents, List.map_eq_flatMap]

/-- A run fetches the instructions that the rules of delay slots say, each from a place in code memory: the
    first from the entry point, and every other from where the jump in effect after the one before it leads,
    or from the place after it. Nothing is executed past the delay slot of an exit that counts, and a run
    without a fault has exited if, and only if, that slot is within the limit. -/
theorem executed_flow (limit : Nat) (entry : Word) (arguments : List Word) (bus : β) :
    let e := executed limit entry arguments bus
    (asked limit entry arguments bus).filterMap BusEvent.fetched? = e.map Executed.offset ∧
    (∀ x : Executed, e[0]? = some x → x.offset.val = entry.toNat % codeSize) ∧
    (∀ (k : Nat) (x y : Executed), e[k]? = some x → e[k + 1]? = some y →
      (y.offset.val : Int) = (match jumpAfter? e k with
        | some (source, distance) => source.val + distance
        | none => x.offset.val + 1) % codeSize) ∧
    (∀ x ∈ e, x.offset.val < codeSize) ∧
    e.length ≤ limit ∧
    (∀ k, exitsAt e k = true → e.length ≤ k + 2) ∧
    ∀ ending bus', run limit entry arguments bus = .ok ending bus' →
      (ending = .exited ↔ ∃ k, exitsAt e k = true ∧ k + 1 < limit) ∧
      (ending = .exited → ∃ k, exitsAt e k = true ∧ e.length = k + 2) ∧
      (ending = .stepLimitReached → e.length = limit) := by
  intro e
  have hplain : (Machine.start entry arguments, bus).1.stage = .plain := rfl
  have hlength : e.length = (statesFrom limit (Machine.start entry arguments, bus)).length := List.length_map _
  refine ⟨?_, ?_, ?_, fun x _ => x.offset.isLt, ?_, ?_, ?_⟩
  · rw [asked_eq, filterMap_fetched?_eventsFrom]
    show _ = ((statesFrom _ _).map observe).map Executed.offset
    rw [List.map_map]
    rfl
  · intro x hx
    obtain ⟨t, ht, rfl⟩ := exists_state hx
    obtain rfl := getElem?_statesFrom_zero ht
    rfl
  · intro k x y hx hy
    obtain ⟨t, ht, rfl⟩ := exists_state hx
    obtain ⟨u, hu, rfl⟩ := exists_state hy
    exact (stageAt_of_getElem? hplain ht).offset_succ hx (step_of_getElem? ht hu)
  · rw [hlength]
    exact length_statesFrom_le limit _
  · intro k hexit
    rw [hlength]
    rcases exitSlot_of_exitsAt hplain hexit with hle | ⟨t, ht, hstage⟩
    · exact Nat.le_succ_of_le hle
    · exact Nat.le_of_eq (length_of_exitSlot ht hstage)
  · intro ending bus' hrun
    rw [run_eq] at hrun
    rw [hlength]
    cases hfrom : runFrom limit (Machine.start entry arguments, bus) with
    | error fault s =>
      rw [hfrom] at hrun
      cases hrun
    | ok ending' s =>
      rw [hfrom] at hrun
      cases hrun
      exact ending_flow hplain hfrom

end

end Maxwell.Mme
