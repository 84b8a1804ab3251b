import Maxwell.Proofs.Mme.Record
import Maxwell.Threed.Engine

/-! What a method call does to the engine: it runs invocations on the interpreter and writes to a register. Which of
    these a call does, and what is pending after it, depends on the call and on what was pending alone. A
    call that fails leaves nothing pending. What a call does to the core does not depend on what the interpreter ran
    before. -/

namespace Maxwell.Threed

structure Request where
  method : Nat
  argument : Word
  last : Bool
  deriving DecidableEq, Repr

inductive Act where
  | invoke (invocation : Invocation)
  | write (method : Nat) (argument : Word)
  deriving DecidableEq, Repr

/-! ### The acts of a call -/

namespace Request

/-- Whether a call adds to an invocation that is pending. -/
def continues (r : Request) (invocation : Invocation) : Bool :=
  decide (registerCount ≤ r.method) && isParameter r.method && decide (invocation.slot = slotOf r.method)

/-- The invocation that a macro call's argument is in. -/
def collected (r : Request) (pending : Option Invocation) : Invocation :=
  match pending.filter r.continues with
  | some invocation => { invocation with arguments := invocation.arguments.push r.argument }
  | none => ⟨slotOf r.method, #[r.argument]⟩

/-- The invocation that ends at a call it does not belong to. -/
def interrupted? (r : Request) (pending : Option Invocation) : Option Invocation :=
  pending.filter fun invocation => !r.continues invocation

/-- What a call does of its own. -/
def ownActs (r : Request) (pending : Option Invocation) : List Act :=
  if r.method < registerCount then [.write r.method r.argument]
  else if r.last then [.invoke (r.collected pending)]
  else []

/-- What a call does: it runs the invocation that it interrupts, and then comes what it does of its own. -/
def acts (r : Request) (pending : Option Invocation) : List Act :=
  (r.interrupted? pending).toList.map .invoke ++ r.ownActs pending

def pendingAfter (r : Request) (pending : Option Invocation) : Option Invocation :=
  if r.method < registerCount ∨ r.last = true then none else some (r.collected pending)

end Request

section
variable {η : Type} [Host η]

/-- Performs an act on the interpreter and the core. -/
def Act.perform : Act → EStateM Fault (Mme.Interpreter × (Core × η)) Unit
  | .invoke invocation => fun s => settled (Threed.invoke invocation s)
  | .write method argument => fun (interpreter, s) => through (Prod.mk interpreter) (Threed.write method argument s)

def Request.make (r : Request) : EStateM Fault (Threed × η) Unit := call r.method r.argument r.last

/-- Makes calls in order, up to the first that fails. -/
def makeAll (requests : List Request) : EStateM Fault (Threed × η) Unit := requests.forM Request.make

/-! ### Calls as acts -/

/-- The engine around an interpreter and a core, with nothing pending. -/
def idle (interpreter : Mme.Interpreter) (s : Core × η) : Threed × η := (⟨s.1, none, interpreter⟩, s.2)

/-- The idle engine after acts. -/
def idleAfter (s : Mme.Interpreter × (Core × η)) : Threed × η := idle s.1 s.2

omit [Host η] in
theorem withCore_idle {α : Type} (act : EStateM Fault (Core × η) α) (interpreter : Mme.Interpreter) (s : Core × η) :
    withCore act (idle interpreter s) = through (idle interpreter) (act s) := by
  obtain ⟨core, host⟩ := s
  simp only [withCore, idle]
  cases act (core, host) <;> rfl

theorem flush_pending (core : Core) (invocation : Invocation) (interpreter : Mme.Interpreter) (host : η) :
    flush (⟨core, some invocation, interpreter⟩, host) =
      through idleAfter (settled (invoke invocation (interpreter, (core, host)))) := by
  simp only [flush]
  cases invoke invocation (interpreter, (core, host)) <;> rfl

theorem flush_eq (core : Core) (pending : Option Invocation) (interpreter : Mme.Interpreter) (host : η) :
    flush (⟨core, pending, interpreter⟩, host) =
      through idleAfter ((pending.toList.map Act.invoke).forM Act.perform (interpreter, (core, host))) := by
  cases pending with
  | none => rfl
  | some invocation =>
    rw [Option.toList_some, List.map_singleton, forM_singleton_apply]
    exact flush_pending core invocation interpreter host

theorem append?_eq (core : Core) (pending : Option Invocation) (interpreter : Mme.Interpreter) (r : Request)
    (hr : registerCount ≤ r.method) :
    (if isParameter r.method then append? ⟨core, pending, interpreter⟩ (slotOf r.method) r.argument else none) =
      (pending.filter r.continues).map fun _ => ⟨core, some (r.collected pending), interpreter⟩ := by
  cases pending with
  | none => simp [append?]
  | some invocation =>
    obtain ⟨slot, arguments⟩ := invocation
    by_cases hp : isParameter r.method = true <;> by_cases hs : slot = slotOf r.method <;>
      simp only [append?, Request.collected, Request.continues, Option.filter, decide_eq_true hr, hp, hs, if_true,
        if_false, decide_true, decide_false, Bool.and_true, Bool.and_false, Bool.false_eq_true, Option.map_some,
        Option.map_none]

theorem collect_eq (core : Core) (pending : Option Invocation) (interpreter : Mme.Interpreter) (host : η) (r : Request)
    (hr : registerCount ≤ r.method) :
    collect r.method r.argument (⟨core, pending, interpreter⟩, host) =
      match ((r.interrupted? pending).toList.map Act.invoke).forM Act.perform (interpreter, (core, host)) with
      | .ok _ (interpreter, core, host) => .ok () (⟨core, some (r.collected pending), interpreter⟩, host)
      | .error fault s => .error fault (idleAfter s) := by
  have happend := append?_eq core pending interpreter r hr
  unfold collect
  dsimp only
  rw [happend]
  cases hc : pending.filter r.continues with
  | some invocation =>
    have hi : r.interrupted? pending = none := by
      obtain ⟨rfl, h⟩ := Option.filter_eq_some_iff.mp hc
      simp [Request.interrupted?, h]
    rw [hi]
    rfl
  | none =>
    have hi : r.interrupted? pending = pending := by
      cases pending with
      | none => rfl
      | some invocation => simpa [Request.interrupted?, Option.filter] using hc
    simp only [Option.map_none, flush_eq, hi, Request.collected, hc]
    cases (pending.toList.map Act.invoke).forM Act.perform (interpreter, (core, host)) <;> rfl

/-- A call performs its acts, and leaves nothing pending if one of them fails. -/
theorem make_eq (r : Request) (core : Core) (pending : Option Invocation) (interpreter : Mme.Interpreter) (host : η) :
    r.make (⟨core, pending, interpreter⟩, host) =
      match (r.acts pending).forM Act.perform (interpreter, (core, host)) with
      | .ok _ (interpreter, core, host) => .ok () (⟨core, r.pendingAfter pending, interpreter⟩, host)
      | .error fault s => .error fault (idleAfter s) := by
  rw [Request.acts, forM_append_apply, Request.make, call]
  by_cases hr : registerCount ≤ r.method
  · have hlt : ¬r.method < registerCount := Nat.not_lt.mpr hr
    rw [if_pos hr, bind_apply, collect_eq core pending interpreter host r hr]
    cases ((r.interrupted? pending).toList.map Act.invoke).forM Act.perform (interpreter, (core, host)) with
    | error fault s => rfl
    | ok _ s =>
      cases hl : r.last with
      | false => simp [Request.ownActs, Request.pendingAfter, hlt, hl, forM_nil_apply]; rfl
      | true =>
        simp only [if_true, flush_eq, Request.ownActs, Request.pendingAfter, hlt, if_false, hl, or_true,
          Option.toList_some, List.map_singleton, forM_singleton_apply]
        cases Act.perform (.invoke (r.collected pending)) s <;> rfl
  · have hlt : r.method < registerCount := Nat.lt_of_not_le hr
    have hi : r.interrupted? pending = pending := by
      cases pending <;> simp [Request.interrupted?, Request.continues, Option.filter, hr]
    rw [if_neg hr, bind_apply, flush_eq, hi]
    cases (pending.toList.map Act.invoke).forM Act.perform (interpreter, (core, host)) with
    | error fault s => rfl
    | ok _ s =>
      simp only [through_ok, idleAfter, withCore_idle, Request.ownActs, Request.pendingAfter, hlt, if_true, true_or,
        forM_singleton_apply, Act.perform]
      cases Threed.write r.method r.argument s.2 <;> rfl

/-- A call to a register of an idle engine is a write, whatever its mark. -/
theorem make_idle {r : Request} (h : r.method < registerCount) (interpreter : Mme.Interpreter) (s : Core × η) :
    r.make (idle interpreter s) = through (idle interpreter) (write r.method r.argument s) := by
  rw [idle, make_eq]
  have hacts : r.acts none = [.write r.method r.argument] := by
    simp [Request.acts, Request.interrupted?, Request.ownActs, h]
  have hafter : r.pendingAfter none = none := by
    simp [Request.pendingAfter, h]
  rw [hacts, forM_singleton_apply, hafter]
  simp only [Act.perform]
  cases write r.method r.argument s <;> rfl

/-- Writes as calls, the `k`-th of them marked with `flags k`. -/
def marked (flags : Nat → Bool) (writes : List (Nat × Word)) : List Request :=
  writes.mapIdx fun k w => ⟨w.1, w.2, flags k⟩

theorem makeAll_marked {writes : List (Nat × Word)} (hfile : ∀ w ∈ writes, w.1 < registerCount) (flags : Nat → Bool)
    (interpreter : Mme.Interpreter) (s : Core × η) :
    makeAll (marked flags writes) (idle interpreter s) =
      through (idle interpreter) (writes.forM (fun w => write w.1 w.2) s) := by
  induction writes generalizing flags s with
  | nil => rfl
  | cons w writes ih =>
    have hw : w.1 < registerCount := hfile w List.mem_cons_self
    rw [makeAll, marked, List.mapIdx_cons, forM_cons_apply, forM_cons_apply, make_idle hw]
    cases write w.1 w.2 s with
    | error fault t => rfl
    | ok _ t => exact ih (fun w hw => hfile w (List.mem_cons_of_mem _ hw)) (fun k => flags (k + 1)) t

theorem exists_of_makeAll_marked {writes : List (Nat × Word)} (hfile : ∀ w ∈ writes, w.1 < registerCount)
    {flags : Nat → Bool} {interpreter : Mme.Interpreter} {s : Core × η} {t : Threed × η}
    (h : makeAll (marked flags writes) (idle interpreter s) = .ok () t) :
    ∃ u, writes.forM (fun w => write w.1 w.2) s = .ok () u ∧ t = idle interpreter u := by
  rw [makeAll_marked hfile] at h
  cases hwrites : writes.forM (fun w => write w.1 w.2) s with
  | ok _ u =>
    rw [hwrites] at h
    cases h
    exact ⟨u, rfl, rfl⟩
  | error fault u =>
    rw [hwrites] at h
    cases h

/-! ### What calls do to the core -/

/-- The run of an invocation on a new interpreter. -/
def Invocation.run (invocation : Invocation) (stepLimit : Nat) : EStateM Fault (Core × η) Mme.Ending := fun s =>
  Mme.run stepLimit (s.1.store.entry invocation.slot) invocation.arguments.toList s

/-- What an act does to the core, on a new interpreter. -/
def Act.effect (stepLimit : Nat) : Act → EStateM Fault (Core × η) Unit
  | .invoke invocation => fun s => settled (invocation.run stepLimit s)
  | .write method argument => Threed.write method argument

/-- An interpreter that ran before does the same to the core as a new one. -/
theorem exists_invoke (invocation : Invocation) (stepLimit : Nat) (machine : Mme.Machine) (s : Core × η) :
    ∃ machine', invoke invocation (⟨stepLimit, machine⟩, s) =
      through (Prod.mk ⟨stepLimit, machine'⟩) (invocation.run stepLimit s) := by
  have hexecute : invoke invocation (⟨stepLimit, machine⟩, s) = _ :=
    Mme.execute_eq ⟨stepLimit, machine⟩ (s.1.store.entry invocation.slot) invocation.arguments.toList s
  rw [hexecute, Invocation.run, Mme.run_eq]
  cases Mme.runFrom stepLimit (.start (s.1.store.entry invocation.slot) invocation.arguments.toList, s) with
  | ok ending t => exact ⟨t.1, rfl⟩
  | error fault t => exact ⟨t.1, rfl⟩

theorem Act.exists_perform (act : Act) (stepLimit : Nat) (machine : Mme.Machine) (s : Core × η) :
    ∃ machine', act.perform (⟨stepLimit, machine⟩, s) =
      through (Prod.mk ⟨stepLimit, machine'⟩) (act.effect stepLimit s) := by
  cases act with
  | write method argument => exact ⟨machine, rfl⟩
  | invoke invocation =>
    obtain ⟨machine', hinvoke⟩ := exists_invoke invocation stepLimit machine s
    refine ⟨machine', ?_⟩
    simp only [perform, effect, hinvoke]
    cases invocation.run stepLimit s <;> rfl

theorem exists_forM_perform (acts : List Act) (stepLimit : Nat) (machine : Mme.Machine) (s : Core × η) :
    ∃ machine', acts.forM Act.perform (⟨stepLimit, machine⟩, s) =
      through (Prod.mk ⟨stepLimit, machine'⟩) (acts.forM (Act.effect stepLimit) s) := by
  induction acts generalizing machine s with
  | nil => exact ⟨machine, rfl⟩
  | cons act acts ih =>
    obtain ⟨machine₁, hact⟩ := act.exists_perform stepLimit machine s
    rw [forM_cons_apply, forM_cons_apply, hact]
    cases act.effect stepLimit s with
    | error fault t => exact ⟨machine₁, rfl⟩
    | ok _ t => exact ih machine₁ t

/-- What a call does to the core are the effects of its acts. -/
theorem exists_make (r : Request) (core : Core) (pending : Option Invocation) (stepLimit : Nat) (machine : Mme.Machine)
    (host : η) :
    ∃ machine', r.make (⟨core, pending, ⟨stepLimit, machine⟩⟩, host) =
      match (r.acts pending).forM (Act.effect stepLimit) (core, host) with
      | .ok _ (core, host) => .ok () (⟨core, r.pendingAfter pending, ⟨stepLimit, machine'⟩⟩, host)
      | .error fault s => .error fault (idle ⟨stepLimit, machine'⟩ s) := by
  obtain ⟨machine', hacts⟩ := exists_forM_perform (r.acts pending) stepLimit machine (core, host)
  refine ⟨machine', ?_⟩
  rw [make_eq, hacts]
  cases (r.acts pending).forM (Act.effect stepLimit) (core, host) <;> rfl

end

end Maxwell.Threed
