import Maxwell.Proofs.Threed.Act

/-! What a method write comes to, once the shadow mode and the method are known: a new word in one copy or in
    both, and past it the report and the trigger of a landing, or what a control does. -/

namespace Maxwell.Threed

/-! ### Controls and triggers -/

/-- A method that shadow modes do not concern. -/
def IsControl (method : Nat) : Prop := method = 0x40 ∨ 0x44 ≤ method ∧ method ≤ 0x49

instance (method : Nat) : Decidable (IsControl method) := inferInstanceAs (Decidable (_ ∨ _))

theorem isControl_iff {method : Nat} : IsControl method ↔ (Control.ofMethod? method).isSome := by
  unfold IsControl Control.ofMethod?
  split <;> grind

theorem isControl_of_some {method : Nat} {control : Control} (h : Control.ofMethod? method = some control) :
    IsControl method :=
  isControl_iff.mpr (by rw [h]; rfl)

theorem not_isControl_of_none {method : Nat} (h : Control.ofMethod? method = none) : ¬IsControl method := by
  rw [isControl_iff, h]
  exact Bool.false_ne_true

theorem Trigger.method_of_ofMethod? {method : Nat} {trigger : Trigger} (h : Trigger.ofMethod? method = some trigger) :
    trigger.method = method := by
  unfold Trigger.ofMethod? at h
  split at h <;> cases h <;> rfl

section
variable {η : Type} [Host η] {method : Nat}

/-! ### Writes -/

/-- Past the new word, a landing is a report and a trigger. -/
theorem land_apply (method : Nat) (value : Word) (core : Core) (host : η) :
    land method value (core, host) =
      ((if core.live.read method != value then report method else pure ()) >>= fun _ =>
        match Trigger.ofMethod? method with
        | some trigger => trigger.fire value
        | none => pure ()) ({ core with live := core.live.write method value }, host) := by
  have hset : land method value (core, host) =
      (if core.live.read method != value then report method >>= fun _ => match Trigger.ofMethod? method with
          | some trigger => trigger.fire value
          | none => pure ()
        else match Trigger.ofMethod? method with
          | some trigger => trigger.fire value
          | none => pure () : CoreM η Unit) ({ core with live := core.live.write method value }, host) := rfl
  rw [hset]
  split <;> rfl

theorem route_apply (method : Nat) (argument : Word) (s : Core × η) :
    route method argument s = match s.1.live.shadowMode with
      | .track => land method argument ({ s.1 with shadow := s.1.shadow.write method argument }, s.2)
      | .trackWithFilter => .ok () ({ s.1 with shadow := s.1.shadow.write method argument }, s.2)
      | .passthrough => land method argument s
      | .replay => land method (s.1.shadow.read method) s := by
  rw [route, bind_ok (show (get : CoreM η _) s = .ok s s from rfl)]
  cases s.1.live.shadowMode <;> rfl

theorem write_control {control : Control} (h : Control.ofMethod? method = some control) (argument : Word)
    (s : Core × η) :
    write method argument s = control.perform argument ({ s.1 with live := s.1.live.write method argument }, s.2) := by
  simp only [write, h]
  rfl

theorem write_route (h : Control.ofMethod? method = none) (argument : Word) (s : Core × η) :
    write method argument s = route method argument s := by
  simp only [write, h]

theorem write_passthrough (hcontrol : Control.ofMethod? method = none) {core : Core}
    (hmode : core.live.shadowMode = .passthrough) (argument : Word) (host : η) :
    write method argument (core, host) = land method argument (core, host) := by
  rw [write_route hcontrol, route_apply, hmode]

end

/-! ### Writes that succeed -/

section
variable {μ : Type} [GuestMemory μ] {method : Nat}

theorem Trigger.fire_nullSink {trigger : Trigger} (hne : trigger ≠ .semaphore) (value : Word)
    (s : Core × Board NullSink μ) : ∃ t, trigger.fire value s = .ok () t := by
  cases trigger with
  | syncpoint =>
    cases h : (SyncpointAction.ofWord value).increment with
    | true => exact ⟨_, by simp only [Trigger.fire, h]; rfl⟩
    | false => exact ⟨_, by simp only [Trigger.fire, h]; rfl⟩
  | clear => exact ⟨_, rfl⟩
  | semaphore => exact absurd rfl hne
  | firmwareCall => exact ⟨_, rfl⟩

theorem land_nullSink (hne : method ≠ 0x6C3) (value : Word) (s : Core × Board NullSink μ) :
    ∃ t, land method value s = .ok () t := by
  obtain ⟨core, host⟩ := s
  obtain ⟨u, hu⟩ : ∃ u, (if core.live.read method != value then report method else pure () : CoreM _ Unit)
      ({ core with live := core.live.write method value }, host) = .ok () u := by
    split <;> exact ⟨_, rfl⟩
  rw [land_apply, bind_ok hu]
  cases htrigger : Trigger.ofMethod? method with
  | none => exact ⟨u, rfl⟩
  | some trigger =>
    refine Trigger.fire_nullSink ?_ value u
    rintro rfl
    exact hne (Trigger.method_of_ofMethod? htrigger).symm

/-- Before a sink that takes everything, a write can fail only at a semaphore. -/
theorem write_nullSink (hne : method ≠ 0x6C3) (argument : Word) (s : Core × Board NullSink μ) :
    ∃ t, write method argument s = .ok () t := by
  cases hc : Control.ofMethod? method with
  | some control =>
    rw [write_control hc]
    cases control <;> exact ⟨_, rfl⟩
  | none =>
    rw [write_route hc, route_apply]
    cases s.1.live.shadowMode with
    | track | passthrough | replay => exact land_nullSink hne _ _
    | trackWithFilter => exact ⟨_, rfl⟩

theorem makeAll_nullSink {requests : List Request}
    (hregister : ∀ r ∈ requests, r.method < registerCount ∧ r.method ≠ 0x6C3)
    (interpreter : Mme.Interpreter) (s : Core × Board NullSink μ) :
    ∃ t, makeAll requests (idle interpreter s) = .ok () t := by
  induction requests generalizing s with
  | nil => exact ⟨_, rfl⟩
  | cons r requests ih =>
    obtain ⟨hr, hne⟩ := hregister r List.mem_cons_self
    obtain ⟨u, hu⟩ := write_nullSink hne r.argument s
    rw [makeAll, forM_cons_apply, make_idle hr, hu]
    exact ih (fun r hr => hregister r (List.mem_cons_of_mem _ hr)) u

end

/-! ### Macros that were never uploaded -/

theorem decode_zero : Mme.CodeWord.decode 0 = ⟨.alu .add .ignoreAndFetch 0 0 0, false⟩ := by
  decide

section
variable {η : Type} [Host η]

theorem runFrom_unprogrammed {core : Core} (hcode : core.store.words = Mme.Store.empty.words)
    (host : η) (limit : Nat) {m : Mme.Machine} (hm : m.stage = .plain) :
    ∃ m', Mme.runFrom limit (m, (core, host)) = .ok .stepLimitReached (m', (core, host)) := by
  induction limit generalizing m with
  | zero => exact ⟨m, rfl⟩
  | succ limit ih =>
    have hfetch : (Mme.Bus.fetch m.pc (core, host) : Word × (Core × η)) = (0, (core, host)) := by
      show (core.store.words[m.pc], (core, host)) = _
      simp [hcode, Mme.Store.empty]
    obtain ⟨m', hstep, hm'⟩ : ∃ m', Mme.step (m, (core, host)) = .ok false (m', (core, host)) ∧ m'.stage = .plain := by
      simp only [Mme.step, hfetch, decode_zero, hm]
      exact ⟨_, rfl, rfl⟩
    simp only [Mme.runFrom, hstep]
    exact ih hm'

/-- A macro that was never uploaded does nothing up to the step limit. -/
theorem run_unprogrammed {core : Core} (hcode : core.store.words = Mme.Store.empty.words)
    (host : η) (stepLimit : Nat) (invocation : Invocation) :
    invocation.run stepLimit (core, host) = .ok .stepLimitReached (core, host) := by
  obtain ⟨m', hrun⟩ := runFrom_unprogrammed hcode host stepLimit
    (m := Mme.Machine.start (core.store.entry invocation.slot) invocation.arguments.toList) rfl
  rw [Invocation.run, Mme.run_eq, hrun]
  rfl

theorem effect_unprogrammed {core : Core} (hcode : core.store.words = Mme.Store.empty.words)
    (host : η) (stepLimit : Nat) (invocation : Invocation) :
    Act.effect stepLimit (.invoke invocation) (core, host) = .ok () (core, host) := by
  show settled (invocation.run stepLimit (core, host)) = _
  rw [run_unprogrammed hcode]
  rfl

end

end Maxwell.Threed
