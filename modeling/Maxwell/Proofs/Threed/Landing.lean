import Maxwell.Proofs.Threed.Copies

/-! Writes with what they find. A word that a write brings to a live register is reported if it changes the register,
    and unless the report fails, the trigger of the method fires, if it has one, before the host that the report
    left. -/

namespace Maxwell.Threed

/-- A write to a register, with the core and the host that it finds. -/
structure WriteAt (η : Type) where
  core : Core
  host : η
  method : Nat
  argument : Word

namespace WriteAt

section
variable {η : Type}

def call (w : WriteAt η) : RegisterCall := .on w.core w.method w.argument

/-- The word that a write brings to its live register by way of the shadow mode. Controls have no way, and a write
    that is filtered does not get there. -/
def landed? (w : WriteAt η) : Option Word :=
  if IsControl w.method ∨ w.call.mode = .trackWithFilter then none else some w.call.landed

/-- The core after a landing, before the trigger. -/
def landing (w : WriteAt η) (value : Word) : Core :=
  { w.core with live := w.core.live.write w.method value, shadow := w.call.shadowAfter w.core.shadow }

theorem not_control_of_landed {w : WriteAt η} {value : Word} (h : w.landed? = some value) :
    Control.ofMethod? w.method = none := by
  cases hc : Control.ofMethod? w.method with
  | none => rfl
  | some control => simp [landed?, isControl_of_some hc] at h

theorem mode_of_landed_eq_none {w : WriteAt η} (hc : Control.ofMethod? w.method = none) (h : w.landed? = none) :
    w.call.mode = .trackWithFilter := by
  rw [landed?] at h
  split at h
  · next hfiltered => exact hfiltered.resolve_left (not_isControl_of_none hc)
  · cases h

end

section
variable {η : Type} [Host η]

def outcome (w : WriteAt η) : EStateM.Result Fault (Core × η) Unit := write w.method w.argument (w.core, w.host)

/-- The report of a word that lands. A word that was there before is not reported. -/
def reported (w : WriteAt η) (value : Word) : EStateM.Result SinkFault η Unit :=
  if w.core.live.read w.method = value then .ok () w.host
  else Sink.notify (w.core.live.write w.method value) (notifySpan w.method) w.host

/-- The word that lands, with the host after its report. There is none if the report fails. -/
def fired? (w : WriteAt η) : Option (Word × η) :=
  match w.landed? with
  | some value =>
    match w.reported value with
    | .ok _ host => some (value, host)
    | .error _ _ => none
  | none => none

theorem fired?_eq_some_iff {w : WriteAt η} {value : Word} {host : η} :
    w.fired? = some (value, host) ↔ w.landed? = some value ∧ w.reported value = .ok () host := by
  rw [fired?]
  cases w.landed? with
  | none => simp
  | some value' =>
    cases hreported : w.reported value' with
    | ok _ host' =>
      simp only [hreported, Option.some.injEq, Prod.mk.injEq]
      constructor
      · rintro ⟨rfl, rfl⟩
        exact ⟨rfl, hreported⟩
      · rintro ⟨rfl, h⟩
        rw [hreported] at h
        cases h
        exact ⟨rfl, rfl⟩
    | error fault host' =>
      simp only [hreported, Option.some.injEq, reduceCtorEq, false_iff]
      rintro ⟨rfl, h⟩
      rw [hreported] at h
      cases h

end

end WriteAt

section
variable {η : Type} [Host η]

/-- What a word that landed sets off. -/
def fireTrigger (method : Nat) (value : Word) : CoreM η Unit :=
  match Trigger.ofMethod? method with
  | some trigger => trigger.fire value
  | none => pure ()

namespace WriteAt

/-- A landing is a new word, a report and a trigger. -/
theorem land_eq (w : WriteAt η) (value : Word) (shadow : RegisterFile) :
    land w.method value ({ w.core with shadow }, w.host) =
      match w.reported value with
      | .ok _ host =>
        fireTrigger w.method value ({ w.core with live := w.core.live.write w.method value, shadow }, host)
      | .error fault host =>
        .error (.sink fault) ({ w.core with live := w.core.live.write w.method value, shadow }, host) := by
  rw [land_apply]
  by_cases hsame : w.core.live.read w.method = value
  · simp only [reported, hsame, bne_self_eq_false, Bool.false_eq_true, if_false, if_true]
    rfl
  · have hne : (w.core.live.read w.method != value) = true := by simpa using hsame
    simp only [reported, if_neg hsame, hne, if_true, bind_apply, report, onHost]
    cases Sink.notify (w.core.live.write w.method value) (notifySpan w.method) w.host <;> rfl

/-- What becomes of a write that is not one of a control. -/
theorem outcome_of_none {w : WriteAt η} (hc : Control.ofMethod? w.method = none) :
    w.outcome = match w.landed? with
      | some value =>
        match w.reported value with
        | .ok _ host => fireTrigger w.method value (w.landing value, host)
        | .error fault host => .error (.sink fault) (w.landing value, host)
      | none => .ok () ({ w.core with shadow := w.core.shadow.write w.method w.argument }, w.host) := by
  have hcontrol : ¬IsControl w.method := not_isControl_of_none hc
  rw [outcome, write_route hc, route_apply]
  cases hmode : w.core.live.shadowMode with
  | trackWithFilter => simp [landed?, call, RegisterCall.on, hmode]
  | track | passthrough | replay =>
    simp only [landed?, landing, call, RegisterCall.on, RegisterCall.landed, RegisterCall.shadowAfter,
      ShadowMode.writesShadow, hmode, hcontrol, reduceCtorEq, or_self, not_false_eq_true, true_and, if_true, if_false,
      Bool.false_eq_true, and_false]
    exact land_eq w _ _

/-- A write that lands and is reported goes on with the trigger. -/
theorem outcome_of_fired {w : WriteAt η} {value : Word} {host : η} (h : w.fired? = some (value, host)) :
    w.outcome = fireTrigger w.method value (w.landing value, host) := by
  obtain ⟨hlanded, hreported⟩ := fired?_eq_some_iff.mp h
  rw [outcome_of_none (not_control_of_landed hlanded), hlanded]
  dsimp only
  rw [hreported]

theorem outcome_of_trigger {w : WriteAt η} {value : Word} {host : η} (h : w.fired? = some (value, host))
    (trigger : Trigger) (hmethod : w.method = trigger.method) :
    w.outcome = trigger.fire value (w.landing value, host) := by
  rw [outcome_of_fired h, fireTrigger, hmethod, Trigger.ofMethod?_method]

end WriteAt

end

end Maxwell.Threed
