import Maxwell.Proofs.Threed.Landing
import Maxwell.Proofs.Threed.Sends

/-! Laws of the engine's work. Whatever is called, the engine changes by writes to registers, and a write is
    made of a few elementary steps: a change of the registers, of the macro store or of the timer, and a
    request to the host. A law that holds of these steps holds of every call. -/

namespace Maxwell.Threed

section
variable {η : Type} [Host η]

/-! ### Elementary steps -/

/-- A law that holds of what controls do. -/
structure ControlLaw (R : Core × η → EStateM.Result Fault (Core × η) Unit → Prop) : Prop extends Sequential R where
  store : ∀ (core : Core) store host, R (core, host) (.ok () ({ core with store }, host))
  flush : ∀ s, R s (flushSink s)

/-- A law that holds of what semaphores do. -/
structure SemaphoreLaw (R : Core × η → EStateM.Result Fault (Core × η) Unit → Prop) : Prop extends Sequential R where
  timer : ∀ (core : Core) timer host, R (core, host) (.ok () ({ core with timer }, host))
  memory : ∀ address bytes s, R s (onHost .memory (GuestMemory.store address bytes) s)

/-- A law that holds of all a write does but change registers and report them. -/
structure QuietLaw (R : Core × η → EStateM.Result Fault (Core × η) Unit → Prop) : Prop
    extends ControlLaw R, SemaphoreLaw R where
  clear : ∀ live request s, R s (onHost .sink (Sink.clear live request) s)
  increment : ∀ core id host, R (core, host) (.ok () (core, Host.increment id host))

/-- A law that holds of all a write does but its trigger. -/
structure RoutingLaw (R : Core × η → EStateM.Result Fault (Core × η) Unit → Prop) : Prop extends ControlLaw R where
  registers : ∀ (core : Core) live shadow host, R (core, host) (.ok () ({ core with live, shadow }, host))
  notify : ∀ live span s, R s (onHost .sink (Sink.notify live span) s)

/-- A law that holds of every elementary step of a write. -/
structure WriteLaw (R : Core × η → EStateM.Result Fault (Core × η) Unit → Prop) : Prop
    extends QuietLaw R, RoutingLaw R

section
variable {R : Core × η → EStateM.Result Fault (Core × η) Unit → Prop}

theorem ControlLaw.perform (hR : ControlLaw R) (control : Control) (value : Word) (s : Core × η) :
    R s (control.perform value s) := by
  cases control with
  | noOperation | shadowMode => exact hR.done s
  | waitForIdle => exact hR.flush s
  | codePointer | codeLoad | startPointer | startLoad => exact hR.store s.1 _ s.2

theorem SemaphoreLaw.semaphore (hR : SemaphoreLaw R) (s : Core × η) : R s (performSemaphore s) := by
  obtain ⟨core, host⟩ := s
  unfold performSemaphore
  dsimp only
  split
  · exact hR.done _
  · exact hR.next (hR.timer core _ host) (hR.memory _ _ _)

/-- The trigger of firmware calls is the one that writes a register. -/
theorem QuietLaw.fire (hR : QuietLaw R) {trigger : Trigger} (hne : trigger ≠ .firmwareCall) (value : Word)
    (s : Core × η) : R s (trigger.fire value s) := by
  cases trigger with
  | syncpoint =>
    refine hR.bind (hR.flush s) fun t => ?_
    dsimp only
    split
    · exact hR.increment t.1 _ t.2
    · exact hR.done t
  | clear => exact hR.clear s.1.live _ s
  | semaphore => exact hR.semaphore s
  | firmwareCall => exact absurd rfl hne

namespace RoutingLaw
variable (hR : RoutingLaw R) {w : WriteAt η}
include hR

theorem landing {value : Word} {host : η} (h : w.fired? = some (value, host)) :
    R (w.core, w.host) (.ok () (w.landing value, host)) := by
  obtain ⟨-, hreported⟩ := WriteAt.fired?_eq_some_iff.mp h
  refine hR.next (hR.registers w.core _ _ w.host) (?_ : R (w.landing value, w.host) _)
  unfold WriteAt.reported at hreported
  split at hreported
  · cases hreported
    exact hR.done _
  · have hnotify := hR.notify (w.core.live.write w.method value) (notifySpan w.method) (w.landing value, w.host)
    simpa only [onHost, hreported] using hnotify

/-- A write that fires no trigger is done with its word, or failed at its report. -/
theorem unfired (h : w.fired? = none) : R (w.core, w.host) w.outcome := by
  cases hc : Control.ofMethod? w.method with
  | some control =>
    rw [WriteAt.outcome, write_control hc]
    exact hR.next (hR.registers w.core _ w.core.shadow w.host) (hR.perform control w.argument _)
  | none =>
    rw [WriteAt.outcome_of_none hc]
    unfold WriteAt.fired? at h
    cases hlanded : w.landed? with
    | none => exact hR.registers w.core w.core.live _ w.host
    | some value =>
      rw [hlanded] at h
      dsimp only at h ⊢
      refine hR.next (hR.registers w.core _ _ w.host) (?_ : R (w.landing value, w.host) _)
      have hnotify := hR.notify (w.core.live.write w.method value) (notifySpan w.method) (w.landing value, w.host)
      by_cases hsame : w.core.live.read w.method = value
      · rw [WriteAt.reported, if_pos hsame] at h
        cases h
      · rw [WriteAt.reported, if_neg hsame] at h ⊢
        cases hreport : Sink.notify (w.core.live.write w.method value) (notifySpan w.method) w.host with
        | ok _ host =>
          rw [hreport] at h
          cases h
        | error fault host => simpa only [onHost, hreport] using hnotify

/-- What holds of the trigger, if it fires, holds of the write. -/
theorem write (hfire : ∀ value host, w.fired? = some (value, host) →
      R (w.landing value, host) (fireTrigger w.method value (w.landing value, host))) :
    R (w.core, w.host) w.outcome := by
  cases h : w.fired? with
  | none => exact hR.unfired h
  | some fired =>
    obtain ⟨value, host⟩ := fired
    rw [WriteAt.outcome_of_fired h]
    exact hR.next (hR.landing h) (hfire value host h)

/-- What holds of all other triggers holds of a write that does not fire this one. -/
theorem write_of_ne (other : Trigger) (hmethod : w.method ≠ other.method)
    (hfire : ∀ trigger ≠ other, ∀ value s, R s (trigger.fire value s)) : R (w.core, w.host) w.outcome := by
  refine hR.write fun value host _ => ?_
  unfold fireTrigger
  cases htrigger : Trigger.ofMethod? w.method with
  | none => exact hR.done _
  | some trigger =>
    refine hfire trigger ?_ value _
    rintro rfl
    exact hmethod (Trigger.method_of_ofMethod? htrigger).symm

end RoutingLaw

theorem WriteLaw.write (hR : WriteLaw R) (method : Nat) (argument : Word) (s : Core × η) :
    R s (Threed.write method argument s) := by
  refine hR.toRoutingLaw.write (w := ⟨s.1, s.2, method, argument⟩) fun value host _ => ?_
  unfold fireTrigger
  dsimp only
  cases Trigger.ofMethod? method with
  | none => exact hR.done _
  | some trigger =>
    by_cases hcall : trigger = .firmwareCall
    · subst hcall
      exact hR.registers _ _ _ host
    · exact hR.toQuietLaw.fire hcall value _

/-! ### Laws of the host -/

/-- An outcome with its fault as that of a method call. -/
def caused {ε σ : Type} (cause : ε → Fault) : EStateM.Result ε σ Unit → EStateM.Result Fault σ Unit
  | .ok _ s => .ok () s
  | .error fault s => .error (cause fault) s

theorem stateOf_caused {ε σ : Type} (cause : ε → Fault) (r : EStateM.Result ε σ Unit) :
    stateOf (caused cause r) = stateOf r := by
  cases r <;> rfl

/-- A law that holds of every request to a host. -/
structure HostLaw (L : η → EStateM.Result Fault η Unit → Prop) : Prop extends Sequential L where
  notify : ∀ live span host, L host (caused .sink (Sink.notify live span host))
  flush : ∀ host : η, L host (caused .sink (Sink.flush host))
  clear : ∀ live request host, L host (caused .sink (Sink.clear live request host))
  memory : ∀ address bytes host, L host (caused .memory (GuestMemory.store address bytes host))
  increment : ∀ id (host : η), L host (.ok () (Host.increment id host))

omit [Host η] in
theorem through_onHost {ε : Type} (cause : ε → Fault) (act : EStateM ε η Unit) (s : Core × η) :
    through Prod.snd (onHost cause act s) = caused cause (act s.2) := by
  obtain ⟨core, host⟩ := s
  simp only [onHost]
  cases act host <;> rfl

theorem HostLaw.writeLaw {L : η → EStateM.Result Fault η Unit → Prop} (hL : HostLaw L) :
    WriteLaw fun (s : Core × η) r => L s.2 (through Prod.snd r) where
  done s := hL.done s.2
  next h₁ h₂ := hL.next h₁ h₂
  store _ _ host := hL.done host
  timer _ _ host := hL.done host
  flush s := by
    rw [flushSink, through_onHost]
    exact hL.flush s.2
  clear live request s := by
    rw [through_onHost]
    exact hL.clear live request s.2
  memory address bytes s := by
    rw [through_onHost]
    exact hL.memory address bytes s.2
  increment _ id host := hL.increment id host
  registers _ _ _ host := hL.done host
  notify live span s := by
    rw [through_onHost]
    exact hL.notify live span s.2

end

/-! ### The parts of a board -/

theorem memory_onSink {σ μ : Type} (act : EStateM SinkFault σ Unit) (board : Board σ μ) :
    (stateOf (Board.onSink act board)).memory = board.memory := by
  obtain ⟨sink, memory, syncpoints⟩ := board
  simp only [Board.onSink]
  cases act sink <;> rfl

theorem syncpoints_onSink {σ μ : Type} (act : EStateM SinkFault σ Unit) (board : Board σ μ) :
    (stateOf (Board.onSink act board)).syncpoints = board.syncpoints := by
  obtain ⟨sink, memory, syncpoints⟩ := board
  simp only [Board.onSink]
  cases act sink <;> rfl

theorem memory_onMemory {σ μ : Type} (act : EStateM MemoryFault μ Unit) (board : Board σ μ) :
    (stateOf (Board.onMemory act board)).memory = stateOf (act board.memory) := by
  obtain ⟨sink, memory, syncpoints⟩ := board
  simp only [Board.onMemory]
  cases act memory <;> rfl

theorem syncpoints_onMemory {σ μ : Type} (act : EStateM MemoryFault μ Unit) (board : Board σ μ) :
    (stateOf (Board.onMemory act board)).syncpoints = board.syncpoints := by
  obtain ⟨sink, memory, syncpoints⟩ := board
  simp only [Board.onMemory]
  cases act memory <;> rfl

/-! ### Calls -/

/-- The core of an engine, and the host. -/
def coreOf (s : Threed × η) : Core × η := (s.1.core, s.2)

theorem through_make (r : Request) (s : Threed × η) :
    through coreOf (r.make s) = (r.acts s.1.pending).forM (Act.effect s.1.stepLimit) (coreOf s) := by
  obtain ⟨⟨core, pending, stepLimit, machine⟩, host⟩ := s
  obtain ⟨machine', hmake⟩ := exists_make r core pending stepLimit machine host
  rw [hmake]
  show through coreOf _ = (r.acts pending).forM (Act.effect stepLimit) (core, host)
  cases (r.acts pending).forM (Act.effect stepLimit) (core, host) <;> rfl

/-- Whether an act writes to registers of the file only. -/
def Act.InFile : Act → Prop
  | .invoke _ => True
  | .write method _ => method < registerCount

theorem inFile_of_mem_acts {r : Request} {pending : Option Invocation} {act : Act} (h : act ∈ r.acts pending) :
    act.InFile := by
  rcases List.mem_append.mp h with h | h
  · obtain ⟨invocation, -, rfl⟩ := List.mem_map.mp h
    trivial
  · unfold Request.ownActs at h
    split at h
    · next hr =>
      cases List.mem_singleton.mp h
      exact hr
    · split at h
      · cases List.mem_singleton.mp h
        trivial
      · cases h

section
variable {R : Core × η → EStateM.Result Fault (Core × η) Unit → Prop} (hR : Sequential R)
  (hwrite : ∀ method argument s, method < registerCount → R s (write method argument s))
include hR hwrite

/-- A macro changes the engine by writes alone. -/
theorem law_effect (stepLimit : Nat) {act : Act} (hact : act.InFile) (s : Core × η) :
    R s (act.effect stepLimit s) := by
  cases act with
  | write method argument => exact hwrite method argument s hact
  | invoke invocation =>
    show R s (settled (invocation.run stepLimit s))
    rw [← forM_sends_run]
    refine hR.forM (fun send _ t => ?_) s
    by_cases hsend : registerCount ≤ send.1
    · rw [makeSend_of_le hsend]
      exact hR.done t
    · have hsend : send.1 < registerCount := Nat.lt_of_not_le hsend
      rw [makeSend_of_lt hsend]
      exact hwrite send.1 send.2 t hsend

theorem law_make (r : Request) (s : Threed × η) : R (coreOf s) (through coreOf (r.make s)) := by
  have hacts : R (coreOf s) ((r.acts s.1.pending).forM (Act.effect s.1.stepLimit) (coreOf s)) :=
    hR.forM (fun act hact t => law_effect hR hwrite s.1.stepLimit (inFile_of_mem_acts hact) t) (coreOf s)
  rwa [through_make]

end

/-- A law of requests to the host holds of calls. -/
theorem HostLaw.make {L : η → EStateM.Result Fault η Unit → Prop} (hL : HostLaw L) (r : Request) (s : Threed × η) :
    L s.2 (through Prod.snd (r.make s)) := by
  have h := law_make hL.writeLaw.toSequential (fun method argument s _ => hL.writeLaw.write method argument s) r s
  rwa [through_through] at h

/-! ### Runs of calls that go on after a fault -/

/-- The engine and its host after calls, whether they failed or not. -/
def stateAfter (requests : List Request) (s : Threed × η) : Threed × η :=
  requests.foldl (fun s r => stateOf (r.make s)) s

/-- What every write to a register keeps, all calls keep. -/
theorem keeps_stateAfter {P : Core × η → Prop}
    (hwrite : ∀ method argument s, method < registerCount → P s → P (stateOf (write method argument s)))
    (requests : List Request) {s : Threed × η} (h : P (coreOf s)) : P (coreOf (stateAfter requests s)) := by
  induction requests generalizing s with
  | nil => exact h
  | cons r requests ih =>
    refine ih ?_
    have hmake := law_make (sequential_keeps P) hwrite r s h
    rwa [stateOf_through] at hmake

end

end Maxwell.Threed
