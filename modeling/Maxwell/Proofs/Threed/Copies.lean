import Maxwell.Memory.Ram
import Maxwell.Proofs.Threed.Write

/-! The two copies of the registers over a history of calls to registers. A word of either copy is the doing
    of one call: the last of those that reach it there. Which calls reach it depends on the shadow mode that
    each of them found, and what they leave is their argument or, in a replay, the word they found staged.
    Only the result of firmware calls has a second writer. -/

namespace Maxwell.Threed
open Maxwell.Field

/-! ### Calls with what they find -/

/-- A call to a register, with the shadow mode and the shadow word of the register just before it. -/
structure RegisterCall where
  method : Nat
  argument : Word
  mode : ShadowMode
  staged : Word
  deriving DecidableEq, Repr

namespace RegisterCall

def on (core : Core) (method : Nat) (argument : Word) : RegisterCall :=
  ⟨method, argument, core.live.shadowMode, core.shadow.read method⟩

/-- The word of a routed call that reaches the live copy. -/
def landed (c : RegisterCall) : Word :=
  match c.mode with
  | .track | .trackWithFilter | .passthrough => c.argument
  | .replay => c.staged

/-- The live copy after a call. The fourth firmware call acknowledges itself in a second register. -/
def liveAfter (c : RegisterCall) (live : RegisterFile) : RegisterFile :=
  if IsControl c.method then live.write c.method c.argument
  else if c.mode = .trackWithFilter then live
  else if c.method = 0x8C4 then (live.write c.method c.landed).write 0xD00 1
  else live.write c.method c.landed

def shadowAfter (c : RegisterCall) (shadow : RegisterFile) : RegisterFile :=
  if ¬IsControl c.method ∧ c.mode.writesShadow = true then shadow.write c.method c.argument else shadow

/-! ### Words after a call -/

variable {c : RegisterCall} {o : Nat}

theorem landed_of_ne (h : c.mode ≠ .replay) : c.landed = c.argument := by
  unfold landed
  split
  · rfl
  · rfl
  · rfl
  · next hmode => exact absurd hmode h

theorem read_liveAfter_control (hc : c.method < registerCount) (ho : IsControl o) (live : RegisterFile) :
    (c.liveAfter live).read o = if c.method = o then c.argument else live.read o := by
  have hack : o ≠ 0xD00 ∧ o ≠ 0x8C4 := by
    unfold IsControl at ho
    omega
  unfold liveAfter
  grind [RegisterFile.read_write]

theorem read_shadowAfter_control (ho : IsControl o) (shadow : RegisterFile) :
    (c.shadowAfter shadow).read o = shadow.read o := by
  unfold shadowAfter
  grind [RegisterFile.read_write]

theorem read_shadowAfter (hc : c.method < registerCount) (ho : ¬IsControl o) (shadow : RegisterFile) :
    (c.shadowAfter shadow).read o =
      if c.method = o ∧ (c.mode = .track ∨ c.mode = .trackWithFilter) then c.argument else shadow.read o := by
  unfold shadowAfter ShadowMode.writesShadow
  grind [RegisterFile.read_write]

theorem read_shadowAfter_congr {shadow other : RegisterFile} (h : shadow.read o = other.read o) :
    (c.shadowAfter shadow).read o = (c.shadowAfter other).read o := by
  unfold shadowAfter
  split
  · rw [RegisterFile.read_write, RegisterFile.read_write, h]
  · exact h

theorem read_liveAfter (hc : c.method < registerCount) (ho : ¬IsControl o) (hne : o ≠ 0xD00) (live : RegisterFile) :
    (c.liveAfter live).read o = if c.method = o ∧ c.mode ≠ .trackWithFilter then c.landed else live.read o := by
  unfold liveAfter
  grind [RegisterFile.read_write]

theorem read_liveAfter_acknowledged (live : RegisterFile) :
    (c.liveAfter live).read 0xD00 =
      if (c.method = 0xD00 ∨ c.method = 0x8C4) ∧ c.mode ≠ .trackWithFilter then
        if c.method = 0x8C4 then 1 else c.landed
      else live.read 0xD00 := by
  have hcontrol : ¬IsControl 0xD00 ∧ ¬IsControl 0x8C4 := by decide
  unfold liveAfter
  grind [RegisterFile.read_write]

end RegisterCall

section
variable {η : Type} [Host η]

/-! ### What a write does to the copies -/

/-- Work that leaves both copies as they are, if it succeeds. -/
def KeepsCopies (act : CoreM η Unit) : Prop :=
  ∀ ⦃s t : Core × η⦄, act s = .ok () t → t.1.live = s.1.live ∧ t.1.shadow = s.1.shadow

omit [Host η] in
theorem keepsCopies_pure : KeepsCopies (pure () : CoreM η Unit) := by
  rintro s t h
  cases h
  exact ⟨rfl, rfl⟩

omit [Host η] in
theorem keepsCopies_onHost {ε : Type} (cause : ε → Fault) (act : EStateM ε η Unit) :
    KeepsCopies (onHost cause act) := by
  rintro ⟨core, host⟩ t h
  simp only [onHost] at h
  split at h
  · cases h
    exact ⟨rfl, rfl⟩
  · cases h

omit [Host η] in
theorem KeepsCopies.bind {x : CoreM η Unit} {f : Unit → CoreM η Unit} (hx : KeepsCopies x)
    (hf : ∀ a, KeepsCopies (f a)) : KeepsCopies (x >>= f) := by
  intro s u h
  obtain ⟨a, t, h₁, h₂⟩ := bind_eq_ok.mp h
  obtain ⟨hl₁, hs₁⟩ := hx h₁
  obtain ⟨hl₂, hs₂⟩ := hf a h₂
  exact ⟨hl₂.trans hl₁, hs₂.trans hs₁⟩

theorem keepsCopies_report (offset : Nat) : KeepsCopies (report offset : CoreM η Unit) :=
  fun s _ h => keepsCopies_onHost _ (Sink.notify s.1.live (notifySpan offset)) h

theorem Control.keepsCopies (c : Control) (value : Word) : KeepsCopies (c.perform value : CoreM η Unit) := by
  cases c with
  | noOperation | shadowMode => exact keepsCopies_pure
  | waitForIdle => exact keepsCopies_onHost _ _
  | codePointer | codeLoad | startPointer | startLoad =>
    intro s t h
    cases h
    exact ⟨rfl, rfl⟩

theorem keepsCopies_performSemaphore : KeepsCopies (performSemaphore : CoreM η Unit) := by
  rintro ⟨core, host⟩ t h
  simp only [performSemaphore] at h
  split at h
  · cases h
    exact ⟨rfl, rfl⟩
  · have hkept := keepsCopies_onHost _ _ h
    exact hkept

/-- No trigger but that of firmware calls changes a register. -/
theorem Trigger.keepsCopies {trigger : Trigger} (hne : trigger ≠ .firmwareCall) (value : Word) :
    KeepsCopies (trigger.fire value : CoreM η Unit) := by
  cases trigger with
  | syncpoint =>
    refine KeepsCopies.bind (keepsCopies_onHost _ _) fun _ => ?_
    dsimp only
    split
    · intro s t h
      cases h
      exact ⟨rfl, rfl⟩
    · exact keepsCopies_pure
  | clear => exact fun s _ h => keepsCopies_onHost _ (Sink.clear s.1.live (.ofWord value)) h
  | semaphore => exact keepsCopies_performSemaphore
  | firmwareCall => exact absurd rfl hne

theorem land_ok {method : Nat} {value : Word} {s t : Core × η} (h : land method value s = .ok () t) :
    t.1.live = (if method = 0x8C4 then (s.1.live.write method value).write 0xD00 1 else s.1.live.write method value) ∧
    t.1.shadow = s.1.shadow := by
  obtain ⟨core, host⟩ := s
  rw [land_apply] at h
  obtain ⟨_, u, hreport, hfire⟩ := bind_eq_ok.mp h
  obtain ⟨hlive, hshadow⟩ : u.1.live = core.live.write method value ∧ u.1.shadow = core.shadow := by
    split at hreport
    · exact keepsCopies_report method hreport
    · exact keepsCopies_pure hreport
  rw [← hlive, ← hshadow]
  by_cases hm : method = 0x8C4
  · subst hm
    cases hfire
    exact ⟨rfl, rfl⟩
  · rw [if_neg hm]
    cases htrigger : Trigger.ofMethod? method with
    | none =>
      simp only [htrigger] at hfire
      exact keepsCopies_pure hfire
    | some trigger =>
      simp only [htrigger] at hfire
      refine Trigger.keepsCopies ?_ value hfire
      rintro rfl
      exact hm (Trigger.method_of_ofMethod? htrigger).symm

theorem write_ok {method : Nat} {argument : Word} {s t : Core × η} (h : write method argument s = .ok () t) :
    t.1.live = (RegisterCall.on s.1 method argument).liveAfter s.1.live ∧
    t.1.shadow = (RegisterCall.on s.1 method argument).shadowAfter s.1.shadow := by
  cases hc : Control.ofMethod? method with
  | some control =>
    have hcontrol : IsControl method := isControl_of_some hc
    rw [write_control hc] at h
    simpa [RegisterCall.liveAfter, RegisterCall.shadowAfter, RegisterCall.on, hcontrol]
      using control.keepsCopies argument h
  | none =>
    have hcontrol : ¬IsControl method := not_isControl_of_none hc
    rw [write_route hc, route_apply] at h
    cases hmode : s.1.live.shadowMode with
    | trackWithFilter =>
      simp only [hmode] at h
      cases h
      simp [RegisterCall.liveAfter, RegisterCall.shadowAfter, RegisterCall.on, hcontrol, hmode,
        ShadowMode.writesShadow]
    | track | passthrough | replay =>
      simp only [hmode] at h
      simpa [RegisterCall.liveAfter, RegisterCall.shadowAfter, RegisterCall.on, RegisterCall.landed, hcontrol, hmode,
        ShadowMode.writesShadow] using land_ok h

/-! ### Last writers -/

/-- The calls of a run to registers, each with what it finds. -/
def historyFrom (s : Threed × η) : List Request → List RegisterCall
  | [] => []
  | r :: requests => .on s.1.core r.method r.argument :: historyFrom (stateOf (r.make s)) requests

/-- The word that the last call satisfying `p` leaves, and `initial` if there is none. -/
def lastWord (p : RegisterCall → Bool) (left : RegisterCall → Word) (initial : Word) (history : List RegisterCall) :
    Word :=
  ((history.findRev? p).map left).getD initial

theorem lastWord_cons (p : RegisterCall → Bool) (left : RegisterCall → Word) (initial : Word) (c : RegisterCall)
    (history : List RegisterCall) :
    lastWord p left initial (c :: history) = lastWord p left (if p c then left c else initial) history := by
  unfold lastWord
  rw [List.findRev?]
  cases history.findRev? p with
  | some _ => rfl
  | none => cases hp : p c <;> simp

theorem lastWord_false (left : RegisterCall → Word) (initial : Word) (history : List RegisterCall) :
    lastWord (fun _ => false) left initial history = initial := by
  induction history with
  | nil => rfl
  | cons c history ih => exact (lastWord_cons _ _ _ c history).trans ih

/-- A word that each call sets to what it leaves, or keeps, is in the end what the last of these calls leaves. -/
theorem read_makeAll (view : RegisterFile → RegisterFile → Word) {p : RegisterCall → Bool}
    {left : RegisterCall → Word}
    (hstep : ∀ c : RegisterCall, c.method < registerCount → ∀ live shadow,
      view (c.liveAfter live) (c.shadowAfter shadow) = if p c then left c else view live shadow)
    {requests : List Request} (hregister : ∀ r ∈ requests, r.method < registerCount)
    {interpreter : Mme.Interpreter} {s : Core × η} {t : Threed × η}
    (hok : makeAll requests (idle interpreter s) = .ok () t) :
    view t.1.core.live t.1.core.shadow =
      lastWord p left (view s.1.live s.1.shadow) (historyFrom (idle interpreter s) requests) := by
  -- The first call leaves the word that the rest of the history starts from.
  induction requests generalizing s with
  | nil =>
    cases hok
    rfl
  | cons r requests ih =>
    have hr : r.method < registerCount := hregister r List.mem_cons_self
    rw [historyFrom, lastWord_cons, make_idle hr]
    rw [makeAll, forM_cons_apply, make_idle hr] at hok
    cases hwrite : write r.method r.argument s with
    | error fault u => simp [hwrite] at hok
    | ok _ u =>
      simp only [hwrite, through_ok] at hok
      obtain ⟨hlive, hshadow⟩ := write_ok hwrite
      rw [through_ok, stateOf, ih (fun r hr => hregister r (List.mem_cons_of_mem _ hr)) hok, hlive, hshadow,
        hstep _ (show _ < _ from hr)]
      rfl

theorem read_makeAll_new (view : RegisterFile → RegisterFile → Word) {p : RegisterCall → Bool}
    {left : RegisterCall → Word}
    (hstep : ∀ c : RegisterCall, c.method < registerCount → ∀ live shadow,
      view (c.liveAfter live) (c.shadowAfter shadow) = if p c then left c else view live shadow)
    {requests : List Request} (hregister : ∀ r ∈ requests, r.method < registerCount) {stepLimit : Nat}
    {readings : Nat → UInt64} {host : η} {t : Threed × η}
    (hok : makeAll requests (Threed.new stepLimit readings, host) = .ok () t) :
    view t.1.core.live t.1.core.shadow =
      lastWord p left (view .reset .reset) (historyFrom (Threed.new stepLimit readings, host) requests) :=
  read_makeAll view hstep hregister (s := (({ timer := { readings } } : Core), host)) hok

/-- What the words of the two copies are after a history of calls to registers. -/
structure LastWriter (history : List RegisterCall) (live shadow : RegisterFile) : Prop where
  /-- The live word of a control is its last argument. -/
  controlLive : ∀ o, IsControl o →
    live.read o = lastWord (fun c => c.method = o) (fun c => c.argument) (RegisterFile.reset.read o) history
  /-- The shadow word of a control never changes. -/
  controlShadow : ∀ o, IsControl o → shadow.read o = RegisterFile.reset.read o
  /-- Any other shadow word is the last argument that was tracked. -/
  routedShadow : ∀ o, ¬IsControl o →
    shadow.read o = lastWord (fun c => c.method = o ∧ (c.mode = .track ∨ c.mode = .trackWithFilter))
      (fun c => c.argument) (RegisterFile.reset.read o) history
  /-- Any other live word but one is what the last call that was not filtered brought there. -/
  routedLive : ∀ o, ¬IsControl o → o ≠ 0xD00 →
    live.read o = lastWord (fun c => c.method = o ∧ c.mode ≠ .trackWithFilter) (fun c => c.landed)
      (RegisterFile.reset.read o) history
  /-- The result of firmware calls is also set to one, by each call to the fourth firmware method that is not
      filtered. -/
  acknowledged :
    live.read 0xD00 = lastWord (fun c => (c.method = 0xD00 ∨ c.method = 0x8C4) ∧ c.mode ≠ .trackWithFilter)
      (fun c => if c.method = 0x8C4 then 1 else c.landed) (RegisterFile.reset.read 0xD00) history

/-- After a run of calls to registers from power-up, every word of the two copies is that of its last writer. -/
theorem lastWriter_makeAll {requests : List Request} (hregister : ∀ r ∈ requests, r.method < registerCount)
    {stepLimit : Nat} {readings : Nat → UInt64} {host : η} {t : Threed × η}
    (hok : makeAll requests (Threed.new stepLimit readings, host) = .ok () t) :
    LastWriter (historyFrom (Threed.new stepLimit readings, host) requests) t.1.core.live t.1.core.shadow := by
  constructor
  · intro o ho
    exact read_makeAll_new (fun live _ => live.read o) (fun c hc live _ => by
      simp [c.read_liveAfter_control hc ho]) hregister hok
  · intro o ho
    -- No call writes it.
    have hread : t.1.core.shadow.read o = lastWord (fun _ => false) (fun c => c.argument) (RegisterFile.reset.read o)
        (historyFrom (Threed.new stepLimit readings, host) requests) :=
      read_makeAll_new (fun _ shadow => shadow.read o) (fun c _ _ shadow => by
        simp [c.read_shadowAfter_control ho]) hregister hok
    rw [hread, lastWord_false]
  · intro o ho
    exact read_makeAll_new (fun _ shadow => shadow.read o) (fun c hc _ shadow => by
      simp [c.read_shadowAfter hc ho]) hregister hok
  · intro o ho hne
    exact read_makeAll_new (fun live _ => live.read o) (fun c hc live _ => by
      simp [c.read_liveAfter hc ho hne]) hregister hok
  · exact read_makeAll_new (fun live _ => live.read 0xD00) (fun c _ live _ => by
      simp [c.read_liveAfter_acknowledged]) hregister hok

end

/-- A run through all four modes, with a word that is staged and replayed and a firmware call. -/
theorem lastWriter_makeAll_modes :
    let requests : List Request := [⟨0x49, 1, false⟩, ⟨0x680, 7, false⟩, ⟨0x49, 3, false⟩, ⟨0x680, 5, true⟩,
      ⟨0x8C4, 0, false⟩, ⟨0x49, 0, false⟩, ⟨0xD00, 4, false⟩, ⟨0x49, 9, false⟩, ⟨0x45, 2, true⟩]
    let start := (Threed.new 0 fun _ => 0, (⟨⟨⟩, Ram.zeros 0, {}⟩ : Board NullSink Ram))
    ∃ t, makeAll requests start = .ok () t ∧
      LastWriter (historyFrom start requests) t.1.core.live t.1.core.shadow := by
  intro requests start
  obtain ⟨t, ht⟩ := makeAll_nullSink
    (show ∀ r ∈ requests, r.method < registerCount ∧ r.method ≠ 0x6C3 by decide) start.1.interpreter
    (start.1.core, start.2)
  exact ⟨t, ht, lastWriter_makeAll (by decide) ht⟩

end Maxwell.Threed
