import Maxwell.Memory.Ram
import Maxwell.Proofs.Mme.Lockstep
import Maxwell.Proofs.Threed.History

/-! What cannot be told from outside. Only a replay reads the shadow copy. As long as no write is replayed, two engines
    with the same state but for their shadow copies do the same with every call: macros take the same course, the host
    is asked the same, and calls end alike. The two copies then differ nowhere that they did not at the start. -/

namespace Maxwell.Threed

section
variable {η : Type}

/-! ### Another shadow copy -/

/-- The core with another shadow copy. -/
def withShadow (shadow : RegisterFile) (s : Core × η) : Core × η := ({ s.1 with shadow }, s.2)

theorem commutes_onHost_withShadow {ε : Type} (shadow : RegisterFile) (cause : ε → Fault) (act : EStateM ε η Unit) :
    Commutes (withShadow shadow) (onHost cause act) (onHost cause act) := by
  rintro ⟨core, host⟩
  simp only [onHost, withShadow]
  cases act host <;> rfl

variable [Host η]

theorem Control.commutes_perform (shadow : RegisterFile) (control : Control) (value : Word) :
    Commutes (withShadow shadow) (control.perform value : CoreM η Unit) (control.perform value) := by
  cases control with
  | noOperation | shadowMode => exact Commutes.pure ()
  | waitForIdle => exact commutes_onHost_withShadow shadow _ _
  | codePointer | codeLoad | startPointer | startLoad => exact fun _ => rfl

theorem Trigger.commutes_fire (shadow : RegisterFile) (trigger : Trigger) (value : Word) :
    Commutes (withShadow shadow) (trigger.fire value : CoreM η Unit) (trigger.fire value) := by
  cases trigger with
  | syncpoint =>
    refine (commutes_onHost_withShadow shadow _ _).bind fun _ => ?_
    dsimp only
    split
    · exact fun _ => rfl
    · exact Commutes.pure ()
  | clear => exact fun s => commutes_onHost_withShadow shadow _ _ s
  | semaphore =>
    rintro ⟨core, host⟩
    simp only [Trigger.fire, performSemaphore, withShadow]
    cases semaphoreResult? core.live with
    | none => rfl
    | some result =>
      dsimp only
      generalize semaphoreRecord core.live.semaphoreInfo result core.timer = recorded
      exact commutes_onHost_withShadow shadow .memory
        (GuestMemory.store core.live.semaphoreAddress recorded.1.toByteArray) ({ core with timer := recorded.2 }, host)
  | firmwareCall => exact fun _ => rfl

theorem commutes_fireTrigger (shadow : RegisterFile) (method : Nat) (value : Word) :
    Commutes (withShadow shadow) (fireTrigger method value : CoreM η Unit) (fireTrigger method value) := by
  unfold fireTrigger
  cases Trigger.ofMethod? method with
  | none => exact Commutes.pure ()
  | some trigger => exact trigger.commutes_fire shadow value

/-- Unless it is replayed, a write does the same with another shadow copy, and to each of the two copies the same. -/
theorem write_withShadow {s : Core × η} {method : Nat} (h : s.1.live.shadowMode = .replay → IsControl method)
    (argument : Word) (shadow : RegisterFile) :
    write method argument (withShadow shadow s) =
      through (withShadow ((RegisterCall.on s.1 method argument).shadowAfter shadow)) (write method argument s) := by
  obtain ⟨core, host⟩ := s
  cases hc : Control.ofMethod? method with
  | some control =>
    have hsame : (RegisterCall.on core method argument).shadowAfter shadow = shadow :=
      if_neg fun h => h.1 (isControl_of_some hc)
    rw [write_control hc, write_control hc, hsame]
    exact control.commutes_perform shadow argument ({ core with live := core.live.write method argument }, host)
  | none =>
    have hreplay : core.live.shadowMode ≠ .replay := fun hmode => not_isControl_of_none hc (h hmode)
    let w : WriteAt η := ⟨core, host, method, argument⟩
    let v : WriteAt η := ⟨{ core with shadow }, host, method, argument⟩
    have hword : v.call.landed = w.call.landed :=
      (RegisterCall.landed_of_ne (c := v.call) hreplay).trans (RegisterCall.landed_of_ne (c := w.call) hreplay).symm
    have hlanded : v.landed? = w.landed? := by
      rw [WriteAt.landed?, WriteAt.landed?, hword]
      rfl
    show v.outcome = through (withShadow (w.call.shadowAfter shadow)) w.outcome
    rw [WriteAt.outcome_of_none (w := v) hc, WriteAt.outcome_of_none (w := w) hc, hlanded]
    cases hland : w.landed? with
    | none =>
      have hfilter : w.call.mode = .trackWithFilter := WriteAt.mode_of_landed_eq_none hc hland
      have hstaged : w.call.shadowAfter shadow = shadow.write method argument :=
        if_pos ⟨not_isControl_of_none hc, by rw [hfilter]; rfl⟩
      rw [hstaged]
      rfl
    | some value =>
      have hreported : v.reported value = w.reported value := rfl
      dsimp only
      rw [hreported]
      cases w.reported value with
      | ok _ host => exact commutes_fireTrigger (w.call.shadowAfter shadow) method value (w.landing value, host)
      | error fault host => rfl

/-! ### Two engines -/

/-- Whether a write is none that is replayed. -/
def WriteAt.Unreplayed (w : WriteAt η) : Prop := w.core.live.read 0x49 = 3 → IsControl w.method

/-- Two states that are the same but for their shadow copies, which are the same where they are not said to differ. -/
def Twins (differ : Nat → Prop) (s t : Core × η) : Prop :=
  ∃ shadow, t = withShadow shadow s ∧ ∀ o, ¬differ o → shadow.read o = s.1.shadow.read o

/-- A send that is no write to a register, or one that is not replayed. -/
def UnreplayedSend (send : Nat × Word) (s : Core × η) : Prop :=
  send.1 < registerCount → (⟨s.1, s.2, send.1, send.2⟩ : WriteAt η).Unreplayed

omit [Host η] in
theorem word_of_replay {w : Word} (h : ShadowMode.ofWord w = .replay) : w = 3 := by
  unfold ShadowMode.ofWord at h
  split at h
  · cases h
  · cases h
  · next hword => exact UInt32.toNat_inj.mp hword
  · cases h

variable {differ : Nat → Prop} {s t : Core × η}

namespace Twins

theorem write {method : Nat} {argument : Word} (h : Twins differ s t)
    (hw : (⟨s.1, s.2, method, argument⟩ : WriteAt η).Unreplayed) :
    Paired (Twins differ) (write method argument s) (write method argument t) := by
  obtain ⟨shadow, rfl, hshadow⟩ := h
  have hmode : s.1.live.shadowMode = .replay → IsControl method := fun hmode => hw (word_of_replay hmode)
  -- The state's own shadow copy is another one like any other.
  have hown : (stateOf (Threed.write method argument s)).1.shadow =
      (RegisterCall.on s.1 method argument).shadowAfter s.1.shadow := by
    have hsame := congrArg stateOf (write_withShadow hmode argument s.1.shadow)
    rw [stateOf_through] at hsame
    exact congrArg (fun u => u.1.shadow) hsame
  rw [write_withShadow hmode]
  refine Paired.through ⟨_, rfl, fun o ho => ?_⟩
  rw [hown]
  exact RegisterCall.read_shadowAfter_congr (hshadow o ho)

theorem lockstep : Mme.Lockstep (Twins (η := η) differ) UnreplayedSend where
  quiet := quiet
  fetch h offset := by
    obtain ⟨shadow, rfl, -⟩ := h
    rfl
  read h method := by
    obtain ⟨shadow, rfl, -⟩ := h
    rfl
  send h send hsend := by
    by_cases hmethod : send.1 < registerCount
    · rw [makeSend_of_lt hmethod, makeSend_of_lt hmethod]
      exact h.write (hsend hmethod)
    · have hle : registerCount ≤ send.1 := Nat.not_lt.mp hmethod
      rw [makeSend_of_le hle, makeSend_of_le hle]
      exact .ok () h

end Twins

theorem along_unreplayed {sends : List (Nat × Word)}
    (h : ∀ w ∈ writesFrom (sends.filter fun send => send.1 < registerCount) s, w.Unreplayed) :
    Along UnreplayedSend Mme.makeSend sends s := by
  induction sends generalizing s with
  | nil => trivial
  | cons send sends ih =>
    by_cases hmethod : send.1 < registerCount
    · rw [List.filter_cons_of_pos (by simpa using hmethod), writesFrom] at h
      refine ⟨fun _ => h _ List.mem_cons_self, fun t ht => ih fun w hw => ?_⟩
      rw [makeSend_of_lt hmethod] at ht
      rw [ht] at h
      exact h w (List.mem_cons_of_mem _ hw)
    · rw [List.filter_cons_of_neg (by simpa using hmethod)] at h
      refine ⟨fun hlt => absurd hlt hmethod, fun t ht => ?_⟩
      rw [makeSend_of_le (Nat.not_lt.mp hmethod)] at ht
      cases ht
      exact ih h

theorem along_effect {stepLimit : Nat} {acts : List Act} (h : ∀ w ∈ writesOfActs stepLimit acts s, w.Unreplayed) :
    Along (fun act s => ∀ w ∈ writesFrom (act.sends stepLimit s) s, w.Unreplayed) (Act.effect stepLimit) acts s := by
  induction acts generalizing s with
  | nil => trivial
  | cons act acts ih =>
    rw [writesOfActs] at h
    refine ⟨fun w hw => h w (List.mem_append_left _ hw), fun t ht => ih fun w hw => ?_⟩
    rw [ht] at h
    exact h w (List.mem_append_right _ hw)

theorem Twins.effect {stepLimit : Nat} {act : Act} (h : Twins differ s t)
    (hact : ∀ w ∈ writesFrom (act.sends stepLimit s) s, w.Unreplayed) :
    Paired (Twins differ) (act.effect stepLimit s) (act.effect stepLimit t) := by
  cases act with
  | write method argument => exact h.write (hact _ List.mem_cons_self)
  | invoke invocation =>
    have hstore : t.1.store = s.1.store := by
      obtain ⟨shadow, rfl, -⟩ := h
      rfl
    show Paired _ (settled (invocation.run stepLimit s)) (settled (invocation.run stepLimit t))
    rw [Invocation.run, Invocation.run, hstore]
    exact (Twins.lockstep.run stepLimit _ _ h (along_unreplayed hact)).settled

/-! ### Calls -/

/-- Two engines before their hosts that are the same but for their shadow copies, which are the same where they are
    not said to differ, and for what their interpreters ran before. -/
structure Alike (differ : Nat → Prop) (s t : Threed × η) : Prop where
  live : t.1.core.live = s.1.core.live
  store : t.1.core.store = s.1.core.store
  timer : t.1.core.timer = s.1.core.timer
  pending : t.1.pending = s.1.pending
  stepLimit : t.1.stepLimit = s.1.stepLimit
  host : t.2 = s.2
  shadow : ∀ o, ¬differ o → t.1.core.shadow.read o = s.1.core.shadow.read o

omit [Host η] in
theorem Twins.alike (h : Twins differ s t) (pending : Option Invocation) (stepLimit : Nat)
    (machine machine' : Mme.Machine) :
    Alike differ (⟨s.1, pending, stepLimit, machine⟩, s.2) (⟨t.1, pending, stepLimit, machine'⟩, t.2) := by
  obtain ⟨shadow, rfl, hshadow⟩ := h
  exact ⟨rfl, rfl, rfl, rfl, rfl, rfl, hshadow⟩

namespace Alike
variable {s t : Threed × η}

omit [Host η] in
theorem twins (h : Alike differ s t) : Twins differ (coreOf s) (coreOf t) := by
  obtain ⟨⟨⟨live, shadow, store, timer⟩, pending, interpreter⟩, host⟩ := t
  obtain ⟨rfl, rfl, rfl, rfl, -, rfl, hshadow⟩ := h
  exact ⟨shadow, rfl, hshadow⟩

/-- A call whose writes are not replayed leaves two such engines alike, and ends alike on both. -/
theorem make (h : Alike differ s t) {r : Request} (hr : ∀ w ∈ r.writes s, w.Unreplayed) :
    Paired (Alike differ) (r.make s) (r.make t) := by
  obtain ⟨⟨core, pending, stepLimit, machine⟩, host⟩ := s
  obtain ⟨⟨core', pending', stepLimit', machine'⟩, host'⟩ := t
  obtain rfl : pending' = pending := h.pending
  obtain rfl : stepLimit' = stepLimit := h.stepLimit
  have hacts : Paired (Twins differ) ((r.acts pending').forM (Act.effect stepLimit') (core, host))
      ((r.acts pending').forM (Act.effect stepLimit') (core', host')) :=
    (along_effect hr).paired (fun _ _ _ h hact => h.effect hact) h.twins
  obtain ⟨after, hs⟩ := exists_make r core pending' stepLimit' machine host
  obtain ⟨after', ht⟩ := exists_make r core' pending' stepLimit' machine' host'
  rw [hs, ht]
  generalize (r.acts pending').forM (Act.effect stepLimit') (core, host) = outcome,
    (r.acts pending').forM (Act.effect stepLimit') (core', host') = outcome' at hacts
  cases hacts with
  | ok _ h => exact .ok () (h.alike _ _ _ _)
  | error fault h => exact .error fault (h.alike _ _ _ _)

theorem stateAfter {requests : List Request} (h : Alike differ s t) (hw : ∀ w ∈ writesOf requests s, w.Unreplayed) :
    Alike differ (stateAfter requests s) (stateAfter requests t) := by
  induction requests generalizing s t with
  | nil => exact h
  | cons r requests ih =>
    have hmake := h.make fun w hr => hw w (List.mem_append_left _ hr)
    exact ih hmake.stateOf fun w hrest => hw w (List.mem_append_right _ hrest)

end Alike

/-- The shadow copy cannot be told from outside a replay. Let two engines be the same but for their shadow copies. If
    a run of calls on the first writes to no register but those of controls while it finds the word of the replay mode
    in the live copy, then each of its calls ends alike on both engines, and leaves both with the same live registers,
    macro store, timer and pending invocation, with the same requests to their hosts on record, and with shadow copies
    that are the same wherever they were at the start. A record changes nothing of a run. -/
theorem alike_make (requests : List Request) (t : Threed) (shadow : RegisterFile) (host : η)
    (hreplay : ∀ w ∈ writesOf requests (t, (⟨host, []⟩ : Traced η)),
      w.core.live.read 0x49 = 3 → IsControl w.method) :
    let recorded := fun (t : Threed) => (t, (⟨host, []⟩ : Traced η))
    ∀ before r after, requests = before ++ r :: after →
      Paired (Alike fun o => shadow.read o ≠ t.core.shadow.read o) (r.make (stateAfter before (recorded t)))
        (r.make (stateAfter before (recorded { t with core := { t.core with shadow } }))) ∧
      ∀ u, through (mapHost Traced.host) (r.make (stateAfter before (recorded u))) =
        r.make (stateAfter before (u, host)) := by
  intro recorded before r after hrequests
  rw [hrequests, writesOf_append] at hreplay
  have hstart : Alike (fun o => shadow.read o ≠ t.core.shadow.read o) (recorded t)
      (recorded { t with core := { t.core with shadow } }) :=
    ⟨rfl, rfl, rfl, rfl, rfl, rfl, fun o ho => Decidable.not_not.mp ho⟩
  have hbefore := hstart.stateAfter fun w hw => hreplay w (List.mem_append_left _ hw)
  refine ⟨hbefore.make fun w hw => hreplay w (List.mem_append_right _ (List.mem_append_left _ hw)), fun u => ?_⟩
  rw [← Traced.hostMap.make, ← Traced.hostMap.stateAfter]
  rfl

end

/-- Two engines whose shadow copies differ in one register. In the replay mode there are two calls to controls, and
    then the register is staged. -/
theorem alike_make_controls :
    let before : List Request := [⟨0x49, 3, false⟩, ⟨0x44, 0, false⟩, ⟨0x49, 1, true⟩]
    let last : Request := ⟨0x680, 7, false⟩
    let t := Threed.new 100 fun _ => 0
    let shadow := RegisterFile.reset.write 0x680 5
    let host : Traced (Board NullSink Ram) := ⟨⟨⟨⟩, Ram.zeros 0, {}⟩, []⟩
    (∀ w ∈ writesOf (before ++ [last]) (t, host), w.core.live.read 0x49 = 3 → IsControl w.method) ∧
    Paired (Alike fun o => shadow.read o ≠ t.core.shadow.read o) (last.make (stateAfter before (t, host)))
      (last.make (stateAfter before ({ t with core := { t.core with shadow } }, host))) := by
  intro before last t shadow host
  have hreplay : ∀ w ∈ writesOf (before ++ [last]) (t, host), w.core.live.read 0x49 = 3 → IsControl w.method := by
    show ∀ w ∈ writesOf [_, _, _, last] (idle t.interpreter (t.core, host)),
      w.core.live.read 0x49 = 3 → IsControl w.method
    rw [writesOf_cons_idle (by decide), writesOf_cons_idle (by decide), writesOf_cons_idle (by decide),
      writesOf_cons_idle (by decide), writesOf]
    simp only [List.forall_mem_cons, List.not_mem_nil, false_imp_iff, implies_true, and_true]
    refine ⟨fun _ => by decide, fun _ => by decide, fun _ => by decide, fun h => ?_⟩
    have hmode (s : Core × Traced (Board NullSink Ram)) : (stateOf (write 0x49 1 s)).1.live.read 0x49 = 1 := by
      show (s.1.live.write 0x49 1).read 0x49 = 1
      rw [RegisterFile.read_write, if_pos (by decide)]
    rw [hmode] at h
    exact absurd h (by decide)
  obtain ⟨hpaired, -⟩ := alike_make (before ++ [last]) t shadow host.host hreplay before last [] rfl
  exact ⟨hreplay, hpaired⟩

end Maxwell.Threed
