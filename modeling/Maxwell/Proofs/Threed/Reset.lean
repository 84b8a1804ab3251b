import Maxwell.Proofs.Mme.Lockstep
import Maxwell.Proofs.Threed.Blind
import Maxwell.Proofs.Threed.Semaphores

/-! What a reset leaves of the past. An engine that is reset goes on like a new one that has its macro store and its
    host. Only the timer and the interpreter are those of before. The timer shows in nothing but the ticks of semaphore
    records, and what the interpreter ran before does not show at all. -/

namespace Maxwell

/-! ### Records without their ticks -/

/-- Bytes with the tick, which comes after eight others, set to zero. -/
def withoutTick (bytes : ByteArray) : ByteArray :=
  if bytes.size = 12 then (bytes.data.toList.take 8 ++ [0, 0, 0, 0]).toByteArray else bytes

def HostEvent.withoutTick : HostEvent → HostEvent
  | .store address bytes fault => .store address (Maxwell.withoutTick bytes) fault
  | e => e

namespace Threed

/-- The timer shows in the last four of twelve bytes, if at all. -/
theorem withoutTick_semaphoreRecord (info : SemaphoreInfo) (result : Word) (timer timer' : Timer) :
    (semaphoreRecord info result timer').1.toByteArray.size = (semaphoreRecord info result timer).1.toByteArray.size ∧
    withoutTick (semaphoreRecord info result timer').1.toByteArray =
      withoutTick (semaphoreRecord info result timer).1.toByteArray := by
  unfold semaphoreRecord
  split
  · exact ⟨rfl, rfl⟩
  · exact ⟨rfl, rfl⟩
  · have hrecord : ∀ tick : UInt64, (littleEndian 8 result.toNat ++ littleEndian 4 tick.toNat).toByteArray.size = 12 ∧
        withoutTick (littleEndian 8 result.toNat ++ littleEndian 4 tick.toNat).toByteArray =
          (littleEndian 8 result.toNat ++ [0, 0, 0, 0]).toByteArray := by
      intro tick
      have hsize : (littleEndian 8 result.toNat ++ littleEndian 4 tick.toNat).toByteArray.size = 12 := by
        rw [List.size_toByteArray, List.length_append, length_littleEndian, length_littleEndian]
      refine ⟨hsize, ?_⟩
      rw [withoutTick, if_pos hsize, List.data_toByteArray, List.toList_toArray,
        List.take_left' (length_littleEndian 8 _)]
    exact ⟨(hrecord _).1.trans (hrecord _).1.symm, (hrecord _).2.trans (hrecord _).2.symm⟩

/-! ### Engines that a timer tells apart -/

section
variable {η : Type} [Host η] [BlindHost η]

/-- Two hosts on which the same was asked, but for ticks. -/
structure HostsAlike (g h : Traced η) : Prop where
  host : BlindHost.alike g.host h.host
  events : h.events.map HostEvent.withoutTick = g.events.map HostEvent.withoutTick

/-- Two states that are the same but for the timers and the ticks that were stored. -/
def AlikeButTimer (s t : Core × Traced η) : Prop :=
  ∃ timer host, t = ({ s.1 with timer }, host) ∧ HostsAlike s.2 host

theorem HostsAlike.record {ε : Type} {g h : Traced η} (hgh : HostsAlike g h) {event event' : Option ε → HostEvent}
    (hevent : ∀ fault?, (event' fault?).withoutTick = (event fault?).withoutTick) {act act' : EStateM ε η Unit}
    (hact : Paired BlindHost.alike (act g.host) (act' h.host)) :
    Paired HostsAlike (Traced.record event act g) (Traced.record event' act' h) := by
  obtain ⟨g, events⟩ := g
  obtain ⟨h, events'⟩ := h
  have hevents : events'.map HostEvent.withoutTick = events.map HostEvent.withoutTick := hgh.events
  simp only [Traced.record]
  generalize act g = r, act' h = r' at hact
  cases hact with
  | ok _ h => exact .ok () ⟨h, by rw [List.map_cons, List.map_cons, hevent, hevents]⟩
  | error fault h => exact .error fault ⟨h, by rw [List.map_cons, List.map_cons, hevent, hevents]⟩

namespace AlikeButTimer
variable {s t : Core × Traced η}

theorem onHost {ε : Type} (core : Core) {timer : Timer} {g h : Traced η} (cause : ε → Fault)
    {act act' : EStateM ε (Traced η) Unit} (hact : Paired HostsAlike (act g) (act' h)) :
    Paired AlikeButTimer (onHost cause act (core, g)) (onHost cause act' ({ core with timer }, h)) := by
  simp only [Threed.onHost]
  generalize act g = r, act' h = r' at hact
  cases hact with
  | ok _ h => exact .ok () ⟨timer, _, rfl, h⟩
  | error fault h => exact .error _ ⟨timer, _, rfl, h⟩

theorem flushSink (h : AlikeButTimer s t) : Paired AlikeButTimer (flushSink s) (flushSink t) := by
  obtain ⟨timer, host, rfl, hhost⟩ := h
  exact onHost _ .sink (hhost.record (fun _ => rfl) (BlindHost.flush hhost.host))

/-- A semaphore stores two records alike, with a tick in both or in neither. -/
theorem semaphore (h : AlikeButTimer s t) : Paired AlikeButTimer (performSemaphore s) (performSemaphore t) := by
  obtain ⟨core, g⟩ := s
  obtain ⟨timer, host, rfl, hhost⟩ := h
  dsimp only at hhost
  unfold performSemaphore
  dsimp only
  cases semaphoreResult? core.live with
  | none => exact .ok () ⟨timer, host, rfl, hhost⟩
  | some result =>
    dsimp only
    obtain ⟨hsize, hticks⟩ := withoutTick_semaphoreRecord core.live.semaphoreInfo result core.timer timer
    generalize semaphoreRecord core.live.semaphoreInfo result core.timer = recorded,
      semaphoreRecord core.live.semaphoreInfo result timer = recorded' at hsize hticks
    have hstore : Paired HostsAlike (GuestMemory.store core.live.semaphoreAddress recorded.1.toByteArray g)
        (GuestMemory.store core.live.semaphoreAddress recorded'.1.toByteArray host) := by
      refine hhost.record (fun fault? => ?_) (BlindHost.store hhost.host _ hsize)
      exact congrArg (HostEvent.store core.live.semaphoreAddress · fault?) hticks
    exact onHost { core with timer := recorded.2 } .memory hstore

theorem fire (h : AlikeButTimer s t) (trigger : Trigger) (value : Word) :
    Paired AlikeButTimer (trigger.fire value s) (trigger.fire value t) := by
  cases trigger with
  | syncpoint =>
    refine h.flushSink.bind fun _ s t h => ?_
    obtain ⟨timer, host, rfl, hhost⟩ := h
    dsimp only
    split
    · exact .ok () ⟨timer, _, rfl, BlindHost.increment hhost.host _, congrArg (List.cons _) hhost.events⟩
    · exact .ok () ⟨timer, host, rfl, hhost⟩
  | clear =>
    obtain ⟨timer, host, rfl, hhost⟩ := h
    exact onHost _ .sink (hhost.record (fun _ => rfl) (BlindHost.clear hhost.host _ _))
  | semaphore => exact h.semaphore
  | firmwareCall =>
    obtain ⟨timer, host, rfl, hhost⟩ := h
    exact .ok () ⟨timer, host, rfl, hhost⟩

theorem perform (h : AlikeButTimer s t) (control : Control) (value : Word) :
    Paired AlikeButTimer (control.perform value s) (control.perform value t) := by
  cases control with
  | noOperation | shadowMode => exact .ok () h
  | waitForIdle => exact h.flushSink
  | codePointer | codeLoad | startPointer | startLoad =>
    obtain ⟨timer, host, rfl, hhost⟩ := h
    exact .ok () ⟨timer, host, rfl, hhost⟩

theorem write (h : AlikeButTimer s t) (method : Nat) (argument : Word) :
    Paired AlikeButTimer (write method argument s) (write method argument t) := by
  obtain ⟨core, g⟩ := s
  obtain ⟨timer, host, rfl, hhost⟩ := h
  dsimp only at hhost
  cases hc : Control.ofMethod? method with
  | some control =>
    rw [write_control hc, write_control hc]
    exact perform ⟨timer, host, rfl, hhost⟩ control argument
  | none =>
    let w : WriteAt (Traced η) := ⟨core, g, method, argument⟩
    let v : WriteAt (Traced η) := ⟨{ core with timer }, host, method, argument⟩
    have hlanded : v.landed? = w.landed? := rfl
    show Paired AlikeButTimer w.outcome v.outcome
    rw [WriteAt.outcome_of_none (w := w) hc, WriteAt.outcome_of_none (w := v) hc, hlanded]
    cases w.landed? with
    | none => exact .ok () ⟨timer, host, rfl, hhost⟩
    | some value =>
      have hreported : Paired HostsAlike (w.reported value) (v.reported value) := by
        unfold WriteAt.reported
        by_cases hsame : core.live.read method = value
        · rw [if_pos hsame, if_pos hsame]
          exact .ok () hhost
        · rw [if_neg hsame, if_neg hsame]
          exact hhost.record (fun _ => rfl) (BlindHost.notify hhost.host _ _)
      dsimp only
      generalize w.reported value = r, v.reported value = r' at hreported
      cases hreported with
      | error fault h => exact .error _ ⟨timer, _, rfl, h⟩
      | ok _ h =>
        have halike : AlikeButTimer (w.landing value, _) (v.landing value, _) := ⟨timer, _, rfl, h⟩
        dsimp only
        unfold fireTrigger
        cases Trigger.ofMethod? method with
        | none => exact .ok () halike
        | some trigger => exact halike.fire trigger value

theorem lockstep : Mme.Lockstep (AlikeButTimer (η := η)) fun _ _ => True where
  quiet := quiet
  fetch h offset := by
    obtain ⟨timer, host, rfl, -⟩ := h
    rfl
  read h method := by
    obtain ⟨timer, host, rfl, -⟩ := h
    rfl
  send h send _ := by
    by_cases hmethod : send.1 < registerCount
    · rw [makeSend_of_lt hmethod, makeSend_of_lt hmethod]
      exact h.write send.1 send.2
    · rw [makeSend_of_le (Nat.not_lt.mp hmethod), makeSend_of_le (Nat.not_lt.mp hmethod)]
      exact .ok () h

theorem effect (h : AlikeButTimer s t) (stepLimit : Nat) (act : Act) :
    Paired AlikeButTimer (act.effect stepLimit s) (act.effect stepLimit t) := by
  cases act with
  | write method argument => exact h.write method argument
  | invoke invocation =>
    have hstore : t.1.store = s.1.store := by
      obtain ⟨timer, host, rfl, -⟩ := h
      rfl
    show Paired _ (settled (invocation.run stepLimit s)) (settled (invocation.run stepLimit t))
    rw [Invocation.run, Invocation.run, hstore]
    exact (lockstep.run stepLimit _ _ h (.of_forall (fun _ _ => trivial) _ _)).settled

end AlikeButTimer

/-! ### Calls -/

/-- Two engines that go on alike: with the same registers, macro store, pending invocation and step limit, before hosts
    on which the same was asked, but for ticks. The machines of their interpreters may be in any state. -/
structure Indistinct (s t : Threed × Traced η) : Prop where
  live : t.1.core.live = s.1.core.live
  shadow : t.1.core.shadow = s.1.core.shadow
  store : t.1.core.store = s.1.core.store
  pending : t.1.pending = s.1.pending
  stepLimit : t.1.stepLimit = s.1.stepLimit
  host : HostsAlike s.2 t.2

theorem AlikeButTimer.indistinct {s t : Core × Traced η} (h : AlikeButTimer s t) (pending : Option Invocation)
    (stepLimit : Nat) (machine machine' : Mme.Machine) :
    Indistinct (⟨s.1, pending, stepLimit, machine⟩, s.2) (⟨t.1, pending, stepLimit, machine'⟩, t.2) := by
  obtain ⟨timer, host, rfl, hhost⟩ := h
  exact ⟨rfl, rfl, rfl, rfl, rfl, hhost⟩

namespace Indistinct
variable {s t : Threed × Traced η}

theorem alikeButTimer (h : Indistinct s t) : AlikeButTimer (coreOf s) (coreOf t) := by
  obtain ⟨⟨⟨live, shadow, store, timer⟩, pending, interpreter⟩, host⟩ := t
  obtain ⟨rfl, rfl, rfl, rfl, -, hhost⟩ := h
  exact ⟨timer, host, rfl, hhost⟩

theorem make (h : Indistinct s t) (r : Request) : Paired Indistinct (r.make s) (r.make t) := by
  obtain ⟨⟨core, pending, stepLimit, machine⟩, host⟩ := s
  obtain ⟨⟨core', pending', stepLimit', machine'⟩, host'⟩ := t
  obtain rfl : pending' = pending := h.pending
  obtain rfl : stepLimit' = stepLimit := h.stepLimit
  have hacts : Paired AlikeButTimer ((r.acts pending').forM (Act.effect stepLimit') (core, host))
      ((r.acts pending').forM (Act.effect stepLimit') (core', host')) :=
    Paired.forM (fun act _ _ h => AlikeButTimer.effect h stepLimit' act) (r.acts pending') h.alikeButTimer
  obtain ⟨after, hs⟩ := exists_make r core pending' stepLimit' machine host
  obtain ⟨after', ht⟩ := exists_make r core' pending' stepLimit' machine' host'
  rw [hs, ht]
  generalize (r.acts pending').forM (Act.effect stepLimit') (core, host) = outcome,
    (r.acts pending').forM (Act.effect stepLimit') (core', host') = outcome' at hacts
  cases hacts with
  | ok _ h => exact .ok () (h.indistinct _ _ _ _)
  | error fault h => exact .error fault (h.indistinct _ _ _ _)

theorem stateAfter (h : Indistinct s t) (requests : List Request) :
    Indistinct (stateAfter requests s) (stateAfter requests t) := by
  induction requests generalizing s t with
  | nil => exact h
  | cons r requests ih => exact ih (h.make r).stateOf

end Indistinct

/-- A reset forgets the past but for the macro store, the host and the timer. Let an engine be called any number of
    times, whether the calls fail or not, and then be reset, with its interpreter left as the latest macro left it.
    Every call on it from then on ends as on a new engine, with a new interpreter, that has its macro store and step
    limit and is before its host, and leaves both with the same registers and the same pending invocation, and with the
    same requests to the hosts on record, but for the ticks in them. A record changes nothing of a run. -/
theorem reset_indistinct (past : List Request) (t : Threed) (host : η) (readings : Nat → UInt64) :
    let old := stateAfter past (t, host)
    let fresh : Threed := .new old.1.stepLimit readings
    let recorded := fun (u : Threed) => (u, (⟨old.2, []⟩ : Traced η))
    ∀ (done : List Request) (r : Request),
      Paired Indistinct (r.make (stateAfter done (recorded old.1.reset)))
        (r.make (stateAfter done (recorded { fresh with core := { fresh.core with store := old.1.core.store } }))) ∧
      ∀ u, through (mapHost Traced.host) (r.make (stateAfter done (recorded u))) =
        r.make (stateAfter done (u, old.2)) := by
  intro old fresh recorded done r
  clear_value old
  have hstart : Indistinct (recorded old.1.reset)
      (recorded { fresh with core := { fresh.core with store := old.1.core.store } }) :=
    ⟨rfl, rfl, rfl, rfl, by dsimp only [recorded, fresh, Threed.new, Threed.reset, Threed.stepLimit],
      BlindHost.refl old.2, rfl⟩
  refine ⟨(hstart.stateAfter done).make r, fun u => ?_⟩
  rw [← Traced.hostMap.make, ← Traced.hostMap.stateAfter]
  rfl

end

end Threed

end Maxwell
