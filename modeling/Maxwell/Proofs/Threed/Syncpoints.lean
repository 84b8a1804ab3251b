import Maxwell.Proofs.Syncpoint
import Maxwell.Proofs.Threed.History

/-! What counts a syncpoint up: a word that lands in the register of syncpoint actions and asks for an increment, after
    its report and a flush of the sink, if neither fails. So whoever sees a syncpoint count up finds that the work
    before it was flushed, and the value of a syncpoint is the number of these words, as far as it fits. -/

namespace Maxwell

/-- The syncpoint that a request counts up. -/
def HostEvent.incremented? : HostEvent → Option Nat
  | .increment id => some id
  | .notify .. | .flush _ | .clear .. | .store .. => none

namespace Threed

/-! ### One write -/

namespace WriteAt
variable {η : Type} [Host η]

/-- The syncpoint that a write counts up: that of the word, if one lands in the register of syncpoint actions, asks for
    an increment and is kept back neither by its report nor by the flush after it. -/
def counted? (w : WriteAt η) : Option Nat :=
  if w.method = 0xB2 then
    w.fired?.bind fun (word, host) =>
      match Sink.flush host with
      | .ok _ _ => if word.bit 20 then some (word.field 0 12) else none
      | .error _ _ => none
  else none

end WriteAt

section
variable {η : Type} [Host η]

/-- Work that counts no syncpoint up. -/
def Uncounted (s : Core × Traced η) (r : EStateM.Result Fault (Core × Traced η) Unit) : Prop :=
  ∃ made, (stateOf r).2.events = made ++ s.2.events ∧ ∀ e ∈ made, e.incremented? = none

omit [Host η] in
theorem Uncounted.next {s t : Core × Traced η} {r : EStateM.Result Fault (Core × Traced η) Unit}
    (h₁ : Uncounted s (.ok () t)) (h₂ : Uncounted t r) : Uncounted s r := by
  obtain ⟨made₁, hevents₁, hnone₁⟩ := h₁
  obtain ⟨made₂, hevents₂, hnone₂⟩ := h₂
  refine ⟨made₂ ++ made₁, ?_, fun e he => (List.mem_append.mp he).elim (hnone₂ e) (hnone₁ e)⟩
  rw [hevents₂, List.append_assoc, ← hevents₁]
  rfl

omit [Host η] in
theorem uncounted_record {ε : Type} {event : Option ε → HostEvent} (h : ∀ fault?, (event fault?).incremented? = none)
    (cause : ε → Fault) (act : EStateM ε η Unit) (s : Core × Traced η) :
    Uncounted s (onHost cause (Traced.record event act) s) := by
  obtain ⟨core, host, events⟩ := s
  simp only [onHost, Traced.record]
  cases act host with
  | ok _ host => exact ⟨[event none], rfl, by simpa using h none⟩
  | error fault host => exact ⟨[event (some fault)], rfl, by simpa using h (some fault)⟩

theorem uncounted_routingLaw : RoutingLaw (Uncounted (η := η)) where
  done _ := ⟨[], rfl, nofun⟩
  next := Uncounted.next
  store _ _ _ := ⟨[], rfl, nofun⟩
  flush s := uncounted_record (fun _ => rfl) _ _ s
  registers _ _ _ _ := ⟨[], rfl, nofun⟩
  notify _ _ s := uncounted_record (fun _ => rfl) _ _ s

theorem uncounted_semaphoreLaw : SemaphoreLaw (Uncounted (η := η)) where
  toSequential := uncounted_routingLaw.toSequential
  timer _ _ _ := ⟨[], rfl, nofun⟩
  memory _ _ s := uncounted_record (fun _ => rfl) _ _ s

theorem uncounted_fire {trigger : Trigger} (hne : trigger ≠ .syncpoint) (value : Word) (s : Core × Traced η) :
    Uncounted s (trigger.fire value s) := by
  cases trigger with
  | syncpoint => exact absurd rfl hne
  | clear => exact uncounted_record (fun _ => rfl) _ _ s
  | semaphore => exact uncounted_semaphoreLaw.semaphore s
  | firmwareCall => exact uncounted_routingLaw.registers _ _ _ _

/-- A syncpoint action flushes the sink and then counts the syncpoint up, if that is asked for. -/
theorem fire_syncpoint (value : Word) (core : Core) (host : η) :
    Trigger.syncpoint.fire value (core, host) =
      match Sink.flush host with
      | .ok _ host => .ok () (core, if value.bit 20 then Host.increment (value.field 0 12) host else host)
      | .error fault host => .error (.sink fault) (core, host) := by
  have hasks : (SyncpointAction.ofWord value).increment = value.bit 20 := rfl
  simp only [Trigger.fire, bind_apply, flushSink, onHost, hasks]
  cases Sink.flush host with
  | error fault host => rfl
  | ok _ host => cases value.bit 20 <;> rfl

theorem events_of_flush {host host' : Traced η} (h : Sink.flush host = .ok () host') :
    host'.events = .flush none :: host.events := by
  obtain ⟨host, events⟩ := host
  simp only [Sink.flush, Traced.record] at h
  split at h <;> cases h
  rfl

/-- What a write puts on record: an increment right after a flush that succeeded, or none at all. -/
theorem WriteAt.increments_outcome (w : WriteAt (Traced η)) :
    (∀ id, w.counted? = some id → ∃ earlier,
      (stateOf w.outcome).2.events = .increment id :: .flush none :: earlier ++ w.host.events ∧
      ∀ e ∈ earlier, e.incremented? = none) ∧
    (w.counted? = none → Uncounted (w.core, w.host) w.outcome) := by
  by_cases hsyncpoint : w.method = 0xB2
  · cases hfired : w.fired? with
    | none => exact ⟨by simp [counted?, hfired], fun _ => uncounted_routingLaw.unfired hfired⟩
    | some fired =>
      obtain ⟨word, host⟩ := fired
      have hlanding := uncounted_routingLaw.landing hfired
      have hflush := uncounted_routingLaw.flush (w.landing word, host)
      rw [flushSink, onHost] at hflush
      rw [outcome_of_trigger hfired .syncpoint hsyncpoint, fire_syncpoint, counted?, if_pos hsyncpoint, hfired,
        Option.bind_some]
      dsimp only
      cases hflushed : Sink.flush host with
      | error fault host' =>
        rw [hflushed] at hflush
        exact ⟨fun _ hid => (by cases hid), fun _ => hlanding.next hflush⟩
      | ok _ host' =>
        rw [hflushed] at hflush
        cases word.bit 20 with
        | false => exact ⟨fun _ hid => (by cases hid), fun _ => hlanding.next hflush⟩
        | true =>
          obtain ⟨earlier, hearlier, hnone⟩ := hlanding
          refine ⟨fun id hid => ⟨earlier, ?_, hnone⟩, fun h => (by cases h)⟩
          cases hid
          show HostEvent.increment _ :: host'.events = _
          rw [events_of_flush hflushed, show host.events = _ from hearlier]
          rfl
  · have hcounted : w.counted? = none := if_neg hsyncpoint
    exact ⟨by simp [hcounted], fun _ =>
      uncounted_routingLaw.write_of_ne .syncpoint hsyncpoint fun _ => uncounted_fire⟩

/-- The increments on record after a write are those before it and the one that it makes. -/
theorem WriteAt.toldOf_outcome (w : WriteAt (Traced η)) :
    toldOf HostEvent.incremented? (stateOf w.outcome).2.events =
      toldOf HostEvent.incremented? w.host.events ++ w.counted?.toList := by
  have htold : ∀ made, (∀ e ∈ made, e.incremented? = none) →
      toldOf HostEvent.incremented? (made ++ w.host.events) = toldOf HostEvent.incremented? w.host.events := by
    intro made hnone
    rw [toldOf, List.reverse_append, List.filterMap_append,
      List.filterMap_eq_nil_iff.mpr fun e he => hnone e (List.mem_reverse.mp he), List.append_nil, toldOf]
  obtain ⟨hcounted, huncounted⟩ := w.increments_outcome
  cases h : w.counted? with
  | some id =>
    obtain ⟨earlier, hevents, hnone⟩ := hcounted id h
    rw [hevents, List.cons_append, List.cons_append, toldOf_cons, toldOf_cons, htold earlier hnone]
    simp [HostEvent.incremented?]
  | none =>
    obtain ⟨made, hevents, hnone⟩ := huncounted h
    rw [hevents, htold made hnone]
    simp

end

/-! ### All writes of a run -/

section
variable {σ μ : Type} [Sink σ] [GuestMemory μ]

/-- Syncpoints change by increments. -/
theorem accounts_syncpoints :
    Accounts HostEvent.incremented? Syncpoints.increment (Board.syncpoints : Board σ μ → Syncpoints) where
  notify live span _ board := syncpoints_onSink (Sink.notify live span) board
  flush _ board := syncpoints_onSink Sink.flush board
  clear live request _ board := syncpoints_onSink (Sink.clear live request) board
  store address bytes _ board := syncpoints_onMemory (GuestMemory.store address bytes) board
  increment _ _ := rfl

/-- The counters after a write, if those before it are what the record tells. -/
theorem syncpoints_outcome {w : WriteAt (Traced (Board σ μ))} {initial : Syncpoints}
    (h : Accounted HostEvent.incremented? Syncpoints.increment Board.syncpoints initial w.host) :
    (stateOf w.outcome).2.host.syncpoints = w.counted?.toList.foldl Syncpoints.increment w.host.host.syncpoints := by
  have houtcome := accounts_syncpoints.outcome h
  rw [Accounted] at h houtcome
  rw [houtcome, w.toldOf_outcome, List.foldl_append, ← h]

/-- From power-up the value of each syncpoint is, as far as it fits, the number of writes that count it up, at every
    write of a run and at its end. Such a write has its increment on record right after a flush that succeeded. No other
    write has one, and a write that counts none of the syncpoints there are changes no counter. -/
theorem syncpoints_stateAfter (requests : List Request) (stepLimit : Nat) (readings : Nat → UInt64) (sink : σ)
    (memory : μ) :
    let start := (Threed.new stepLimit readings, (⟨⟨sink, memory, {}⟩, []⟩ : Traced (Board σ μ)))
    let final := stateAfter requests start
    let writes := writesOf requests start
    mapHost Traced.host final = stateAfter requests (Threed.new stepLimit readings, ⟨sink, memory, {}⟩) ∧
    Chain (coreOf start) writes (coreOf final) ∧
    (∀ id < syncpointCount,
      final.2.host.syncpoints.value id = .ofNat (writes.countP fun w => w.counted? == some id)) ∧
    ∀ before w after, writes = before ++ w :: after →
      (∀ id < syncpointCount,
        w.host.host.syncpoints.value id = .ofNat (before.countP fun w => w.counted? == some id)) ∧
      (∀ id, w.counted? = some id → ∃ earlier,
        (stateOf w.outcome).2.events = .increment id :: .flush none :: earlier ++ w.host.events ∧
        ∀ e ∈ earlier, e.incremented? = none) ∧
      (w.counted? = none → ∃ made,
        (stateOf w.outcome).2.events = made ++ w.host.events ∧ ∀ e ∈ made, e.incremented? = none) ∧
      ((∀ id, w.counted? = some id → syncpointCount ≤ id) →
        (stateOf w.outcome).2.host.syncpoints = w.host.host.syncpoints) := by
  intro start final writes
  have hchain : Chain (coreOf start) writes (coreOf final) := chain_writesOf requests start
  have hvalue : ∀ {t : Core × Traced (Board σ μ)} {writes : List (WriteAt (Traced (Board σ μ)))},
      Chain (coreOf start) writes t → ∀ id < syncpointCount,
        t.2.host.syncpoints.value id = .ofNat (writes.countP fun w => w.counted? == some id) := by
    intro t writes h id hid
    have haccounted : t.2.host.syncpoints = (toldOf HostEvent.incremented? t.2.events).foldl Syncpoints.increment {} :=
      accounts_syncpoints.chain h rfl
    rw [haccounted, h.toldOf fun w _ => w.toldOf_outcome, show toldOf _ (coreOf start).2.events = [] from rfl,
      List.nil_append, Syncpoints.value_foldl_increment _ _ hid, Syncpoints.value_new, List.count_filterMap,
      UInt32.zero_add]
  refine ⟨(Traced.hostMap.stateAfter requests _).symm, hchain, hvalue hchain, ?_⟩
  intro before w after hwrites
  rw [hwrites] at hchain
  obtain ⟨hcounted, huncounted⟩ := w.increments_outcome
  refine ⟨hvalue hchain.before, hcounted, huncounted, fun hbeyond => ?_⟩
  have haccounted : Accounted HostEvent.incremented? Syncpoints.increment Board.syncpoints {} w.host :=
    accounts_syncpoints.chain hchain.before rfl
  rw [syncpoints_outcome haccounted]
  cases h : w.counted? with
  | none => rfl
  | some id => exact Syncpoints.increment_of_le (hbeyond id h) _

end

end Threed

end Maxwell
