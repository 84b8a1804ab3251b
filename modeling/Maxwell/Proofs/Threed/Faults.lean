import Maxwell.Proofs.Threed.Transport

/-! Where faults come from. A call fails if and only if a request to the host failed during it, and then that
    request was the last one and its fault is the fault of the call. No word a guest can write makes a call
    fail by itself. A call that fails leaves nothing pending, and one that fails at the invocation it
    interrupts has done nothing of its own. -/

namespace Maxwell

/-- The fault that a request ended in, as that of a method call. -/
def HostEvent.fault? : HostEvent → Option Fault
  | .notify _ _ fault | .flush fault | .clear _ _ fault => fault.map .sink
  | .store _ _ fault => fault.map .memory
  | .increment _ => none

namespace Threed

variable {η : Type}

/-! ### What a record tells of an outcome -/

/-- The requests that were made are on record. None failed, or only the latest did, and its fault is that of the
    outcome. -/
def Tells (before : Traced η) : EStateM.Result Fault (Traced η) Unit → Prop
  | .ok _ after => ∃ made, after.events = made ++ before.events ∧ ∀ e ∈ made, e.fault? = none
  | .error fault after => ∃ latest made, after.events = latest :: (made ++ before.events) ∧
      latest.fault? = some fault ∧ ∀ e ∈ made, e.fault? = none

theorem tells_done (s : Traced η) : Tells s (.ok () s) := ⟨[], rfl, nofun⟩

theorem Tells.next {s t : Traced η} {r : EStateM.Result Fault (Traced η) Unit} (h₁ : Tells s (.ok () t))
    (h₂ : Tells t r) : Tells s r := by
  obtain ⟨made₁, hevents₁, hnone₁⟩ := h₁
  have hnone : ∀ {made₂ : List HostEvent}, (∀ e ∈ made₂, e.fault? = none) →
      ∀ e ∈ made₂ ++ made₁, e.fault? = none := by
    intro made₂ hnone₂ e he
    rcases List.mem_append.mp he with he | he
    · exact hnone₂ e he
    · exact hnone₁ e he
  cases r with
  | ok _ u =>
    obtain ⟨made₂, hevents₂, hnone₂⟩ := h₂
    exact ⟨made₂ ++ made₁, by rw [hevents₂, hevents₁, List.append_assoc], hnone hnone₂⟩
  | error fault u =>
    obtain ⟨latest, made₂, hevents₂, hlatest, hnone₂⟩ := h₂
    exact ⟨latest, made₂ ++ made₁, by rw [hevents₂, hevents₁, List.append_assoc], hlatest, hnone hnone₂⟩

theorem tells_record {ε : Type} {cause : ε → Fault} {event : Option ε → HostEvent}
    (h : ∀ fault?, (event fault?).fault? = fault?.map cause) (act : EStateM ε η Unit) (s : Traced η) :
    Tells s (caused cause (Traced.record event act s)) := by
  obtain ⟨host, events⟩ := s
  simp only [Traced.record]
  cases act host with
  | ok _ host => exact ⟨[event none], rfl, by simp [h]⟩
  | error fault host => exact ⟨event (some fault), [], rfl, by simp [h], fun _ he => absurd he List.not_mem_nil⟩

/-- With a record that starts empty, an outcome fails if and only if a request on record did. -/
theorem Tells.fault_iff {host : η} {r : EStateM.Result Fault (Traced η) Unit} (h : Tells ⟨host, []⟩ r) :
    (∀ fault, (∃ s, r = .error fault s) ↔ ∃ e ∈ (stateOf r).events, e.fault? = some fault) ∧
    ∀ e ∈ (stateOf r).events.tail, e.fault? = none := by
  cases r with
  | ok _ s =>
    obtain ⟨made, hevents, hnone⟩ := h
    rw [List.append_nil] at hevents
    rw [stateOf, hevents]
    refine ⟨fun fault => ⟨?_, ?_⟩, fun e he => hnone e (List.mem_of_mem_tail he)⟩
    · rintro ⟨_, h⟩
      cases h
    · rintro ⟨e, he, hfault⟩
      rw [hnone e he] at hfault
      cases hfault
  | error fault' s =>
    obtain ⟨latest, made, hevents, hlatest, hnone⟩ := h
    rw [List.append_nil] at hevents
    rw [stateOf, hevents]
    refine ⟨fun fault => ⟨?_, ?_⟩, hnone⟩
    · rintro ⟨_, h⟩
      cases h
      exact ⟨latest, List.mem_cons_self, hlatest⟩
    · rintro ⟨e, he, hfault⟩
      rcases List.mem_cons.mp he with rfl | he
      · rw [hlatest] at hfault
        cases hfault
        exact ⟨s, rfl⟩
      · rw [hnone e he] at hfault
        cases hfault

section
variable [Host η]

theorem tells_hostLaw : HostLaw (Tells (η := η)) where
  done := tells_done
  next := Tells.next
  notify _ _ _ := tells_record (fun _ => rfl) _ _
  flush _ := tells_record (fun _ => rfl) _ _
  clear _ _ _ := tells_record (fun _ => rfl) _ _
  memory _ _ _ := tells_record (fun _ => rfl) _ _
  increment id s := ⟨[.increment id], rfl, by simp [HostEvent.fault?]⟩

/-! ### What is left of a call that failed -/

theorem pending_of_error {r : Request} {s t : Threed × η} {fault : Fault} (h : r.make s = .error fault t) :
    t.1.pending = none := by
  obtain ⟨⟨core, pending, interpreter⟩, host⟩ := s
  rw [make_eq] at h
  split at h
  · cases h
  · cases h
    rfl

/-- A call that interrupts an invocation which fails ends as that invocation did. -/
theorem make_of_flush_error {r : Request} {s t : Threed × η} {invocation : Invocation} {fault : Fault}
    (hinterrupts : r.interrupted? s.1.pending = some invocation) (hflush : flush s = .error fault t) :
    r.make s = .error fault t := by
  obtain ⟨⟨core, pending, interpreter⟩, host⟩ := s
  obtain ⟨rfl, -⟩ := Option.filter_eq_some_iff.mp hinterrupts
  rw [flush_eq] at hflush
  rw [make_eq, Request.acts, forM_append_apply, hinterrupts]
  cases hrun : ((some invocation).toList.map Act.invoke).forM Act.perform (interpreter, (core, host)) with
  | ok _ u =>
    rw [hrun] at hflush
    cases hflush
  | error fault' u =>
    rw [hrun] at hflush
    exact hflush

/-! ### Faults -/

/-- Of the requests to the host that a call makes, put on record, all but the last succeed, and the call fails if
    and only if the last fails, with the fault of that request. Whatever made it fail, nothing is pending then.
    If the call interrupts an invocation and this fails, that is all that happens: the call does nothing of its
    own. -/
theorem fault_make_iff (r : Request) (t : Threed) (host : η) :
    let recorded := r.make (t, (⟨host, []⟩ : Traced η))
    let requests := (stateOf recorded).2.events
    r.make (t, host) = through (mapHost Traced.host) recorded ∧
    (∀ fault, (∃ s, r.make (t, host) = .error fault s) ↔ ∃ e ∈ requests, e.fault? = some fault) ∧
    (∀ e ∈ requests.tail, e.fault? = none) ∧
    (∀ fault s, r.make (t, host) = .error fault s → s.1.pending = none) ∧
    ∀ invocation fault s, r.interrupted? t.pending = some invocation → flush (t, host) = .error fault s →
      r.make (t, host) = .error fault s := by
  intro recorded requests
  have hforget : r.make (t, host) = through (mapHost Traced.host) recorded :=
    Traced.hostMap.make r (t, (⟨host, []⟩ : Traced η))
  obtain ⟨hfault, hothers⟩ := (tells_hostLaw.make r (t, (⟨host, []⟩ : Traced η))).fault_iff
  rw [stateOf_through] at hothers
  refine ⟨hforget, fun fault => ?_, hothers, fun fault s h => pending_of_error h,
    fun invocation fault s hinterrupts hflush => make_of_flush_error hinterrupts hflush⟩
  have hiff := hfault fault
  rw [stateOf_through, exists_through_eq_error] at hiff
  rw [hforget, exists_through_eq_error]
  exact hiff

end

end Threed

end Maxwell
