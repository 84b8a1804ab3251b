import Maxwell.Proofs.Mme.Record

/-! Runs in lockstep. Two buses that answer alike and that stay alike at each send run the same instructions, so
    a macro cannot tell them apart. Sends may have to be allowed for that: then it is enough that those of one of the
    two runs are. -/

namespace Maxwell.Mme

section
variable {ε β : Type} [Bus ε β]

/-- A relation of buses that answer alike. Sends that are allowed keep it. -/
structure Lockstep (R : β → β → Prop) (allowed : Nat × Word → β → Prop) : Prop where
  quiet : Quiet ε β
  fetch : ∀ {b c : β}, R b c → ∀ offset, (Bus.fetch offset c).1 = (Bus.fetch offset b).1
  read : ∀ {b c : β}, R b c → ∀ method, (Bus.read method c).1 = (Bus.read method b).1
  send : ∀ {b c : β}, R b c → ∀ send, allowed send b → Paired R (makeSend send b) (makeSend send c)

/-- One machine on two buses. -/
def OnBoth (R : β → β → Prop) (s t : Machine × β) : Prop := s.1 = t.1 ∧ R s.2 t.2

namespace Lockstep
variable {R : β → β → Prop} {allowed : Nat × Word → β → Prop} (h : Lockstep R allowed)
include h

theorem consult {b c : β} (hbc : R b c) (operation : Operation) (m : Machine) :
    operation.consult m c = ((operation.consult m b).1, c) := by
  unfold Operation.consult
  cases operation.consults? m with
  | none => rfl
  | some method => exact Prod.ext (h.read hbc method) (h.quiet.read method c)

theorem deliver {b c : β} (hbc : R b c) (sent? : Option Word) (m : Machine)
    (hallowed : Along allowed makeSend (sent?.toList.map (Prod.mk m.address.method.val)) b) :
    Paired (OnBoth R) (deliver sent? (m, b)) (deliver sent? (m, c)) := by
  cases sent? with
  | none => exact .ok () ⟨rfl, hbc⟩
  | some value =>
    have hsend := h.send hbc (m.address.method.val, value) hallowed.1
    show Paired (OnBoth R) (Mme.send value (m, b)) (Mme.send value (m, c))
    unfold makeSend at hsend
    simp only [Mme.send]
    generalize Bus.write m.address.method.val value b = r, Bus.write m.address.method.val value c = r' at hsend
    cases hsend with
    | ok _ hbc => exact .ok () ⟨rfl, hbc⟩
    | error fault hbc => exact .error fault ⟨rfl, hbc⟩

theorem perform {b c : β} (hbc : R b c) (operation : Operation) (m : Machine)
    (hallowed : Along allowed makeSend ((operation.events m b).filterMap BusEvent.send?) b) :
    Paired (OnBoth R) (operation.perform (m, b)) (operation.perform (m, c)) := by
  rw [Operation.events, List.filterMap_append, filterMap_send?_read, List.nil_append] at hallowed
  rw [Operation.perform_eq, Operation.perform_eq, h.consult hbc, h.quiet.consult]
  cases hcomputes : operation.computes? m (operation.consult m b).1 with
  | none => exact .ok () ⟨rfl, hbc⟩
  | some computed =>
    simp only [hcomputes, filterMap_send?_write] at hallowed
    exact h.deliver hbc (computed.sent? m) (computed.settle m) hallowed

theorem step {s t : Machine × β} (hst : OnBoth R s t)
    (hallowed : Along allowed makeSend ((stepEvents s).filterMap BusEvent.send?) s.2) :
    Paired (OnBoth R) (Mme.step s) (Mme.step t) := by
  obtain ⟨m, b⟩ := s
  obtain ⟨_, c⟩ := t
  obtain ⟨rfl, hbc⟩ := hst
  rw [stepEvents, List.filterMap_cons_none rfl, h.quiet.fetch] at hallowed
  rw [step_eq, step_eq, h.fetch hbc, h.quiet.fetch, h.quiet.fetch]
  have hperform := h.perform hbc _ _ hallowed
  generalize Operation.perform _ (_, b) = r, Operation.perform _ (_, c) = r' at hperform
  cases hperform with
  | ok _ hst => exact .ok _ hst
  | error fault hst => exact .error fault hst

theorem runFrom (limit : Nat) {s t : Machine × β} (hst : OnBoth R s t)
    (hallowed : Along allowed makeSend ((eventsFrom limit s).filterMap BusEvent.send?) s.2) :
    Paired (OnBoth R) (Mme.runFrom limit s) (Mme.runFrom limit t) := by
  induction limit generalizing s t with
  | zero => exact .ok _ hst
  | succ limit ih =>
    rw [eventsFrom, List.filterMap_append] at hallowed
    obtain ⟨hfirst, hrest⟩ := hallowed.of_append
    have hstep := h.step hst hfirst
    rw [h.quiet.forM_step] at hrest
    rw [runFrom_succ, runFrom_succ]
    generalize Mme.step s = r, Mme.step t = r' at hstep hrest
    cases hstep with
    | error fault hst => exact .error fault hst
    | ok finished hst =>
      cases finished with
      | true => exact .ok _ hst
      | false => exact ih hst (hrest _ rfl)

/-- Of two buses that answer alike, a run leaves two that do, with the same ending or fault, if the sends of the first
    are allowed. -/
theorem run (limit : Nat) (entry : Word) (arguments : List Word) {b c : β} (hbc : R b c)
    (hallowed : Along allowed makeSend (sends limit entry arguments b) b) :
    Paired R (Mme.run limit entry arguments b) (Mme.run limit entry arguments c) := by
  rw [sends, asked_eq] at hallowed
  have hrun := h.runFrom limit (s := (Machine.start entry arguments, b)) (t := (Machine.start entry arguments, c))
    ⟨rfl, hbc⟩ hallowed
  rw [run_eq, run_eq]
  exact hrun.map fun _ _ hst => hst.2

end Lockstep

end

end Maxwell.Mme
