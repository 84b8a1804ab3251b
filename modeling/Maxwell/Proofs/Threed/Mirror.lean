import Mathlib.Logic.ExistsUnique
import Maxwell.Memory.Ram
import Maxwell.Proofs.Register.Elements
import Maxwell.Proofs.Threed.Transport

/-! A copy of the live registers that is kept up by reports alone. Each report names the element in which a word
    changed, and a host that copies this element and nothing else has the live word of every register but the
    controls and the result of firmware calls, whatever was called and whatever failed. No report comes without
    a change, either: of the registers it names, exactly one had another word in the copy. -/

namespace Maxwell.Threed

/-! ### The copy -/

/-- The registers that can change without a report. -/
def Unreported (offset : Nat) : Prop := IsControl offset ∨ offset = 0xD00

instance (offset : Nat) : Decidable (Unreported offset) := inferInstanceAs (Decidable (_ ∨ _))

/-- What a host makes of the reports it got, the latest first: it starts from the reset values and copies the
    words of each span. -/
def mirrorOf : List HostEvent → RegisterFile
  | [] => .reset
  | .notify live span _ :: events => (mirrorOf events).copy live span
  | .flush _ :: events | .clear .. :: events | .store .. :: events | .increment _ :: events => mirrorOf events

def HostEvent.IsReport : HostEvent → Prop
  | .notify .. => True
  | .flush _ | .clear .. | .store .. | .increment _ => False

theorem mirrorOf_cons {e : HostEvent} (he : ¬HostEvent.IsReport e) (events : List HostEvent) :
    mirrorOf (e :: events) = mirrorOf events := by
  cases e with
  | notify => exact absurd trivial he
  | flush | clear | store | increment => rfl

/-- A report tells of a change: of the registers in its span, one has another word in the copy before it. -/
def Sharp (live : RegisterFile) (span : Span) (earlier : List HostEvent) : Prop :=
  ∃! offset, offset ∈ span ∧ (mirrorOf earlier).read offset ≠ live.read offset

/-- The copy that goes with a record agrees with the live registers, and all reports on record but those of the
    result of firmware calls tell of a change. -/
structure Coherent (live : RegisterFile) (events : List HostEvent) : Prop where
  agrees : ∀ offset, ¬Unreported offset → (mirrorOf events).read offset = live.read offset
  sharp : ∀ later source span fault earlier, events = later ++ .notify source span fault :: earlier →
    span ≠ ⟨0xD00, 0xD01⟩ → Sharp source span earlier

theorem Coherent.cons {live : RegisterFile} {events : List HostEvent} (h : Coherent live events) {e : HostEvent}
    (he : ¬HostEvent.IsReport e) : Coherent live (e :: events) where
  agrees offset hoffset := by
    rw [mirrorOf_cons he]
    exact h.agrees offset hoffset
  sharp later source span fault earlier hevents hspan := by
    cases later with
    | nil =>
      cases hevents
      exact absurd trivial he
    | cons e' later =>
      cases hevents
      exact h.sharp later source span fault earlier rfl hspan

theorem Coherent.append {live : RegisterFile} {events : List HostEvent} (h : Coherent live events)
    {made : List HostEvent} (hmade : ∀ e ∈ made, ¬HostEvent.IsReport e) : Coherent live (made ++ events) := by
  induction made with
  | nil => exact h
  | cons e made ih =>
    exact (ih fun e he => hmade e (List.mem_cons_of_mem _ he)).cons (hmade e List.mem_cons_self)

/-- A register that changes without a report may change. -/
theorem Coherent.congr {live live' : RegisterFile} {events : List HostEvent} (h : Coherent live events)
    (hlive : ∀ offset, ¬Unreported offset → live'.read offset = live.read offset) : Coherent live' events where
  agrees offset hoffset := (h.agrees offset hoffset).trans (hlive offset hoffset).symm
  sharp := h.sharp

/-! ### A change and its report -/

theorem field_of_unreported {f : Field} (hf : f ∈ layout) {offset : Nat} (hoffset : Unreported offset)
    (hcontains : f.contains offset = true) : f.start = offset ∧ f.stop = offset + 1 := by
  have halone : ∀ f ∈ layout, ∀ offset ∈ [0x40, 0x44, 0x45, 0x46, 0x47, 0x48, 0x49, 0xD00],
      f.contains offset = true → f.start = offset ∧ f.stop = offset + 1 := by decide
  refine halone f hf offset ?_ hcontains
  unfold Unreported IsControl at hoffset
  simp only [List.mem_cons, List.not_mem_nil, or_false]
  omega

/-- A span that is reported for one register holds none that can change without a report. -/
theorem not_unreported_of_mem {method offset : Nat} (hmethod : ¬Unreported method) (h : offset ∈ notifySpan method) :
    ¬Unreported offset := by
  intro hoffset
  rcases of_mem_notifySpan h with rfl | ⟨f, hf, hcontains, hother⟩
  · exact hmethod hoffset
  · obtain ⟨hstart, hstop⟩ := field_of_unreported hf hoffset hother
    obtain ⟨hge, hlt⟩ := Field.contains_iff.mp hcontains
    have hlt : method < f.stop := hlt
    have heq : method = offset := by omega
    exact hmethod (heq ▸ hoffset)

theorem notifySpan_acknowledged : notifySpan 0xD00 = ⟨0xD00, 0xD01⟩ := by
  decide

theorem Coherent.report {live : RegisterFile} {events : List HostEvent} (h : Coherent live events) {method : Nat}
    {value : Word} (hmethod : method < registerCount) (hcontrol : ¬IsControl method) (hne : live.read method ≠ value)
    (fault : Option SinkFault) :
    Coherent (live.write method value) (.notify (live.write method value) (notifySpan method) fault :: events) where
  agrees offset hoffset := by
    rw [mirrorOf, RegisterFile.read_copy]
    split
    · rfl
    · next hout =>
      have hother : method ≠ offset := by
        rintro rfl
        exact hout (mem_notifySpan_self method)
      rw [h.agrees offset hoffset, RegisterFile.read_write, if_neg (fun h => hother h.1)]
  sharp later source span fault' earlier hevents hspan := by
    cases later with
    | cons e later =>
      cases hevents
      exact h.sharp later source span fault' earlier rfl hspan
    | nil =>
      cases hevents
      have hreported : ¬Unreported method := by
        rintro (hm | rfl)
        · exact hcontrol hm
        · exact hspan notifySpan_acknowledged
      refine ⟨method, ⟨mem_notifySpan_self method, ?_⟩, ?_⟩
      · rwa [h.agrees method hreported, RegisterFile.read_write, if_pos ⟨rfl, hmethod⟩]
      · rintro offset ⟨hin, hdiffers⟩
        refine Decidable.byContradiction fun hother => ?_
        rw [h.agrees offset (not_unreported_of_mem hreported hin), RegisterFile.read_write,
          if_neg (fun h => hother h.1.symm)] at hdiffers
        exact hdiffers rfl

section
variable {η : Type} [Host η]

/-! ### Work without a report -/

/-- Work that leaves the live registers as they are and reports nothing. -/
def Unseen (s : Core × Traced η) (r : EStateM.Result Fault (Core × Traced η) Unit) : Prop :=
  (stateOf r).1.live = s.1.live ∧
    ∃ made, (stateOf r).2.events = made ++ s.2.events ∧ ∀ e ∈ made, ¬HostEvent.IsReport e

omit [Host η] in
theorem Unseen.coherent {s : Core × Traced η} {r : EStateM.Result Fault (Core × Traced η) Unit} (h : Unseen s r)
    (hs : Coherent s.1.live s.2.events) : Coherent (stateOf r).1.live (stateOf r).2.events := by
  obtain ⟨hlive, made, hevents, hmade⟩ := h
  rw [hlive, hevents]
  exact hs.append hmade

omit [Host η] in
theorem unseen_record {ε : Type} {event : Option ε → HostEvent} (h : ∀ fault?, ¬HostEvent.IsReport (event fault?))
    (cause : ε → Fault) (act : EStateM ε η Unit) (s : Core × Traced η) :
    Unseen s (onHost cause (Traced.record event act) s) := by
  obtain ⟨core, host, events⟩ := s
  simp only [onHost, Traced.record]
  cases act host with
  | ok _ host => exact ⟨rfl, [event none], rfl, by simp [h]⟩
  | error fault host => exact ⟨rfl, [event (some fault)], rfl, by simp [h]⟩

theorem unseen_quietLaw : QuietLaw (Unseen (η := η)) where
  done s := ⟨rfl, [], rfl, nofun⟩
  next := by
    rintro s t r ⟨hlive₁, made₁, hevents₁, hmade₁⟩ ⟨hlive₂, made₂, hevents₂, hmade₂⟩
    refine ⟨hlive₂.trans hlive₁, made₂ ++ made₁, ?_, fun e he => ?_⟩
    · rw [hevents₂, show t.2.events = made₁ ++ s.2.events from hevents₁, List.append_assoc]
    · rcases List.mem_append.mp he with he | he
      · exact hmade₂ e he
      · exact hmade₁ e he
  store _ _ _ := ⟨rfl, [], rfl, nofun⟩
  timer _ _ _ := ⟨rfl, [], rfl, nofun⟩
  flush s := unseen_record (fun _ => id) _ _ s
  clear _ _ s := unseen_record (fun _ => id) _ _ s
  memory _ _ s := unseen_record (fun _ => id) _ _ s
  increment _ id _ := ⟨rfl, [.increment id], rfl, by simp [HostEvent.IsReport]⟩

/-! ### Writes -/

variable (hnotify : ∀ live span (host : η), ∃ host', Sink.notify live span host = .ok () host')
include hnotify

theorem coherent_land {method : Nat} (hmethod : method < registerCount) (hcontrol : ¬IsControl method) (value : Word)
    {s : Core × Traced η} (hs : Coherent s.1.live s.2.events) :
    Coherent (stateOf (land method value s)).1.live (stateOf (land method value s)).2.events := by
  obtain ⟨core, host, events⟩ := s
  -- The change and its report, if it is one.
  obtain ⟨u, hreport, hu⟩ : ∃ u, (if core.live.read method != value then report method else pure () : CoreM _ Unit)
      ({ core with live := core.live.write method value }, (⟨host, events⟩ : Traced η)) = .ok () u ∧
      Coherent u.1.live u.2.events := by
    by_cases hne : core.live.read method = value
    · refine ⟨({ core with live := core.live.write method value }, ⟨host, events⟩), ?_,
        hs.congr fun offset _ => ?_⟩
      · rw [if_neg (by simpa using hne)]
        rfl
      · rw [RegisterFile.read_write]
        split
        · next h => rw [← h.1, hne]
        · rfl
    · obtain ⟨host', hhost⟩ := hnotify (core.live.write method value) (notifySpan method) host
      refine ⟨({ core with live := core.live.write method value },
        ⟨host', .notify (core.live.write method value) (notifySpan method) none :: events⟩), ?_,
        hs.report hmethod hcontrol hne none⟩
      rw [if_pos (by simpa using hne)]
      simp only [report, onHost, Sink.notify, Traced.record, hhost]
  rw [land_apply, bind_ok hreport]
  cases Trigger.ofMethod? method with
  | none => exact hu
  | some trigger =>
    by_cases hcall : trigger = .firmwareCall
    · subst hcall
      refine hu.congr fun offset hoffset => ?_
      show (u.1.live.write 0xD00 1).read offset = u.1.live.read offset
      rw [RegisterFile.read_write, if_neg]
      rintro ⟨rfl, -⟩
      exact hoffset (Or.inr rfl)
    · exact (unseen_quietLaw.fire hcall value u).coherent hu

theorem coherent_write (method : Nat) (argument : Word) (s : Core × Traced η) (hmethod : method < registerCount)
    (hs : Coherent s.1.live s.2.events) :
    Coherent (stateOf (write method argument s)).1.live (stateOf (write method argument s)).2.events := by
  cases hc : Control.ofMethod? method with
  | some control =>
    have hcontrol : IsControl method := isControl_of_some hc
    rw [write_control hc]
    refine (unseen_quietLaw.perform control argument _).coherent (hs.congr fun offset hoffset => ?_)
    rw [RegisterFile.read_write, if_neg]
    rintro ⟨rfl, -⟩
    exact hoffset (Or.inl hcontrol)
  | none =>
    have hcontrol : ¬IsControl method := not_isControl_of_none hc
    rw [write_route hc, route_apply]
    cases s.1.live.shadowMode with
    | track =>
      exact coherent_land hnotify hmethod hcontrol argument
        (s := ({ s.1 with shadow := s.1.shadow.write method argument }, s.2)) hs
    | trackWithFilter => exact hs
    | passthrough | replay => exact coherent_land hnotify hmethod hcontrol _ hs

omit hnotify in
theorem coherent_reset : Coherent .reset [] where
  agrees _ _ := rfl
  sharp later _ _ _ _ hevents _ := by cases later <;> cases hevents

/-- Before a host that takes every report, the copy agrees with the live registers after any run of calls from
    power-up, in which calls may fail, except at the registers that change without a report. And each report but
    those of the result of firmware calls names exactly one register that differs from the copy before it. -/
theorem mirrorOf_stateAfter (requests : List Request) (stepLimit : Nat) (readings : Nat → UInt64) (host : η) :
    let recorded := stateAfter requests (Threed.new stepLimit readings, (⟨host, []⟩ : Traced η))
    mapHost Traced.host recorded = stateAfter requests (Threed.new stepLimit readings, host) ∧
    (∀ offset, ¬(offset = 0x40 ∨ 0x44 ≤ offset ∧ offset ≤ 0x49 ∨ offset = 0xD00) →
      (mirrorOf recorded.2.events).read offset = recorded.1.core.live.read offset) ∧
    ∀ later live span fault earlier, recorded.2.events = later ++ .notify live span fault :: earlier →
      span ≠ ⟨0xD00, 0xD01⟩ →
      ∃! offset, offset ∈ span ∧ (mirrorOf earlier).read offset ≠ live.read offset := by
  intro recorded
  have hcoherent : Coherent recorded.1.core.live recorded.2.events :=
    keeps_stateAfter (P := fun s : Core × Traced η => Coherent s.1.live s.2.events) (coherent_write hnotify)
      requests coherent_reset
  refine ⟨(Traced.hostMap.stateAfter requests _).symm, fun offset hoffset => ?_, hcoherent.sharp⟩
  refine hcoherent.agrees offset fun h => hoffset ?_
  unfold Unreported IsControl at h
  omega

end

/-- A run in which a word is staged and replayed, a release of a semaphore finds no memory, and the firmware is
    called. -/
theorem mirrorOf_stateAfter_release :
    let requests : List Request := [⟨0x49, 2, false⟩, ⟨0x680, 7, false⟩, ⟨0x6C3, 0, false⟩, ⟨0x49, 3, false⟩,
      ⟨0x680, 5, true⟩, ⟨0xE00, 0, true⟩, ⟨0x8C4, 0, false⟩]
    let start := (Threed.new 100 fun _ => 0, (⟨⟨⟨⟩, Ram.zeros 0, {}⟩, []⟩ : Traced (Board NullSink Ram)))
    (∀ live span (host : Board NullSink Ram), ∃ host', Sink.notify live span host = .ok () host') ∧
    ∀ offset, ¬(offset = 0x40 ∨ 0x44 ≤ offset ∧ offset ≤ 0x49 ∨ offset = 0xD00) →
      (mirrorOf (stateAfter requests start).2.events).read offset =
        (stateAfter requests start).1.core.live.read offset := by
  intro requests start
  have hnotify : ∀ live span (host : Board NullSink Ram), ∃ host', Sink.notify live span host = .ok () host' :=
    fun _ _ _ => ⟨_, rfl⟩
  -- The requests are not to be evaluated.
  clear_value requests
  obtain ⟨-, hagrees, -⟩ := mirrorOf_stateAfter hnotify requests 100 (fun _ => 0) start.2.host
  exact ⟨hnotify, hagrees⟩

end Maxwell.Threed
