import Maxwell.Proofs.Threed.Semaphores
import Maxwell.Proofs.Threed.Staging

/-! The timestamps of an engine. Each record with a timestamp holds the low half of the next tick of the engine's timer,
    whether memory takes the record or not. Nothing else takes a tick, and a reset leaves the timer as it is. So all
    along the life of an engine the ticks of its timestamps rise. -/

namespace Maxwell

/-- The low half of a tick, as memory gets it. -/
def lowHalf (tick : UInt64) : List UInt8 := lowBytes tick.toNat

/-- The timestamp of a record: the bytes that follow the eight of the result, if it has any. -/
def stampOf? (store : UInt64 × ByteArray) : Option (List UInt8) :=
  if store.2.size = 12 then some (store.2.data.toList.drop 8) else none

/-- The timestamps on record, in the order in which they were stored, or were to be. -/
def stampsOf (events : List HostEvent) : List (List UInt8) := (storesOf events).filterMap stampOf?

namespace Threed

/-! ### One write -/

/-- A record has a timestamp if one is asked for. -/
theorem stampOf?_askedBytes (address : UInt64) (word result : Word) (tick : UInt64) :
    stampOf? (address, (askedBytes word result tick).toByteArray) =
      if asksTick word then some (lowHalf tick) else none := by
  have hresult : (lowBytes result.toNat ++ [0, 0, 0, 0]).length = 8 := rfl
  rw [stampOf?, List.size_toByteArray, List.data_toByteArray, List.toList_toArray, askedBytes, asksTick, lowHalf]
  generalize lowBytes result.toNat ++ [0, 0, 0, 0] = eight at hresult
  cases word.bit 28 with
  | true => simp [length_lowBytes]
  | false =>
    cases word.bit 21 with
    | true => simp [hresult, length_lowBytes]
    | false => simp [hresult]

section
variable {η : Type} [Host η]

theorem WriteAt.stamp_stored? (w : WriteAt η) :
    w.stored?.bind stampOf? = if w.takesTick then some (lowHalf w.core.timer.tick.1) else none := by
  by_cases hsemaphore : w.method = 0x6C3
  · cases hfired : w.fired? with
    | none => simp [takesTick, stored?, hsemaphore, hfired]
    | some fired =>
      obtain ⟨word, host⟩ := fired
      cases hresult : askedResult? word (w.core.live.read 0x6C2) with
      | none => simp [takesTick, stored?, hsemaphore, hfired, askedStore?, hresult]
      | some result => simp [takesTick, stored?, hsemaphore, hfired, askedStore?, hresult, stampOf?_askedBytes]
  · simp [takesTick, stored?, hsemaphore]

/-- What a write adds to the timestamps on record is what it takes from the timer. -/
theorem WriteAt.stamps_outcome (w : WriteAt (Traced η)) :
    stampsOf (stateOf w.outcome).2.events = stampsOf w.host.events ++
      (w.core.timer.ticks (if w.takesTick then 1 else 0)).map lowHalf := by
  have hstored : w.stored?.toList.filterMap stampOf? = (w.stored?.bind stampOf?).toList := by
    cases w.stored? with
    | none => rfl
    | some stored => simp [List.filterMap_cons, Option.toList]; cases stampOf? stored <;> rfl
  rw [stampsOf, w.stores_outcome.1, List.filterMap_append, hstored, w.stamp_stored?]
  cases w.takesTick <;> rfl

theorem Chain.stamps {s t : Core × Traced η} {writes : List (WriteAt (Traced η))} (h : Chain s writes t) :
    stampsOf t.2.events =
      stampsOf s.2.events ++ (s.1.timer.ticks (writes.countP WriteAt.takesTick)).map lowHalf := by
  induction h with
  | nil => simp [Timer.ticks]
  | cons w _ _ ih =>
    have htimer := w.stores_outcome.2
    rw [ih, w.stamps_outcome, htimer, List.append_assoc, ← List.map_append, List.countP_cons]
    cases w.takesTick with
    | true => rfl
    | false => rfl

/-! ### The life of an engine -/

/-- What is done with an engine. -/
inductive Operation where
  | call (r : Request)
  | reset

def perform : Operation → EStateM Fault (Threed × η) Unit
  | .call r => r.make
  | .reset => fun (t, host) => .ok () (t.reset, host)

/-- Performs operations one after another, whether they fail or not. -/
def run (operations : List Operation) (s : Threed × η) : Threed × η :=
  operations.foldl (fun s operation => stateOf (perform operation s)) s

theorem run_cons (operation : Operation) (operations : List Operation) (s : Threed × η) :
    run (operation :: operations) s = run operations (stateOf (perform operation s)) := rfl

/-- The second state comes after the first, with as many more timestamps on record as its timer is further. -/
def Ticked (s t : Threed × Traced η) : Prop :=
  ∃ count, t.1.core.timer = s.1.core.timer.after count ∧
    stampsOf t.2.events = stampsOf s.2.events ++ (s.1.core.timer.ticks count).map lowHalf

omit [Host η] in
theorem Ticked.refl (s : Threed × Traced η) : Ticked s s := ⟨0, rfl, (List.append_nil _).symm⟩

omit [Host η] in
theorem Ticked.trans {s t u : Threed × Traced η} (h₁ : Ticked s t) (h₂ : Ticked t u) : Ticked s u := by
  obtain ⟨m, htimer₁, hstamps₁⟩ := h₁
  obtain ⟨n, htimer₂, hstamps₂⟩ := h₂
  refine ⟨m + n, ?_, ?_⟩
  · rw [htimer₂, htimer₁, Timer.after_add]
  · rw [hstamps₂, hstamps₁, htimer₁, Timer.ticks_add, List.map_append, List.append_assoc]

theorem ticked_perform (operation : Operation) (s : Threed × Traced η) : Ticked s (stateOf (perform operation s)) := by
  cases operation with
  | call r =>
    have hchain : Chain (coreOf s) (writesOf [r] s) (coreOf (stateOf (r.make s))) := chain_writesOf [r] s
    exact ⟨_, hchain.timer, hchain.stamps⟩
  | reset =>
    have htimer : s.1.reset.core.timer = s.1.core.timer := by dsimp only [Threed.reset]
    exact ⟨0, htimer, (List.append_nil _).symm⟩

theorem ticked_run (operations : List Operation) (s : Threed × Traced η) : Ticked s (run operations s) := by
  induction operations generalizing s with
  | nil => exact Ticked.refl s
  | cons operation operations ih => exact (ticked_perform operation s).trans (ih _)

/-- A record changes nothing. -/
theorem mapHost_run (operations : List Operation) (s : Threed × Traced η) :
    mapHost Traced.host (run operations s) = run operations (mapHost Traced.host s) := by
  induction operations generalizing s with
  | nil => rfl
  | cons operation operations ih =>
    rw [run_cons, run_cons, ih]
    cases operation with
    | call r =>
      show _ = run operations (stateOf (r.make (mapHost Traced.host s)))
      rw [Traced.hostMap.make r s, stateOf_through]
      rfl
    | reset => rfl

section
variable {μ : Type} [GuestMemory μ]

theorem takesTick_release {core : Core} (hmode : core.live.shadowMode = .passthrough)
    (host : Traced (Board NullSink μ)) :
    (⟨core, host, 0x6C3, 0x200000⟩ : WriteAt (Traced (Board NullSink μ))).takesTick = true := by
  let w : WriteAt (Traced (Board NullSink μ)) := ⟨core, host, 0x6C3, 0x200000⟩
  have hpassed : w.call.mode = .passthrough := hmode
  have hlanded : w.landed? = some 0x200000 := by
    rw [WriteAt.landed?, if_neg, RegisterCall.landed_of_ne (by rw [hpassed]; decide)]
    · rfl
    · rw [hpassed, or_iff_left (by decide)]
      exact show ¬IsControl 0x6C3 by decide
  obtain ⟨host', hreported⟩ : ∃ host', w.reported 0x200000 = .ok () host' := by
    unfold WriteAt.reported
    split <;> exact ⟨_, rfl⟩
  have hfired : w.fired? = some (0x200000, host') := WriteAt.fired?_eq_some_iff.mpr ⟨hlanded, hreported⟩
  have hasks : asksTick 0x200000 = true := by decide
  have hrelease (payload : Word) : askedResult? 0x200000 payload = some payload := if_pos (by decide)
  show w.takesTick = true
  simp [WriteAt.takesTick, WriteAt.stored?, w, hfired, askedStore?, hrelease, hasks]

/-- A round of one release with a timestamp, whatever memory makes of its record, and a reset. -/
theorem run_release (core : Core) (host : Traced (Board NullSink μ)) (interpreter : Mme.Interpreter) :
    ∃ core' host',
      run [.call ⟨0x49, 2, false⟩, .call ⟨0x6C3, 0x200000, false⟩, .reset] (idle interpreter (core, host)) =
        idle interpreter (core', host') ∧
      core'.timer = core.timer.tick.2 ∧
      stampsOf host'.events = stampsOf host.events ++ [lowHalf core.timer.tick.1] := by
  let live := core.live.write 0x49 2
  let w : WriteAt (Traced (Board NullSink μ)) := ⟨{ core with live }, host, 0x6C3, 0x200000⟩
  have htakes : w.takesTick = true := takesTick_release (shadowMode_write core.live .passthrough) host
  have htimer := w.stores_outcome.2
  have hstamps := w.stamps_outcome
  rw [htakes, if_pos rfl] at htimer hstamps
  refine ⟨{ (stateOf w.outcome).1 with live := .reset, shadow := .reset }, (stateOf w.outcome).2, ?_, htimer, hstamps⟩
  have hmode : stateOf (perform (.call ⟨0x49, 2, false⟩) (idle interpreter (core, host))) =
      idle interpreter ({ core with live }, host) := by
    show stateOf (Request.make _ _) = _
    rw [make_idle (by decide), write_shadowMode]
    rfl
  have hrelease : stateOf (perform (.call ⟨0x6C3, 0x200000, false⟩) (idle interpreter ({ core with live }, host))) =
      idle interpreter (stateOf w.outcome) := by
    show stateOf (Request.make _ _) = _
    rw [make_idle (by decide), stateOf_through]
    rfl
  rw [run_cons, hmode, run_cons, hrelease]
  rfl

end

/-- The ticks of a clock rise. No bits are lost when its readings are converted. Each tick is the greatest of what the
    readings so far bring it to, whether they repeat or go back, as long as that fits into 64 bits: so it is greater
    than all ticks before it and not behind the clock. The timestamps that an engine stores in its life, or fails to
    store, are the low halves of these ticks, one after the other, whatever is done with the engine in between, be it
    reset or not. -/
theorem timestamps_rise (readings : Nat → UInt64) :
    (∀ ns : UInt64, (ticksOfNanoseconds ns).toNat = ns.toNat * 12 / 625) ∧
    (∀ n, (∀ i ≤ n, Timer.due readings n i < UInt64.size) →
      IsGreatest {tick | ∃ i ≤ n, Timer.due readings n i = tick} (Timer.tickAt readings n).toNat ∧
      (∀ m < n, Timer.tickAt readings m < Timer.tickAt readings n) ∧
      ticksOfNanoseconds (readings n) ≤ Timer.tickAt readings n) ∧
    ∀ (operations : List Operation) (stepLimit : Nat) (host : η),
      let final := run operations (Threed.new stepLimit readings, (⟨host, []⟩ : Traced η))
      let stamps := stampsOf final.2.events
      let ticks := (List.range stamps.length).map (Timer.tickAt readings)
      mapHost Traced.host final = run operations (Threed.new stepLimit readings, host) ∧
      stamps = ticks.map lowHalf ∧ final.1.core.timer = Timer.after stamps.length { readings } ∧
      ((∀ n < stamps.length, ∀ i ≤ n, Timer.due readings n i < UInt64.size) → ticks.Pairwise (· < ·)) := by
  refine ⟨toNat_ticksOfNanoseconds, fun n hfits => ⟨Timer.isGreatest_tickAt hfits,
    fun m hmn => Timer.tickAt_lt_tickAt hmn hfits, ?_⟩, fun operations stepLimit host => ?_⟩
  · rw [UInt64.le_iff_toNat_le, toNat_ticksOfNanoseconds, ← Timer.due_self]
    exact (Timer.isGreatest_tickAt hfits).2 ⟨n, Nat.le_refl n, rfl⟩
  · intro final stamps ticks
    obtain ⟨count, htimer, hstamps⟩ := ticked_run operations (Threed.new stepLimit readings, (⟨host, []⟩ : Traced η))
    have hall : stamps = (Timer.ticks count { readings }).map lowHalf := hstamps
    have hcount : stamps.length = count := by rw [hall, List.length_map, Timer.length_ticks]
    refine ⟨mapHost_run operations _, ?_, hcount ▸ htimer, fun hfits => ?_⟩
    · rw [hall, Timer.ticks_eq_map, ← hcount]
      rfl
    · rw [List.pairwise_map]
      refine List.pairwise_lt_range.imp_of_mem fun {m n} _ hn hmn => ?_
      exact Timer.tickAt_lt_tickAt hmn (hfits n (List.mem_range.mp hn))

end

/-- A clock that stands still and goes back, an engine that is reset in between, and no memory for its records. -/
theorem timestamps_rise_past_reset :
    let readings : Nat → UInt64 := fun n => if n = 0 then 1000000 else 999999
    let release : List Operation := [.call ⟨0x49, 2, false⟩, .call ⟨0x6C3, 0x200000, false⟩, .reset]
    let host : Board NullSink Ram := ⟨⟨⟩, Ram.zeros 0, {}⟩
    let stamps := stampsOf (run (release ++ release) (Threed.new 100 readings, (⟨host, []⟩ : Traced _))).2.events
    (∀ n < stamps.length, ∀ i ≤ n, Timer.due readings n i < UInt64.size) ∧
    stamps = [lowHalf 19200, lowHalf 19201] ∧
    IsGreatest {tick | ∃ i ≤ 1, Timer.due readings 1 i = tick} (Timer.tickAt readings 1).toNat ∧
    [Timer.tickAt readings 0, Timer.tickAt readings 1].Pairwise (· < ·) := by
  intro readings release host stamps
  obtain ⟨core₁, host₁, hrun₁, htimer₁, hstamps₁⟩ :=
    run_release (Threed.new 100 readings).core (⟨host, []⟩ : Traced _) { stepLimit := 100 }
  obtain ⟨core₂, host₂, hrun₂, -, hstamps₂⟩ := run_release core₁ host₁ { stepLimit := 100 }
  have hrun : run (release ++ release) (Threed.new 100 readings, (⟨host, []⟩ : Traced _)) =
      idle { stepLimit := 100 } (core₂, host₂) := by
    rw [← hrun₂, ← hrun₁, run, List.foldl_append]
    rfl
  have hstamps : stamps = [lowHalf 19200, lowHalf 19201] := by
    have htick₀ : (Threed.new 100 readings).core.timer.tick.1 = 19200 := by dsimp only [Threed.new]; decide
    have htick₁ : (Threed.new 100 readings).core.timer.tick.2.tick.1 = 19201 := by dsimp only [Threed.new]; decide
    have hlast : stamps = stampsOf (idle { stepLimit := 100 } (core₂, host₂)).2.events := by rw [← hrun]
    rw [hlast, idle, hstamps₂, hstamps₁, htimer₁, htick₀, htick₁]
    rfl
  have hfits : ∀ n < stamps.length, ∀ i ≤ n, Timer.due readings n i < UInt64.size := by
    rw [hstamps]
    decide
  obtain ⟨-, htick, hrecords⟩ := timestamps_rise (η := Board NullSink Ram) readings
  obtain ⟨hgreatest, -⟩ := htick 1 (hfits 1 (by rw [hstamps]; decide))
  obtain ⟨-, -, -, hrise⟩ := hrecords (release ++ release) 100 host
  have hrise := hrise hfits
  rw [show (stampsOf _).length = 2 from congrArg List.length hstamps] at hrise
  exact ⟨hfits, hstamps, hgreatest, hrise⟩

end Threed

end Maxwell
