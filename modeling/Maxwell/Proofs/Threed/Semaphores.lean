import Mathlib.Algebra.Group.Nat.Defs
import Maxwell.Proofs.Threed.History
import Maxwell.Proofs.Timer

/-! What the engine stores. Guest memory is written by semaphores alone: by each word that lands in the register that
    sets them off and asks for a result, after its report, if that did not fail. Where the record goes, what is in it
    and how long it is are told by that word and by the three registers before it, and only a record of two words with
    a timestamp takes a tick. -/

namespace Maxwell

/-! ### Bytes -/

/-- Byte `i` of a number is its digit at `256 ^ i`. -/
theorem getElem_littleEndian {count n i : Nat} (hi : i < (littleEndian count n).length) :
    (littleEndian count n)[i] = UInt8.ofNat (n / 256 ^ i % 256) := by
  induction count generalizing n i with
  | zero => exact absurd hi (Nat.not_lt_zero i)
  | succ count ih =>
    cases i with
    | zero =>
      rw [Nat.pow_zero, Nat.div_one]
      exact UInt8.ofNat_mod_size.symm
    | succ i =>
      simp only [littleEndian, List.getElem_cons_succ]
      rw [ih, Nat.div_div_eq_div_mul, Nat.pow_succ, Nat.mul_comm]

example : littleEndian 4 0x11223344 = [0x44, 0x33, 0x22, 0x11] := by decide

/-- The four low bytes of a number, the lowest first. -/
def lowBytes (n : Nat) : List UInt8 := (List.range 4).map fun i => .ofNat (n / 256 ^ i % 256)

theorem length_lowBytes (n : Nat) : (lowBytes n).length = 4 := rfl

theorem littleEndian_four (n : Nat) : littleEndian 4 n = lowBytes n := by
  refine List.ext_getElem (length_littleEndian 4 n) fun i hi _ => ?_
  simp only [lowBytes, getElem_littleEndian hi, List.getElem_map, List.getElem_range]

/-- Above a word there are zeros. -/
theorem littleEndian_eight (w : Word) : littleEndian 8 w.toNat = lowBytes w.toNat ++ [0, 0, 0, 0] := by
  have hlt := w.toNat_lt
  have hzero : w.toNat / 256 / 256 / 256 / 256 = 0 := by omega
  rw [← littleEndian_four]
  simp only [littleEndian, hzero, Nat.zero_div, List.cons_append, List.nil_append]
  rfl

/-! ### Requests to store -/

/-- The address and the bytes of a request to store. -/
def HostEvent.stored? : HostEvent → Option (UInt64 × ByteArray)
  | .store address bytes _ => some (address, bytes)
  | .notify .. | .flush _ | .clear .. | .increment _ => none

/-- The requests to store on record, in the order in which they were made. -/
def storesOf (events : List HostEvent) : List (UInt64 × ByteArray) := Threed.toldOf HostEvent.stored? events

theorem storesOf_cons (e : HostEvent) (events : List HostEvent) :
    storesOf (e :: events) = storesOf events ++ e.stored?.toList := Threed.toldOf_cons _ e events

namespace Threed

/-! ### What a word asks for -/

/-- The result that a semaphore word asks for: a release the payload, a count of nothing zero. -/
def askedResult? (word payload : Word) : Option Word :=
  if word.field 0 2 = 0 then some payload
  else if word.field 0 2 = 2 ∧ word.field 23 5 = 0 then some 0
  else none

/-- Whether a semaphore word asks for a timestamp. One that asks for a single word of the result does not. -/
def asksTick (word : Word) : Bool := !word.bit 28 && word.bit 21

/-- The record of a result: its four bytes, or eight, the upper four of which are zero, and then, if it is asked for,
    the low half of a tick. -/
def askedBytes (word result : Word) (tick : UInt64) : List UInt8 :=
  if word.bit 28 then lowBytes result.toNat
  else lowBytes result.toNat ++ [0, 0, 0, 0] ++ if word.bit 21 then lowBytes tick.toNat else []

/-- The request to store that a semaphore word makes, at a tick and with the three registers before its own. -/
def askedStore? (live : RegisterFile) (word : Word) (tick : UInt64) : Option (UInt64 × ByteArray) :=
  (askedResult? word (live.read 0x6C2)).map fun result =>
    (.ofNat ((live.read 0x6C0).toNat * 0x100000000 + (live.read 0x6C1).toNat),
      (askedBytes word result tick).toByteArray)

theorem semaphoreRecord_eq (word result : Word) (timer : Timer) :
    semaphoreRecord (.ofWord word) result timer =
      (askedBytes word result timer.tick.1, if asksTick word then timer.tick.2 else timer) := by
  cases hsize : word.bit 28 <;> cases htick : word.bit 21 <;>
    simp [semaphoreRecord, SemaphoreInfo.ofWord, askedBytes, asksTick, hsize, htick, littleEndian_four,
      littleEndian_eight]

theorem counter_eq_zero_iff {code : Nat} : CounterType.ofCode code = .zero ↔ code = 0 := by
  unfold CounterType.ofCode
  split <;> simp_all

theorem semaphoreResult?_eq {live : RegisterFile} {word : Word} (h : live.read 0x6C3 = word) :
    semaphoreResult? live = askedResult? word (live.read 0x6C2) := by
  have hinfo : live.semaphoreInfo = .ofWord word := congrArg SemaphoreInfo.ofWord h
  have hpayload : live.semaphorePayload = live.read 0x6C2 := rfl
  have hop := word.field_lt 0 2
  rw [semaphoreResult?, hinfo, hpayload]
  simp only [SemaphoreInfo.ofWord, askedResult?]
  generalize word.field 0 2 = op at hop ⊢
  generalize word.field 23 5 = code
  have hcases : op = 0 ∨ op = 1 ∨ op = 2 ∨ op = 3 := by omega
  rcases hcases with rfl | rfl | rfl | rfl
  · rfl
  · rfl
  · by_cases hcode : code = 0
    · subst hcode
      rfl
    · have hcounter : CounterType.ofCode code ≠ .zero := fun h => hcode (counter_eq_zero_iff.mp h)
      rw [if_neg (by decide), if_neg (fun h => hcode h.2)]
      generalize CounterType.ofCode code = counter at hcounter
      cases counter with
      | zero => exact absurd rfl hcounter
      | _ => rfl
  · rfl

theorem semaphoreAddress_eq (live : RegisterFile) :
    live.semaphoreAddress = .ofNat ((live.read 0x6C0).toNat * 0x100000000 + (live.read 0x6C1).toNat) := by
  show packAddress (live.read 0x6C0) (live.read 0x6C1) = _
  generalize live.read 0x6C0 = high
  generalize live.read 0x6C1 = low
  have hhigh := high.toNat_lt
  have hlow := low.toNat_lt
  apply UInt64.toNat_inj.mp
  rw [UInt64.toNat_ofNat_of_lt' (by rw [UInt64.size]; omega), packAddress, UInt64.toNat_or, UInt64.toNat_shiftLeft,
    UInt32.toNat_toUInt64, UInt32.toNat_toUInt64]
  have hshifted : high.toNat <<< (UInt64.toNat 32 % 64) % 2 ^ 64 = high.toNat <<< 32 := by
    rw [show UInt64.toNat 32 % 64 = 32 from rfl, Nat.mod_eq_of_lt (by rw [Nat.shiftLeft_eq]; omega)]
  rw [hshifted, ← Nat.shiftLeft_add_eq_or_of_lt hlow, Nat.shiftLeft_eq]

/-! ### One write -/

namespace WriteAt
variable {η : Type} [Host η]

/-- The request to store that a write makes: that of the word, if one lands in the semaphore's register and is not
    kept back by its report. -/
def stored? (w : WriteAt η) : Option (UInt64 × ByteArray) :=
  if w.method = 0x6C3 then w.fired?.bind fun (word, _) => askedStore? w.core.live word w.core.timer.tick.1 else none

/-- Whether a write takes a tick: it stores a record that a timestamp is asked for. -/
def takesTick (w : WriteAt η) : Bool :=
  w.stored?.isSome && w.fired?.any fun (word, _) => asksTick word

end WriteAt

section
variable {η : Type} [Host η]

/-- Work that stores nothing and takes no tick. -/
def Storeless (s : Core × Traced η) (r : EStateM.Result Fault (Core × Traced η) Unit) : Prop :=
  storesOf (stateOf r).2.events = storesOf s.2.events ∧ (stateOf r).1.timer = s.1.timer

omit [Host η] in
theorem storeless_record {event : Option SinkFault → HostEvent} (h : ∀ fault?, (event fault?).stored? = none)
    (act : EStateM SinkFault η Unit) (s : Core × Traced η) :
    Storeless s (onHost .sink (Traced.record event act) s) := by
  obtain ⟨core, host, events⟩ := s
  simp only [onHost, Traced.record]
  cases act host with
  | ok _ host => exact ⟨by simp [stateOf, storesOf_cons, h], rfl⟩
  | error fault host => exact ⟨by simp [stateOf, storesOf_cons, h], rfl⟩

theorem storeless_routingLaw : RoutingLaw (Storeless (η := η)) where
  done _ := ⟨rfl, rfl⟩
  next h₁ h₂ := ⟨h₂.1.trans h₁.1, h₂.2.trans h₁.2⟩
  store _ _ _ := ⟨rfl, rfl⟩
  flush s := storeless_record (fun _ => rfl) _ s
  registers _ _ _ _ := ⟨rfl, rfl⟩
  notify _ _ s := storeless_record (fun _ => rfl) _ s

theorem storeless_fire {trigger : Trigger} (hne : trigger ≠ .semaphore) (value : Word) (s : Core × Traced η) :
    Storeless s (trigger.fire value s) := by
  cases trigger with
  | syncpoint =>
    refine storeless_routingLaw.bind (storeless_routingLaw.flush s) fun t => ?_
    dsimp only
    split
    · exact ⟨(storesOf_cons _ _).trans (List.append_nil _), rfl⟩
    · exact storeless_routingLaw.done t
  | clear => exact storeless_record (fun _ => rfl) _ s
  | semaphore => exact absurd rfl hne
  | firmwareCall => exact storeless_routingLaw.registers _ _ _ _

/-- A semaphore makes the request of its word. -/
theorem performSemaphore_eq (core : Core) (host : η) :
    performSemaphore (core, host) =
      match askedStore? core.live (core.live.read 0x6C3) core.timer.tick.1 with
      | some (address, bytes) =>
        onHost .memory (GuestMemory.store address bytes)
          ({ core with timer := if asksTick (core.live.read 0x6C3) then core.timer.tick.2 else core.timer }, host)
      | none => .ok () (core, host) := by
  have hinfo : core.live.semaphoreInfo = .ofWord (core.live.read 0x6C3) := rfl
  simp only [performSemaphore, semaphoreResult?_eq rfl, askedStore?, hinfo, semaphoreRecord_eq, semaphoreAddress_eq]
  cases askedResult? (core.live.read 0x6C3) (core.live.read 0x6C2) <;> rfl

theorem stores_performSemaphore (core : Core) (host : Traced η) :
    let asked? := askedStore? core.live (core.live.read 0x6C3) core.timer.tick.1
    storesOf (stateOf (performSemaphore (core, host))).2.events = storesOf host.events ++ asked?.toList ∧
    (stateOf (performSemaphore (core, host))).1.timer =
      if asked?.isSome ∧ asksTick (core.live.read 0x6C3) then core.timer.tick.2 else core.timer := by
  rw [performSemaphore_eq]
  cases askedStore? core.live (core.live.read 0x6C3) core.timer.tick.1 with
  | none => simp [stateOf]
  | some asked =>
    obtain ⟨address, bytes⟩ := asked
    obtain ⟨host, events⟩ := host
    simp only [onHost, GuestMemory.store, Traced.record]
    cases GuestMemory.store address bytes host <;> simp [stateOf, storesOf_cons, HostEvent.stored?]

omit [Host η] in
theorem askedStore?_landing {w : WriteAt η} (hmethod : w.method = 0x6C3) (value word : Word) (tick : UInt64) :
    askedStore? (w.landing value).live word tick = askedStore? w.core.live word tick := by
  have hread : ∀ o, o ≠ 0x6C3 → (w.landing value).live.read o = w.core.live.read o := fun o ho => by
    rw [WriteAt.landing, hmethod, RegisterFile.read_write, if_neg fun h => ho h.1.symm]
  rw [askedStore?, askedStore?, hread 0x6C0 (by decide), hread 0x6C1 (by decide), hread 0x6C2 (by decide)]

/-- A write stores what it asks for and nothing else, and takes a tick if it asks for one. -/
theorem WriteAt.stores_outcome (w : WriteAt (Traced η)) :
    storesOf (stateOf w.outcome).2.events = storesOf w.host.events ++ w.stored?.toList ∧
    (stateOf w.outcome).1.timer = if w.takesTick then w.core.timer.tick.2 else w.core.timer := by
  -- A write that fires no semaphore.
  have hquiet : w.stored? = none → Storeless (w.core, w.host) w.outcome →
      storesOf (stateOf w.outcome).2.events = storesOf w.host.events ++ w.stored?.toList ∧
      (stateOf w.outcome).1.timer = if w.takesTick then w.core.timer.tick.2 else w.core.timer := by
    rintro hnone ⟨hstores, htimer⟩
    have htick : w.takesTick = false := by simp [takesTick, hnone]
    rw [hnone, htick]
    exact ⟨by simpa using hstores, htimer⟩
  by_cases hsemaphore : w.method = 0x6C3
  · cases hfired : w.fired? with
    | none => exact hquiet (by simp [stored?, hfired]) (storeless_routingLaw.unfired hfired)
    | some fired =>
      obtain ⟨word, host⟩ := fired
      obtain ⟨hstores, htimer⟩ := storeless_routingLaw.landing hfired
      have houtcome : w.outcome = performSemaphore (w.landing word, host) :=
        outcome_of_trigger hfired .semaphore hsemaphore
      have hword : (w.landing word).live.read 0x6C3 = word := by
        rw [landing, hsemaphore, RegisterFile.read_write, if_pos (by decide)]
      obtain ⟨hmade, hticks⟩ := stores_performSemaphore (w.landing word) host
      rw [hword, askedStore?_landing hsemaphore] at hmade hticks
      rw [houtcome, hmade, hticks, show storesOf host.events = _ from hstores,
        show (w.landing word).timer = _ from htimer]
      simp [stored?, takesTick, hsemaphore, hfired]
  · exact hquiet (by rw [stored?, if_neg hsemaphore])
      (storeless_routingLaw.write_of_ne .semaphore hsemaphore fun _ => storeless_fire)

/-! ### All writes of a run -/

/-- The ticks of a chain are those that its writes take. -/
theorem Chain.timer {s t : Core × Traced η} {writes : List (WriteAt (Traced η))} (h : Chain s writes t) :
    t.1.timer = Timer.after (writes.countP WriteAt.takesTick) s.1.timer := by
  induction h with
  | nil => simp [Timer.after]
  | cons w _ _ ih =>
    rw [ih, w.stores_outcome.2]
    cases htick : w.takesTick <;> simp [htick, Timer.after]

end

section
variable {σ μ : Type} [Sink σ] [GuestMemory μ]

/-- The memory after a request to store, which may fail. -/
def storeInto (memory : μ) (store : UInt64 × ByteArray) : μ := stateOf (GuestMemory.store store.1 store.2 memory)

/-- Memory changes by requests to store. -/
theorem accounts_memory : Accounts HostEvent.stored? storeInto (Board.memory : Board σ μ → μ) where
  notify live span _ board := memory_onSink (Sink.notify live span) board
  flush _ board := memory_onSink Sink.flush board
  clear live request _ board := memory_onSink (Sink.clear live request) board
  store address bytes _ board := memory_onMemory (GuestMemory.store address bytes) board
  increment _ _ := rfl

/-- The requests to store of a run from power-up, in order, are those of its writes that set off a semaphore which asks
    for a result, each to the address and with the bytes that the word and the registers before it tell at that moment,
    whether a store fails or not. The memory is what these requests make of it. The tick of a write is the one after
    those taken by the writes before it that asked for one. -/
theorem stores_stateAfter (requests : List Request) (stepLimit : Nat) (readings : Nat → UInt64) (sink : σ)
    (memory : μ) :
    let start := (Threed.new stepLimit readings, (⟨⟨sink, memory, {}⟩, []⟩ : Traced (Board σ μ)))
    let final := stateAfter requests start
    let writes := writesOf requests start
    mapHost Traced.host final = stateAfter requests (Threed.new stepLimit readings, ⟨sink, memory, {}⟩) ∧
    Chain (coreOf start) writes (coreOf final) ∧
    storesOf final.2.events = writes.filterMap WriteAt.stored? ∧
    final.2.host.memory = (writes.filterMap WriteAt.stored?).foldl storeInto memory ∧
    final.1.core.timer = Timer.after (writes.countP WriteAt.takesTick) { readings } ∧
    ∀ before w after, writes = before ++ w :: after →
      w.core.timer = Timer.after (before.countP WriteAt.takesTick) { readings } := by
  intro start final writes
  have hchain : Chain (coreOf start) writes (coreOf final) := chain_writesOf requests start
  have hstores : storesOf final.2.events = writes.filterMap WriteAt.stored? :=
    hchain.toldOf fun w _ => w.stores_outcome.1
  have hmemory : final.2.host.memory = (storesOf final.2.events).foldl storeInto memory :=
    accounts_memory.chain hchain rfl
  refine ⟨(Traced.hostMap.stateAfter requests _).symm, hchain, hstores, ?_, hchain.timer, ?_⟩
  · rw [hmemory, hstores]
  · intro before w after hwrites
    rw [hwrites] at hchain
    exact hchain.before.timer

end

end Threed

end Maxwell
