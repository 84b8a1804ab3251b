import Maxwell.Host
import Maxwell.Mme.Machine
import Maxwell.Timer

/-! Method writes of the 3D engine: two copies of the registers, the shadow mode that decides which copy a
    write goes to, and the methods that do something when they are written.

    Seven methods are not routed: they always go to the live registers, and five of them drive the macro
    store or the sink. Every other write goes where the shadow mode in effect sends it. One that lands in
    the live registers is reported if it changes them, and then fires its trigger, if it has one. -/

namespace Maxwell.Threed
open Maxwell.Field

/-- What a method write can touch inside the engine. -/
structure Core where
  live : RegisterFile := .reset
  shadow : RegisterFile := .reset
  store : Mme.Store := .empty
  timer : Timer

/-- Work on the core and the host that can fail. -/
abbrev CoreM (η : Type) := EStateM Fault (Core × η)

section
variable {ε η : Type}

/-- Changes the core alone. -/
def onCore (change : Core → Core) : CoreM η Unit := fun (core, host) => .ok () (change core, host)

/-- Asks the host alone. -/
def onHost (cause : ε → Fault) (act : EStateM ε η Unit) : CoreM η Unit := fun (core, host) =>
  match act host with
  | .ok _ host => .ok () (core, host)
  | .error fault host => .error (cause fault) (core, host)

def setLive (offset : Nat) (value : Word) : CoreM η Unit :=
  onCore fun core => { core with live := core.live.write offset value }

def setShadow (offset : Nat) (value : Word) : CoreM η Unit :=
  onCore fun core => { core with shadow := core.shadow.write offset value }

end

section
variable {η : Type} [Host η]

def flushSink : CoreM η Unit := onHost .sink Sink.flush

/-! ### Methods that are not routed -/

/-- A method that is always written to the live registers. -/
inductive Control where
  | noOperation
  | waitForIdle
  | codePointer
  | codeLoad
  | startPointer
  | startLoad
  | shadowMode
  deriving DecidableEq, Repr

def Control.method : Control → Nat
  | .noOperation => Field.noOperation.start
  | .waitForIdle => Field.waitForIdle.start
  | .codePointer => mmeInstructionRamPointer.start
  | .codeLoad => mmeInstructionRamLoad.start
  | .startPointer => mmeStartAddressRamPointer.start
  | .startLoad => mmeStartAddressRamLoad.start
  | .shadowMode => mmeShadowRamControl.start

def Control.ofMethod? : (method : Nat) → Option Control
  | 0x40 => some .noOperation
  | 0x44 => some .waitForIdle
  | 0x45 => some .codePointer
  | 0x46 => some .codeLoad
  | 0x47 => some .startPointer
  | 0x48 => some .startLoad
  | 0x49 => some .shadowMode
  | _ => none

@[simp] theorem Control.ofMethod?_method (c : Control) : Control.ofMethod? c.method = some c := by cases c <;> rfl

/-- What a control does with the word written to it. -/
def Control.perform (value : Word) : Control → CoreM η Unit
  | .noOperation | .shadowMode => pure ()
  | .waitForIdle => flushSink
  | .codePointer => onCore fun core => { core with store := core.store.setCursor value }
  | .codeLoad => onCore fun core => { core with store := core.store.upload value }
  | .startPointer => onCore fun core => { core with store := core.store.setStartCursor value }
  | .startLoad => onCore fun core => { core with store := core.store.bindNext value }

/-! ### Triggers -/

/-- A method that does something when a word lands in its live register. -/
inductive Trigger where
  | syncpoint
  | clear
  | semaphore
  | firmwareCall
  deriving DecidableEq, Repr

def Trigger.method : Trigger → Nat
  | .syncpoint => syncpointAction.start
  | .clear => clearBuffers.start
  | .semaphore => Field.semaphore.start + 3
  | .firmwareCall => Field.firmwareCall.element 4

def Trigger.ofMethod? : (method : Nat) → Option Trigger
  | 0xB2 => some .syncpoint
  | 0x674 => some .clear
  | 0x6C3 => some .semaphore
  | 0x8C4 => some .firmwareCall
  | _ => none

@[simp] theorem Trigger.ofMethod?_method (t : Trigger) : Trigger.ofMethod? t.method = some t := by cases t <;> rfl

/-- The result a semaphore writes. An acquire, a trap and every counter but zero write none. -/
def semaphoreResult? (live : RegisterFile) : Option Word :=
  match live.semaphoreInfo.operation, live.semaphoreInfo.counter with
  | .release, _ => some live.semaphorePayload
  | .counter, .zero => some 0
  | _, _ => none

/-- The record of a semaphore: four bytes of the result or eight, and after eight the low half of a tick if
    the semaphore asks for one. The timer is read for that tick alone. -/
def semaphoreRecord (info : SemaphoreInfo) (result : Word) (timer : Timer) : List UInt8 × Timer :=
  match info.size, info.timestamp with
  | .oneWord, _ => (littleEndian 4 result.toNat, timer)
  | .twoWords, false => (littleEndian 8 result.toNat, timer)
  | .twoWords, true =>
    let (tick, timer) := timer.tick
    (littleEndian 8 result.toNat ++ littleEndian 4 tick.toNat, timer)

/-- Does what the semaphore registers say. -/
def performSemaphore : CoreM η Unit := fun (core, host) =>
  match semaphoreResult? core.live with
  | none => .ok () (core, host)
  | some result =>
    let (record, timer) := semaphoreRecord core.live.semaphoreInfo result core.timer
    onHost .memory (GuestMemory.store core.live.semaphoreAddress record.toByteArray) ({ core with timer }, host)

/-- What a trigger does with the word that landed. -/
def Trigger.fire (value : Word) : Trigger → CoreM η Unit
  | .syncpoint => do
    flushSink
    let action := SyncpointAction.ofWord value
    if action.increment then
      modify fun (core, host) => (core, Host.increment action.id host)
  | .clear => fun (core, host) => onHost .sink (Sink.clear core.live (.ofWord value)) (core, host)
  | .semaphore => performSemaphore
  | .firmwareCall => setLive firmwareCallResult.start 1

/-! ### Writes -/

/-- Reports the element that holds a register. -/
def report (offset : Nat) : CoreM η Unit := fun (core, host) =>
  onHost .sink (Sink.notify core.live (notifySpan offset)) (core, host)

/-- A word lands in a live register: it is reported if it changes it, and then its trigger fires. -/
def land (method : Nat) (value : Word) : CoreM η Unit := do
  let (core, _) ← get
  let changed := core.live.read method != value
  setLive method value
  if changed then report method
  match Trigger.ofMethod? method with
  | some trigger => trigger.fire value
  | none => pure ()

/-- A write goes where the shadow mode in effect before it sends it. -/
def route (method : Nat) (argument : Word) : CoreM η Unit := do
  match (← get).1.live.shadowMode with
  | .track =>
    setShadow method argument
    land method argument
  | .trackWithFilter => setShadow method argument
  | .passthrough => land method argument
  | .replay => land method ((← get).1.shadow.read method)

/-- Writes to the register of a method. -/
def write (method : Nat) (argument : Word) : CoreM η Unit :=
  match Control.ofMethod? method with
  | some control => do
    setLive method argument
    control.perform argument
  | none => route method argument

/-- A macro runs on the core that holds its code. Its sends are writes, but it cannot call a macro. -/
instance : Mme.Bus Fault (Core × η) where
  fetch offset s := (s.1.store.words[offset], s)
  read method s := (s.1.live.read method, s)
  write method value := if registerCount ≤ method then pure () else write method value

end

end Maxwell.Threed
