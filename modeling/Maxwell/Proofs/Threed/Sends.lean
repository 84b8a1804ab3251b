import Maxwell.Proofs.Mme.Addressing
import Maxwell.Proofs.Threed.Act

/-! Macros as shorthand for method calls. All that an invocation does to the engine and to its host it does
    by its sends, so making these sends as calls has the same effect, down to the fault that ends it. Where the sends go
    is told by the values given to the method address. -/

namespace Maxwell.Threed

section
variable {η : Type} [Host η]

/-- The bus of the engine changes only by what a macro sends. -/
theorem quiet : Mme.Quiet Fault (Core × η) where
  fetch _ _ := rfl
  read _ _ := rfl

/-- The sends of an invocation, in order, on the core whose store holds its code. -/
def Invocation.sends (invocation : Invocation) (stepLimit : Nat) (s : Core × η) : List (Nat × Word) :=
  Mme.sends stepLimit (s.1.store.entry invocation.slot) invocation.arguments.toList s

theorem forM_sends_run (invocation : Invocation) (stepLimit : Nat) (s : Core × η) :
    (invocation.sends stepLimit s).forM Mme.makeSend s = settled (invocation.run stepLimit s) :=
  quiet.forM_sends stepLimit (s.1.store.entry invocation.slot) invocation.arguments.toList s

theorem makeSend_of_le {method : Nat} (h : registerCount ≤ method) (value : Word) (s : Core × η) :
    Mme.makeSend (method, value) s = .ok () s := by
  show (if registerCount ≤ method then pure () else write method value : CoreM η Unit) s = _
  rw [if_pos h]
  rfl

theorem makeSend_of_lt {method : Nat} (h : method < registerCount) (value : Word) (s : Core × η) :
    Mme.makeSend (method, value) s = write method value s := by
  show (if registerCount ≤ method then pure () else write method value : CoreM η Unit) s = _
  rw [if_neg (Nat.not_le.mpr h)]

/-- The sends to registers as calls, the `k`-th of them marked with `flags k`. -/
def directCalls (flags : Nat → Bool) (sends : List (Nat × Word)) : List Request :=
  (sends.filter fun s => s.1 < registerCount).mapIdx fun k s => ⟨s.1, s.2, flags k⟩

theorem makeAll_mapIdx {sends : List (Nat × Word)} (hsends : ∀ w ∈ sends, w.1 < registerCount) (flags : Nat → Bool)
    (interpreter : Mme.Interpreter) (s : Core × η) :
    makeAll (sends.mapIdx fun k w => ⟨w.1, w.2, flags k⟩) (idle interpreter s) =
      through (idle interpreter) (sends.forM Mme.makeSend s) := by
  rw [forM_congr_apply fun w hw => makeSend_of_lt (hsends w hw) w.2]
  exact makeAll_marked hsends flags interpreter s

/-- The engine with another interpreter. -/
def withInterpreter (interpreter : Mme.Interpreter) (s : Threed × η) : Threed × η := ({ s.1 with interpreter }, s.2)

/-- Running a pending invocation is making its sends to registers as calls, in order and up to the first that
    fails, whatever the calls' marks. Both leave the same registers, store, timer and host, and end in the
    same fault if they fail, and all that tells them apart is what the run leaves in the interpreter. Sends to the
    methods of macros do nothing. -/
theorem flush_eq_makeAll_directCalls (core : Core) (invocation : Invocation) (interpreter : Mme.Interpreter) (host : η)
    (flags : Nat → Bool) :
    (∃ interpreter', interpreter'.stepLimit = interpreter.stepLimit ∧
      flush (⟨core, some invocation, interpreter⟩, host) = through (withInterpreter interpreter')
        (makeAll (directCalls flags (invocation.sends interpreter.stepLimit (core, host)))
          (⟨core, none, interpreter⟩, host))) ∧
    ∀ send ∈ invocation.sends interpreter.stepLimit (core, host), registerCount ≤ send.1 →
      ∀ s : Core × η, Mme.Bus.write send.1 send.2 s = .ok () s := by
  constructor
  · have hdrop : ∀ w : Nat × Word, decide (w.1 < registerCount) = false →
        ∀ s : Core × η, Mme.makeSend w s = .ok () s := by
      intro w hw
      exact makeSend_of_le (Nat.not_lt.mp (of_decide_eq_false hw)) w.2
    have hkept : ∀ w ∈ (invocation.sends interpreter.stepLimit (core, host)).filter fun w => w.1 < registerCount,
        w.1 < registerCount := by
      intro w hw
      exact of_decide_eq_true (List.mem_filter.mp hw).2
    have hcalls : makeAll (directCalls flags (invocation.sends interpreter.stepLimit (core, host)))
        (⟨core, none, interpreter⟩, host) =
        through (idle interpreter) (settled (invocation.run interpreter.stepLimit (core, host))) := by
      rw [← forM_sends_run, ← forM_filter_apply hdrop]
      exact makeAll_mapIdx hkept flags interpreter (core, host)
    obtain ⟨stepLimit, machine⟩ := interpreter
    obtain ⟨machine', hinvoke⟩ := exists_invoke invocation stepLimit machine (core, host)
    refine ⟨⟨stepLimit, machine'⟩, rfl, ?_⟩
    rw [flush_pending, hinvoke, hcalls]
    cases invocation.run stepLimit (core, host) <;> rfl
  · intro send _ hsend s
    exact makeSend_of_le hsend send.2 s

/-! ### Where sends go -/

/-- Sends are counted on from the value that the method address was given last, zero at first. The target of a send is
    the method in bits 11:0 of that value, moved on by its bits 17:12 for every send since then, modulo 0x1000. An
    instruction that gives the address a value and sends does the former first. So every target is below 0x1000, and the
    higher bits of a value do not matter. On the bus of the engine the sends to the methods of macros do nothing, but are
    counted like the others, and all others are writes. -/
theorem targets_of_sends {ε β : Type} [Mme.Bus ε β] (limit : Nat) (entry : Word) (arguments : List Word) :
    (∀ bus : β,
      (Mme.addressActs limit entry arguments bus).filterMap Mme.AddressAct.send? =
        Mme.sends limit entry arguments bus ∧
      (∀ before target value after,
        Mme.addressActs limit entry arguments bus = before ++ .send target value :: after →
        target = ((Mme.aimOf before).1.toNat % 0x1000 +
          (Mme.aimOf before).2 * ((Mme.aimOf before).1.toNat >>> 12 % 64)) % 0x1000) ∧
      ∀ send ∈ Mme.sends limit entry arguments bus, send.1 < 0x1000) ∧
    (∀ v w : Word, v.toNat % 0x40000 = w.toNat % 0x40000 → ∀ m : Mme.Machine, m.setMethod v = m.setMethod w) ∧
    ∀ s : Core × η, ∀ send ∈ Mme.sends limit entry arguments s, ∀ t : Core × η,
      Mme.makeSend send t = if 0xE00 ≤ send.1 then .ok () t else write send.1 send.2 t := by
  refine ⟨fun bus => ⟨Mme.filterMap_send?_addressActs limit entry arguments bus, ?_, ?_⟩, ?_, ?_⟩
  · intro before target value after h
    exact Mme.target_eq h
  · intro send hsend
    rw [← Mme.filterMap_send?_addressActs] at hsend
    obtain ⟨act, hact, hact'⟩ := List.mem_filterMap.mp hsend
    obtain ⟨before, after, h⟩ := List.append_of_mem hact
    cases act with
    | set value => cases hact'
    | send target value =>
      cases hact'
      rw [Mme.target_eq h]
      exact Fin.isLt _
  · intro v w h m
    rw [Mme.Machine.setMethod, Mme.Machine.setMethod, Mme.MethodAddress.ofWord_congr h]
  · intro s send _ t
    split
    · exact makeSend_of_le ‹_› send.2 t
    · exact makeSend_of_lt (Nat.lt_of_not_le ‹_›) send.2 t

end

end Maxwell.Threed
