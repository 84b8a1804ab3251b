import Maxwell.Proofs.Mme.Effect
import Maxwell.Proofs.Mme.Flow

/-! Where sends go. The method address is aimed by the value that it is given, and every send moves it on by the same
    distance until it is given another. So the value last given and the number of sends since then tell the target of
    the next send, whatever else was executed. -/

namespace Maxwell.Mme

/-! ### Addresses -/

namespace MethodAddress

/-- The address that was given a value, some sends later. -/
def aimed (value : Word) (sends : Nat) : MethodAddress where
  method := ⟨(value.toNat % 0x1000 + sends * (value.toNat >>> 12 % 64)) % 0x1000, Nat.mod_lt _ (Nat.succ_pos 0xFFF)⟩
  increment := (ofWord value).increment

theorem val_increment_ofWord (value : Word) : (ofWord value).increment.val = value.toNat >>> 12 % 64 := rfl

theorem aimed_zero (value : Word) : aimed value 0 = ofWord value := by
  have hmethod : (ofWord value).method.val = value.toNat % 0x1000 := rfl
  have hval : (aimed value 0).method.val = (ofWord value).method.val := by
    simp only [aimed, hmethod, Nat.zero_mul, Nat.add_zero, Nat.mod_mod]
  exact congrArg (MethodAddress.mk · _) (Fin.ext hval)

theorem next_aimed (value : Word) (sends : Nat) : (aimed value sends).next = aimed value (sends + 1) := by
  have hval : (aimed value sends).next.method.val = (aimed value (sends + 1)).method.val := by
    simp only [next, aimed, Fin.val_ofNat, val_increment_ofWord, Nat.succ_mul]
    omega
  exact congrArg (MethodAddress.mk · _) (Fin.ext hval)

theorem ofWord_congr {v w : Word} (h : v.toNat % 0x40000 = w.toNat % 0x40000) : ofWord v = ofWord w := by
  have hmethod : v.field 0 12 = w.field 0 12 := by
    simp only [Word.field, Nat.shiftRight_eq_div_pow, Nat.shiftLeft_eq]
    omega
  have hincrement : v.field 12 6 = w.field 12 6 := by
    simp only [Word.field, Nat.shiftRight_eq_div_pow, Nat.shiftLeft_eq]
    omega
  simp only [ofWord, hmethod, hincrement]

end MethodAddress

/-- Whether a result operation gives the method address a value. It does so before it sends. -/
def ResultOp.setsMethod : ResultOp → Bool
  | .moveAndSetMethod | .fetchAndSetMethod | .moveAndSetMethodFetchAndSend | .moveAndSetMethodSend => true
  | .ignoreAndFetch | .move | .fetchAndSend | .moveAndSend => false

theorem ResultOp.address_settle (op : ResultOp) (target : RegisterId) (value : Word) (m : Machine) :
    (op.settle target value m).address = if op.setsMethod then .ofWord value else m.address := by
  cases op <;> simp [settle, setsMethod, Machine.fetchTo, Machine.setMethod]

/-! ### What a run does with the address -/

inductive AddressAct where
  /-- The address is given a value. -/
  | set (value : Word)
  /-- A value is sent to a method. The address moves on. -/
  | send (target : Nat) (value : Word)
  deriving DecidableEq, Repr

namespace AddressAct

def send? : AddressAct → Option (Nat × Word)
  | .set _ => none
  | .send target value => some (target, value)

/-- The value last given to the address and the number of sends since then, one act later. -/
def count : Word × Nat → AddressAct → Word × Nat
  | _, .set value => (value, 0)
  | (value, sends), .send _ _ => (value, sends + 1)

/-- Every send of a list of acts goes where the acts before it lead. -/
def InPlace : Word × Nat → List AddressAct → Prop
  | _, [] => True
  | aim, .set value :: acts => InPlace (count aim (.set value)) acts
  | aim, .send target value :: acts =>
    target = (MethodAddress.aimed aim.1 aim.2).method ∧ InPlace (count aim (.send target value)) acts

theorem inPlace_append (aim : Word × Nat) (first second : List AddressAct) :
    InPlace aim (first ++ second) ↔ InPlace aim first ∧ InPlace (first.foldl count aim) second := by
  induction first generalizing aim with
  | nil => simp [InPlace]
  | cons act first ih =>
    cases act with
    | set value => exact ih _
    | send target value =>
      rw [List.cons_append, InPlace, InPlace, List.foldl_cons, and_assoc]
      exact and_congr_right fun _ => ih _

end AddressAct

/-- The value that was last given to the address, zero at first, and the number of sends since then. -/
def aimOf (acts : List AddressAct) : Word × Nat := acts.foldl AddressAct.count (0, 0)

section
variable {ε β : Type} [Bus ε β]

/-- The value that the instruction of a state gives to the address. -/
def givenAt? (s : Machine × β) : Option Word :=
  (computedAt? s).bind fun c => if c.op.setsMethod then some c.value else none

def addressActsAt (s : Machine × β) : List AddressAct :=
  (givenAt? s).toList.map .set ++ ((stepEvents s).filterMap BusEvent.send?).map fun w => .send w.1 w.2

/-- What the instructions of a run do with the method address, in order. -/
def addressActs (limit : Nat) (entry : Word) (arguments : List Word) (bus : β) : List AddressAct :=
  (statesFrom limit (Machine.start entry arguments, bus)).flatMap addressActsAt

theorem address_settledAt (s : Machine × β) :
    (settledAt s).address = match givenAt? s with
      | some value => .ofWord value
      | none => s.1.address := by
  unfold settledAt givenAt?
  cases computedAt? s with
  | none => exact s.1.address_advance _
  | some c =>
    have hsettle := c.op.address_settle c.target c.value { s.1.advance (instructionAt s) with carry := c.carry }
    refine hsettle.trans ?_
    rw [Option.bind_some]
    cases c.op.setsMethod with
    | true => rfl
    | false => exact s.1.address_advance _

theorem addressActsAt_eq (s : Machine × β) :
    addressActsAt s = (givenAt? s).toList.map .set ++
      (sentAt? s).toList.map (.send (settledAt s).address.method) := by
  rw [addressActsAt, filterMap_send?_stepEvents]
  cases sentAt? s <;> rfl

/-- An instruction sends to where the address stands, and leaves it where its acts lead. -/
theorem inPlace_addressActsAt {s : Machine × β} {aim : Word × Nat} (h : s.1.address = .aimed aim.1 aim.2) :
    AddressAct.InPlace aim (addressActsAt s) ∧ ∀ finished t, step s = .ok finished t →
      t.1.address = .aimed ((addressActsAt s).foldl AddressAct.count aim).1
        ((addressActsAt s).foldl AddressAct.count aim).2 := by
  have haddress : (settledAt s).address = match givenAt? s with
      | some value => .aimed value 0
      | none => .aimed aim.1 aim.2 := by
    rw [address_settledAt, h]
    cases givenAt? s with
    | none => rfl
    | some value => exact (MethodAddress.aimed_zero value).symm
  rw [addressActsAt_eq]
  refine ⟨?_, fun finished t ht => ?_⟩
  · cases hgiven : givenAt? s <;> cases sentAt? s <;> rw [hgiven] at haddress <;>
      simp [haddress, AddressAct.InPlace, AddressAct.count]
  · rw [address_step ht]
    cases hgiven : givenAt? s <;> cases sentAt? s <;> rw [hgiven] at haddress <;>
      simp [haddress, AddressAct.count, MethodAddress.next_aimed]

theorem inPlace_statesFrom (limit : Nat) {s : Machine × β} {aim : Word × Nat} (h : s.1.address = .aimed aim.1 aim.2) :
    AddressAct.InPlace aim ((statesFrom limit s).flatMap addressActsAt) := by
  induction limit generalizing s aim with
  | zero => trivial
  | succ limit ih =>
    obtain ⟨hacts, hnext⟩ := inPlace_addressActsAt h
    obtain ⟨rest, hstates, hrest⟩ := statesFrom_succ limit s
    rw [hstates, List.flatMap_cons, AddressAct.inPlace_append]
    refine ⟨hacts, ?_⟩
    rcases hrest with rfl | ⟨t, hstep, rfl⟩
    · trivial
    · exact ih (hnext false t hstep)

theorem filterMap_send?_addressActs (limit : Nat) (entry : Word) (arguments : List Word) (bus : β) :
    (addressActs limit entry arguments bus).filterMap AddressAct.send? = sends limit entry arguments bus := by
  have hstep (s : Machine × β) :
      (addressActsAt s).filterMap AddressAct.send? = (stepEvents s).filterMap BusEvent.send? := by
    rw [filterMap_send?_stepEvents, addressActsAt_eq]
    cases givenAt? s <;> cases sentAt? s <;> rfl
  rw [addressActs, sends, asked_eq, eventsFrom_eq, List.filterMap_flatMap, List.filterMap_flatMap]
  simp only [hstep]

/-- A send goes to the method given last, moved on once for each send since then. -/
theorem target_eq {limit : Nat} {entry : Word} {arguments : List Word} {bus : β} {before after : List AddressAct}
    {target : Nat} {value : Word} (h : addressActs limit entry arguments bus = before ++ .send target value :: after) :
    target = (MethodAddress.aimed (aimOf before).1 (aimOf before).2).method := by
  have hplace : AddressAct.InPlace (0, 0) (addressActs limit entry arguments bus) := by
    refine inPlace_statesFrom limit ?_
    exact (MethodAddress.aimed_zero 0).symm
  rw [h, AddressAct.inPlace_append] at hplace
  exact hplace.2.1

end

end Maxwell.Mme
