import Maxwell.Word

/-! Packet headers: the first word of a packet says what its data words are.

    | Bits  | Field                         |
    |-------|-------------------------------|
    | 12:0  | method                        |
    | 15:13 | subchannel                    |
    | 28:16 | data word count, or the data  |
    | 31:29 | operation                     | -/

namespace Maxwell

/-- What a packet does with its data. -/
inductive SecOp where
  /-- Not assigned; the data is skipped. -/
  | group0
  /-- Data goes to consecutive methods. -/
  | inc
  /-- Not assigned; the data is skipped. -/
  | group2
  /-- All data goes to one method. -/
  | nonInc
  /-- The header itself holds the data. -/
  | immediate
  /-- The first word goes to the method, all others to the one after it. -/
  | oneInc
  /-- Not assigned; the data is skipped. -/
  | reserved6
  /-- The segment ends here. -/
  | endSegment
  deriving DecidableEq, Repr

namespace SecOp

/-- Only the three low bits count. -/
def ofCode (code : Nat) : SecOp :=
  match code % 8 with
  | 0 => .group0
  | 1 => .inc
  | 2 => .group2
  | 3 => .nonInc
  | 4 => .immediate
  | 5 => .oneInc
  | 6 => .reserved6
  | _ => .endSegment

def code : SecOp → Nat
  | .group0 => 0
  | .inc => 1
  | .group2 => 2
  | .nonInc => 3
  | .immediate => 4
  | .oneInc => 5
  | .reserved6 => 6
  | .endSegment => 7

@[simp] theorem ofCode_code (op : SecOp) : ofCode op.code = op := by cases op <;> rfl

end SecOp

structure Header where
  op : SecOp
  subchannel : Fin 8
  method : Fin 0x2000
  /-- The number of data words, or the data of an immediate packet. -/
  count : Fin 0x2000
  deriving DecidableEq, Repr

namespace Header

def ofWord (w : Word) : Header where
  op := .ofCode (w.field 29 3)
  subchannel := ⟨w.field 13 3, w.field_lt 13 3⟩
  method := ⟨w.field 0 13, w.field_lt 0 13⟩
  count := ⟨w.field 16 13, w.field_lt 16 13⟩

def toWord (h : Header) : Word :=
  .pack [(0, h.method.val), (13, h.subchannel.val), (16, h.count.val), (29, h.op.code)]

end Header

end Maxwell
