import Maxwell.Word

/-! How register words encode pipeline state. Most enumerations have two encodings, and a word that is in
    neither reads as a fixed member of the enumeration; the word itself stays as it was written. -/

namespace Maxwell

/-- A comparison of depth, stencil or alpha. -/
inductive ComparisonOp where
  | never
  | less
  | equal
  | lessEqual
  | greater
  | notEqual
  | greaterEqual
  | always
  deriving DecidableEq, Repr

namespace ComparisonOp

def ofWord (w : Word) : ComparisonOp :=
  match w.toNat with
  | 1 | 0x200 => .never
  | 2 | 0x201 => .less
  | 3 | 0x202 => .equal
  | 4 | 0x203 => .lessEqual
  | 5 | 0x204 => .greater
  | 6 | 0x205 => .notEqual
  | 7 | 0x206 => .greaterEqual
  | _ => .always

/-- The first of the two encodings. -/
def toWord : ComparisonOp → Word
  | .never => 1
  | .less => 2
  | .equal => 3
  | .lessEqual => 4
  | .greater => 5
  | .notEqual => 6
  | .greaterEqual => 7
  | .always => 8

@[simp] theorem ofWord_toWord (op : ComparisonOp) : ofWord op.toWord = op := by cases op <;> rfl

end ComparisonOp

/-- How the two sides of a blend are joined. -/
inductive BlendOp where
  | add
  | subtract
  | reverseSubtract
  | min
  | max
  deriving DecidableEq, Repr

namespace BlendOp

def ofWord (w : Word) : BlendOp :=
  match w.toNat with
  | 2 | 0x800A => .subtract
  | 3 | 0x800B => .reverseSubtract
  | 4 | 0x8007 => .min
  | 5 | 0x8008 => .max
  | _ => .add

/-- The first of the two encodings. -/
def toWord : BlendOp → Word
  | .add => 1
  | .subtract => 2
  | .reverseSubtract => 3
  | .min => 4
  | .max => 5

@[simp] theorem ofWord_toWord (op : BlendOp) : ofWord op.toWord = op := by cases op <;> rfl

end BlendOp

/-- What a side of a blend is multiplied by. -/
inductive BlendFactor where
  | zero
  | one
  | srcColor
  | oneMinusSrcColor
  | srcAlpha
  | oneMinusSrcAlpha
  | dstAlpha
  | oneMinusDstAlpha
  | dstColor
  | oneMinusDstColor
  | srcAlphaSaturate
  | src1Color
  | oneMinusSrc1Color
  | src1Alpha
  | oneMinusSrc1Alpha
  | constantColor
  | oneMinusConstantColor
  | constantAlpha
  | oneMinusConstantAlpha
  deriving DecidableEq, Repr

def BlendFactor.ofWord (w : Word) : BlendFactor :=
  match w.toNat with
  | 0x01 | 0x4000 => .zero
  | 0x03 | 0x4300 => .srcColor
  | 0x04 | 0x4301 => .oneMinusSrcColor
  | 0x05 | 0x4302 => .srcAlpha
  | 0x06 | 0x4303 => .oneMinusSrcAlpha
  | 0x07 | 0x4304 => .dstAlpha
  | 0x08 | 0x4305 => .oneMinusDstAlpha
  | 0x09 | 0x4306 => .dstColor
  | 0x0A | 0x4307 => .oneMinusDstColor
  | 0x0B | 0x4308 => .srcAlphaSaturate
  | 0x0D | 0xC900 => .src1Color
  | 0x0E | 0xC901 => .oneMinusSrc1Color
  | 0x0F | 0xC902 => .src1Alpha
  | 0x10 | 0xC903 => .oneMinusSrc1Alpha
  | 0x11 | 0xC001 => .constantColor
  | 0x12 | 0xC002 => .oneMinusConstantColor
  | 0x13 | 0xC003 => .constantAlpha
  | 0x14 | 0xC004 => .oneMinusConstantAlpha
  | _ => .one

/-- What happens to a stencil value. -/
inductive StencilOp where
  | keep
  | zero
  | replace
  | incrSat
  | decrSat
  | invert
  | incr
  | decr
  deriving DecidableEq, Repr

namespace StencilOp

def ofWord (w : Word) : StencilOp :=
  match w.toNat with
  | 2 | 0x0000 => .zero
  | 3 | 0x1E01 => .replace
  | 4 | 0x1E02 => .incrSat
  | 5 | 0x1E03 => .decrSat
  | 6 | 0x150A => .invert
  | 7 | 0x8507 => .incr
  | 8 | 0x8508 => .decr
  | _ => .keep

/-- The first of the two encodings. -/
def toWord : StencilOp → Word
  | .keep => 1
  | .zero => 2
  | .replace => 3
  | .incrSat => 4
  | .decrSat => 5
  | .invert => 6
  | .incr => 7
  | .decr => 8

@[simp] theorem ofWord_toWord (op : StencilOp) : ofWord op.toWord = op := by cases op <;> rfl

end StencilOp

/-- The faces that are culled. -/
inductive CullFace where
  | front
  | back
  | frontAndBack
  deriving DecidableEq, Repr

namespace CullFace

def ofWord (w : Word) : CullFace :=
  match w.toNat with
  | 0x0404 => .front
  | 0x0408 => .frontAndBack
  | _ => .back

def toWord : CullFace → Word
  | .front => 0x0404
  | .back => 0x0405
  | .frontAndBack => 0x0408

@[simp] theorem ofWord_toWord (face : CullFace) : ofWord face.toWord = face := by cases face <;> rfl

end CullFace

/-- The winding order of a front face. -/
inductive FrontFace where
  | clockwise
  | counterclockwise
  deriving DecidableEq, Repr

namespace FrontFace

def ofWord (w : Word) : FrontFace := if w = 0x0900 then .clockwise else .counterclockwise

def toWord : FrontFace → Word
  | .clockwise => 0x0900
  | .counterclockwise => 0x0901

@[simp] theorem ofWord_toWord (face : FrontFace) : ofWord face.toWord = face := by cases face <;> rfl

end FrontFace

/-- What is drawn of a polygon. -/
inductive PolygonMode where
  | point
  | line
  | fill
  deriving DecidableEq, Repr

namespace PolygonMode

def ofWord (w : Word) : PolygonMode :=
  match w.toNat with
  | 0x1B00 => .point
  | 0x1B01 => .line
  | _ => .fill

def toWord : PolygonMode → Word
  | .point => 0x1B00
  | .line => 0x1B01
  | .fill => 0x1B02

@[simp] theorem ofWord_toWord (mode : PolygonMode) : ofWord mode.toWord = mode := by cases mode <;> rfl

end PolygonMode

/-- The range of depth values. -/
inductive DepthMode where
  | minusOneToOne
  | zeroToOne
  deriving DecidableEq, Repr

def DepthMode.ofWord (w : Word) : DepthMode := if w = 0 then .minusOneToOne else .zeroToOne

/-- Where a method write goes: to the live registers, to their shadow copy, or to both. -/
inductive ShadowMode where
  /-- Both copies get the argument. -/
  | track
  /-- Only the shadow copy gets the argument. -/
  | trackWithFilter
  /-- Only the live copy gets the argument. -/
  | passthrough
  /-- The live copy gets the word of the shadow copy in place of the argument. -/
  | replay
  deriving DecidableEq, Repr

namespace ShadowMode

def ofWord (w : Word) : ShadowMode :=
  match w.toNat with
  | 0 => .track
  | 1 => .trackWithFilter
  | 3 => .replay
  | _ => .passthrough

def toWord : ShadowMode → Word
  | .track => 0
  | .trackWithFilter => 1
  | .passthrough => 2
  | .replay => 3

@[simp] theorem ofWord_toWord (mode : ShadowMode) : ofWord mode.toWord = mode := by cases mode <;> rfl

def writesShadow : ShadowMode → Bool
  | .track | .trackWithFilter => true
  | .passthrough | .replay => false

def writesLive : ShadowMode → Bool
  | .trackWithFilter => false
  | .track | .passthrough | .replay => true

end ShadowMode

/-! ### Semaphores -/

inductive SemaphoreOp where
  | release
  | acquire
  | counter
  | trap
  deriving DecidableEq, Repr

/-- The size of a semaphore's result. -/
inductive SemaphoreSize where
  /-- Eight bytes, and a timestamp if asked for. -/
  | twoWords
  /-- Four bytes. -/
  | oneWord
  deriving DecidableEq, Repr

/-- What a counter semaphore counts. -/
inductive CounterType where
  | zero
  | inputVertices
  | inputPrimitives
  | vertexShaderInvocations
  | geometryShaderInvocations
  | geometryShaderPrimitives
  | transformFeedbackPrimitivesWritten
  | clipperInputPrimitives
  | clipperOutputPrimitives
  | primitivesGenerated
  | fragmentShaderInvocations
  | samplesPassed
  | other (code : Nat)
  deriving DecidableEq, Repr

def CounterType.ofCode : Nat → CounterType
  | 0x00 => .zero
  | 0x01 => .inputVertices
  | 0x03 => .inputPrimitives
  | 0x05 => .vertexShaderInvocations
  | 0x07 => .geometryShaderInvocations
  | 0x09 => .geometryShaderPrimitives
  | 0x0B => .transformFeedbackPrimitivesWritten
  | 0x0F => .clipperInputPrimitives
  | 0x11 => .clipperOutputPrimitives
  | 0x12 => .primitivesGenerated
  | 0x13 => .fragmentShaderInvocations
  | 0x15 => .samplesPassed
  | code => .other code

/-- The word that sets off a semaphore: the operation in bits 1:0, a timestamp in bit 21, the counter type
    in bits 27:23, one word in bit 28. -/
structure SemaphoreInfo where
  operation : SemaphoreOp
  timestamp : Bool
  counter : CounterType
  size : SemaphoreSize
  deriving DecidableEq, Repr

def SemaphoreInfo.ofWord (w : Word) : SemaphoreInfo where
  operation :=
    match w.field 0 2 with
    | 0 => .release
    | 1 => .acquire
    | 2 => .counter
    | _ => .trap
  timestamp := w.bit 21
  counter := .ofCode (w.field 23 5)
  size := if w.bit 28 then .oneWord else .twoWords

/-! ### Syncpoint actions and clears -/

/-- The word of a syncpoint action: the id in bits 11:0, an increment in bit 20. -/
structure SyncpointAction where
  id : Nat
  increment : Bool
  deriving DecidableEq, Repr

def SyncpointAction.ofWord (w : Word) : SyncpointAction := ⟨w.field 0 12, w.bit 20⟩

/-- A part of a surface that a clear can reach. -/
inductive ClearComponent where
  | depth
  | stencil
  | red
  | green
  | blue
  | alpha
  deriving DecidableEq, Repr

/-- The components, in the order of their bits. -/
def ClearComponent.all : List ClearComponent := [.depth, .stencil, .red, .green, .blue, .alpha]

def ClearComponent.index : ClearComponent → Nat
  | .depth => 0
  | .stencil => 1
  | .red => 2
  | .green => 3
  | .blue => 4
  | .alpha => 5

/-- The word of a clear: components in bits 5:0, the render target in bits 9:6, the layer in bits 20:10. -/
structure ClearRequest where
  components : List ClearComponent
  renderTarget : Nat
  layer : Nat
  deriving DecidableEq, Repr

namespace ClearRequest

def ofWord (w : Word) : ClearRequest where
  components := ClearComponent.all.filter fun c => w.bit c.index
  renderTarget := w.field 6 4
  layer := w.field 10 11

/-- The components as bits of a number. -/
def bits (clear : ClearRequest) : Nat := clear.components.foldr (fun c n => 1 <<< c.index + n) 0

end ClearRequest

end Maxwell
