import Maxwell.Register.Layout

/-! The register file: one copy of the registers, its reset values, and the pipeline state it holds. -/

namespace Maxwell
open Maxwell.Field

/-- One copy of the registers. -/
structure RegisterFile where
  words : Vector Word registerCount
  deriving DecidableEq

namespace RegisterFile

/-- The file whose registers are all zero. -/
def zero : RegisterFile := ⟨Vector.replicate registerCount 0⟩

/-- The word of a register, zero past the last one. -/
def read (file : RegisterFile) (offset : Nat) : Word :=
  if h : offset < registerCount then file.words[offset] else 0

/-- The file with a word written. There is nothing to write past the last register. -/
def write (file : RegisterFile) (offset : Nat) (value : Word) : RegisterFile :=
  if h : offset < registerCount then ⟨file.words.set offset value⟩ else file

/-- The words of a range, if it lies in the file. -/
def block? (file : RegisterFile) (start size : Nat) : Option (Vector Word size) :=
  if h : start + size ≤ registerCount then some (Vector.ofFn fun i => file.words[start + i.val]) else none

/-- The words of an element of a field, if it lies in the file. -/
def element? (file : RegisterFile) (f : Field) (index : Nat) : Option (Vector Word f.stride) :=
  file.block? (f.element index) f.stride

theorem read_write (file : RegisterFile) (offset other : Nat) (value : Word) :
    (file.write offset value).read other =
      if offset = other ∧ other < registerCount then value else file.read other := by
  by_cases hother : other < registerCount
  · by_cases hoffset : offset < registerCount
    · simp [read, write, hother, hoffset, Vector.getElem_set]
    · have hne : offset ≠ other := by omega
      simp [write, hoffset, hne]
  · simp [read, hother]

/-! ### Reset -/

/-- The word of 1.0. -/
def one : FloatBits := 0x3F800000

/-- The reset values that are not zero. -/
def resetValues : List (Nat × Word) :=
  [(rasterizerEnable.start, 1)] ++
  (List.range viewportCount).flatMap (fun i =>
    [(viewportTransforms.element i + 6, ViewportSwizzle.identity), (viewports.element i + 3, one)]) ++
  [(polygonMode.element 0, PolygonMode.fill.toWord), (polygonMode.element 1, PolygonMode.fill.toWord)] ++
  (List.range 3).flatMap (fun i =>
    [(stencilFront.start + i, StencilOp.keep.toWord), (stencilBack.start + i, StencilOp.keep.toWord)]) ++
  [(stencilFront.start + 3, ComparisonOp.always.toWord), (stencilBack.start + 3, ComparisonOp.always.toWord),
    (stencilFront.start + 5, 0xFFFFFFFF), (stencilFront.start + 6, 0xFFFFFFFF),
    (stencilBackExtra.start + 1, 0xFFFFFFFF), (stencilBackExtra.start + 2, 0xFFFFFFFF),
    (stencilTwoSideEnable.start, 1)] ++
  (List.range vertexAttributeCount).map (fun i => (vertexAttributeState.element i, Word.pack [(6, 1)])) ++
  [(depthTestFunc.start, ComparisonOp.always.toWord)] ++
  -- One is 2 and zero is 1 among the blend factors.
  [(blendState.start + 1, BlendOp.add.toWord), (blendState.start + 2, 2), (blendState.start + 3, 1),
    (blendState.start + 4, BlendOp.add.toWord), (blendState.start + 5, 2), (blendState.start + 7, 1)] ++
  (List.range renderTargetCount).flatMap (fun i =>
    let start := independentBlend.element i
    [(start + 1, BlendOp.add.toWord), (start + 2, 2), (start + 3, 1), (start + 4, BlendOp.add.toWord),
      (start + 5, 2), (start + 6, 1), (colorMask.element i, 0x1111)]) ++
  [(lineWidthSmooth.start, one), (lineWidthAliased.start, one), (pointSpriteEnable.start, 1),
    (pointSpriteSize.start, one), (frontFace.start, FrontFace.counterclockwise.toWord),
    (cullFace.start, CullFace.back.toWord), (viewportTransformEnable.start, 1),
    (mmeShadowRamControl.start, ShadowMode.passthrough.toWord)]

/-- The file after a reset. -/
def reset : RegisterFile := resetValues.foldl (fun file (offset, value) => file.write offset value) zero

/-- The registers where two files differ, with the words of the first, in ascending order. -/
def changes (file other : RegisterFile) : List (Nat × Word) :=
  (List.range registerCount).filterMap fun offset =>
    if file.read offset = other.read offset then none else some (offset, file.read offset)

/-- The number of registers that are not zero. -/
def nonZero (file : RegisterFile) : Nat := (file.words.toList.filter (· != 0)).length

/-- A one-line account of a file. -/
def summary (file : RegisterFile) : String :=
  "RegisterFile \x7b non_zero: " ++ Numeral.decimal file.nonZero ++ " \x7d"

/-! ### Pipeline state

    A view of an element is there if its words lie in the file. -/

section
variable (file : RegisterFile)

def shadowMode : ShadowMode := .ofWord (file.read mmeShadowRamControl.start)

def renderTarget? (index : Nat) : Option RenderTarget := (file.element? renderTargets index).map .ofWords

def renderTargetControl : RenderTargetControl := .ofWord (file.read Field.renderTargetControl.start)

def viewportTransform? (index : Nat) : Option ViewportTransform :=
  (file.element? viewportTransforms index).map .ofWords

def viewport? (index : Nat) : Option Viewport := (file.element? viewports index).map .ofWords

def scissor? (index : Nat) : Option Scissor := (file.element? scissors index).map .ofWords

def blendState : BlendState := .ofWords (Vector.ofFn fun i => file.read (Field.blendState.start + i))

def independentBlend? (index : Nat) : Option Blend := (file.element? independentBlend index).map .ofWords

def colorMask (index : Nat) : ColorWriteMask := .ofWord (file.read (Field.colorMask.element index))

def vertexAttribute (index : Nat) : VertexAttribute := .ofWord (file.read (vertexAttributeState.element index))

def stencilFront : StencilFace :=
  let word i := file.read (Field.stencilFront.start + i)
  { failOp := .ofWord (word 0), zfailOp := .ofWord (word 1), zpassOp := .ofWord (word 2), compareOp := .ofWord (word 3),
    reference := word 4, compareMask := word 5, writeMask := word 6 }

/-- The back face keeps its reference and its masks in a block of their own, in another order. -/
def stencilBack : StencilFace :=
  let word i := file.read (Field.stencilBack.start + i)
  let extra i := file.read (stencilBackExtra.start + i)
  { failOp := .ofWord (word 0), zfailOp := .ofWord (word 1), zpassOp := .ofWord (word 2), compareOp := .ofWord (word 3),
    reference := extra 0, writeMask := extra 1, compareMask := extra 2 }

def depthTestFunc : ComparisonOp := .ofWord (file.read Field.depthTestFunc.start)

def depthMode : DepthMode := .ofWord (file.read Field.depthMode.start)

def polygonModeFront : PolygonMode := .ofWord (file.read (polygonMode.element 0))

def polygonModeBack : PolygonMode := .ofWord (file.read (polygonMode.element 1))

def frontFace : FrontFace := .ofWord (file.read Field.frontFace.start)

def cullFace : CullFace := .ofWord (file.read Field.cullFace.start)

def clearColor : List FloatBits := (List.range 4).map fun i => file.read (clearColorValue.element i)

def clearDepth : FloatBits := file.read clearDepthValue.start

def clearStencil : Word := file.read clearStencilValue.start

def lineWidthSmooth : FloatBits := file.read Field.lineWidthSmooth.start

def lineWidthAliased : FloatBits := file.read Field.lineWidthAliased.start

def pointSpriteSize : FloatBits := file.read Field.pointSpriteSize.start

def semaphoreAddress : UInt64 := packAddress (file.read semaphore.start) (file.read (semaphore.start + 1))

def semaphorePayload : Word := file.read (semaphore.start + 2)

def semaphoreInfo : SemaphoreInfo := .ofWord (file.read (semaphore.start + 3))

end

end RegisterFile

end Maxwell
