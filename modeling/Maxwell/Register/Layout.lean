import Maxwell.Register.View
import Maxwell.Text.Numeral

/-! The layout of the registers: which runs of words are named, and the name of every word.

    Fields are sorted and do not overlap, so a word lies in at most one element of one field. A change of a
    word is reported for the whole element it lies in. -/

namespace Maxwell
open Numeral

/-- The number of registers. Methods from here on call macros. -/
abbrev registerCount : Nat := 0xE00

/-- A range of registers, without its end. -/
structure Span where
  start : Nat
  stop : Nat
  deriving DecidableEq, Repr

/-- A named run of registers: `count` elements of `stride` words each. -/
structure Field where
  name : String
  start : Nat
  stride : Nat := 1
  count : Nat := 1
  deriving DecidableEq, Repr

namespace Field

/-- The number of words of the field. -/
def words (f : Field) : Nat := f.stride * f.count

/-- The register after the last one of the field. -/
def stop (f : Field) : Nat := f.start + f.words

/-- The first register of an element. -/
def element (f : Field) (index : Nat) : Nat := f.start + f.stride * index

/-- The registers of an element. -/
def elementSpan (f : Field) (index : Nat) : Span := ⟨f.element index, f.element index + f.stride⟩

def contains (f : Field) (offset : Nat) : Bool := f.start ≤ offset && offset < f.stop

/-! ### The named fields -/

def noOperation : Field := { name := "noOperation", start := 0x40 }
def waitForIdle : Field := { name := "waitForIdle", start := 0x44 }
def mmeInstructionRamPointer : Field := { name := "mme.instructionRamPointer", start := 0x45 }
def mmeInstructionRamLoad : Field := { name := "mme.instructionRamLoad", start := 0x46 }
def mmeStartAddressRamPointer : Field := { name := "mme.startAddressRamPointer", start := 0x47 }
def mmeStartAddressRamLoad : Field := { name := "mme.startAddressRamLoad", start := 0x48 }
def mmeShadowRamControl : Field := { name := "mme.shadowRamControl", start := 0x49 }
def syncpointAction : Field := { name := "syncpointAction", start := 0xB2 }
def rasterizerEnable : Field := { name := "rasterizerEnable", start := 0xDF }
def renderTargets : Field := { name := "renderTargets", start := 0x200, stride := 16, count := renderTargetCount }
def viewportTransforms : Field := { name := "viewportTransforms", start := 0x280, stride := 8, count := viewportCount }
def viewports : Field := { name := "viewports", start := 0x300, stride := 4, count := viewportCount }
def depthMode : Field := { name := "depthMode", start := 0x35F }
def clearColorValue : Field := { name := "clearColorValue", start := 0x360, count := 4 }
def clearDepthValue : Field := { name := "clearDepthValue", start := 0x364 }
def clearStencilValue : Field := { name := "clearStencilValue", start := 0x368 }
def polygonMode : Field := { name := "polygonMode", start := 0x36B, count := 2 }
def scissors : Field := { name := "scissors", start := 0x380, stride := 4, count := viewportCount }
def stencilBackExtra : Field := { name := "stencilBackExtra", start := 0x3D5, stride := 3 }
def tiledCacheEnable : Field := { name := "tiledCacheEnable", start := 0x3D8 }
def tiledCacheSize : Field := { name := "tiledCacheSize", start := 0x3D9 }
def rtSeparateFragData : Field := { name := "rtSeparateFragData", start := 0x3EB }
def vertexAttributeState : Field := { name := "vertexAttributeState", start := 0x458, count := vertexAttributeCount }
def renderTargetControl : Field := { name := "renderTargetControl", start := 0x487 }
def depthTestEnable : Field := { name := "depthTestEnable", start := 0x4B3 }
def depthWriteEnable : Field := { name := "depthWriteEnable", start := 0x4BA }
def depthTestFunc : Field := { name := "depthTestFunc", start := 0x4C3 }
def alphaTestRef : Field := { name := "alphaTestRef", start := 0x4C4 }
def alphaTestFunc : Field := { name := "alphaTestFunc", start := 0x4C5 }
def drawTFBStride : Field := { name := "drawTFBStride", start := 0x4C6 }
def blendConstant : Field := { name := "blendConstant", start := 0x4C7, count := 4 }
def blendState : Field := { name := "blendState", start := 0x4CF, stride := 17 }
def stencilEnable : Field := { name := "stencilEnable", start := 0x4E0 }
def stencilFront : Field := { name := "stencilFront", start := 0x4E1, stride := 7 }
def lineWidthSmooth : Field := { name := "lineWidthSmooth", start := 0x4EC }
def lineWidthAliased : Field := { name := "lineWidthAliased", start := 0x4ED }
def drawBaseVertex : Field := { name := "drawBaseVertex", start := 0x50D }
def drawBaseInstance : Field := { name := "drawBaseInstance", start := 0x50E }
def clipDistanceEnable : Field := { name := "clipDistanceEnable", start := 0x544 }
def sampleCounterEnable : Field := { name := "sampleCounterEnable", start := 0x545 }
def pointSpriteSize : Field := { name := "pointSpriteSize", start := 0x546 }
def zCullStatCountersEnable : Field := { name := "zCullStatCountersEnable", start := 0x547 }
def pointSpriteEnable : Field := { name := "pointSpriteEnable", start := 0x548 }
def shaderExceptions : Field := { name := "shaderExceptions", start := 0x54A }
def multisampleEnable : Field := { name := "multisampleEnable", start := 0x54D }
def depthTargetEnable : Field := { name := "depthTargetEnable", start := 0x54E }
def multisampleControl : Field := { name := "multisampleControl", start := 0x54F }
def samplerPool : Field := { name := "samplerPool", start := 0x557, stride := 3 }
def polygonOffsetFactor : Field := { name := "polygonOffsetFactor", start := 0x55B }
def lineSmoothEnable : Field := { name := "lineSmoothEnable", start := 0x55C }
def texturePool : Field := { name := "texturePool", start := 0x55D, stride := 3 }
def stencilTwoSideEnable : Field := { name := "stencilTwoSideEnable", start := 0x565 }
def stencilBack : Field := { name := "stencilBack", start := 0x566, stride := 4 }
def pointCoordReplace : Field := { name := "pointCoordReplace", start := 0x581 }
def cullFaceEnable : Field := { name := "cullFaceEnable", start := 0x646 }
def frontFace : Field := { name := "frontFace", start := 0x647 }
def cullFace : Field := { name := "cullFace", start := 0x648 }
def pixelCentreImage : Field := { name := "pixelCentreImage", start := 0x649 }
def viewportTransformEnable : Field := { name := "viewportTransformEnable", start := 0x64B }
def clearBuffers : Field := { name := "clearBuffers", start := 0x674 }
def colorMask : Field := { name := "colorMask", start := 0x680, count := renderTargetCount }
def semaphore : Field := { name := "semaphore", start := 0x6C0, stride := 4 }
def independentBlend : Field := { name := "independentBlend", start := 0x780, stride := 8, count := renderTargetCount }
def firmwareCall : Field := { name := "firmwareCall", start := 0x8C0, count := 32 }
def firmwareCallResult : Field := { name := "firmwareCallResult", start := 0xD00 }

end Field

open Maxwell.Field in
/-- The named fields, by their first register. -/
def layout : List Field :=
  [noOperation, waitForIdle, mmeInstructionRamPointer, mmeInstructionRamLoad, mmeStartAddressRamPointer,
   mmeStartAddressRamLoad, mmeShadowRamControl, syncpointAction, rasterizerEnable, renderTargets,
   viewportTransforms, viewports, depthMode, clearColorValue, clearDepthValue, clearStencilValue, polygonMode,
   scissors, stencilBackExtra, tiledCacheEnable, tiledCacheSize, rtSeparateFragData, vertexAttributeState,
   renderTargetControl, depthTestEnable, depthWriteEnable, depthTestFunc, alphaTestRef, alphaTestFunc,
   drawTFBStride, blendConstant, blendState, stencilEnable, stencilFront, lineWidthSmooth, lineWidthAliased,
   drawBaseVertex, drawBaseInstance, clipDistanceEnable, sampleCounterEnable, pointSpriteSize,
   zCullStatCountersEnable, pointSpriteEnable, shaderExceptions, multisampleEnable, depthTargetEnable,
   multisampleControl, samplerPool, polygonOffsetFactor, lineSmoothEnable, texturePool, stencilTwoSideEnable,
   stencilBack, pointCoordReplace, cullFaceEnable, frontFace, cullFace, pixelCentreImage, viewportTransformEnable,
   clearBuffers, colorMask, semaphore, independentBlend, firmwareCall, firmwareCallResult]

/-- The field that holds a register, and the index of its element: of the fields that start at the register
    or before it only the last can hold it. -/
def lookup (offset : Nat) : Option (Field × Nat) :=
  match (layout.takeWhile fun f => f.start ≤ offset).getLast? with
  | none => none
  | some f => if f.contains offset then some (f, (offset - f.start) / f.stride) else none

/-- The registers a change at `offset` is reported for: the element that holds it, or it alone. -/
def notifySpan (offset : Nat) : Span :=
  match lookup offset with
  | some (f, index) => f.elementSpan index
  | none => ⟨offset, offset + 1⟩

/-- The name of a register. An element of an array has an index, a word of a block a distance from its
    start, and a register outside every field its number. -/
def describe (offset : Nat) : String :=
  match lookup offset with
  | none => "reg_0x" ++ hex offset 3
  | some (f, index) =>
    f.name ++ (if f.count > 1 then "[" ++ decimal index ++ "]" else "") ++
      (if f.stride > 1 then "+" ++ decimal (offset - f.element index) else "")

end Maxwell
