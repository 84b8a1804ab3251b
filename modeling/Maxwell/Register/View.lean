import Maxwell.Register.Encoding

/-! Pipeline state read from the words of one register block. -/

namespace Maxwell

/-- The bits of a binary32 number. -/
abbrev FloatBits := Word

/-- A 64-bit GPU address from its two halves. -/
def packAddress (high low : Word) : UInt64 := high.toUInt64 <<< 32 ||| low.toUInt64

def renderTargetCount : Nat := 8

def viewportCount : Nat := 16

def vertexAttributeCount : Nat := 32

structure RenderTarget where
  address : UInt64
  width : Word
  height : Word
  format : Word
  tileMode : Word
  arrayDepth : Nat
  volume : Bool
  /-- The distance between layers in bytes. The register holds a quarter of it. -/
  layerStride : UInt64
  baseLayer : Word
  deriving DecidableEq, Repr

def RenderTarget.ofWords (w : Vector Word 16) : RenderTarget where
  address := packAddress w[0] w[1]
  width := w[2]
  height := w[3]
  format := w[4]
  tileMode := w[5]
  arrayDepth := w[6].field 0 16
  volume := w[6].bit 16
  layerStride := w[7].toUInt64 <<< 2
  baseLayer := w[8]

/-- The component a viewport takes for one of its own. -/
inductive ViewportSwizzle where
  | positiveX
  | negativeX
  | positiveY
  | negativeY
  | positiveZ
  | negativeZ
  | positiveW
  | negativeW
  deriving DecidableEq, Repr

namespace ViewportSwizzle

/-- Only the three low bits count. -/
def ofCode (code : Nat) : ViewportSwizzle :=
  match code % 8 with
  | 0 => .positiveX
  | 1 => .negativeX
  | 2 => .positiveY
  | 3 => .negativeY
  | 4 => .positiveZ
  | 5 => .negativeZ
  | 6 => .positiveW
  | _ => .negativeW

def code : ViewportSwizzle → Nat
  | .positiveX => 0
  | .negativeX => 1
  | .positiveY => 2
  | .negativeY => 3
  | .positiveZ => 4
  | .negativeZ => 5
  | .positiveW => 6
  | .negativeW => 7

/-- The word that takes every component for itself. -/
def identity : Word :=
  .pack [(0, positiveX.code), (4, positiveY.code), (8, positiveZ.code), (12, positiveW.code)]

end ViewportSwizzle

structure ViewportTransform where
  scale : Vector FloatBits 3
  translate : Vector FloatBits 3
  swizzle : Vector ViewportSwizzle 4
  subpixelPrecisionBias : Word
  deriving DecidableEq, Repr

def ViewportTransform.ofWords (w : Vector Word 8) : ViewportTransform where
  scale := #v[w[0], w[1], w[2]]
  translate := #v[w[3], w[4], w[5]]
  swizzle := #v[.ofCode (w[6].field 0 3), .ofCode (w[6].field 4 3), .ofCode (w[6].field 8 3), .ofCode (w[6].field 12 3)]
  subpixelPrecisionBias := w[7]

structure Viewport where
  x : Nat
  width : Nat
  y : Nat
  height : Nat
  near : FloatBits
  far : FloatBits
  deriving DecidableEq, Repr

def Viewport.ofWords (w : Vector Word 4) : Viewport where
  x := w[0].field 0 16
  width := w[0].field 16 16
  y := w[1].field 0 16
  height := w[1].field 16 16
  near := w[2]
  far := w[3]

structure Scissor where
  enabled : Bool
  minX : Nat
  maxX : Nat
  minY : Nat
  maxY : Nat
  deriving DecidableEq, Repr

def Scissor.ofWords (w : Vector Word 4) : Scissor where
  enabled := w[0] != 0
  minX := w[1].field 0 16
  maxX := w[1].field 16 16
  minY := w[2].field 0 16
  maxY := w[2].field 16 16

/-- How one render target blends. -/
structure Blend where
  separateAlpha : Bool
  colorOp : BlendOp
  colorSrc : BlendFactor
  colorDst : BlendFactor
  alphaOp : BlendOp
  alphaSrc : BlendFactor
  alphaDst : BlendFactor
  deriving DecidableEq, Repr

/-- The blend of one render target, from its own block. -/
def Blend.ofWords (w : Vector Word 8) : Blend where
  separateAlpha := w[0] != 0
  colorOp := .ofWord w[1]
  colorSrc := .ofWord w[2]
  colorDst := .ofWord w[3]
  alphaOp := .ofWord w[4]
  alphaSrc := .ofWord w[5]
  alphaDst := .ofWord w[6]

/-- The blend all render targets share, and which of them blend. -/
structure BlendState where
  blend : Blend
  enableCommon : Bool
  enable : Vector Bool 8
  deriving DecidableEq, Repr

/-- A colour key stands between the last two alpha words. -/
def BlendState.ofWords (w : Vector Word 17) : BlendState where
  blend := .ofWords #v[w[0], w[1], w[2], w[3], w[4], w[5], w[7], 0]
  enableCommon := w[8] != 0
  enable := Vector.ofFn fun i : Fin 8 => w[9 + i.val] != 0

/-- The stencil test of one face. -/
structure StencilFace where
  failOp : StencilOp
  zfailOp : StencilOp
  zpassOp : StencilOp
  compareOp : ComparisonOp
  reference : Word
  compareMask : Word
  writeMask : Word
  deriving DecidableEq, Repr

/-- The channels a render target writes. -/
structure ColorWriteMask where
  red : Bool
  green : Bool
  blue : Bool
  alpha : Bool
  deriving DecidableEq, Repr

def ColorWriteMask.ofWord (w : Word) : ColorWriteMask := ⟨w.bit 0, w.bit 4, w.bit 8, w.bit 12⟩

/-- Where a vertex attribute comes from and how it is laid out. -/
structure VertexAttribute where
  buffer : Nat
  /-- Whether the attribute is one constant for all vertices. -/
  fixed : Bool
  offset : Nat
  size : Nat
  type : Nat
  bgra : Bool
  deriving DecidableEq, Repr

def VertexAttribute.ofWord (w : Word) : VertexAttribute where
  buffer := w.field 0 5
  fixed := w.bit 6
  offset := w.field 7 14
  size := w.field 21 6
  type := w.field 27 3
  bgra := w.bit 31

/-- How many render targets are used, and which target each output goes to. -/
structure RenderTargetControl where
  count : Nat
  map : Vector Nat 8
  deriving DecidableEq, Repr

def RenderTargetControl.ofWord (w : Word) : RenderTargetControl where
  count := w.field 0 4
  map := Vector.ofFn fun i : Fin 8 => w.field (4 + 3 * i) 3

end Maxwell
