import ModelExport.Rules.Filling

/-!
# Rules/PriorBoxes — boxes that depend on shapes alone

The boxes of a feature map are laid out cell by cell; a box is a centre with half extents, given in
fractions of the image.  Each cell has a number of slots that is known beforehand, and its boxes are
written into them one after another (`GridCell.put`).
-/

namespace ModelExport.Rules

open Emit

/-- Says that a fixed shape is needed, and stops the program. -/
def requireFixed (title : String) : Emit α := do
  notify (.report .error ("[" ++ title ++ "]Fixed shape is required, refer this doc for more " ++
    "information: https://github.com/PaddlePaddle/Paddle2ONNX/blob/develop/docs/zh/FAQ.md") true)
  throw (.halt (-1))

def squareRoot (x : Float) : Except Slip Float :=
  if x < 0.0 then .error .badValue else .ok x.sqrt

def quotient (x y : Float) : Except Slip Float :=
  if y == 0.0 then .error .zeroDivision else .ok (x / y)

def doubles (v : Value) : Except Slip (List Float) := do (← v.members).mapM Value.toFloat

/-- A number as a double, texts excluded. -/
def double (v : Value) : Except Slip Float := do (← v.number).toFloat

structure Grid where
  imageHeight : Int
  imageWidth : Int
  height : Int
  width : Int

def gridOf (op : OpNode) : Except Slip Grid := do
  let feature ← op.inputShape "Input" 0
  let image ← op.inputShape "Image" 0
  let imageWidth ← memberAt image 3
  let imageHeight ← memberAt image 2
  let width ← memberAt feature 3
  let height ← memberAt feature 2
  .ok { imageHeight, imageWidth, height, width }

/-- The distance between cells: as given, or image by feature map when either step is zero. -/
def Grid.steps (g : Grid) (stepWidth stepHeight : Value) : Except Slip (Value × Value) := do
  if stepWidth.same (.float 0.0) || stepHeight.same (.float 0.0) then
    .ok (← Value.div (.int g.imageWidth) (.int g.width),
      ← Value.div (.int g.imageHeight) (.int g.height))
  else .ok (stepWidth, stepHeight)

/-- A box: its ends in fractions of the image. -/
structure Box where
  left : Float
  top : Float
  right : Float
  bottom : Float

/-- What a slot holds before a box is written into it. -/
def Box.blank : Box := ⟨0.0, 0.0, 0.0, 0.0⟩

def Box.numbers (b : Box) : List Float := [b.left, b.top, b.right, b.bottom]

def Grid.box (g : Grid) (x y halfWidth halfHeight : Float) : Box :=
  let w := Float.ofInt g.imageWidth
  let h := Float.ofInt g.imageHeight
  ⟨(x - halfWidth) / w, (y - halfHeight) / h, (x + halfWidth) / w, (y + halfHeight) / h⟩

/-- **A cell of the grid**: its slots, and the place of the one that is written next. -/
structure GridCell (priors : Nat) where
  slots : Vector Box priors := .replicate priors .blank
  next : Nat := 0

def GridCell.put (c : GridCell priors) (b : Box) : Except Slip (GridCell priors) :=
  if h : c.next < priors then .ok { slots := c.slots.set c.next b h, next := c.next + 1 }
  else .error .outOfRange

def GridCell.fill (priors : Nat) (boxes : List Box) : Except Slip (GridCell priors) := boxes.foldlM GridCell.put {}

def GridCell.numbers (c : GridCell priors) : List Float := c.slots.toList.flatMap Box.numbers

/-- The numbers below a bound; none when it is not positive. -/
def upTo (n : Int) : List Int := (List.range n.toNat).map Int.ofNat

/-- **The cells of a grid, row by row.** -/
def Grid.cells (g : Grid) (priors : Nat) (boxes : Int → Int → Except Slip (List Box)) :
    Except Slip (List (List (GridCell priors))) :=
  (upTo g.height).mapM fun h => (upTo g.width).mapM fun w => do GridCell.fill priors (← boxes h w)

/-- A number brought between zero and one. -/
def toUnit (x : Float) : Float :=
  if x.isNaN then x
  else
    let x := if x > 0.0 then x else 0.0
    if x < 1.0 then x else 1.0

/-- The numbers of all boxes as singles, between zero and one when they are clipped. -/
def cellNumbers (clip : Bool) (cells : List (List (GridCell priors))) : List Float :=
  let numbers := (cells.flatten.flatMap GridCell.numbers).map Binary.roundSingle
  if clip then numbers.map toUnit else numbers

def Grid.dims (g : Grid) (priors : Int) (last : Nat) : Value :=
  .tuple ([g.height, g.width, priors, last].map .int)

/-- Two constants: boxes, and their variances repeated for each box. -/
def emitBoxes (op : OpNode) (boxes variances : Value × List Value) : Emit Unit := do
  discard <| nodeTo "Constant" (.list []) (← op.output "Boxes")
    [("dtype", .int ElementType.FLOAT), ("dims", boxes.1), ("value", .list boxes.2)]
  discard <| nodeTo "Constant" (.list []) (← op.output "Variances")
    [("dtype", .int ElementType.FLOAT), ("dims", variances.1), ("value", .list variances.2)]

/-! ## Boxes of several sizes and ratios -/

def ratioDistance (a b : Value) : Except Slip Value := do
  match ← a.sub b with
  | .int i => .ok (.int i.natAbs)
  | .float x => .ok (.float x.abs)
  | v => .ok v

def nearRatio (r : Value) : List Value → Except Slip Bool
  | [] => .ok false
  | s :: rest => do
    if ← (← ratioDistance r s).lt (.float 1e-6) then .ok true else nearRatio r rest

/-- **The ratios in use**: one, and each given ratio that is not close to an earlier one, followed by
its inverse when boxes are flipped. -/
def expandRatios (flip : Bool) : List Value → List Value → Except Slip (List Value)
  | known, [] => .ok known
  | known, r :: rest => do
    if ← nearRatio r known then expandRatios flip known rest
    else if flip then
      let inverse ← Value.div (.float 1.0) r
      expandRatios flip (known ++ [r, inverse]) rest
    else expandRatios flip (known ++ [r]) rest

def ratioExtents (size ratio : Float) : Except Slip (Float × Float) := do
  let root ← squareRoot ratio
  .ok (size * root / 2.0, (← quotient size root) / 2.0)

def betweenExtents (least greatest : Float) : Except Slip (Float × Float) := do
  let half := (← squareRoot (least * greatest)) / 2.0
  .ok (half, half)

/-- The half extents that a size brings together with the size it is paired with. -/
def pairExtents (least : Float) : Option (Except Slip Float) → Except Slip (List (Float × Float))
  | none => .ok []
  | some greatest => do .ok [← betweenExtents least (← greatest)]

/-- The half extents that a size brings; `greatest` is the size it is paired with. -/
def sizeExtents (ordered : Bool) (ratios : List Float) (least : Float)
    (greatest : Option (Except Slip Float)) : Except Slip (List (Float × Float)) := do
  if ordered then
    let square := (least / 2.0, least / 2.0)
    let paired ← pairExtents least greatest
    let rest ← (ratios.filter fun r => !((r - 1.0).abs < 1e-6)).mapM (ratioExtents least)
    .ok (square :: paired ++ rest)
  else
    let all ← ratios.mapM (ratioExtents least)
    .ok (all ++ (← pairExtents least greatest))

def cellExtents (ordered : Bool) (ratios greatest : List Float) :
    Nat → List Float → Except Slip (List (Float × Float))
  | _, [] => .ok []
  | i, s :: rest => do
    let pair := if greatest.isEmpty then none else some (memberAt greatest i)
    let here ← sizeExtents ordered ratios s pair
    .ok (here ++ (← cellExtents ordered ratios greatest (i + 1) rest))

/-- The ratios an operator names: a list, or a single one. -/
def givenRatios (v : Value) : Except Slip (List Float) :=
  match v with
  | .list xs => xs.mapM Value.toFloat
  | v => do .ok [← v.toFloat]

structure PriorParameters where
  grid : Grid
  ordered : Bool
  ratios : List Float
  least : List Float
  greatest : List Float
  variances : List Float
  stepWidth : Float
  stepHeight : Float
  offset : Float

namespace PriorParameters

def priors (p : PriorParameters) : Nat := p.ratios.length * p.least.length + p.greatest.length

def boxes (p : PriorParameters) (h w : Int) : Except Slip (List Box) := do
  let x := (Float.ofInt w + p.offset) * p.stepWidth
  let y := (Float.ofInt h + p.offset) * p.stepHeight
  let extents ← cellExtents p.ordered p.ratios p.greatest 0 p.least
  .ok (extents.map fun e => p.grid.box x y e.1 e.2)

end PriorParameters

def priorParameters (op : OpNode) : Emit PriorParameters := do
  let flip := (op.attr "flip").truthy
  let ordered := (op.attr "min_max_aspect_ratios_order").truthy
  let least ← doubles (op.attr "min_sizes")
  let greatest ← doubles (op.attr "max_sizes")
  let given ← givenRatios (op.attr "aspect_ratios")
  let variances ← doubles (op.attr "variances")
  let ratios ← doubles (.list (← expandRatios flip [.float 1.0] (given.map .float)))
  let stepWidth ← (op.attr "step_w").toFloat
  let stepHeight ← (op.attr "step_h").toFloat
  let offset ← (op.attr "offset").toFloat
  let grid ← gridOf op
  unless grid.imageWidth > 0 && grid.imageHeight > 0 do requireFixed "PriorBox"
  let (stepWidth, stepHeight) ← grid.steps (.float stepWidth) (.float stepHeight)
  let stepWidth ← double stepWidth
  let stepHeight ← double stepHeight
  return { grid, ordered, ratios, least, greatest, variances, stepWidth, stepHeight, offset }

def priorBox : Rule := fun op => do
  let p ← priorParameters op
  let g := p.grid
  if g.height < 0 || g.width < 0 then slip .badValue
  let cells ← g.cells p.priors p.boxes
  let boxes := cellNumbers (op.attr "clip").truthy cells
  let count := g.height.toNat * g.width.toNat * p.priors
  emitBoxes op (g.dims p.priors 4, boxes.map .float)
    (g.dims p.priors p.variances.length, (List.replicate count p.variances).flatten.map .float)

/-! ## Dense boxes -/

def aboveZero (x : Float) : Float := if 0.0 > x then 0.0 else x

def belowOne (x : Float) : Float := if 1.0 < x then 1.0 else x

/-- The boxes around a centre for one density, size and ratio: a square of shifted centres. -/
def denseBoxes (g : Grid) (x y : Float) (average : Int) (density : Int) (size ratio : Value) :
    Except Slip (List Box) := do
  let shift ← (← Value.div (.int average) (.int density)).toInt
  let root ← squareRoot (← double ratio)
  let size ← double size
  let width := size * root
  let height ← quotient size root
  let shifted (c : Float) (k : Int) : Float :=
    c - Float.ofInt average / 2.0 + Float.ofInt shift / 2.0 + Float.ofInt (k * shift)
  let w := Float.ofInt g.imageWidth
  let h := Float.ofInt g.imageHeight
  .ok ((upTo density).flatMap fun i => (upTo density).map fun j =>
    let cx := shifted x j
    let cy := shifted y i
    ⟨aboveZero ((cx - width / 2.0) / w), aboveZero ((cy - height / 2.0) / h),
      belowOne ((cx + width / 2.0) / w), belowOne ((cy + height / 2.0) / h)⟩)

/-- A count with the boxes of one more density: its square, as often as there are ratios. -/
def addDensity (ratios total density : Value) : Except Slip Value := do
  let count ← ratios.length
  if count == 0 then .ok total else total.add (← Value.mul (.int count) (← density.square))

def densePriors (sizes densities ratios : Value) : Except Slip Value := do
  if (← sizes.length) == 0 then return .int 0
  if (← densities.length) == 0 then return .int 0
  (← densities.members).foldlM (addDensity ratios) (.int 0)

/-- The boxes of one density with its size, ratio after ratio. -/
def densityBoxes (g : Grid) (x y : Float) (average : Int) (ratios density size : Value) :
    Except Slip (List (List Box)) := do
  if (← ratios.length) == 0 then return []
  (← ratios.members).mapM fun r => do denseBoxes g x y average (← density.exact) size r

def denseCell (g : Grid) (x y : Float) (average : Int) (densities sizes ratios : Value) :
    Except Slip (List Box) := do
  let pairs := (← densities.members).zip (← sizes.members)
  let parts ← pairs.mapM fun p => densityBoxes g x y average ratios p.1 p.2
  .ok parts.flatten.flatten

def rowsOfFour (elements : List Value) : Except Slip Value :=
  if elements.length % 4 == 0 then .ok (.tuple [.int (elements.length / 4 : Nat), .int 4])
  else .error .badValue

structure DensityParameters where
  grid : Grid
  densities : Value
  sizes : Value
  ratios : Value
  offset : Value
  stepWidth : Value
  stepHeight : Value
  average : Int
  priors : Int

def DensityParameters.boxes (p : DensityParameters) (h w : Int) : Except Slip (List Box) := do
  let x ← double (← (← Value.add (.int w) p.offset).mul p.stepWidth)
  let y ← double (← (← Value.add (.int h) p.offset).mul p.stepHeight)
  denseCell p.grid x y p.average p.densities p.sizes p.ratios

def densityParameters (op : OpNode) : Emit DensityParameters := do
  let densities := op.attr "densities"
  let ratios := op.attr "fixed_ratios"
  let sizes := op.attr "fixed_sizes"
  let grid ← gridOf op
  unless grid.imageWidth > 0 && grid.imageHeight > 0 do requireFixed "DensityPriorBox"
  let (stepWidth, stepHeight) ← grid.steps (op.attr "step_w") (op.attr "step_h")
  let priors ← (← densePriors sizes densities ratios).exact
  if grid.height < 0 || grid.width < 0 then slip .badValue
  let average ← (← (← stepWidth.add stepHeight).mul (.float 0.5)).toInt
  return { grid, densities, sizes, ratios, offset := op.attr "offset", stepWidth, stepHeight, average, priors }

def densityPriorBox : Rule := fun op => do
  let p ← densityParameters op
  let g := p.grid
  let cells ← g.cells p.priors.toNat p.boxes
  let boxes : List Value := (cellNumbers (op.attr "clip").truthy cells).map .float
  let count := g.height.toNat * g.width.toNat * p.priors.toNat
  let variances ← arrayElements (op.attr "variances")
  let repeated := (List.replicate count variances).flatten
  if (op.attr "flatten_to_2d").truthy then
    emitBoxes op (← rowsOfFour boxes, boxes) (← rowsOfFour repeated, repeated)
  else
    emitBoxes op (g.dims p.priors 4, boxes) (g.dims p.priors variances.length, repeated)

end ModelExport.Rules
