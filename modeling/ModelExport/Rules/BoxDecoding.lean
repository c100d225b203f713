import ModelExport.Rules.Building

/-!
# Rules/BoxDecoding — from network outputs to boxes

`yoloBox` decodes the cells of a detector, `boxCoder` deltas against prior boxes.  Many of the nodes
in between carry names that are made from the name of the output.
-/

namespace ModelExport.Rules

open Emit

def largestSingle : Float := 3.402823466E+38

def marked (name : Value) (mark : String) : Except Slip Value := name.add (.str mark)

/-! ## Cells of a detector -/

/-- What decoding the cells leaves to be bounded and put together. -/
structure Decoded where
  left : Value
  top : Value
  right : Value
  bottom : Value
  /-- How far the far corners are beyond the image. -/
  beyondRight : Value
  beyondBottom : Value
  scores : Value
  scoreShape : Value

/-- Scales the centre of a cell about its middle. -/
def scaleCenters (x y scale : Value) : Emit (Value × Value) := do
  if scale.isNone then return (x, y)
  let bias ← Value.mul (.float (-0.5)) (← scale.sub (.float 1.0))
  let scaleNode ← constant ElementType.FLOAT scale
  let biasNode ← constant ElementType.FLOAT bias
  let x ← node "Mul" (.list [x, scaleNode])
  let x ← node "Add" (.list [x, biasNode])
  let y ← node "Mul" (.list [y, scaleNode])
  let y ← node "Add" (.list [y, biasNode])
  return (x, y)

/-- Bounds a tensor from below by zero; from version 11 on the bounds are constants. -/
def positivePart (x : Value) : Emit Value := do
  if (← opset) ≥ 11 then
    let lower ← constant ElementType.FLOAT (.float 0.0)
    let upper ← constant ElementType.FLOAT (.float largestSingle)
    node "Clip" (.list [x, lower, upper])
  else node "Clip" (.list [x]) [("min", .float 0.0), ("max", .float largestSingle)]

def cellGrid (height width : Int) : Emit (Value × Value) := do
  let columns ← constant ElementType.FLOAT (.ints ((List.range width.toNat).map Int.ofNat))
  let rows ← constant ElementType.FLOAT (.ints ((List.range height.toNat).map Int.ofNat))
  let columnShape ← constant ElementType.INT64 (.ints [1, width])
  let rowShape ← constant ElementType.INT64 (.ints [height, 1])
  let columns ← node "Reshape" (.list [columns, columnShape])
  let rows ← node "Reshape" (.list [rows, rowShape])
  let gridX ← node "Tile" (.list [columns, rowShape])
  let gridY ← node "Tile" (.list [rows, columnShape])
  return (gridX, gridY)

/-- Centres of boxes, as parts of the image. -/
def cellCenters (height width : Int) (gridX gridY x y scale : Value) : Emit (Value × Value) := do
  let x ← node "Sigmoid" (.list [x])
  let y ← node "Sigmoid" (.list [y])
  let (x, y) ← scaleCenters x y scale
  let x ← node "Squeeze" (.list [x]) [("axes", .ints [4])]
  let y ← node "Squeeze" (.list [y]) [("axes", .ints [4])]
  let x ← node "Add" (.list [gridX, x])
  let y ← node "Add" (.list [gridY, y])
  let heightNode ← constant ElementType.FLOAT (.ints [height])
  let widthNode ← constant ElementType.FLOAT (.ints [width])
  let x ← node "Div" (.list [x, widthNode])
  let y ← node "Div" (.list [y, heightNode])
  return (x, y)

def anchoredExtents (name anchors size : Value) (count : Int) (w h : Value) :
    Emit (Value × Value) := do
  let anchorNode ← constant ElementType.FLOAT anchors
  let anchorShape ← constant ElementType.INT64 (.ints [count, 2])
  let anchorNode ← node "Reshape" (.list [anchorNode, anchorShape])
  let sizeNode ← constant ElementType.FLOAT (.list [size])
  let anchorNode ← node "Div" (.list [anchorNode, sizeNode])
  let anchorWidth ← marked name "@anchor_w"
  let anchorHeight ← marked name "@anchor_h"
  discard <| nodeTo "Split" (.list [anchorNode]) (.list [anchorWidth, anchorHeight])
    [("axis", .int 1), ("split", .ints [1, 1])]
  let spread ← constant ElementType.INT64 (.ints [1, count, 1, 1])
  let anchorWidth ← node "Reshape" (.list [anchorWidth, spread])
  let anchorHeight ← node "Reshape" (.list [anchorHeight, spread])
  let w ← node "Squeeze" (.list [w]) [("axes", .ints [4])]
  let h ← node "Squeeze" (.list [h]) [("axes", .ints [4])]
  let w ← node "Exp" (.list [w])
  let h ← node "Exp" (.list [h])
  let w ← node "Mul" (.list [w, anchorWidth])
  let h ← node "Mul" (.list [h, anchorHeight])
  return (w, h)

/-- Confidences that pass their thresholds, as they are; the others as zero.  Also gives the zero. -/
def sureConfidences (confidence thresholds : Value) (count height width : Int) :
    Emit (Value × Value) := do
  let confidence ← node "Sigmoid" (.list [confidence])
  let threshold ← constant ElementType.FLOAT thresholds
  let perCell ← constant ElementType.INT64 (.ints [1, count, height, width, 1])
  let threshold ← node "Reshape" (.list [threshold, perCell])
  let excess ← node "Sub" (.list [confidence, threshold])
  let excess ← positivePart excess
  let zeros ← constant ElementType.FLOAT (.ints [0])
  let sure ← node "Greater" (.list [excess, zeros])
  let sure ← node "Cast" (.list [sure]) [("to", .int 1)]
  let confidence ← node "Mul" (.list [confidence, sure])
  return (confidence, zeros)

/-- Boxes of the cells that hold one, and their scores. -/
def cellBoxes (confidence zeros probability : Value) (count height width : Int) (x y w h : Value) :
    Emit (Value × Value) := do
  let probability ← node "Sigmoid" (.list [probability])
  let cell ← node "Constant" (.list [])
    [("dtype", .int ElementType.INT64), ("dims", .ints [5]),
      ("value", .ints [1, count, height, width, 1])]
  let confidence ← node "Reshape" (.list [confidence, cell])
  let scores ← node "Mul" (.list [probability, confidence])
  let present ← node "Greater" (.list [confidence, zeros])
  let x ← node "Reshape" (.list [x, cell])
  let y ← node "Reshape" (.list [y, cell])
  let w ← node "Reshape" (.list [w, cell])
  let h ← node "Reshape" (.list [h, cell])
  let boxes ← node "Concat" (.list [x, y, w, h]) [("axis", .int 4)]
  let present ← node "Cast" (.list [present]) [("to", .int 1)]
  let boxes ← node "Mul" (.list [boxes, present])
  let boxShape ← constant ElementType.INT64 (.ints [1, count * height * width, 4])
  return (← node "Reshape" (.list [boxes, boxShape]), scores)

def imageCorners (name imageSize boxes scores scoreShape : Value) : Emit Decoded := do
  let x ← marked name "@_pred_box_x"
  let y ← marked name "@_pred_box_y"
  let w ← marked name "@_pred_box_w"
  let h ← marked name "@_pred_box_h"
  discard <| nodeTo "Split" (.list [boxes]) (.list [x, y, w, h]) [("axis", .int 2)]
  let two ← constant ElementType.FLOAT (.ints [2])
  let w ← node "Div" (.list [w, two])
  let h ← node "Div" (.list [h, two])
  let left ← node "Sub" (.list [x, w])
  let top ← node "Sub" (.list [y, h])
  let right ← node "Add" (.list [x, w])
  let bottom ← node "Add" (.list [y, h])
  let imageSize ← node "Squeeze" imageSize [("axes", .ints [0])]
  let imageHeight ← marked name "@img_height"
  let imageWidth ← marked name "@img_width"
  discard <| nodeTo "Split" (.list [imageSize]) (.list [imageHeight, imageWidth])
    [("axis", .int (-1)), ("split", .ints [1, 1])]
  let imageWidth ← node "Cast" (.list [imageWidth]) [("to", .int 1)]
  let imageHeight ← node "Cast" (.list [imageHeight]) [("to", .int 1)]
  let left ← node "Mul" (.list [left, imageWidth])
  let top ← node "Mul" (.list [top, imageHeight])
  let right ← node "Mul" (.list [right, imageWidth])
  let bottom ← node "Mul" (.list [bottom, imageHeight])
  let one ← constant ElementType.FLOAT (.ints [1])
  let lastRow ← node "Sub" (.list [imageHeight, one])
  let lastColumn ← node "Sub" (.list [imageWidth, one])
  let beyondRight ← node "Sub" (.list [right, lastColumn])
  let beyondBottom ← node "Sub" (.list [bottom, lastRow])
  return { left, top, right, bottom, beyondRight, beyondBottom, scores, scoreShape }

def decodeCells (op : OpNode) : Emit Decoded := do
  let name ← op.outputAt "Boxes" 0
  let shape ← op.inputShape "X" 0
  requireStatic shape
  let height ← memberAt shape 2
  let width ← memberAt shape 3
  let classes := op.attr "class_num"
  let anchors := op.attr "anchors"
  let count : Int := ((← anchors.length) / 2 : Nat)
  let size ← Value.mul (.int height) (op.attr "downsample_ratio")
  let thresholds ←
    (← (← Value.mul (.list [op.attr "conf_thresh"]) (.int count)).mul (.int height)).mul (.int width)
  let scoreShape : Value := .list [.int 1, .int (height * width * count), classes]
  let depth ← Value.add (.int 5) classes
  let cells ← constant ElementType.INT64
    (.list [.int 1, .int count, depth, .int height, .int width])
  let reshaped ← node "Reshape" (.list [← op.firstInput "X", cells])
  let moved ← node "Transpose" (.list [reshaped]) [("perm", .ints [0, 1, 3, 4, 2])]
  let (gridX, gridY) ← cellGrid height width
  let x ← marked name "@box_x"
  let y ← marked name "@box_y"
  let w ← marked name "@box_w"
  let h ← marked name "@box_h"
  let confidence ← marked name "@conf"
  let probability ← marked name "@prob"
  discard <| nodeTo "Split" (.list [moved]) (.list [x, y, w, h, confidence, probability])
    [("axis", .int (-1)),
      ("split", .list [.int 1, .int 1, .int 1, .int 1, .int 1, classes])]
  let (x, y) ← cellCenters height width gridX gridY x y (op.attr "scale_x_y")
  let (w, h) ← anchoredExtents name anchors size count w h
  let (confidence, zeros) ← sureConfidences confidence thresholds count height width
  let (boxes, scores) ← cellBoxes confidence zeros probability count height width x y w h
  imageCorners name (op.input "ImgSize") boxes scores scoreShape

/-- How a version bounds corners from below by zero: by attributes, or by shared constants. -/
def cornerBound (asConstants : Bool) : Emit (Value → Emit Value) := do
  if asConstants then
    let lower ← constant ElementType.FLOAT (.float 0.0)
    let upper ← constant ElementType.FLOAT (.float largestSingle)
    return fun x => node "Clip" (.list [x, lower, upper])
  else
    return fun x => node "Clip" (.list [x]) [("min", .float 0.0), ("max", .float largestSingle)]

/-- Decodes the cells of a detector into boxes inside the image, and scores. -/
def yoloBox (asConstants : Bool) : Rule := fun op => do
  let d ← decodeCells op
  let bounded ← cornerBound asConstants
  let left ← bounded d.left
  let top ← bounded d.top
  let overRight ← bounded d.beyondRight
  let overBottom ← bounded d.beyondBottom
  let right ← node "Sub" (.list [d.right, overRight])
  let bottom ← node "Sub" (.list [d.bottom, overBottom])
  discard <| nodeTo "Concat" (.list [left, top, right, bottom]) (← op.output "Boxes")
    [("axis", .int (-1))]
  let scoreShape ← constant ElementType.INT64 d.scoreShape
  discard <| nodeTo "Reshape" (.list [d.scores, scoreShape]) (← op.output "Scores")

/-! ## Deltas against prior boxes -/

def eachTo (type : String) (attrs : Attrs) : List (List Value × Value) → Emit Unit
  | [] => return
  | (inputs, output) :: rest => do
    discard <| nodeTo type (.list inputs) (.list [output]) attrs
    eachTo type attrs rest

/-- Variances as an operator's attribute gives them; ones when it gives none. -/
def givenVariances (op : OpNode) : Except Slip (List Value) := do
  let ones : List Value := List.replicate 4 (.float 1.0)
  if !op.hasAttr "variance" then return ones
  let given := op.attr "variance"
  if (← given.length) == 0 then return ones
  (← given.members).mapM fun v => do .ok (.float (← v.toFloat))

def hasPriorVariances (op : OpNode) : Except Slip Bool := do
  if op.hasInput "PriorBoxVar" then .ok ((← (op.input "PriorBoxVar").length) > 0) else .ok false

structure BoxNames where
  width : Value
  height : Value
  x : Value
  y : Value

def scalarTo (output v : Value) : Emit Unit :=
  discard <| nodeTo "Constant" (.list []) (.list [output])
    [("dtype", .int ElementType.FLOAT), ("dims", .tuple []), ("value", .list [v])]

/-- Extents and centres of the prior boxes from their corners; `one` widens boxes that count whole
pixels. -/
def priorExtents (op : OpNode) (name one : Value) (normalized : Bool) : Emit BoxNames := do
  let left ← marked name "@x1"
  let top ← marked name "@y1"
  let right ← marked name "@x2"
  let bottom ← marked name "@y2"
  discard <| nodeTo "Split" (op.input "PriorBox") (.list [left, top, right, bottom])
    [("axis", .int 1)]
  let farX ← if normalized then pure right else marked name "@centor_w_tmp"
  let farY ← if normalized then pure bottom else marked name "@centor_h_tmp"
  unless normalized do
    eachTo "Add" [] [([one, right], farX), ([one, bottom], farY)]
  let width ← marked name "@pb_w"
  let height ← marked name "@pb_h"
  eachTo "Sub" [] [([farX, left], width), ([farY, top], height)]
  let half ← marked name "@half_value"
  scalarTo half (.float 0.5)
  let halfWidth ← marked name "@pb_w_half"
  let halfHeight ← marked name "@pb_h_half"
  eachTo "Mul" [] [([width, half], halfWidth), ([height, half], halfHeight)]
  let x ← marked name "@pb_x"
  let y ← marked name "@pb_y"
  eachTo "Add" [] [([halfWidth, left], x), ([halfHeight, top], y)]
  return { width, height, x, y }

/-- The prior boxes laid along the second axis. -/
def transposed (name : Value) (b : BoxNames) : Emit BoxNames := do
  let width ← marked name "@pb_w_transpose"
  let height ← marked name "@pb_h_transpose"
  let x ← marked name "@pb_x_transpose"
  let y ← marked name "@pb_y_transpose"
  eachTo "Transpose" [] [([b.width], width), ([b.height], height), ([b.x], x), ([b.y], y)]
  return { width, height, x, y }

/-- The variances: a tensor with some for each prior box, or a constant. -/
def variancesOf (op : OpNode) (name : Value) (axis : Int) : Emit Value := do
  if ← hasPriorVariances op then
    if axis == 1 then refuse .variancePerPrior
    discard <| op.inputVar "PriorBoxVar" 0
    let split ← marked name "@variance_split"
    discard <| nodeTo "Transpose" (op.input "PriorBoxVar") (.list [split])
    return split
  else
    let given ← givenVariances op
    let raw ← marked name "@variance_raw"
    discard <| nodeTo "Constant" (.list []) (.list [raw])
      [("dtype", .int ElementType.FLOAT), ("dims", .ints [given.length]), ("value", .list given)]
    return raw

def fourNames (name : Value) (mark : String) : Except Slip (List Value) :=
  [0, 1, 2, 3].mapM fun (i : Nat) => marked name (mark ++ toString i)

/-- The deltas of the target, each scaled by its variance. -/
def scaledDeltas (op : OpNode) (name variances : Value) : Emit BoxNames := do
  let varianceParts ← fourNames name "@variance_split"
  let parts ← fourNames name "@targebox_split"
  discard <| nodeTo "Split" (.list [variances]) (.list varianceParts) [("axis", .int 0)]
  discard <| nodeTo "Split" (op.input "TargetBox") (.list parts) [("axis", .int 2)]
  let flat ← fourNames name "@targebox_squeeze"
  eachTo "Squeeze" [("axes", .ints [2])] ((parts.map fun t => [t]).zip flat)
  let x ← marked name "@decode_x_step1"
  let y ← marked name "@decode_y_step1"
  let width ← marked name "@decode_w_step1"
  let height ← marked name "@decode_h_step1"
  eachTo "Mul" []
    ((List.zipWith (fun a b => [a, b]) flat varianceParts).zip [x, y, width, height])
  return { width, height, x, y }

/-- Centres and half extents of the boxes that deltas describe. -/
def decodedExtents (name two : Value) (delta prior : BoxNames) : Emit BoxNames := do
  let x2 ← marked name "@decode_x_step2"
  let y2 ← marked name "@decode_y_step2"
  eachTo "Mul" [] [([delta.x, prior.width], x2), ([delta.y, prior.height], y2)]
  let x ← marked name "@decode_x_step3"
  let y ← marked name "@decode_y_step3"
  eachTo "Add" [] [([x2, prior.x], x), ([y2, prior.y], y)]
  let w2 ← marked name "@decode_w_step2"
  let h2 ← marked name "@decode_h_step2"
  eachTo "Exp" [] [([delta.width], w2), ([delta.height], h2)]
  let w3 ← marked name "@decode_w_step3"
  let h3 ← marked name "@decode_h_step3"
  eachTo "Mul" [] [([w2, prior.width], w3), ([h2, prior.height], h3)]
  let width ← marked name "@decode_half_w_step4"
  let height ← marked name "@decode_half_h_step4"
  eachTo "Div" [] [([w3, two], width), ([h3, two], height)]
  return { width, height, x, y }

/-- The corners of boxes, put together along a last axis. -/
def cornersTo (op : OpNode) (name one : Value) (normalized : Bool) (b : BoxNames) (last : Int) :
    Emit Unit := do
  let left ← marked name "@ouput_x1"
  let top ← marked name "@output_y1"
  eachTo "Sub" [] [([b.x, b.width], left), ([b.y, b.height], top)]
  let farX ← marked name "@ouput_x2"
  let farY ← marked name "@output_y2"
  eachTo "Add" [] [([b.x, b.width], farX), ([b.y, b.height], farY)]
  let right ← if normalized then pure farX else marked name "@ouput_unnorm_x2"
  let bottom ← if normalized then pure farY else marked name "@ouput_unnorm_y2"
  unless normalized do
    eachTo "Sub" [] [([farX, one], right), ([farY, one], bottom)]
  let points := [← marked name "@points_unsqueeze_x1", ← marked name "points_unsqueeze_y1",
    ← marked name "points_unsqueeze_x2", ← marked name "points_unsqueeze_y2"]
  eachTo "Unsqueeze" [("axes", .ints [last])] ([[left], [top], [right], [bottom]].zip points)
  discard <| nodeTo "Concat" (.list points) (← op.output "OutputBox") [("axis", .int last)]

def boxCoder : Rule := fun op => do
  let priors ← op.inputVar "PriorBox" 0
  let target ← op.inputShape "TargetBox" 0
  let name ← op.outputAt "OutputBox" 0
  discard <| memberAt target 0
  let axis ← (op.attr "axis").toInt
  let normalized := (op.attr "box_normalized").truthy
  let one ← marked name "@slice_1"
  let two ← marked name "@slice_2"
  scalarTo one (.int 1)
  scalarTo two (.int 2)
  discard <| replaceAt priors.shape (-1) 1
  let prior ← priorExtents op name one normalized
  let prior ← if axis == 0 then transposed name prior else pure prior
  let variances ← variancesOf op name axis
  let delta ← scaledDeltas op name variances
  let boxes ← decodedExtents name two delta prior
  cornersTo op name one normalized boxes (target.length - 1 : Nat)

end ModelExport.Rules
