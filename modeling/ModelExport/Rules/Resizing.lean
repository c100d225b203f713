import ModelExport.Rules.Joining

/-!
# Rules/Resizing — resizing images
-/

namespace ModelExport.Rules

open Emit

/-- Batch and channels of a shape. -/
def outerDims (asAttributes : Bool) (shape : Value) : Emit Value := do
  if asAttributes then node "Slice" (.list [shape]) [("starts", .ints [0]), ("ends", .ints [2])]
  else
    let start ← constant ElementType.INT64 (.ints [0])
    let stop ← constant ElementType.INT64 (.ints [2])
    node "Slice" (.list [shape, start, stop])

/-- The shape of the input, and the output's as tensors give it. -/
def shapesByTensor (op : OpNode) (asAttributes : Bool) : Emit (Value × Value) := do
  let shape ← node "Shape" (op.input "X")
  let outer ← outerDims asAttributes shape
  let inner ← if (← (op.input "OutSize").length) > 0 then
      node "Cast" (op.input "OutSize") [("to", .int ElementType.INT64)]
    else
      (do
        let sizes ← node "Concat" (op.input "SizeTensor") [("axis", .int 0)]
        node "Cast" (.list [sizes]) [("to", .int ElementType.INT64)] : Emit Value)
  return (shape, ← node "Concat" (.list [outer, inner]) [("axis", .int 0)])

def sizeAttrs (op : OpNode) : List Value := [op.attr "out_h", op.attr "out_w"]

def sizeOpen (op : OpNode) : Bool := (sizeAttrs op).any fun v => v.same (.int (-1))

def shapeBySize (op : OpNode) : Emit Value := do
  let shape ← node "Shape" (op.input "X")
  let outer ← outerDims false shape
  let inner ← constant ElementType.INT64 (.list (sizeAttrs op))
  node "Concat" (.list [outer, inner]) [("axis", .int 0)]

def scalesOfShapes (input output : Value) : Emit Value := do
  let output ← node "Cast" (.list [output]) [("to", .int ElementType.FLOAT)]
  let input ← node "Cast" (.list [input]) [("to", .int ElementType.FLOAT)]
  node "Div" (.list [output, input])

/-- Before version 11 positions can only be scaled from the corner. -/
def requireCornerScaling (op : OpNode) : Emit Unit := do
  if (op.attr "align_corners").truthy || (op.attr "align_mode").same (.int 0) then
    refuse .resizeTransform

/-- Is the output's size a tensor?  The second slot is only looked at when the first is empty. -/
def sizedByTensor (op : OpNode) : Except Slip Bool := do
  if (← (op.input "OutSize").length) > 0 then .ok true
  else .ok ((← (op.input "SizeTensor").length) > 0)

/-- Scales in the order of the dimensions: one number for height and width, or a list of both. -/
def scaleValues (scale : Value) : Except Slip Value :=
  match scale with
  | .float s => .ok (.list [.int 1, .int 1, .float s, .float s])
  | v => Value.add (.ints [1, 1]) v

/-- Scales of height and width: a sequence of two, or one number for both. -/
def scalePair (scale : Value) : Except Slip (Value × Value) :=
  match scale with
  | .list _ => do .ok (← scale.nth 0, ← scale.nth 1)
  | .tuple _ => do .ok (← scale.nth 0, ← scale.nth 1)
  | v => .ok (v, v)

/-- Resizing by scales, in version 9. -/
def upsample (mode : String) : Rule := fun op => do
  let input ← op.firstInput "X"
  requireCornerScaling op
  let scales ← if ← sizedByTensor op then
      (do
        let (input, output) ← shapesByTensor op true
        scalesOfShapes input output : Emit Value)
    else if ← hasInputs op "Scale" then
      (do
        discard <| op.firstInput "Scale"
        slip .unsetVariable : Emit Value)
    else
      (do
        let (h, w) ← scalePair (op.attr "scale")
        if sizeOpen op then constant ElementType.FLOAT (.list [.int 1, .int 1, h, w])
        else refuse .unexpected : Emit Value)
  discard <| nodeTo "Upsample" (.list [input, scales]) (← op.output "Out") [("mode", .str mode)]

/-- Resizing by scales, in version 10. -/
def resizeByScales (mode : String) : Rule := fun op => do
  let input ← op.firstInput "X"
  requireCornerScaling op
  let scales ← if ← sizedByTensor op then
      (do
        let (input, output) ← shapesByTensor op false
        scalesOfShapes input output : Emit Value)
    else if ← hasInputs op "Scale" then (op.firstInput "Scale" : Emit Value)
    else
      (do
        let scales ← scaleValues (op.attr "scale")
        if sizeOpen op then constant ElementType.FLOAT scales else refuse .unexpected : Emit Value)
  discard <| nodeTo "Resize" (.list [input, scales]) (← op.output "Out") [("mode", .str mode)]

/-- Where a position of the output comes from in the input. -/
def positionMode (op : OpNode) : String :=
  if (op.attr "align_corners").truthy then "align_corners"
  else if op.type == "nearest_interp" then "half_pixel"
  else if (op.attr "align_mode").same (.int 1) then "asymmetric"
  else "half_pixel"

/-- Is a slot there with something in it?  A slot that holds nothing is not. -/
def filledSlot (names : Value) : Except Slip Bool := do
  if names.isNone then .ok false else .ok ((← names.length) > 0)

/-- Resizing by scales or sizes, from version 11 on. -/
def resize (mode : String) : Rule := fun op => do
  let position := positionMode op
  let region ← constant ElementType.FLOAT (.ints (List.replicate 8 1))
  let input ← op.firstInput "X"
  let sized ← if ← filledSlot (op.input "OutSize") then pure true
    else filledSlot (op.input "SizeTensor")
  let target ← if sized then
      (do
        let empty ← constant ElementType.FLOAT (.list [])
        let (_, output) ← shapesByTensor op false
        return [empty, output] : Emit (List Value))
    else if ← filledSlot (op.input "Scale") then
      (do return [← op.firstInput "Scale"] : Emit (List Value))
    else
      (do
        let scales ← scaleValues (op.attr "scale")
        if sizeOpen op then return [← constant ElementType.FLOAT scales]
        let empty ← constant ElementType.FLOAT (.list [])
        return [empty, ← shapeBySize op] : Emit (List Value))
  let rounding := if mode == "nearest" && position == "asymmetric" then
    [("nearest_mode", Value.str "floor")] else []
  discard <| nodeTo "Resize" (.list ([input, region] ++ target)) (← op.output "Out")
    ([("mode", .str mode), ("coordinate_transformation_mode", .str position)] ++ rounding)

end ModelExport.Rules
