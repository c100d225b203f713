import ModelExport.Rules.Building

/-!
# Rules/Windows — regions of an image
-/

namespace ModelExport.Rules

open Emit

/-- Pools regions of interest; all of them are taken from the first image of the batch. -/
def roiAlign : Rule := fun op => do
  let shape ← node "Shape" (.list [← op.inputAt "ROIs" 0])
  let start ← constant ElementType.INT64 (.ints [0])
  let stop ← constant ElementType.INT64 (.ints [1])
  let count ← node "Slice" (.list [shape, start, stop])
  let zero ← constantShaped ElementType.INT64 (.ints [1]) (.ints [0])
  let images ← node "Expand" (.list [zero, count])
  discard <| nodeTo "RoiAlign" (.list [← op.inputAt "X" 0, ← op.inputAt "ROIs" 0, images])
    (← op.output "Out")
    [("mode", .str "avg"), ("output_height", op.attr "pooled_height"),
      ("output_width", op.attr "pooled_width"), ("sampling_ratio", op.attr "sampling_ratio"),
      ("spatial_scale", op.attr "spatial_scale")]

def pairOf (v : Value) : Except Slip (Value × Value) := do
  match ← v.members with
  | [a, b] => .ok (a, b)
  | _ => .error .badValue

def windowCount (size kernel stride : Value) : Except Slip Value := do
  Value.add (.int 1) (← (← (← (← size.sub kernel).add stride).sub (.int 1)).floorDiv stride)

/-- Cuts an image into windows.  A window that is there cannot be kept, so only an image with none
passes. -/
def windows : Rule := fun op => do
  let (h, w) ← match ← op.inputShape "X" 0 with
    | [_, _, h, w] => pure (h, w)
    | _ => slip .badValue
  unless h > 0 && w > 0 do refuse .windowShape
  let (strideHeight, strideWidth) ← pairOf (op.attr "strides")
  let paddings := op.attr "paddings"
  if (op.attr "out_stride").same (.int 1) then refuse .windowStride
  let height ← (← Value.add (.int h) (← paddings.nth 0)).add (← paddings.nth 1)
  let width ← (← Value.add (.int w) (← paddings.nth 1)).add (← paddings.nth 2)
  let (kernelHeight, kernelWidth) ← pairOf (op.attr "kernels")
  let rows ← windowCount height kernelHeight strideHeight
  let columns ← windowCount width kernelWidth strideWidth
  let rows ← rows.exact
  let columns ← columns.exact
  if rows > 0 && columns > 0 then
    discard <| constantShaped ElementType.INT64 (.ints [4]) (.ints [0, 0, 0, 0])
    discard <| constantShaped ElementType.INT64 (.ints [4])
      (.list [.int 999999, .int 999999, kernelHeight, kernelWidth])
    slip .undefinedName
  discard <| nodeTo "Concat" (.list []) (← op.output "Out") [("axis", .int 0)]
  notify (.info "==========Importance Notice===========")
  notify (.info ("Since im2sequence operator is used in your paddlepaddle model, the translated " ++
    "onnx model only support input data with batch_size=1."))
  notify (.info "======================================")

end ModelExport.Rules
