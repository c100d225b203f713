import ModelExport.Rules.Joining

/-!
# Rules/Reshaping — shapes, paddings, casts and bounds
-/

namespace ModelExport.Rules

open Emit

/-- The shape of a tensor, as 32-bit integers. -/
def shapeOf : Rule := fun op => do
  let shape ← node "Shape" (op.input "Input")
  discard <| nodeTo "Cast" (.list [shape]) (← op.output "Out") [("to", .int ElementType.INT32)]

/-- The number of elements, as a vector of one. -/
def sizeOf : Rule := fun op => do
  let size ← node "Size" (op.input "Input")
  discard <| nodeTo "Unsqueeze" size (← op.output "Out") [("axes", .ints [0])]

/-- A node whose one attribute is read from the operator under another name. -/
def renamed (type attr source : String) : Rule := fun op => do
  discard <| nodeTo type (op.input "X") (← op.output "Out") [(attr, op.attr source)]

def squeeze : Rule := fun op => do
  discard <| nodeTo "Squeeze" (.list [← op.inputAt "X" 0]) (← op.output "Out")
    [("axes", op.attr "axes")]

/-- The shape of a tensor with the axes from `start_axis` to `stop_axis` as one, whose extent is left open. -/
def mergedShape (op : OpNode) : Emit Value := do
  let rank : Int := (← op.inputShape "X" 0).length
  let start := op.attr "start_axis"
  let stop := op.attr "stop_axis"
  let shape ← node "Shape" (op.input "X")
  let before ← cut shape (.ints [0]) (.ints [0]) (.list [start])
  let free ← constant ElementType.INT64 (.ints [-1])
  let parts ← if ← stop.lt (.int (rank - 1)) then
      (do
        let after ← cut shape (.ints [0]) (.list [← stop.add (.int 1)]) (.ints [rank])
        let free ← constant ElementType.INT64 (.ints [-1])
        return [before, free, after] : Emit (List Value))
    else pure [before, free]
  node "Concat" (.list parts) [("axis", .int 0)]

def flattenRange : Rule := fun op => do
  let target ← mergedShape op
  discard <| nodeTo "Reshape" (.list [← op.firstInput "X", target]) (← op.output "Out")

/-- Casts the first `n` names to 64-bit integers. -/
def castWide (names : Value) : Nat → Nat → Emit (List Value)
  | _, 0 => return []
  | i, n + 1 => do
    let dim ← node "Cast" (.list [← names.nth i]) [("to", .int ElementType.INT64)]
    return dim :: (← castWide names (i + 1) n)

def hasShape (op : OpNode) : Except Slip Bool := do
  if (op.attr "shape").isNone then .ok false else .ok ((← (op.attr "shape").length) > 0)

/-- Gives a tensor another shape: from tensors, a tensor, or an attribute. -/
def reshape : Rule := fun op => do
  let slot := if ← hasInputs op "ShapeTensor" then "ShapeTensor" else "Shape"
  unless ← hasInputs op slot do
    unless ← hasShape op do refuse .shapeUnknown
  let names := op.input slot
  let count ← names.length
  let shape ← if count > 1 then
      (do node "Concat" (.list (← castWide names 0 count)) [("axis", .int (-1))] : Emit Value)
    else if count == 1 then node "Cast" names [("to", .int ElementType.INT64)]
    else constant ElementType.INT64 (op.attr "shape")
  discard <| nodeTo "Reshape" (.list [← op.firstInput "X", shape]) (← op.output "Out")

def cast : Rule := fun op => do
  discard <| nodeTo "Cast" (op.input "X") (← op.output "Out")
    [("to", ← ElementType.convert (op.attr "out_dtype"))]

def hasFirst (op : OpNode) (slot : String) : Except Slip Bool := do
  .ok !(← op.inputAt slot 0).isNone

/-- Bounds a tensor.  The upper bound may be a tensor; a lower bound that is one has to be named
`min`, and when it has axes its sum takes the place of the upper bound. -/
def clip : Rule := fun op => do
  let upper ← if ← hasFirst op "Max" then
      (do
        let given ← op.inputAt "Max" 0
        if (← op.inputShape "Max" 0).isEmpty then return given
        let flat ← constantShaped ElementType.INT64 (.ints [1]) (.int (-1))
        node "Reshape" (.list [given, flat]) : Emit Value)
    else pure (op.attr "max")
  let (upper, lower) ← if ← hasFirst op "Min" then
      (do
        let given ← op.inputAt "min" 0
        if (← op.inputShape "Min" 0).isEmpty then return (upper, given)
        return (← node "ReduceSum" (.list [given]) [("keepdims", .int 0)], given) :
          Emit (Value × Value))
    else pure (upper, op.attr "min")
  discard <| bound (← op.inputAt "X" 0) upper lower (← op.outputAt "Out" 0)

/-! ## Paddings -/

/-- Where each dimension of a layout finds its two paddings; `none` is never padded. -/
def paddedDims (layout : Value) : Option (List (Option (Int × Int))) :=
  match layout.str? with
  | some "NCHW" => some [none, none, some (0, 1), some (2, 3)]
  | some "NHWC" => some [none, some (0, 1), some (2, 3), none]
  | some "NCDHW" => some [none, none, some (4, 5), some (2, 3), some (0, 1)]
  | some "NDHWC" => some [none, some (4, 5), some (2, 3), some (0, 1), none]
  | _ => none

def paddingAt (paddings : Value) (pick : Int × Int → Int) : Option (Int × Int) → Except Slip Value
  | none => .ok (.int 0)
  | some ends => paddings.nth (pick ends)

/-- **Paddings in the order of a model**: all beginnings, then all ends. -/
def orderedPaddings (layout paddings : Value) : Except Slip Value :=
  match paddedDims layout with
  | none => .ok .none
  | some dims => do
    let begins ← dims.mapM (paddingAt paddings Prod.fst)
    let ends ← dims.mapM (paddingAt paddings Prod.snd)
    .ok (.list (begins ++ ends))

def paddingsOf (op : OpNode) : Emit Value := do
  discard <| op.inputShape "X" 0
  let paddings := op.attr "paddings"
  if paddings.same (.list []) then refuse .paddingTensor
  orderedPaddings (op.attr "data_format") paddings

def paddingMode (op : OpNode) : Emit Value := do
  let mode := op.attr "mode"
  if mode.same (.str "replicate") then return .str "edge"
  if mode.same (.str "circular") then refuse .circularPadding
  return mode

def paddingValue (op : OpNode) : Value :=
  if (op.attr "pad_value").isNone then op.attr "value" else op.attr "pad_value"

def padAttributes : Rule := fun op => do
  let mode ← paddingMode op
  let pads ← paddingsOf op
  discard <| nodeTo "Pad" (op.input "X") (← op.output "Out")
    [("mode", mode), ("value", paddingValue op), ("pads", pads)]

def padConstants : Rule := fun op => do
  let pads ← paddingsOf op
  let mode ← paddingMode op
  let padsNode ← constant ElementType.INT64 pads
  let valueNode ← constant ElementType.FLOAT (paddingValue op)
  discard <| nodeTo "Pad" (← (op.input "X").add (.list [padsNode, valueNode])) (← op.output "Out")
    [("mode", mode)]

/-- Moves blocks of channels into space. -/
def pixelShuffle : Rule := fun op => do
  discard <| nodeTo "DepthToSpace" (op.input "X") (← op.output "Out")
    [("blocksize", op.attr "upscale_factor"), ("mode", .str "CRD")]

end ModelExport.Rules
