import ModelExport.Rules.Activation

/-!
# Rules/Normalization — normalising layers
-/

namespace ModelExport.Rules

open Emit

def joinedInputs (op : OpNode) : List String → Except Slip Value
  | [] => .ok (.list [])
  | slot :: slots => slots.foldlM (fun acc s => acc.add (op.input s)) (op.input slot)

/-- Normalisation over a batch; `extra` are the attributes of the version. -/
def batchNorm (extra : Attrs) : Rule := fun op => do
  let inputs ← joinedInputs op ["X", "Scale", "Bias", "Mean", "Variance"]
  discard <| nodeTo "BatchNormalization" inputs (← op.output "Y")
    ([("epsilon", op.attr "epsilon"), ("momentum", op.attr "momentum")] ++ extra)

def instanceNorm : Rule := fun op => do
  let inputs ← joinedInputs op ["X", "Scale", "Bias"]
  discard <| nodeTo "InstanceNormalization" inputs (← op.output "Y") [("epsilon", op.attr "epsilon")]

/-- The normalised axes: the last ones for a list of sizes, those from an axis on for a number. -/
def normalizedAxes (begin : Value) (rank : Nat) : Except Slip (List Int) :=
  match begin.members with
  | .ok sizes => .ok ((List.range sizes.length).map fun i => Int.ofNat i - sizes.length)
  | .error _ => do
    let first ← begin.exact
    .ok ((List.range (Int.ofNat rank - first).toNat).map fun i => first + Int.ofNat i)

/-- Normalisation over the last axes, with an optional scale and shift. -/
def layerNorm : Rule := fun op => do
  let input ← op.inputAt "X" 0
  let rank := (← op.inputShape "X" 0).length
  let axes ← normalizedAxes (op.attr "begin_norm_axis") rank
  let epsilon ← constant ElementType.FLOAT (op.attr "epsilon")
  let two ← constant ElementType.FLOAT (.float 2.0)
  let mean ← node "ReduceMean" (.list [input]) [("axes", .ints axes)]
  let numerator ← node "Sub" (.list [input, mean])
  let squares ← node "Pow" (.list [numerator, two])
  let variance ← node "ReduceMean" (.list [squares]) [("axes", .ints axes)]
  let shifted ← node "Add" (.list [variance, epsilon])
  let denominator ← node "Sqrt" (.list [shifted])
  let weightShape : Emit Value := do
    let shape ← node "Shape" (.list [input])
    cut shape (.ints [0]) (.ints [Int.ofNat rank - axes.length]) (.ints [rank])
  let weight (slot : String) (shape : Value) : Emit Value := do
    node "Reshape" (.list [← op.inputAt slot 0, shape])
  match op.hasInput "Scale", op.hasInput "Bias" with
  | true, true =>
    let shape ← weightShape
    let scale ← weight "Scale" shape
    let bias ← weight "Bias" shape
    let normed ← node "Div" (.list [numerator, denominator])
    let scaled ← node "Mul" (.list [normed, scale])
    discard <| nodeTo "Add" (.list [scaled, bias]) (← op.output "Y")
  | false, true =>
    let shape ← weightShape
    let bias ← weight "Bias" shape
    let normed ← node "Div" (.list [numerator, denominator])
    discard <| nodeTo "Add" (.list [normed, bias]) (← op.output "Y")
  | true, false =>
    let shape ← weightShape
    let scale ← weight "Scale" shape
    let normed ← node "Div" (.list [numerator, denominator])
    discard <| nodeTo "Mul" (.list [normed, scale]) (← op.output "Y")
  | false, false =>
    discard <| nodeTo "Div" (.list [numerator, denominator]) (← op.output "Y")

/-- Scale and shift with two axes put behind: attributes before version 13, a shared constant from
then on. -/
def channelWeights (axesAsInput : Bool) (scale bias : Value) : Emit (Value × Value) := do
  if axesAsInput then
    let axes ← constant ElementType.INT64 (.ints [1, 2])
    let scale ← node "Unsqueeze" (.list [scale, axes])
    let bias ← node "Unsqueeze" (.list [bias, axes])
    return (scale, bias)
  else
    let scale ← node "Unsqueeze" (.list [scale]) [("axes", .ints [1, 2])]
    let bias ← node "Unsqueeze" (.list [bias]) [("axes", .ints [1, 2])]
    return (scale, bias)

def groupNorm (axesAsInput : Bool) : Rule := fun op => do
  let groups := op.attr "groups"
  let input ← op.firstInput "X"
  unless (← op.inputShape "X" 0).length == 4 do refuse .groupNormRank
  let scale ← op.firstInput "Scale"
  let bias ← op.firstInput "Bias"
  let shape ← constant ElementType.INT64 (.list [.int 0, groups, .int (-1)])
  let grouped ← node "Reshape" (.list [input, shape])
  let ones ← constant ElementType.FLOAT (← Value.mul (.list [.float 1.0]) groups)
  let zeros ← constant ElementType.FLOAT (← Value.mul (.list [.float 0.0]) groups)
  let normed ← node "InstanceNormalization" (.list [grouped, ones, zeros])
    [("epsilon", op.attr "epsilon")]
  let inputShape ← node "Shape" (.list [input])
  let output ← node "Reshape" (.list [normed, inputShape])
  let (scale, bias) ← channelWeights axesAsInput scale bias
  let scaled ← node "Mul" (.list [output, scale])
  discard <| nodeTo "Add" (.list [scaled, bias]) (← op.output "Y")

def norm : Rule := fun op => do
  discard <| nodeTo "LpNormalization" (op.input "X") (← op.output "Out") [("axis", op.attr "axis")]

end ModelExport.Rules
