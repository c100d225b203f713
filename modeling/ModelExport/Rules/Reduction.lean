import ModelExport.Rules.Activation

/-!
# Rules/Reduction — sums, extremes, norms and distances

Reductions drop or keep the reduced axes.  Programs declare a result of one element with shape `[1]`,
models with the empty shape, so such a result gets its axis back (`keepsOneAxis`).
-/

namespace ModelExport.Rules

open Emit

/-- Must the result of dropping every axis get one axis back? -/
def keepsOneAxis (keepDim : Value) (outputShape : List Int) : Bool :=
  !keepDim.truthy && outputShape == [1]

def reduce (type : String) : Rule := fun op => do
  let outputShape ← op.outputShape "Out" 0
  let attrs := [("axes", op.attr "dim"), ("keepdims", op.attr "keep_dim")]
  if keepsOneAxis (op.attr "keep_dim") outputShape then
    let reduced ← node type (op.input "X") attrs
    discard <| nodeTo "Unsqueeze" (.list [reduced]) (← op.output "Out") [("axes", .ints [0])]
  else
    discard <| nodeTo type (op.input "X") (← op.output "Out") attrs

def unsqueezeTimes : Nat → Value → Emit Value
  | 0, x => return x
  | n + 1, x => do unsqueezeTimes n (← node "Unsqueeze" (.list [x]) [("axes", .ints [0])])

/-- Reduction of truth values through numbers. -/
def reduceTruth (type : String) : Rule := fun op => do
  let numbers ← node "Cast" (.list [← op.inputAt "X" 0]) [("to", .int ElementType.FLOAT)]
  if (op.attr "reduce_all").truthy then
    let flat ← node "Flatten" numbers [("axis", .int 0)]
    let line ← node "Squeeze" (.list [flat])
    if (op.attr "keep_dim").truthy then
      let reduced ← node type line
      let reduced ← unsqueezeTimes ((← op.inputShape "X" 0).length - 1) reduced
      discard <| nodeTo "Cast" (.list [reduced]) (← op.output "Out") [("to", .int ElementType.FLOAT)]
    else
      discard <| nodeTo type line (← op.output "Out")
  else
    discard <| nodeTo type numbers (← op.output "Out")
      [("keepdims", op.attr "keep_dim"), ("axes", op.attr "dim")]

def logSumExp : Rule := fun op => do
  let keep := op.attr "keepdim"
  if (op.attr "reduce_all").truthy then
    if keep.truthy then
      discard <| nodeTo "ReduceLogSumExp" (op.input "X") (← op.output "Out") [("keepdims", keep)]
    else
      let reduced ← node "ReduceLogSumExp" (op.input "X") [("keepdims", keep)]
      discard <| nodeTo "Unsqueeze" (.list [reduced]) (← op.output "Out") [("axes", .ints [0])]
  else
    discard <| nodeTo "ReduceLogSumExp" (op.input "X") (← op.output "Out")
      [("keepdims", keep), ("axes", op.attr "axis")]

def mean : Rule := fun op => do
  discard <| nodeTo "ReduceMean" (op.input "X") (← op.output "Out") [("keepdims", .int 0)]

def argMax : Rule := fun op => do
  discard <| nodeTo "ArgMax" (op.input "X") (← op.output "Out")
    [("axis", op.attr "axis"), ("keepdims", op.attr "keepdims")]

/-- Position of the smallest element, of the flattened tensor when asked for. -/
def argMin : Rule := fun op => do
  if (op.attr "flatten").truthy then
    let flat ← node "Flatten" (op.input "X") [("axis", .int 0)]
    let line ← node "Squeeze" flat
    discard <| nodeTo "ArgMin" line (← op.output "Out")
  else
    let keep : Int := if (op.attr "keepdims").truthy then 1 else 0
    discard <| nodeTo "ArgMin" (op.input "X") (← op.output "Out")
      [("axis", op.attr "axis"), ("keepdims", .int keep)]

/-- The sum over axis 1: the axis is an attribute before version 13, a constant from then on. -/
def sumOverSecond (axesAsInput : Bool) (x keepdims : Value) : Emit Value := do
  if axesAsInput then
    let axes ← constant ElementType.INT64 (.ints [1])
    node "ReduceSum" (.list [x, axes]) [("keepdims", keepdims)]
  else node "ReduceSum" (.list [x]) [("axes", .ints [1]), ("keepdims", keepdims)]

/-- Is a norm of order `p` one node of the model?  Before version 13 order 1 always is. -/
def isPlainNorm (axesAsInput : Bool) (p keepdim : Value) : Bool :=
  let one := p.same (.int 1)
  let two := p.same (.int 2)
  if axesAsInput then (one || two) && !keepdim.truthy else one || (two && !keepdim.truthy)

/-- Norm of order `p` along axis 1. -/
def pNorm (axesAsInput : Bool) : Rule := fun op => do
  let x ← op.inputAt "X" 0
  let p := op.attr "porder"
  let keepdim := op.attr "keepdim"
  unless (op.attr "axis").same (.int 1) do refuse .pNormAxis
  if isPlainNorm axesAsInput p keepdim then
    discard <| nodeTo "LpNormalization" (.list [x]) (← op.output "Out") [("axis", .int 1), ("p", p)]
  else
    let order ← constant ElementType.FLOAT (.list [p])
    let powers ← node "Pow" (.list [x, order])
    let sum ← sumOverSecond axesAsInput powers keepdim
    let inverse ← Value.div (.float 1.0) p
    let inverseOrder ← constant ElementType.FLOAT (.list [inverse])
    discard <| nodeTo "Pow" (.list [sum, inverseOrder]) (← op.output "Out")

/-- Inner product along the last axis: the axis is an attribute before version 13. -/
def dot (axesAsInput : Bool) : Rule := fun op => do
  let product ← node "Mul" (.list [← op.inputAt "X" 0, ← op.inputAt "Y" 0])
  let last : List Int := [Int.ofNat (← op.inputShape "X" 0).length - 1]
  if axesAsInput then
    let axes ← constant ElementType.INT64 (.ints last)
    discard <| nodeTo "ReduceSum" (.list [product, axes]) (← op.output "Out")
  else
    discard <| nodeTo "ReduceSum" (.list [product]) (← op.output "Out") [("axes", .ints last)]

/-- An extreme difference, written twice under the name of the output. -/
def extremeDistance (type : String) (op : OpNode) (differences : Value) : Emit Unit := do
  let extreme ← nodeTo type differences (← op.output "Out") [("keepdims", .int 0)]
  discard <| nodeTo "Unsqueeze" (.list [extreme]) (← op.output "Out") [("axes", .ints [0])]

/-- Distance of order `p`: a count for 0, an extreme for the infinities, else a root of a sum. -/
def distance : Rule := fun op => do
  let difference ← node "Sub" (.list [← op.inputAt "X" 0, ← op.inputAt "Y" 0])
  let magnitude ← node "Abs" difference
  let p := op.attr "p"
  let infinity : Float := 1.0 / 0.0
  if p.same (.int 0) then
    let signs ← node "Sign" magnitude
    let count ← node "ReduceSum" signs [("keepdims", .int 0)]
    discard <| nodeTo "Unsqueeze" (.list [count]) (← op.output "Out") [("axes", .ints [0])]
  else if p.same (.float infinity) then extremeDistance "ReduceMax" op magnitude
  else if p.same (.float (-infinity)) then extremeDistance "ReduceMin" op magnitude
  else
    let order ← constant ElementType.FLOAT p
    let powers ← node "Pow" (.list [magnitude, order])
    let sum ← node "ReduceSum" powers [("keepdims", .int 0)]
    let sum ← node "Unsqueeze" (.list [sum]) [("axes", .ints [0])]
    let inverse ← node "Reciprocal" order
    discard <| nodeTo "Pow" (.list [sum, inverse]) (← op.output "Out")

end ModelExport.Rules
