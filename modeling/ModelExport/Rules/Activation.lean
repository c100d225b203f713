import ModelExport.Rules.Building

/-!
# Rules/Activation — activation functions

Rules for operators that apply one function to every element, with the parameters that models accept
as attributes and the others spelled out in arithmetic.
-/

namespace ModelExport.Rules

open Emit

/-- An operator that is one node of the model: all inputs of `X`, all outputs of `Out`. -/
def unary (type : String) : Rule := fun op => do
  discard <| nodeTo type (op.input "X") (← op.output "Out")

def leakyRelu : Rule := fun op => do
  discard <| nodeTo "LeakyRelu" (.list [← op.firstInput "X"]) (← op.output "Out")
    [("alpha", op.attr "alpha")]

/-- Are two doubles within a millionth of each other, relative to the second? -/
def isClose (x y : Float) : Bool :=
  if x.isFinite && y.isFinite then (x - y).abs ≤ 1e-6 + 1e-6 * y.abs else x == y

def closeTo (v : Value) (y : Float) : Except Slip Bool := do
  .ok (isClose (← (← v.number).toFloat) y)

/-- Softplus, for the parameters at which models have it. -/
def softplus : Rule := fun op => do
  let beta ← closeTo (op.attr "beta") 1.0
  let supported ← if beta then (closeTo (op.attr "threshold") 20.0 : Emit Bool) else pure false
  if supported then
    discard <| nodeTo "Softplus" (.list [← op.firstInput "X"]) (← op.output "Out")
  else refuse .softplusParameters

def axesButSecond (rank : Nat) : Except Slip (List Int) :=
  eraseAt ((List.range rank).map Int.ofNat) 1

/-- Inserts axes into a tensor: as an attribute before version 13, as a constant from then on. -/
def insertAxes (asInput : Bool) (input : Value) (axes : List Int) : Emit Value := do
  if asInput then
    let axesNode ← constant ElementType.INT64 (.ints axes)
    node "Unsqueeze" (.list [input, axesNode])
  else node "Unsqueeze" (.list [input]) [("axes", .ints axes)]

/-- Rectifier with a slope per channel, spread over the other axes when its rank differs. -/
def prelu (axesAsInput : Bool) : Rule := fun op => do
  let slopeShape ← op.inputShape "Alpha" 0
  let inputShape ← op.inputShape "X" 0
  let slope ← op.firstInput "Alpha"
  let slope ←
    if inputShape.length != slopeShape.length then do
      if slopeShape.length != 1 then refuse .slopeShape
      let shape ← node "Shape" (op.input "X")
      let axes ← axesButSecond inputShape.length
      let spread ← insertAxes axesAsInput slope axes
      node "Expand" (.list [spread, shape])
    else pure slope
  discard <| nodeTo "PRelu" (.list [← op.firstInput "X", slope]) (← op.output "Out")

def relu6 : Rule := fun op => do
  discard <| bound (← op.inputAt "X" 0) (op.attr "threshold") (.float 0.0) (← op.outputAt "Out" 0)

/-- Gaussian error rectifier, `x · (erf (x / √2) + 1) / 2`. -/
def gelu : Rule := fun op => do
  if (op.attr "approximate").truthy then refuse .approximateGelu
  let input ← op.inputAt "X" 0
  let root ← constant ElementType.FLOAT (.list [.float 1.4142135623730951])
  let half ← constant ElementType.FLOAT (.list [.float 0.5])
  let one ← constant ElementType.FLOAT (.ints [1])
  let x ← node "Div" (.list [input, root])
  let x ← node "Erf" x
  let x ← node "Add" (.list [x, one])
  let x ← node "Mul" (.list [input, x])
  discard <| nodeTo "Mul" (.list [x, half]) (← op.output "Out")

def selu : Rule := fun op => do
  discard <| nodeTo "Selu" (op.input "X") (← op.output "Out")
    [("alpha", op.attr "alpha"), ("gamma", op.attr "scale")]

def hardSigmoid : Rule := fun op => do
  discard <| nodeTo "HardSigmoid" (op.input "X") (← op.output "Out")
    [("alpha", op.attr "slope"), ("beta", op.attr "offset")]

/-- `x · sigmoid (β · x)`. -/
def swish : Rule := fun op => do
  let beta ← constant ElementType.FLOAT (.list [op.attr "beta"])
  let scaled ← node "Mul" (.list [← op.firstInput "X", beta])
  let gate ← node "Sigmoid" (.list [scaled])
  discard <| nodeTo "Mul" (.list [← op.firstInput "X", gate]) (← op.output "Out")

/-- `x · clip (x + offset) / scale`. -/
def hardSwish : Rule := fun op => do
  let scale ← constant ElementType.FLOAT (op.attr "scale")
  let offset ← constant ElementType.FLOAT (op.attr "offset")
  let shifted ← node "Add" (.list [← op.firstInput "X", offset])
  let gate ← bound shifted (op.attr "threshold") (.float 0.0) (.list [])
  let product ← node "Mul" (.list [← op.firstInput "X", gate])
  discard <| nodeTo "Div" (.list [product, scale]) (← op.output "Out")

def elu : Rule := fun op => do
  discard <| nodeTo "Elu" (op.input "X") (← op.output "Out") [("alpha", op.attr "alpha")]

/-- Cuts small magnitudes to zero. -/
def hardShrink : Rule := fun op => do
  discard <| nodeTo "Shrink" (op.input "X") (← op.output "Out") [("lambd", op.attr "threshold")]

def logSigmoid : Rule := fun op => do
  let gate ← node "Sigmoid" (op.input "X")
  discard <| nodeTo "Log" gate (← op.output "Out")

def logSoftmax : Rule := fun op => do
  discard <| nodeTo "LogSoftmax" (op.input "X") (← op.output "Out") [("axis", op.attr "axis")]

/-- Dropout at inference: nothing, or a factor, by what was done while training. -/
def dropout : Rule := fun op => do
  let mode := op.attr "dropout_implementation"
  if mode.same (.str "upscale_in_train") then
    discard <| nodeTo "Identity" (op.input "X") (← op.output "Out")
  else if mode.same (.str "downgrade_in_infer") then
    let factor ← constant ElementType.FLOAT (← Value.sub (.int 1) (op.attr "dropout_prob"))
    discard <| nodeTo "Mul" (.list [← op.firstInput "X", factor]) (← op.output "Out")
  else refuse .unexpected

end ModelExport.Rules
