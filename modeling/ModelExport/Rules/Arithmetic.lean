import ModelExport.Rules.Activation

/-!
# Rules/Arithmetic — elementwise and matrix arithmetic

The second operand of a binary operator may be aligned with the first at an inner axis; models only
broadcast from the last axis on, so `alignedShape` gives the shape that moves it into place.
-/

namespace ModelExport.Rules

open Emit

/-! ## Matrices -/

def swapLastTwo (rank : Nat) : Except Slip (List Int) := do
  let perm := (List.range rank).map Int.ofNat
  let a ← memberAt perm (-2)
  let b ← memberAt perm (-1)
  replaceAt (← replaceAt perm (-1) a) (-2) b

def transposedIf (flag : Value) (op : OpNode) (slot : String) (x : Value) : Emit Value := do
  if flag.truthy then
    let perm ← swapLastTwo (← op.inputShape slot 0).length
    node "Transpose" (.list [x]) [("perm", .ints perm)]
  else return x

def matmul : Rule := fun op => do
  let x ← op.inputAt "X" 0
  let y ← op.inputAt "Y" 0
  let x ← transposedIf (op.attr "transpose_X") op "X" x
  let y ← transposedIf (op.attr "transpose_Y") op "Y" y
  if (op.attr "alpha").same (.float 1.0) then
    discard <| nodeTo "MatMul" (.list [x, y]) (← op.output "Out")
  else
    let product ← node "MatMul" (.list [x, y])
    let scale ← constant ElementType.FLOAT (op.attr "alpha")
    discard <| nodeTo "Mul" (.list [product, scale]) (← op.output "Out")

def matmulV2 : Rule := fun op => do
  let x ← op.inputAt "X" 0
  let y ← op.inputAt "Y" 0
  let out ← op.output "Out"
  let x ← transposedIf (op.attr "trans_x") op "X" x
  let y ← transposedIf (op.attr "trans_y") op "Y" y
  discard <| nodeTo "MatMul" (.list [x, y]) out

def binary (type second : String) : Rule := fun op => do
  discard <| nodeTo type (.list [← op.inputAt "X" 0, ← op.inputAt second 0]) (← op.output "Out")

/-- Product of two tensors flattened to matrices, brought back to the outer axes of both. -/
def mul : Rule := fun op => do
  let x ← op.inputAt "X" 0
  let y ← op.inputAt "Y" 0
  discard <| op.outputAt "Out" 0
  let xDims := op.attr "x_num_col_dims"
  let yDims := op.attr "y_num_col_dims"
  let flatX ← node "Flatten" (op.input "X") [("axis", xDims)]
  let flatY ← node "Flatten" (op.input "Y") [("axis", yDims)]
  let product ← node "MatMul" (.list [flatX, flatY])
  let xShape ← node "Shape" (.list [x])
  let left ← cut xShape (.ints [0]) (.ints [0]) (.list [xDims])
  let yShape ← node "Shape" (.list [y])
  let yRank := (← op.inputShape "Y" 0).length
  let right ← cut yShape (.ints [0]) (.list [yDims]) (.ints [yRank])
  let shape ← node "Concat" (.list [left, right]) [("axis", .int 0)]
  discard <| nodeTo "Reshape" (.list [product, shape]) (← op.output "Out")

/-! ## Broadcasting -/

/-- **The shape that moves a tensor to an inner axis** of a tensor of the given rank: ones, with its
own dimensions from the axis on. -/
def alignedShape (rank : Nat) (axis : Int) (shape : List Int) : List Int :=
  replaceSpan (List.replicate rank 1) axis (axis + shape.length) shape

def broadcastsPlainly (axis : Value) (x y : List Int) : Bool :=
  axis.same (.int (-1)) || axis.same (.int (Int.ofNat x.length - 1)) || x.length == y.length

/-- The second operand, reshaped where it is aligned at an inner axis. -/
def alignedOperand (axis : Value) (xShape yShape : List Int) (y : Value) : Emit Value := do
  if broadcastsPlainly axis xShape yShape then return y
  else
    let shape := alignedShape xShape.length (← axis.exact) yShape
    let shapeNode ← constant ElementType.INT64 (.ints shape)
    node "Reshape" (.list [y, shapeNode])

/-- A binary operator on every pair of aligned elements. -/
def elementwise (type : String) : Rule := fun op => do
  let axis := op.attr "axis"
  let x ← op.inputAt "X" 0
  let y ← op.inputAt "Y" 0
  let xShape ← op.inputShape "X" 0
  let yShape ← op.inputShape "Y" 0
  let y ← alignedOperand axis xShape yShape y
  discard <| nodeTo type (.list [x, y]) (← op.output "Out")

def namesInteger (name : Value) : Bool :=
  match name with
  | .str s => (s.splitOn "int").length > 1
  | _ => false

/-- Quotient rounded down; integers divide that way already. -/
def floorDivide : Rule := fun op => do
  let x ← op.inputAt "X" 0
  let y ← op.inputAt "Y" 0
  let axis := op.attr "axis"
  let xShape ← op.inputShape "X" 0
  let yShape ← op.inputShape "Y" 0
  let xCode ← op.inputType "X" 0
  let yCode ← op.inputType "Y" 0
  let xName ← ElementType.textOf (.int xCode)
  let yName ← ElementType.textOf (.int yCode)
  let y ← alignedOperand axis xShape yShape y
  if namesInteger xName && namesInteger yName then
    discard <| nodeTo "Div" (.list [x, y]) (← op.output "Out")
  else
    let quotient ← node "Div" (.list [x, y])
    discard <| nodeTo "Floor" (.list [quotient]) (← op.output "Out")

/-! ## Functions of one operand -/

def isNan : Rule := fun op => do
  let flags ← node "IsNaN" (op.input "X")
  let numbers ← node "Cast" flags [("to", .int ElementType.FLOAT)]
  discard <| nodeTo "ReduceMax" (.list [numbers]) (← op.output "Out")

/-- Logarithm to a base, given the natural logarithm of the base. -/
def logarithm (logBase : Float) : Rule := fun op => do
  let base ← constant ElementType.FLOAT (.float logBase)
  let natural ← node "Log" (op.input "X")
  discard <| nodeTo "Div" (.list [natural, base]) (← op.output "Out")

def log1p : Rule := fun op => do
  let one ← constant ElementType.FLOAT (.ints [1])
  let shifted ← node "Add" (.list [← op.inputAt "X" 0, one])
  discard <| nodeTo "Log" shifted (← op.output "Out")

/-- Power with a fixed exponent, spread over the shape of the operand. -/
def power : Rule := fun op => do
  let x ← op.inputAt "X" 0
  let factor ← constantShaped ElementType.FLOAT (.ints [1]) (op.attr "factor")
  let shape ← node "Shape" (.list [x])
  let exponent ← node "Expand" (.list [factor, shape])
  discard <| nodeTo "Pow" (.list [x, exponent]) (← op.output "Out")

def square : Rule := fun op => do
  let x ← op.inputAt "X" 0
  discard <| nodeTo "Mul" (.list [x, x]) (← op.output "Out")

def cumulativeSum : Rule := fun op => do
  let axis ← constant ElementType.INT64 (op.attr "axis")
  discard <| nodeTo "CumSum" (.list [← op.inputAt "X" 0, axis]) (← op.output "Out")

def reciprocalRoot : Rule := fun op => do
  let root ← node "Sqrt" (op.input "X")
  discard <| nodeTo "Reciprocal" root (← op.output "Out")

def affineChannel : Rule := fun op => do
  let x ← op.inputAt "X" 0
  let bias ← op.inputAt "Bias" 0
  let scale ← op.inputAt "Scale" 0
  let scale ← node "Unsqueeze" scale [("axes", .ints [0, 2, 3])]
  let bias ← node "Unsqueeze" bias [("axes", .ints [0, 2, 3])]
  let x ← node "Mul" (.list [x, scale])
  discard <| nodeTo "Add" (.list [x, bias]) (← op.output "Out")

def boundedRelu : Rule := fun op => do
  discard <| bound (← op.inputAt "X" 0) (op.attr "t_max") (op.attr "t_min") (← op.outputAt "Out" 0)

/-! ## Scaling -/

/-- Is a number within a millionth of another? -/
def nearly (v : Value) (y : Float) : Except Slip Bool := do
  match ← v.sub (.float y) with
  | .float d => .ok (d.abs < 1e-6)
  | _ => .error .wrongKind

def scalesToItself (op : OpNode) : Except Slip Bool := do
  if ← nearly (op.attr "scale") 1.0 then nearly (op.attr "bias") 0.0 else .ok false

/-- `scale · x + bias` where it changes nothing. -/
def scaleIdentity : Rule := fun op => do
  if ← scalesToItself op then
    discard <| nodeTo "Identity" (op.input "X") (← op.output "Out")
  else refuse .scaleNeedsSeven

/-- `scale · x + bias`, or `scale · (x + bias)`. -/
def scale : Rule := fun op => do
  if ← scalesToItself op then
    discard <| nodeTo "Identity" (op.input "X") (← op.output "Out")
  else
    let factor ← constant ElementType.FLOAT (.list [op.attr "scale"])
    let bias ← constant ElementType.FLOAT (.list [op.attr "bias"])
    let x ← node "Cast" (op.input "X") [("to", .int ElementType.FLOAT)]
    if (op.attr "bias_after_scale").truthy then
      let scaled ← node "Mul" (.list [x, factor])
      discard <| nodeTo "Add" (.list [scaled, bias]) (← op.output "Out")
    else
      let shifted ← node "Add" (.list [x, bias])
      discard <| nodeTo "Mul" (.list [shifted, factor]) (.list [← op.outputAt "Out" 0])

end ModelExport.Rules
