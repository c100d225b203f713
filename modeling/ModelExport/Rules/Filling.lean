import ModelExport.Rules.Reshaping

/-!
# Rules/Filling — tensors made from a value

Constants, tensors shaped like another one, ranges, given values and random numbers.
-/

namespace ModelExport.Rules

open Emit

/-- A double as an integer of a fixed width: the fraction is dropped; what does not fit a word (of 32
bits, or of 64 for the widest type) becomes the word's least integer before it is narrowed. -/
def wordOf (width : Nat) (x : Float) : Int :=
  let word := if width ≤ 32 then 32 else 64
  let least : Int := -Int.pow 2 (word - 1)
  let i := match Binary.ofFloat x with
    | .finite negative m q => Binary.truncate negative m q
    | _ => least
  let i := if least ≤ i && i < Int.pow 2 (word - 1) then i else least
  ElementType.wrap width true i

/-- A double as an element of a constant; singles keep the precision of doubles. -/
def filledElement (x : Float) : ElementType → Value
  | .bool => .bool !(x == 0.0)
  | .int16 => .int (wordOf 16 x)
  | .int32 => .int (wordOf 32 x)
  | .int64 => .int (wordOf 64 x)
  | _ => .float x

def fillable : List Int := [0, 1, 2, 3, 5, 6]

def fillType (dtype : Value) : Except Slip ElementType :=
  if !dtype.isKey then .error .wrongKind
  else match fillable.find? fun c => dtype.same (.int c) with
    | some c => .ok (ElementType.ofCode c)
    | none => .error .missingKey

/-- The dimensions of a shape; a single number is the only dimension, nothing is none at all. -/
def dimensions (shape : Value) : Except Slip (List Int) := do
  let dims ← match shape with
    | .none => .ok []
    | .list xs => xs.mapM Value.exact
    | .tuple xs => xs.mapM Value.exact
    | v => do .ok [← v.exact]
  if dims.any fun d => d < 0 then .error .badValue else .ok dims

def filledElements (shape value dtype : Value) : Except Slip (List Value) := do
  let count := elementCount (← dimensions shape)
  let filling : Except Slip Float := do (← value.number).toFloat
  let x ← if count == 0 && value.isNone then .ok 0.0 else filling
  let type ← fillType dtype
  .ok (List.replicate count (filledElement x type))

def fillConstant : Rule := fun op => do
  let dtype := op.attr "dtype"
  let shape := op.attr "shape"
  if ← hasInputs op "ValueTensor" then refuse .fillValueTensor
  let elements ← filledElements shape (op.attr "value") dtype
  let rank ← shape.length
  let sized ← if rank == 0 then (do return (← (op.input "ShapeTensor").length) > 0 : Emit Bool)
    else pure false
  if sized then
    let given ← op.inputAt "ShapeTensor" 0
    let size ← convertTo given (.int (← op.inputType "ShapeTensor" 0)) (.str "int64")
    discard <| nodeTo "ConstantOfShape" size (← op.output "Out")
      [("dims", .ints [1]), ("dtype", ← ElementType.convert dtype), ("value", .list elements)]
  else
    discard <| nodeTo "Constant" (.list []) (← op.output "Out")
      [("dims", shape), ("dtype", ← ElementType.convert dtype), ("value", .list elements)]

/-- Axes with the first one and the `i`-th one exchanged, written as given. -/
def exchangeWithFirst (rank : Nat) (i : Value) : Except Slip Value := do
  let axes := (List.range rank).map fun (k : Nat) => Value.int k
  let axes ← replaceAt axes 0 i
  .ok (.list (← replaceAt axes (← i.exact) (.int 0)))

/-- The product of a shape as a count: nothing but integers can be counted. -/
def productOf (dims : List Value) : Except Slip Int := do
  .ok ((← dims.mapM Value.exact).foldl (· * ·) 1)

/-- A constant with the batch size of a tensor.  The batch axis of the shape moves to the front as a
single element, and the operator keeps the shape so changed. -/
def fillBatchLike : Rule := fun op => do
  let inputAxis := op.attr "input_dim_idx"
  let outputAxis := op.attr "output_dim_idx"
  let dims ← match op.attr "shape" with
    | .list xs => pure xs
    | _ => slip .wrongKind
  let dims ← eraseAt dims (← outputAxis.exact)
  let dims := .int 1 :: dims
  editAttr "shape" (.list dims)
  let dtype ← ElementType.convert (op.attr "dtype")
  discard <| op.inputShape "Input" 0
  let value ← (op.attr "value").toInt
  let count ← productOf dims
  let filled ← node "Constant" .none
    [("dtype", dtype), ("dims", .list dims), ("value", .list (List.replicate count.toNat (.int value)))]
  let shape ← node "Shape" (op.input "Input")
  let start ← constant ElementType.INT64 (.list [inputAxis])
  let stop ← constant ElementType.INT64 (.list [← inputAxis.add (.int 1)])
  let batch ← node "Slice" (.list [shape, start, stop])
  let once ← constant ElementType.INT64 (.ints (List.replicate (dims.length - 1) 1))
  let times ← node "Concat" (.list [batch, once]) [("axis", .int (-1))]
  if outputAxis.same (.int 0) then
    discard <| nodeTo "Tile" (.list [filled, times]) (← op.output "Out")
  else
    let tiled ← node "Tile" (.list [filled, times])
    let perm ← exchangeWithFirst dims.length outputAxis
    discard <| nodeTo "Transpose" (.list [tiled]) (← op.output "Out") [("perm", perm)]

/-- A value as an element of a type given by name; nothing is an undefined number. -/
def likeElement (type : ElementType) (value : Value) : Except Slip Value :=
  match value, type with
  | .none, .float32 => .ok (.float (0.0 / 0.0))
  | .none, .float64 => .ok (.float (0.0 / 0.0))
  | .float x, .float32 => .ok (.float (Binary.roundSingle x))
  | .float x, type => .ok (filledElement x type)
  | value, type => type.element value

/-- A constant in the shape of a tensor; `value` reads what it is filled with. -/
def fillLike (value : OpNode → Value) : Rule := fun op => do
  let shape ← node "Shape" (op.input "X")
  let inputType ← op.inputType "X" 0
  let dtype := if (op.attr "dtype").isNone then .int inputType else op.attr "dtype"
  discard <| ElementType.textOf dtype
  let modelType ← ElementType.convert dtype
  let outputs ← op.output "Out"
  let element ← likeElement (← fillType dtype) (value op)
  discard <| nodeTo "ConstantOfShape" (.list [shape]) outputs
    [("dims", .ints [1]), ("dtype", modelType), ("value", element)]

def range : Rule := fun op => do
  let start ← node "Squeeze" (.list [← op.inputAt "Start" 0]) [("axes", .ints [0])]
  let stop ← node "Squeeze" (.list [← op.inputAt "End" 0]) [("axes", .ints [0])]
  let step ← node "Squeeze" (.list [← op.inputAt "Step" 0]) [("axes", .ints [0])]
  discard <| nodeTo "Range" (.list [start, stop, step]) (← op.output "Out")

/-! ## Given values -/

/-- The number kinds of an array: one kind for all its elements. -/
inductive ArrayKind where
  | truths
  | integers
  | doubles
  | mixed
  deriving DecidableEq

def kindOf : Value → ArrayKind
  | .bool _ => .truths
  | .int _ => .integers
  | .float _ => .doubles
  | _ => .mixed

def ArrayKind.join : ArrayKind → ArrayKind → ArrayKind
  | .mixed, _ => .mixed
  | _, .mixed => .mixed
  | .doubles, _ => .doubles
  | _, .doubles => .doubles
  | .integers, _ => .integers
  | _, .integers => .integers
  | .truths, .truths => .truths

def ArrayKind.element : ArrayKind → Value → Except Slip Value
  | .integers, v => do .ok (.int (← v.exact))
  | .doubles, v => do .ok (.float (← (← v.number).toFloat))
  | _, v => .ok v

/-- **The elements of an array** written as nested sequences. -/
def arrayElements (v : Value) : Except Slip (List Value) :=
  let leaves := v.leaves
  let kind : ArrayKind := leaves.foldl (fun k x => ArrayKind.join k (kindOf x)) .truths
  leaves.mapM kind.element

def keepWeight (name : Value) (dtype dims : Value) (elements : List Value) : Emit Unit := do
  let type ← ElementType.convert dtype
  let title := name.plain
  let constant : ModelNode :=
    { op := "Constant", inputs := [], outputs := [name], name := .none, domain := .none,
      attrs := [("value", .tensor { name := title, type, dims, vals := .list elements })] }
  modify fun d => { d with weights := Assoc.insert d.weights title constant }

/-- Values given in attributes become a weight; a tensor is passed on. -/
def assignValue : Rule := fun op => do
  if op.inputs.isEmpty then
    let singles ← arrayElements (op.attr "fp32_values")
    let elements ← if singles.isEmpty then
        (do
          let narrow ← arrayElements (op.attr "int32_values")
          if narrow.isEmpty then arrayElements (op.attr "int64_values") else return narrow :
            Emit (List Value))
      else pure singles
    keepWeight (← op.outputAt "Out" 0) (op.attr "dtype") (op.attr "shape") elements
  else
    discard <| nodeTo "Identity" (op.input "X") (← op.output "Out")

/-! ## Random numbers -/

def randomAttrs (op : OpNode) : Except Slip Attrs := do
  let dtype ← ElementType.convert (op.attr "dtype")
  .ok [("high", op.attr "max"), ("dtype", dtype), ("low", op.attr "min"),
    ("seed", .float (← (op.attr "seed").toFloat))]

def randomLike : Rule := fun op => do
  discard <| nodeTo "RandomUniformLike" (op.input "Input") (← op.output "Out") (← randomAttrs op)

def random : Rule := fun op => do
  let shape ← op.outputShape "Out" 0
  discard <| nodeTo "RandomUniform" .none (← op.output "Out")
    ((← randomAttrs op) ++ [("shape", .tuple (shape.map .int))])

end ModelExport.Rules
