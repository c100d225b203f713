import ModelExport.Rules.Convolution

/-!
# Rules/Pooling — pooling windows

A pool has a fixed window, covers a whole plane, or adapts its windows to a wanted output size.  An
adaptive pool is converted when all its windows have one length (`sameSpan`); the window and stride
are then those of `adaptiveStride` and `adaptiveKernel`.
-/

namespace ModelExport.Rules

open Emit

/-- The node types of a kind of pool: with windows, and over the whole plane. -/
def poolTypes (kind : Value) : Except Slip (String × String) :=
  match kind with
  | .str "max" => .ok ("MaxPool", "GlobalMaxPool")
  | .str "avg" => .ok ("AveragePool", "GlobalAveragePool")
  | v => if v.isKey then .error .missingKey else .error .wrongKind

/-! ## Adaptive windows -/

def spansAgree (first last : Nat → Int) (m : Nat) : Bool :=
  match (List.range m).map fun i => last i - first i with
  | [] => false
  | d :: ds => ds.all (· == d)

def floorOf (x : Float) : Int :=
  match Binary.ofFloat x with
  | .finite negative m q => Binary.floor negative m q
  | _ => 0

def ceilOf (x : Float) : Int :=
  match Binary.ofFloat x with
  | .finite negative m q => Binary.ceil negative m q
  | _ => 0

/-- Have `m` windows that start a distance `q` apart one length? -/
def sameSpanBy (q : Float) (m : Nat) : Bool :=
  spansAgree (fun i => floorOf (Float.ofNat i * q)) (fun i => ceilOf (Float.ofNat (i + 1) * q)) m

/-- **Do `m` adaptive windows over `n` elements have one length?**  The quotient is a double. -/
def sameSpan (n m : Int) : Bool := sameSpanBy ((Binary.ofIntRatio? n m).getD 0.0) m.toNat

/-- The same for sizes of any kind; without windows the extent is not looked at. -/
def windowsAgree (size count : Value) : Except Slip Bool := do
  let m ← count.exact
  if m ≤ 0 then return false
  let q ← (← size.div (.int m)).toFloat
  if q.isNaN || q.isInf then .error .badValue else .ok (sameSpanBy q m.toNat)

def adaptiveStride (n m : Int) : Int := Int.tdiv n m

def adaptiveKernel (n m : Int) : Int := n - (m - 1) * adaptiveStride n m

def planeOf (shape : List Int) : Except Slip (Int × Int) :=
  match shape.drop 2 with
  | [h, w] => .ok (h, w)
  | _ => .error .badValue

/-- Averages count the padding unless it is excluded. -/
def averageAttrs (op : OpNode) : Attrs :=
  if (op.attr "pooling_type").same (.str "avg") then
    [("count_include_pad", .bool !(op.attr "exclusive").truthy)]
  else []

def adaptivePool : Rule := fun op => do
  let inputShape ← op.inputShape "X" 0
  requireStatic inputShape
  let (inH, inW) ← planeOf inputShape
  let outputShape ← op.outputShape "Out" 0
  let (outH, outW) ← planeOf outputShape
  if outH == 0 || outW == 0 then slip .zeroDivision
  if !sameSpan inH outH || !sameSpan inW outW then
    refuse (.adaptivePool (.tuple (inputShape.map .int)) (.tuple (outputShape.map .int)))
  let version ← opset
  let ceil := op.attr "ceil_mode"
  if ceil.truthy && version < 10 then refuse .adaptiveCeil
  let attrs : Attrs :=
    [("kernel_shape", .tuple [.int (adaptiveKernel inH outH), .int (adaptiveKernel inW outW)]),
      ("strides", .tuple [.int (adaptiveStride inH outH), .int (adaptiveStride inW outW)])] ++
    (if version > 10 then [("ceil_mode", ceil)] else []) ++
    paddingAttrs (op.attr "padding_algorithm") [] ++ averageAttrs op
  let (windowed, _) ← poolTypes (op.attr "pooling_type")
  discard <| nodeTo windowed (op.input "X") (← op.output "Out") attrs

/-! ## Fixed windows -/

/-- The window at a position, cut to the padded axis when it is longer. -/
def clampKernel (size : Int) (paddings kernel : Value) (i : Int) : Except Slip (Option Value) := do
  if size > 0 then
    let padded ← Value.add (.int size) (← paddings.nth i)
    if ← padded.lt (← kernel.nth i) then return some padded
  return none

/-- Cuts the window at a position, for this and later exports. -/
def clampAxis (size : Int) (paddings kernel : Value) (i : Int) : Emit Value := do
  match ← clampKernel size paddings kernel i with
  | none => return kernel
  | some padded =>
    let kernel ← kernel.set (.int i) padded
    editAttr "ksize" kernel
    return kernel

def fixedPool : Rule := fun op => do
  let inputShape ← op.inputShape "X" 0
  let paddings := op.attr "paddings"
  let kernel ← clampAxis (← memberAt inputShape 2) paddings (op.attr "ksize") 0
  let kernel ← clampAxis (← memberAt inputShape 3) paddings kernel 1
  let pads ← paddings.add paddings
  let version ← opset
  let ceil := op.attr "ceil_mode"
  if ceil.truthy && version < 10 then refuse .poolCeil
  let attrs : Attrs :=
    [("kernel_shape", kernel), ("strides", op.attr "strides"), ("pads", pads)] ++
    (if version ≥ 10 then [("ceil_mode", ceil)] else []) ++ averageAttrs op
  let (windowed, _) ← poolTypes (op.attr "pooling_type")
  discard <| nodeTo windowed (op.input "X") (← op.output "Out") attrs

def pool : Rule := fun op => do
  if (op.attr "global_pooling").truthy ||
      ((op.attr "adaptive").truthy && (op.attr "ksize").same (.ints [1, 1])) then
    let (_, whole) ← poolTypes (op.attr "pooling_type")
    discard <| nodeTo whole (op.input "X") (← op.output "Out")
  else if (op.attr "adaptive").truthy then adaptivePool op
  else fixedPool op

end ModelExport.Rules
