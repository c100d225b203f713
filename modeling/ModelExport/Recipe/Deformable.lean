import ModelExport.Recipe.Basic
import ModelExport.Requirement

/-!
# Recipe/Deformable — deformable convolution

A deformable convolution reads its input at shifted positions.  The recipe samples the padded input
at the four integer corners around each position, mixes the samples bilinearly, lays the mixed
samples out kernel by kernel and convolves the result with a stride of the kernel size.
-/

namespace ModelExport.Recipes

open Recipe

/-- What a deformable convolution has settled before it is spelled out. -/
structure Deformable where
  channels : Int
  offsetChannels : Int
  stride : Value
  padding : Value
  groups : Value
  dilation : Value
  /-- The padded input size, negative or a tensor when it is not known. -/
  height : Value
  width : Value
  kernel : Int

namespace Deformable

def taps (d : Deformable) : Int := d.kernel * d.kernel

/-! ## Preparation -/

def require (op : OpNode) : Except Fault Unit := do
  let sides : Value := .tuple [.int 0, .int 1]
  requireDims (op.attr "strides") sides (.str "strides") (.str "equal")
  requireDims (op.attr "paddings") sides (.str "paddings") (.str "equal")
  let offset ← (op.inputShape "Offset" 0).mapError .slip
  requireDims (.tuple (offset.map .int)) (.tuple [.int 2, .int 3]) (.str "Offset") (.str "equal")
  requireAttr (op.attr "deformable_groups") (.int 1) (.str "deformable_groups") (.str "equal")

/-- Two paddings stand for both ends of both axes. -/
def allPaddings (paddings : Value) : Except Slip Value := do
  if (← paddings.length) == 2 then paddings.add paddings else .ok paddings

def padded (size : Int) (padding : Value) (i j : Int) : Except Slip Value := do
  if size > 0 then (← Value.add (.int size) (← padding.nth i)).add (← padding.nth j)
  else .ok (.int size)

def settle (op : OpNode) : Except Slip Deformable := do
  let channels ← memberAt (← op.inputShape "Input" 0) 1
  let offsetChannels ← memberAt (← op.inputShape "Offset" 0) 1
  let stride ← (op.attr "strides").nth 0
  let padding ← allPaddings (op.attr "paddings")
  let dilation ← (op.attr "dilations").nth 0
  let height ← memberAt (← op.inputShape "Input" 0) 2
  let width ← memberAt (← op.inputShape "Input" 0) 3
  let height ← padded height padding 0 1
  let width ← padded width padding 2 3
  let kernel ← memberAt (← op.inputShape "Filter" 0) 2
  discard <| memberAt (← op.inputShape "Filter" 0) 0
  .ok { channels, offsetChannels, stride, padding, groups := op.attr "groups", dilation, height,
        width, kernel }

/-! ## Parts of tensors -/

/-- Everything along the first axes, and a part of the last one. -/
def lastAxis (leading : Nat) (t start stop : Value) : Recipe Value :=
  call "Tensor.getitem" [t, .slices (List.replicate leading (.none, .none) ++ [(start, stop)])]

def rows (d : Deformable) (t : Value) : Recipe Value := lastAxis 3 t .none (.int d.taps)

def columns (d : Deformable) (t : Value) : Recipe Value := lastAxis 3 t (.int d.taps) .none

def joined (a b : Value) : Recipe Value :=
  call "paddle.concat" [Value.list [a, b]] [("axis", .int (-1))]

/-! ## Positions -/

def steps (stop step : Value) : Recipe Value :=
  call "paddle.arange" [Value.int 0, stop] [("step", step), ("dtype", .str "float32")]

def tapRange (d : Deformable) : Recipe Value := do
  let gap ← d.dilation.sub (.int 1)
  let stop ← Value.add (.int d.kernel) (← Value.mul (.int (d.kernel - 1)) gap)
  steps stop d.dilation

def tapGrid (d : Deformable) : Recipe Value := do
  let x ← call "Tensor.unsqueeze" [← tapRange d, Value.int 1]
  let x ← call "paddle.tile" [x, Value.ints [1, d.kernel]]
  let y ← call "Tensor.unsqueeze" [← tapRange d, Value.int 0]
  let y ← call "paddle.tile" [y, Value.ints [d.kernel, 1]]
  let x ← call "paddle.reshape" [x, Value.ints [-1]]
  let y ← call "paddle.reshape" [y, Value.ints [-1]]
  let grid ← call "paddle.concat" [Value.list [x, y], Value.int (-1)]
  call "paddle.reshape" [grid, Value.tuple [.int 1, .int (2 * d.taps), .int 1, .int 1]]

/-- The positions of the kernel along one axis, spread over the plane. -/
def kernelRange (d : Deformable) (shape : Value) (axis place : Int) : Recipe Value := do
  let range ← steps (← mul (← item shape axis) d.stride) d.stride
  let line ← call "Tensor.unsqueeze" [range, Value.int place]
  call "paddle.expand" [line, ← rest shape 2]

/-- The positions along one axis, once for each tap. -/
def perTap (d : Deformable) (plane : Value) : Recipe Value := do
  let plane ← call "Tensor.unsqueeze" [plane, Value.ints [0, 1]]
  call "paddle.tile" [plane, Value.tuple [.int 1, .int d.taps, .int 1, .int 1]]

/-- **The positions at which the input is read**: offset, kernel and tap together. -/
def coordinates (d : Deformable) (offset shape : Value) : Recipe Value := do
  let grid ← tapGrid d
  let x ← kernelRange d shape 2 1
  let y ← kernelRange d shape 3 0
  let x ← perTap d x
  let y ← perTap d y
  let kernel ← call "paddle.concat" [Value.list [x, y], Value.int 1]
  let moved ← add offset (← call "paddle.cast" [kernel, Value.str "float32"])
  add moved (← call "paddle.cast" [grid, Value.str "float32"])

/-- Coordinates brought into the padded input. -/
def clipped (d : Deformable) (t : Value) : Recipe Value := do
  let x ← rows d t
  let x ← call "paddle.clip" [x, Value.int 0, ← sub d.height (.int 1)]
  let y ← columns d t
  let y ← call "paddle.clip" [y, Value.int 0, ← sub d.width (.int 1)]
  joined x y

def clippedWhole (d : Deformable) (t : Value) : Recipe Value := do
  call "paddle.cast" [← clipped d t] [("dtype", .str "int64")]

structure Corners where
  leftTop : Value
  rightBottom : Value
  leftBottom : Value
  rightTop : Value

/-- The rows of one corner with the columns of another. -/
def crossed (d : Deformable) (a b : Value) : Recipe Value := do
  let x ← rows d a
  let y ← columns d b
  joined x y

def corners (d : Deformable) (t : Value) : Recipe Corners := do
  let low ← call "Tensor.floor" [t]
  let high ← add low (.int 1)
  let leftTop ← clippedWhole d low
  let rightBottom ← clippedWhole d high
  let leftBottom ← crossed d leftTop rightBottom
  let rightTop ← crossed d rightBottom leftTop
  return { leftTop, rightBottom, leftBottom, rightTop }

/-! ## Weights and samples -/

def single (t : Value) : Recipe Value := call "paddle.cast" [t] [("dtype", .str "float32")]

/-- The weight of a corner along the rows: one plus or minus the distance. -/
def rowWeight (d : Deformable) (plus : Bool) (corner t : Value) : Recipe Value := do
  let distance ← sub (← single (← rows d corner)) (← rows d t)
  if plus then add (.int 1) distance else sub (.int 1) distance

def columnWeight (d : Deformable) (plus : Bool) (corner t : Value) : Recipe Value := do
  let place ← single (← columns d corner)
  if plus then
    let raised ← add (.int 1) place
    sub raised (← columns d t)
  else
    let distance ← sub place (← columns d t)
    sub (.int 1) distance

def weight (d : Deformable) (plusRow plusColumn : Bool) (corner t : Value) : Recipe Value := do
  let x ← rowWeight d plusRow corner t
  let y ← columnWeight d plusColumn corner t
  mul x y

/-- **The input at the coordinates of a corner.** -/
def sampled (d : Deformable) (input corner h w : Value) : Recipe Value := do
  let flat ← call "paddle.reshape" [input, Value.ints [0, 0, -1]]
  let row ← mul (← rows d corner) d.width
  let row ← call "paddle.cast" [row] [("dtype", .str "int64")]
  let index ← add row (← columns d corner)
  let index ← call "paddle.unsqueeze" [index, Value.int 1]
  let index ← call "paddle.tile" [index, Value.ints [1, d.channels, 1, 1, 1]]
  let index ← call "paddle.reshape" [index, Value.tuple [.int 0, .int 0, .int (-1)]]
  let swap : Attrs := [("perm", .ints [2, 1, 0])]
  let flat ← call "paddle.transpose" [flat] swap
  let index ← call "paddle.transpose" [index] swap
  let flatShape ← call "paddle.fluid.layers.shape" [flat]
  let indexShape ← call "paddle.fluid.layers.shape" [index]
  let size ← call "paddle.prod" [← rest flatShape 1] [("keepdim", .bool true)]
  let elements ← call "paddle.reshape" [flat, Value.ints [-1]]
  let places ← call "paddle.reshape" [index, Value.ints [-1]]
  let places ← mul places size
  let bias ← call "paddle.arange" []
    [("start", .int 0), ("end", size), ("step", .int 1), ("dtype", .str "float32")]
  let bias ← call "paddle.tile" [bias, ← item indexShape 0]
  let places ← add places bias
  let taken ← call "paddle.gather" [elements, places]
  let taken ← call "paddle.reshape" [taken, ← call "paddle.fluid.layers.shape" [index]]
  let taken ← call "paddle.transpose" [taken] swap
  call "paddle.reshape" [taken, Value.tuple [.int (-1), .int d.channels, h, w, .int d.taps]]

def weighted (factor sample : Value) : Recipe Value := do
  mul (← call "paddle.unsqueeze" [factor, Value.int 1]) sample

/-! ## Layout -/

/-- Where the rows of the kernel begin among its taps; a kernel without size has no such rows. -/
def kernelRows (d : Deformable) : Except Slip (List Int) :=
  if d.kernel == 0 then .error .badValue
  else if d.kernel < 0 then .ok []
  else .ok ((List.range d.kernel.toNat).map fun (i : Nat) => i * d.kernel)

def kernelParts (d : Deformable) (samples h w : Value) : List Int → Recipe (List Value)
  | [] => return []
  | s :: ss => do
    let part ← lastAxis 4 samples (.int s) (.int (s + d.kernel))
    let wide ← mul w (.int d.kernel)
    let part ← call "paddle.reshape" [part, Value.tuple [.int (-1), .int d.channels, h, wide]]
    return part :: (← kernelParts d samples h w ss)

/-- **The samples laid out kernel by kernel.** -/
def laidOut (d : Deformable) (samples h w : Value) : Recipe Value := do
  let parts ← kernelParts d samples h w (← kernelRows d)
  let joined ← call "paddle.concat" [Value.list parts] [("axis", .int (-1))]
  let high ← mul h (.int d.kernel)
  let wide ← mul w (.int d.kernel)
  call "paddle.reshape" [joined, Value.tuple [.int (-1), .int d.channels, high, wide]]

/-! ## The recipe -/

def masked (d : Deformable) (mask samples : Value) : Recipe Value := do
  if mask.isNone then return samples
  let mask ← call "paddle.transpose" [mask, Value.tuple [.int 0, .int 2, .int 3, .int 1]]
  let mask ← call "paddle.unsqueeze" [mask, Value.int 1]
  let mask ← call "paddle.tile" [mask, Value.ints [1, d.channels, 1, 1, 1]]
  mul samples mask

/-- The padded size as tensors when part of it is not known. -/
def withSize (d : Deformable) (shape : Value) : Recipe Deformable := do
  if (← d.height.lt (.int 0)) || (← d.width.lt (.int 0)) then
    let height ← item shape 2
    let width ← item shape 3
    return { d with height, width }
  else return d

/-- Every other channel of the offsets. -/
def offsetPart (d : Deformable) (offset : Value) (first : Int) : Recipe Value :=
  call "paddle.strided_slice" [offset]
    [("axes", .ints [1]), ("starts", .ints [first]), ("ends", .ints [d.offsetChannels]),
      ("strides", .ints [2])]

/-- **Samples, mixes and convolves.** -/
def recipe (d : Deformable) (t : Template) : Recipe (List (String × List Value)) := do
  let input ← t.input "Input"
  let filter ← t.input "Filter"
  let mask ← t.input "Mask"
  let offset ← t.input "Offset"
  let input ← call "paddle.fluid.layers.pad2d" [input, d.padding]
  let d ← withSize d (← call "paddle.shape" [input])
  let offsetX ← offsetPart d offset 0
  let offsetY ← offsetPart d offset 1
  let offset ← call "paddle.concat" [Value.list [offsetX, offsetY]] [("axis", .int 1)]
  let shape ← call "paddle.shape" [offset]
  let h ← item shape 2
  let w ← item shape 3
  let places ← coordinates d offset shape
  let places ← call "Tensor.transpose" [places, Value.tuple [.int 0, .int 2, .int 3, .int 1]]
  let c ← corners d places
  let places ← clipped d places
  let weightLT ← weight d true true c.leftTop places
  let weightRB ← weight d false false c.rightBottom places
  let weightLB ← weight d true false c.leftBottom places
  let weightRT ← weight d false true c.rightTop places
  let sampleLT ← sampled d input c.leftTop h w
  let sampleRB ← sampled d input c.rightBottom h w
  let sampleLB ← sampled d input c.leftBottom h w
  let sampleRT ← sampled d input c.rightTop h w
  let mixed ← weighted weightLT sampleLT
  let mixed ← add mixed (← weighted weightRB sampleRB)
  let mixed ← add mixed (← weighted weightLB sampleLB)
  let mixed ← add mixed (← weighted weightRT sampleRT)
  let mixed ← masked d mask mixed
  let plane ← laidOut d mixed h w
  let out ← call "paddle.nn.functional.conv2d" [plane, filter]
    [("stride", .int d.kernel), ("groups", d.groups)]
  return [("Output", [out])]

end Deformable

/-- **Deformable convolution.**  Two paddings given as a sequence are completed in the operator. -/
def deformableConvolution : RecipeRule := fun op t => do
  Deformable.require op
  let d ← (Deformable.settle op).mapError .slip
  .ok { attrs := if (op.attr "paddings").isList then Assoc.insert op.attrs "paddings" d.padding
          else op.attrs
        recipe := d.recipe t }

end ModelExport.Recipes
