import ModelExport.Recipe.Basic

/-!
# Recipe/Boxes — clipped boxes and anchors

`clipBoxes` brings boxes into their image.  `anchors` places boxes of several sizes and ratios at
every position of a feature map; `anchorShapes` calculates their corners relative to the centre.
-/

namespace ModelExport.Recipes

open Recipe

/-! ## Clipping -/

def between (x upper zero : Value) : Recipe Value := do
  call "paddle.maximum" [← call "paddle.minimum" [x, upper], zero]

/-- **Brings boxes into their image.** -/
def clipBoxes : RecipeRule := fun op t => .ok {
  attrs := op.attrs
  recipe := do
    let input ← t.input "Input"
    let info ← call "paddle.reshape" [← t.input "ImInfo"] [("shape", .ints [3])]
    let (h, w, _) ← thirds info [("axis", .int 0), ("num_or_sections", .int 3)]
    let number (x : Float) : Attrs :=
      [("shape", .ints [1]), ("dtype", .str "float32"), ("fill_value", .float x)]
    let one ← call "paddle.full" [] (number 1.0)
    let zero ← call "paddle.full" [] (number 0.0)
    let h ← call "paddle.subtract" [h, one]
    let w ← call "paddle.subtract" [w, one]
    let (xmin, ymin, xmax, ymax) ← quarters input [("axis", .int (-1))]
    let xmin ← between xmin w zero
    let ymin ← between ymin h zero
    let xmax ← between xmax w zero
    let ymax ← between ymax h zero
    let boxes ← call "paddle.concat" [Value.list [xmin, ymin, xmax, ymax]] [("axis", .int (-1))]
    return [("Output", [boxes])] }

/-! ## Anchors -/

/-- The corners of an anchor relative to its centre. -/
def anchorShape (ratio size strideX strideY : Value) : Except Slip (List Float) := do
  let area ← (← strideX.mul strideY).div ratio
  let r ← (← ratio.number).toFloat
  let baseWidth := ((← (← area.number).toFloat).sqrt + 0.5).floor
  let baseHeight := (baseWidth * r + 0.5).floor
  let w := (← (← (← size.div strideX).number).toFloat) * baseWidth
  let h := (← (← (← size.div strideY).number).toFloat) * baseHeight
  .ok [-0.5 * (w - 1.0), -0.5 * (h - 1.0), 0.5 * (w - 1.0), 0.5 * (h - 1.0)]

/-- The corners of all anchors: every size for every ratio. -/
def anchorShapes (ratios sizes strides : Value) : Except Slip (List (List Float)) := do
  let rows ← (← ratios.members).mapM fun ratio => do
    (← sizes.members).mapM fun size => do
      anchorShape ratio size (← strides.nth 0) (← strides.nth 1)
  .ok rows.flatten

def positions (extent type : Value) : Recipe Value :=
  call "paddle.arange" []
    [("start", .int 0), ("end", extent), ("step", .int 1), ("dtype", type)]

/-- Positions scaled by the stride and moved to the centre. -/
def centres (places stride offset : Value) : Recipe Value := do
  let scaled ← mul places stride
  add scaled (← mul offset (← sub stride (.int 1)))

/-- **Anchors at every position of a feature map**, with their variances. -/
def anchors : RecipeRule := fun op t => do
  let strides := op.attr "stride"
  let shapes ← (anchorShapes (op.attr "aspect_ratios") (op.attr "anchor_sizes") strides).mapError
    .slip
  let count : Value := .int shapes.length
  .ok {
    attrs := op.attrs
    recipe := do
      let input ← t.input "Input"
      let shape ← call "paddle.shape" [input]
      let (_, _, h, w) ← quarters shape []
      let type ← elementType t.holders input
      let x ← positions w type
      let y ← positions h type
      let x ← centres x (← strides.nth 0) (op.attr "offset")
      let y ← centres y (← strides.nth 1) (op.attr "offset")
      let one ← call "paddle.ones" [] [("shape", .ints [1]), ("dtype", .str "int64")]
      let number ← call "paddle.full" []
        [("shape", .ints [1]), ("fill_value", count), ("dtype", .str "int64")]
      let flat : Attrs := [("shape", .tuple [.int 1, .int (-1)])]
      let x ← call "paddle.reshape" [x] flat
      let y ← call "paddle.reshape" [y] flat
      let x ← call "paddle.tile" [x] [("repeat_times", .tuple [h, one])]
      let y ← call "paddle.tile" [y] [("repeat_times", .tuple [w, one])]
      let y ← call "paddle.transpose" [y] [("perm", .ints [1, 0])]
      let c ← call "paddle.stack" [Value.list [x, y]] [("axis", .int (-1))]
      let c ← call "paddle.tensor.unsqueeze" [c] [("axis", .ints [2])]
      let c ← call "paddle.tile" [c]
        [("repeat_times", .tuple [.int 1, .int 1, count, .int 2])]
      let corners ← assign (← ArrayData.of .float32
        (.list (shapes.map fun row => .list (row.map .float))))
      let boxes ← add c corners
      let variances ← assign (← ArrayData.of .float32 (op.attr "variances"))
      let variances ← call "paddle.reshape" [variances] [("shape", .ints [1, 1, 1, -1])]
      let variances ← call "paddle.tile" [variances]
        [("repeat_times", .tuple [h, w, number, one])]
      return [("Anchors", [boxes]), ("Variances", [variances])] }

end ModelExport.Recipes
