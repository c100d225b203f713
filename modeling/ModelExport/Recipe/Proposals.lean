import ModelExport.Recipe.Basic

/-!
# Recipe/Proposals — proposals of regions

`collectProposals` puts the best proposals of several levels together, `distributeProposals` sorts
proposals into levels by their size, and `generateProposals` makes proposals from anchors, moved by
predicted offsets.
-/

namespace ModelExport.Recipes

open Recipe

def rowCount (t : Value) : Recipe Value := do item (← call "paddle.shape" [t]) 0

def cappedRows (t limit : Value) : Recipe Value := do
  let rows ← rowCount t
  let cap ← assign (← ArrayData.of .int32 (.list [limit]))
  let both ← call "paddle.concat" [Value.list [rows, cap]]
  call "paddle.min" [both]

def best (t k : Value) : Recipe (Value × Value) := do
  match ← callMany 2 "paddle.topk" [t] [("k", k), ("axis", .int 0)] with
  | [scores, index] => return (scores, index)
  | _ => throw (.slip .badValue)

def rowsAt (t index : Value) : Recipe Value :=
  call "paddle.gather" [t, index] [("axis", .int 0)]

/-- **Puts the best proposals of all levels together.** -/
def collectProposals : RecipeRule := fun op t => .ok {
  attrs := op.attrs
  recipe := do
    let rois ← call "paddle.concat" [← t.op.readInput (.str "MultiLevelRois") .none]
      [("axis", .int 0)]
    let scores ← call "paddle.concat" [← t.op.readInput (.str "MultiLevelScores") .none]
      [("axis", .int 0)]
    let k ← cappedRows scores (op.attr "post_nms_topN")
    let (_, index) ← best scores k
    return [("FpnRois", [← rowsAt rois index])] }

/-! ## Levels -/

def boxAreas (boxes : Value) : Recipe Value := do
  let (xmin, ymin, xmax, ymax) ← quarters boxes [("axis", .int 1)]
  let width ← add (← sub xmax xmin) (.int 1)
  let height ← add (← sub ymax ymin) (.int 1)
  mul width height

def levelRows (boxes levels : Value) (level : Int) : Recipe (Value × Value) := do
  let wanted ← call "paddle.full_like" [levels] [("fill_value", .int level)]
  let hits ← call "paddle.equal" [levels, wanted]
  let hits ← call "paddle.squeeze" [hits] [("axis", .int 1)]
  let hits ← call "paddle.cast" [hits] [("dtype", .str "int32")]
  let index ← call "paddle.nonzero" [hits]
  return (← rowsAt boxes index, index)

def levelRowsAll (boxes levels : Value) : List Int → Recipe (List (Value × Value))
  | [] => return []
  | l :: ls => do
    let first ← levelRows boxes levels l
    return first :: (← levelRowsAll boxes levels ls)

def levelRange (low high : Int) : List Int :=
  (List.range (high + 1 - low).toNat).map fun (i : Nat) => low + i

/-- **Sorts proposals into levels by their size.** -/
def distributeProposals : RecipeRule := fun op t => .ok {
  attrs := op.attrs
  recipe := do
    let low := op.attr "min_level"
    let high := op.attr "max_level"
    let boxes ← t.input "FpnRois"
    let scale ← call "paddle.sqrt" [← boxAreas boxes]
    discard <| add (← sub high low) (.int 1)
    let ratio ← add (← div scale (op.attr "refer_scale")) (.float 1e-6)
    let levels ← div (← call "paddle.log" [ratio]) (.float (Float.log 2.0))
    let levels ← call "paddle.floor" [← add (op.attr "refer_level") levels]
    let levels ← call "paddle.clip" [levels] [("min", low), ("max", high)]
    let rows ← levelRowsAll boxes levels (levelRange (← low.exact) (← high.exact))
    let order ← call "paddle.concat" [Value.list (rows.map Prod.snd)] [("axis", .int 0)]
    let size ← rowCount order
    let restored ← callMany 2 "paddle.topk" [order]
      [("axis", .int 0), ("sorted", .bool true), ("largest", .bool false), ("k", size)]
    return [("MultiFpnRois", rows.map Prod.fst), ("RestoreIndex", restored.drop 1)] }

/-! ## Proposals from anchors -/

/-- The greatest logarithm of a change in size. -/
def sizeBound : Value := .float (Float.log (1000.0 / 16.0))

/-- A side of a proposal: the side of the anchor, scaled by the bounded offset. -/
def scaledSide (variance delta side : Value) : Recipe Value := do
  let change ← call "paddle.clip" [← mul variance delta] [("max", sizeBound)]
  mul (← call "paddle.exp" [change]) side

/-- **Anchors moved by offsets.** -/
def moveAnchors (boxes deltas variances : Value) : Recipe Value := do
  let (xmin, ymin, xmax, ymax) ← quarters boxes [("axis", .int 1)]
  let width ← add (← sub xmax xmin) (.float 1.0)
  let height ← add (← sub ymax ymin) (.float 1.0)
  let centreX ← add xmin (← mul (.float 0.5) width)
  let centreY ← add ymin (← mul (.float 0.5) height)
  let (varX, varY, varWidth, varHeight) ← quarters variances [("axis", .int 1)]
  let (deltaX, deltaY, deltaWidth, deltaHeight) ← quarters deltas [("axis", .int 1)]
  let x ← add (← mul (← mul varX deltaX) width) centreX
  let y ← add (← mul (← mul varY deltaY) height) centreY
  let w ← scaledSide varWidth deltaWidth width
  let h ← scaledSide varHeight deltaHeight height
  let left ← sub x (← div w (.int 2))
  let top ← sub y (← div h (.int 2))
  let right ← sub (← add x (← div w (.int 2))) (.int 1)
  let bottom ← sub (← add y (← div h (.int 2))) (.int 1)
  call "paddle.concat" [Value.list [left, top, right, bottom]] [("axis", .int 1)]

def withinImage (x extent : Value) : Recipe Value := do
  call "paddle.clip" [x] [("max", ← sub extent (.int 1)), ("min", .int 0)]

def boxesWithin (w h boxes : Value) : Recipe Value := do
  let (xmin, ymin, xmax, ymax) ← quarters boxes [("axis", .int 1)]
  let xmin ← withinImage xmin w
  let ymin ← withinImage ymin h
  let xmax ← withinImage xmax w
  let ymax ← withinImage ymax h
  call "paddle.concat" [Value.list [xmin, ymin, xmax, ymax]] [("axis", .int 1)]

/-- The numbers of the boxes that are large enough and have their centre in the image. -/
def largeBoxes (boxes w h scale least : Value) : Recipe Value := do
  let least ← least.maximum (.float 1.0)
  let (xmin, ymin, xmax, ymax) ← quarters boxes [("axis", .int 1)]
  let centreX ← add (← div (← add xmax xmin) (.int 2)) (.float 0.5)
  let centreY ← add (← div (← add ymax ymin) (.int 2)) (.float 0.5)
  let widths ← add (← div (← sub xmax xmin) scale) (.int 1)
  let heights ← add (← div (← sub ymax ymin) scale) (.int 1)
  let least ← assign (← ArrayData.of .float32 (.list [least]))
  let wide ← call "paddle.greater_equal" [widths, least]
  let high ← call "paddle.greater_equal" [heights, least]
  let insideX ← call "paddle.less_equal" [centreX, w]
  let insideY ← call "paddle.less_equal" [centreY, h]
  let valid ← call "paddle.logical_and" [wide, high]
  let valid ← call "paddle.logical_and" [valid, insideX]
  let valid ← call "paddle.logical_and" [valid, insideY]
  let valid ← call "paddle.squeeze" [valid] [("axis", .int 1)]
  call "paddle.nonzero" [valid]

/-- A row of zeros after the last one, so that there is always one to choose. -/
def withTail (holders : List (String × Int)) (t : Value) (width : Int) : Recipe Value := do
  call "paddle.zeros" [] [("shape", .ints [1, width]), ("dtype", ← elementType holders t)]

def imageProposals (op : OpNode) (holders : List (String × Int))
    (anchors deltas info scores variances : Value) : Recipe (Value × Value) := do
  let k ← cappedRows scores (op.attr "pre_nms_topN")
  let (scores, index) ← best scores k
  let deltas ← rowsAt deltas index
  let anchors ← rowsAt anchors index
  let variances ← rowsAt variances index
  let boxes ← moveAnchors anchors deltas variances
  let (h, w, scale) ← thirds info [("axis", .int 1), ("num_or_sections", .int 3)]
  let boxes ← boxesWithin w h boxes
  let kept ← largeBoxes boxes w h scale (op.attr "min_size")
  let tailBox ← withTail holders boxes 4
  let rows ← rowCount boxes
  let tailKept ← call "paddle.reshape" [rows] [("shape", .ints [1, 1])]
  let tailKept ← call "paddle.cast" [tailKept] [("dtype", ← elementType holders kept)]
  let tailScore ← withTail holders scores 1
  let boxes ← call "paddle.concat" [Value.list [boxes, tailBox]]
  let kept ← call "paddle.concat" [Value.list [kept, tailKept]]
  let scores ← call "paddle.concat" [Value.list [scores, tailScore]]
  let boxes ← rowsAt boxes kept
  let scores ← rowsAt scores kept
  let boxes ← call "paddle.unsqueeze" [boxes] [("axis", .int 0)]
  let scores ← call "paddle.transpose" [scores] [("perm", .ints [1, 0])]
  let scores ← call "paddle.unsqueeze" [scores] [("axis", .int 0)]
  let out ← call "paddle.fluid.layers.multiclass_nms" [boxes, scores]
    [("background_label", .int (-1)), ("nms_top_k", op.attr "pre_nms_topN"),
      ("score_threshold", .float (-1.0)), ("keep_top_k", op.attr "post_nms_topN"),
      ("nms_threshold", op.attr "nms_thresh"), ("normalized", .bool false),
      ("nms_eta", op.attr "eta")]
  let (_, scores, boxes) ← thirds out [("axis", .int 1), ("num_or_sections", .ints [1, 1, 4])]
  return (scores, boxes)

/-- **Makes proposals from anchors.** -/
def generateProposals : RecipeRule := fun op t => .ok {
  attrs := op.attrs
  recipe := do
    let anchors ← t.input "Anchors"
    let deltas ← t.input "BboxDeltas"
    let info ← t.input "ImInfo"
    let scores ← t.input "Scores"
    let variances ← t.input "Variances"
    let last : Attrs := [("perm", .ints [0, 2, 3, 1])]
    let deltas ← call "paddle.transpose" [deltas] last
    let deltas ← call "paddle.reshape" [deltas, Value.ints [-1, 4]]
    let scores ← call "paddle.transpose" [scores] last
    let scores ← call "paddle.reshape" [scores, Value.ints [-1, 1]]
    let anchors ← call "paddle.reshape" [anchors, Value.ints [-1, 4]]
    let variances ← call "paddle.reshape" [variances, Value.ints [-1, 4]]
    let (scores, boxes) ← imageProposals op t.holders anchors deltas info scores variances
    return [("RpnRoiProbs", [scores]), ("RpnRois", [boxes])] }

end ModelExport.Recipes
