import ModelExport.Proofs.Evaluation
import ModelExport.Proofs.Tensors.Basic

/-!
# Proofs/Tensors/Nodes — what nodes compute

    Constant [2, 6]     Reshape x c     Add x y     Split x, three ways along the last axis

`operation` gives what a node computes from the tensors it reads, under a version of the operator set: before
version 10 ranges are attributes, before version 11 so are bounds, and before version 13 the axes to drop or
put in and the lengths of parts.  What single elements are and what is done to them, one by one or along an
axis, is left open (`Elements`), and so is which boxes are dropped because they overlap better ones.
-/

namespace ModelExport

open Emit

variable {τ : Type*}

/-- **What elements of tensors are.** -/
structure Elements (τ : Type*) where
  /-- The element that a value stands for in a constant of an element type. -/
  literal : Value → Value → τ
  /-- The extent of an axis as an element. -/
  extent : Nat → τ
  /-- The integer that an element is, in tensors that hold shapes and places. -/
  int? : τ → Option Int
  /-- What nodes do that work element by element. -/
  apply : String → Attrs → List τ → τ
  /-- What nodes do that work on the elements along an axis. -/
  rowwise : String → List τ → List τ := fun _ row => row
  /-- Is an element at most another? -/
  le : τ → τ → Bool := fun _ _ => true
  /-- What nodes choose that drop overlapping boxes. -/
  suppress : List (Tensor τ) → Option (Tensor τ) := fun _ => none

def Elements.sum (E : Elements τ) (ts : List τ) : τ :=
  ts.foldr (fun a b => E.apply "Add" [] [a, b]) (E.literal (.int ElementType.FLOAT) (.int 0))

/-- Integers can be read back. -/
structure Elements.Exact (E : Elements τ) : Prop where
  literal : ∀ n : Int, E.int? (E.literal (.int ElementType.INT64) (.int n)) = some n
  extent : ∀ n : Nat, E.int? (E.extent n) = some n

/-- Integers as elements, of which only their places and number matter. -/
def Elements.placeholder : Elements Int :=
  { literal := fun _ v => v.int?.getD 0, extent := Int.ofNat, int? := some, apply := fun _ _ _ => 0 }

theorem Elements.exact_placeholder : placeholder.Exact := ⟨fun _ => rfl, fun _ => rfl⟩

namespace Tensor

variable (E : Elements τ)

def ints? (t : Tensor τ) : Option (List Int) :=
  match t.shape with
  | [n] => (List.range n).mapM fun k => E.int? (t.entry [k])
  | _ => none

/-- The tensor that a constant describes. -/
def ofData (c : TensorData) : Option (Tensor τ) :=
  (c.dims.parts?.bind (·.mapM fun v => v.int?.bind Int.toNat?)).bind fun dims =>
    c.vals.parts?.bind fun vals =>
      if vals.length = dims.prod then
        some ⟨dims, fun i => E.literal c.type (vals.getD (Value.rowMajor dims i) .none)⟩
      else none

def extents (t : Tensor τ) : Tensor τ := ⟨[t.shape.length], fun i => E.extent (t.shape.getD (i.getD 0 0) 0)⟩

/-- **Elements of a tensor taken by their places along an axis**, which are themselves given by a tensor. -/
def gather (axis : Nat) (t places : Tensor τ) : Option (Tensor τ) :=
  (t.shape[axis]?).bind fun n => (places.elements.mapM fun e => (E.int? e).bind (place? n)).map fun ps =>
    ⟨t.shape.take axis ++ places.shape ++ t.shape.drop (axis + 1), fun i => t.entry (i.take axis ++
      ps.getD (Value.rowMajor places.shape ((i.drop axis).take places.shape.length)) 0 ::
        i.drop (axis + places.shape.length))⟩

/-- The places of the elements of a vector that are not zero, in a row. -/
def nonZero (t : Tensor τ) : Option (Tensor τ) :=
  match t.shape with
  | [n] =>
    let ps := (List.range n).filter fun k => E.int? (t.entry [k]) != some 0
    some ⟨[1, ps.length], fun i => E.extent (ps.getD (i.getD 1 0) 0)⟩
  | _ => none

/-- The places of the greatest elements of a vector, from the greatest on; of equal ones the first comes first. -/
def bestPlaces (t : Tensor τ) (size count : Nat) : List Nat :=
  ((List.range size).mergeSort fun a b => E.le (t.entry [b]) (t.entry [a])).take count

/-- **The greatest elements of a vector**, and their places. -/
def best (t : Tensor τ) (count : Nat) : Option (List (Tensor τ)) :=
  match t.shape with
  | [n] =>
    if count ≤ n then
      some [⟨[count], fun i => t.entry [(t.bestPlaces E n count).getD (i.getD 0 0) 0]⟩,
        ⟨[count], fun i => E.extent ((t.bestPlaces E n count).getD (i.getD 0 0) 0)⟩]
    else none
  | _ => none

end Tensor

/-- All elements of a tensor combined into one. -/
def Tensor.fold (f : τ → τ → τ) (t : Tensor τ) : Option (Tensor τ) :=
  match t.elements with
  | [] => none
  | e :: es => some ⟨[], fun _ => es.foldl f e⟩

/-! ## Single nodes -/

/-- The nodes that work element by element, and the number of their operands. -/
def elementwiseArity : List (String × Nat) :=
  [("Add", 2), ("Sub", 2), ("Mul", 2), ("Div", 2), ("Min", 2), ("Max", 2), ("Pow", 2), ("Mod", 2),
    ("Greater", 2), ("Sigmoid", 1), ("Exp", 1), ("Floor", 1), ("Cast", 1), ("Neg", 1)]

/-- The nodes that have several outputs. -/
def severalOutputs : List String := ["Split", "TopK"]

/-- The version from which on axes to drop or put in and lengths of parts are inputs. -/
def listInputFrom : Int := 13

/-- A list of integers among the attributes, which is none of them any more from that version on. -/
def listAttr (version : Int) (attrs : Attrs) (name : String) : Option (List Int) :=
  if version < listInputFrom then (Assoc.get? attrs name).bind Value.ints? else none

def axisAttr (rank : Nat) (attrs : Attrs) : Option Nat :=
  ((Assoc.get? attrs "axis").bind Value.int?).bind (place? rank)

/-- The axis that a node takes elements along, the first if it is not given. -/
def axisOrFirst (rank : Nat) (attrs : Attrs) : Option Nat :=
  if (Assoc.get? attrs "axis").isSome then axisAttr rank attrs else some 0

/-- The extents of the parts that a tensor is split into: those that are listed, or equal ones. -/
def partExtents (version : Int) (attrs : Attrs) (outputs size : Nat) : Option (List Nat) :=
  if (Assoc.get? attrs "split").isSome then (listAttr version attrs "split").bind (·.mapM Int.toNat?)
  else if outputs ∣ size then some (List.replicate outputs (size / outputs)) else none

/-- The order of axes that is asked for, the reverse one if there is none. -/
def axisOrder (rank : Nat) (attrs : Attrs) : Option (List Nat) :=
  match Assoc.get? attrs "perm" with
  | none => some (List.range rank).reverse
  | some perm => perm.ints?.bind (·.mapM Int.toNat?)

/-- Ranges along the first axes, step by step. -/
def frontCuts (starts stops : List Int) : List Cut :=
  Cut.ofLists ((List.range starts.length).map Int.ofNat) starts stops (List.replicate starts.length 1)

/-- Ranges along the given axes, step by step. -/
def axisCuts (axes starts stops : List Int) : Option (List Cut) :=
  if axes.length = starts.length ∧ starts.length = stops.length then
    some (Cut.ofLists axes starts stops (List.replicate starts.length 1))
  else none

def attrCuts (attrs : Attrs) : Option (List Cut) := do
  let axes ← (Assoc.get? attrs "axes").bind Value.ints?
  let starts ← (Assoc.get? attrs "starts").bind Value.ints?
  let stops ← (Assoc.get? attrs "ends").bind Value.ints?
  axisCuts axes starts stops

def inputCuts (E : Elements τ) (starts stops axes : Tensor τ) : Option (List Cut) := do
  axisCuts (← axes.ints? E) (← starts.ints? E) (← stops.ints? E)

def steppedCuts (E : Elements τ) (starts stops axes steps : Tensor τ) : Option (List Cut) := do
  let axes ← axes.ints? E
  let starts ← starts.ints? E
  let stops ← stops.ints? E
  let steps ← steps.ints? E
  if axes.length = starts.length ∧ starts.length = stops.length ∧ stops.length = steps.length then
    some (Cut.ofLists axes starts stops steps)
  else none

section Operations

variable (E : Elements τ) (version : Int)

/-- **What a node with one output computes.** -/
def resultOf (type : String) (attrs : Attrs) (ts : List (Tensor τ)) : Option (Tensor τ) :=
  if (type, ts.length) ∈ elementwiseArity then Tensor.pointwise (E.apply type attrs) ts
  else match type, ts with
    | "Constant", [] => Tensor.ofData E (Node.tensorOf "" attrs)
    | "Clip", [t] => if version < 11 then Tensor.pointwise (E.apply type attrs) [t] else none
    | "Clip", [t, lower, upper] =>
      if 11 ≤ version ∧ attrs = [] ∧ lower.shape = [] ∧ upper.shape = [] then
        Tensor.pointwise (E.apply type attrs) [t, lower, upper]
      else none
    | "Shape", [t] => some (t.extents E)
    | "Reshape", [t, dims] => (dims.ints? E).bind t.reshape
    | "Tile", [t, times] => ((times.ints? E).bind (·.mapM Int.toNat?)).bind t.tile
    | "Transpose", [t] => (axisOrder t.shape.length attrs).bind t.transpose
    | "Squeeze", [t] =>
      ((listAttr version attrs "axes").bind (·.mapM (place? t.shape.length))).bind t.squeeze
    | "Unsqueeze", [t] => (listAttr version attrs "axes").bind fun axes =>
      (axes.mapM (place? (t.shape.length + axes.length))).bind t.unsqueeze
    | "Concat", t :: ts => (axisAttr t.shape.length attrs).bind (Tensor.concat · (t :: ts))
    | "Flatten", [t] => (((Assoc.get? attrs "axis").bind Value.int?).bind Int.toNat?).bind t.flatten
    | "MatMul", [t, u] => t.matmul E.sum (fun a b => E.apply "Mul" [] [a, b]) u
    -- along the last axis all versions agree
    | "Softmax", [t] => (axisAttr t.shape.length attrs).bind fun axis =>
      if axis + 1 = t.shape.length then some (t.along (E.rowwise type) axis) else none
    | "Gather", [t, places] => (axisOrFirst t.shape.length attrs).bind fun axis => t.gather E axis places
    | "NonZero", [t] => t.nonZero E
    -- over all axes, none of which is kept
    | "ReduceMin", [t] =>
      if (Assoc.get? attrs "keepdims").bind Value.int? = some 0 ∧ (Assoc.get? attrs "axes").isNone then
        t.fold fun a b => E.apply "Min" [] [a, b]
      else none
    | "NonMaxSuppression", ts => if attrs = [] then E.suppress ts else none
    | "Slice", [t] => if version < 10 then (attrCuts attrs).bind t.slice else none
    | "Slice", [t, starts, stops, axes] =>
      if 10 ≤ version then (inputCuts E starts stops axes).bind t.slice else none
    | "Slice", [t, starts, stops, axes, steps] =>
      if 10 ≤ version then (steppedCuts E starts stops axes steps).bind t.slice else none
    | "Slice", [t, starts, stops] => (starts.ints? E).bind fun starts => (stops.ints? E).bind fun stops =>
      if 10 ≤ version ∧ starts.length = stops.length then t.slice (frontCuts starts stops) else none
    | _, _ => none

def partsOf (attrs : Attrs) (outputs : Nat) (t : Tensor τ) : Option (List (Tensor τ)) :=
  (axisAttr t.shape.length attrs).bind fun axis =>
    (partExtents version attrs outputs (t.shape.getD axis 0)).bind (t.split axis)

def bestOf (t count : Tensor τ) : Option (List (Tensor τ)) :=
  match (count.ints? E).bind (·.mapM Int.toNat?) with
  | some [n] => t.best E n
  | _ => none

def resultsOf (type : String) (attrs : Attrs) (outputs : Nat) (ts : List (Tensor τ)) : Option (List (Tensor τ)) :=
  match type, ts with
  | "Split", [t] => partsOf version attrs outputs t
  | "TopK", [t, count] => if attrs = [] ∧ 10 ≤ version then bestOf E t count else none
  | _, _ => none

/-- **What a node computes**: one tensor for each of its outputs. -/
def operation (type : String) (attrs : Attrs) (outputs : Nat) (ts : List (Tensor τ)) :
    Option (List (Tensor τ)) :=
  if type ∈ severalOutputs then resultsOf E version type attrs outputs ts
  else (resultOf E version type attrs ts).map ([·])

/-- The store after a node has run. -/
def Node.run (n : Node) (σ : Store (Option (Tensor τ))) : Option (Store (Option (Tensor τ))) := do
  let ts ← n.inputs.mapM σ
  let us ← operation E version n.type n.attrs n.outputs.length ts
  if us.length = n.outputs.length then some (σ.write n.outputs (us.map some)) else none

/-- **The store after nodes have run** in order. -/
def runNodes (ns : List Node) (σ : Store (Option (Tensor τ))) : Option (Store (Option (Tensor τ))) :=
  ns.foldlM (fun σ n => n.run E version σ) σ

end Operations

variable {E : Elements τ} {version : Int}

theorem resultOf_pointwise {type : String} {attrs : Attrs} {ts : List (Tensor τ)}
    (h : (type, ts.length) ∈ elementwiseArity) :
    resultOf E version type attrs ts = Tensor.pointwise (E.apply type attrs) ts := if_pos h

end ModelExport
