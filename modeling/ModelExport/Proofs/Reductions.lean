import ModelExport.Proofs.Emission.Asked
import ModelExport.Proofs.Evaluation
import ModelExport.Proofs.Repetition.Attributes

/-!
# Proofs/Reductions — the axes that are reduced, and the shape that is left

    dims      [3, 10, 1]
    dim       [0]           dropped   [10, 1]         kept   [1, 10, 1]
    all       [0, 1, 2]     dropped   [] as [1]       kept   [1, 1, 1]

A program reduces the axes that `dim` names, or every axis under `reduce_all`; a node of a model reduces
the axes of its attribute, or every axis when there are none.  What is emitted for a reduction does what
the program does exactly under the conditions of `reduction_done_iff`.
-/

namespace ModelExport

open Emit List Rules

/-! ## Shape rules of nodes -/

def reducedShape (reduced : Nat → Bool) (keep : Bool) (dims : List Int) : List Int :=
  dims.zipIdx.flatMap fun e => if reduced e.2 then (if keep then [1] else []) else [e.1]

def unsqueezedShape (axes dims : List Int) : Option (List Int) :=
  let places := axes.map (place? (dims.length + axes.length))
  if places.Nodup ∧ none ∉ places then
    some (((places.filterMap id).mergeSort).foldl (fun ds k => ds.insertIdx k 1) dims)
  else none

/-- The version from which on nodes of a type take their axes as an input, and not as an attribute. -/
def axesInputFrom (type : String) : Int := if type = "ReduceSum" ∨ type = "Unsqueeze" then 13 else 18

/-- The reductions of programs, and the nodes for them. -/
def reductions : List (String × String) :=
  [("reduce_mean", "ReduceMean"), ("reduce_sum", "ReduceSum"), ("reduce_min", "ReduceMin"),
    ("reduce_max", "ReduceMax"), ("reduce_prod", "ReduceProd")]

namespace Node

def isReduction (n : Node) : Bool := (reductions.map Prod.snd).contains n.type

def axes? (version : Int) (n : Node) : Option (List Int) :=
  if version < axesInputFrom n.type then (n.attr "axes").ints? else none

/-- **The axes that a node reduces**: those it names, which must be there, or all when it names none. -/
def reduced? (version : Int) (rank : Nat) (n : Node) : Option (List Nat) := do
  let axes ← n.axes? version
  if axes = [] then some (List.range rank)
  else if ∀ a ∈ axes, (place? rank a).isSome then some (axes.filterMap (place? rank))
  else none

/-- **The shape of a node's output**, from the shapes of its inputs. -/
def shape (version : Int) (n : Node) : List (Option (List Int)) → Option (List Int)
  | [some dims] =>
    if n.isReduction then
      (n.reduced? version dims.length).map fun axes =>
        reducedShape (axes.contains ·) (n.attr "keepdims").truthy dims
    else if n.type = "Unsqueeze" then (n.axes? version).bind fun axes => unsqueezedShape axes dims
    else none
  | _ => none

end Node

/-- Nodes as functions of shapes. -/
def Kernel.shapes (version : Int) (ns : List Node) : Kernel (Option (List Int)) :=
  fun i shapes _ => ns[i]?.bind fun n => n.shape version shapes

/-- **The shape that a tensor ends with**, when nodes start from one tensor. -/
def shapeAfter (version : Int) (ns : List Node) (x : String) (dims : List Int) (y : String) :
    Option (List Int) :=
  (Access.evaluate (.shapes version ns) 0 (Store.put (fun _ => none) (.str x) (some dims))
    (ns.map Node.access)).2 (.str y)

/-! ## Reductions of programs -/

/-- **A reduction of a program.** -/
structure Reduction where
  dims : List Int
  axes : List Int
  keep : Bool
  all : Bool
  dims_ne_nil : dims ≠ []
  axes_valid : ∀ a ∈ axes, -(dims.length : Int) ≤ a ∧ a < dims.length

namespace Reduction

variable (r : Reduction)

def rank : Nat := r.dims.length

def lists (k : Nat) : Bool := r.axes.any fun a => place? r.rank a == some k

/-- **Is an axis reduced?** -/
def reduces (k : Nat) : Bool := r.all || r.lists k

def left : List Int := reducedShape r.reduces r.keep r.dims

/-- **The shape of the result**: a single element has one axis. -/
def shape : List Int := if r.left = [] then [1] else r.left

/-- **Nodes that do the reduction**: one of them reduces the tensor, along the same axes, and the result has
the shape of the program. -/
structure DoneBy (version : Int) (type x y : String) (ns : List Node) : Prop where
  once : ∃ n axes, ns.filter Node.isReduction = [n] ∧ n.type = type ∧ n.inputs = [.str x] ∧
    n.reduced? version r.rank = some axes ∧ ∀ k < r.rank, k ∈ axes ↔ r.reduces k = true
  shape_eq : shapeAfter version ns x r.dims y = some r.shape

end Reduction

/-- **An operator that reduces a tensor** as described. -/
structure OpNode.Reduces (op : OpNode) (x y : String) (r : Reduction) : Prop
    extends op.Links "X" x y r.dims r.shape where
  dim : op.attr "dim" = .ints r.axes
  keep_dim : op.attr "keep_dim" = .bool r.keep
  reduce_all : op.attr "reduce_all" = .bool r.all

/-! ## Shapes of emitted nodes -/

theorem reducedShape_congr {p q : Nat → Bool} {dims : List Int} (h : ∀ k < dims.length, p k = q k)
    (keep : Bool) : reducedShape p keep dims = reducedShape q keep dims := by
  refine flatMap_congr fun e he => ?_
  rw [h e.2 (snd_lt_of_mem_zipIdx he)]

theorem reducedShape_keep_ne_nil (p : Nat → Bool) {dims : List Int} (h : dims ≠ []) :
    reducedShape p true dims ≠ [] := by
  intro hnil
  obtain ⟨d, ds, rfl⟩ := exists_cons_of_ne_nil h
  have hfirst := flatMap_eq_nil_iff.1 hnil (d, 0) mem_cons_self
  by_cases hp : p 0 = true <;> simp [hp] at hfirst

theorem unsqueezedShape_front (dims : List Int) : unsqueezedShape [0] dims = some (1 :: dims) := by
  have hplace : place? (dims.length + 1) 0 = some 0 := by simp [place?]
  simp [unsqueezedShape, hplace]

section Shapes

variable {version : Int} {n m : Node} {x y z : String} {dims : List Int}

theorem shapeAfter_one (hin : n.inputs = [.str x]) (hout : n.outputs = [.str y]) :
    shapeAfter version [n] x dims y = n.shape version [some dims] := by
  simp [shapeAfter, Access.evaluate, Access.exec, Access.results, Node.access, hin, hout, Store.write,
    Store.put, Kernel.shapes]

theorem shapeAfter_two (hin : n.inputs = [.str x]) (hout : n.outputs = [.str z])
    (hin' : m.inputs = [.str z]) (hout' : m.outputs = [.str y]) :
    shapeAfter version [n, m] x dims y = m.shape version [n.shape version [some dims]] := by
  simp [shapeAfter, Access.evaluate, Access.exec, Access.results, Node.access, hin, hout, hin', hout',
    Store.write, Store.put, Kernel.shapes]

theorem Node.shape_unsqueeze (k : Nat) (ins outs : List Value) :
    (Node.asked "Unsqueeze" k ins outs [("axes", .ints [0])]).shape version [some dims] =
      if version < axesInputFrom "Unsqueeze" then some (1 :: dims) else none := by
  change (if version < axesInputFrom "Unsqueeze" then some [0] else none).bind
    (fun axes => unsqueezedShape axes dims) = _
  split
  · exact unsqueezedShape_front dims
  · rfl

end Shapes

namespace Reduction

variable (r : Reduction)

def attrs : Attrs := [("axes", .ints r.axes), ("keepdims", .bool r.keep)]

/-- The axes that the node for a reduction reduces. -/
def emitted : List Nat :=
  if r.axes = [] then List.range r.rank else r.axes.filterMap (place? r.rank)

theorem isSome_place? {a : Int} (ha : a ∈ r.axes) : (place? r.rank a).isSome := by
  obtain ⟨k, -, hplace⟩ := Value.exists_place? (r.axes_valid a ha).1 (r.axes_valid a ha).2
  rw [rank, hplace]
  rfl

theorem lists_iff {k : Nat} : r.lists k = true ↔ k ∈ r.axes.filterMap (place? r.rank) := by
  simp [lists]

theorem rank_pos : 0 < r.rank := length_pos_of_ne_nil r.dims_ne_nil

/-- **The node reduces the same axes** unless `all` is at odds with the list. -/
theorem emitted_iff : (∀ k < r.rank, k ∈ r.emitted ↔ r.reduces k = true) ↔
    (r.all = true → r.axes = [] ∨ ∀ k < r.rank, r.lists k = true) ∧ (r.all = false → r.axes ≠ []) := by
  unfold emitted reduces
  by_cases haxes : r.axes = []
  · have hlists : ∀ k, r.lists k = false := fun k => by simp [lists, haxes]
    have hpos := r.rank_pos
    simp only [haxes, if_true, mem_range, hlists, Bool.or_false]
    cases r.all
    · simpa using ⟨0, hpos⟩
    · simp
  · simp only [if_neg haxes, ← lists_iff]
    cases r.all <;> simp [haxes]

theorem left_of_emitted (h : ∀ k < r.rank, k ∈ r.emitted ↔ r.reduces k = true) :
    reducedShape (r.emitted.contains ·) r.keep r.dims = r.left :=
  reducedShape_congr (fun k hk => Bool.eq_iff_iff.2 (contains_iff_mem.trans (h k hk))) r.keep

theorem left_eq_nil_or (h : r.shape = [1]) : r.left = [] ∨ r.left = [1] := by
  unfold shape at h
  by_cases hleft : r.left = []
  · exact Or.inl hleft
  · exact Or.inr (by rwa [if_neg hleft] at h)

theorem keep_eq_false (h : r.left = []) : r.keep = false := by
  by_contra hkeep
  rw [Bool.not_eq_false] at hkeep
  refine reducedShape_keep_ne_nil r.reduces r.dims_ne_nil ?_
  rwa [left, hkeep] at h

section Nodes

variable {version : Int} {type x y z : String} {k l : Nat}

theorem reduced?_asked (ins outs : List Value) :
    (Node.asked type k ins outs r.attrs).reduced? version r.rank =
      if version < axesInputFrom type then some r.emitted else none := by
  have haxes : (Node.asked type k ins outs r.attrs).axes? version =
      if version < axesInputFrom type then some r.axes else none := by
    rw [← Value.ints?_ints r.axes]
    rfl
  have hvalid : ∀ a ∈ r.axes, (place? r.rank a).isSome := fun a ha => r.isSome_place? ha
  rw [Node.reduced?, haxes]
  by_cases hversion : version < axesInputFrom type
  · simp only [if_pos hversion, emitted, if_pos hvalid, Option.bind_eq_bind, Option.bind_some]
    split <;> rfl
  · simp only [if_neg hversion, Option.bind_eq_bind, Option.bind_none]

theorem shape_asked (htype : (reductions.map Prod.snd).contains type = true) (ins outs : List Value) :
    (Node.asked type k ins outs r.attrs).shape version [some r.dims] =
      if version < axesInputFrom type then some (reducedShape (r.emitted.contains ·) r.keep r.dims)
      else none := by
  have hreduction : (Node.asked type k ins outs r.attrs).isReduction = true := htype
  have hreduced : (Node.asked type k ins outs r.attrs).reduced? version r.dims.length =
      if version < axesInputFrom type then some r.emitted else none := r.reduced?_asked ins outs
  rw [Node.shape, if_pos hreduction, hreduced]
  split <;> rfl

theorem doneBy_iff {ns : List Node} {outs : List Value}
    (hns : ns.filter Node.isReduction = [Node.asked type k [.str x] outs r.attrs]) :
    r.DoneBy version type x y ns ↔ version < axesInputFrom type ∧
      (∀ k < r.rank, k ∈ r.emitted ↔ r.reduces k = true) ∧
        shapeAfter version ns x r.dims y = some r.shape := by
  have hreduced : (Node.asked type k [.str x] outs r.attrs).reduced? version r.rank =
      if version < axesInputFrom type then some r.emitted else none := r.reduced?_asked [.str x] outs
  constructor
  · rintro ⟨⟨n, axes, hn, -, -, haxes, hsame⟩, hshape⟩
    obtain rfl := head_eq_of_cons_eq (hns.symm.trans hn)
    rw [hreduced, Option.ite_none_right_eq_some] at haxes
    obtain ⟨hversion, haxes⟩ := haxes
    obtain rfl := Option.some.inj haxes
    exact ⟨hversion, hsame, hshape⟩
  · rintro ⟨hversion, hsame, hshape⟩
    exact ⟨⟨_, r.emitted, hns, rfl, rfl, hreduced.trans (if_pos hversion), hsame⟩, hshape⟩

/-- **A single node** does the reduction if it reduces the same axes and leaves some. -/
theorem doneBy_one (htype : (reductions.map Prod.snd).contains type = true) :
    r.DoneBy version type x y [Node.asked type k [.str x] [.str y] r.attrs] ↔
      version < axesInputFrom type ∧ (∀ k < r.rank, k ∈ r.emitted ↔ r.reduces k = true) ∧ r.left ≠ [] := by
  have hreduction : (Node.asked type k [.str x] [.str y] r.attrs).isReduction = true := htype
  rw [doneBy_iff r (filter_cons_of_pos hreduction), shapeAfter_one rfl rfl, shape_asked r htype]
  refine and_congr_right fun hversion => and_congr_right fun hsame => ?_
  rw [if_pos hversion, r.left_of_emitted hsame, Option.some.injEq, shape]
  by_cases hleft : r.left = [] <;> simp [hleft]

/-- **A node that drops every axis** does the reduction together with one that puts an axis back. -/
theorem doneBy_two (htype : (reductions.map Prod.snd).contains type = true) (hshape : r.shape = [1]) :
    r.DoneBy version type x y [Node.asked type k [.str x] [.str z] r.attrs,
        Node.asked "Unsqueeze" l [.str z] [.str y] [("axes", .ints [0])]] ↔
      version < axesInputFrom type ∧ (∀ k < r.rank, k ∈ r.emitted ↔ r.reduces k = true) ∧
        version < axesInputFrom "Unsqueeze" ∧ r.left = [] := by
  have hreduction : (Node.asked type k [.str x] [.str z] r.attrs).isReduction = true := htype
  rw [doneBy_iff r (filter_cons_of_pos hreduction), shapeAfter_two rfl rfl rfl rfl,
    shape_asked r htype]
  refine and_congr_right fun hversion => and_congr_right fun hsame => ?_
  rw [if_pos hversion, r.left_of_emitted hsame, Node.shape_unsqueeze, hshape,
    Option.ite_none_right_eq_some]
  simp

end Nodes

end Reduction

/-! ## What is emitted -/

section Emitted

variable {op : OpNode} {x y : String} {r : Reduction}

theorem OpNode.Reduces.keepsOneAxis_iff (h : op.Reduces x y r) :
    keepsOneAxis (op.attr "keep_dim") r.shape = true ↔ r.keep = false ∧ r.shape = [1] := by
  rw [h.keep_dim]
  simp [keepsOneAxis, Value.truthy]

theorem Reduction.attrs_not_reserved : ∀ a ∈ r.attrs, a.1 ∉ Node.reserved := by
  simp [attrs, Node.reserved]

/-- A result of one element is reduced, and gets its axis back. -/
theorem emission_reduce_two (h : op.Reduces x y r) (type : String) (d : Draft)
    (hone : r.keep = false ∧ r.shape = [1]) :
    let z := numbered type (d.count type)
    let n := Node.asked type (d.count type) [.str x] [.str z] r.attrs
    let m := Node.asked "Unsqueeze" ((d.adding n).count "Unsqueeze") [.str z] [.str y] [("axes", .ints [0])]
    Emission (reduce type op) d ((d.adding n).adding m) () [n, m] := by
  intro z n m
  refine .computed h.outputShape ?_
  rw [if_pos (h.keepsOneAxis_iff.2 hone), h.dim, h.keep_dim, h.input_eq]
  change Emission _ d _ () ([n] ++ [m])
  exact (emission_node d rfl (Or.inr r.attrs_not_reserved)).bind
    (emission_result h.toLinks (d.adding n) rfl (Or.inr (by decide)))

/-- Any other result is reduced by one node. -/
theorem emission_reduce_one (h : op.Reduces x y r) (type : String) (d : Draft)
    (hmore : ¬ (r.keep = false ∧ r.shape = [1])) :
    let n := Node.asked type (d.count type) [.str x] [.str y] r.attrs
    Emission (reduce type op) d (d.adding n) () [n] := by
  intro n
  refine .computed h.outputShape ?_
  rw [if_neg (mt h.keepsOneAxis_iff.1 hmore), h.dim, h.keep_dim, h.input_eq]
  exact emission_result h.toLinks d rfl (Or.inr r.attrs_not_reserved)

end Emitted

theorem ruleFor_reduce {t type : String} (htype : (t, type) ∈ reductions) {version : Int}
    (hversion : 1 ≤ version) : Registry.standard.ruleFor t version = .ok (reduce type) ∧
      Registry.standard.composite? (.str t) = none := by
  obtain ⟨hrules, hno⟩ : Registry.standard.rulesOf (.str t) = some [(1, reduce type)] ∧
      Registry.standard.composite? (.str t) = none := by
    simp only [reductions, mem_cons, Prod.mk.injEq, not_mem_nil, or_false] at htype
    rcases htype with ⟨rfl, rfl⟩ | ⟨rfl, rfl⟩ | ⟨rfl, rfl⟩ | ⟨rfl, rfl⟩ | ⟨rfl, rfl⟩ <;> exact ⟨rfl, rfl⟩
  exact ⟨Registry.ruleFor_of_latest hrules rfl hversion (by simp), hno⟩

/-- **A reduction is emitted as it should be if and only if** its node can have axes as an attribute, `all`
is not at odds with the list of axes, and no axis of one element is all that is left. -/
theorem reduction_done_iff (exportType : ExportType) (depth : Nat) {op : OpNode} {type x y : String}
    {r : Reduction} (htype : (op.type, type) ∈ reductions) (h : op.Reduces x y r) (d : Draft)
    (hversion : 1 ≤ d.opset) : ∃ d' ns,
      Emission (mapUpTo Registry.standard exportType (depth + 1) op) d d' () ns ∧
        (r.DoneBy d.opset type x y ns ↔ d.opset < axesInputFrom type ∧
          (r.all = true → r.axes = [] ∨ ∀ k < r.rank, r.lists k = true) ∧ (r.all = false → r.axes ≠ []) ∧
          (r.keep = false → r.left ≠ [1]) ∧
          (r.left = [] → d.opset < axesInputFrom "Unsqueeze")) := by
  obtain ⟨hrule, hno⟩ := ruleFor_reduce htype hversion
  have hcontains : (reductions.map Prod.snd).contains type = true :=
    List.contains_iff_mem.2 (List.mem_map_of_mem (f := Prod.snd) htype)
  by_cases hone : r.keep = false ∧ r.shape = [1]
  · refine ⟨_, _, emission_mapUpTo_of_rule hno hrule (emission_reduce_two h type d hone), ?_⟩
    rw [r.doneBy_two hcontains hone.2, r.emitted_iff]
    rcases r.left_eq_nil_or hone.2 with hleft | hleft <;> simp [hleft, hone.1, and_assoc]
  · refine ⟨_, _, emission_mapUpTo_of_rule hno hrule (emission_reduce_one h type d hone), ?_⟩
    have hnil : r.left ≠ [] := fun hleft => hone ⟨r.keep_eq_false hleft, if_pos hleft⟩
    have hunit : r.keep = false → r.left ≠ [1] := fun hkeep hleft => by
      refine hone ⟨hkeep, ?_⟩
      rw [Reduction.shape, if_neg hnil, hleft]
    rw [r.doneBy_one hcontains, r.emitted_iff]
    exact ⟨fun ⟨hnode, ⟨hall, hlist⟩, _⟩ => ⟨hnode, hall, hlist, hunit, fun hleft => absurd hleft hnil⟩,
      fun ⟨hnode, hall, hlist, _⟩ => ⟨hnode, ⟨hall, hlist⟩, hnil⟩⟩

def Reduction.columns (width : Int) (all : Bool) : Reduction :=
  { dims := [3, width], axes := [0], keep := false, all, dims_ne_nil := by simp, axes_valid := by simp }

def OpNode.summing (r : Reduction) : OpNode :=
  { name := "reduce_sum_0", type := "reduce_sum", inputs := [("X", .strs ["x"])]
    outputs := [("Out", .strs ["y"])]
    attrs := [("dim", .ints r.axes), ("keep_dim", .bool r.keep), ("reduce_all", .bool r.all)]
    block := some
      { vars := [{ name := "x", shape := r.dims }, { name := "y", shape := r.shape }], ops := [] } }

theorem OpNode.reduces_summing (r : Reduction) : (summing r).Reduces "x" "y" r :=
  { input := rfl, output := rfl, inputShape := rfl, outputShape := rfl, dim := rfl, keep_dim := rfl,
    reduce_all := rfl }

/-- **Columns are summed, but not all elements when `dim` names an axis, nor a single column.** -/
theorem reduction_done_iff_columns :
    (∃ d' ns,
      Emission (mapUpTo Registry.standard .none 1 (.summing (.columns 10 false))) { opset := 9 } d' () ns ∧
      (Reduction.columns 10 false).DoneBy 9 "ReduceSum" "x" "y" ns) ∧
    (∃ d' ns,
      Emission (mapUpTo Registry.standard .none 1 (.summing (.columns 10 true))) { opset := 9 } d' () ns ∧
      ¬ (Reduction.columns 10 true).DoneBy 9 "ReduceSum" "x" "y" ns) ∧
    ∃ d' ns,
      Emission (mapUpTo Registry.standard .none 1 (.summing (.columns 1 false))) { opset := 9 } d' () ns ∧
      ¬ (Reduction.columns 1 false).DoneBy 9 "ReduceSum" "x" "y" ns := by
  have htype : ("reduce_sum", "ReduceSum") ∈ reductions := by decide
  refine ⟨?_, ?_, ?_⟩
  · obtain ⟨d', ns, hemits, hdone⟩ := reduction_done_iff .none 0 htype
      (OpNode.reduces_summing (.columns 10 false)) { opset := 9 } (by decide)
    exact ⟨d', ns, hemits, hdone.2 (by decide)⟩
  · obtain ⟨d', ns, hemits, hdone⟩ := reduction_done_iff .none 0 htype
      (OpNode.reduces_summing (.columns 10 true)) { opset := 9 } (by decide)
    exact ⟨d', ns, hemits, mt hdone.1 (by decide)⟩
  · obtain ⟨d', ns, hemits, hdone⟩ := reduction_done_iff .none 0 htype
      (OpNode.reduces_summing (.columns 1 false)) { opset := 9 } (by decide)
    exact ⟨d', ns, hemits, mt hdone.1 (by decide)⟩

end ModelExport
