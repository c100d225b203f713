import ModelExport.Proofs.Slices

/-!
# Proofs/Convolutions — paddings of convolutions and of their transposes

    paddings            [top, bottom, left, right]
    in a model          [top, left, bottom, right]        all beginnings, then all ends
    of a convolution    [top, bottom, left, right]        as they are

A padding node gets its paddings in the order of a model, a convolution gets them as they are.  So the two agree
only when nothing is in the wrong place (`convolution_pads_iff`); paddings given for two axes are written out
and are right.  A transposed convolution with an extra output padding has that at the far side, where the other
paddings belong, and its output has the right size only if the two are the same (`transposed_size_iff`).
-/

namespace ModelExport

open Emit List Rules

/-! ## Paddings of a plane -/

/-- **What is put around a plane.** -/
structure Margins where
  top : Int
  bottom : Int
  left : Int
  right : Int

/-- The paddings that a list stands for: one for both sides of each axis, or one for each side. -/
def Margins.ofList? : List Int → Option Margins
  | [height, width] => some ⟨height, height, width, width⟩
  | [top, bottom, left, right] => some ⟨top, bottom, left, right⟩
  | _ => none

/-- What is put before and after each axis, by a list of all beginnings and then all ends. -/
def axisEnds (pads : List Int) : List (Int × Int) :=
  (pads.take (pads.length / 2)).zip (pads.drop (pads.length / 2))

/-- The paddings of a node: an attribute, or the constant that it is wired to. -/
def Node.pads? (ns : List Node) (n : Node) : Option (List Int) :=
  match Assoc.get? n.attrs "pads" with
  | some v => v.ints?
  | none => (n.inputs[1]?).bind (constantIn ns)

/-- **What a node puts before and after each axis.** -/
def Node.axisPads? (ns : List Node) (n : Node) : Option (List (Int × Int)) := (n.pads? ns).map axisEnds

theorem Value.ints_inj {ms ns : List Int} : Value.ints ms = Value.ints ns ↔ ms = ns := by
  refine ⟨fun h => ?_, congrArg _⟩
  rw [← Option.some.injEq, ← Value.ints?_ints, h, Value.ints?_ints]

/-! ## Convolutions -/

/-- **An operator that convolves** a tensor with a filter. -/
structure OpNode.Filters (op : OpNode) (x filter y : String) (dims : List Int) : Prop where
  input : Assoc.get? op.inputs "Input" = some (.strs [x])
  filter : Assoc.get? op.inputs "Filter" = some (.strs [filter])
  output : Assoc.get? op.outputs "Output" = some (.strs [y])
  filterShape : op.inputShape "Filter" 0 = .ok dims

namespace OpNode.Filters

variable {op : OpNode} {x filter y : String} {dims : List Int}

theorem inputs_eq (h : op.Filters x filter y dims) :
    (op.input "Input").add (op.input "Filter") = .ok (.strs [x, filter]) := by
  rw [OpNode.input, OpNode.input, h.input, h.filter]
  rfl

theorem output_eq (h : op.Filters x filter y dims) : op.output "Output" = .ok (.strs [y]) := by
  simp only [OpNode.output, h.output]

end OpNode.Filters

structure OpNode.Convolves (op : OpNode) (x filter y : String) (paddings : List Int) : Prop where
  type : op.type ∈ ["conv2d", "depthwise_conv2d"]
  filters : ∃ dims, op.Filters x filter y dims
  explicit : (op.attr "padding_algorithm").same (.str "SAME") = false ∧
    (op.attr "padding_algorithm").same (.str "VALID") = false
  paddings : op.attr "paddings" = .ints paddings

/-- **The paddings of a convolution as they are emitted**: two are written out, four are left as they are. -/
def emittedPads (paddings : List Int) : List Int := if paddings.length = 2 then paddings ++ paddings else paddings

theorem doubled_ints (paddings : List Int) : doubled (.ints paddings) = .ok (.ints (emittedPads paddings)) := by
  have hlength : (Value.ints paddings).length = .ok paddings.length :=
    congrArg Except.ok (length_map _)
  have hadd : (Value.ints paddings).add (.ints paddings) = .ok (.ints (paddings ++ paddings)) :=
    congrArg (Except.ok ∘ Value.list) (map_append).symm
  rw [doubled, hlength, except_ok_bind, emittedPads]
  split
  · rw [hadd, if_pos (beq_iff_eq.1 ‹_›)]
  · rw [if_neg (mt beq_iff_eq.2 ‹_›)]

/-- **What is emitted is in the order of a model** if it has been written out, or has nothing to exchange. -/
theorem emittedPads_eq_iff {paddings : List Int} {m : Margins} (hm : Margins.ofList? paddings = some m) :
    emittedPads paddings = [m.top, m.left, m.bottom, m.right] ↔ paddings.length = 2 ∨ m.bottom = m.left := by
  unfold Margins.ofList? at hm
  split at hm
  · obtain rfl := Option.some.inj hm
    simp [emittedPads]
  · obtain rfl := Option.some.inj hm
    simp only [emittedPads, length_cons, length_nil, Nat.reduceAdd, Nat.reduceEqDiff, if_false,
      List.cons.injEq, false_or, true_and, and_true]
    exact ⟨And.left, fun h => ⟨h, h.symm⟩⟩
  · cases hm

theorem axisEnds_eq_iff {pads : List Int} (hpads : pads.length = 4) {a b c d : Int} :
    axisEnds pads = [(a, c), (b, d)] ↔ pads = [a, b, c, d] := by
  obtain ⟨p, q, r, s, rfl⟩ := length_eq_four.1 hpads
  simp [axisEnds]
  tauto

theorem length_emittedPads {paddings : List Int} {m : Margins} (hm : Margins.ofList? paddings = some m) :
    (emittedPads paddings).length = 4 := by
  unfold Margins.ofList? at hm
  split at hm
  · rfl
  · rfl
  · cases hm

theorem emission_convolution {op : OpNode} {x filter y : String} {paddings : List Int}
    (h : op.Convolves x filter y paddings) (d : Draft) : ∃ n, Emission (convolution op) d (d.adding n) () [n] ∧
      n.type = "Conv" ∧ Assoc.get? n.attrs "pads" = some (.ints (emittedPads paddings)) := by
  obtain ⟨dims, hfilters⟩ := h.filters
  have hpads : doubled (op.attr "paddings") = .ok (.ints (emittedPads paddings)) := by
    rw [h.paddings, doubled_ints]
  have hattrs : ∀ pads, paddingAttrs (op.attr "padding_algorithm") [("pads", pads)] = [("pads", pads)] :=
    fun pads => by simp [paddingAttrs, h.explicit.1, h.explicit.2]
  refine ⟨_, .computed hfilters.filterShape (.computed hpads (.computed hfilters.inputs_eq
    (.computed hfilters.output_eq (emission_nodeTo d rfl y [] (Or.inr ?_)).discarded))), rfl, ?_⟩
  · rw [hattrs]
    simp [Node.reserved]
  · simp only [hattrs]
    rfl

/-! ## Padding nodes -/

/-- **An operator that pads a plane**, in a way other than around a circle. -/
structure OpNode.PadsPlane (op : OpNode) (x y : String) (m : Margins) (dims outDims : List Int) : Prop
    extends op.Links "X" x y dims outDims where
  type : op.type = "pad2d"
  layout : op.attr "data_format" = .str "NCHW"
  paddings : op.attr "paddings" = .ints [m.top, m.bottom, m.left, m.right]
  mode : (op.attr "mode").same (.str "circular") = false

section Pads

variable {op : OpNode} {x y : String} {m : Margins} {dims outDims : List Int}

/-- The paddings of a plane among those of all axes, in the order of a model. -/
def Margins.planePads (m : Margins) : List Int := [0, 0, m.top, m.left, 0, 0, m.bottom, m.right]

theorem emission_paddingsOf (h : op.PadsPlane x y m dims outDims) (d : Draft) :
    Emission (paddingsOf op) d d (.ints m.planePads) [] := by
  have hsome : ¬ (op.attr "paddings").same (.list []) = true := by
    rw [h.paddings]
    exact Bool.false_ne_true
  have hordered : orderedPaddings (op.attr "data_format") (op.attr "paddings") = .ok (.ints m.planePads) := by
    rw [h.layout, h.paddings]
    rfl
  have hchecked : Emission (discard (liftM (op.inputShape "X" 0) : Emit (List Int))) d d () [] := by
    rw [h.inputShape]
    exact ((Quiet.pure dims).emission rfl).discarded
  have hrest : Emission (do orderedPaddings (op.attr "data_format") (op.attr "paddings") : Emit Value) d d
      (.ints m.planePads) [] := by
    rw [hordered]
    exact (Quiet.pure _).emission rfl
  unfold paddingsOf
  dsimp only
  rw [if_neg hsome]
  exact hchecked.bind hrest

theorem emission_paddingMode (h : op.PadsPlane x y m dims outDims) (d : Draft) :
    ∃ v, Emission (paddingMode op) d d v [] := by
  have hmode : ¬ (op.attr "mode").same (.str "circular") = true := by simp [h.mode]
  unfold paddingMode
  dsimp only
  rw [if_neg hmode]
  split
  · exact ⟨_, (Quiet.pure _).emission rfl⟩
  · exact ⟨_, (Quiet.pure _).emission rfl⟩

/-- **A plane is padded in the order of a model**, by an attribute or by a constant. -/
theorem emission_pad (h : op.PadsPlane x y m dims outDims) (exportType : ExportType) (depth : Nat) (d : Draft)
    (hversion : 1 ≤ d.opset) : ∃ d' ns n,
      Emission (mapUpTo Registry.standard exportType (depth + 1) op) d d' () (ns ++ [n]) ∧ n.type = "Pad" ∧
        n.pads? ns = some m.planePads := by
  have hno : Registry.standard.composite? (.str op.type) = none := by rw [h.type]; rfl
  have hrules : Registry.standard.rulesOf (.str op.type) = some [(1, padAttributes), (11, padConstants)] := by
    rw [h.type]
    rfl
  obtain ⟨mode, hmode⟩ := emission_paddingMode h d
  have hpads := emission_paddingsOf h d
  by_cases hlate : 11 ≤ d.opset
  · have hrule := Registry.ruleFor_of_latest hrules rfl hlate (by simp)
    have hconstant := emission_constant (d := d) rfl (.ints m.planePads)
    have hvalue : Emission (constant ElementType.FLOAT (paddingValue op)) _ _ _ _ :=
      emission_node (d.adding (.constantAt (d.count "Constant") (.ints m.planePads))) rfl (Or.inl rfl)
    have hinputs : ∀ v w : Value, (op.input "X").add (.list [v, w]) = .ok (.list [.str x, v, w]) := fun v w => by
      rw [h.input_eq]
      rfl
    have hattrs : ∀ a ∈ [("mode", mode)], a.1 ∉ Node.reserved := by simp [Node.reserved]
    exact ⟨_, [_, _], _, emission_mapUpTo_of_rule hno hrule (hpads.bind (hmode.bind (hconstant.bind (hvalue.bind
      (.computed (hinputs _ _) (emission_result h.toLinks _ rfl (Or.inr hattrs))))))), rfl, constantIn_self _ _ _⟩
  · have hrule := Registry.ruleFor_of_latest (w := 1) hrules rfl hversion (by simp; omega)
    have hin : Node.inputList (givenInputs (op.input "X")) = .ok [.str x] := by rw [h.input_eq]; rfl
    have hattrs : ∀ a ∈ [("mode", mode), ("value", paddingValue op), ("pads", .ints m.planePads)],
        a.1 ∉ Node.reserved := by simp [Node.reserved]
    exact ⟨_, [], _, emission_mapUpTo_of_rule hno hrule (hmode.bind (hpads.bind
      (emission_result h.toLinks d hin (Or.inr hattrs)))), rfl, Value.ints?_ints _⟩

end Pads

/-- **A convolution has its paddings in the order of a model if and only if** they are given for two axes, or the
second and the third are the same; and only then it pads a plane as a padding node does. -/
theorem convolution_pads_iff (exportType : ExportType) (depth : Nat) {op pad : OpNode} {x filter y x' y' : String}
    {paddings dims outDims : List Int} {m : Margins} (hop : op.Convolves x filter y paddings)
    (hm : Margins.ofList? paddings = some m) (hpad : pad.PadsPlane x' y' m dims outDims) (d : Draft)
    (hversion : 1 ≤ d.opset) : ∃ d₁ n d₂ ns p,
      Emission (mapUpTo Registry.standard exportType (depth + 1) op) d d₁ () [n] ∧ n.type = "Conv" ∧
      Emission (mapUpTo Registry.standard exportType (depth + 1) pad) d d₂ () (ns ++ [p]) ∧ p.type = "Pad" ∧
      p.axisPads? ns = some [(0, 0), (0, 0), (m.top, m.bottom), (m.left, m.right)] ∧
      (n.attr "pads" = .ints [m.top, m.left, m.bottom, m.right] ↔ paddings.length = 2 ∨ m.bottom = m.left) ∧
      ((n.axisPads? []).map ([(0, 0), (0, 0)] ++ ·) = p.axisPads? ns ↔ paddings.length = 2 ∨ m.bottom = m.left) := by
  have hrules : Registry.standard.rulesOf (.str op.type) = some [(1, convolution)] ∧
      Registry.standard.composite? (.str op.type) = none := by
    rcases List.mem_pair.1 hop.type with htype | htype <;> rw [htype] <;> exact ⟨rfl, rfl⟩
  have hrule := Registry.ruleFor_of_latest hrules.1 rfl hversion (by simp)
  obtain ⟨n, hconv, hn, hpads⟩ := emission_convolution hop d
  obtain ⟨d₂, ns, p, hemits, hp, hplane⟩ := emission_pad hpad exportType depth d hversion
  have hplaneEnds : p.axisPads? ns = some [(0, 0), (0, 0), (m.top, m.bottom), (m.left, m.right)] := by
    simp [Node.axisPads?, hplane, axisEnds, Margins.planePads]
  refine ⟨_, n, d₂, ns, p, emission_mapUpTo_of_rule hrules.2 hrule hconv, hn, hemits, hp, hplaneEnds, ?_, ?_⟩
  · rw [Node.attr, hpads, Option.getD_some, Value.ints_inj, emittedPads_eq_iff hm]
  · have hends : n.axisPads? [] = some (axisEnds (emittedPads paddings)) := by
      simp only [Node.axisPads?, Node.pads?, hpads, Value.ints?_ints, Option.map_some]
    rw [hplaneEnds, hends, Option.map_some, Option.some.injEq, List.cons_append, List.cons_append, List.nil_append,
      List.cons_inj_right, List.cons_inj_right, axisEnds_eq_iff (length_emittedPads hm), emittedPads_eq_iff hm]

def OpNode.convolving (paddings : List Int) : OpNode :=
  { name := "conv2d_0", type := "conv2d", inputs := [("Input", .strs ["x"]), ("Filter", .strs ["w"])]
    outputs := [("Output", .strs ["y"])]
    attrs := [("dilations", .ints [1, 1]), ("strides", .ints [1, 1]), ("groups", .int 1),
      ("paddings", .ints paddings), ("padding_algorithm", .str "EXPLICIT")]
    block := some { vars := [{ name := "w", shape := [1, 1, 3, 3] }], ops := [] } }

def OpNode.padding (m : Margins) : OpNode :=
  { name := "pad2d_0", type := "pad2d", inputs := [("X", .strs ["x"])], outputs := [("Out", .strs ["y"])]
    attrs := [("data_format", .str "NCHW"), ("mode", .str "constant"),
      ("paddings", .ints [m.top, m.bottom, m.left, m.right]), ("pad_value", .float 0.0)]
    block := some
      { vars := [{ name := "x", shape := [1, 1, 4, 4] }, { name := "y", shape := [1, 1, -1, -1] }], ops := [] } }

theorem OpNode.convolves_convolving (paddings : List Int) :
    (convolving paddings).Convolves "x" "w" "y" paddings where
  type := mem_cons_self
  filters := ⟨_, rfl, rfl, rfl, rfl⟩
  explicit := ⟨rfl, rfl⟩
  paddings := rfl

theorem OpNode.padsPlane_padding (m : Margins) :
    (padding m).PadsPlane "x" "y" m [1, 1, 4, 4] [1, 1, -1, -1] :=
  { input := rfl, output := rfl, inputShape := rfl, outputShape := rfl, type := rfl, layout := rfl
    paddings := rfl, mode := rfl }

/-- **A row below a plane is put to the left of it** by a convolution, and not by a padding node; paddings for two
axes are right in both. -/
theorem convolution_pads_iff_below :
    (∃ d₁ n d₂ ns p, Emission (mapUpTo Registry.standard .none 1 (.convolving [0, 1, 0, 0])) { opset := 9 } d₁ () [n] ∧
      Emission (mapUpTo Registry.standard .none 1 (.padding ⟨0, 1, 0, 0⟩)) { opset := 9 } d₂ () (ns ++ [p]) ∧
      p.axisPads? ns = some [(0, 0), (0, 0), (0, 1), (0, 0)] ∧ n.attr "pads" ≠ .ints [0, 0, 1, 0] ∧
      (n.axisPads? []).map ([(0, 0), (0, 0)] ++ ·) ≠ p.axisPads? ns) ∧
    ∃ d₁ n, Emission (mapUpTo Registry.standard .none 1 (.convolving [1, 2])) { opset := 11 } d₁ () [n] ∧
      n.attr "pads" = .ints [1, 2, 1, 2] := by
  constructor
  · obtain ⟨d₁, n, d₂, ns, p, hconv, -, hpad, -, hplane, hpads, hsame⟩ := convolution_pads_iff .none 0
      (OpNode.convolves_convolving [0, 1, 0, 0]) rfl (OpNode.padsPlane_padding ⟨0, 1, 0, 0⟩) { opset := 9 }
      (by decide)
    exact ⟨d₁, n, d₂, ns, p, hconv, hpad, hplane, mt hpads.1 (by decide), mt hsame.1 (by decide)⟩
  · obtain ⟨d₁, n, -, -, -, hconv, -, -, -, -, hpads, -⟩ := convolution_pads_iff .none 0
      (OpNode.convolves_convolving [1, 2]) rfl (OpNode.padsPlane_padding ⟨1, 1, 2, 2⟩) { opset := 11 } (by decide)
    exact ⟨d₁, n, hconv, hpads.2 (Or.inl rfl)⟩

/-! ## Transposed convolutions -/

/-- **An axis of a transposed convolution**, with its extra output padding. -/
structure TransposedAxis where
  stride : Int
  dilation : Int
  kernel : Int
  padding : Int
  extra : Int

/-- The size that a program gives the output along an axis, by that of the input. -/
def TransposedAxis.size (a : TransposedAxis) (n : Int) : Int :=
  (n - 1) * a.stride - 2 * a.padding + (a.kernel - 1) * a.dilation + 1 + a.extra

def Node.intAt (n : Node) (name : String) (k : Nat) : Option Int := ((n.attr name).nth k).toOption.bind Value.int?

def Node.extraAt (n : Node) (axis : Nat) : Option Int :=
  if (n.attr "output_padding").isNone then some 0 else n.intAt "output_padding" axis

/-- **The size that a node gives its output** along an axis of a plane. -/
def Node.transposedSize (n : Node) (axis : Nat) (size : Int) : Option Int := do
  let stride ← n.intAt "strides" axis
  let dilation ← n.intAt "dilations" axis
  let kernel ← n.intAt "kernel_shape" axis
  let before ← n.intAt "pads" axis
  let after ← n.intAt "pads" (axis + 2)
  let extra ← n.extraAt axis
  some (stride * (size - 1) + extra + (kernel - 1) * dilation + 1 - before - after)

/-- **A transposed convolution** of a plane; whether an extra output padding is given, and if not there is none. -/
structure OpNode.ConvolvesBack (op : OpNode) (x filter y : String) (axes : List TransposedAxis) (given : Bool) :
    Prop where
  type : op.type ∈ ["conv2d_transpose", "depthwise_conv2d_transpose"]
  plane : axes.length = 2
  filters : ∃ front, op.Filters x filter y (front ++ axes.map (·.kernel))
  strides : op.attr "strides" = .ints (axes.map (·.stride))
  dilations : op.attr "dilations" = .ints (axes.map (·.dilation))
  paddings : op.attr "paddings" = .ints (axes.map (·.padding))
  extra : if given then op.attr "output_padding" = .ints (axes.map (·.extra))
    else (op.attr "output_padding" = .none ∨ op.attr "output_padding" = .ints []) ∧ ∀ a ∈ axes, a.extra = 0

theorem kernelShape_append (front : List Int) {kernel : List Int} (hkernel : kernel.length = 2) :
    kernelShape (front ++ kernel) = .tuple (kernel.map .int) := by
  have hstart : clampEnd (front ++ kernel).length (-2) = front.length := by
    rw [clampEnd_of_neg _ (by decide), length_append, hkernel]
    omega
  have hstop : clampEnd (front ++ kernel).length (front ++ kernel).length = (front ++ kernel).length := by
    rw [clampEnd_of_nonneg _ (Int.natCast_nonneg _)]
    omega
  rw [kernelShape, spanOf, hstart, hstop, take_length, drop_left]

section Transposed

variable {op : OpNode} {x filter y : String} {axes : List TransposedAxis} {given : Bool}

/-- What stands at the far side of each axis: the other padding only where no extra one is given. -/
def TransposedAxis.far (given : Bool) (a : TransposedAxis) : Int := if given then a.extra else a.padding

theorem farPaddings_eq (hop : op.ConvolvesBack x filter y axes given) : farPaddings op =
    .ok (.ints (axes.map (·.far given)), if given then [("output_padding", .ints (axes.map (·.extra)))] else []) := by
  have hextra := hop.extra
  unfold farPaddings
  cases given with
  | true =>
    obtain ⟨a, b, rfl⟩ := length_eq_two.1 hop.plane
    rw [if_pos rfl] at hextra
    rw [hextra]
    rfl
  | false =>
    rw [if_neg Bool.false_ne_true] at hextra
    rw [hop.paddings]
    rcases hextra.1 with hnone | hnone <;> rw [hnone] <;> rfl

theorem Node.intAt_eq {n : Node} {name : String} {ns : List Int} {k : Nat}
    (h : (n.attr name).nth k = memberAt (ns.map .int) k) : n.intAt name k = ns[k]? := by
  rw [intAt, h, Value.memberAt_natCast, getElem?_map]
  cases ns[k]? <;> rfl

def transposedAttrs (axes : List TransposedAxis) (given : Bool) (group : Value) : Attrs :=
  [("dilations", .ints (axes.map (·.dilation))), ("kernel_shape", .tuple ((axes.map (·.kernel)).map .int)),
    ("strides", .ints (axes.map (·.stride))), ("group", group),
    ("pads", .ints (axes.map (·.padding) ++ axes.map (·.far given)))] ++
  if given then [("output_padding", .ints (axes.map (·.extra)))] else []

theorem emission_convolutionTranspose (hop : op.ConvolvesBack x filter y axes given) (d : Draft) :
    ∃ n, Emission (convolutionTranspose op) d (d.adding n) () [n] ∧ n.type = "ConvTranspose" ∧
      n.attrs = transposedAttrs axes given (op.attr "groups") := by
  obtain ⟨front, hfilters⟩ := hop.filters
  have hpads : (op.attr "paddings").add (.ints (axes.map (·.far given))) =
      .ok (.ints (axes.map (·.padding) ++ axes.map (·.far given))) := by
    rw [hop.paddings]
    exact congrArg (Except.ok ∘ Value.list) (map_append).symm
  have hattrs : ∀ a ∈ transposedAttrs axes given (op.attr "groups"), a.1 ∉ Node.reserved := by
    cases given <;> simp [transposedAttrs, Node.reserved]
  refine ⟨.asked "ConvTranspose" (d.count "ConvTranspose") [.str x, .str filter] [.str y]
    (transposedAttrs axes given (op.attr "groups")), .computed hfilters.filterShape (.computed (farPaddings_eq hop)
      (.computed hfilters.inputs_eq (.computed hfilters.output_eq (.computed hpads ?_)))), rfl, rfl⟩
  rw [hop.dilations, hop.strides, kernelShape_append front ((length_map _).trans hop.plane)]
  exact (emission_nodeTo d rfl y [] (Or.inr hattrs)).discarded

/-- **The size of the output, as a node gives it.** -/
theorem transposedSize_of_attrs (hop : op.ConvolvesBack x filter y axes given) {n : Node}
    (hattrs : n.attrs = transposedAttrs axes given (op.attr "groups")) {k : Nat} {a : TransposedAxis}
    (ha : axes[k]? = some a) (size : Int) : n.transposedSize k size =
      some (a.stride * (size - 1) + a.extra + (a.kernel - 1) * a.dilation + 1 - a.padding - a.far given) := by
  have hmap : ∀ f : TransposedAxis → Int, (axes.map f)[k]? = some (f a) := fun f => by simp [ha]
  have hlt : k < axes.length := (List.getElem?_eq_some_iff.1 ha).1
  have hattr : ∀ name, n.attr name = (Assoc.get? (transposedAttrs axes given (op.attr "groups")) name).getD .none :=
    fun name => by rw [Node.attr, hattrs]
  have hstride : n.intAt "strides" k = some a.stride :=
    (Node.intAt_eq (congrArg (Value.nth · k) (hattr _))).trans (hmap _)
  have hdilation : n.intAt "dilations" k = some a.dilation :=
    (Node.intAt_eq (congrArg (Value.nth · k) (hattr _))).trans (hmap _)
  have hkernel : n.intAt "kernel_shape" k = some a.kernel :=
    (Node.intAt_eq (congrArg (Value.nth · k) (hattr _))).trans (hmap _)
  have hpads : ∀ j, n.intAt "pads" j = (axes.map (·.padding) ++ axes.map (·.far given))[j]? := fun j =>
    Node.intAt_eq (congrArg (Value.nth · j) (hattr _))
  have hbefore : n.intAt "pads" k = some a.padding := by
    rw [hpads, getElem?_append_left (by simpa using hlt), hmap]
  have hafter : n.intAt "pads" (k + 2) = some (a.far given) := by
    rw [hpads, getElem?_append_right (by simp [hop.plane]), length_map, hop.plane, Nat.add_sub_cancel, hmap]
  have hextra : n.extraAt k = some a.extra := by
    cases given with
    | true =>
      have hgiven : n.attr "output_padding" = .ints (axes.map (·.extra)) := hattr _
      rw [Node.extraAt, hgiven]
      exact (Node.intAt_eq (congrArg (Value.nth · k) hgiven)).trans (hmap _)
    | false =>
      have hnone : n.attr "output_padding" = .none := hattr _
      have hzero : a.extra = 0 := (if_neg Bool.false_ne_true ▸ hop.extra).2 a (mem_of_getElem? ha)
      rw [Node.extraAt, hnone, hzero]
      rfl
  simp only [Node.transposedSize, hstride, hdilation, hkernel, hbefore, hafter, hextra, Option.bind_eq_bind,
    Option.bind_some]

end Transposed

/-- **A transposed convolution keeps the size of its output along an axis if and only if** no extra output padding is
given, or that is the same as the other. -/
theorem transposed_size_iff (exportType : ExportType) (depth : Nat) {op : OpNode} {x filter y : String}
    {axes : List TransposedAxis} {given : Bool} (hop : op.ConvolvesBack x filter y axes given) (d : Draft)
    (hversion : 1 ≤ d.opset) : ∃ d' n,
      Emission (mapUpTo Registry.standard exportType (depth + 1) op) d d' () [n] ∧ n.type = "ConvTranspose" ∧
      ∀ k a, axes[k]? = some a → ∀ size,
        (n.transposedSize k size = some (a.size size) ↔ given = false ∨ a.extra = a.padding) := by
  have hrules : Registry.standard.rulesOf (.str op.type) = some [(1, convolutionTranspose)] ∧
      Registry.standard.composite? (.str op.type) = none := by
    rcases List.mem_pair.1 hop.type with htype | htype <;> rw [htype] <;> exact ⟨rfl, rfl⟩
  have hrule := Registry.ruleFor_of_latest hrules.1 rfl hversion (by simp)
  obtain ⟨n, hemits, htype, hattrs⟩ := emission_convolutionTranspose hop d
  refine ⟨_, n, emission_mapUpTo_of_rule hrules.2 hrule hemits, htype, fun k a ha size => ?_⟩
  rw [transposedSize_of_attrs hop hattrs ha, Option.some.injEq, TransposedAxis.size, TransposedAxis.far,
    Int.mul_comm a.stride]
  cases given with
  | true =>
    simp only [if_true, Bool.true_eq_false, false_or]
    omega
  | false =>
    simp only [Bool.false_eq_true, if_false, true_or, iff_true]
    omega

def OpNode.enlarging (h w : TransposedAxis) : OpNode :=
  { name := "conv2d_transpose_0", type := "conv2d_transpose"
    inputs := [("Input", .strs ["x"]), ("Filter", .strs ["w"])], outputs := [("Output", .strs ["y"])]
    attrs := [("strides", .ints [h.stride, w.stride]), ("dilations", .ints [h.dilation, w.dilation]),
      ("paddings", .ints [h.padding, w.padding]), ("output_padding", .ints [h.extra, w.extra]), ("groups", .int 1)]
    block := some { vars := [{ name := "w", shape := [1, 1, h.kernel, w.kernel] }], ops := [] } }

theorem OpNode.convolvesBack_enlarging (h w : TransposedAxis) :
    (enlarging h w).ConvolvesBack "x" "w" "y" [h, w] true where
  type := mem_cons_self
  plane := rfl
  filters := ⟨[1, 1], rfl, rfl, rfl, rfl⟩
  strides := rfl
  dilations := rfl
  paddings := rfl
  extra := rfl

/-- **One more row is taken away again, one more column stays**, where the paddings are none and one. -/
theorem transposed_size_iff_oneMore : ∃ d' n,
    Emission (mapUpTo Registry.standard .none 1 (.enlarging ⟨2, 1, 3, 0, 1⟩ ⟨2, 1, 3, 1, 1⟩)) { opset := 9 } d' () [n] ∧
      TransposedAxis.size ⟨2, 1, 3, 0, 1⟩ 4 = 10 ∧ n.transposedSize 0 4 ≠ some 10 ∧
      TransposedAxis.size ⟨2, 1, 3, 1, 1⟩ 4 = 8 ∧ n.transposedSize 1 4 = some 8 := by
  obtain ⟨d', n, hemits, -, hsize⟩ := transposed_size_iff .none 0
    (OpNode.convolvesBack_enlarging ⟨2, 1, 3, 0, 1⟩ ⟨2, 1, 3, 1, 1⟩) { opset := 9 } (by decide)
  exact ⟨d', n, hemits, rfl, mt (hsize 0 _ rfl 4).1 (by decide), rfl, (hsize 1 _ rfl 4).2 (by decide)⟩

end ModelExport
