import ModelExport.Proofs.Convolutions

/-!
# Proofs/PooledSizes — how many windows a fixed pool has

    size 2, padding 1, kernel 4, stride 1       [· 0 1 ·]                    one window
    as emitted, kernel 3                        [· 0 1] · [0 1 ·]            two windows

A window is cut to the size and the padding at one side of it, while the node still has the padding at both.
A window that is cut so has the length of the axis and less than all of its padding, and there may be room for
more of them: the number of windows stays only where the stride steps over what is left (`pooled_size_iff`).
-/

namespace ModelExport

open Emit List Rules

variable {a : PooledAxis} {k : Nat}

/-! ## An axis -/

/-- **An axis that is pooled**, with the same padding at both sides. -/
structure PooledAxis where
  size : Int
  padding : Int
  stride : Int
  kernel : Int

namespace PooledAxis

/-- There is a window, and room for it. -/
structure HasRoom (a : PooledAxis) : Prop where
  size : 1 ≤ a.size
  padding : 0 ≤ a.padding
  stride : 1 ≤ a.stride
  kernel : 1 ≤ a.kernel
  fits : a.kernel ≤ a.size + 2 * a.padding

/-- **The number of windows of a length.** -/
def windows (a : PooledAxis) (kernel : Int) : Int := (a.size + 2 * a.padding - kernel) / a.stride + 1

def isCut (a : PooledAxis) : Bool := 0 < a.size && a.size + a.padding < a.kernel

def emitted (a : PooledAxis) : Int := if a.isCut then a.size + a.padding else a.kernel

theorem HasRoom.emitted_pos (h : a.HasRoom) : 1 ≤ a.emitted := by
  have hsize := h.size
  have hpadding := h.padding
  have hkernel := h.kernel
  unfold emitted
  split <;> omega

/-- **A cut keeps the number of windows if and only if** what it leaves is less than a stride more. -/
theorem HasRoom.windows_emitted_iff (h : a.HasRoom) : a.windows a.emitted = a.windows a.kernel ↔
    a.kernel ≤ a.size + a.padding ∨ a.padding / a.stride = (a.size + 2 * a.padding - a.kernel) / a.stride := by
  have hsize := h.size
  by_cases hcut : a.kernel ≤ a.size + a.padding
  · have hstays : a.emitted = a.kernel := if_neg (by simp [isCut, hcut])
    rw [hstays]
    exact iff_of_true rfl (Or.inl hcut)
  · have hrest : a.size + 2 * a.padding - a.emitted = a.padding := by
      rw [emitted, if_pos (by simp only [isCut, Bool.and_eq_true, decide_eq_true_eq]; omega)]
      omega
    rw [windows, windows, hrest, or_iff_right hcut]
    omega

end PooledAxis

/-! ## The node -/

/-- **The size that a node gives its output** along an axis of a plane; windows end within it. -/
def Node.pooledSize (n : Node) (axis : Nat) (size : Int) : Option Int := do
  let kernel ← n.intAt "kernel_shape" axis
  let stride ← n.intAt "strides" axis
  let before ← n.intAt "pads" axis
  let after ← n.intAt "pads" (axis + 2)
  if (n.attr "ceil_mode").truthy || !(n.attr "auto_pad").isNone then none
  else some ((size + before + after - kernel) / stride + 1)

/-- **An operator that pools by fixed windows**, by nodes of a type. -/
structure OpNode.PoolsFixedly (op : OpNode) (x y type : String) (front : List Int) (axes : List PooledAxis)
    (outDims : List Int) : Prop extends op.Links "X" x y (front ++ axes.map (·.size)) outDims where
  ahead : front.length = 2
  plane : axes.length = 2
  kind : ∃ whole, poolTypes (op.attr "pooling_type") = .ok (type, whole)
  partly : (op.attr "global_pooling").truthy = false
  fixed : (op.attr "adaptive").truthy = false
  floors : (op.attr "ceil_mode").truthy = false
  ksize : op.attr "ksize" = .ints (axes.map (·.kernel))
  strides : op.attr "strides" = .ints (axes.map (·.stride))
  paddings : op.attr "paddings" = .ints (axes.map (·.padding))

section Fixed

variable {op : OpNode} {x y type : String} {front outDims : List Int} {axes : List PooledAxis}

theorem Value.nth_ints {ns : List Int} {i : Int} (h : ns[k]? = some i) :
    (Value.ints ns).nth k = .ok (.int i) := by
  change memberAt (ns.map Value.int) k = _
  rw [Value.memberAt_natCast, getElem?_map, h]
  rfl

theorem clampKernel_ints {paddings kernels : List Int} (hpadding : paddings[k]? = some a.padding)
    (hkernel : kernels[k]? = some a.kernel) :
    clampKernel a.size (.ints paddings) (.ints kernels) k =
      .ok (if a.isCut then some (.int (a.size + a.padding)) else none) := by
  unfold clampKernel PooledAxis.isCut
  by_cases hsize : 0 < a.size
  · rw [if_pos hsize, Value.nth_ints hpadding, Value.nth_ints hkernel]
    change (do if ← Value.lt (.int (a.size + a.padding)) (.int a.kernel) then
      return some (.int (a.size + a.padding)) else return none : Except Slip (Option Value)) = _
    rw [lt_int_int]
    simp only [except_ok_bind, hsize, decide_true, Bool.true_and, decide_eq_true_eq]
    split <;> rfl
  · simp [hsize]
    rfl

/-- **A window is cut**, and no node is added. -/
theorem emission_clampAxis (paddings kernels : List Int) (hpadding : paddings[k]? = some a.padding)
    (hkernel : kernels[k]? = some a.kernel) (d : Draft) :
    ∃ e, Emission (clampAxis a.size (.ints paddings) (.ints kernels) k) d { d with edits := e }
      (.ints (kernels.set k a.emitted)) [] := by
  have hlt : k < kernels.length := (List.getElem?_eq_some_iff.1 hkernel).1
  have hclamp := clampKernel_ints hpadding hkernel
  unfold PooledAxis.emitted
  cases hcut : a.isCut with
  | true =>
    rw [hcut, if_pos rfl] at hclamp
    have hset : (Value.ints kernels).set (.int k) (.int (a.size + a.padding)) =
        .ok (.ints (kernels.set k (a.size + a.padding))) := by
      rw [Value.ints, Value.set_list_eq, if_pos (by simpa using hlt), ← map_set]
      rfl
    exact ⟨_, .computed hclamp (.computed hset ((emission_editAttr _ _ d).bind ((Quiet.pure _).emission rfl)))⟩
  | false =>
    rw [hcut, if_neg Bool.false_ne_true] at hclamp
    have hsame : kernels.set k a.kernel = kernels := by
      rw [← (List.getElem?_eq_some_iff.1 hkernel).2, set_getElem_self]
    rw [if_neg Bool.false_ne_true, hsame]
    exact ⟨d.edits, .computed hclamp ((Quiet.pure _).emission rfl)⟩

def pooledAttrs (op : OpNode) (axes : List PooledAxis) (version : Int) : Attrs :=
  [("kernel_shape", .ints (axes.map (·.emitted))), ("strides", .ints (axes.map (·.stride))),
    ("pads", .ints (axes.map (·.padding) ++ axes.map (·.padding)))] ++
  (if version ≥ 10 then [("ceil_mode", op.attr "ceil_mode")] else []) ++ averageAttrs op

theorem pooledAttrs_not_reserved (op : OpNode) (axes : List PooledAxis) (version : Int) :
    ∀ a ∈ pooledAttrs op axes version, a.1 ∉ Node.reserved := by
  intro a ha
  simp only [pooledAttrs, averageAttrs, mem_append, mem_cons, not_mem_nil, or_false, or_assoc] at ha
  rcases ha with rfl | rfl | rfl | ha | ha
  · simp [Node.reserved]
  · simp [Node.reserved]
  · simp [Node.reserved]
  · split at ha <;> simp_all [Node.reserved]
  · split at ha <;> simp_all [Node.reserved]

theorem pool_eq_fixedPool (hop : op.PoolsFixedly x y type front axes outDims) : pool op = fixedPool op := by
  unfold pool
  rw [hop.partly, hop.fixed]
  rfl

theorem emission_fixedPool (hop : op.PoolsFixedly x y type front axes outDims) (d : Draft) :
    let n := Node.asked type (d.count type) [.str x] [.str y] (pooledAttrs op axes d.opset)
    ∃ e, Emission (fixedPool op) d (Draft.adding { d with edits := e } n) () [n] := by
  obtain ⟨batch, channels, rfl⟩ := length_eq_two.1 hop.ahead
  obtain ⟨a, b, rfl⟩ := length_eq_two.1 hop.plane
  obtain ⟨whole, hkind⟩ := hop.kind
  obtain ⟨e₁, hfirst⟩ := emission_clampAxis (a := a) [a.padding, b.padding] [a.kernel, b.kernel] (k := 0) rfl rfl d
  obtain ⟨e₂, hsecond⟩ := emission_clampAxis (a := b) [a.padding, b.padding] [a.emitted, b.kernel] (k := 1) rfl rfl
    { d with edits := e₁ }
  have hfloors : ¬ ((op.attr "ceil_mode").truthy && decide (d.opset < 10)) = true := by simp [hop.floors]
  refine ⟨e₂, .computed hop.inputShape ?_⟩
  rw [hop.paddings, hop.ksize, hop.strides]
  refine .computed (a := a.size) rfl (hfirst.bind (.computed (a := b.size) rfl (hsecond.bind ?_)))
  have hpads : (Value.ints ([a, b].map (·.padding))).add (.ints ([a, b].map (·.padding))) =
      .ok (.ints ([a, b].map (·.padding) ++ [a, b].map (·.padding))) := rfl
  refine .computed hpads (.versioned ?_)
  dsimp only
  rw [if_neg hfloors]
  refine .computed hkind ?_
  rw [hop.input_eq]
  exact emission_result hop.toLinks _ rfl (Or.inr (pooledAttrs_not_reserved op [a, b] d.opset))

/-- **The length of the windows and the size of the output, as a node gives them.** -/
theorem pooledSize_of_attrs (hop : op.PoolsFixedly x y type front axes outDims) {n : Node} {version : Int}
    (hattrs : n.attrs = pooledAttrs op axes version) (ha : axes[k]? = some a) :
    n.intAt "kernel_shape" k = some a.emitted ∧ n.pooledSize k a.size = some (a.windows a.emitted) := by
  have hmap : ∀ f : PooledAxis → Int, (axes.map f)[k]? = some (f a) := fun f => by simp [ha]
  have hlt : k < axes.length := (List.getElem?_eq_some_iff.1 ha).1
  have hattr : ∀ name, n.attr name = (Assoc.get? (pooledAttrs op axes version) name).getD .none :=
    fun name => by rw [Node.attr, hattrs]
  have hkernel : n.intAt "kernel_shape" k = some a.emitted :=
    (Node.intAt_eq (congrArg (Value.nth · k) (hattr _))).trans (hmap _)
  have hstride : n.intAt "strides" k = some a.stride :=
    (Node.intAt_eq (congrArg (Value.nth · k) (hattr _))).trans (hmap _)
  have hpads : ∀ j, n.intAt "pads" j = (axes.map (·.padding) ++ axes.map (·.padding))[j]? := fun j =>
    Node.intAt_eq (congrArg (Value.nth · j) (hattr _))
  have hbefore : n.intAt "pads" k = some a.padding := by
    rw [hpads, getElem?_append_left (by simpa using hlt), hmap]
  have hafter : n.intAt "pads" (k + 2) = some a.padding := by
    rw [hpads, getElem?_append_right (by simp [hop.plane]), length_map, hop.plane, Nat.add_sub_cancel, hmap]
  have hplain : ((n.attr "ceil_mode").truthy || !(n.attr "auto_pad").isNone) = false := by
    have hnone : Value.none.truthy = false := rfl
    rw [hattr, hattr]
    unfold pooledAttrs averageAttrs
    split_ifs <;> simp [Assoc.get?, hop.floors, hnone, Value.isNone]
  refine ⟨hkernel, ?_⟩
  simp only [Node.pooledSize, hkernel, hstride, hbefore, hafter, hplain, Option.bind_eq_bind, Option.bind_some,
    Bool.false_eq_true, if_false, PooledAxis.windows]
  congr 3
  omega

end Fixed

/-- **A pool keeps the size of its output along an axis if and only if** its window is no longer than the axis and the
padding at one side, or the stride steps over what a cut window leaves. -/
theorem pooled_size_iff (exportType : ExportType) (depth : Nat) {op : OpNode} {x y type : String}
    {front outDims : List Int} {axes : List PooledAxis} (htype : op.type = "pool2d")
    (hop : op.PoolsFixedly x y type front axes outDims) (d : Draft) (hversion : 1 ≤ d.opset) : ∃ d' n,
      Emission (mapUpTo Registry.standard exportType (depth + 1) op) d d' () [n] ∧ n.type = type ∧
      ∀ k a, axes[k]? = some a → a.HasRoom →
        (∃ kernel, n.intAt "kernel_shape" k = some kernel ∧ 1 ≤ kernel) ∧
        (n.pooledSize k a.size = some (a.windows a.kernel) ↔ a.kernel ≤ a.size + a.padding ∨
          a.padding / a.stride = (a.size + 2 * a.padding - a.kernel) / a.stride) := by
  have hrule : Registry.standard.ruleFor op.type d.opset = .ok pool := by
    rw [htype]
    exact Registry.ruleFor_of_latest rfl rfl hversion (by simp)
  have hno : Registry.standard.composite? (.str op.type) = none := by
    rw [htype]
    rfl
  obtain ⟨e, hemits⟩ := emission_fixedPool hop d
  rw [← pool_eq_fixedPool hop] at hemits
  refine ⟨_, _, emission_mapUpTo_of_rule hno hrule hemits, rfl, fun k a ha hroom => ?_⟩
  obtain ⟨hkernel, hsize⟩ := pooledSize_of_attrs hop (n := .asked type (d.count type) [.str x] [.str y]
    (pooledAttrs op axes d.opset)) rfl ha
  refine ⟨⟨_, hkernel, hroom.emitted_pos⟩, ?_⟩
  rw [hsize, Option.some.injEq]
  exact hroom.windows_emitted_iff

def OpNode.poolingBy (h w : PooledAxis) : OpNode :=
  { name := "pool2d_0", type := "pool2d", inputs := [("X", .strs ["x"])], outputs := [("Out", .strs ["y"])]
    attrs := [("adaptive", .bool false), ("ksize", .ints [h.kernel, w.kernel]), ("global_pooling", .bool false),
      ("pooling_type", .str "max"), ("exclusive", .bool true), ("ceil_mode", .bool false),
      ("strides", .ints [h.stride, w.stride]), ("paddings", .ints [h.padding, w.padding]),
      ("padding_algorithm", .str "EXPLICIT")]
    block := some
      { vars := [{ name := "x", shape := [1, 1, h.size, w.size] }, { name := "y", shape := [1, 1, -1, -1] }]
        ops := [] } }

theorem OpNode.poolsFixedly_poolingBy (h w : PooledAxis) :
    (poolingBy h w).PoolsFixedly "x" "y" "MaxPool" [1, 1] [h, w] [1, 1, -1, -1] :=
  { input := rfl, output := rfl, inputShape := rfl, outputShape := rfl, ahead := rfl, plane := rfl
    kind := ⟨_, rfl⟩, partly := rfl, fixed := rfl, floors := rfl, ksize := rfl, strides := rfl, paddings := rfl }

/-- **A window over all of an axis becomes two**, unless the stride is too great for the second. -/
theorem pooled_size_iff_whole : ∃ d' n,
    Emission (mapUpTo Registry.standard .none 1 (.poolingBy ⟨2, 1, 1, 4⟩ ⟨2, 1, 2, 4⟩)) { opset := 9 } d' () [n] ∧
      PooledAxis.windows ⟨2, 1, 1, 4⟩ 4 = 1 ∧ n.pooledSize 0 2 ≠ some 1 ∧
      PooledAxis.windows ⟨2, 1, 2, 4⟩ 4 = 1 ∧ n.pooledSize 1 2 = some 1 := by
  obtain ⟨d', n, hemits, -, hsize⟩ := pooled_size_iff .none 0 rfl
    (OpNode.poolsFixedly_poolingBy ⟨2, 1, 1, 4⟩ ⟨2, 1, 2, 4⟩) { opset := 9 } (by decide)
  have hrows := (hsize 0 _ rfl (by constructor <;> decide)).2
  have hcolumns := (hsize 1 _ rfl (by constructor <;> decide)).2
  exact ⟨d', n, hemits, rfl, mt hrows.1 (by decide), rfl, hcolumns.2 (by decide)⟩

end ModelExport
