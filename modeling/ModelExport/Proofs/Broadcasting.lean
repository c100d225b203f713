import ModelExport.Proofs.Tensors.Acts

/-!
# Proofs/Broadcasting — operands that are aligned at an axis

    X  [2, 3, 4, 5]        Y reshaped to  [1, 3, 4, 1]
    Y     [3, 4]           at [i, j, k, l]  is  Y at [j, k]

The source aligns the second operand of a binary operator at any axis of the first, the target only at the
last ones.  So the second operand is reshaped to have ones around its shape, unless it is aligned at the
end anyway.  Its elements keep their row-major order, and at every index the same two elements meet
(`operands_aligned`).
-/

namespace ModelExport

open Emit List Rules

/-! ## Index arithmetic -/

section Indices

variable {dims larger index : List Nat}

theorem pos_of_agrees (h : List.Forall₂ (fun d e => d = 1 ∨ d = e) dims larger) (hpos : ∀ d ∈ larger, 0 < d) :
    ∀ d ∈ dims, 0 < d := by
  induction h with
  | nil => exact forall_mem_nil _
  | cons hde _ ih =>
    obtain ⟨he, hrest⟩ := forall_mem_cons.1 hpos
    refine forall_mem_cons.2 ⟨?_, ih hrest⟩
    rcases hde with rfl | rfl
    · exact Nat.zero_lt_one
    · exact he

/-- Places along axes that have one element, or are as long, are places there. -/
theorem within_pinned (h : List.Forall₂ (fun d e => d = 1 ∨ d = e) dims larger)
    (hindex : List.Forall₂ (· < ·) index larger) :
    List.Forall₂ (· < ·) (List.zipWith (fun d k => if d = 1 then 0 else k) dims index) dims := by
  induction h generalizing index with
  | nil => cases hindex; exact .nil
  | cons hde _ ih =>
    cases hindex with
    | cons hk hrest =>
      refine .cons ?_ (ih hrest)
      dsimp only
      split
      · omega
      · omega

theorem zipWith_ones : ∀ index : List Nat,
    List.zipWith (fun d k => if d = 1 then 0 else k) (List.replicate index.length 1) index =
      List.replicate index.length 0
  | [] => rfl
  | _ :: index => congrArg (0 :: ·) (zipWith_ones index)

theorem rowMajor_ones_append (n : Nat) (dims index : List Nat) :
    Value.rowMajor (List.replicate n 1 ++ dims) (List.replicate n 0 ++ index) = Value.rowMajor dims index := by
  induction n with
  | zero => rfl
  | succ n ih => simpa [replicate_succ, Value.rowMajor] using ih

theorem rowMajor_append_ones (n : Nat) : ∀ {dims index : List Nat}, index.length = dims.length →
    Value.rowMajor (dims ++ List.replicate n 1) (index ++ List.replicate n 0) = Value.rowMajor dims index
  | [], [], _ => by simpa using rowMajor_ones_append n [] []
  | d :: dims, i :: index, h => by simp [Value.rowMajor, rowMajor_append_ones n (Nat.succ.inj h)]

end Indices

/-! ## Aligned tensors -/

/-- **A tensor aligned within another**: its axes stand against the middle ones of the other, and along each
it is as long or has one element. -/
structure Alignment where
  front : List Nat
  middle : List Nat
  back : List Nat
  inner : List Nat
  agrees : List.Forall₂ (fun d e => d = 1 ∨ d = e) inner middle
  positive : ∀ d ∈ front ++ middle ++ back, 0 < d

namespace Alignment

variable (g : Alignment)

/-- The shape that the tensor is aligned within. -/
def outer : List Nat := g.front ++ g.middle ++ g.back

/-- **The index that an index of the outer shape is paired with**: its places along the aligned axes, and the
first one where there is no other. -/
def paired (index : List Nat) : List Nat :=
  List.zipWith (fun d k => if d = 1 then 0 else k) g.inner (index.drop g.front.length)

def moved : List Nat := List.replicate g.front.length 1 ++ g.inner ++ List.replicate g.back.length 1

theorem length_outer : g.outer.length = g.front.length + g.inner.length + g.back.length := by
  rw [outer, length_append, length_append, g.agrees.length_eq]

theorem length_moved : g.moved.length = g.outer.length := by
  simp [moved, outer, g.agrees.length_eq]

theorem prod_moved : g.moved.prod = g.inner.prod := by
  simp [moved]

theorem moved_pos : ∀ d ∈ g.moved, 0 < d := by
  have hinner := pos_of_agrees g.agrees fun d hd =>
    g.positive d (mem_append_left _ (mem_append_right _ hd))
  intro d hd
  simp only [moved, mem_append, mem_replicate] at hd
  rcases hd with (⟨-, rfl⟩ | hd) | ⟨-, rfl⟩
  · exact Nat.zero_lt_one
  · exact hinner d hd
  · exact Nat.zero_lt_one

/-- An index has a part for each part of the shape. -/
theorem exists_parts {index : List Nat} (h : List.Forall₂ (· < ·) index g.outer) : ∃ is js ks,
    index = is ++ js ++ ks ∧ is.length = g.front.length ∧ List.Forall₂ (· < ·) js g.middle ∧
      ks.length = g.back.length := by
  have hlead := forall₂_take_append index (g.front ++ g.middle) g.back h
  have hback := forall₂_drop_append index (g.front ++ g.middle) g.back h
  have hfront := forall₂_take_append _ g.front g.middle hlead
  have hmiddle := forall₂_drop_append _ g.front g.middle hlead
  refine ⟨_, _, _, ?_, hfront.length_eq, hmiddle, hback.length_eq⟩
  rw [take_append_drop, take_append_drop]

theorem paired_append {is js ks : List Nat} (his : is.length = g.front.length)
    (hjs : js.length = g.inner.length) :
    g.paired (is ++ js ++ ks) = List.zipWith (fun d k => if d = 1 then 0 else k) g.inner js := by
  rw [paired, append_assoc, ← his, drop_left]
  conv_lhs => rw [← append_nil g.inner]
  rw [zipWith_append hjs.symm, zipWith_nil_left, append_nil]

/-- **What is aligned at the end, or has no axes, is paired as it is.** -/
theorem spreads_of_last {τ : Type*} (h : g.back = [] ∨ g.inner = []) {Y : Tensor τ} (hY : Y.shape = g.inner) :
    Y.Spreads g.outer fun i => Y.entry (g.paired i) := by
  rcases h with h | h
  · refine ⟨?_, fun i hi => ?_⟩
    · rw [hY, outer, h, append_nil]
      exact Tensor.fits_append _ g.agrees
    · have hlen : i.length - g.inner.length = g.front.length := by
        simp [hi.length_eq, outer, h, g.agrees.length_eq]
      rw [hY, Tensor.spread, hlen]
      rfl
  · refine ⟨hY.trans h ▸ Tensor.fits_nil _, fun i hi => ?_⟩
    change Y.entry (Tensor.spread Y.shape i) = Y.entry (g.paired i)
    rw [hY, Tensor.spread, paired, h]
    rfl

/-- **With ones around its shape it is paired as it should be.** -/
theorem spreads_of_moved {τ : Type*} {Y : Tensor τ} (hY : Y.shape = g.inner) :
    (Tensor.mk g.moved fun i => Y.entry (Tensor.indexAt Y.shape (Value.rowMajor g.moved i))).Spreads g.outer
      fun i => Y.entry (g.paired i) := by
  refine ⟨?_, fun index hi => ?_⟩
  · have hlead := rel_append (Tensor.forall₂_ones g.front) g.agrees
    exact Tensor.fits_append [] (rel_append hlead (Tensor.forall₂_ones g.back))
  · obtain ⟨is, js, ks, rfl, his, hjs, hks⟩ := g.exists_parts hi
    have hlen : js.length = g.inner.length := hjs.length_eq.trans g.agrees.length_eq.symm
    have hspread : Tensor.spread g.moved (is ++ js ++ ks) =
        List.replicate g.front.length 0 ++ g.paired (is ++ js ++ ks) ++ List.replicate g.back.length 0 := by
      have hall : (is ++ js ++ ks).length - g.moved.length = 0 := by
        rw [hi.length_eq, g.length_moved, Nat.sub_self]
      rw [Tensor.spread, hall, drop_zero, g.paired_append his hlen, moved, ← his, ← hks,
        zipWith_append (by simp [hlen]), zipWith_append (by simp), zipWith_ones, zipWith_ones]
    dsimp only
    have hpaired : g.paired (is ++ js ++ ks) = _ := g.paired_append his hlen
    rw [hspread, moved, append_assoc, append_assoc, rowMajor_ones_append, rowMajor_append_ones, hY,
      Tensor.indexAt_rowMajor]
    · rw [hpaired]
      exact within_pinned g.agrees hjs
    · rw [hpaired, length_zipWith, hlen, Nat.min_self]

end Alignment

/-! ## What nodes do with them -/

/-- **What a name stands for** where `y` is a tensor: that tensor, or what a node reshapes it to as a constant
says. -/
inductive Reshaped {τ : Type} (E : Elements τ) (version : Int) (ns : List Node) (y : String) (Y : Tensor τ) :
    Value → Tensor τ → Prop
  | itself : Reshaped E version ns y Y (.str y) Y
  | moved {c r : Node} {C Y' : Tensor τ} {s v : Value} (constant : c ∈ ns) (constant_type : c.type = "Constant")
      (constant_outputs : c.outputs = [s]) (reshape : r ∈ ns) (reshape_type : r.type = "Reshape")
      (reshape_inputs : r.inputs = [.str y, s]) (reshape_outputs : r.outputs = [v])
      (shape : resultOf E version c.type c.attrs [] = some C)
      (result : resultOf E version r.type r.attrs [Y, C] = some Y') : Reshaped E version ns y Y v Y'

namespace Alignment

/-- **Nodes pair aligned elements**: one node combines two tensors, and at every index of the outer shape these
are the elements that are aligned. -/
structure PairedBy (g : Alignment) (version : Int) (type x y : String) (ns : List Node) : Prop where
  combines : ∃ n v, ns.filter (fun m => m.type == type) = [n] ∧ n.attrs = [] ∧ n.inputs = [.str x, v] ∧
    ∀ (τ : Type) (E : Elements τ), E.Exact → ∀ X Y : Tensor τ, X.shape = g.outer → Y.shape = g.inner →
      ∃ Y' z, Reshaped E version ns y Y v Y' ∧ resultOf E version n.type n.attrs [X, Y'] = some z ∧
        z.Fills g.outer fun i => E.apply n.type n.attrs [X.entry i, Y.entry (g.paired i)]
  constants : ∀ r ∈ ns, r.type = "Reshape" → ∃ (s : Value) (dims : List Nat), r.inputs = [.str y, s] ∧
    constantIn ns s = some (dims.map Int.ofNat) ∧ dims.length = g.outer.length ∧ dims.prod = g.inner.prod

def mover (j : Nat) (y : String) (k : Nat) : Node :=
  .asked "Reshape" j [.str y, .str (numbered "Constant" k)] [.str (numbered "Reshape" j)] []

/-- The nodes that make a tensor the operand that it has to be: none, or a constant and one that reshapes. -/
inductive Moves (g : Alignment) (y : String) : Value → List Node → Prop
  | none (h : g.back = [] ∨ g.inner = []) : Moves g y (.str y) []
  | reshape (k j : Nat) : Moves g y (.str (numbered "Reshape" j))
      [.constantAt k (.ints (g.moved.map Int.ofNat)), mover j y k]

variable {g : Alignment} {y : String} {v : Value} {pre : List Node}

/-- What the nodes make of the tensor is spread as it should be. -/
theorem Moves.spreads (h : g.Moves y v pre) (version : Int) {τ : Type} {E : Elements τ} (hE : E.Exact)
    {Y : Tensor τ} (hY : Y.shape = g.inner) {ns : List Node} (hns : pre ⊆ ns) :
    ∃ Y', Reshaped E version ns y Y v Y' ∧ Y'.Spreads g.outer fun i => Y.entry (g.paired i) := by
  cases h with
  | none h => exact ⟨Y, .itself, g.spreads_of_last h hY⟩
  | reshape k j =>
    obtain ⟨C, hC, hlists⟩ : ∃ C, resultOf E version "Constant"
        [("dtype", .int ElementType.INT64), ("value", .ints (g.moved.map Int.ofNat))] [] = some C ∧
          listing E (g.moved.map Int.ofNat) C := exists_constant_ints hE _
    have hprod : g.moved.prod = Y.shape.prod := by rw [g.prod_moved, hY]
    have hconstant := hns mem_cons_self
    have hreshape := hns (mem_cons_of_mem _ mem_cons_self)
    exact ⟨_, .moved hconstant rfl rfl hreshape rfl rfl rfl hC (resultOf_reshape hlists g.moved_pos hprod),
      g.spreads_of_moved hY⟩

theorem Moves.types (h : g.Moves y v pre) : ∀ m ∈ pre, m.type = "Constant" ∨ m.type = "Reshape" := by
  cases h with
  | none _ => exact forall_mem_nil _
  | reshape k j => exact forall_mem_cons.2 ⟨Or.inl rfl, forall_mem_singleton.2 (Or.inr rfl)⟩

theorem Moves.constants (h : g.Moves y v pre) {post : List Node} (hpost : ∀ m ∈ post, m.type ≠ "Reshape") :
    ∀ r ∈ pre ++ post, r.type = "Reshape" → ∃ (s : Value) (dims : List Nat), r.inputs = [.str y, s] ∧
      constantIn (pre ++ post) s = some (dims.map Int.ofNat) ∧ dims.length = g.outer.length ∧
        dims.prod = g.inner.prod := by
  intro r hr hreshape
  have hmem := (mem_append.1 hr).resolve_right fun hmem => hpost r hmem hreshape
  cases h with
  | none _ => cases hmem
  | reshape k j =>
    rcases mem_cons.1 hmem with rfl | hmem
    · exact absurd (show "Constant" = "Reshape" from hreshape) (by decide)
    obtain rfl := mem_singleton.1 hmem
    exact ⟨_, g.moved, rfl, constantIn_self k _ _, g.length_moved, g.prod_moved⟩

theorem ne_of_combining {type : String} (h : (type, 2) ∈ elementwiseArity) :
    type ≠ "Constant" ∧ type ≠ "Reshape" ∧ type ≠ "Floor" := by
  refine ⟨?_, ?_, ?_⟩ <;> rintro rfl <;> simp [elementwiseArity] at h

/-- **A node that combines the operands, and no other of its type**, pairs what is aligned. -/
theorem Moves.pairedBy (h : g.Moves y v pre) (version : Int) {type x : String}
    (htype : (type, 2) ∈ elementwiseArity) {n : Node} (hn : n.type = type) (hattrs : n.attrs = [])
    (hinputs : n.inputs = [.str x, v]) {post : List Node} (hpost : ∀ m ∈ post, m.type = "Floor") :
    g.PairedBy version type x y (pre ++ n :: post) := by
  subst hn
  obtain ⟨hconstant, hreshape, hfloor⟩ := ne_of_combining htype
  refine ⟨⟨n, v, ?_, hattrs, hinputs, fun τ E hE X Y hX hY => ?_⟩, h.constants fun m hm => ?_⟩
  · have hbefore : pre.filter (fun m => m.type == n.type) = [] := filter_eq_nil_iff.2 fun m hm heq => by
      rcases h.types m hm with hm | hm
      · exact hconstant ((beq_iff_eq.1 heq).symm.trans hm)
      · exact hreshape ((beq_iff_eq.1 heq).symm.trans hm)
    have hafter : post.filter (fun m => m.type == n.type) = [] := filter_eq_nil_iff.2 fun m hm heq =>
      hfloor ((beq_iff_eq.1 heq).symm.trans (hpost m hm))
    rw [filter_append, hbefore, nil_append, filter_cons, if_pos (beq_self_eq_true n.type), hafter]
  · obtain ⟨Y', hreshaped, hspreads⟩ := h.spreads version hE hY (subset_append_left pre (n :: post))
    have hfills : X.Fills g.outer X.entry := ⟨hX, fun _ _ => rfl⟩
    obtain ⟨z, hz, hzfills⟩ := hfills.pointwise_left (E.apply n.type n.attrs) hspreads
    exact ⟨Y', z, hreshaped, (resultOf_pointwise htype).trans hz, hzfills⟩
  · rcases mem_cons.1 hm with rfl | hm
    · exact hreshape
    · rw [hpost m hm]
      decide

end Alignment

/-! ## The rules -/

/-- The attribute that says where a tensor is aligned: its first axis, or that it is aligned at the end. -/
def Alignment.StartsAt (g : Alignment) (axis : Value) : Prop :=
  axis = .int g.front.length ∨ axis = .int (-1) ∧ g.back = []

/-- **An operator on aligned tensors.** -/
structure OpNode.Aligns (op : OpNode) (x y out : String) (g : Alignment) : Prop where
  first : Assoc.get? op.inputs "X" = some (.strs [x])
  second : Assoc.get? op.inputs "Y" = some (.strs [y])
  output : Assoc.get? op.outputs "Out" = some (.strs [out])
  firstShape : op.inputShape "X" 0 = .ok (g.outer.map Int.ofNat)
  secondShape : op.inputShape "Y" 0 = .ok (g.inner.map Int.ofNat)
  axis : g.StartsAt (op.attr "axis")

namespace Alignment

variable {g : Alignment} {axis : Value}

theorem last_of_plain (haxis : g.StartsAt axis)
    (h : broadcastsPlainly axis (g.outer.map Int.ofNat) (g.inner.map Int.ofNat) = true) :
    g.back = [] ∨ g.inner = [] := by
  rcases haxis with rfl | ⟨-, hback⟩
  · have hlen := g.length_outer
    simp only [broadcastsPlainly, Bool.or_eq_true, Value.same_int_int, length_map, beq_iff_eq,
      Int.ofNat_eq_natCast] at h
    rw [← length_eq_zero_iff, ← length_eq_zero_iff]
    omega
  · exact Or.inl hback

theorem axis_of_not_plain (haxis : g.StartsAt axis)
    (h : ¬ broadcastsPlainly axis (g.outer.map Int.ofNat) (g.inner.map Int.ofNat) = true) :
    axis = .int g.front.length := by
  rcases haxis with rfl | ⟨rfl, -⟩
  · rfl
  · exact absurd (by simp [broadcastsPlainly, (Value.same_int_int (-1) (-1)).2 rfl]) h

theorem alignedShape_eq (g : Alignment) :
    alignedShape (g.outer.map Int.ofNat).length g.front.length (g.inner.map Int.ofNat) = g.moved.map Int.ofNat := by
  have hlen := g.length_outer
  have hi : clampEnd g.outer.length g.front.length = g.front.length := by
    rw [clampEnd_of_nonneg _ (by omega)]
    omega
  have hj : clampEnd g.outer.length ((g.front.length : Int) + g.inner.length) = g.front.length + g.inner.length := by
    rw [clampEnd_of_nonneg _ (by omega)]
    omega
  have hfront : min g.front.length g.outer.length = g.front.length := by omega
  have hback : g.outer.length - (g.front.length + g.inner.length) = g.back.length := by omega
  simp only [alignedShape, replaceSpan, length_replicate, length_map, hi, hj, moved,
    Nat.max_eq_right (Nat.le_add_right g.front.length g.inner.length), take_replicate, drop_replicate,
    hfront, hback, map_append, map_replicate]
  rfl

theorem emission_alignedOperand (haxis : g.StartsAt axis) (y : String) (d : Draft) :
    ∃ d' v pre, Emission (alignedOperand axis (g.outer.map Int.ofNat) (g.inner.map Int.ofNat) (.str y)) d d' v pre ∧
      (∃ s, v = .str s) ∧ g.Moves y v pre := by
  unfold alignedOperand
  by_cases hplain : broadcastsPlainly axis (g.outer.map Int.ofNat) (g.inner.map Int.ofNat) = true
  · rw [if_pos hplain]
    exact ⟨d, .str y, [], (Quiet.pure _).emission rfl, ⟨y, rfl⟩, .none (last_of_plain haxis hplain)⟩
  · rw [if_neg hplain]
    obtain rfl := axis_of_not_plain haxis hplain
    let k := d.count "Constant"
    let c : Node := .constantAt k (.ints (g.moved.map Int.ofNat))
    let j := (d.adding c).count "Reshape"
    have hconstant : Emission (constant ElementType.INT64
        (.ints (alignedShape (g.outer.map Int.ofNat).length g.front.length (g.inner.map Int.ofNat)))) d
        (d.adding c) (.str (numbered "Constant" k)) [c] := by
      rw [alignedShape_eq]
      exact emission_constant rfl _
    have hreshape : Emission (node "Reshape" (.list [.str y, .str (numbered "Constant" k)])) (d.adding c)
        ((d.adding c).adding (mover j y k)) (.str (numbered "Reshape" j)) [mover j y k] :=
      emission_node _ rfl (Or.inr (forall_mem_nil _))
    exact ⟨_, _, _, .computed rfl (hconstant.bind hreshape), ⟨_, rfl⟩, .reshape k j⟩

end Alignment

namespace OpNode.Aligns

variable {op : OpNode} {x y out : String} {g : Alignment}

theorem inputAt_first (h : op.Aligns x y out g) : op.inputAt "X" 0 = .ok (.str x) := by
  simp only [OpNode.inputAt, h.first]
  rfl

theorem inputAt_second (h : op.Aligns x y out g) : op.inputAt "Y" 0 = .ok (.str y) := by
  simp only [OpNode.inputAt, h.second]
  rfl

theorem output_eq (h : op.Aligns x y out g) : op.output "Out" = .ok (.strs [out]) := by
  simp only [OpNode.output, h.output]

end OpNode.Aligns

section Emitted

variable {op : OpNode} {x y out : String} {g : Alignment}

theorem emission_elementwise (h : op.Aligns x y out g) {type : String} (htype : (type, 2) ∈ elementwiseArity)
    (version : Int) (d : Draft) :
    ∃ d' ns, Emission (elementwise type op) d d' () ns ∧ g.PairedBy version type x y ns := by
  obtain ⟨d₁, v, pre, hpre, ⟨s, rfl⟩, hmoves⟩ := Alignment.emission_alignedOperand h.axis y d
  let n := Node.asked type (d₁.count type) [.str x, .str s] [.str out] []
  have hnode : Emission (discard (nodeTo type (.list [.str x, .str s]) (.strs [out]))) d₁ (d₁.adding n) () [n] :=
    (emission_nodeTo d₁ rfl out [] (Or.inr (forall_mem_nil _))).discarded
  refine ⟨d₁.adding n, _, ?_, hmoves.pairedBy version htype (rfl : n.type = type) rfl rfl (forall_mem_nil _)⟩
  unfold elementwise
  exact .computed h.inputAt_first (.computed h.inputAt_second (.computed h.firstShape (.computed h.secondShape
    (hpre.bind (.computed h.output_eq hnode)))))

/-- The codes of element types that have a name. -/
def namedTypes : List Int := [0, 1, 2, 3, 5, 6]

theorem exists_textOf {c : Int} (h : c ∈ namedTypes) : ∃ s, ElementType.textOf (.int c) = .ok s := by
  simp only [namedTypes, mem_cons, not_mem_nil, or_false] at h
  rcases h with rfl | rfl | rfl | rfl | rfl | rfl <;> exact ⟨_, rfl⟩

def OpNode.TypesNamed (op : OpNode) : Prop := ∀ slot ∈ ["X", "Y"], ∃ c ∈ namedTypes, op.inputType slot 0 = .ok c

theorem emission_quotient (h : op.Aligns x y out g) (whole : Bool) (s : String) (d : Draft) : ∃ d' n post,
    Emission (if whole = true then
        liftM (op.output "Out") >>= fun o => discard (nodeTo "Div" (.list [.str x, .str s]) o)
      else node "Div" (.list [.str x, .str s]) >>= fun q =>
        liftM (op.output "Out") >>= fun o => discard (nodeTo "Floor" (.list [q]) o)) d d' () (n :: post) ∧
      n.type = "Div" ∧ n.attrs = [] ∧ n.inputs = [.str x, .str s] ∧ ∀ m ∈ post, m.type = "Floor" := by
  cases whole with
  | true =>
    let n := Node.asked "Div" (d.count "Div") [.str x, .str s] [.str out] []
    have hdiv : Emission (discard (nodeTo "Div" (.list [.str x, .str s]) (.strs [out]))) d (d.adding n) () [n] :=
      (emission_nodeTo d rfl out [] (Or.inr (forall_mem_nil _))).discarded
    exact ⟨_, n, [], .computed h.output_eq hdiv, rfl, rfl, rfl, forall_mem_nil _⟩
  | false =>
    let q := numbered "Div" (d.count "Div")
    let n := Node.asked "Div" (d.count "Div") [.str x, .str s] [.str q] []
    let m := Node.asked "Floor" ((d.adding n).count "Floor") [.str q] [.str out] []
    have hdiv : Emission (node "Div" (.list [.str x, .str s])) d (d.adding n) (.str q) [n] :=
      emission_node d rfl (Or.inr (forall_mem_nil _))
    have hfloor : Emission (discard (nodeTo "Floor" (.list [.str q]) (.strs [out]))) (d.adding n)
        ((d.adding n).adding m) () [m] :=
      (emission_nodeTo _ rfl out [] (Or.inr (forall_mem_nil _))).discarded
    exact ⟨_, n, [m], hdiv.bind (.computed h.output_eq hfloor), rfl, rfl, rfl, forall_mem_singleton.2 rfl⟩

theorem emission_floorDivide (h : op.Aligns x y out g) (hnamed : op.TypesNamed) (version : Int) (d : Draft) :
    ∃ d' ns, Emission (floorDivide op) d d' () ns ∧ g.PairedBy version "Div" x y ns := by
  obtain ⟨cx, hcx, hx⟩ := hnamed "X" (by decide)
  obtain ⟨cy, hcy, hy⟩ := hnamed "Y" (by decide)
  obtain ⟨sx, hsx⟩ := exists_textOf hcx
  obtain ⟨sy, hsy⟩ := exists_textOf hcy
  obtain ⟨d₁, v, pre, hpre, ⟨s, rfl⟩, hmoves⟩ := Alignment.emission_alignedOperand h.axis y d
  obtain ⟨d', n, post, hdiv, hn, hattrs, hinputs, hpost⟩ :=
    emission_quotient h (namesInteger sx && namesInteger sy) s d₁
  refine ⟨d', _, ?_, hmoves.pairedBy version (by decide) hn hattrs hinputs hpost⟩
  unfold floorDivide
  exact .computed h.inputAt_first (.computed h.inputAt_second (.computed h.firstShape (.computed h.secondShape
    (.computed hx (.computed hy (.computed hsx (.computed hsy (hpre.bind hdiv))))))))

end Emitted

/-- The operators that combine two tensors element by element, and what their nodes are. -/
def combinations : List (String × String) :=
  [("elementwise_add", "Add"), ("elementwise_sub", "Sub"), ("elementwise_div", "Div"), ("elementwise_mul", "Mul"),
    ("elementwise_min", "Min"), ("elementwise_max", "Max"), ("elementwise_pow", "Pow"), ("elementwise_mod", "Mod")]

theorem ruleFor_elementwise {t type : String} (h : (t, type) ∈ combinations) {version : Int}
    (hversion : 9 ≤ version) :
    Registry.standard.ruleFor t version = .ok (elementwise type) ∧
      Registry.standard.composite? (.str t) = none ∧ (type, 2) ∈ elementwiseArity := by
  obtain ⟨hrules, hno, harity⟩ : Registry.standard.rulesOf (.str t) = some [(9, elementwise type)] ∧
      Registry.standard.composite? (.str t) = none ∧ (type, 2) ∈ elementwiseArity := by
    simp only [combinations, mem_cons, Prod.mk.injEq, not_mem_nil, or_false] at h
    rcases h with ⟨rfl, rfl⟩ | ⟨rfl, rfl⟩ | ⟨rfl, rfl⟩ | ⟨rfl, rfl⟩ | ⟨rfl, rfl⟩ | ⟨rfl, rfl⟩ | ⟨rfl, rfl⟩ |
        ⟨rfl, rfl⟩ <;>
      exact ⟨rfl, rfl, by decide⟩
  exact ⟨Registry.ruleFor_of_latest hrules rfl hversion (by simp), hno, harity⟩

/-- **Aligned operands stay aligned**: an operator on two tensors, of which the second is aligned at an axis of
the first, is mapped to a node that pairs the same elements at every index.  A quotient to be rounded is mapped
if the element types have names, and refused otherwise. -/
theorem operands_aligned (exportType : ExportType) (depth : Nat) {op : OpNode} {type x y out : String}
    {g : Alignment} (hop : op.Aligns x y out g) {d : Draft}
    (htype : (op.type, type) ∈ combinations ∧ 9 ≤ d.opset ∨
      (op.type = "elementwise_floordiv" ∧ type = "Div") ∧ op.TypesNamed ∧ 7 ≤ d.opset) :
    ∃ d' ns, Emission (mapUpTo Registry.standard exportType (depth + 1) op) d d' () ns ∧
      g.PairedBy d.opset type x y ns := by
  rcases htype with ⟨htype, hversion⟩ | ⟨⟨htype, rfl⟩, hnamed, hversion⟩
  · obtain ⟨hrule, hno, harity⟩ := ruleFor_elementwise htype hversion
    obtain ⟨d', ns, hem, hpaired⟩ := emission_elementwise hop harity d.opset d
    exact ⟨d', ns, emission_mapUpTo_of_rule hno hrule hem, hpaired⟩
  · have hrules : Registry.standard.rulesOf (.str op.type) = some [(7, floorDivide)] := by rw [htype]; rfl
    have hno : Registry.standard.composite? (.str op.type) = none := by rw [htype]; rfl
    have hrule := Registry.ruleFor_of_latest hrules rfl hversion (by simp)
    obtain ⟨d', ns, hem, hpaired⟩ := emission_floorDivide hop hnamed d.opset d
    exact ⟨d', ns, emission_mapUpTo_of_rule hno hrule hem, hpaired⟩

def Alignment.columns : Alignment where
  front := [2]
  middle := [3, 4]
  back := [5]
  inner := [3, 1]
  agrees := .cons (Or.inr rfl) (.cons (Or.inl rfl) .nil)
  positive := by decide

def OpNode.columns : OpNode :=
  { name := "elementwise_add_0", type := "elementwise_add"
    inputs := [("X", .strs ["x"]), ("Y", .strs ["y"])], outputs := [("Out", .strs ["out"])]
    attrs := [("axis", .int 1)]
    block := some { vars := [{ name := "x", shape := [2, 3, 4, 5] }, { name := "y", shape := [3, 1] }], ops := [] } }

theorem operands_aligned_columns :
    (∃ d' ns, Emission (mapUpTo Registry.standard .none 1 .columns) { opset := 9 } d' () ns ∧
      Alignment.columns.PairedBy 9 "Add" "x" "y" ns) ∧ Alignment.columns.paired [1, 2, 3, 4] = [2, 0] := by
  have haligns : OpNode.columns.Aligns "x" "y" "out" .columns :=
    { first := rfl, second := rfl, output := rfl, firstShape := rfl, secondShape := rfl, axis := Or.inl rfl }
  exact ⟨operands_aligned (d := { opset := 9 }) .none 0 haligns (Or.inl ⟨by decide, le_rfl⟩), rfl⟩

end ModelExport
