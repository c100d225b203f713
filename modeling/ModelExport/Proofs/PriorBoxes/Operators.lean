import ModelExport.Proofs.Emission.Asked
import ModelExport.Proofs.PriorBoxes.Counts

/-!
# Proofs/PriorBoxes/Operators — tensors of boxes are filled exactly

    Constant  [height, width, priors, 4]     boxes
    Constant  [height, width, priors, 4]     variances

Operators that lay out boxes allocate a number of slots beforehand and then write boxes cell by cell.  The two agree
(`prior_boxes_fill`): no box goes outside, and none is missing, except for boxes of several sizes in order when a
second ratio is near one, which then has no box of its own.
-/

namespace ModelExport

open Emit List Rules

/-! ## Constants -/

/-- **A constant whose numbers fill its dimensions**, as it stands in a model. -/
structure Node.Holds (n : Node) (out : String) (dims : List Nat) (vals : List Value) : Prop where
  type : n.type = "Constant"
  outputs : n.outputs = [.str out]
  tensor : ∃ r c, n.record = some r ∧ r.attrs = [("value", .tensor c)] ∧
    c.dims = .tuple (dims.map fun k : Nat => .int k) ∧ c.vals = .list vals
  full : vals.length = dims.prod

/-- **An operator that lays out boxes** on a grid: where its boxes and variances go. -/
structure OpNode.LaysOut (op : OpNode) (g : Grid) (boxes variances : String) : Prop where
  feature : ∃ n c, op.inputShape "Input" 0 = .ok [n, c, g.height, g.width]
  image : ∃ n c, op.inputShape "Image" 0 = .ok [n, c, g.imageHeight, g.imageWidth]
  extents : ∀ k ∈ [g.height, g.width, g.imageHeight, g.imageWidth], 0 < k ∧ k < 2 ^ 63
  boxes : Assoc.get? op.outputs "Boxes" = some (.strs [boxes])
  variances : Assoc.get? op.outputs "Variances" = some (.strs [variances])

namespace OpNode.LaysOut

variable {op : OpNode} {g : Grid} {boxes variances : String}

theorem gridOf_eq (h : op.LaysOut g boxes variances) : gridOf op = .ok g := by
  obtain ⟨n, c, hfeature⟩ := h.feature
  obtain ⟨m, e, himage⟩ := h.image
  rw [gridOf, hfeature, except_ok_bind, himage]
  rfl

theorem fixed (h : op.LaysOut g boxes variances) :
    (decide (g.imageWidth > 0) && decide (g.imageHeight > 0)) = true := by
  have hsizes := h.extents
  simp only [forall_mem_cons] at hsizes
  simp only [Bool.and_eq_true, decide_eq_true_eq]
  exact ⟨hsizes.2.2.2.1.1, hsizes.2.2.1.1⟩

theorem emission_emitBoxes (h : op.LaysOut g boxes variances) (d : Draft) {dims dims' : List Nat}
    {vals vals' : List Value} (hfull : vals.length = dims.prod) (hfull' : vals'.length = dims'.prod) :
    ∃ d' b v, Emission (emitBoxes op (.tuple (dims.map fun k : Nat => .int k), vals)
        (.tuple (dims'.map fun k : Nat => .int k), vals')) d d' () [b, v] ∧
      b.Holds boxes dims vals ∧ v.Holds variances dims' vals' := by
  have hboxes : op.output "Boxes" = .ok (.strs [boxes]) := by simp only [OpNode.output, h.boxes]
  have hvariances : op.output "Variances" = .ok (.strs [variances]) := by simp only [OpNode.output, h.variances]
  exact ⟨_, _, _, .computed hboxes ((emission_nodeTo d rfl boxes [] (Or.inl rfl)).discarded.bind
    (.computed hvariances (emission_nodeTo _ rfl variances [] (Or.inl rfl)).discarded)),
    ⟨rfl, rfl, ⟨_, _, rfl, rfl, rfl, rfl⟩, hfull⟩, ⟨rfl, rfl, ⟨_, _, rfl, rfl, rfl, rfl⟩, hfull'⟩⟩

theorem dims_eq (h : op.LaysOut g boxes variances) (priors last : Nat) :
    g.dims priors last = .tuple ([g.height.toNat, g.width.toNat, priors, last].map fun k : Nat => .int k) := by
  have hsizes := h.extents
  simp only [forall_mem_cons] at hsizes
  simp only [Grid.dims, map_cons, map_nil, Int.toNat_of_nonneg hsizes.1.1.le,
    Int.toNat_of_nonneg hsizes.2.1.1.le]

theorem not_negative (h : op.LaysOut g boxes variances) :
    ¬ (decide (g.height < 0) || decide (g.width < 0)) = true := by
  have hsizes := h.extents
  simp only [forall_mem_cons] at hsizes
  simp only [Bool.or_eq_true, decide_eq_true_eq]
  omega

end OpNode.LaysOut

/-! ## Numbers among the attributes -/

theorem doubles_floats (xs : List Float) : doubles (floats xs) = .ok xs := by
  change (xs.map Value.float).mapM Value.toFloat = .ok xs
  induction xs with
  | nil => rfl
  | cons x xs ih =>
    rw [map_cons, mapM_cons, ih]
    rfl

/-- **Steps between cells** are not larger than those that are given, or than the image. -/
theorem exists_steps {g : Grid} (hg : ∀ k ∈ [g.height, g.width, g.imageHeight, g.imageWidth], 0 < k ∧ k < 2 ^ 63)
    (w h : Float) : ∃ a b, g.steps (.float w) (.float h) = .ok (.float a, .float b) ∧
      (w.abs < 1e39 → h.abs < 1e39 → Double.Under 130 (Double.reading a) ∧ Double.Under 130 (Double.reading b)) := by
  simp only [forall_mem_cons, not_mem_nil, false_implies, implies_true, and_true] at hg
  obtain ⟨hheight, hwidth, himageHeight, himageWidth⟩ := hg
  unfold Grid.steps
  split
  · have hstep : ∀ {m n : Int}, 0 < m ∧ m < 2 ^ 63 → 0 < n ∧ n < 2 ^ 63 →
        ∃ x, Value.div (.int m) (.int n) = .ok (.float x) ∧ Double.Under 130 (Double.reading x) :=
      fun {m n} hm hn => by
        obtain ⟨x, hx, hunder⟩ := Double.exists_div (a := m) (b := n) (k := 63) (by omega) (by omega) (by decide)
        exact ⟨x, hx, hunder.mono (by decide)⟩
    obtain ⟨a, hdiv, ha⟩ := hstep himageWidth hwidth
    obtain ⟨b, hdiv', hb⟩ := hstep himageHeight hheight
    refine ⟨a, b, ?_, fun _ _ => ⟨ha, hb⟩⟩
    rw [hdiv, except_ok_bind, hdiv']
    rfl
  · exact ⟨w, h, rfl, fun hw hh => ⟨Double.under_of_abs_lt hw, Double.under_of_abs_lt hh⟩⟩

/-! ## Boxes of several sizes and ratios -/

/-- **An operator with boxes of several sizes and ratios**, all of them greater than zero. -/
structure OpNode.LaysPriors (op : OpNode) (g : Grid) (boxes variances : String) (given least greatest : List Float) :
    Prop extends op.LaysOut g boxes variances where
  type : op.type = "prior_box"
  minSizes : doubles (op.attr "min_sizes") = .ok least
  maxSizes : doubles (op.attr "max_sizes") = .ok greatest
  aspectRatios : givenRatios (op.attr "aspect_ratios") = .ok given
  fourVariances : ∃ vs, doubles (op.attr "variances") = .ok vs ∧ vs.length = 4
  steps : ∃ w h, (op.attr "step_w").toFloat = .ok w ∧ (op.attr "step_h").toFloat = .ok h
  offset : ∃ x, (op.attr "offset").toFloat = .ok x
  positive : ∀ s ∈ least ++ greatest, 0.0 < s
  positiveRatios : ∀ r ∈ given, 0.0 < r ∧ r.isFinite = true
  some : least ≠ []
  paired : greatest = [] ∨ greatest.length = least.length

section Priors

variable {op : OpNode} {g : Grid} {boxes variances : String} {given least greatest : List Float}

/-- What the boxes of an operator depend on. -/
structure OpNode.ReadsPriors (op : OpNode) (p : PriorParameters) (g : Grid) (given least greatest rest : List Float) :
    Prop where
  run : ∀ d, Emission (priorParameters op) d d p []
  grid : p.grid = g
  ordered : p.ordered = (op.attr "min_max_aspect_ratios_order").truthy
  expanded : expandRatios (op.attr "flip").truthy [.float 1.0] (given.map .float) = .ok (p.ratios.map .float)
  ratios : p.ratios = 1.0 :: rest
  least : p.least = least
  greatest : p.greatest = greatest
  variances : p.variances.length = 4

theorem exists_priorParameters (h : op.LaysPriors g boxes variances given least greatest) :
    ∃ p rest, op.ReadsPriors p g given least greatest rest ∧ ∀ r ∈ rest, 0.0 < r := by
  obtain ⟨vs, hvs, hfour⟩ := h.fourVariances
  obtain ⟨w, k, hw, hk⟩ := h.steps
  obtain ⟨x, hx⟩ := h.offset
  obtain ⟨rest, hexpanded, hrest⟩ := exists_expandRatios (op.attr "flip").truthy [1.0] h.positiveRatios
  obtain ⟨a, b, hsteps, -⟩ := exists_steps h.extents w k
  let p : PriorParameters :=
    { grid := g, ordered := (op.attr "min_max_aspect_ratios_order").truthy, ratios := 1.0 :: rest, least, greatest
      variances := vs, stepWidth := a, stepHeight := b, offset := x }
  refine ⟨p, rest, ⟨fun d => ?_, rfl, rfl, hexpanded, rfl, rfl, rfl, hfour⟩, hrest⟩
  refine .computed h.minSizes (.computed h.maxSizes (.computed h.aspectRatios (.computed hvs (.computed hexpanded
    (.computed (doubles_floats _) (.computed hw (.computed hk (.computed hx (.computed h.gridOf_eq ?_)))))))))
  dsimp only
  rw [if_pos h.fixed]
  exact .computed hsteps (.computed rfl (.computed rfl ((Quiet.pure p).emission rfl)))

/-- **The boxes of a cell** are as many as its sizes bring. -/
theorem OpNode.ReadsPriors.exists_boxes {p : PriorParameters} {rest : List Float}
    (h : op.LaysPriors g boxes variances given least greatest) (hp : op.ReadsPriors p g given least greatest rest)
    (hrest : ∀ r ∈ rest, 0.0 < r) (k l : Int) : ∃ bs, p.boxes k l = .ok bs ∧
      bs.length = least.length * perSize p.ordered (1.0 :: rest) + greatest.length := by
  obtain ⟨hleast, hgreatest⟩ := forall_mem_append.1 h.positive
  have hratios : ∀ r ∈ (1.0 :: rest : List Float), 0.0 < r := forall_mem_cons.2 ⟨Double.lt_iff.2 rfl, hrest⟩
  obtain ⟨es, hes, hlength⟩ := exists_cellExtents p.ordered (i := 0) hratios hgreatest hleast
    (h.paired.imp_right fun hpaired => by omega)
  have hpairs : least.length * (if greatest = [] then 0 else 1) = greatest.length := by
    rcases h.paired with rfl | hpaired
    · rfl
    · split
      · rename_i hnone
        rw [hnone]
        rfl
      · omega
  rw [PriorParameters.boxes, hp.ratios, hp.least, hp.greatest, hes]
  exact ⟨_, rfl, by rw [length_map, hlength, Nat.mul_add, hpairs]⟩

/-- **There is room for the boxes of a cell**, and they take all of it if and only if each size brings one box for
each ratio. -/
theorem OpNode.ReadsPriors.room {p : PriorParameters} {rest : List Float}
    (h : op.LaysPriors g boxes variances given least greatest) (hp : op.ReadsPriors p g given least greatest rest)
    (hrest : ∀ r ∈ rest, 0.0 < r) :
    least.length * perSize p.ordered (1.0 :: rest) + greatest.length ≤ p.priors ∧
      (least.length * perSize p.ordered (1.0 :: rest) + greatest.length = p.priors ↔
        (p.ordered = true → ∀ r ∈ rest, ¬ NearOne r)) := by
  have hpriors : p.priors = least.length * (1.0 :: rest).length + greatest.length := by
    rw [PriorParameters.priors, hp.ratios, hp.least, hp.greatest, Nat.mul_comm]
  rw [hpriors, Nat.add_right_cancel_iff, ← perSize_eq_iff hrest]
  exact ⟨Nat.add_le_add_right (Nat.mul_le_mul_left _ (perSize_le ..)) _,
    Nat.mul_right_inj (length_pos_of_ne_nil h.some).ne'⟩

/-- **Boxes of several sizes and ratios are laid out** as the parameters say. -/
theorem emission_priorBox (h : op.LaysPriors g boxes variances given least greatest) (d : Draft) :
    ∃ d' b v, ∃ (p : PriorParameters) (rest : List Float) (cells : List (List (GridCell p.priors))),
      Emission (priorBox op) d d' () [b, v] ∧ op.ReadsPriors p g given least greatest rest ∧
      LaidOut g p.boxes (p.ordered = true → ∀ r ∈ rest, ¬ NearOne r) cells ∧
      b.Holds boxes [g.height.toNat, g.width.toNat, p.priors, 4]
        ((cellNumbers (op.attr "clip").truthy cells).map .float) ∧
      v.Holds variances [g.height.toNat, g.width.toNat, p.priors, 4] ((List.replicate
        (g.height.toNat * g.width.toNat * p.priors) p.variances).flatten.map .float) := by
  obtain ⟨p, rest, hp, hrest⟩ := exists_priorParameters h
  obtain ⟨hroom, honce⟩ := hp.room h hrest
  obtain ⟨cells, hcells⟩ := exists_laidOut (g := g) hroom fun k _ l _ => hp.exists_boxes h hrest k l
  rw [honce] at hcells
  have hfull : ((cellNumbers (op.attr "clip").truthy cells).map Value.float).length =
      [g.height.toNat, g.width.toNat, p.priors, 4].prod := by
    rw [length_map, hcells.length_cellNumbers]
    simp only [prod_cons, prod_nil]
    ring
  have hfull' : ((List.replicate (g.height.toNat * g.width.toNat * p.priors) p.variances).flatten.map
      Value.float).length = [g.height.toNat, g.width.toNat, p.priors, 4].prod := by
    rw [length_map, length_flatten, map_replicate, sum_replicate_nat, hp.variances]
    simp only [prod_cons, prod_nil]
    ring
  obtain ⟨d', b, v, hemits, hb, hv⟩ := h.emission_emitBoxes d hfull hfull'
  refine ⟨d', b, v, p, rest, cells, (hp.run d).bind ?_, hp, hcells, hb, hv⟩
  rw [hp.grid]
  dsimp only
  rw [if_neg h.not_negative]
  refine .computed hcells.cells_eq ?_
  rw [hp.variances, h.dims_eq]
  exact hemits

end Priors

/-! ## Boxes by density -/

/-- **An operator with boxes by density**, its densities paired with sizes and its ratios greater than zero.  Steps are
no larger than single-precision numbers. -/
structure OpNode.LaysDensities (op : OpNode) (g : Grid) (boxes variances : String) (densities : List Nat)
    (sizes ratios : List Float) : Prop extends op.LaysOut g boxes variances where
  type : op.type = "density_prior_box"
  givenDensities : op.attr "densities" = .ints (densities.map Int.ofNat)
  fixedSizes : op.attr "fixed_sizes" = floats sizes
  fixedRatios : op.attr "fixed_ratios" = floats ratios
  fourVariances : ∃ vs, op.attr "variances" = floats vs ∧ vs.length = 4
  steps : ∃ w h, op.attr "step_w" = .float w ∧ op.attr "step_h" = .float h ∧ w.abs < 1e39 ∧ h.abs < 1e39
  offset : ∃ x, op.attr "offset" = .float x
  positive : ∀ d ∈ densities, 0 < d
  positiveRatios : ∀ r ∈ ratios, 0.0 < r
  paired : densities.length = sizes.length

section Densities

variable {op : OpNode} {g : Grid} {boxes variances : String} {densities : List Nat} {sizes ratios : List Float}

/-- What the boxes of an operator depend on. -/
structure OpNode.ReadsDensities (op : OpNode) (p : DensityParameters) (g : Grid) (densities : List Nat)
    (sizes ratios : List Float) : Prop where
  run : ∀ d, Emission (densityParameters op) d d p []
  grid : p.grid = g
  priors : p.priors = denseCount densities ratios.length
  densities : p.densities = .ints (densities.map Int.ofNat)
  sizes : p.sizes = floats sizes
  ratios : p.ratios = floats ratios
  steps : ∃ a b, p.stepWidth = .float a ∧ p.stepHeight = .float b
  offset : ∃ x, p.offset = .float x
  average : p.average.natAbs < 2 ^ 200

theorem exists_densityParameters (h : op.LaysDensities g boxes variances densities sizes ratios) :
    ∃ p, op.ReadsDensities p g densities sizes ratios := by
  obtain ⟨w, k, hw, hk, hwidth, hheight⟩ := h.steps
  obtain ⟨x, hx⟩ := h.offset
  obtain ⟨a, b, hsteps, hbounds⟩ := exists_steps h.extents w k
  obtain ⟨ha, hb⟩ := hbounds hwidth hheight
  obtain ⟨average, haverage, hsmall⟩ := Double.exists_truncate (k := 133)
    ((ha.add hb (by decide) (by decide)).half (by decide) (by decide))
  let p : DensityParameters :=
    { grid := g, densities := op.attr "densities", sizes := op.attr "fixed_sizes", ratios := op.attr "fixed_ratios"
      offset := op.attr "offset", stepWidth := .float a, stepHeight := .float b, average
      priors := denseCount densities ratios.length }
  refine ⟨p, fun d => ?_, rfl, rfl, h.givenDensities, h.fixedSizes, h.fixedRatios, ⟨a, b, rfl, rfl⟩, ⟨x, hx⟩,
    hsmall.trans (Nat.pow_lt_pow_right (by decide) (by decide))⟩
  have hsteps' : g.steps (op.attr "step_w") (op.attr "step_h") = .ok (.float a, .float b) := by rw [hw, hk, hsteps]
  have hpriors : densePriors (op.attr "fixed_sizes") (op.attr "densities") (op.attr "fixed_ratios") =
      .ok (.int (denseCount densities ratios.length)) := by
    rw [h.fixedSizes, h.givenDensities, h.fixedRatios, densePriors_eq h.paired]
  refine .computed h.gridOf_eq ?_
  dsimp only
  rw [if_pos h.fixed]
  refine .computed hsteps' (.computed hpriors (.computed rfl ?_))
  dsimp only
  rw [if_neg h.not_negative]
  exact .computed rfl (.computed rfl (.computed haverage ((Quiet.pure p).emission rfl)))

theorem exists_centre {k : Int} (hlow : 0 ≤ k) (hhigh : k < 2 ^ 63) (x step : Float) :
    ∃ u v c, Value.add (.int k) (.float x) = .ok u ∧ u.mul (.float step) = .ok v ∧ double v = .ok c := by
  obtain ⟨y, hy⟩ := Double.exists_ofInt (a := k) (k := 63) (by omega) (by decide)
  refine ⟨.float (y + x), .float ((y + x) * step), (y + x) * step, ?_, rfl, rfl⟩
  change (do let a ← (Number.exact k).toFloat; Except.ok (Value.float (a + x))) = _
  rw [hy]
  rfl

/-- **The boxes of a cell** are as many as its densities bring. -/
theorem OpNode.ReadsDensities.exists_boxes {p : DensityParameters}
    (h : op.LaysDensities g boxes variances densities sizes ratios) (hp : op.ReadsDensities p g densities sizes ratios)
    {k l : Int} (hk : k ∈ Rules.upTo g.height) (hl : l ∈ Rules.upTo g.width) :
    ∃ bs, p.boxes k l = .ok bs ∧ bs.length = denseCount densities ratios.length := by
  obtain ⟨a, b, ha, hb⟩ := hp.steps
  obtain ⟨x, hx⟩ := hp.offset
  have hsizes := h.extents
  simp only [forall_mem_cons] at hsizes
  have hk := mem_upTo hk
  have hl := mem_upTo hl
  obtain ⟨s, t, y, hs, ht, hy⟩ := exists_centre hl.1 (by omega) x a
  obtain ⟨u, v, z, hu, hv, hz⟩ := exists_centre hk.1 (by omega) x b
  rw [DensityParameters.boxes, hx, ha, hb, hs, except_ok_bind, ht, except_ok_bind, hy, except_ok_bind, hu,
    except_ok_bind, hv, except_ok_bind, hz, except_ok_bind, hp.densities, hp.sizes, hp.ratios]
  exact exists_denseCell p.grid y z hp.average h.positive h.positiveRatios h.paired

theorem rowsOfFour_eq {elements : List Value} {n : Nat} (h : elements.length = n * 4) :
    rowsOfFour elements = .ok (.tuple ([n, 4].map fun k : Nat => .int k)) := by
  have hrest : elements.length % 4 = 0 := by omega
  have hrows : elements.length / 4 = n := by omega
  rw [rowsOfFour, hrest, hrows]
  rfl

/-- The dimensions of boxes by density: those of the grid, or one row for each slot. -/
def slotDims (flat : Bool) (g : Grid) (priors : Nat) : List Nat :=
  if flat then [g.height.toNat * g.width.toNat * priors, 4] else [g.height.toNat, g.width.toNat, priors, 4]

theorem prod_slotDims (flat : Bool) (g : Grid) (priors : Nat) :
    (slotDims flat g priors).prod = g.height.toNat * g.width.toNat * priors * 4 := by
  unfold slotDims
  split
  · simp only [prod_cons, prod_nil, Nat.mul_one]
  · simp only [prod_cons, prod_nil]
    ring

/-- **Boxes by density are laid out** as the parameters say. -/
theorem emission_densityPriorBox (h : op.LaysDensities g boxes variances densities sizes ratios) (d : Draft) :
    ∃ d' b v, ∃ (p : DensityParameters) (vs : List Value) (cells : List (List (GridCell p.priors.toNat))),
      Emission (densityPriorBox op) d d' () [b, v] ∧ op.ReadsDensities p g densities sizes ratios ∧ LaidOut g p.boxes True cells ∧
      b.Holds boxes (slotDims (op.attr "flatten_to_2d").truthy g p.priors.toNat)
        ((cellNumbers (op.attr "clip").truthy cells).map .float) ∧
      v.Holds variances (slotDims (op.attr "flatten_to_2d").truthy g p.priors.toNat)
        (List.replicate (g.height.toNat * g.width.toNat * p.priors.toNat) vs).flatten := by
  obtain ⟨p, hp⟩ := exists_densityParameters h
  have hcount : denseCount densities ratios.length = p.priors.toNat := by rw [hp.priors, Int.toNat_natCast]
  obtain ⟨cells, hcells⟩ := exists_laidOut (g := g) hcount.le fun k hk l hl => hp.exists_boxes h hk hl
  rw [eq_true hcount] at hcells
  obtain ⟨fs, hfs, hfour⟩ := h.fourVariances
  obtain ⟨vs, hvs, hlength⟩ : ∃ vs, arrayElements (op.attr "variances") = .ok vs ∧ vs.length = 4 := by
    obtain ⟨a, b, c, e, rfl⟩ := length_eq_four.1 hfour
    rw [hfs]
    exact ⟨_, rfl, rfl⟩
  have hfull : ((cellNumbers (op.attr "clip").truthy cells).map Value.float).length =
      g.height.toNat * g.width.toNat * p.priors.toNat * 4 := by
    rw [length_map, hcells.length_cellNumbers]
  have hfull' : (List.replicate (g.height.toNat * g.width.toNat * p.priors.toNat) vs).flatten.length =
      g.height.toNat * g.width.toNat * p.priors.toNat * 4 := by
    rw [length_flatten, map_replicate, sum_replicate_nat, hlength]
  obtain ⟨d', b, v, hemits, hb, hv⟩ := h.emission_emitBoxes d
    (hfull.trans (prod_slotDims (op.attr "flatten_to_2d").truthy g p.priors.toNat).symm)
    (hfull'.trans (prod_slotDims (op.attr "flatten_to_2d").truthy g p.priors.toNat).symm)
  refine ⟨d', b, v, p, vs, cells, (hp.run d).bind ?_, hp, hcells, hb, hv⟩
  rw [hp.grid]
  refine .computed hcells.cells_eq (.computed hvs ?_)
  dsimp only
  by_cases hflat : (op.attr "flatten_to_2d").truthy = true
  · rw [if_pos hflat]
    refine .computed (rowsOfFour_eq hfull) (.computed (rowsOfFour_eq hfull') ?_)
    rwa [slotDims, if_pos hflat] at hemits
  · have hdims := h.dims_eq p.priors.toNat 4
    rw [Int.toNat_of_nonneg (by rw [hp.priors]; omega)] at hdims
    rw [if_neg hflat, hlength, hdims]
    rwa [slotDims, if_neg hflat] at hemits

end Densities

/-! ## Both -/

/-- **Tensors of boxes are filled exactly.**  Boxes go to the slots 0, 1, 2, … of their cell, none of them outside, and
the constants hold as many numbers as their dimensions say.  Each slot is written exactly once by boxes by density, and
by boxes of several sizes if and only if they are not in order, or none of their ratios but the first is near one. -/
theorem prior_boxes_fill (exportType : ExportType) (depth : Nat) {d : Draft} (hversion : 9 ≤ d.opset) :
    (∀ {op : OpNode} {g : Grid} {boxes variances : String} {given least greatest : List Float},
      op.LaysPriors g boxes variances given least greatest →
      ∃ d' b v, ∃ (p : PriorParameters) (rest : List Float) (cells : List (List (GridCell p.priors))),
        Emission (mapUpTo Registry.standard exportType (depth + 1) op) d d' () [b, v] ∧
        op.ReadsPriors p g given least greatest rest ∧
        LaidOut g p.boxes (p.ordered = true → ∀ r ∈ rest, ¬ NearOne r) cells ∧
        b.Holds boxes [g.height.toNat, g.width.toNat, p.priors, 4]
          ((cellNumbers (op.attr "clip").truthy cells).map .float) ∧
        v.Holds variances [g.height.toNat, g.width.toNat, p.priors, 4] ((List.replicate
          (g.height.toNat * g.width.toNat * p.priors) p.variances).flatten.map .float)) ∧
    ∀ {op : OpNode} {g : Grid} {boxes variances : String} {densities : List Nat} {sizes ratios : List Float},
      op.LaysDensities g boxes variances densities sizes ratios →
      ∃ d' b v, ∃ (p : DensityParameters) (vs : List Value) (cells : List (List (GridCell p.priors.toNat))),
        Emission (mapUpTo Registry.standard exportType (depth + 1) op) d d' () [b, v] ∧
        op.ReadsDensities p g densities sizes ratios ∧ LaidOut g p.boxes True cells ∧
        b.Holds boxes (slotDims (op.attr "flatten_to_2d").truthy g p.priors.toNat)
          ((cellNumbers (op.attr "clip").truthy cells).map .float) ∧
        v.Holds variances (slotDims (op.attr "flatten_to_2d").truthy g p.priors.toNat)
          (List.replicate (g.height.toNat * g.width.toNat * p.priors.toNat) vs).flatten := by
  constructor
  · intro op g boxes variances given least greatest h
    have hno : Registry.standard.composite? (.str op.type) = none := by rw [h.type]; rfl
    have hrules : Registry.standard.rulesOf (.str op.type) = some [(9, priorBox)] := by rw [h.type]; rfl
    obtain ⟨d', b, v, p, rest, cells, hemits, hrest⟩ := emission_priorBox h d
    exact ⟨d', b, v, p, rest, cells,
      emission_mapUpTo_of_rule hno (Registry.ruleFor_of_latest hrules rfl hversion (by simp)) hemits, hrest⟩
  · intro op g boxes variances densities sizes ratios h
    have hno : Registry.standard.composite? (.str op.type) = none := by rw [h.type]; rfl
    have hrules : Registry.standard.rulesOf (.str op.type) = some [(9, densityPriorBox)] := by rw [h.type]; rfl
    obtain ⟨d', b, v, p, vs, cells, hemits, hrest⟩ := emission_densityPriorBox h d
    exact ⟨d', b, v, p, vs, cells,
      emission_mapUpTo_of_rule hno (Registry.ruleFor_of_latest hrules rfl hversion (by simp)) hemits, hrest⟩

def pairOfCells : Grid := { imageHeight := 16, imageWidth := 32, height := 1, width := 2 }

/-- What operators that lay out boxes on this grid have in common. -/
def OpNode.laying (type : String) (attrs : Attrs) : OpNode :=
  { name := type ++ "_0", type, inputs := [("Input", .strs ["x"]), ("Image", .strs ["image"])]
    outputs := [("Boxes", .strs ["boxes"]), ("Variances", .strs ["variances"])]
    attrs := ("variances", floats [0.1, 0.1, 0.2, 0.2]) :: ("step_w", .float 0.0) :: ("step_h", .float 0.0) ::
      ("offset", .float 0.5) :: attrs
    block := some
      { vars := [{ name := "x", shape := [1, 8, 1, 2] }, { name := "image", shape := [1, 3, 16, 32] }], ops := [] } }

theorem OpNode.laysOut_laying (type : String) (attrs : Attrs) :
    (laying type attrs).LaysOut pairOfCells "boxes" "variances" where
  feature := ⟨1, 8, rfl⟩
  image := ⟨1, 3, rfl⟩
  extents := by decide
  boxes := rfl
  variances := rfl

/-- A ratio that is not near one, but has an inverse near one; boxes are flipped and in order. -/
def OpNode.layingInverse : OpNode :=
  laying "prior_box" [("min_sizes", floats [4.0, 8.0]), ("max_sizes", floats [6.0, 9.0]),
    ("aspect_ratios", floats [1.0000010000005]), ("flip", .bool true), ("clip", .bool true),
    ("min_max_aspect_ratios_order", .bool true)]

def OpNode.layingDense : OpNode :=
  laying "density_prior_box" [("densities", .ints [2, 1]), ("fixed_sizes", floats [4.0, 8.0]),
    ("fixed_ratios", floats [1.0]), ("flatten_to_2d", .bool true), ("clip", .bool false)]

theorem OpNode.laysPriors_layingInverse :
    layingInverse.LaysPriors pairOfCells "boxes" "variances" [1.0000010000005] [4.0, 8.0] [6.0, 9.0] :=
  { laysOut_laying .. with
    type := rfl
    minSizes := rfl
    maxSizes := rfl
    aspectRatios := rfl
    fourVariances := ⟨_, rfl, rfl⟩
    steps := ⟨_, _, rfl, rfl⟩
    offset := ⟨_, rfl⟩
    positive := by
      simp only [cons_append, nil_append, forall_mem_cons, not_mem_nil, false_implies, implies_true,
        and_true]
      exact ⟨Double.lt_iff.2 rfl, Double.lt_iff.2 rfl, Double.lt_iff.2 rfl, Double.lt_iff.2 rfl⟩
    positiveRatios := forall_mem_singleton.2 ⟨Double.lt_iff.2 rfl, rfl⟩
    some := cons_ne_nil _ _
    paired := Or.inr (rfl : 2 = 2) }

theorem OpNode.laysDensities_layingDense :
    layingDense.LaysDensities pairOfCells "boxes" "variances" [2, 1] [4.0, 8.0] [1.0] :=
  have hzero : (0.0 : Float).abs < 1e39 := Double.lt_iff.2 (by rw [Double.reading_aboveSingles]; rfl)
  { laysOut_laying .. with
    type := rfl
    givenDensities := rfl
    fixedSizes := rfl
    fixedRatios := rfl
    fourVariances := ⟨_, rfl, rfl⟩
    steps := ⟨0.0, 0.0, rfl, rfl, hzero, hzero⟩
    offset := ⟨_, rfl⟩
    positive := by decide
    positiveRatios := forall_mem_singleton.2 (Double.lt_iff.2 rfl)
    paired := rfl }

theorem expandRatios_inverse : expandRatios true [.float 1.0] [.float 1.0000010000005] =
    .ok [.float 1.0, .float 1.0000010000005, .float (1.0 / 1.0000010000005)] := rfl

theorem nearOne_inverse : NearOne (1.0 / 1.0000010000005) :=
  (Double.abs_sub_one_lt_iff (Double.lt_iff.2 (by decide +kernel))).1 (Double.lt_iff.2 (by decide +kernel))

/-- **A ratio whose inverse is near one leaves slots blank** in order, six of the eight slots of a cell being written;
boxes by density take all five. -/
theorem prior_boxes_fill_inverse :
    (∃ d' b v, ∃ (p : PriorParameters) (cells : List (List (GridCell p.priors))),
      Emission (mapUpTo Registry.standard .none 1 .layingInverse) { opset := 9 } d' () [b, v] ∧ p.priors = 8 ∧
      LaidOut pairOfCells p.boxes False cells ∧
      b.Holds "boxes" [1, 2, p.priors, 4] ((cellNumbers true cells).map .float)) ∧
    ∃ d' b v, ∃ (p : DensityParameters) (cells : List (List (GridCell p.priors.toNat))),
      Emission (mapUpTo Registry.standard .none 1 .layingDense) { opset := 9 } d' () [b, v] ∧ p.priors = 5 ∧
      LaidOut pairOfCells p.boxes True cells ∧
      b.Holds "boxes" [1 * 2 * p.priors.toNat, 4] ((cellNumbers false cells).map .float) := by
  obtain ⟨hpriors, hdense⟩ := prior_boxes_fill .none 0 (d := { opset := 9 }) (by decide)
  constructor
  · obtain ⟨d', b, v, p, rest, cells, hemits, hp, hlaid, hb, -⟩ := hpriors OpNode.laysPriors_layingInverse
    have hratios : p.ratios = [1.0, 1.0000010000005, 1.0 / 1.0000010000005] :=
      List.map_injective_iff.2 (fun _ _ => Value.float.inj)
        (Except.ok.inj (hp.expanded.symm.trans expandRatios_inverse))
    have hrest : rest = [1.0000010000005, 1.0 / 1.0000010000005] := (List.cons.inj (hp.ratios.symm.trans hratios)).2
    have hblank : (p.ordered = true → ∀ r ∈ rest, ¬ NearOne r) = False :=
      eq_false fun hall => hall hp.ordered _ (hrest ▸ List.mem_cons_of_mem _ List.mem_cons_self) nearOne_inverse
    exact ⟨d', b, v, p, cells, hemits, by rw [PriorParameters.priors, hratios, hp.least, hp.greatest]; rfl,
      hblank ▸ hlaid, hb⟩
  · obtain ⟨d', b, v, p, -, cells, hemits, hp, hlaid, hb, -⟩ := hdense OpNode.laysDensities_layingDense
    exact ⟨d', b, v, p, cells, hemits, hp.priors, hlaid, hb⟩

end ModelExport
