import ModelExport.Proofs.Emission.Outcomes
import ModelExport.Proofs.Recurrent.Parts
import ModelExport.Proofs.Tensors.Steps

/-!
# Proofs/Clipping — where the bounds of a tensor come from

    given        lower bound                   upper bound
    —            the number                    the number
    Max          the number                    Max
    Min          nothing                       the number or Max, if Min has no axes
                                               a sum of nothing, if it has

A bound may be given as a number or as a tensor.  The lower one is looked for under a name that no operator has
for it, and a lower bound with axes also takes the place of the upper one.  So the lower bound is right only
where no tensor is given for it, and the upper one where the lower has no axes (`clip_bounds_iff`).
-/

namespace ModelExport

open Emit List Rules

/-! ## Where a tensor comes from -/

/-- **A tensor is computed from another**, by one or several nodes. -/
inductive ComputedFrom (ns : List Node) (u : Value) : Value → Prop
  | node {n : Node} {v : Value} : n ∈ ns → u ∈ n.inputs → v ∈ n.outputs → ComputedFrom ns u v
  | later {n : Node} {v w : Value} : ComputedFrom ns u v → n ∈ ns → v ∈ n.inputs → w ∈ n.outputs →
      ComputedFrom ns u w

/-- Every node writes its own name. -/
def WriteOwn (ns : List Node) : Prop := ∀ n ∈ ns, n.outputs = [.str n.name]

section Origins

variable {ns ms : List Node} {u v : Value}

theorem ComputedFrom.mono (hsub : ns ⊆ ms) (h : ComputedFrom ns u v) : ComputedFrom ms u v := by
  induction h with
  | node hn hu hv => exact .node (hsub hn) hu hv
  | later _ hn hv hw ih => exact .later ih (hsub hn) hv hw

/-- Some node writes what is computed, and reads the origin or what is computed from it. -/
theorem ComputedFrom.exists_writer (h : ComputedFrom ns u v) :
    ∃ n ∈ ns, v ∈ n.outputs ∧ (u ∈ n.inputs ∨ ∃ w ∈ n.inputs, ComputedFrom ns u w) := by
  cases h with
  | node hn hu hv => exact ⟨_, hn, hv, Or.inl hu⟩
  | later hw hn hread hv => exact ⟨_, hn, hv, Or.inr ⟨_, hread, hw⟩⟩

theorem WriteOwn.append (hns : WriteOwn ns) (hms : WriteOwn ms) : WriteOwn (ns ++ ms) := fun n hn =>
  (mem_append.1 hn).elim (hns n) (hms n)

variable (hown : WriteOwn ns) (hnames : (ns.map Node.name).Nodup)

include hown in
theorem WriteOwn.not_computedFrom_none : ¬ ComputedFrom ns u .none := fun h => by
  obtain ⟨n, hn, hv, -⟩ := h.exists_writer
  rw [hown n hn, mem_singleton] at hv
  cases hv

include hown hnames

/-- **What a node makes is computed from what it reads**, and from nothing else. -/
theorem WriteOwn.computedFrom_iff {n : Node} (hn : n ∈ ns) : ComputedFrom ns u (.str n.name) ↔
    u ∈ n.inputs ∨ ∃ w ∈ n.inputs, ComputedFrom ns u w := by
  constructor
  · intro h
    obtain ⟨m, hm, hv, hreads⟩ := h.exists_writer
    rw [hown m hm, mem_singleton, Value.str.injEq] at hv
    obtain rfl : n = m := inj_on_of_nodup_map hnames hn hm hv
    exact hreads
  · have hout : Value.str n.name ∈ n.outputs := by rw [hown n hn]; exact mem_singleton_self _
    rintro (hu | ⟨w, hread, hw⟩)
    · exact .node hn hu hout
    · exact .later hw hn hread hout

end Origins

/-! ## Bounds as they are given -/

/-- **A tensor that a slot may hold**, with its shape. -/
def OpNode.Offers (op : OpNode) (slot : String) : Option (String × List Int) → Prop
  | none => Assoc.get? op.inputs slot = none ∨ Assoc.get? op.inputs slot = some (.strs [])
  | some (name, dims) => Assoc.get? op.inputs slot = some (.strs [name]) ∧ op.inputShape slot 0 = .ok dims

/-- **An operator that bounds a tensor**: each bound is a tensor, or else a number. -/
structure OpNode.Clips (op : OpNode) (x y : String) (lower upper : Option (String × List Int)) : Prop where
  type : op.type = "clip"
  input : Assoc.get? op.inputs "X" = some (.strs [x])
  output : Assoc.get? op.outputs "Out" = some (.strs [y])
  lower : op.Offers "Min" lower
  upper : op.Offers "Max" upper
  noOther : Assoc.get? op.inputs "min" = none
  least : (op.attr "min").isStr = false
  most : (op.attr "max").isStr = false

/-- **The right bound**: it is computed from the tensor where one is given, and else it is the number. -/
def IsBound (ns : List Node) (given : Option (String × List Int)) (number v : Value) : Prop :=
  match given with
  | some (name, _) => ComputedFrom ns (.str name) v
  | none => Makes ns "Constant" [("dtype", .int ElementType.FLOAT), ("value", number)] [] v

/-- What a bound is taken from: the tensor itself, or one that is computed from it, where one is given. -/
def IsSource (ns : List Node) (given : Option (String × List Int)) (number v : Value) : Prop :=
  match given with
  | some (name, _) => (∃ s, v = .str s) ∧ (v = .str name ∨ ComputedFrom ns (.str name) v)
  | none => v = number

theorem OpNode.Offers.inputAt {op : OpNode} {slot : String} {given : Option (String × List Int)}
    (h : op.Offers slot given) : op.inputAt slot 0 = .ok (given.elim .none fun t => .str t.1) := by
  unfold OpNode.inputAt
  cases given with
  | none => rcases h with h | h <;> rw [h] <;> rfl
  | some t => rw [h.1]; rfl

theorem OpNode.Offers.hasFirst {op : OpNode} {slot : String} {given : Option (String × List Int)}
    (h : op.Offers slot given) : Rules.hasFirst op slot = .ok given.isSome := by
  unfold Rules.hasFirst
  rw [h.inputAt]
  cases given <;> rfl

/-! ## The rule, part by part -/

def upperGiven (op : OpNode) : Emit Value := do
  if ← hasFirst op "Max" then
    let given ← op.inputAt "Max" 0
    if (← op.inputShape "Max" 0).isEmpty then return given
    let flat ← constantShaped ElementType.INT64 (.ints [1]) (.int (-1))
    node "Reshape" (.list [given, flat])
  else pure (op.attr "max")

def boundsGiven (op : OpNode) (upper : Value) : Emit (Value × Value) := do
  if ← hasFirst op "Min" then
    let given ← op.inputAt "min" 0
    if (← op.inputShape "Min" 0).isEmpty then return (upper, given)
    return (← node "ReduceSum" (.list [given]) [("keepdims", .int 0)], given)
  else pure (upper, op.attr "min")

theorem clip_eq (op : OpNode) : clip op = (do
    let upper ← upperGiven op
    let bounds ← boundsGiven op upper
    discard <| bound (← op.inputAt "X" 0) bounds.1 bounds.2 (← op.outputAt "Out" 0)) := by
  unfold clip upperGiven boundsGiven
  simp only [bind_assoc, ite_bind, pure_bind]

section Parts

variable {op : OpNode} {x y : String} {lower upper : Option (String × List Int)}

/-- **The upper bound is taken from what is given for it.** -/
theorem reaches_upperGiven (hop : op.Clips x y lower upper) (d : Draft) :
    Reaches (upperGiven op) d fun u ns => WriteOwn ns ∧ IsSource ns upper (op.attr "max") u := by
  unfold upperGiven
  refine .computed hop.upper.hasFirst ?_
  cases upper with
  | none => exact .pure _ ⟨forall_mem_nil _, rfl⟩
  | some t =>
    obtain ⟨name, dims⟩ := t
    refine .computed hop.upper.inputAt (.computed hop.upper.2 ?_)
    cases dims with
    | nil => exact .pure _ ⟨forall_mem_nil _, ⟨name, rfl⟩, Or.inl rfl⟩
    | cons n dims =>
      refine .node rfl (Or.inl rfl) fun d₁ flat _ hflat => .own rfl (Or.inr (forall_mem_nil _)) fun n hn => ?_
      refine ⟨forall_mem_cons.2 ⟨hflat.outputs, forall_mem_singleton.2 hn.outputs⟩, ⟨_, rfl⟩, Or.inr ?_⟩
      refine .node (mem_cons_of_mem _ (mem_singleton_self n)) ?_ ?_
      · rw [hn.inputs]
        exact mem_cons_self
      · rw [hn.outputs]
        exact mem_singleton_self _

/-- The lower bound: a number, and nothing where it should be a tensor. -/
def lowerNumber (op : OpNode) (lower : Option (String × List Int)) : Value :=
  if lower.isSome then .none else op.attr "min"

def hasAxes (lower : Option (String × List Int)) : Bool := lower.any fun t => !t.2.isEmpty

/-- **The lower bound is no tensor**, and if it should be one with axes then a sum of nothing is the upper one. -/
theorem reaches_boundsGiven (hop : op.Clips x y lower upper) (u : Value) (d : Draft) :
    Reaches (boundsGiven op u) d fun b ns => b.2 = lowerNumber op lower ∧ WriteOwn ns ∧
      if hasAxes lower then ∃ n, ns = [n] ∧ n.inputs = [.none] ∧ b.1 = .str n.name else ns = [] ∧ b.1 = u := by
  unfold boundsGiven
  refine .computed hop.lower.hasFirst ?_
  cases lower with
  | none => exact .pure _ ⟨rfl, forall_mem_nil _, rfl, rfl⟩
  | some t =>
    obtain ⟨name, dims⟩ := t
    have hnone : op.inputAt "min" 0 = .ok .none := by rw [OpNode.inputAt, hop.noOther]
    refine .computed hnone (.computed hop.lower.2 ?_)
    cases dims with
    | nil => exact .pure _ ⟨rfl, forall_mem_nil _, rfl, rfl⟩
    | cons m dims =>
      refine .node rfl (Or.inr (by simp [Node.reserved])) fun d₁ n _ hn => .pure _ ?_
      exact ⟨rfl, forall_mem_singleton.2 hn.outputs, n, rfl, hn.inputs, rfl⟩

/-- A number becomes a constant, and a name is squeezed. -/
theorem reaches_boundInput (v : Value) (d : Draft) : Reaches (boundInput v) d fun w ns => ∃ n : Node, ns = [n] ∧
    w = .str n.name ∧ n.outputs = [.str n.name] ∧ (∀ s, v = .str s → n.type = "Squeeze" ∧ n.inputs = [v]) ∧
    (v.isStr = false → n.Is "Constant" [("dtype", .int ElementType.FLOAT), ("value", v)] [] [.str n.name]) := by
  unfold boundInput
  cases hv : v.isStr with
  | true =>
    obtain ⟨s, rfl⟩ : ∃ s, v = .str s := by
      cases v with
      | str s => exact ⟨s, rfl⟩
      | _ => cases hv
    refine .own rfl (Or.inr (by simp [Node.reserved])) fun n hn => ?_
    exact ⟨n, rfl, rfl, hn.outputs, fun _ _ => ⟨hn.type, hn.inputs⟩, fun h => absurd h (by decide)⟩
  | false =>
    rw [if_neg Bool.false_ne_true, constant]
    refine .own rfl (Or.inl rfl) fun n hn => ?_
    refine ⟨n, rfl, rfl, hn.outputs, fun s hs => ?_, fun _ => hn⟩
    rw [hs] at hv
    cases hv

theorem isBound_of_isSource {ns ms : List Node} {number u : Value} {n : Node} (hsub : ns ⊆ ms) (hn : n ∈ ms)
    (hnumber : number.isStr = false) (hsource : IsSource ns upper number u) (hout : n.outputs = [.str n.name])
    (htext : ∀ s, u = .str s → n.type = "Squeeze" ∧ n.inputs = [u]) (hconstant : u.isStr = false →
      n.Is "Constant" [("dtype", .int ElementType.FLOAT), ("value", u)] [] [.str n.name]) :
    IsBound ms upper number (.str n.name) := by
  have hwrites : Value.str n.name ∈ n.outputs := by rw [hout]; exact mem_singleton_self _
  cases upper with
  | none =>
    obtain rfl : u = number := hsource
    obtain ⟨htype, hattrs, hins, houts⟩ := hconstant hnumber
    exact ⟨n, hn, htype, hattrs, hins, houts⟩
  | some t =>
    obtain ⟨⟨s, hs⟩, horigin⟩ := hsource
    have hread : u ∈ n.inputs := by rw [(htext s hs).2]; exact mem_singleton_self _
    rcases horigin with rfl | hcomputed
    · exact .node hn hread hwrites
    · exact .later (hcomputed.mono hsub) hn hread hwrites

/-- **The nodes of a bounded tensor.** -/
theorem reaches_clip (hop : op.Clips x y lower upper) (d : Draft) (hversion : 11 ≤ d.opset) :
    Reaches (clip op) d fun _ all => ∃ ns l r n, all = ns ++ [l, r] ++ [n] ∧ WriteOwn (ns ++ [l, r]) ∧
      n.Is "Clip" [] [.str x, .str l.name, .str r.name] [.str y] ∧
      l.Is "Constant" [("dtype", .int ElementType.FLOAT), ("value", lowerNumber op lower)] [] [.str l.name] ∧
      if hasAxes lower then r.type = "Squeeze" ∧ ∃ m ∈ ns, m.inputs = [.none] ∧ r.inputs = [.str m.name]
      else IsBound (ns ++ [l, r]) upper (op.attr "max") (.str r.name) := by
  have hx : op.inputAt "X" 0 = .ok (.str x) := by rw [OpNode.inputAt, hop.input]; rfl
  have hy : op.outputAt "Out" 0 = .ok (.str y) := by simp only [OpNode.outputAt, OpNode.output, hop.output]; rfl
  have hnumber : (lowerNumber op lower).isStr = false := by
    unfold lowerNumber
    split
    · rfl
    · exact hop.least
  rw [clip_eq]
  refine .bind (reaches_upperGiven hop d) fun d₁ u ns hd₁ hbefore => ?_
  refine .bind (reaches_boundsGiven hop u d₁) fun d₂ b ms hd₂ hgiven => ?_
  obtain ⟨hown, hsource⟩ := hbefore
  obtain ⟨hlower, hown', hupper⟩ := hgiven
  refine .computed hx (.computed hy (.discarded ?_))
  have hnew : ¬ d₂.opset < 11 := by rw [hd₂, hd₁]; omega
  unfold bound
  refine .versioned ?_
  rw [if_neg (by simp [hnew]), if_neg hnew, hlower]
  refine .bind (reaches_boundInput _ d₂) fun d₃ _ _ _ hleft => ?_
  refine .bind (reaches_boundInput _ d₃) fun d₄ _ _ _ hright => ?_
  obtain ⟨l, rfl, rfl, hlout, -, hconstant⟩ := hleft
  obtain ⟨r, rfl, rfl, hrout, htext, hconstant'⟩ := hright
  refine .named rfl (Or.inr (forall_mem_nil _)) y fun n hn => ?_
  have hends : WriteOwn [l, r] := forall_mem_cons.2 ⟨hlout, forall_mem_singleton.2 hrout⟩
  refine ⟨ns ++ ms, l, r, n, by simp, (hown.append hown').append hends, hn, hconstant hnumber, ?_⟩
  split
  · rw [if_pos ‹_›] at hupper
    obtain ⟨m, rfl, hins, hm⟩ := hupper
    obtain ⟨htype, hread⟩ := htext _ hm
    exact ⟨htype, m, mem_append_right ns (mem_singleton_self m), hins, hread.trans (by rw [hm])⟩
  · rw [if_neg ‹_›] at hupper
    obtain ⟨rfl, hu⟩ := hupper
    rw [hu] at htext hconstant'
    exact isBound_of_isSource (by simp) (by simp) hop.most hsource hrout htext hconstant'

end Parts

/-- **A bounded tensor has the right lower bound if and only if no tensor is given for it**, and the right upper bound
if and only if none with axes is. -/
theorem clip_bounds_iff (exportType : ExportType) (depth : Nat) {op : OpNode} {x y : String}
    {lower upper : Option (String × List Int)} (hop : op.Clips x y lower upper) (d : Draft)
    (hunmade : ∀ t, upper = some t → d.Unmade (.str t.1)) (hversion : 11 ≤ d.opset) : ∃ d' ns n v w,
      Emission (mapUpTo Registry.standard exportType (depth + 1) op) d d' () (ns ++ [n]) ∧
      n.type = "Clip" ∧ n.inputs = [.str x, v, w] ∧ n.outputs = [.str y] ∧
      (IsBound ns lower (op.attr "min") v ↔ lower = none) ∧
      (IsBound ns upper (op.attr "max") w ↔ ∀ t, lower = some t → t.2 = []) := by
  have hrule : Registry.standard.ruleFor op.type d.opset = .ok clip := by
    rw [hop.type]
    exact Registry.ruleFor_of_latest rfl rfl (by omega : (1 : Int) ≤ d.opset) (by simp)
  have hno : Registry.standard.composite? (.str op.type) = none := by
    rw [hop.type]
    rfl
  obtain ⟨d', _, _, hem, -, ns, l, r, n, rfl, hown, hn, hl, hr⟩ := reaches_clip hop d hversion
  have hnames : ((ns ++ [l, r]).map Node.name).Nodup :=
    hem.distinct.sublist ((List.sublist_append_left _ _).map _)
  refine ⟨d', ns ++ [l, r], n, .str l.name, .str r.name, emission_mapUpTo_of_rule hno hrule hem, hn.type, hn.inputs,
    hn.outputs, ?_, ?_⟩
  · cases lower with
    | none => exact iff_of_true ⟨l, by simp, hl.type, hl.attrs, hl.inputs, hl.outputs⟩ rfl
    | some t =>
      refine iff_of_false (fun h => ?_) (Option.some_ne_none t)
      -- a constant is computed from nothing
      have hreads := (hown.computedFrom_iff hnames (by simp)).1 h
      simp [hl.inputs] at hreads
  · have haxes : hasAxes lower = false ↔ ∀ t, lower = some t → t.2 = [] := by
      cases lower <;> simp [hasAxes]
    rw [← haxes]
    cases hlower : hasAxes lower with
    | false =>
      rw [hlower, if_neg Bool.false_ne_true] at hr
      exact iff_of_true hr rfl
    | true =>
      rw [hlower, if_pos rfl] at hr
      obtain ⟨htype, m, hm, hnothing, hread⟩ := hr
      refine iff_of_false (fun h => ?_) Bool.true_eq_false.mp
      cases upper with
      | none =>
        obtain ⟨c, hc, hctype, -, -, hcout⟩ := h
        rw [hown c hc, List.cons.injEq, Value.str.injEq] at hcout
        obtain rfl : c = r := List.inj_on_of_nodup_map hnames hc (by simp) hcout.1
        rw [htype] at hctype
        exact absurd hctype (by decide)
      | some t =>
        obtain ⟨k, hk, hle, -⟩ := hem.numbered m (by simp [hm])
        have hreads := (hown.computedFrom_iff hnames (by simp)).1 h
        rw [hread] at hreads
        simp only [List.mem_singleton, exists_eq_left] at hreads
        rcases hreads with heq | hsum
        · exact hunmade t rfl m.type k hle (heq.trans (congrArg Value.str hk))
        · have hreads' := (hown.computedFrom_iff hnames (by simp [hm])).1 hsum
          rw [hnothing] at hreads'
          simp only [List.mem_singleton, exists_eq_left, reduceCtorEq, false_or] at hreads'
          exact hown.not_computedFrom_none hreads'

def OpNode.clipping (lower upper : Option (String × List Int)) : OpNode :=
  { name := "clip_0", type := "clip"
    inputs := [("X", .strs ["x"]), ("Min", .strs (lower.toList.map Prod.fst)),
      ("Max", .strs (upper.toList.map Prod.fst))]
    outputs := [("Out", .strs ["y"])], attrs := [("min", .float 0.0), ("max", .float 6.0)]
    block := some { vars := (lower.toList ++ upper.toList).map fun t => { name := t.1, shape := t.2 }, ops := [] } }

/-- **A lower bound with one axis is lost, and takes the upper one with it**; an upper one with an axis is right. -/
theorem clip_bounds_iff_lower :
    (∃ d' ns n v w, Emission (mapUpTo Registry.standard .none 1 (.clipping (some ("lo", [1])) none)) { opset := 11 }
        d' () (ns ++ [n]) ∧ n.inputs = [.str "x", v, w] ∧ ¬ IsBound ns (some ("lo", [1])) (.float 0.0) v ∧
      ¬ IsBound ns none (.float 6.0) w) ∧
    ∃ d' ns n v w, Emission (mapUpTo Registry.standard .none 1 (.clipping none (some ("hi", [1])))) { opset := 11 }
        d' () (ns ++ [n]) ∧ n.inputs = [.str "x", v, w] ∧ IsBound ns none (.float 0.0) v ∧
      IsBound ns (some ("hi", [1])) (.float 6.0) w := by
  have hlow : (OpNode.clipping (some ("lo", [1])) none).Clips "x" "y" (some ("lo", [1])) none :=
    ⟨rfl, rfl, rfl, ⟨rfl, rfl⟩, Or.inr rfl, rfl, rfl, rfl⟩
  have hhigh : (OpNode.clipping none (some ("hi", [1]))).Clips "x" "y" none (some ("hi", [1])) :=
    ⟨rfl, rfl, rfl, Or.inr rfl, ⟨rfl, rfl⟩, rfl, rfl, rfl⟩
  constructor
  · obtain ⟨d', ns, n, v, w, hem, -, hins, -, hlower, hupper⟩ := clip_bounds_iff .none 0 hlow { opset := 11 }
      (fun _ h => by cases h) (by decide)
    exact ⟨d', ns, n, v, w, hem, hins, mt hlower.1 (by decide), mt hupper.1 fun h => by cases h _ rfl⟩
  · obtain ⟨d', ns, n, v, w, hem, -, hins, -, hlower, hupper⟩ := clip_bounds_iff .none 0 hhigh { opset := 11 }
      (fun _ h => by cases h; exact Draft.unmade_of_endsPlainly (by decide) _) (by decide)
    exact ⟨d', ns, n, v, w, hem, hins, hlower.2 rfl, hupper.2 fun _ h => by cases h⟩

end ModelExport
