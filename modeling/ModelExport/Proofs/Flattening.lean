import ModelExport.Proofs.Tensors.Steps

/-!
# Proofs/Flattening — a range of axes merged into one

    x  [2 | 3, 4 | 5]    target  [2, -1, 5]    as  [2, 12, 5]
    x  [| 2, 3, 4]       target  [-1]          as  [24]

The axes of a tensor from one place to another become one axis.  Its extent is nowhere computed: the target shape
is cut out of the tensor's own shape while the nodes run, in front of the range and behind it, and minus one stands
between them (`gives_mergedShape`).  The last node then finds what is left for the open extent, which is the
product of the merged ones, and keeps the elements in row-major order (`range_flattened`).
-/

namespace ModelExport

open Emit List Rules

variable {τ : Type*} {E : Elements τ} {version : Int}

/-- **An operator that merges the axes of a tensor from `start` to `stop`**, where the tensor is declared with a
number of axes. -/
structure OpNode.Flattens (op : OpNode) (x out : String) (start stop rank : Nat) : Prop where
  type : op.type = "flatten_contiguous_range"
  input : Assoc.get? op.inputs "X" = some (.strs [x])
  output : Assoc.get? op.outputs "Out" = some (.strs [out])
  start : op.attr "start_axis" = .int start
  stop : op.attr "stop_axis" = .int stop
  declared : ∃ dims, op.inputShape "X" 0 = .ok dims ∧ dims.length = rank

namespace OpNode.Flattens

variable {op : OpNode} {x out : String} {start stop rank : Nat}

theorem input_eq (h : op.Flattens x out start stop rank) : op.input "X" = .list [.str x] := by
  rw [OpNode.input, h.input, Option.getD_some]
  rfl

theorem firstInput_eq (h : op.Flattens x out start stop rank) : op.firstInput "X" = .ok (.str x) := by
  rw [OpNode.firstInput, h.input_eq]
  rfl

theorem output_eq (h : op.Flattens x out start stop rank) : op.output "Out" = .ok (.list [.str out]) := by
  simp only [OpNode.output, h.output]
  rfl

end OpNode.Flattens

/-! ## The target shape -/

section Target

variable {op : OpNode} {x out : String} {front middle back : List Nat} {stop : Nat} {p : Ahead} {Γ : Facts τ}

/-- **The target shape**: the extents in front of the range, minus one, and the extents behind it. -/
theorem gives_mergedShape (hE : E.Exact)
    (hop : op.Flattens x out front.length stop (front ++ middle ++ back).length)
    (hstop : stop + 1 = (front ++ middle).length) (hmade : p.made = true)
    [Γ.Says (.str x) (shaped (front ++ middle ++ back))] :
    Gives E version p Γ (mergedShape op) fun v =>
      [(v, listing E (front.map Int.ofNat ++ -1 :: back.map Int.ofNat))] := by
  obtain ⟨dims, hdims, hrank⟩ := hop.declared
  have hfront := map_selects_front front (middle ++ back)
  have hback := map_selects_back (front ++ middle) back
  rw [← append_assoc] at hfront
  rw [← hstop, ← hrank] at hback
  unfold mergedShape
  simp only [hop.start, hop.stop, hop.input_eq]
  refine .computed hdims (.bind (.node rfl hmade (acts_shape hE)) fun shape => ?_)
  refine .bind (.cut hE hmade) fun before => ?_
  refine .bind (.node rfl hmade (acts_constant_ints hE [-1])) fun free => .computed (lt_int_int ..) ?_
  rw [hfront]
  by_cases hlast : (stop : Int) < (dims.length : Int) - 1
  · rw [if_pos (decide_eq_true hlast)]
    simp only [bind_assoc, pure_bind]
    have hnext : Value.add (.int stop) (.int 1) = .ok (.int ((stop + 1 : Nat) : Int)) := rfl
    refine .computed hnext (.bind (.cut hE hmade) fun after => ?_)
    refine .bind (.node rfl hmade (acts_constant_ints hE [-1])) fun free => ?_
    rw [hback]
    have hjoined : [front.map Int.ofNat, [-1], back.map Int.ofNat].flatten =
        front.map Int.ofNat ++ -1 :: back.map Int.ofNat := by simp
    rw [← hjoined]
    exact .node rfl hmade (acts_concat_listed _)
  · -- nothing is behind the range, and no third part is joined
    obtain rfl : back = [] := length_eq_zero_iff.1 (by simp at hstop hrank; omega)
    rw [if_neg (by simpa using hlast), pure_bind]
    have hjoined : [front.map Int.ofNat, [-1]].flatten = front.map Int.ofNat ++ [-1] := by simp
    rw [map_nil, ← hjoined]
    exact .node rfl hmade (acts_concat_listed _)

end Target

theorem count_open (front back : List Nat) : (front.map Int.ofNat ++ -1 :: back.map Int.ofNat).count (-1) = 1 := by
  have hnone : ∀ ns : List Nat, (ns.map Int.ofNat).count (-1) = 0 := fun ns =>
    count_eq_zero.2 fun h => by
      obtain ⟨k, -, hk⟩ := mem_map.1 h
      exact absurd hk (by simp)
  rw [count_append, count_cons_self, hnone, hnone]

/-! ## The rule -/

/-- The last node finds the open extent, and keeps the elements in order. -/
theorem acts_reshape_open {X : Tensor τ} {front middle back : List Nat} (hshape : X.shape = front ++ middle ++ back)
    (hpos : ∀ k ∈ X.shape, 0 < k) :
    Acts E version "Reshape" [] [(X = ·), listing E (front.map Int.ofNat ++ -1 :: back.map Int.ofNat)]
      [fun t => t.shape = front ++ middle.prod :: back ∧ t.elements = X.elements] := by
  have hsides : ∀ k ∈ front ++ back, 0 < k := fun k hk => hpos k (by grind)
  have hprod : (front ++ middle.prod :: back).prod = X.shape.prod := by
    rw [hshape, append_assoc]
    simp only [prod_append, prod_cons]
  refine .of_two (by decide) (Or.inr (forall_mem_nil _)) fun t u ht hu => ?_
  subst ht
  exact ⟨_, resultOf_reshape_open hu hsides hprod, rfl, Tensor.elements_reshaped hprod⟩

/-- The rule's last step.  It may write over the tensor that it reads. -/
theorem exists_reshape_node {X : Tensor τ} {front middle back : List Nat} (hshape : X.shape = front ++ middle ++ back)
    (hpos : ∀ k ∈ X.shape, 0 < k) {p : Ahead} {Γ : Facts τ} {d : Draft} {σ : Store (Option (Tensor τ))}
    (hk : Knows p Γ d σ) {x : String} {v : Value} (hx : (.str x, (X = ·)) ∈ Γ)
    (hv : (v, listing E (front.map Int.ofNat ++ -1 :: back.map Int.ofNat)) ∈ Γ) (out : String) :
    ∃ n t, (n.type = "Reshape" ∧ n.inputs = [.str x, v] ∧ n.outputs = [.str out]) ∧
      Emission (discard (nodeTo "Reshape" (.list [.str x, v]) (.list [.str out]))) d (d.adding n) () [n] ∧
      n.run E version σ = some (σ.write [.str out] [some t]) ∧ t.shape = front ++ middle.prod :: back ∧
      t.elements = X.elements := by
  let n := Node.asked "Reshape" (d.count "Reshape") [.str x, v] [.str out] []
  have hreads : List.Forall₂ (fun w P => (w, P) ∈ Γ) [.str x, v] [(X = ·), _] := .cons hx (.cons hv .nil)
  obtain ⟨ts, hts, hPs⟩ := hk.reads hreads
  obtain ⟨us, hrun, hus⟩ := n.run_of_acts (acts_reshape_open hshape hpos) hts hPs rfl
  obtain ⟨t, rfl⟩ := length_eq_one_iff.1 hus.length_eq.symm
  have hinputs : Node.inputList (givenInputs (.list [.str x, v])) = .ok [.str x, v] := inputList_texts (hk.texts_of_facts hreads)
  exact ⟨n, t, ⟨rfl, rfl, rfl⟩, (emission_nodeTo d hinputs out [] (Or.inr (forall_mem_nil _))).discarded, hrun,
    (forall₂_cons.1 hus).1⟩

theorem take_append_span {α : Type*} (xs : List α) {a b : Nat} (hab : a ≤ b) :
    xs = xs.take a ++ (xs.take b).drop a ++ xs.drop b := by
  have htake : xs.take a = (xs.take b).take a := by rw [take_take, Nat.min_eq_left hab]
  rw [htake, take_append_drop, take_append_drop]

/-- **A range of axes becomes one axis**: every node can be run, the last one is asked for a shape with a single
open extent, and gives the elements in row-major order, the merged axes as one of the product of their extents. -/
theorem range_flattened (exportType : ExportType) (depth : Nat) (hE : E.Exact) {op : OpNode} {x out : String}
    {start stop : Nat} {X : Tensor τ} (hop : op.Flattens x out start stop X.shape.length) (hstart : start ≤ stop)
    (hstop : stop < X.shape.length) (hpos : ∀ k ∈ X.shape, 0 < k) {d : Draft} (hversion : 5 ≤ d.opset)
    (hunmade : d.Unmade (.str x)) {σ : Store (Option (Tensor τ))} (hX : σ (.str x) = some X) :
    ∃ d' ns n v σ₁ σ' u target t,
      Emission (mapUpTo Registry.standard exportType (depth + 1) op) d d' () (ns ++ [n]) ∧
      (n.type = "Reshape" ∧ n.inputs = [.str x, v] ∧ n.outputs = [.str out]) ∧
      (runNodes E d.opset ns σ = some σ₁ ∧ σ₁ v = some u ∧ u.ints? E = some target ∧ target.count (-1) = 1) ∧
      runNodes E d.opset (ns ++ [n]) σ = some σ' ∧ σ' (.str out) = some t ∧
      t.shape = X.shape.take start ++ ((X.shape.take (stop + 1)).drop start).prod :: X.shape.drop (stop + 1) ∧
      t.elements = X.elements := by
  let front := X.shape.take start
  let middle := (X.shape.take (stop + 1)).drop start
  let back := X.shape.drop (stop + 1)
  have hshape : X.shape = front ++ middle ++ back := take_append_span X.shape (Nat.le_succ_of_le hstart)
  have hfront : front.length = start := List.length_take_of_le (by omega)
  have hend : stop + 1 = (front ++ middle).length := by
    simp only [front, middle, List.length_append, List.length_take, List.length_drop]
    omega
  have hsplit : op.Flattens x out front.length stop (front ++ middle ++ back).length := by rwa [hfront, ← hshape]
  have hknows : Knows ⟨true, []⟩ [(.str x, shaped (front ++ middle ++ back)), (.str x, (X = ·))] d σ := by
    refine ⟨List.nodup_nil, List.forall_mem_nil _, fun _ => List.forall_mem_nil _, ?_, ?_⟩
    · simpa using ⟨⟨x, rfl⟩, List.not_mem_nil, fun _ => hunmade⟩
    · exact List.forall_mem_cons.2 ⟨⟨X, hX, hshape⟩, List.forall_mem_singleton.2 ⟨X, hX, rfl⟩⟩
  obtain ⟨d₁, v, ns, σ₁, -, hem, hrun, hk⟩ := gives_mergedShape hE hsplit hend rfl d σ rfl hknows
  obtain ⟨u, hu, hlist⟩ := hk.holds _ List.mem_cons_self
  obtain ⟨n, t, hn, hlast, hrun', htshape, helements⟩ := exists_reshape_node hshape hpos hk
    (List.mem_cons_of_mem _ (List.mem_cons_of_mem _ List.mem_cons_self)) List.mem_cons_self out
  have hrule : Emission (flattenRange op) d (d₁.adding n) () (ns ++ [n]) :=
    hem.bind (.computed hop.firstInput_eq (.computed hop.output_eq hlast))
  have hno : Registry.standard.composite? (.str op.type) = none := by rw [hop.type]; rfl
  have hrules : Registry.standard.rulesOf (.str op.type) = some [(5, flattenRange)] := by rw [hop.type]; rfl
  exact ⟨d₁.adding n, ns, n, v, σ₁, _, u, _, t,
    emission_mapUpTo_of_rule hno (Registry.ruleFor_of_latest hrules rfl hversion (by simp)) hrule,
    hn, ⟨hrun, hu, hlist, count_open front back⟩, (runNodes_append hrun).trans (runNodes_cons hrun'),
    if_pos ((same_str_left out _).2 rfl), htshape, helements⟩

def OpNode.merging (start stop : Nat) : OpNode :=
  { name := "flatten_contiguous_range_0", type := "flatten_contiguous_range"
    inputs := [("X", .strs ["x"])], outputs := [("Out", .strs ["out"])]
    attrs := [("start_axis", .int start), ("stop_axis", .int stop)]
    block := some { vars := [{ name := "x", shape := [-1, 3, 2] }], ops := [] } }

theorem OpNode.flattens_merging (start stop : Nat) : (merging start stop).Flattens "x" "out" start stop 3 where
  type := rfl
  input := rfl
  output := rfl
  start := rfl
  stop := rfl
  declared := ⟨[-1, 3, 2], rfl, rfl⟩

def dozen : Tensor Int := ⟨[2, 3, 2], fun i => 6 * i.getD 0 0 + 2 * i.getD 1 0 + i.getD 2 0⟩

def dozenStored : Store (Option (Tensor Int)) := Store.write (fun _ => none) [.str "x"] [some dozen]

/-- **The last two axes become one**, with ranges as attributes, and **the first two**, with ranges as constants. -/
theorem range_flattened_dozen :
    (∃ d' ns σ' t, Emission (mapUpTo Registry.standard .none 1 (.merging 1 2)) { opset := 9 } d' () ns ∧
      runNodes .placeholder 9 ns dozenStored = some σ' ∧ σ' (.str "out") = some t ∧ t.shape = [2, 6] ∧
      t.elements = (List.range 12).map Int.ofNat) ∧
    ∃ d' ns σ' t, Emission (mapUpTo Registry.standard .none 1 (.merging 0 1)) { opset := 10 } d' () ns ∧
      runNodes .placeholder 10 ns dozenStored = some σ' ∧ σ' (.str "out") = some t ∧ t.shape = [6, 2] ∧
      t.elements = (List.range 12).map Int.ofNat := by
  have hplain : ∀ d : Draft, d.Unmade (.str "x") := Draft.unmade_of_endsPlainly (by decide)
  have hpos : ∀ k ∈ dozen.shape, 0 < k := by decide
  have hrun := fun (start stop : Nat) (hstart : start ≤ stop) (hstop : stop < 3) (d : Draft) (hd : 5 ≤ d.opset) =>
    range_flattened (d := d) (X := dozen) .none 0 Elements.exact_placeholder (OpNode.flattens_merging start stop)
      hstart hstop hpos hd (hplain d) (rfl : dozenStored (.str "x") = some dozen)
  constructor
  · obtain ⟨d', ns, n, v, σ₁, σ', u, target, t, hem, -, -, hrun, hout, hshape, helements⟩ :=
      hrun 1 2 (by decide) (by decide) { opset := 9 } (by decide)
    exact ⟨d', _, σ', t, hem, hrun, hout, hshape, helements⟩
  · obtain ⟨d', ns, n, v, σ₁, σ', u, target, t, hem, -, -, hrun, hout, hshape, helements⟩ :=
      hrun 0 1 (by decide) (by decide) { opset := 10 } (by decide)
    exact ⟨d', _, σ', t, hem, hrun, hout, hshape, helements⟩

end ModelExport
