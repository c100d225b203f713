import Mathlib.Algebra.BigOperators.Ring.Finset
import ModelExport.Proofs.Tensors.Steps

/-!
# Proofs/BatchFilling — a constant with the batch size of a tensor

    asked for  [2, 3, B]     constant  [1, 2, 3]     repeated  [B, 2, 3]     exchanged  [3, 2, B]

The constant has its batch axis in front, where it is repeated, and then the axis is brought back by an
exchange with the one that stands at its place.  All others would have to move by one place, so the shape is
the one that is asked for only if the dimensions that are passed are all the same (`exchangeFirst_eq_iff`).
Counted from the end there is none after the last, so nothing is found there and the nodes cannot be run
(`batch_filled_iff`).
-/

namespace ModelExport

open Emit List Rules

variable {τ : Type*} {E : Elements τ} {version : Int}

/-! ## Places -/

/-- **A range of one place**, which from minus one on ends before it begins. -/
theorem Cut.selects_single {r k : Nat} {i : Int} (hplace : place? r i = some k) :
    (Cut.mk 0 i (i + 1) 1).selects r = if i = -1 then [] else [k] := by
  simp only [place?, Option.ite_none_right_eq_some, Option.some.injEq] at hplace
  have hk : k < r ∧ clampEnd r i = k := by
    unfold clampEnd
    omega
  split
  · have hstop : clampEnd r (i + 1) = 0 := by
      unfold clampEnd
      omega
    simp [selects, hstop]
  · have hstop : clampEnd r (i + 1) = k + 1 := by
      unfold clampEnd
      omega
    have hone : (List.range r).filter (· == k) = [k] := by
      rw [filter_beq, count_eq_one_of_mem nodup_range (mem_range.2 hk.1)]
      rfl
    rw [← hone, selects]
    refine filter_congr fun j _ => ?_
    rw [hk.2, hstop, Bool.eq_iff_iff, decide_eq_true_iff, beq_iff_eq]
    refine ⟨fun h => by omega, ?_⟩
    rintro rfl
    exact ⟨le_rfl, Nat.lt_succ_self j, one_dvd _⟩

/-- The first member of a list and another one, exchanged. -/
def exchangeFirst (k : Nat) (xs : List Nat) : List Nat := (xs.set 0 (xs.getD k 0)).set k (xs.getD 0 0)

theorem exchangeFirst_perm {k : Nat} {xs : List Nat} (hk : k < xs.length) : (exchangeFirst k xs).Perm xs := by
  have hpos : 0 < xs.length := Nat.zero_lt_of_lt hk
  rw [exchangeFirst, getD_eq_getElem _ _ hk, getD_eq_getElem _ _ hpos]
  exact set_set_perm hpos hk

theorem map_exchangeFirst_range {k : Nat} {xs : List Nat} (hk : k < xs.length) :
    (exchangeFirst k (List.range xs.length)).map (xs.getD · 0) = exchangeFirst k xs := by
  have hpos : 0 < xs.length := Nat.zero_lt_of_lt hk
  have hself : (List.range xs.length).map (xs.getD · 0) = xs :=
    ext_getElem (by simp) fun j _ hj => by simp [hj]
  rw [exchangeFirst, map_set, map_set, hself]
  simp [exchangeFirst, hk, hpos]

theorem exchangeWithFirst_eq {rank k : Nat} (hk : k < rank) :
    exchangeWithFirst rank (.int k) = .ok (.ints ((exchangeFirst k (List.range rank)).map Int.ofNat)) := by
  have hreplace : ∀ (xs : List Value) (j : Nat) (v : Value), j < xs.length →
      replaceAt xs j v = .ok (xs.set j v) := fun xs j v hj => by
    rw [replaceAt, Value.place?_natCast, if_pos hj]
  let axes := (List.range rank).map fun (j : Nat) => Value.int j
  have hfirst : replaceAt axes 0 (.int k) = .ok (axes.set 0 (.int k)) :=
    hreplace axes 0 _ (by simpa [axes] using Nat.zero_lt_of_lt hk)
  have hother : replaceAt (axes.set 0 (.int k)) k (.int 0) = .ok ((axes.set 0 (.int k)).set k (.int 0)) :=
    hreplace _ k _ (by simpa [axes] using hk)
  have haxes : Value.list ((axes.set 0 (.int k)).set k (.int 0)) =
      .ints ((exchangeFirst k (List.range rank)).map Int.ofNat) := by
    simp [axes, exchangeFirst, Value.ints, map_set, hk, Nat.zero_lt_of_lt hk, Function.comp_def]
  have hexact : (Value.int k).exact = .ok (k : Int) := rfl
  unfold exchangeWithFirst
  dsimp only
  rw [hfirst, except_ok_bind, hexact, except_ok_bind, hother, except_ok_bind, haxes]

theorem cons_eq_concat_iff {l : Nat} : ∀ {init : List Nat}, l :: init = init ++ [l] ↔ ∀ d ∈ init, d = l
  | [] => by simp
  | a :: init => by
      rw [cons_append, List.cons.injEq, forall_mem_cons]
      constructor
      · rintro ⟨rfl, h⟩
        exact ⟨rfl, cons_eq_concat_iff.1 h⟩
      · rintro ⟨rfl, h⟩
        exact ⟨rfl, cons_eq_concat_iff.2 h⟩

/-- **An exchange puts the first member in its place** only where all that it passes are the same. -/
theorem exchangeFirst_eq_iff (b : Nat) (front back : List Nat) :
    exchangeFirst front.length (b :: (front ++ back)) = front ++ b :: back ↔ ∀ m ∈ front, ∀ n ∈ front, m = n := by
  rcases eq_nil_or_concat' front with rfl | ⟨init, l, rfl⟩
  · simp [exchangeFirst]
  · have hexchanged : exchangeFirst (init ++ [l]).length (b :: (init ++ [l] ++ back)) =
        (l :: init) ++ (b :: back) := by
      simp [exchangeFirst]
    rw [hexchanged, append_left_inj, cons_eq_concat_iff]
    have hmem : ∀ m, m ∈ init ++ [l] ↔ m ∈ init ∨ m = l := by simp
    constructor
    · intro h m hm n hn
      have hlast : ∀ j ∈ init ++ [l], j = l := fun j hj => ((hmem j).1 hj).elim (h j) id
      rw [hlast m hm, hlast n hn]
    · exact fun h m hm => h m ((hmem m).2 (Or.inl hm)) l ((hmem l).2 (Or.inr rfl))

/-! ## The rule -/

/-- **An operator that fills a tensor**, with an axis as long as one of another tensor: what its shape has before
and after that axis. -/
structure OpNode.FillsBatch (op : OpNode) (x out : String) (front back : List Nat) (axis : Int) : Prop where
  type : op.type = "fill_constant_batch_size_like"
  input : Assoc.get? op.inputs "Input" = some (.strs [x])
  output : Assoc.get? op.outputs "Out" = some (.strs [out])
  declared : ∃ dims, op.inputShape "Input" 0 = .ok dims
  shape : ∃ s : Int, op.attr "shape" = .ints (front.map Int.ofNat ++ s :: back.map Int.ofNat)
  inputAxis : op.attr "input_dim_idx" = .int axis
  outputAxis : op.attr "output_dim_idx" = .int front.length
  dtype : ∃ v, ElementType.convert (op.attr "dtype") = .ok v
  value : ∃ n, (op.attr "value").toInt = .ok n

namespace OpNode.FillsBatch

variable {op : OpNode} {x out : String} {front back : List Nat} {axis : Int}

theorem batchFirst_eq (h : op.FillsBatch x out front back axis) :
    op.batchFirst (op.attr "shape") = .ok ((1 :: (front ++ back)).map fun n : Nat => .int n) := by
  obtain ⟨s, hs⟩ := h.shape
  let dims := (front.map Int.ofNat ++ s :: back.map Int.ofNat).map Value.int
  have herase : eraseAt dims (front.length : Int) = .ok ((front ++ back).map fun n : Nat => .int n) := by
    rw [eraseAt, Value.place?_natCast, if_pos (by simp [dims])]
    simp [dims, eraseIdx_append_of_length_le, Function.comp_def]
  have hexact : (Value.int front.length).exact = .ok (front.length : Int) := rfl
  rw [hs]
  change (do .ok (.int 1 :: (← eraseAt dims (← (op.attr "output_dim_idx").exact))) : Except Slip (List Value)) = _
  rw [h.outputAxis, hexact, except_ok_bind, herase, except_ok_bind]
  rfl

theorem input_eq (h : op.FillsBatch x out front back axis) : op.input "Input" = .list [.str x] := by
  simp only [OpNode.input, h.input]
  rfl

theorem output_eq (h : op.FillsBatch x out front back axis) : op.output "Out" = .ok (.strs [out]) := by
  simp only [OpNode.output, h.output]

end OpNode.FillsBatch

theorem mapM_exact (ns : List Nat) :
    (ns.map fun n : Nat => Value.int n).mapM Value.exact = .ok (ns.map fun n : Nat => (n : Int)) := by
  induction ns with
  | nil => rfl
  | cons n ns ih =>
    rw [map_cons, mapM_cons, ih]
    rfl

theorem productOf_eq (ns : List Nat) : productOf (ns.map fun n : Nat => .int n) = .ok (ns.prod : Int) := by
  rw [productOf, mapM_exact, except_ok_bind, ← prod_eq_foldl, Nat.cast_list_prod]

section Rule

variable {op : OpNode} {x out : String} {front back : List Nat} {axis : Int}

/-- The numbers that say how often the constant is repeated: none is found for the batch when its axis is the
last one, counted from the end. -/
def repetitions (axis : Int) (batch : Nat) (front back : List Nat) : List Nat :=
  (if axis = -1 then [] else [batch]) ++ List.replicate (front ++ back).length 1

/-- What the nodes read of the shape of a tensor. -/
theorem map_selects_single {dims : List Nat} {k : Nat} (hplace : place? dims.length axis = some k) :
    ((Cut.mk 0 axis (axis + 1) 1).selects (dims.map Int.ofNat).length).map ((dims.map Int.ofNat).getD · 0) ++
      List.replicate (front ++ back).length 1 = (repetitions axis (dims.getD k 0) front back).map Int.ofNat := by
  have hget : (dims.map Int.ofNat).getD k 0 = Int.ofNat (dims.getD k 0) := getD_map ..
  rw [length_map, Cut.selects_single hplace, repetitions]
  split
  · simp
  · rw [map_singleton, hget]
    simp

/-- **The constant and how often it is repeated**, whatever becomes of it. -/
theorem leads_fillBatchLike (hE : E.Exact) (hversion : 10 ≤ version) (hop : op.FillsBatch x out front back axis)
    {dims : List Nat} {k : Nat} (hplace : place? dims.length axis = some k)
    {outcome : Option (Store (Option (Tensor τ))) → Prop}
    (h : ∀ filled times, Leads E version ⟨true, [.str out]⟩
      [(times, listing E ((repetitions axis (dims.getD k 0) front back).map Int.ofNat)),
        (filled, shaped (1 :: (front ++ back)))]
      (tileBatch op ((front ++ back).length + 1) filled times) outcome) :
    Leads E version ⟨true, [.str out]⟩ [(.str x, shaped dims)] (fillBatchLike op) outcome := by
  obtain ⟨declared, hdeclared⟩ := hop.declared
  obtain ⟨dtype, hdtype⟩ := hop.dtype
  obtain ⟨value, hvalue⟩ := hop.value
  have hadd : (Value.int axis).add (.int 1) = .ok (.int (axis + 1)) := rfl
  rw [fillBatchLike_eq]
  unfold batchShape repeatBatch spanBatch constant
  simp only [bind_assoc, pure_bind, hop.inputAxis, hop.input_eq]
  refine .computed hop.batchFirst_eq (.noted _ _ (.computed hdtype (.checked hdeclared (.computed hvalue
    (.computed (productOf_eq _) ?_)))))
  simp only [length_map, length_cons, Nat.add_sub_cancel]
  refine .node rfl rfl (acts_constant_filled (1 :: (front ++ back)) ?_) fun filled => ?_
  · rw [length_replicate, Int.toNat_natCast]
  refine .node rfl rfl (acts_shape hE) fun shape => ?_
  refine .node rfl rfl (acts_constant_ints hE [axis]) fun start => .computed hadd ?_
  refine .node rfl rfl (acts_constant_ints hE [axis + 1]) fun stop => ?_
  refine .node rfl rfl (acts_slice hversion) fun batch => ?_
  refine .node rfl rfl (acts_constant_ints hE _) fun once => ?_
  refine .node rfl rfl acts_concat_lists fun times => ?_
  rw [map_selects_single hplace]
  exact (h filled times).mono

theorem leads_tileBatch (hop : op.FillsBatch x out front back axis) {batch : Nat} {filled times : Value} :
    Leads E version ⟨true, [.str out]⟩
      [(times, listing E ((batch :: List.replicate (front ++ back).length 1).map Int.ofNat)),
        (filled, shaped (1 :: (front ++ back)))]
      (tileBatch op ((front ++ back).length + 1) filled times)
      (Facts.HoldAfter [(.str out, shaped (exchangeFirst front.length (batch :: (front ++ back))))]) := by
  have htile : Acts E version "Tile" []
      [shaped (1 :: (front ++ back)), listing E ((batch :: List.replicate (front ++ back).length 1).map Int.ofNat)]
      [shaped (batch :: (front ++ back))] := by
    refine acts_tile _ _ ?_ ?_
    · simp
    · rw [zipWith_cons_cons, Nat.one_mul]
      exact congrArg _ (ext_getElem (by simp) fun j _ _ => by simp)
  have hlt : front.length < (batch :: (front ++ back)).length := by
    rw [length_cons, length_append]
    omega
  have hperm := exchangeFirst_perm (hlt.trans_eq length_range.symm)
  have htranspose : Acts E version "Transpose" [("perm", .ints ((exchangeFirst front.length
      (List.range (batch :: (front ++ back)).length)).map Int.ofNat))] [shaped (batch :: (front ++ back))]
      [shaped (exchangeFirst front.length (batch :: (front ++ back)))] :=
    map_exchangeFirst_range hlt ▸ acts_transpose _ hperm
  unfold tileBatch
  simp only [hop.outputAxis]
  by_cases hfirst : (Value.int front.length).same (.int 0) = true
  · rw [if_pos hfirst]
    obtain rfl : front = [] := length_eq_zero_iff.1 (by simpa [Value.same_int_int] using hfirst)
    change Leads _ _ _ _ _ (Facts.HoldAfter [(.str out, shaped (batch :: ([] ++ back)))])
    exact .computed hop.output_eq (.last (.toOne _ rfl htile .done))
  · rw [if_neg hfirst]
    refine .node rfl rfl htile fun tiled => .computed (exchangeWithFirst_eq hlt) (.computed hop.output_eq (.last ?_))
    exact .toOne _ rfl htranspose .done

theorem stuck_tileBatch (hop : op.FillsBatch x out front back axis) {ns : List Int}
    (hlen : ns.length ≠ (1 :: (front ++ back)).length) {filled times : Value} :
    Leads E version ⟨true, [.str out]⟩ [(times, listing E ns), (filled, shaped (1 :: (front ++ back)))]
      (tileBatch op ((front ++ back).length + 1) filled times) (· = none) := by
  have hlt : front.length < (front ++ back).length + 1 := by
    rw [length_append]
    omega
  unfold tileBatch
  simp only [hop.outputAxis]
  split
  · refine .computed hop.output_eq (.last (.stuck [filled, times] (balks_tile hlen) fun d hin => ?_))
    have hread : Node.inputList (givenInputs (.list [filled, times])) = .ok [filled, times] := hin
    exact ⟨_, (), ⟨rfl, rfl, rfl⟩, (emission_nodeTo d hread out [] (Or.inr (forall_mem_nil _))).discarded, _, _,
      (Quiet.pure ()).emission rfl⟩
  · refine .stuck [filled, times] (balks_tile hlen) fun d hin => ?_
    have hread : Node.inputList (givenInputs (.list [filled, times])) = .ok [filled, times] := hin
    exact ⟨_, _, ⟨rfl, rfl, rfl⟩, emission_node d hread (Or.inr (forall_mem_nil _)), _, _,
      .computed (exchangeWithFirst_eq hlt) (.computed hop.output_eq
        (emission_nodeTo _ rfl out [] (Or.inr (by simp [Node.reserved]))).discarded)⟩

theorem exists_place?_of_memberAt {dims : List Nat} {i : Int} {n : Nat} (h : memberAt dims i = .ok n) :
    ∃ k, place? dims.length i = some k ∧ dims.getD k 0 = n := by
  unfold memberAt at h
  split at h
  · rename_i k hk
    split at h
    · rename_i m hm
      refine ⟨k, hk, ?_⟩
      rw [getD_eq_getElem?_getD, hm, ← Except.ok.inj h]
      rfl
    · cases h
  · cases h

theorem OpNode.FillsBatch.emission_mapUpTo (hop : op.FillsBatch x out front back axis) (exportType : ExportType)
    (depth : Nat) {d d' : Draft} (hversion : 10 ≤ d.opset) {ns : List Node}
    (h : Emission (fillBatchLike op) d d' () ns) :
    Emission (mapUpTo Registry.standard exportType (depth + 1) op) d d' () ns := by
  have hrules : Registry.standard.rulesOf (.str op.type) = some [(10, fillBatchLike)] := by
    rw [hop.type]
    rfl
  have hno : Registry.standard.composite? (.str op.type) = none := by
    rw [hop.type]
    rfl
  exact emission_mapUpTo_of_rule hno (Registry.ruleFor_of_latest hrules rfl hversion (by simp)) h

/-- **A filled tensor has the shape that is asked for** only if its batch axis comes after dimensions that are
all the same, and the batch is not looked for at the last axis by counting from the end. -/
theorem batch_filled_iff (exportType : ExportType) (depth : Nat) (hE : E.Exact)
    (hop : op.FillsBatch x out front back axis) {d : Draft} (hversion : 10 ≤ d.opset) (hnames : x ≠ out)
    (hunmade : ∀ s ∈ [x, out], d.Unmade (.str s)) {σ : Store (Option (Tensor τ))} {X : Tensor τ}
    (hX : σ (.str x) = some X) {batch : Nat} (hbatch : memberAt X.shape axis = .ok batch) :
    ∃ d' ns, Emission (mapUpTo Registry.standard exportType (depth + 1) op) d d' () ns ∧
      ((∃ σ' t, runNodes E d.opset ns σ = some σ' ∧ σ' (.str out) = some t ∧ t.shape = front ++ batch :: back) ↔
        axis ≠ -1 ∧ ∀ m ∈ front, ∀ n ∈ front, m = n) := by
  have happart : NamesApart "" [] [x] [out] := ⟨List.nodup_singleton _, by simpa using hnames, by simp⟩
  have hknows : Knows ⟨true, [.str out]⟩ [(.str x, shaped X.shape)] d σ :=
    happart.knows List.nodup_nil (fun _ => ⟨hunmade, List.forall_mem_nil _⟩) (by simp) (by simp [hX, shaped])
  obtain ⟨k, hplace, hget⟩ := exists_place?_of_memberAt hbatch
  by_cases hlast : axis = -1
  · have hlen : ((repetitions axis (X.shape.getD k 0) front back).map Int.ofNat).length ≠
        (1 :: (front ++ back)).length := by
      simp [repetitions, hlast]
    obtain ⟨d', ns, hem, hrun⟩ := leads_fillBatchLike hE hversion hop hplace
      (fun _ _ => stuck_tileBatch hop hlen) d σ rfl hknows
    refine ⟨d', ns, hop.emission_mapUpTo exportType depth hversion hem, ?_⟩
    simp [hrun, hlast]
  · have htimes : repetitions axis (X.shape.getD k 0) front back =
        batch :: List.replicate (front ++ back).length 1 := by
      rw [repetitions, if_neg hlast, hget, List.singleton_append]
    obtain ⟨d', ns, hem, σ', hrun, hgiven⟩ := leads_fillBatchLike hE hversion hop hplace
      (fun _ _ => htimes ▸ leads_tileBatch hop) d σ rfl hknows
    obtain ⟨t, ht, hshape⟩ := hgiven _ List.mem_cons_self
    refine ⟨d', ns, hop.emission_mapUpTo exportType depth hversion hem, ?_⟩
    rw [← exchangeFirst_eq_iff batch front back, ← hshape]
    constructor
    · rintro ⟨σ'', t', hrun', ht', hshape'⟩
      obtain rfl := Option.some.inj (hrun.symm.trans hrun')
      obtain rfl := Option.some.inj (ht.symm.trans ht')
      exact ⟨hlast, hshape'⟩
    · exact fun h => ⟨σ', t, hrun, ht, h.2⟩

end Rule

/-- A constant with its batch axis behind two others. -/
def OpNode.thirdAxis : OpNode :=
  { name := "fill_constant_batch_size_like_0", type := "fill_constant_batch_size_like"
    inputs := [("Input", .strs ["x"])], outputs := [("Out", .strs ["out"])]
    attrs := [("shape", .ints [2, 3, -1]), ("input_dim_idx", .int 0), ("output_dim_idx", .int 2), ("dtype", .int 5),
      ("value", .int 0)]
    block := some { vars := [{ name := "x", shape := [-1, 5] }], ops := [] } }

def fourRows : Store (Option (Tensor Int)) := Store.write (fun _ => none) [.str "x"] [some ⟨[4, 5], fun _ => 0⟩]

/-- **The axes in front of a batch axis differ**, and the shape is not the one that is asked for. -/
theorem batch_filled_iff_thirdAxis : ∃ d' ns,
    Emission (mapUpTo Registry.standard .none 1 .thirdAxis) { opset := 10 } d' () ns ∧
      ¬ ∃ σ' t, runNodes .placeholder 10 ns fourRows = some σ' ∧ σ' (.str "out") = some t ∧ t.shape = [2, 3, 4] := by
  have hfills : OpNode.thirdAxis.FillsBatch "x" "out" [2, 3] [] 0 :=
    { type := rfl, input := rfl, output := rfl, declared := ⟨_, rfl⟩, shape := ⟨-1, rfl⟩, inputAxis := rfl
      outputAxis := rfl, dtype := ⟨_, rfl⟩, value := ⟨0, rfl⟩ }
  have hX : fourRows (.str "x") = some ⟨[4, 5], fun _ => 0⟩ := rfl
  have hbatch : memberAt [4, 5] 0 = .ok 4 := rfl
  have hplain : ∀ s ∈ ["x", "out"], endsPlainly s = true := by decide
  obtain ⟨d', ns, hem, hiff⟩ := batch_filled_iff (d := { opset := 10 }) .none 0 Elements.exact_placeholder hfills
    le_rfl (by decide) (fun s hs => Draft.unmade_of_endsPlainly (hplain s hs) _) hX hbatch
  exact ⟨d', ns, hem, fun h => absurd ((hiff.1 h).2 2 (by decide) 3 (by decide)) (by decide)⟩

end ModelExport
