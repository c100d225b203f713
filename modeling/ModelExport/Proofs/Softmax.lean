import Mathlib.Logic.Equiv.Basic
import ModelExport.Proofs.Tensors.Steps

/-!
# Proofs/Softmax — a function of vectors along an inner axis

    axis 1 of [2, 3, 4, 5]     axes as [0, 3, 2, 1]     shape [2, 5, 4, 3]     and back by [0, 3, 2, 1]

Nodes work along the last axis.  For another one the tensor is transposed by an exchange of that axis with
the last, and after the node by the same exchange again.  An exchange undoes itself (`exchangeLast_twice`), and
it carries a line along the one axis to a line along the other (`exchangeLast_set`).  So the nodes do along any
axis what they do along the last (`softmax_along`), whatever it is that they do to a vector.
-/

namespace ModelExport

open Emit List Rules

variable {τ : Type*} {E : Elements τ} {version : Int}

/-! ## Exchanges -/

/-- **A list with a member and the last one exchanged.** -/
def exchangeLast (k : Nat) (xs : List Nat) : List Nat :=
  (List.range xs.length).map fun a => xs.getD (Equiv.swap k (xs.length - 1) a) 0

section Exchange

variable {k a : Nat} {xs : List Nat}

theorem swap_last_lt {n : Nat} (hk : k < n) (ha : a < n) : Equiv.swap k (n - 1) a < n := by
  rw [Equiv.swap_apply_def]
  split_ifs <;> omega

@[simp] theorem length_exchangeLast : (exchangeLast k xs).length = xs.length := by
  rw [exchangeLast, length_map, length_range]

theorem getD_exchangeLast (ha : a < xs.length) :
    (exchangeLast k xs).getD a 0 = xs.getD (Equiv.swap k (xs.length - 1) a) 0 := by
  rw [getD_eq_getElem _ _ (by rwa [length_exchangeLast])]
  simp [exchangeLast]

theorem ext_getD {ys : List Nat} (hlen : xs.length = ys.length)
    (h : ∀ a < xs.length, xs.getD a 0 = ys.getD a 0) : xs = ys :=
  ext_getElem hlen fun a ha hb => by
    rw [← getD_eq_getElem xs 0 ha, ← getD_eq_getElem ys 0 hb, h a ha]

/-- **An exchange undoes itself.** -/
theorem exchangeLast_twice (hk : k < xs.length) : exchangeLast k (exchangeLast k xs) = xs := by
  refine ext_getD (by simp) fun a ha => ?_
  simp only [length_exchangeLast] at ha
  rw [getD_exchangeLast (by simpa using ha), length_exchangeLast, getD_exchangeLast (swap_last_lt hk ha),
    Equiv.swap_apply_self]

theorem getD_set {j : Nat} (hj : j < xs.length) (v : Nat) :
    (xs.set j v).getD a 0 = if j = a then v else xs.getD a 0 := by
  simp only [getD_eq_getElem?_getD, getElem?_set, hj, if_true]
  split <;> rfl

theorem exchangeLast_set (hk : k < xs.length) (v : Nat) :
    exchangeLast k (xs.set (xs.length - 1) v) = (exchangeLast k xs).set k v := by
  refine ext_getD (by simp) fun a ha => ?_
  simp only [length_exchangeLast, List.length_set] at ha
  have hlast : xs.length - 1 = Equiv.swap k (xs.length - 1) a ↔ k = a := by
    rw [eq_comm, Equiv.swap_apply_eq_iff, Equiv.swap_apply_right, eq_comm]
  rw [getD_exchangeLast (by simpa using ha), List.length_set, getD_set (by omega), getD_set (by simpa using hk),
    getD_exchangeLast ha]
  exact if_congr hlast rfl rfl

theorem getD_last_exchangeLast (hk : k < xs.length) :
    (exchangeLast k xs).getD (xs.length - 1) 0 = xs.getD k 0 := by
  rw [getD_exchangeLast (by omega), Equiv.swap_apply_right]

/-- Exchanged axes. -/
theorem exchangeLast_range {rank : Nat} (hk : k < rank) :
    exchangeLast k (List.range rank) = (List.range rank).map (Equiv.swap k (rank - 1)) := by
  rw [exchangeLast, length_range]
  refine map_congr_left fun a ha => ?_
  have hswap := swap_last_lt hk (mem_range.1 ha)
  rw [getD_eq_getElem _ _ (by rwa [length_range]), getElem_range]

theorem exchangeWithLast_eq {rank : Nat} (hk : k < rank) :
    exchangeWithLast rank k = .ok ((exchangeLast k (List.range rank)).map Int.ofNat) := by
  have hreplace : ∀ (xs : List Int) {i : Int} {j : Nat} (v : Int), place? xs.length i = some j →
      replaceAt xs i v = .ok (xs.set j v) := fun xs i j v hj => by rw [replaceAt, hj]
  let axes := (List.range rank).map Int.ofNat
  have hlast : place? axes.length (-1) = some (rank - 1) := by
    simp only [axes, place?, length_map, length_range]
    rw [if_pos (by omega), if_pos (by omega)]
    congr 1
    omega
  have hother : place? (axes.set (rank - 1) k).length k = some k := by
    rw [Value.place?_natCast, if_pos (by simpa [axes] using hk)]
  have haxes : (axes.set (rank - 1) k).set k (Int.ofNat rank - 1) =
      (exchangeLast k (List.range rank)).map Int.ofNat := by
    rw [exchangeLast_range hk]
    refine ext_getElem (by simp [axes]) fun a ha hb => ?_
    simp only [getElem_set, axes, getElem_map, getElem_range, Equiv.swap_apply_def,
      eq_comm (a := a)]
    split_ifs
    · exact (Int.ofNat_sub (Nat.one_le_of_lt hk)).symm
    · rfl
    · rfl
  unfold exchangeWithLast
  rw [hreplace axes _ hlast, except_ok_bind, hreplace _ _ hother, haxes]

end Exchange

/-! ## Lines along an axis -/

namespace Tensor

variable {t u : Tensor τ} {k : Nat}

/-- **A tensor that is another with an axis and the last one exchanged.** -/
structure Exchanges (k : Nat) (t u : Tensor τ) : Prop where
  shape : u.shape = exchangeLast k t.shape
  entry : ∀ i, i.length = t.shape.length → u.entry i = t.entry (exchangeLast k i)

theorem exists_transpose (hk : k < t.shape.length) :
    ∃ u, t.transpose (exchangeLast k (List.range t.shape.length)) = some u ∧ Exchanges k t u := by
  let perm := (List.range t.shape.length).map (Equiv.swap k (t.shape.length - 1))
  have hnodup : perm.Nodup := nodup_range.map (Equiv.injective _)
  have hget : ∀ a < t.shape.length, perm[a]? = some (Equiv.swap k (t.shape.length - 1) a) := fun a ha => by
    simp [perm, ha]
  have hperm : perm.Perm (List.range t.shape.length) := by
    refine (perm_ext_iff_of_nodup hnodup nodup_range).2 fun a => ⟨fun ha => ?_, fun ha => ?_⟩
    · obtain ⟨b, hb, rfl⟩ := mem_map.1 ha
      exact mem_range.2 (swap_last_lt hk (mem_range.1 hb))
    · exact mem_of_getElem? ((hget _ (swap_last_lt hk (mem_range.1 ha))).trans
        (congrArg some (Equiv.swap_apply_self _ _ a)))
  have hplace : ∀ a < t.shape.length, perm.idxOf a = Equiv.swap k (t.shape.length - 1) a := fun a ha => by
    obtain ⟨hlt, hself⟩ := List.getElem?_eq_some_iff.1 (hget _ (swap_last_lt hk ha))
    rw [Equiv.swap_apply_self] at hself
    conv_lhs => rw [← hself]
    exact hnodup.idxOf_getElem _ hlt
  rw [exchangeLast_range hk]
  refine ⟨_, if_pos hperm, ?_, fun i hi => congrArg t.entry ?_⟩
  · change perm.map (t.shape.getD · 0) = _
    rw [map_map]
    rfl
  · rw [exchangeLast, hi]
    refine map_congr_left fun a ha => ?_
    rw [hplace a (mem_range.1 ha)]

/-- **A line along the last axis of a tensor with exchanged axes is a line along the other one.** -/
theorem Exchanges.entry_along (h : Exchanges k t u) (hk : k < t.shape.length) (f : List τ → List τ) {i : List Nat}
    (hi : i.length = t.shape.length) :
    (u.along f (t.shape.length - 1)).entry (exchangeLast k i) = (t.along f k).entry i := by
  have hback : exchangeLast k (exchangeLast k i) = i := exchangeLast_twice (hi.symm ▸ hk)
  have hline : ∀ j, u.entry ((exchangeLast k i).set (t.shape.length - 1) j) = t.entry (i.set k j) := fun j => by
    have hlen : (exchangeLast k i).length = t.shape.length := by simpa using hi
    rw [h.entry _ (by simpa using hi), ← hlen, exchangeLast_set (hlen.symm ▸ hk), hback]
  have hplace : (exchangeLast k i).getD (t.shape.length - 1) 0 = i.getD k 0 := by
    rw [← hi, getD_last_exchangeLast (hi.symm ▸ hk)]
  have hextent : u.shape.getD (t.shape.length - 1) 0 = t.shape.getD k 0 := by
    rw [h.shape, getD_last_exchangeLast hk]
  have hself : u.entry (exchangeLast k i) = t.entry i := by
    rw [h.entry _ (by simpa using hi), hback]
  simp only [along, hline, hplace, hextent, hself]

/-- **What is done along the last axis between two exchanges is done along the other one.** -/
theorem Exchanges.fills_along {w : Tensor τ} {f : List τ → List τ} (h : Exchanges k t u) (hk : k < t.shape.length)
    (hw : Exchanges k (u.along f (t.shape.length - 1)) w) : w.Fills t.shape (t.along f k).entry := by
  have hlen : u.shape.length = t.shape.length := by rw [h.shape, length_exchangeLast]
  refine ⟨?_, fun i hi => ?_⟩
  · rw [hw.shape]
    change exchangeLast k u.shape = t.shape
    rw [h.shape, exchangeLast_twice hk]
  · rw [hw.entry i (hi.length_eq.trans hlen.symm), h.entry_along hk f hi.length_eq]

end Tensor

/-! ## The rule -/

/-- **An operator that normalises along an axis**, the last one if none is given.  Its output is declared with as
many axes as its input has. -/
structure OpNode.Normalizes (op : OpNode) (x out : String) (rank : Nat) (axis : Int) : Prop where
  type : op.type = "softmax"
  input : Assoc.get? op.inputs "X" = some (.strs [x])
  output : Assoc.get? op.outputs "Out" = some (.strs [out])
  declared : ∃ dims, op.outputShape "Out" 0 = .ok dims ∧ dims.length = rank
  axis : op.attr "axis" = .int axis ∨ op.attr "axis" = .none ∧ axis = -1

namespace OpNode.Normalizes

variable {op : OpNode} {x out : String} {rank k : Nat} {axis : Int}

theorem input_eq (h : op.Normalizes x out rank axis) : op.input "X" = .strs [x] := by
  rw [OpNode.input, h.input, Option.getD_some]

theorem output_eq (h : op.Normalizes x out rank axis) : op.output "Out" = .ok (.strs [out]) := by
  simp only [OpNode.output, h.output]

theorem attr_eq (h : op.Normalizes x out rank axis) :
    (if (op.attr "axis").isNone then .int (-1) else op.attr "axis") = Value.int axis := by
  rcases h.axis with hattr | ⟨hattr, rfl⟩ <;> rw [hattr] <;> rfl

end OpNode.Normalizes

theorem place?_lt {rank k : Nat} {axis : Int} (h : place? rank axis = some k) : k < rank := by
  simp only [place?, Option.ite_none_right_eq_some, Option.some.injEq] at h
  omega

theorem frontAxis_eq {rank k : Nat} {axis : Int} (h : place? rank axis = some k) :
    frontAxis (.int axis) rank = .ok (.int k) := by
  simp only [place?, Option.ite_none_right_eq_some, Option.some.injEq] at h
  rw [frontAxis, lt_int_int, except_ok_bind]
  by_cases hneg : axis < 0
  · rw [if_pos (by simpa using hneg)]
    exact congrArg (fun n => Except.ok (Value.int n)) (by omega)
  · rw [if_neg (by simpa using hneg)]
    exact congrArg (fun n => Except.ok (Value.int n)) (by omega)

theorem isLastAxis_iff {rank k : Nat} (hk : k < rank) : isLastAxis (.int k) rank = true ↔ k = rank - 1 := by
  rw [isLastAxis, Value.same_int_int, Int.ofNat_eq_natCast]
  omega

theorem exists_run_asked {type v o : String} {attrs : Attrs} {σ : Store (Option (Tensor τ))} {t u : Tensor τ}
    (hv : σ (.str v) = some t) (h : resultOf E version type attrs [t] = some u) (i : Nat)
    (htype : type ∉ severalOutputs := by decide) :
    ∃ σ', (Node.asked type i [.str v] [.str o] attrs).run E version σ = some σ' ∧ σ' (.str o) = some u := by
  have hread : [Value.str v].mapM σ = some [t] := by simp [hv]
  have hgives : operation E version type attrs 1 [t] = some [u] := Acts.operation_eq htype h
  refine ⟨σ.write [.str o] [some u], ?_, by simp [Store.write, Store.put]⟩
  change (do
    let us ← operation E version type attrs 1 (← [Value.str v].mapM σ)
    if us.length = 1 then some (σ.write [.str o] (us.map some)) else none) = _
  rw [hread, Option.bind_eq_bind, Option.bind_some, hgives]
  rfl

/-- **Orders of axes that undo each other.** -/
def UndoEachOther (p q : List Nat) : Prop :=
  p.map (q.getD · 0) = List.range p.length ∧ q.map (p.getD · 0) = List.range q.length

theorem exchangeLast_undoes {rank k : Nat} (hk : k < rank) :
    UndoEachOther (exchangeLast k (List.range rank)) (exchangeLast k (List.range rank)) := by
  have htwice : (exchangeLast k (List.range rank)).map ((exchangeLast k (List.range rank)).getD · 0) =
      List.range rank := by
    have hself : exchangeLast k (exchangeLast k (List.range rank)) = List.range rank :=
      exchangeLast_twice (by simpa using hk)
    rw [exchangeLast, length_exchangeLast, length_range] at hself
    rw [exchangeLast_range hk, map_map, ← exchangeLast_range hk]
    exact hself
  have hlen : (exchangeLast k (List.range rank)).length = rank := by simp
  exact ⟨htwice.trans (by rw [hlen]), htwice.trans (by rw [hlen])⟩

/-- The orders of axes that nodes ask for. -/
def axisOrders (ns : List Node) : List Attrs := (ns.filter fun n => n.type == "Transpose").map Node.attrs

section Emitted

variable {op : OpNode} {x out : String} {rank k : Nat} {axis : Int}

/-- A transposition that exchanges an axis with the last. -/
def Node.exchanging (k rank i : Nat) (x y : String) : Node :=
  .asked "Transpose" i [.str x] [.str y] [("perm", .ints ((exchangeLast k (List.range rank)).map Int.ofNat))]

/-- Along the last axis the operator is one node. -/
theorem emission_softmax_last (h : op.Normalizes x out rank axis) (haxis : place? rank axis = some k)
    (hk : k < rank) (hlast : k = rank - 1) (d : Draft) :
    ∃ d' j, Emission (softmax op) d d' () [.asked "Softmax" j [.str x] [.str out] [("axis", .int k)]] := by
  obtain ⟨dims, hdims, rfl⟩ := h.declared
  let n := Node.asked "Softmax" (d.count "Softmax") [.str x] [.str out] [("axis", .int k)]
  have hnode : Emission (discard (nodeTo "Softmax" (.strs [x]) (.strs [out]) [("axis", .int k)])) d
      (d.adding n) () [n] :=
    (emission_nodeTo d rfl out [] (Or.inr (by simp [Node.reserved]))).discarded
  refine ⟨_, _, (?_ : Emission (softmax op) d (d.adding n) () [n])⟩
  unfold softmax
  refine .computed hdims (.computed ((congrArg (frontAxis · _) h.attr_eq).trans (frontAxis_eq haxis)) ?_)
  rw [if_pos ((isLastAxis_iff hk).2 hlast), h.input_eq]
  exact .computed h.output_eq hnode

/-- Along another axis the operator is a node between two exchanges. -/
theorem emission_softmax_inner (h : op.Normalizes x out rank axis) (haxis : place? rank axis = some k)
    (hk : k < rank) (hinner : k ≠ rank - 1) (d : Draft) : ∃ d' i j l y z, Emission (softmax op) d d' ()
      [.exchanging k rank i x y, .asked "Softmax" j [.str y] [.str z] [("axis", .int (-1))],
        .exchanging k rank l z out] := by
  obtain ⟨dims, hdims, rfl⟩ := h.declared
  let y := numbered "Transpose" (d.count "Transpose")
  let there := Node.exchanging k dims.length (d.count "Transpose") x y
  let z := numbered "Softmax" ((d.adding there).count "Softmax")
  let n := Node.asked "Softmax" ((d.adding there).count "Softmax") [.str y] [.str z] [("axis", .int (-1))]
  let back := Node.exchanging k dims.length (((d.adding there).adding n).count "Transpose") z out
  have hthere : Emission (node "Transpose" (.strs [x])
      [("perm", .ints ((exchangeLast k (List.range dims.length)).map Int.ofNat))]) d
      (d.adding there) (.str y) [there] := emission_node d rfl (Or.inr (by simp [Node.reserved]))
  have hn : Emission (node "Softmax" (.list [.str y]) [("axis", .int (-1))]) (d.adding there)
      ((d.adding there).adding n) (.str z) [n] := emission_node _ rfl (Or.inr (by simp [Node.reserved]))
  have hback : Emission (discard (nodeTo "Transpose" (.list [.str z]) (.strs [out])
      [("perm", .ints ((exchangeLast k (List.range dims.length)).map Int.ofNat))])) ((d.adding there).adding n)
      (((d.adding there).adding n).adding back) () [back] :=
    (emission_nodeTo _ rfl out [] (Or.inr (by simp [Node.reserved]))).discarded
  refine ⟨_, _, _, _, _, _, (?_ : Emission (softmax op) d
    (((d.adding there).adding n).adding back) () [there, n, back])⟩
  unfold softmax
  refine .computed hdims (.computed ((congrArg (frontAxis · _) h.attr_eq).trans (frontAxis_eq haxis)) ?_)
  rw [if_neg (mt (isLastAxis_iff hk).1 hinner), h.input_eq]
  exact .computed rfl (.computed (exchangeWithLast_eq hk) (hthere.bind (hn.bind (.computed h.output_eq hback))))

end Emitted

/-! ## Runs -/

section Runs

variable {X : Tensor τ} {k : Nat} (E) (version)

theorem resultOf_softmax {attrs : Attrs} (hrank : 0 < X.shape.length)
    (hlast : axisAttr X.shape.length attrs = some (X.shape.length - 1)) :
    resultOf E version "Softmax" attrs [X] = some (X.along (E.rowwise "Softmax") (X.shape.length - 1)) := by
  change (axisAttr X.shape.length attrs).bind _ = _
  rw [hlast, Option.bind_some, if_pos (by omega)]

theorem resultOf_exchanging (hk : k < X.shape.length) : ∃ u, Tensor.Exchanges k X u ∧ resultOf E version "Transpose"
      [("perm", .ints ((exchangeLast k (List.range X.shape.length)).map Int.ofNat))] [X] = some u := by
  obtain ⟨u, hu, hexchanges⟩ := X.exists_transpose hk
  exact ⟨u, hexchanges, (congrArg (Option.bind · X.transpose) (axisOrder_ints _ _)).trans hu⟩

variable {σ : Store (Option (Tensor τ))} {x y z out : String}

/-- One node along the last axis. -/
theorem exists_run_last (hX : σ (.str x) = some X) (hk : k < X.shape.length) (hlast : k = X.shape.length - 1)
    (j : Nat) : ∃ σ', runNodes E version [.asked "Softmax" j [.str x] [.str out] [("axis", .int k)]] σ = some σ' ∧
      σ' (.str out) = some (X.along (E.rowwise "Softmax") k) := by
  have haxis : axisAttr X.shape.length [("axis", .int k)] = some (X.shape.length - 1) := by
    change place? X.shape.length k = _
    rw [Value.place?_natCast, if_pos hk, hlast]
  obtain ⟨σ', hrun, hout⟩ := exists_run_asked hX (resultOf_softmax E version (by omega) haxis) j
  exact ⟨σ', runNodes_cons hrun, hlast ▸ hout⟩

/-- **Three nodes in a row**: what is done along the last axis between two exchanges is done along the axis. -/
theorem exists_run_inner (hX : σ (.str x) = some X) (hk : k < X.shape.length) (i j l : Nat) :
    ∃ σ' t, runNodes E version [.exchanging k X.shape.length i x y,
        .asked "Softmax" j [.str y] [.str z] [("axis", .int (-1))], .exchanging k X.shape.length l z out] σ =
          some σ' ∧ σ' (.str out) = some t ∧ t.Fills X.shape (X.along (E.rowwise "Softmax") k).entry := by
  obtain ⟨u, hu, hmoved⟩ := resultOf_exchanging E version hk
  have hlen : u.shape.length = X.shape.length := by rw [hu.shape, length_exchangeLast]
  let w := u.along (E.rowwise "Softmax") (X.shape.length - 1)
  have haxis : axisAttr u.shape.length [("axis", .int (-1))] = some (u.shape.length - 1) := by
    change place? u.shape.length (-1) = _
    simp only [place?]
    rw [if_pos (by omega), if_pos (by omega)]
    congr 1
    omega
  have hsoft : resultOf E version "Softmax" [("axis", .int (-1))] [u] = some w := by
    rw [resultOf_softmax E version (by omega) haxis, hlen]
  have hw : w.shape.length = X.shape.length := hlen
  obtain ⟨t, ht, hback⟩ := resultOf_exchanging E version (hw.symm ▸ hk)
  obtain ⟨σ₁, hrun₁, hy⟩ := exists_run_asked hX hmoved i
  obtain ⟨σ₂, hrun₂, hz⟩ := exists_run_asked hy hsoft j
  obtain ⟨σ₃, hrun₃, hout⟩ := exists_run_asked hz hback l
  rw [hw] at hrun₃
  exact ⟨σ₃, t, (runNodes_cons hrun₁).trans ((runNodes_cons hrun₂).trans (runNodes_cons hrun₃)), hout,
    hu.fills_along hk ht⟩

end Runs

/-- **A function of vectors is applied along the axis that is asked for**, by nodes that apply it along the last
one: every node can be run, and the output has the shape of the input and the right elements.  The tensor is
transposed back by an order of axes that undoes the first. -/
theorem softmax_along (exportType : ExportType) (depth : Nat) {op : OpNode} {x out : String} {axis : Int}
    {X : Tensor τ} (hop : op.Normalizes x out X.shape.length axis) {k : Nat}
    (haxis : place? X.shape.length axis = some k) {d : Draft} (hversion : 1 ≤ d.opset)
    {σ : Store (Option (Tensor τ))} (hX : σ (.str x) = some X) :
    ∃ d' ns σ' t, Emission (mapUpTo Registry.standard exportType (depth + 1) op) d d' () ns ∧
      runNodes E d.opset ns σ = some σ' ∧ σ' (.str out) = some t ∧
      t.Fills X.shape (X.along (E.rowwise "Softmax") k).entry ∧
      (axisOrders ns = [] ∨ ∃ p q : List Nat, UndoEachOther p q ∧ axisOrders ns =
        [[("perm", .ints (p.map Int.ofNat))], [("perm", .ints (q.map Int.ofNat))]]) := by
  have hk : k < X.shape.length := place?_lt haxis
  have hno : Registry.standard.composite? (.str op.type) = none := by rw [hop.type]; rfl
  have hrules : Registry.standard.rulesOf (.str op.type) = some [(1, softmax)] := by rw [hop.type]; rfl
  have hrule := Registry.ruleFor_of_latest hrules rfl hversion (by simp)
  by_cases hlast : k = X.shape.length - 1
  · obtain ⟨d', j, hem⟩ := emission_softmax_last hop haxis hk hlast d
    obtain ⟨σ', hrun, hout⟩ := exists_run_last E d.opset hX hk hlast j
    exact ⟨d', _, σ', _, emission_mapUpTo_of_rule hno hrule hem, hrun, hout, ⟨rfl, fun _ _ => rfl⟩, .inl rfl⟩
  · obtain ⟨d', i, j, l, y, z, hem⟩ := emission_softmax_inner hop haxis hk hlast d
    obtain ⟨σ', t, hrun, hout, ht⟩ := exists_run_inner E d.opset hX hk i j l
    exact ⟨d', _, σ', t, emission_mapUpTo_of_rule hno hrule hem, hrun, hout, ht,
      .inr ⟨_, _, exchangeLast_undoes hk, rfl⟩⟩

/-- An operator along the first of two axes. -/
def OpNode.downColumns : OpNode :=
  { name := "softmax_0", type := "softmax"
    inputs := [("X", .strs ["x"])], outputs := [("Out", .strs ["out"])], attrs := [("axis", .int (-2))]
    block := some { vars := [{ name := "out", shape := [2, 3] }], ops := [] } }

/-- Vectors are turned round. -/
def Elements.reversing : Elements Int := { Elements.placeholder with rowwise := fun _ row => row.reverse }

def twoRows : Tensor Int := ⟨[2, 3], fun i => 10 * i.getD 0 0 + i.getD 1 0⟩

/-- **Columns are turned round**, by nodes that turn rows. -/
theorem softmax_along_downColumns : ∃ d' ns σ' t,
    Emission (mapUpTo Registry.standard .none 1 .downColumns) { opset := 9 } d' () ns ∧
      runNodes .reversing 9 ns (Store.write (fun _ => none) [.str "x"] [some twoRows]) = some σ' ∧
      σ' (.str "out") = some t ∧ t.shape = [2, 3] ∧ t.entry [0, 2] = 12 ∧ t.entry [1, 2] = 2 := by
  have hop : OpNode.downColumns.Normalizes "x" "out" twoRows.shape.length (-2) :=
    { type := rfl, input := rfl, output := rfl, declared := ⟨_, rfl, rfl⟩, axis := .inl rfl }
  have haxis : place? twoRows.shape.length (-2) = some 0 := rfl
  obtain ⟨d', ns, σ', t, hem, hrun, hout, ⟨hshape, hentry⟩, -⟩ := softmax_along (E := .reversing)
    (d := { opset := 9 }) .none 0 hop haxis (by decide)
    (rfl : Store.write (fun _ => none) [.str "x"] [some twoRows] (.str "x") = some twoRows)
  exact ⟨d', ns, σ', t, hem, hrun, hout, hshape, hentry [0, 2] (by decide), hentry [1, 2] (by decide)⟩

end ModelExport
