import Mathlib.Algebra.BigOperators.Intervals
import Mathlib.Tactic.Ring
import ModelExport.Proofs.Tensors.Steps

/-!
# Proofs/Contraction — tensors multiplied as matrices

    x  [2, 3 | 4, 5]   as a matrix   [6, 20]
    y  [20 | 7]        as a matrix   [20, 7]      product  [6, 7]   back as  [2, 3, 7]

Of one tensor the last axes are contracted with the first axes of another.  Both are laid out as matrices, whose
product has a row for each index along the axes that stay of the one, and a column for each of the other.  In
row-major order an index is a number, and so are its front and its back (`rowMajor_append`, `indexAt_append`); so
the product has the right elements when it is brought back to the axes that stay (`mul_contracts`).
-/

namespace ModelExport

open Emit List Rules

/-! ## Row-major order of two groups of axes -/

theorem div_mod_of_lt {n k : Nat} (m : Nat) (hk : k < n) : (m * n + k) / n = m ∧ (m * n + k) % n = k := by
  rw [Nat.mul_comm]
  refine ⟨?_, ?_⟩
  · rw [Nat.mul_add_div (Nat.zero_lt_of_lt hk), Nat.div_eq_of_lt hk, Nat.add_zero]
  · rw [Nat.mul_add_mod, Nat.mod_eq_of_lt hk]

/-- The number of an index, by those of its front and its back. -/
theorem rowMajor_append : ∀ {a i : List Nat} (b j : List Nat), List.Forall₂ (· < ·) i a →
    Value.rowMajor (a ++ b) (i ++ j) = Value.rowMajor a i * b.prod + Value.rowMajor b j
  | [], [], b, j, .nil => by simp [Value.rowMajor]
  | d :: a, k :: i, b, j, .cons _ hi => by
      rw [cons_append, cons_append, Value.rowMajor, Value.rowMajor, rowMajor_append b j hi,
        prod_append]
      ring

namespace Tensor

/-- The front and the back of an index, by their numbers. -/
theorem indexAt_append {b : List Nat} {k : Nat} (hk : k < b.prod) : ∀ {a : List Nat} {n : Nat}, n < a.prod →
    indexAt (a ++ b) (n * b.prod + k) = indexAt a n ++ indexAt b k
  | [], n, hn => by
      obtain rfl : n = 0 := Nat.lt_one_iff.1 hn
      simp [indexAt]
  | d :: a, n, hn => by
      have hpos : 0 < a.prod := Nat.pos_of_ne_zero fun h => by simp [h] at hn
      obtain ⟨hdiv, hmod⟩ := div_mod_of_lt n hk
      have hfront : (n * b.prod + k) / (a.prod * b.prod) = n / a.prod := by
        rw [Nat.mul_comm a.prod, ← Nat.div_div_eq_div_mul, hdiv]
      have hback : (n * b.prod + k) % (a.prod * b.prod) = n % a.prod * b.prod + k := by
        rw [Nat.mul_comm a.prod, Nat.mod_mul, hdiv, hmod, Nat.add_comm, Nat.mul_comm]
      rw [cons_append, indexAt, indexAt, prod_append, hfront, hback,
        indexAt_append hk (Nat.mod_lt n hpos), cons_append]

/-- **In a matrix an index has its front as row and its back as column.** -/
theorem indexAt_matrix {a b i j : List Nat} (hi : List.Forall₂ (· < ·) i a) (hj : List.Forall₂ (· < ·) j b) :
    indexAt [a.prod, b.prod] (Value.rowMajor (a ++ b) (i ++ j)) = [Value.rowMajor a i, Value.rowMajor b j] := by
  obtain ⟨hdiv, hmod⟩ := div_mod_of_lt (Value.rowMajor a i) (rowMajor_lt hj)
  rw [rowMajor_append b j hi]
  simp [indexAt, hdiv, hmod]

end Tensor

/-! ## Elements that can be multiplied and added -/

variable {τ R : Type*} {E : Elements τ} {version : Int} [CommSemiring R] {num : R → τ}

/-- **Elements of a commutative semiring**, as nodes add and multiply them. -/
structure Elements.InSemiring (E : Elements τ) (num : R → τ) : Prop where
  zero : E.literal (.int ElementType.FLOAT) (.int 0) = num 0
  add : ∀ a b, E.apply "Add" [] [num a, num b] = num (a + b)
  mul : ∀ a b, E.apply "Mul" [] [num a, num b] = num (a * b)

def Tensor.map (num : R → τ) (t : Tensor R) : Tensor τ := ⟨t.shape, fun i => num (t.entry i)⟩

theorem Elements.InSemiring.sum_map (h : E.InSemiring num) (f : Nat → R) (ks : List Nat) :
    E.sum (ks.map fun k => num (f k)) = num (ks.map f).sum := by
  induction ks with
  | nil => exact h.zero
  | cons k ks ih =>
    rw [map_cons, map_cons, sum_cons, ← h.add, ← ih]
    rfl

/-- **The sum over a contracted index**: along some axes of one tensor, and as many elements of some axes of
another. -/
def contraction (f g : List Nat → R) (b c i j : List Nat) : R :=
  ∑ k ∈ Finset.range b.prod, f (i ++ Tensor.indexAt b k) * g (Tensor.indexAt c k ++ j)

/-! ## Nodes -/

section Nodes

/-- A tensor laid out as a matrix: the front and the back of its index are numbers. -/
theorem acts_flatten {a b : List Nat} {f : List Nat → τ} {axis : Int} (haxis : axis = a.length) :
    Acts E version "Flatten" [("axis", .int axis)] [Tensor.Fills (a ++ b) f]
      [Tensor.Fills [a.prod, b.prod] fun i =>
        f (Tensor.indexAt a (i.getD 0 0) ++ Tensor.indexAt b (i.getD 1 0))] := by
  refine .of_one (by decide) (Or.inr (by simp [Node.reserved])) fun t ⟨hshape, hentry⟩ => ?_
  have hflatten : resultOf E version "Flatten" [("axis", .int axis)] [t] = t.flatten a.length := by
    change (axis.toNat?).bind t.flatten = _
    rw [haxis]
    rfl
  have hle : a.length ≤ t.shape.length := by simp [hshape]
  refine ⟨_, hflatten.trans (if_pos hle), ?_, fun i hi => ?_⟩
  · simp [hshape]
  · obtain ⟨r, c, rfl, hr, hc⟩ := within_two hi
    have hnumber : Value.rowMajor [a.prod, b.prod] [r, c] = r * b.prod + c := by simp [Value.rowMajor]
    simp only [hshape, take_left, drop_left, hnumber, Tensor.indexAt_append hc hr]
    exact hentry _ (rel_append (Tensor.indexAt_within hr) (Tensor.indexAt_within hc))

theorem acts_matmul (hnum : E.InSemiring num) {m k l n : Nat} {f g : List Nat → R} (hkl : k = l) :
    Acts E version "MatMul" [] [Tensor.Fills [m, k] fun i => num (f i), Tensor.Fills [l, n] fun i => num (g i)]
      [Tensor.Fills [m, n] fun i =>
        num (∑ j ∈ Finset.range k, f [i.getD 0 0, j] * g [j, i.getD 1 0])] := by
  refine .of_two (by decide) (Or.inr (forall_mem_nil _)) fun t u ⟨ht, hf⟩ ⟨hu, hg⟩ => ?_
  subst hkl
  have hproduct : resultOf E version "MatMul" [] [t, u] = some ⟨[m, n], fun i => E.sum ((List.range k).map fun j =>
      E.apply "Mul" [] [t.entry [i.getD 0 0, j], u.entry [j, i.getD 1 0]])⟩ := by
    change t.matmul E.sum (fun a b => E.apply "Mul" [] [a, b]) u = _
    rw [Tensor.matmul, ht, hu]
    exact if_pos rfl
  refine ⟨_, hproduct, rfl, fun i hi => ?_⟩
  obtain ⟨r, c, rfl, hr, hc⟩ := within_two hi
  have hterm : ∀ j ∈ List.range k, E.apply "Mul" [] [t.entry [r, j], u.entry [j, c]] =
      num (f [r, j] * g [j, c]) := fun j hj => by
    have hj := mem_range.1 hj
    rw [hf [r, j] (.cons hr (.cons hj .nil)), hg [j, c] (.cons hj (.cons hc .nil)), hnum.mul]
  change E.sum ((List.range k).map fun j => E.apply "Mul" [] [t.entry [r, j], u.entry [j, c]]) = _
  rw [map_congr_left hterm, hnum.sum_map]
  rfl

/-- A matrix brought back to the axes that its rows and columns stand for. -/
theorem acts_reshape_matrix {a b : List Nat} {h : List Nat → List Nat → τ} (hpos : ∀ d ∈ a ++ b, 0 < d) :
    Acts E version "Reshape" []
      [Tensor.Fills [a.prod, b.prod] fun i => h (Tensor.indexAt a (i.getD 0 0)) (Tensor.indexAt b (i.getD 1 0)),
        listing E ((a ++ b).map Int.ofNat)]
      [Tensor.Fills (a ++ b) fun i => h (i.take a.length) (i.drop a.length)] := by
  refine .of_two (by decide) (Or.inr (forall_mem_nil _)) fun t u ⟨ht, hentry⟩ hu => ?_
  have hprod : (a ++ b).prod = t.shape.prod := by simp [ht]
  refine ⟨_, resultOf_reshape hu hpos hprod, rfl, fun i hi => ?_⟩
  have hfront := forall₂_take_append _ _ _ hi
  have hback := forall₂_drop_append _ _ _ hi
  have hindex := Tensor.indexAt_matrix hfront hback
  rw [take_append_drop] at hindex
  dsimp only
  rw [ht, hindex, hentry _ (.cons (rowMajor_lt hfront) (.cons (rowMajor_lt hback) .nil))]
  exact congrArg₂ h (Tensor.indexAt_rowMajor hfront) (Tensor.indexAt_rowMajor hback)

end Nodes

/-! ## The rule -/

/-- **An operator that contracts the axes of a tensor from the `p`-th on with the first `q` axes of another**,
which is declared with a number of axes. -/
structure OpNode.Contracts (op : OpNode) (x y out : String) (p q rank : Nat) : Prop where
  type : op.type = "mul"
  first : Assoc.get? op.inputs "X" = some (.strs [x])
  second : Assoc.get? op.inputs "Y" = some (.strs [y])
  output : Assoc.get? op.outputs "Out" = some (.strs [out])
  kept : op.attr "x_num_col_dims" = .int p
  contracted : op.attr "y_num_col_dims" = .int q
  declared : ∃ dims, op.inputShape "Y" 0 = .ok dims ∧ dims.length = rank

namespace OpNode.Contracts

variable {op : OpNode} {x y out : String} {p q rank : Nat}

theorem input_first (h : op.Contracts x y out p q rank) : op.input "X" = .list [.str x] := by
  rw [OpNode.input, h.first, Option.getD_some]
  rfl

theorem input_second (h : op.Contracts x y out p q rank) : op.input "Y" = .list [.str y] := by
  rw [OpNode.input, h.second, Option.getD_some]
  rfl

theorem inputAt_first (h : op.Contracts x y out p q rank) : op.inputAt "X" 0 = .ok (.str x) := by
  simp only [OpNode.inputAt, h.first]
  rfl

theorem inputAt_second (h : op.Contracts x y out p q rank) : op.inputAt "Y" 0 = .ok (.str y) := by
  simp only [OpNode.inputAt, h.second]
  rfl

theorem output_eq (h : op.Contracts x y out p q rank) : op.output "Out" = .ok (.list [.str out]) := by
  simp only [OpNode.output, h.output]
  rfl

theorem outputAt_eq (h : op.Contracts x y out p q rank) : op.outputAt "Out" 0 = .ok (.str out) := by
  rw [OpNode.outputAt, h.output_eq]
  rfl

end OpNode.Contracts

section Rule

variable {op : OpNode} {x y out : String} {a b c e : List Nat} {f g : List Nat → R}

/-- **The two tensors are multiplied as matrices**, and the product is brought back to the axes that stay. -/
theorem computes_mul (hE : E.Exact) (hnum : E.InSemiring num)
    (hop : op.Contracts x y out a.length c.length (c ++ e).length) (hprod : b.prod = c.prod)
    (hpos : ∀ d ∈ a ++ e, 0 < d) :
    Computes E version ⟨true, [.str out]⟩
      [(.str x, Tensor.Fills (a ++ b) fun i => num (f i)), (.str y, Tensor.Fills (c ++ e) fun i => num (g i))]
      (mul op)
      [(.str out, Tensor.Fills (a ++ e) fun i =>
        num (contraction f g b c (i.take a.length) (i.drop a.length)))] := by
  obtain ⟨dims, hdims, hrank⟩ := hop.declared
  unfold mul
  simp only [hop.kept, hop.contracted, hop.input_first, hop.input_second]
  refine .computed hop.inputAt_first (.computed hop.inputAt_second (.checked hop.outputAt_eq ?_))
  refine .node rfl rfl (acts_flatten rfl) fun flatX => ?_
  refine .node rfl rfl (acts_flatten rfl) fun flatY => ?_
  refine .node rfl rfl (acts_matmul hnum hprod) fun product => ?_
  refine .also (v := .str x) (fun t ht => (ht.1 : shaped _ t)) (.node rfl rfl (acts_shape hE) fun xShape => ?_)
  refine .cut hE rfl fun left => ?_
  refine .also (v := .str y) (fun t ht => (ht.1 : shaped _ t)) (.node rfl rfl (acts_shape hE) fun yShape => ?_)
  refine .computed hdims (.cut hE rfl fun right => .node rfl rfl acts_concat_lists fun shape => ?_)
  have hright := map_selects_back c e
  rw [← hrank] at hright
  rw [map_selects_front, hright, ← map_append]
  exact .computed hop.output_eq (.last (.toOne _ rfl
    (acts_reshape_matrix (h := fun i j => num (contraction f g b c i j)) hpos) .done))

end Rule

def OpNode.projecting : OpNode :=
  { name := "mul_0", type := "mul"
    inputs := [("X", .strs ["x"]), ("Y", .strs ["y"])], outputs := [("Out", .strs ["out"])]
    attrs := [("x_num_col_dims", .int 1), ("y_num_col_dims", .int 1)]
    block := some { vars := [{ name := "y", shape := [4, 2] }], ops := [] } }

/-- Integers that nodes add and multiply. -/
def Elements.integers : Elements Int :=
  { Elements.placeholder with
    apply := fun type _ xs => if type = "Mul" then xs.prod else xs.sum }

theorem Elements.exact_integers : integers.Exact := ⟨fun _ => rfl, fun _ => rfl⟩

theorem Elements.inSemiring_integers : integers.InSemiring (id : Int → Int) where
  zero := rfl
  add a b := by simp [integers]
  mul a b := by simp [integers]

def cube : Tensor Int := ⟨[2, 2, 2], fun i => 4 * i.getD 0 0 + 2 * i.getD 1 0 + i.getD 2 0⟩

def fourPairs : Tensor Int := ⟨[4, 2], fun i => (i.getD 0 0 + 1) * (i.getD 1 0 + 1)⟩

def factors : Store (Option (Tensor Int)) :=
  Store.write (fun _ => none) [.str "x", .str "y"] [some (cube.map id), some (fourPairs.map id)]

end ModelExport
