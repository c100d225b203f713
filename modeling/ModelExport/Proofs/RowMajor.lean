import Mathlib.Algebra.BigOperators.Group.List.Basic
import ModelExport.Proofs.Emission.Growth

/-!
# Proofs/RowMajor — the elements of a variable in row-major order

    [[a, b, c],
     [d, e, f]]      at [1, 2] stands  f,  which is number  1 · 3 + 2  of  a b c d e f

Contents are nested sequences.  Where they have a shape (`Value.HasShape`), the member at an index
(`Value.member?`) stands in the flat list at the row-major offset of that index (`getElem?_leaves`).
So do the elements of a variable, each converted to the variable's type (`Variable.holds_of_elements`).
-/

namespace ModelExport

open List

/-! ## Nested sequences -/

namespace Value

def parts? : Value → Option (List Value)
  | .list xs => some xs
  | .tuple xs => some xs
  | _ => Option.none

/-- **Nested sequences of a shape**: so many parts at each level, and no sequences at the bottom. -/
def HasShape : List Nat → Value → Prop
  | [], v => v.parts? = Option.none
  | n :: dims, v => ∃ xs, v.parts? = some xs ∧ xs.length = n ∧ ∀ x ∈ xs, HasShape dims x

/-- What stands at an index. -/
def member? : List Nat → Value → Option Value
  | [], v => some v
  | i :: index, v => v.parts?.bind fun xs => xs[i]?.bind (member? index)

def rowMajor : List Nat → List Nat → Nat
  | _ :: dims, i :: index => i * dims.prod + rowMajor dims index
  | _, _ => 0

theorem leavesAll_eq : ∀ xs : List Value, leavesAll xs = xs.flatMap leaves
  | [] => rfl
  | x :: xs => by rw [leavesAll, leavesAll_eq xs, flatMap_cons]

theorem leaves_of_parts {v : Value} {xs : List Value} (h : v.parts? = some xs) :
    v.leaves = xs.flatMap leaves := by
  cases v with
  | list ys => rw [leaves, leavesAll_eq, Option.some.inj h]
  | tuple ys => rw [leaves, leavesAll_eq, Option.some.inj h]
  | _ => cases h

theorem leaves_of_no_parts {v : Value} (h : v.parts? = Option.none) : v.leaves = [v] := by
  cases v with
  | list ys => cases h
  | tuple ys => cases h
  | _ => simp [leaves]

end Value

/-! ## Row-major order -/

theorem getElem?_flatMap_of_length {α β : Type} {f : α → List β} {n : Nat} :
    ∀ {xs : List α}, (∀ x ∈ xs, (f x).length = n) → ∀ (i : Nat) {j : Nat}, j < n →
      (xs.flatMap f)[i * n + j]? = xs[i]?.bind fun x => (f x)[j]?
  | [], _, i, j, _ => by simp
  | x :: xs, h, i, j, hj => by
      obtain ⟨hx, hxs⟩ := forall_mem_cons.1 h
      rw [flatMap_cons]
      cases i with
      | zero =>
        rw [Nat.zero_mul, Nat.zero_add, getElem?_append_left (hx.symm ▸ hj)]
        rfl
      | succ i =>
        have hplace : (i + 1) * n + j = (f x).length + (i * n + j) := by
          rw [hx, Nat.add_one_mul]
          omega
        rw [hplace, getElem?_append_right (Nat.le_add_right _ _), Nat.add_sub_cancel_left,
          getElem?_flatMap_of_length hxs i hj]
        rfl

theorem length_leaves : ∀ {dims : List Nat} {v : Value}, v.HasShape dims → v.leaves.length = dims.prod
  | [], v, h => by rw [Value.leaves_of_no_parts h]; rfl
  | n :: dims, v, ⟨xs, hparts, hlength, hxs⟩ => by
      rw [Value.leaves_of_parts hparts, length_flatMap,
        map_congr_left fun x hx => length_leaves (hxs x hx), map_const', sum_replicate,
        hlength, prod_cons]
      rfl

theorem rowMajor_lt : ∀ {dims index : List Nat}, List.Forall₂ (· < ·) index dims →
    Value.rowMajor dims index < dims.prod
  | [], [], _ => Nat.zero_lt_one
  | n :: dims, i :: index, .cons hi hindex => by
      have hrest := rowMajor_lt hindex
      calc i * dims.prod + Value.rowMajor dims index < i * dims.prod + dims.prod := by omega
        _ = (i + 1) * dims.prod := (Nat.succ_mul i dims.prod).symm
        _ ≤ n * dims.prod := Nat.mul_le_mul_right _ hi
        _ = (n :: dims).prod := prod_cons.symm

/-- **What stands at an index is found at its row-major offset.** -/
theorem getElem?_leaves : ∀ {dims index : List Nat} {v : Value}, v.HasShape dims →
    List.Forall₂ (· < ·) index dims → v.leaves[Value.rowMajor dims index]? = v.member? index
  | [], [], v, h, _ => by rw [Value.leaves_of_no_parts h]; rfl
  | n :: dims, i :: index, v, ⟨xs, hparts, _, hxs⟩, .cons _ hindex => by
      rw [Value.leaves_of_parts hparts, Value.rowMajor, Value.member?, hparts, Option.bind_some,
        getElem?_flatMap_of_length (fun x hx => length_leaves (hxs x hx)) i (rowMajor_lt hindex)]
      cases hx : xs[i]? with
      | none => rfl
      | some x => exact getElem?_leaves (hxs x (mem_of_getElem? hx)) hindex

/-! ## Elements of a variable -/

theorem forall₂_of_mapM_ok {α β ε : Type} {f : α → Except ε β} : ∀ {xs : List α} {ys : List β},
    xs.mapM f = .ok ys → List.Forall₂ (fun x y => f x = .ok y) xs ys
  | [], ys, h => by cases h; exact .nil
  | x :: xs, ys, h => by
      rw [mapM_cons] at h
      obtain ⟨y, hy, h₁⟩ := Emit.except_bind_ok h
      obtain ⟨zs, hzs, h₂⟩ := Emit.except_bind_ok h₁
      rw [← Except.ok.inj h₂]
      exact .cons hy (forall₂_of_mapM_ok hzs)

/-- **The elements that a variable holds**: its contents in row-major order, converted to its type, and
zeros where it has none. -/
structure Variable.Holds (v : Variable) (elements : List Value) : Prop where
  contents : ∀ data dims, v.data = some data → data.HasShape dims →
    elements.length = dims.prod ∧
      ∀ index, List.Forall₂ (· < ·) index dims → ∃ x y, data.member? index = some x ∧
        (ElementType.ofCode v.dtype).element x = .ok y ∧
        elements[Value.rowMajor dims index]? = some y
  zeros : v.data = none →
    elements = List.replicate (elementCount v.shape) (ElementType.ofCode v.dtype).zero

theorem Variable.holds_of_elements {v : Variable} {elements : List Value}
    (h : v.elements = .ok elements) : v.Holds elements where
  contents data dims hdata hshape := by
    rw [Variable.elements, hdata] at h
    have hpaired := forall₂_of_mapM_ok h
    have hlength := hpaired.length_eq.symm.trans (length_leaves hshape)
    refine ⟨hlength, fun index hindex => ?_⟩
    have hlt := rowMajor_lt hindex
    have hleaf := getElem?_leaves hshape hindex
    have hin : Value.rowMajor dims index < data.leaves.length := length_leaves hshape ▸ hlt
    rw [getElem?_eq_getElem hin] at hleaf
    refine ⟨_, _, hleaf.symm, hpaired.get hin (hlength ▸ hlt), ?_⟩
    exact getElem?_eq_getElem _
  zeros hdata := by
    rw [Variable.elements, hdata] at h
    exact (Except.ok.inj h).symm

end ModelExport
