import Mathlib
import ModelExport.Rules.PriorBoxes

/-!
# Proofs/PriorBoxes/Slots — how the slots of a grid are written

    boxes    b₀ b₁ b₂
    slots    0  1  2  3  4         two stay blank

A box goes to the next slot (`put_cases`), so a run of writes goes to the slots from there on, one after another, and
never outside (`Writes.slots_eq`, `Writes.inside`).  Each slot is written once exactly when there are as many boxes as
slots (`FillsInOrder.once_iff`).
-/

namespace ModelExport.Rules

open List

variable {priors : Nat}

/-! ## Writes -/

namespace GridCell

variable {c c' : GridCell priors} {b : Box} {ws : List (Nat × Box)}

/-- **A run of writes** into a cell, each with the slot that it goes to. -/
inductive Writes : GridCell priors → List (Nat × Box) → GridCell priors → Prop
  | done (c : GridCell priors) : Writes c [] c
  | put {c c' c'' : GridCell priors} {b : Box} {ws : List (Nat × Box)} :
      c.put b = .ok c' → Writes c' ws c'' → Writes c ((c.next, b) :: ws) c''

/-- **What one write does.** -/
theorem put_cases (h : c.put b = .ok c') :
    c.next < priors ∧ c'.next = c.next + 1 ∧
      c'.slots.toList = c.slots.toList.take c.next ++ b :: c.slots.toList.drop (c.next + 1) := by
  unfold put at h
  split at h
  · rename_i hnext
    obtain rfl := Except.ok.inj h
    refine ⟨hnext, rfl, ?_⟩
    rw [Vector.toList_set, set_eq_take_append_cons_drop, if_pos (by rwa [Vector.length_toList])]
  · cases h

theorem exists_put (h : c.next < priors) (b : Box) : ∃ c', c.put b = .ok c' := ⟨_, dif_pos h⟩

namespace Writes

/-- Writes go to one slot after another. -/
theorem slots_eq (h : Writes c ws c') : ws.map Prod.fst = List.range' c.next ws.length := by
  induction h with
  | done c => rfl
  | put hput _ ih =>
    obtain ⟨-, hnext, -⟩ := put_cases hput
    rw [map_cons, ih, hnext, length_cons, range'_succ]

/-- What is written stays, and so does what was there before and after it. -/
theorem slots_kept (h : Writes c ws c') : c'.slots.toList =
    c.slots.toList.take c.next ++ ws.map Prod.snd ++ c.slots.toList.drop (c.next + ws.length) := by
  induction h with
  | done c => simp
  | @put c c' c'' b ws hput _ ih =>
    obtain ⟨hinside, hnext, hslots⟩ := put_cases hput
    have htake : (c.slots.toList.take c.next).length = c.next := by
      rw [length_take, Vector.length_toList, Nat.min_eq_left (Nat.le_of_lt hinside)]
    have hafter : c.next + 1 + (c.next + 1 + ws.length - (c.next + 1)) = c.next + (ws.length + 1) := by omega
    rw [ih, hnext, hslots, append_cons, take_left' (by simp [htake]), drop_append,
      drop_eq_nil_of_le (by simp [htake]), nil_append, length_append, length_singleton, htake,
      drop_drop, length_cons, map_cons, ← append_cons, hafter]

end Writes

/-- **There is a slot for each box** if there are not too many. -/
theorem exists_writes {bs : List Box} (h : c.next + bs.length ≤ priors) :
    ∃ c' ws, bs.foldlM put c = .ok c' ∧ Writes c ws c' ∧ ws.map Prod.snd = bs := by
  induction bs generalizing c with
  | nil => exact ⟨c, [], rfl, .done c, rfl⟩
  | cons b bs ih =>
    rw [length_cons] at h
    obtain ⟨c₁, hput⟩ := exists_put (show c.next < priors by omega) b
    obtain ⟨c', ws, hrest, hws, hbs⟩ := ih (c := c₁) (by rw [(put_cases hput).2.1]; omega)
    refine ⟨c', (c.next, b) :: ws, ?_, .put hput hws, by rw [map_cons, hbs]⟩
    rw [foldlM_cons, hput]
    exact hrest

/-- **Boxes fill a cell in order**: they go to the slots 0, 1, 2, … and none of them outside, and what is left stays
blank. -/
structure FillsInOrder (bs : List Box) (slots : List Nat) (c : GridCell priors) : Prop where
  run : Writes {} (slots.zip bs) c
  order : slots = List.range bs.length
  inside : ∀ k ∈ slots, k < priors
  kept : c.slots.toList = bs ++ List.replicate (priors - bs.length) Box.blank

theorem exists_fill {bs : List Box} (h : bs.length ≤ priors) :
    ∃ c : GridCell priors, fill priors bs = .ok c ∧ FillsInOrder bs (List.range bs.length) c := by
  obtain ⟨c, ws, hfill, hws, hbs⟩ := exists_writes (c := ({} : GridCell priors)) ((Nat.zero_add bs.length).symm ▸ h)
  have hlength : ws.length = bs.length := by rw [← hbs, length_map]
  have hslots : ws.map Prod.fst = List.range bs.length := by
    rw [hws.slots_eq, hlength, range_eq_range']
  refine ⟨c, hfill, zip_of_prod hslots hbs ▸ hws, rfl, fun k hk => Nat.lt_of_lt_of_le (mem_range.1 hk) h, ?_⟩
  rw [hws.slots_kept, hbs, hlength, Vector.toList_replicate, take_zero, nil_append, Nat.zero_add,
    drop_replicate]

/-- **Each slot is written exactly once if and only if** there are as many boxes as slots. -/
theorem FillsInOrder.once_iff {bs : List Box} {slots : List Nat} {c : GridCell priors} (h : FillsInOrder bs slots c) :
    (∀ k < priors, slots.count k = 1) ↔ bs.length = priors := by
  rw [h.order]
  constructor
  · intro honce
    have hinside : ∀ k < bs.length, k < priors := fun k hk => h.inside k (h.order ▸ mem_range.2 hk)
    by_contra hne
    have hless : bs.length < priors := by
      by_contra hge
      exact absurd (hinside priors (by omega)) (Nat.lt_irrefl _)
    have hnone := count_eq_zero.2 (not_mem_range_self (n := bs.length))
    exact absurd (honce _ hless) (by rw [hnone]; decide)
  · rintro rfl k hk
    exact count_eq_one_of_mem nodup_range (mem_range.2 hk)

end GridCell

/-! ## Grids -/

theorem exists_mapM {α β ε : Type} {f : α → Except ε β} {P : α → β → Prop} (xs : List α)
    (h : ∀ x ∈ xs, ∃ y, f x = .ok y ∧ P x y) : ∃ ys, xs.mapM f = .ok ys ∧ List.Forall₂ P xs ys := by
  induction xs with
  | nil => exact ⟨[], rfl, .nil⟩
  | cons x xs ih =>
    obtain ⟨⟨y, hy, hP⟩, hxs⟩ := forall_mem_cons.1 h |>.imp_right ih
    obtain ⟨ys, hys, hPs⟩ := hxs
    refine ⟨y :: ys, ?_, .cons hP hPs⟩
    rw [mapM_cons, hy, hys]
    rfl

theorem length_flatten_of_forall₂ {α β : Type} {f : α → Nat} {xs : List α} {ys : List (List β)}
    (h : List.Forall₂ (fun x y => y.length = f x) xs ys) : ys.flatten.length = (xs.map f).sum := by
  induction h with
  | nil => rfl
  | cons hy _ ih => rw [flatten_cons, length_append, hy, ih, map_cons, sum_cons]

/-- **Boxes laid out on a grid**: each cell is filled in order, and `once` says whether each of its slots is written
exactly once. -/
structure LaidOut (g : Grid) (made : Int → Int → Except Slip (List Box)) (once : Prop)
    (cells : List (List (GridCell priors))) : Prop where
  cells_eq : g.cells priors made = .ok cells
  filled : List.Forall₂ (fun h row => List.Forall₂ (fun w cell => ∃ bs slots, made h w = .ok bs ∧
    cell.FillsInOrder bs slots ∧ ((∀ k < priors, slots.count k = 1) ↔ once)) (upTo g.width) row) (upTo g.height) cells

theorem length_upTo (n : Int) : (upTo n).length = n.toNat := by rw [upTo, length_map, length_range]

theorem mem_upTo {n k : Int} (h : k ∈ upTo n) : 0 ≤ k ∧ k < n := by
  obtain ⟨j, hj, rfl⟩ := mem_map.1 h
  have hlt := mem_range.1 hj
  simp only [Int.ofNat_eq_natCast]
  omega

/-- **A grid is laid out** when there is room for the boxes of each cell. -/
theorem exists_laidOut {g : Grid} {made : Int → Int → Except Slip (List Box)} {n : Nat} (hroom : n ≤ priors)
    (hmade : ∀ h ∈ upTo g.height, ∀ w ∈ upTo g.width, ∃ bs, made h w = .ok bs ∧ bs.length = n) :
    ∃ cells : List (List (GridCell priors)), LaidOut g made (n = priors) cells := by
  have hcell : ∀ h ∈ upTo g.height, ∀ w ∈ upTo g.width, ∃ cell : GridCell priors,
      (do GridCell.fill priors (← made h w)) = .ok cell ∧ ∃ bs slots, made h w = .ok bs ∧
        cell.FillsInOrder bs slots ∧ ((∀ k < priors, slots.count k = 1) ↔ n = priors) := fun h hh w hw => by
    obtain ⟨bs, hbs, rfl⟩ := hmade h hh w hw
    obtain ⟨cell, hfill, horder⟩ := GridCell.exists_fill hroom
    exact ⟨cell, by rw [hbs]; exact hfill, bs, _, hbs, horder, horder.once_iff⟩
  obtain ⟨cells, hcells, hfilled⟩ := exists_mapM (upTo g.height) fun h hh => exists_mapM (upTo g.width) (hcell h hh)
  exact ⟨cells, hcells, hfilled⟩

theorem GridCell.length_numbers (c : GridCell priors) : c.numbers.length = priors * 4 := by
  have hfour : (fun b : Box => b.numbers.length) = fun _ => 4 := rfl
  rw [numbers, length_flatMap, hfour, map_const', sum_replicate_nat, Vector.length_toList]

theorem LaidOut.length_cellNumbers {g : Grid} {made : Int → Int → Except Slip (List Box)} {once : Prop}
    {cells : List (List (GridCell priors))} (h : LaidOut g made once cells) (clip : Bool) :
    (cellNumbers clip cells).length = g.height.toNat * g.width.toNat * priors * 4 := by
  have hclip : ∀ xs : List Float, (if clip then xs.map toUnit else xs).length = xs.length := fun xs => by
    split
    · rw [length_map]
    · rfl
  have hcells : cells.flatten.length = g.height.toNat * g.width.toNat := by
    rw [length_flatten_of_forall₂ (h.filled.imp fun _ _ hrow => hrow.length_eq.symm), map_const',
      sum_replicate_nat, length_upTo, length_upTo]
  rw [cellNumbers, hclip, length_map, length_flatMap]
  simp only [GridCell.length_numbers, map_const', sum_replicate_nat, hcells, Nat.mul_assoc]

end ModelExport.Rules
