import ModelExport.Proofs.Recurrent.Layers

/-!
# Proofs/Recurrent/Distribution — every parameter goes to one place

    rows of a parameter     i   f   c   o        r   z   h
    as a cell reads them    i   o   f   c        z   r   h

A stack reads each entry of its list of parameters once (`Recurrence.flatMap_ofLayer`), and no row is lost on the
way: the ranges that are cut out of a parameter are its gates, in the order of models (`flatMap_gateCuts`), and
the rows of states that layers begin with lie behind one another (`Recurrence.flatMap_stateCut`).
-/

namespace ModelExport

open Emit List Rules

/-! ## Blocks of rows -/

theorem flatMap_blocks (size first n : Nat) :
    ((List.range' first n).flatMap fun k => List.range' (k * size) size) = List.range' (first * size) (n * size) := by
  induction n generalizing first with
  | zero => simp
  | succ n ih =>
    rw [range'_succ, flatMap_cons, ih, Nat.succ_mul, range'_append_1, Nat.succ_mul, Nat.add_comm size]

theorem flatMap_windows {α : Type} (xs : List α) (size n : Nat) :
    ((List.range n).flatMap fun k => (xs.drop (k * size)).take size) = xs.take (n * size) := by
  induction n with
  | zero => simp
  | succ n ih => rw [range_succ, flatMap_append, ih, flatMap_singleton, Nat.succ_mul, take_add]

/-! ## Gates -/

/-- A gate of a cell. -/
inductive Gate where
  | input
  | output
  | forget
  | reset
  | update
  | candidate
  deriving DecidableEq, Repr

namespace Rules.Cell

def programGates : Cell → List Gate
  | .lstm => [.input, .forget, .candidate, .output]
  | .gru => [.reset, .update, .candidate]

def modelGates : Cell → List Gate
  | .lstm => [.input, .output, .forget, .candidate]
  | .gru => [.update, .reset, .candidate]

def rowCount (cell : Cell) (h : Nat) : Nat := cell.programGates.length * h

/-- **The rows of a parameter, gate by gate**, in the order of models. -/
def gateRows (cell : Cell) (h : Nat) : List Nat :=
  cell.modelGates.flatMap fun g => List.range' (cell.programGates.idxOf g * h) h

/-- **Every row belongs to one gate.** -/
theorem gateRows_perm (cell : Cell) (h : Nat) : (cell.gateRows h).Perm (List.range (cell.rowCount h)) := by
  have hgates : cell.modelGates.Perm cell.programGates := by cases cell <;> decide
  have hplaces : cell.programGates.map cell.programGates.idxOf = List.range' 0 cell.programGates.length := by
    cases cell <;> decide
  refine (hgates.flatMap_right _).trans (.of_eq ?_)
  rw [← flatMap_map cell.programGates.idxOf fun k => List.range' (k * h) h, hplaces, flatMap_blocks, Nat.zero_mul,
    rowCount, range_eq_range']

end Rules.Cell

/-- The order of gates, as ranges of the program's gates. -/
theorem gateOrder_ranges (cell : Cell) : ∃ rs : List (Nat × Nat), gateOrder cell = rs.map (fun r => (↑r.1, ↑r.2)) ∧
    (∀ r ∈ rs, r.1 ≤ r.2 ∧ r.2 ≤ cell.programGates.length) ∧
    (rs.flatMap fun r => List.range' r.1 (r.2 - r.1)) = cell.modelGates.map cell.programGates.idxOf := by
  cases cell with
  | lstm => exact ⟨[(0, 1), (3, 4), (1, 3)], rfl, by decide, by decide⟩
  | gru => exact ⟨[(1, 2), (0, 1), (2, 3)], rfl, by decide, by decide⟩

/-- **The ranges that are cut out of a parameter are its gates**, in the order of models. -/
theorem flatMap_gateCuts (cell : Cell) (h : Nat) :
    ((gateCuts cell h).flatMap fun c => c.selects (cell.rowCount h)) = cell.gateRows h := by
  obtain ⟨rs, horder, hbounds, hgates⟩ := gateOrder_ranges cell
  have hcut : ∀ r ∈ rs, (Cut.mk 1 (↑r.1 * h) (↑r.2 * h) 1).selects (cell.rowCount h) =
      (List.range' r.1 (r.2 - r.1)).flatMap fun k => List.range' (k * h) h := fun r hr => by
    obtain ⟨hle, hcount⟩ := hbounds r hr
    rw [flatMap_blocks, Nat.sub_mul, ← Cut.selects_span 1 (Nat.mul_le_mul_right h hle) (Nat.mul_le_mul_right h hcount),
      Int.natCast_mul, Int.natCast_mul]
    rfl
  calc (gateCuts cell h).flatMap (fun c => c.selects (cell.rowCount h))
    _ = rs.flatMap fun r => (List.range' r.1 (r.2 - r.1)).flatMap fun k => List.range' (k * h) h := by
      rw [gateCuts, horder, map_map, flatMap_map]
      exact flatMap_congr hcut
    _ = (cell.modelGates.map cell.programGates.idxOf).flatMap fun k => List.range' (k * h) h := by
      rw [← hgates, flatMap_assoc]
    _ = cell.gateRows h := flatMap_map _ _ _

/-! ## Layers -/

namespace Recurrence

variable (r : Recurrence)

/-- **Layers share the parameters**: each entry is that of one layer. -/
theorem flatMap_ofLayer : ((List.range r.layers).flatMap r.ofLayer).Perm (r.weights.map .str) := by
  let xs := r.weights.map Value.str
  let size := 2 * r.directions
  have hlength : xs.length = 2 * (r.layers * size) := r.length_weights
  have hlayers : ∀ layer ∈ List.range r.layers, r.ofLayer layer =
      (xs.drop (layer * size)).take size ++ ((xs.drop (r.layers * size)).drop (layer * size)).take size :=
    fun layer hlayer => by
      rw [drop_drop]
      exact layerParameters_eq xs hlength (window_fits (mem_range.1 hlayer))
  have hall : (xs.drop (r.layers * size)).take (r.layers * size) = xs.drop (r.layers * size) :=
    take_of_length_le (by rw [length_drop]; omega)
  calc ((List.range r.layers).flatMap r.ofLayer)
    _ = (List.range r.layers).flatMap fun layer => (xs.drop (layer * size)).take size ++
          ((xs.drop (r.layers * size)).drop (layer * size)).take size := flatMap_congr hlayers
    List.Perm _ (xs.take (r.layers * size) ++ (xs.drop (r.layers * size)).take (r.layers * size)) := by
      rw [← flatMap_windows xs, ← flatMap_windows (xs.drop _)]
      exact (flatMap_append_perm _ _ _).symm
    _ = xs := by rw [hall, take_append_drop]

/-- **The rows of states that layers begin with** lie behind one another. -/
theorem flatMap_stateCut : ((List.range r.layers).flatMap fun layer =>
    (r.stateCut layer).selects (r.layers * r.directions)) = List.range (r.layers * r.directions) := by
  have hcut : ∀ layer ∈ List.range r.layers, (r.stateCut layer).selects (r.layers * r.directions) =
      List.range' (layer * r.directions) r.directions := fun layer hlayer => by
    have hfits : layer * r.directions + r.directions ≤ r.layers * r.directions := by
      rw [← Nat.succ_mul]
      exact Nat.mul_le_mul_right _ (mem_range.1 hlayer)
    rw [stateCut, Cut.selects_span 0 (Nat.le_add_right _ _) hfits, Nat.add_sub_cancel_left]
  rw [flatMap_congr hcut, range_eq_range', flatMap_blocks, Nat.zero_mul, range_eq_range']

end Recurrence

/-- **Parameters are distributed without loss.**  Every entry of the list is read by one node, which puts an axis in
front of it, and no other node reads any but the sequence, the states, and what nodes have made up.  For each layer
there is one cell; it reads the entries of the layer, direction by direction, and its rows of the states.  The ranges
that are cut out of a parameter are its gates, in the order of models, and those of the states lie behind one
another. -/
theorem parameters_distributed (exportType : ExportType) (depth : Nat) {op : OpNode} {r : Recurrence}
    (hop : op.Recurs r) (hlayers : 0 < r.layers) {d : Draft} (hversion : 9 ≤ d.opset) :
    ∃ d' ns cells, Emission (mapUpTo Registry.standard exportType (depth + 1) op) d d' () ns ∧
      ((ns.filter fun n => n.type == "Unsqueeze").flatMap Node.inputs).Perm (r.weights.map .str) ∧
      (∀ n ∈ ns, n.type ≠ "Unsqueeze" → ∀ v ∈ n.inputs, v ∈ r.sources ∨ d.MadeUp v) ∧
      (∃ made, d.Counted d' made ∧ (ns.flatMap Node.outputs).Perm ((r.final ++ [r.out] ++ made).map .str)) ∧
      (ns.filter fun n => n.type == r.cell.type) = cells ∧
      List.Forall₂ (r.IsCell d.opset ns) (List.range r.layers) cells ∧
      ((gateCuts r.cell r.hidden).flatMap fun c => c.selects (r.cell.rowCount r.hidden)) =
        r.cell.gateRows r.hidden ∧
      (r.cell.gateRows r.hidden).Perm (List.range (r.cell.rowCount r.hidden)) ∧
      ((List.range r.layers).flatMap fun layer => (r.stateCut layer).selects (r.layers * r.directions)) =
        List.range (r.layers * r.directions) := by
  obtain ⟨d', ns, cells, hbuilds, hcells⟩ := emission_recurrent exportType depth hop hlayers hversion
  refine ⟨d', ns, cells, hbuilds.emission, ?_, hbuilds.others, hbuilds.names, hbuilds.cells, hcells,
    flatMap_gateCuts r.cell r.hidden, r.cell.gateRows_perm r.hidden, r.flatMap_stateCut⟩
  rw [hbuilds.unsqueezed]
  exact r.flatMap_ofLayer

/-- Two layers of three units, in both directions. -/
def Recurrence.bothWays : Recurrence where
  cell := .lstm
  layers := 2
  hidden := 3
  bidirectional := true
  input := "x"
  weights := ["w0", "w1", "w2", "w3", "w4", "w5", "w6", "w7", "b0", "b1", "b2", "b3", "b4", "b5", "b6", "b7"]
  initial := ["h", "c"]
  out := "out"
  final := ["hn", "cn"]
  weights_length := rfl
  initial_length := rfl
  final_length := rfl

/-- **The second of two layers** reads the second half of the weights, those of both directions side by side. -/
theorem parameters_distributed_bothWays : ∃ d' ns n n',
    Emission (mapUpTo Registry.standard .none 1 Recurrence.bothWays.toOp) { opset := 10 } d' () ns ∧
      ((ns.filter fun n => n.type == "Unsqueeze").flatMap Node.inputs).Perm (Recurrence.bothWays.weights.map .str) ∧
      (ns.filter fun n => n.type == "LSTM") = [n, n'] ∧
      (∃ v w w' rest, n'.inputs = v :: w :: w' :: rest ∧ Supplied 10 ns .lstm 3 [.str "w4", .str "w6"] w ∧
        Supplied 10 ns .lstm 3 [.str "w5", .str "w7"] w') ∧
      ((gateCuts .lstm 3).flatMap fun c => c.selects 12) = [0, 1, 2, 9, 10, 11, 3, 4, 5, 6, 7, 8] := by
  obtain ⟨d', ns, cells, hem, hread, -, -, hfilter, hcells, hgates, -⟩ := parameters_distributed .none 0
    Recurrence.bothWays.recurs_toOp (by decide) (show (9 : Int) ≤ ({ opset := 10 } : Draft).opset by decide)
  obtain ⟨n, n', rfl⟩ := List.length_eq_two.1 hcells.length_eq.symm
  obtain ⟨v, ps, ss, hinputs, ⟨w, w', b, b', bias, rfl, hw, hw', -⟩, -⟩ :=
    (List.forall₂_cons.1 (List.forall₂_cons.1 hcells).2).1.reads
  exact ⟨d', ns, n, n', hem, hread, hfilter, ⟨v, w, w', _, hinputs, hw, hw'⟩, hgates⟩

end ModelExport
