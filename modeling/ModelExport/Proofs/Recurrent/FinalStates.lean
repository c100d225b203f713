import ModelExport.Proofs.Recurrent.Layers
import ModelExport.Proofs.Tensors.Steps

/-!
# Proofs/Recurrent/FinalStates — which final states leave a stack

    layer 0        cell ── states ─ nowhere
       ⋮
    layer L - 1    cell ── states ── the results of the stack

The states that a stack begins with have rows for every layer.  Those that it ends with are written by the last
cell alone (`exists_last_cellRun`), and a cell gives one row for each direction.  So they cover all
layers where there is only one.
-/

namespace ModelExport

open Emit List Rules

variable {τ ρ : Type}

/-! ## Tensors that are written once -/

theorem Access.length_evaluate (f : Kernel τ) : ∀ (k : Nat) (σ : Store τ) (as : List Access),
    (evaluate f k σ as).1.length = as.length
  | _, _, [] => rfl
  | k, σ, a :: as => congrArg Nat.succ (length_evaluate f (k + 1) (a.exec f k σ) as)

/-- **A tensor that is written once** holds what the node that writes it has given. -/
theorem Access.evaluate_written (f : Kernel τ) {n : Node} {s : String} {p : Nat}
    (hout : n.outputs[p]? = some (.str s)) : ∀ {ns : List Node} {i : Nat} (k : Nat) (σ : Store τ),
      (ns.flatMap Node.outputs).Nodup → (∀ v ∈ ns.flatMap Node.outputs, ∃ s, v = .str s) → ns[i]? = some n →
      ∃ ts, (evaluate f k σ (ns.map Node.access)).1[i]? = some ts ∧
        ts[p]? = some ((evaluate f k σ (ns.map Node.access)).2 (.str s))
  | [], i, _, _, _, _, hn => by simp at hn
  | m :: ns, 0, k, σ, hnodup, htexts, hn => by
      obtain rfl : m = n := by simpa using hn
      rw [flatMap_cons] at hnodup htexts
      obtain ⟨hown, -, hothers⟩ := nodup_append.1 hnodup
      have hmem : .str s ∈ m.outputs := mem_of_getElem? hout
      have hrest : ∀ a ∈ ns.map Node.access, .str s ∉ a.writes := fun a ha hs => by
        obtain ⟨n', hn', rfl⟩ := mem_map.1 ha
        exact hothers _ hmem _ (mem_flatMap.2 ⟨n', hn', hs⟩) rfl
      have hwrite := Store.write_of_nodup σ hown (fun o ho => htexts o (mem_append_left _ ho))
        (m.access.length_results f k σ)
      obtain ⟨hp, hget⟩ := List.getElem?_eq_some_iff.1 hout
      have hp' : p < (m.access.results f k σ).length := (m.access.length_results f k σ).symm ▸ hp
      have hvalue := (forall₂_iff_get.1 hwrite).2 p hp hp'
      refine ⟨m.access.results f k σ, rfl, ?_⟩
      rw [map_cons, evaluate, evaluate_of_unwritten f _ _ _ hrest, getElem?_eq_getElem hp']
      rw [get_eq_getElem, get_eq_getElem, hget] at hvalue
      exact congrArg some hvalue.symm
  | m :: ns, i + 1, k, σ, hnodup, htexts, hn => by
      rw [flatMap_cons] at hnodup htexts
      exact evaluate_written f hout (k + 1) _ (nodup_append.1 hnodup).2.1
        (fun v hv => htexts v (mem_append_right _ hv)) (by simpa using hn)

/-! ## Cells and what they give -/

/-- **The cells among nodes**, each with what it gives when the nodes are run. -/
def cellRuns (cell : Cell) (f : Kernel τ) (σ : Store τ) (ns : List Node) : List (Node × List τ) :=
  (ns.zip (Access.evaluate f 0 σ (ns.map Node.access)).1).filter fun e => e.1.type == cell.type

theorem map_fst_cellRuns (cell : Cell) (f : Kernel τ) (σ : Store τ) (ns : List Node) :
    (cellRuns cell f σ ns).map Prod.fst = ns.filter fun n => n.type == cell.type := by
  have hlength : ns.length ≤ (Access.evaluate f 0 σ (ns.map Node.access)).1.length := by
    rw [Access.length_evaluate, length_map]
  have hfst := map_fst_zip hlength
  calc (cellRuns cell f σ ns).map Prod.fst
    _ = ((ns.zip (Access.evaluate f 0 σ (ns.map Node.access)).1).map Prod.fst).filter
          fun n => n.type == cell.type := by
      rw [filter_map]
      rfl
    _ = ns.filter fun n => n.type == cell.type := by rw [hfst]

/-- The rows of a final state that a cell gives, behind its sequence. -/
def stateRows (rows : τ → List ρ) (j : Nat) (e : Node × List τ) : List ρ := (e.2[j + 1]?).elim [] rows

/-- **Cells give states by the rule of models**: with one row for each of their directions. -/
def GivesStates (rows : τ → List ρ) (runs : List (Node × List τ)) : Prop :=
  ∀ e ∈ runs, ∀ j t, e.2[j + 1]? = some t → (rows t).length = e.1.directions

/-- **A tensor covers a final state of all layers**: it has a row for each layer and direction, and those of a layer are
the rows of its state. -/
structure CoversLayers (rows : τ → List ρ) (runs : List (Node × List τ)) (directions j : Nat) (t : τ) : Prop where
  count : (rows t).length = runs.length * directions
  layer : ∀ l e, runs[l]? = some e → ((rows t).drop (directions * l)).take directions = stateRows rows j e

/-! ## The last cell -/

section Stack

variable {op : OpNode} {r : Recurrence} {base d d' : Draft} {sources ws : List Value} {x : Emit Unit} {version : Int}
  {cells ns : List Node} (hlayers : 0 < r.layers)
  (hbuilds : Builds r.cell base sources ws x d d' () (r.final ++ [r.out]) cells ns)
  (hcells : List.Forall₂ (r.IsCell version ns) (List.range r.layers) cells)

include hbuilds hcells

theorem isCell_of_cellRuns {f : Kernel τ} {σ : Store τ} {l : Nat} {e : Node × List τ}
    (he : (cellRuns r.cell f σ ns)[l]? = some e) : r.IsCell version ns l e.1 := by
  have hcell : cells[l]? = some e.1 := by
    rw [← hbuilds.cells, ← map_fst_cellRuns r.cell f σ, getElem?_map, he]
    rfl
  obtain ⟨hlt, hget⟩ := List.getElem?_eq_some_iff.1 hcell
  have hl := (forall₂_iff_get.1 hcells).2 l (hcells.length_eq ▸ hlt) hlt
  rwa [get_eq_getElem, get_eq_getElem, getElem_range, hget] at hl

theorem length_cellRuns (f : Kernel τ) (σ : Store τ) : (cellRuns r.cell f σ ns).length = r.layers := by
  rw [← length_map Prod.fst, map_fst_cellRuns, hbuilds.cells, ← hcells.length_eq, length_range]

include hlayers

/-- **Final states are those of the last cell.** -/
theorem exists_last_cellRun (hnodup : (ns.flatMap Node.outputs).Nodup) (f : Kernel τ) (σ : Store τ) :
    ∃ n ts, (cellRuns r.cell f σ ns).getLast? = some (n, ts) ∧ n.directions = r.directions ∧
      ∀ j s, r.final[j]? = some s →
        ts[j + 1]? = some ((Access.evaluate f 0 σ (ns.map Node.access)).2 (.str s)) := by
  obtain ⟨last, hlast⟩ := Nat.exists_eq_succ_of_ne_zero hlayers.ne'
  have hcount := length_cellRuns hbuilds hcells f σ
  obtain ⟨⟨n, ts⟩, hrun⟩ : ∃ e, (cellRuns r.cell f σ ns)[last]? = some e :=
    ⟨_, getElem?_eq_getElem (by omega)⟩
  have hcell : r.IsCell version ns last n := isCell_of_cellRuns hbuilds hcells hrun
  obtain ⟨i, hi⟩ := mem_iff_getElem?.1 (mem_filter.1 (mem_of_getElem? hrun)).1
  obtain ⟨hn, hts⟩ := getElem?_zip_eq_some.1 hi
  refine ⟨n, ts, ?_, hcell.directions, fun j s hs => ?_⟩
  · rw [getLast?_eq_getElem?, hcount, hlast]
    exact hrun
  · have hout : n.outputs[j + 1]? = some (.str s) := by
      rw [← getElem?_tail, hcell.final hlast.symm, getElem?_map, hs]
      rfl
    obtain ⟨ts', hts', hvalue⟩ := Access.evaluate_written f hout 0 σ hnodup hbuilds.texts hn
    obtain rfl : ts = ts' := Option.some.inj (hts.symm.trans hts')
    exact hvalue

end Stack

theorem Recurrence.directions_pos (r : Recurrence) : 0 < r.directions := by
  unfold directions
  split <;> decide

/-- **Rows of one layer cover all layers** where there is only one. -/
theorem coversLayers_iff {rows : τ → List ρ} {runs : List (Node × List τ)} {directions j : Nat} {t : τ}
    {last : Node × List τ} (hdirections : 0 < directions) (hlast : runs.getLast? = some last)
    (hstate : last.2[j + 1]? = some t) (hrows : (rows t).length = directions) :
    CoversLayers rows runs directions j t ↔ runs.length = 1 := by
  refine ⟨fun h => ?_, fun hone => ?_⟩
  · have hcount : runs.length * directions = 1 * directions := by rw [← h.count, hrows, Nat.one_mul]
    exact Nat.eq_of_mul_eq_mul_right hdirections hcount
  · obtain ⟨e, rfl⟩ := length_eq_one_iff.1 hone
    obtain rfl : e = last := Option.some.inj hlast
    refine ⟨by rw [hrows, hone, Nat.one_mul], fun l e' he' => ?_⟩
    obtain ⟨hl, -⟩ := List.getElem?_eq_some_iff.1 he'
    obtain rfl : l = 0 := by simpa using hl
    obtain rfl : e = e' := Option.some.inj he'
    rw [Nat.mul_zero, drop_zero, take_of_length_le hrows.le, stateRows, hstate]
    rfl

/-- **Final states cover all layers just where there is one.**  Whatever nodes compute, as long as cells give one row
for each direction: a final state of the stack has the rows of the last layer and no others. -/
theorem final_states_covered_iff (exportType : ExportType) (depth : Nat) {op : OpNode} {r : Recurrence}
    (hop : op.Recurs r) (hlayers : 0 < r.layers) {d : Draft} (hversion : 9 ≤ d.opset)
    (hdistinct : (r.final ++ [r.out]).Nodup) (hunmade : ∀ s ∈ r.final ++ [r.out], d.Unmade (.str s)) :
    ∃ d' ns, Emission (mapUpTo Registry.standard exportType (depth + 1) op) d d' () ns ∧
      ∀ (τ ρ : Type) (f : Kernel τ) (σ : Store τ) (rows : τ → List ρ),
        (cellRuns r.cell f σ ns).length = r.layers ∧
        (∀ e ∈ cellRuns r.cell f σ ns, e.1.directions = r.directions) ∧
        (GivesStates rows (cellRuns r.cell f σ ns) → ∀ j s, r.final[j]? = some s →
          ∃ t last, (Access.evaluate f 0 σ (ns.map Node.access)).2 (.str s) = t ∧
            (cellRuns r.cell f σ ns).getLast? = some last ∧ rows t = stateRows rows j last ∧
            (rows t).length = r.directions ∧
            (CoversLayers rows (cellRuns r.cell f σ ns) r.directions j t ↔ r.layers = 1)) := by
  obtain ⟨d', ns, cells, hbuilds, hcells⟩ := emission_recurrent exportType depth hop hlayers hversion
  refine ⟨d', ns, hbuilds.emission, fun τ ρ f σ rows => ?_⟩
  have hcount := length_cellRuns hbuilds hcells f σ
  refine ⟨hcount, fun e he => ?_, fun hgives j s hs => ?_⟩
  · obtain ⟨l, hl⟩ := List.mem_iff_getElem?.1 he
    exact (isCell_of_cellRuns hbuilds hcells hl).directions
  · obtain ⟨n, ts, hlast, hdirections, hstates⟩ := exists_last_cellRun hlayers hbuilds hcells
      (hbuilds.nodup_outputs hdistinct hunmade) f σ
    have hstate := hstates j s hs
    have hrows := (hgives _ (List.mem_of_getLast? hlast) j _ hstate).trans hdirections
    refine ⟨_, (n, ts), rfl, hlast, ?_, hrows, ?_⟩
    · rw [stateRows, hstate]
      rfl
    · rw [coversLayers_iff r.directions_pos hlast hstate hrows, hcount]

def Recurrence.single (layers : Nat) : Recurrence where
  cell := .gru
  layers := layers
  hidden := 1
  bidirectional := false
  input := "x"
  weights := List.replicate (4 * layers) "w"
  initial := ["h"]
  out := "out"
  final := ["state"]
  weights_length := by simp
  initial_length := rfl
  final_length := rfl

/-- **Of two layers only the second is seen**: where nodes give their own places, the final state is not that of both
layers, and it is with one layer. -/
theorem final_states_covered_iff_single :
    (∃ d' ns, Emission (mapUpTo Registry.standard .none 1 (Recurrence.single 2).toOp) { opset := 9 } d' () ns ∧
      ∀ σ, (cellRuns .gru Kernel.trace σ ns).length = 2 ∧
        ¬ CoversLayers (fun t => [t]) (cellRuns .gru Kernel.trace σ ns) 1 0
          ((Access.evaluate Kernel.trace 0 σ (ns.map Node.access)).2 (.str "state"))) ∧
    ∃ d' ns, Emission (mapUpTo Registry.standard .none 1 (Recurrence.single 1).toOp) { opset := 9 } d' () ns ∧
      ∀ σ, (cellRuns .gru Kernel.trace σ ns).length = 1 ∧
        CoversLayers (fun t => [t]) (cellRuns .gru Kernel.trace σ ns) 1 0
          ((Access.evaluate Kernel.trace 0 σ (ns.map Node.access)).2 (.str "state")) := by
  have hplain : ∀ s ∈ ["state"] ++ ["out"], endsPlainly s = true := by decide
  have hiff := fun (layers : Nat) (hlayers : 0 < layers) => final_states_covered_iff .none 0
    (Recurrence.single layers).recurs_toOp hlayers (show (9 : Int) ≤ ({ opset := 9 } : Draft).opset by decide)
    (by simp [Recurrence.single]) fun s hs => Draft.unmade_of_endsPlainly (hplain s hs) _
  constructor
  · obtain ⟨d', ns, hem, hall⟩ := hiff 2 (by decide)
    refine ⟨d', ns, hem, fun σ => ?_⟩
    obtain ⟨hcount, hdirections, hstates⟩ := hall _ _ Kernel.trace σ fun t => [t]
    obtain ⟨t, -, rfl, -, -, -, hcovers⟩ := hstates (fun e he _ _ _ => (hdirections e he).symm) 0 "state" rfl
    exact ⟨hcount, fun h => absurd (hcovers.1 h) (by decide)⟩
  · obtain ⟨d', ns, hem, hall⟩ := hiff 1 (by decide)
    refine ⟨d', ns, hem, fun σ => ?_⟩
    obtain ⟨hcount, hdirections, hstates⟩ := hall _ _ Kernel.trace σ fun t => [t]
    obtain ⟨t, -, rfl, -, -, -, hcovers⟩ := hstates (fun e he _ _ _ => (hdirections e he).symm) 0 "state" rfl
    exact ⟨hcount, hcovers.2 rfl⟩

end ModelExport
