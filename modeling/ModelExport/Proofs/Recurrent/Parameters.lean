import Mathlib.Data.List.GetD
import Mathlib.Tactic.Ring
import ModelExport.Proofs.Recurrent.Parts

/-!
# Proofs/Recurrent/Parameters — what the cell of a layer is given

    list          w₀ w₀' w₁ w₁' …            b₀ b₀' b₁ b₁' …
                  └ layer 0 ┘                 └ layer 0 ┘
    every second  w₀ w₁   w₀' w₁'   b₀ b₁   b₀' b₁'
    cell          weight  weight'   bias ─ Concat ─ bias'

A list of parameters holds those of all layers, weights first; a layer takes a window of each half, and every
second entry of a window is for the input (`Recurrence.entries`).  The nodes in front of a cell follow this
(`prepares_parameterInputs`), and cut the rows of its layer out of the initial states
(`prepares_initialStates`).
-/

namespace ModelExport

open Emit List Rules

/-! ## What an operator asks for -/

/-- **A stack of recurrent layers**: a cell, how often it is repeated, and the names of the tensors that go in and
out.  For each layer and direction there are two weights and two biases, and a cell has as many initial and final
states as it has outputs besides its sequence. -/
structure Recurrence where
  cell : Cell
  layers : Nat
  hidden : Nat
  bidirectional : Bool
  input : String
  weights : List String
  initial : List String
  out : String
  final : List String
  weights_length : weights.length = 4 * layers * (if bidirectional then 2 else 1)
  initial_length : initial.length + 1 = cell.outputCount
  final_length : final.length + 1 = cell.outputCount

namespace Recurrence

variable (r : Recurrence)

/-- How often a layer goes over its sequence. -/
def directions : Nat := if r.bidirectional then 2 else 1

/-- The entries that a layer takes of the list of parameters: of weights and biases, each for the input and for the
state, one for each direction. -/
def entries (first layer offset : Nat) : List Value :=
  (List.range r.directions).map fun i =>
    .str (r.weights.getD (first + 2 * r.directions * layer + 2 * i + offset) "")

end Recurrence

/-- **An operator that asks for a stack of layers.** -/
structure OpNode.Recurs (op : OpNode) (r : Recurrence) : Prop where
  type : op.type = "rnn"
  mode : op.attr "mode" = .str r.cell.type
  layers : op.attr "num_layers" = .int r.layers
  hidden : op.attr "hidden_size" = .int r.hidden
  directions : (op.attr "is_bidirec").truthy = r.bidirectional
  input : Assoc.get? op.inputs "Input" = some (.strs [r.input])
  weights : Assoc.get? op.inputs "WeightList" = some (.strs r.weights)
  initial : Assoc.get? op.inputs "PreState" = some (.strs r.initial)
  output : Assoc.get? op.outputs "Out" = some (.strs [r.out])
  final : Assoc.get? op.outputs "State" = some (.strs r.final)

/-- The operator that asks for a stack. -/
def Recurrence.toOp (r : Recurrence) : OpNode :=
  { name := "rnn_0", type := "rnn"
    inputs := [("Input", .strs [r.input]), ("PreState", .strs r.initial), ("WeightList", .strs r.weights)]
    outputs := [("Out", .strs [r.out]), ("State", .strs r.final)]
    attrs := [("mode", .str r.cell.type), ("num_layers", .int r.layers), ("hidden_size", .int r.hidden),
      ("is_bidirec", .bool r.bidirectional)]
    block := none }

theorem Recurrence.recurs_toOp (r : Recurrence) : r.toOp.Recurs r where
  type := rfl
  mode := rfl
  layers := rfl
  hidden := rfl
  directions := rfl
  input := rfl
  weights := rfl
  initial := rfl
  output := rfl
  final := rfl

/-! ## Entries of a list of parameters -/

section Entries

variable {α : Type}

theorem getElem?_everySecond : ∀ (xs : List α) (i : Nat), (everySecond xs)[i]? = xs[2 * i]?
  | [], i => by simp [everySecond]
  | [x], 0 => rfl
  | [x], i + 1 => by simp [everySecond, Nat.mul_succ]
  | x :: y :: xs, 0 => rfl
  | x :: y :: xs, i + 1 => by
      rw [everySecond, getElem?_cons_succ, getElem?_everySecond xs i, Nat.mul_succ]
      rfl

theorem forall₂_everySecond {β : Type} {R : α → β → Prop} : ∀ {xs : List α} {ys : List β}, List.Forall₂ R xs ys →
    List.Forall₂ R (everySecond xs) (everySecond ys)
  | [], [], .nil => .nil
  | [_], [_], .cons h .nil => .cons h .nil
  | _ :: _ :: _, _ :: _ :: _, .cons h (.cons _ hs) => .cons h (forall₂_everySecond hs)

/-- Of a window, every second member from one of the first two on. -/
theorem everySecond_window (xs : List α) (x₀ : α) {s n k : Nat} (hk : k ≤ 1) (hwindow : s + 2 * n ≤ xs.length) :
    everySecond (((xs.drop s).take (2 * n)).drop k) = (List.range n).map fun i => xs.getD (s + 2 * i + k) x₀ := by
  refine ext_getElem? fun i => ?_
  rw [getElem?_everySecond, getElem?_drop, getElem?_take, getElem?_map]
  by_cases hi : i < n
  · have hplace : s + (k + 2 * i) = s + 2 * i + k := by omega
    have hlt : s + 2 * i + k < xs.length := by omega
    rw [if_pos (by omega), getElem?_drop, getElem?_range hi, hplace, Option.map_some,
      getD_eq_getElem _ _ hlt, getElem?_eq_getElem hlt]
  · rw [if_neg (by omega), getElem?_eq_none (by simpa using hi), Option.map_none]

/-- The parameters of a layer are a window of the weights and one of the biases. -/
theorem layerParameters_eq (xs : List α) {layers perLayer layer : Nat} (hlength : xs.length = 2 * (layers * perLayer))
    (hfits : layer * perLayer + perLayer ≤ layers * perLayer) : layerParameters xs perLayer layer =
      (xs.drop (layer * perLayer)).take perLayer ++
        (xs.drop (layers * perLayer + layer * perLayer)).take perLayer := by
  have hhalf : xs.length / 2 = layers * perLayer := by omega
  simp only [layerParameters, hhalf]
  rw [drop_drop, drop_take, take_take, Nat.min_eq_left (by omega)]

end Entries

namespace OpNode.Recurs

variable {op : OpNode} {r : Recurrence}

theorem weightMembers (h : op.Recurs r) : (op.input "WeightList").members = .ok (r.weights.map .str) := by
  rw [OpNode.input, h.weights, Option.getD_some]
  rfl

theorem perLayer (h : op.Recurs r) : (if (op.attr "is_bidirec").truthy then 4 else 2) = 2 * r.directions := by
  rw [h.directions, Recurrence.directions]
  split <;> rfl

end OpNode.Recurs

namespace Recurrence

variable (r : Recurrence)

/-- The parameters of a layer, in the order of the list. -/
def ofLayer (layer : Nat) : List Value := layerParameters (r.weights.map .str) (2 * r.directions) layer

/-- **What a cell reads of the list of parameters**: both weights, and the biases behind one another. -/
def Parameters (version : Int) (ns : List Node) (layer : Nat) (vs : List Value) : Prop :=
  ∃ w w' b b' bias, vs = [w, w', bias, .str ""] ∧
    Supplied version ns r.cell r.hidden (r.entries 0 layer 0) w ∧
    Supplied version ns r.cell r.hidden (r.entries 0 layer 1) w' ∧
    Supplied version ns r.cell r.hidden (r.entries (2 * r.directions * r.layers) layer 0) b ∧
    Supplied version ns r.cell r.hidden (r.entries (2 * r.directions * r.layers) layer 1) b' ∧
    Makes ns "Concat" [("axis", .int 1)] [b, b'] bias

variable {r} {layer : Nat} (hlayer : layer < r.layers)

theorem Parameters.mono {version : Int} {ns ms : List Node} {vs : List Value} (hsub : ns ⊆ ms)
    (h : r.Parameters version ns layer vs) : r.Parameters version ms layer vs := by
  obtain ⟨w, w', b, b', bias, hvs, hw, hw', hb, hb', hbias⟩ := h
  exact ⟨w, w', b, b', bias, hvs, hw.mono hsub, hw'.mono hsub, hb.mono hsub, hb'.mono hsub, hbias.mono hsub⟩

theorem length_weights : (r.weights.map Value.str).length = 2 * (r.layers * (2 * r.directions)) := by
  rw [length_map, r.weights_length, directions]
  split <;> ring

include hlayer

theorem window_fits : layer * (2 * r.directions) + 2 * r.directions ≤ r.layers * (2 * r.directions) := by
  rw [← Nat.succ_mul]
  exact Nat.mul_le_mul_right _ hlayer

theorem take_ofLayer : (r.ofLayer layer).take (2 * r.directions) =
    ((r.weights.map Value.str).drop (layer * (2 * r.directions))).take (2 * r.directions) := by
  have hfits := window_fits hlayer
  have hlength := r.length_weights
  rw [ofLayer, layerParameters_eq _ hlength hfits]
  exact take_left' (by rw [length_take, length_drop, hlength]; omega)

theorem drop_ofLayer : (r.ofLayer layer).drop (2 * r.directions) = ((r.weights.map Value.str).drop
      (r.layers * (2 * r.directions) + layer * (2 * r.directions))).take (2 * r.directions) := by
  have hfits := window_fits hlayer
  have hlength := r.length_weights
  rw [ofLayer, layerParameters_eq _ hlength hfits]
  exact drop_left' (by rw [length_take, length_drop, hlength]; omega)

theorem length_ofLayer : (r.ofLayer layer).length = 2 * (2 * r.directions) := by
  have hfits := window_fits hlayer
  have hlength := r.length_weights
  rw [← take_append_drop (2 * r.directions) (r.ofLayer layer), take_ofLayer hlayer, drop_ofLayer hlayer,
    length_append, length_take, length_take, length_drop, length_drop, hlength]
  omega

theorem entries_weights {k : Nat} (hk : k ≤ 1) :
    everySecond (((r.ofLayer layer).take (2 * r.directions)).drop k) = r.entries 0 layer k := by
  have hfits := window_fits hlayer
  have hlength := r.length_weights
  rw [take_ofLayer hlayer, everySecond_window _ (.str "") hk (by omega), entries]
  refine map_congr_left fun i _ => ?_
  rw [getD_map]
  congr 2
  ring

theorem entries_biases {k : Nat} (hk : k ≤ 1) : everySecond (((r.ofLayer layer).drop (2 * r.directions)).drop k) =
    r.entries (2 * r.directions * r.layers) layer k := by
  have hfits := window_fits hlayer
  have hlength := r.length_weights
  rw [drop_ofLayer hlayer, everySecond_window _ (.str "") hk (by omega), entries]
  refine map_congr_left fun i _ => ?_
  rw [getD_map]
  congr 2
  ring

end Recurrence

/-! ## Initial states -/

/-- **The rows of a state tensor that belong to a layer**: one for each direction. -/
def Recurrence.stateCut (r : Recurrence) (layer : Nat) : Cut :=
  ⟨0, ((layer * r.directions : Nat) : Int), ((layer * r.directions + r.directions : Nat) : Int), 1⟩

namespace OpNode.Recurs

variable {op : OpNode} {r : Recurrence}

theorem layerState_eq (h : op.Recurs r) (layer : Nat) (v : Value) : layerState op layer v =
    cut v (.ints [0]) (.ints [(r.stateCut layer).start]) (.ints [(r.stateCut layer).stop]) := by
  have hdirections : (if (op.attr "is_bidirec").truthy then 2 else 1 : Int) = r.directions := by
    rw [h.directions, Recurrence.directions]
    split <;> rfl
  rw [layerState, hdirections]
  rfl

theorem initialStates_eq (h : op.Recurs r) (layer : Nat) :
    initialStates r.cell op layer = r.initial.mapM fun s => layerState op layer (.str s) := by
  have hmembers : (op.input "PreState").members = .ok (r.initial.map .str) := by
    rw [OpNode.input, h.initial, Option.getD_some]
    rfl
  have hlength := r.initial_length
  cases hcell : r.cell with
  | lstm =>
    rw [hcell] at hlength
    obtain ⟨s, t, hinitial⟩ := length_eq_two.1 (Nat.succ.inj hlength)
    rw [hinitial] at hmembers ⊢
    rw [initialStates, hmembers]
    rfl
  | gru =>
    rw [hcell] at hlength
    obtain ⟨s, hinitial⟩ := length_eq_one_iff.1 (Nat.succ.inj hlength)
    have hfirst : op.inputAt "PreState" 0 = .ok (.str s) := by
      rw [OpNode.inputAt, h.initial, hinitial]
      rfl
    rw [hinitial, initialStates, hfirst]
    rfl

end OpNode.Recurs

/-! ## What is prepared for a layer -/

/-- The shares of the parameters of a layer: of weights and of biases, those for the input and those for the state. -/
def shares (us : List Value) (half : Nat) : List (List Value) :=
  [everySecond (us.take half), everySecond ((us.take half).drop 1), everySecond (us.drop half),
    everySecond ((us.drop half).drop 1)]

def joinBiases : List Value → Emit (List Value)
  | [w, w', b, b'] => do
    let bias ← node "Concat" (.list [b, b']) [("axis", .int 1)]
    return [w, w', bias, .str ""]
  | _ => return []

/-- All shares are stacked, and then brought into the order of models. -/
theorem parameterInputs_eq (cell : Cell) (op : OpNode) (layer : Nat) (hidden : Value) :
    parameterInputs cell op layer hidden = (do
      let weights ← (op.input "WeightList").members
      let us ← withDirectionAxis (layerParameters weights (if (op.attr "is_bidirec").truthy then 4 else 2) layer)
      let stacked ← (shares us (us.length / 2)).mapM fun xs => node "Concat" (.list xs) [("axis", .int 0)]
      let ordered ← stacked.mapM (reorderGates cell hidden)
      joinBiases ordered) := by
  simp only [parameterInputs, shares, mapM_cons, mapM_nil, bind_assoc, pure_bind, joinBiases]

theorem forall₂_four {α β : Type} {R : α → β → Prop} {a b c e : α} {ys : List β} (h : List.Forall₂ R [a, b, c, e] ys) :
    ∃ w x y z, ys = [w, x, y, z] ∧ R a w ∧ R b x ∧ R c y ∧ R e z := by
  match ys, h with
  | [w, x, y, z], .cons hw (.cons hx (.cons hy (.cons hz .nil))) => exact ⟨w, x, y, z, rfl, hw, hx, hy, hz⟩

theorem subset_of_mem_shares {us vs : List Value} {half : Nat} (h : vs ∈ shares us half) : vs ⊆ us := by
  have htake := take_subset half us
  have hdrop := drop_subset half us
  have hsecond : ∀ {xs : List Value} (k : Nat), xs ⊆ us → everySecond (xs.drop k) ⊆ us := fun k hxs =>
    List.Subset.trans (everySecond_subset _) (List.Subset.trans (drop_subset k _) hxs)
  simp only [shares, mem_cons, not_mem_nil, or_false] at h
  rcases h with rfl | rfl | rfl | rfl
  · exact hsecond 0 htake
  · exact hsecond 1 htake
  · exact hsecond 0 hdrop
  · exact hsecond 1 hdrop

/-- **The shares of a layer hold its entries**, one for each direction. -/
theorem forall₂_shares {r : Recurrence} {layer : Nat} (hlayer : layer < r.layers) {R : Value → Value → Prop}
    {us : List Value} (h : List.Forall₂ R (r.ofLayer layer) us) :
    List.Forall₂ (List.Forall₂ R) [r.entries 0 layer 0, r.entries 0 layer 1,
      r.entries (2 * r.directions * r.layers) layer 0, r.entries (2 * r.directions * r.layers) layer 1]
      (shares us (us.length / 2)) := by
  have hhalf : us.length / 2 = 2 * r.directions := by
    rw [← h.length_eq, Recurrence.length_ofLayer hlayer]
    omega
  have hweights : ∀ k ≤ 1, List.Forall₂ R (r.entries 0 layer k) (everySecond ((us.take (us.length / 2)).drop k)) :=
    fun k hk => by
      rw [hhalf, ← Recurrence.entries_weights hlayer hk]
      exact forall₂_everySecond (forall₂_drop k (forall₂_take _ h))
  have hbiases : ∀ k ≤ 1, List.Forall₂ R (r.entries (2 * r.directions * r.layers) layer k)
      (everySecond ((us.drop (us.length / 2)).drop k)) := fun k hk => by
    rw [hhalf, ← Recurrence.entries_biases hlayer hk]
    exact forall₂_everySecond (forall₂_drop k (forall₂_drop _ h))
  exact .cons (hweights 0 zero_le_one) (.cons (hweights 1 le_rfl) (.cons (hbiases 0 zero_le_one)
    (.cons (hbiases 1 le_rfl) .nil)))

section Prepared

variable {op : OpNode} {r : Recurrence} {base d : Draft} (hbase : ∀ t, base.count t ≤ d.count t)
  (sources : List Value) {layer : Nat} (hlayer : layer < r.layers)

include hbase hlayer

/-- **The parameters of a layer**: every entry of the layer is read by one node, which puts an axis in front of it. -/
theorem prepares_parameterInputs (h : op.Recurs r) : ∃ d' ns vs,
    Prepares base sources (r.ofLayer layer) (parameterInputs r.cell op layer (.int r.hidden)) d d' vs ns ∧
      r.Parameters d.opset ns layer vs ∧ ∀ v ∈ vs, v = .str "" ∨ base.MadeUp v := by
  have htexts : ∀ x ∈ r.ofLayer layer, ∃ s, x = .str s := fun x hx => by
    obtain ⟨s, -, rfl⟩ := mem_map.1 (layerParameters_subset _ _ _ hx)
    exact ⟨s, rfl⟩
  have hattrs : ∀ (axis : Int), ∀ a ∈ [("axis", Value.int axis)], a.1 ∉ Node.reserved := by simp [Node.reserved]
  obtain ⟨d₀, n₀, us, haxes, hmade₀, hus⟩ := prepares_withDirectionAxis hbase sources htexts
  have hbase₀ := haxes.counts hbase
  obtain ⟨d₁, n₁, stacked, hstack, hmade₁, hstacked⟩ := prepares_mapM hbase₀ sources
    (fun xs => node "Concat" (.list xs) [("axis", .int 0)]) (fun _ => [])
    (fun ns xs u => Makes ns "Concat" [("axis", .int 0)] xs u) (fun hsub h => h.mono hsub)
    fun xs (hxs : xs ∈ shares us (us.length / 2)) d' hd' _ => prepares_join hd' sources "Concat" [("axis", .int 0)]
      (fun v hv => hus v (subset_of_mem_shares hxs hv)) (Or.inr (hattrs 0))
  have hbase₁ := hstack.counts hbase₀
  have hversion₁ : d₁.opset = d.opset := hstack.version.trans haxes.version
  obtain ⟨d₂, n₂, ordered, horder, hmade₂, hordered⟩ := prepares_mapM hbase₁ sources
    (reorderGates r.cell (.int r.hidden)) (fun _ => [])
    (fun ns u v => Rearranged d.opset ns (gateCuts r.cell r.hidden) u v) (fun hsub h => h.mono hsub)
    fun u hu d' hd' hversion =>
      (hversion.trans hversion₁) ▸ prepares_reorderGates hd' sources (hstacked u hu) r.cell r.hidden
  obtain ⟨u₁, u₂, u₃, u₄, rfl, hu₁, hu₂, hu₃, hu₄⟩ := forall₂_four hmade₁
  obtain ⟨w, w', b, b', rfl, hw, hw', hb, hb'⟩ := forall₂_four hmade₂
  have hpair : ∀ v ∈ [b, b'], base.MadeUp v := fun v hv => hordered v (by simp_all)
  obtain ⟨d₃, n₃, bias, hjoin, hmade₃, hbias⟩ := prepares_join (horder.counts hbase₁) sources "Concat"
    [("axis", .int 1)] hpair (Or.inr (hattrs 1))
  have hsupplied : ∀ {xs vs : List Value} {u v : Value},
      List.Forall₂ (fun x u => Makes n₀ "Unsqueeze" [("axes", .ints [0])] [x] u) xs vs →
      Makes n₁ "Concat" [("axis", .int 0)] vs u → Rearranged d.opset n₂ (gateCuts r.cell r.hidden) u v →
        Supplied d.opset (n₀ ++ (n₁ ++ (n₂ ++ (n₃ ++ [])))) r.cell r.hidden xs v := fun hxs hu hv =>
    ⟨_, ⟨_, hxs.imp fun _ _ h => h.mono fun _ hn => by simp [hn], hu.mono fun _ hn => by simp [hn]⟩,
      hv.mono fun _ hn => by simp [hn]⟩
  obtain ⟨s₁, s₂, s₃, s₄, hs, hs₁, hs₂, hs₃, hs₄⟩ := forall₂_four (forall₂_shares hlayer hmade₀)
  simp only [shares, List.cons.injEq, and_true] at hs
  obtain ⟨rfl, rfl, rfl, rfl⟩ := hs
  refine ⟨d₃, n₀ ++ (n₁ ++ (n₂ ++ (n₃ ++ []))), [w, w', bias, .str ""], ?_, ⟨w, w', b, b', bias, rfl,
    hsupplied hs₁ hu₁ hw, hsupplied hs₂ hu₂ hw', hsupplied hs₃ hu₃ hb, hsupplied hs₄ hu₄ hb',
    hmade₃.mono fun _ hn => by simp [hn]⟩, ?_⟩
  · have hws : r.ofLayer layer = r.ofLayer layer ++ ((shares us (us.length / 2)).flatMap (fun _ => []) ++
        ([u₁, u₂, u₃, u₄].flatMap (fun _ => []) ++ ([] ++ []))) := by simp
    rw [parameterInputs_eq, h.perLayer, hws]
    exact .computed h.weightMembers (haxes.bind (hstack.bind (horder.bind
      (hjoin.bind (.pure base sources [w, w', bias, .str ""] d₃)))))
  · have hmade : base.MadeUp w ∧ base.MadeUp w' := ⟨hordered w (by simp), hordered w' (by simp)⟩
    simp [hmade, hbias]

omit hlayer in
/-- **The initial states of a layer** are cut out of those of all layers. -/
theorem prepares_initialStates (h : op.Recurs r) (hsources : ∀ s ∈ r.initial, .str s ∈ sources) (layer : Nat) :
    ∃ d' ns vs, Prepares base sources [] (initialStates r.cell op layer) d d' vs ns ∧
      List.Forall₂ (fun s v => (r.stateCut layer).Made d.opset ns (.str s) v) r.initial vs ∧
      ∀ v ∈ vs, base.MadeUp v := by
  obtain ⟨d', ns, vs, hstates, hmade, hvs⟩ := prepares_mapM hbase sources
    (fun s : String => layerState op layer (.str s)) (fun _ => [])
    (fun ns s v => (r.stateCut layer).Made d.opset ns (.str s) v) (fun hsub h => h.mono hsub)
    (fun s (hs : s ∈ r.initial) d₁ hd₁ hversion => by
      rw [h.layerState_eq, ← hversion]
      exact prepares_cut hd₁ sources ⟨s, rfl⟩ (.inl (hsources s hs)) 0 _ _)
  have hnone : r.initial.flatMap (fun _ => ([] : List Value)) = [] := by simp
  rw [hnone, ← h.initialStates_eq] at hstates
  exact ⟨d', ns, vs, hstates, hmade, hvs⟩

end Prepared

end ModelExport
