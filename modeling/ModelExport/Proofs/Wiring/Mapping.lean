import ModelExport.Proofs.Repetition.Building
import ModelExport.Proofs.Wiring.Conditions

/-!
# Proofs/Wiring/Mapping — operators whose nodes read what is there

`Needs type rule slots` says that a rule reads what its operator reads once the slots hold names; all
rules of functions and layers are such (`Needing`), those apart that `OpNode.Wirable` is about.  So the
nodes of an operator of one of these types read what is there if and only if the operator is wirable
(`wiredFrom_mapUpTo_iff`).
-/

namespace ModelExport

open Emit List Rules

-- the size of an instance grows with the number of steps
set_option synthInstance.maxSize 1000000000

/-! ## Types and slots -/

def Catalogue.functions : List Catalogue.Entry :=
  activation ++ arithmetic ++ reduction ++ layers ++ comparison ++ selection

/-- **The slots whose first name the rule of a type reads**, be it there or not. -/
def requiredSlots (type : String) : List String :=
  if type ∈ ["relu6", "gelu", "log1p", "pow", "square", "cumsum", "brelu", "reduce_all", "reduce_any",
    "p_norm", "layer_norm", "isfinite_v2", "top_k", "top_k_v2", "argsort"] then ["X"]
  else if type ∈ ["matmul", "matmul_v2", "mul", "bmm", "dot", "dist", "elementwise_add",
    "elementwise_sub", "elementwise_div", "elementwise_mul", "elementwise_min", "elementwise_max",
    "elementwise_pow", "elementwise_mod", "elementwise_floordiv", "less_than", "less_equal",
    "greater_than", "greater_equal", "equal", "not_equal", "logical_and", "logical_or",
    "logical_xor"] then ["X", "Y"]
  else if type = "mv" then ["X", "Vec"]
  else if type = "gather" ∨ type = "index_select" then ["X", "Index"]
  else if type = "lookup_table" ∨ type = "lookup_table_v2" then ["Ids", "W"]
  else if type = "affine_channel" then ["X", "Scale", "Bias"]
  else if type = "softmax_with_cross_entropy" then ["Label", "Logits"]
  else if type = "roi_align" then ["X", "ROIs"]
  else if type = "rnn" then ["Input", "PreState"]
  else []

/-- The types whose rules may read what nobody writes. -/
def heedlessTypes : List String := ["layer_norm", "relu6", "hard_swish", "brelu", "dist"]

/-! ## One rule -/

/-- **A rule that reads what is there**, once the slots hold names. -/
class Needs (type : String) (rule : Rule) (slots : outParam (List String)) : Prop where
  wires : type ∉ heedlessTypes → ∀ (op : OpNode) [op.Plain] [op.Fed], (∀ s ∈ slots, op.Filled s) →
    Wires op.sources (rule op)

namespace Needs

variable {type : String} {rule : Rule}

instance (op : { op : OpNode // op.Fed }) : op.1.Fed := op.2

instance (priority := low) nothing [h : ∀ op : { op : OpNode // op.Fed }, Wires op.1.sources (rule op.1)] :
    Needs type rule [] :=
  ⟨fun _ op _ hop _ => h ⟨op, hop⟩⟩

theorem one {s : String} (h : ∀ (op : OpNode) [op.Plain] [op.Fed] [op.Filled s], Wires op.sources (rule op)) :
    Needs type rule [s] :=
  ⟨fun _ op _ _ hslots => have := hslots s (by simp); h op⟩

theorem two {s t : String} (h : ∀ (op : OpNode) [op.Plain] [op.Fed] [op.Filled s] [op.Filled t],
    Wires op.sources (rule op)) : Needs type rule [s, t] :=
  ⟨fun _ op _ _ hslots => have := hslots s (by simp); have := hslots t (by simp); h op⟩

theorem heedless (htype : type ∈ heedlessTypes) : Needs type rule [] := ⟨fun hno => absurd htype hno⟩

instance : Needs "layer_norm" layerNorm [] := heedless (by decide)

instance : Needs "relu6" relu6 [] := heedless (by decide)

instance : Needs "hard_swish" hardSwish [] := heedless (by decide)

instance : Needs "brelu" boundedRelu [] := heedless (by decide)

instance : Needs "dist" distance [] := heedless (by decide)

instance : Needs type gelu ["X"] := one fun _ => by unfold gelu; infer_instance

instance : Needs type log1p ["X"] := one fun _ => by unfold log1p; infer_instance

instance : Needs type power ["X"] := one fun _ => by unfold power; infer_instance

instance : Needs type square ["X"] := one fun _ => by unfold square; infer_instance

instance : Needs type cumulativeSum ["X"] := one fun _ => by unfold cumulativeSum; infer_instance

instance (node : String) : Needs type (reduceTruth node) ["X"] := one fun _ => by unfold reduceTruth; infer_instance

instance (axesAsInput : Bool) : Needs type (pNorm axesAsInput) ["X"] := one fun _ => by unfold pNorm; infer_instance

instance : Needs type isFinite ["X"] := one fun _ => by unfold isFinite; infer_instance

instance (attrs : OpNode → Attrs) : Needs type (largest attrs) ["X"] := one fun _ => by unfold largest; infer_instance

instance : Needs type argSort ["X"] := one fun _ => by unfold argSort; infer_instance

instance : Needs type argSortDescending ["X"] := one fun _ => by unfold argSortDescending; infer_instance

instance : Needs type matmul ["X", "Y"] := two fun _ => by unfold matmul; infer_instance

instance : Needs type matmulV2 ["X", "Y"] := two fun _ => by unfold matmulV2; infer_instance

instance : Needs type mul ["X", "Y"] := two fun _ => by unfold mul; infer_instance

instance (node second : String) : Needs type (binary node second) ["X", second] := two fun _ => inferInstance

instance (node : String) : Needs type (elementwise node) ["X", "Y"] :=
  two fun _ => by unfold elementwise; infer_instance

instance : Needs type floorDivide ["X", "Y"] := two fun _ => by unfold floorDivide; infer_instance

instance (axesAsInput : Bool) : Needs type (dot axesAsInput) ["X", "Y"] := two fun _ => by unfold dot; infer_instance

instance : Needs type notEqual ["X", "Y"] := two fun _ => by unfold notEqual; infer_instance

instance : Needs type indexSelect ["X", "Index"] := two fun _ => by unfold indexSelect; infer_instance

instance (wide : Option String) : Needs type (gather wide) ["X", "Index"] := two fun _ => inferInstance

instance (squeezes : Bool) : Needs type (embedding squeezes) ["Ids", "W"] :=
  two fun _ => by unfold embedding; infer_instance

instance : Needs type roiAlign ["X", "ROIs"] := two fun _ => by unfold roiAlign; infer_instance

instance : Needs type softmaxCrossEntropy ["Label", "Logits"] :=
  two fun _ => by unfold softmaxCrossEntropy; infer_instance

instance : Needs type recurrent ["Input", "PreState"] := two fun _ => inferInstance

instance : Needs type affineChannel ["X", "Scale", "Bias"] :=
  ⟨fun _ op _ _ hslots => by
    have := hslots "X" (by simp)
    have := hslots "Scale" (by simp)
    have := hslots "Bias" (by simp)
    unfold affineChannel
    infer_instance⟩

end Needs

/-! ## All rules of functions and layers -/

/-- Entries whose rules need the slots that are listed for them. -/
class Needing (es : List Catalogue.Entry) (ns : outParam (List (String × List String))) : Prop where
  needs : ∀ e ∈ es, ∀ v ∈ e.2, ∃ slots, (e.1, slots) ∈ ns ∧ Needs e.1 v.2 slots

namespace Needing

variable {es fs : List Catalogue.Entry} {ns ms : List (String × List String)}

instance nil : Needing [] [] := ⟨fun _ he => absurd he not_mem_nil⟩

instance done (type : String) [h : Needing es ns] : Needing ((type, []) :: es) ns :=
  ⟨forall_mem_cons.2 ⟨fun _ hv => absurd hv not_mem_nil, h.needs⟩⟩

instance cons (type : String) (version : Int) (rule : Rule) (rules : List (Int × Rule))
    (slots : List String) [hrule : Needs type rule slots] [h : Needing ((type, rules) :: es) ns] :
    Needing ((type, (version, rule) :: rules) :: es) ((type, slots) :: ns) := by
  have hneeds := fun e he v hv => (h.needs e he v hv).imp fun _ hslots =>
    hslots.imp_left (mem_cons_of_mem (type, slots))
  obtain ⟨hrules, hes⟩ := forall_mem_cons.1 hneeds
  exact ⟨forall_mem_cons.2
    ⟨forall_mem_cons.2 ⟨⟨slots, mem_cons_self, hrule⟩, hrules⟩, hes⟩⟩

instance append [hes : Needing es ns] [hfs : Needing fs ms] : Needing (es ++ fs) (ns ++ ms) where
  needs e he v hv := by
    rcases mem_append.1 he with he | he
    · exact (hes.needs e he v hv).imp fun _ h => h.imp_left (mem_append_left ms)
    · exact (hfs.needs e he v hv).imp fun _ h => h.imp_left (mem_append_right ns)

end Needing

namespace Catalogue

/-- **Rules of functions and layers need the slots of their types.** -/
theorem needing_functions : ∃ ns, Needing functions ns ∧ ∀ p ∈ ns, ∀ s ∈ p.2, s ∈ requiredSlots p.1 := by
  unfold functions activation arithmetic reduction layers comparison selection
  unfold unary leakyRelu softplus prelu selu hardSigmoid swish elu hardShrink logSigmoid logSoftmax dropout isNan logarithm
    reciprocalRoot scaleIdentity scale reduce logSumExp mean argMax argMin softmax convolution convolutionTranspose pool
    adaptivePool fixedPool Rules.norm batchNorm instanceNorm groupNorm nonzeroRows
  dsimp only
  exact ⟨_, inferInstance, by decide +kernel⟩

/-- Types of functions and layers have no other rules. -/
theorem mem_functions {e : Entry} (he : e ∈ entries) (htype : e.1 ∈ functions.map Prod.fst) :
    e ∈ functions := by
  have hapart : ∀ t ∈ functions.map Prod.fst,
      t ∉ (shaping ++ filling ++ detection ++ kept).map Prod.fst := by decide +kernel
  have hentries : entries = functions ++ (shaping ++ filling ++ detection ++ kept) := by
    simp only [entries, functions, append_assoc]
  rw [hentries] at he
  rcases mem_append.1 he with he | he
  · exact he
  · exact absurd (mem_map_of_mem he) (hapart _ htype)

end Catalogue

/-! ## Wirable operators, and others -/

section Operators

variable {op : OpNode} [op.Plain] [op.Fed] {version : Int} {rule : Rule}

theorem wires_of_heeding (htype : op.type ∈ Catalogue.functions.map Prod.fst)
    (hheeds : op.type ∉ heedlessTypes) (hslots : ∀ s ∈ requiredSlots op.type, op.Filled s)
    (h : Registry.standard.ruleFor op.type version = .ok rule) : Wires op.sources (rule op) := by
  obtain ⟨e, he, hop, v, hv, rfl⟩ := mem_entries_of_ruleFor h
  rw [← hop] at htype hheeds hslots
  obtain ⟨ns, hneeding, hrequired⟩ := Catalogue.needing_functions
  obtain ⟨slots, hmem, hneeds⟩ := hneeding.needs e (Catalogue.mem_functions he htype) v hv
  exact hneeds.wires hheeds op fun s hs => hslots s (hrequired _ hmem s hs)

/-- **The rule of a wirable operator reads what is there.** -/
theorem wires_of_wirable (htype : op.type ∈ Catalogue.functions.map Prod.fst)
    (hslots : ∀ s ∈ requiredSlots op.type, op.Filled s) (hop : op.Wirable)
    (h : Registry.standard.ruleFor op.type version = .ok rule) : Wires op.sources (rule op) := by
  have hbound : ∀ a ∈ boundAttrs op.type, Bound op.sources (op.attr a) := fun a ha =>
    ⟨fun ht => ⟨hop.bounds a ha _ ht⟩⟩
  by_cases hheedless : op.type ∈ heedlessTypes
  · have hweights := hop.weights
    have hextremes := hop.extremes
    simp only [heedlessTypes, mem_cons, not_mem_nil, or_false] at hheedless
    rcases hheedless with ht | ht | ht | ht | ht <;> rw [ht] at h hslots hbound hweights hextremes
    · obtain rfl := ruleFor_single layerNorm rfl h
      have := hslots "X" (by decide)
      exact wires_layerNorm op (hweights rfl)
    · obtain rfl := ruleFor_single relu6 rfl h
      have := hslots "X" (by decide)
      have := hbound "threshold" (by decide)
      infer_instance
    · obtain rfl := ruleFor_single hardSwish rfl h
      have := hbound "threshold" (by decide)
      infer_instance
    · obtain rfl := ruleFor_single boundedRelu rfl h
      have := hslots "X" (by decide)
      have := hbound "t_min" (by decide)
      have := hbound "t_max" (by decide)
      infer_instance
    · obtain rfl := ruleFor_single distance rfl h
      have := hslots "X" (by decide)
      have := hslots "Y" (by decide)
      exact wires_distance op (hextremes rfl)
  · exact wires_of_heeding htype hheedless hslots h

omit [op.Plain] in
theorem OpNode.Fed.text_of_mem_sources {v : Value} (hv : v ∈ op.sources) : ∃ s, v = .str s := by
  rcases mem_cons.1 hv with rfl | hv
  · exact ⟨_, rfl⟩
  · exact text_of_mem_slots OpNode.Fed.names hv

omit [op.Plain] [op.Fed] in
/-- A bound that is a text is read as a name. -/
theorem misreads_of_bound {a t : String} (ha : a ∈ boundAttrs op.type) (hattr : op.attr a = .str t)
    (h : Registry.standard.ruleFor op.type version = .ok rule) : Misreads (.str t) (rule op) := by
  unfold boundAttrs at ha
  split at ha
  · rename_i ht
    obtain rfl := mem_singleton.1 ha
    rcases ht with ht | ht <;> rw [ht] at h
    · obtain rfl := ruleFor_single relu6 rfl h
      exact misreads_relu6 hattr
    · obtain rfl := ruleFor_single hardSwish rfl h
      exact misreads_hardSwish hattr
  · split at ha
    · rename_i ht
      rw [ht] at h
      obtain rfl := ruleFor_single boundedRelu rfl h
      simp only [mem_cons, not_mem_nil, or_false] at ha
      rcases ha with rfl | rfl
      · exact misreads_boundedRelu (Or.inl hattr)
      · exact misreads_boundedRelu (Or.inr hattr)
    · cases ha

/-- **The rule of any other operator reads what nobody writes**: a bound, or what is no name at all. -/
theorem misreads_of_not_wirable (hop : ¬ op.Wirable)
    (h : Registry.standard.ruleFor op.type version = .ok rule) :
    ∃ b, b ∉ op.sources ∧ Misreads b (rule op) ∧
      ((∃ a ∈ boundAttrs op.type, op.attr a = b) ∨ ∀ s, b ≠ .str s) := by
  have hforeign : ∀ {b : Value}, (∀ s, b ≠ .str s) → b ∉ op.sources := fun hb hmem => by
    obtain ⟨s, rfl⟩ := OpNode.Fed.text_of_mem_sources hmem
    exact hb s rfl
  by_cases hweights : op.type = "layer_norm" → ∀ s ∈ ["Scale", "Bias"], op.hasInput s = true → op.Filled s
  · by_cases hbounds : ∀ a ∈ boundAttrs op.type, ∀ t, op.attr a = .str t → .str t ∈ op.sources
    · have hextremes : ¬ (op.type = "dist" → isExtremeOrder (op.attr "p") = true →
          (op.slot "Out").given.length ≤ 1) := fun h => hop ⟨hweights, hbounds, h⟩
      simp only [Classical.not_imp, Nat.not_le] at hextremes
      obtain ⟨ht, hp, hlength⟩ := hextremes
      rw [ht] at h
      obtain rfl := ruleFor_single distance rfl h
      have hno : ∀ s, op.slot "Out" ≠ .str s := by
        intro s hs
        rw [hs] at hlength
        exact absurd hlength (Nat.lt_irrefl 1)
      exact ⟨op.slot "Out", hforeign hno, misreads_distance op hp hlength, Or.inr hno⟩
    · simp only [not_forall] at hbounds
      obtain ⟨a, ha, t, hattr, hmem⟩ := hbounds
      exact ⟨.str t, hmem, misreads_of_bound ha hattr h, Or.inl ⟨a, ha, hattr⟩⟩
  · simp only [not_forall] at hweights
    obtain ⟨ht, slot, hslot, hthere, hempty⟩ := hweights
    rw [ht] at h
    obtain rfl := ruleFor_single layerNorm rfl h
    have hno : ∀ s, Value.none ≠ .str s := fun _ hs => nomatch hs
    exact ⟨.none, hforeign hno, misreads_layerNorm op hslot hthere hempty, Or.inr hno⟩

end Operators

/-! ## Mapping -/

/-- No bound of the operator is a name that is still to be made. -/
def OpNode.Definite (op : OpNode) (d : Draft) : Prop := ∀ a ∈ boundAttrs op.type, d.Unmade (op.attr a)

section Mapping

variable {op : OpNode} {exportType : ExportType} {depth : Nat} {d d' : Draft} {rule : Rule} {ns : List Node}

theorem emission_mapUpTo (h : EStateM.run (mapUpTo Registry.standard exportType depth op) d = .ok () d')
    (hrule : Registry.standard.ruleFor op.type d.opset = .ok rule) (hns : Emission (rule op) d d' () ns) :
    Emission (mapUpTo Registry.standard exportType depth op) d d' () ns := by
  refine { hns with puts := fun m => ?_ }
  have happly : EStateM.run (applyRule Registry.standard op) { d with nodes := m } =
      .ok () { d' with nodes := ns.foldl NodeMap.keep m } := by
    change EStateM.run (liftM (Registry.standard.ruleFor op.type d.opset) >>= fun rule => rule op) _ = _
    rw [hrule, computed_bind]
    exact hns.puts m
  rw [mapUpTo_eq_of_ok h, seenFrom, Emits.run_tryCatch, happly]

end Mapping

/-- **Nodes of functions and layers read what is there if and only if their operator is wirable.**
Whatever nodes, names and version a draft has, the nodes that an operator with its required slots adds
to it read inputs of the operator, the empty name and outputs of earlier ones among them if it is
wirable.  Otherwise one of them reads what nobody has written, where no bound is a name still to be
made. -/
theorem wiredFrom_mapUpTo_iff (op : OpNode) [op.Plain] [op.Fed]
    (htype : op.type ∈ Catalogue.functions.map Prod.fst)
    (hslots : ∀ s ∈ requiredSlots op.type, op.Filled s) (exportType : ExportType) (depth : Nat)
    {d d' : Draft} (h : EStateM.run (mapUpTo Registry.standard exportType depth op) d = .ok () d') :
    ∃ ns, d'.nodes = ns.foldl NodeMap.keep d.nodes ∧
      Emission (mapUpTo Registry.standard exportType depth op) d d' () ns ∧
      (op.Wirable → WiredFrom op.sources ns) ∧
      (op.Definite d → (WiredFrom op.sources ns ↔ op.Wirable)) := by
  obtain ⟨rule, hrule, hrun⟩ := applyRule_of_mapUpTo h
  have hnodes : ∀ {ns}, Emission (rule op) d d' () ns → d'.nodes = ns.foldl NodeMap.keep d.nodes :=
    fun hns => congrArg Draft.nodes (EStateM.Result.ok.inj (hrun.symm.trans (hns.puts d.nodes))).2
  by_cases hop : op.Wirable
  · obtain ⟨ns, hns, hwired, -⟩ := (wires_of_wirable htype hslots hop hrule).ensures.emission hrun
    exact ⟨ns, hnodes hns, emission_mapUpTo h hrule hns, fun _ => hwired, fun _ => iff_of_true hwired hop⟩
  · obtain ⟨b, hb, hmisreads, hfrom⟩ := misreads_of_not_wirable hop hrule
    obtain ⟨ns, hns, hmisread⟩ := hmisreads.ensures.emission hrun
    refine ⟨ns, hnodes hns, emission_mapUpTo h hrule hns, fun hw => absurd hw hop, fun hdefinite => ?_⟩
    have hunmade : d.Unmade b := by
      rcases hfrom with ⟨a, ha, rfl⟩ | hno
      · exact hdefinite a ha
      · exact fun type k _ => hno _
    exact iff_of_false ((hmisread hunmade).not_wiredFrom hb) hop

/-- A layer with a scale, and a slot for a shift with nothing in it. -/
def OpNode.unshifted : OpNode :=
  { name := "layer_norm_0", type := "layer_norm",
    inputs := [("X", .strs ["x"]), ("Scale", .strs ["s"]), ("Bias", .strs [])], outputs := [("Y", .strs ["y"])],
    attrs := [("begin_norm_axis", .int 1), ("epsilon", .float 1e-5)],
    block := some { vars := [{ name := "x", shape := [2, 3] }], ops := [] } }

/-- **A slot that is there and empty** is read all the same. -/
theorem wiredFrom_mapUpTo_iff_unshifted :
    ∃ d' ns, EStateM.run (mapUpTo Registry.standard (.str "ONNX") 1 OpNode.unshifted) { opset := 11 } = .ok () d' ∧
      d'.nodes = ns.foldl NodeMap.keep [] ∧ ¬ WiredFrom OpNode.unshifted.sources ns := by
  have hplain : OpNode.unshifted.Plain := ⟨by simp [OpNode.unshifted]⟩
  have hfed : OpNode.unshifted.Fed := ⟨by simp [OpNode.unshifted]⟩
  have hx : OpNode.unshifted.Filled "X" := ⟨"x", [], rfl⟩
  have hslots : ∀ s ∈ requiredSlots OpNode.unshifted.type, OpNode.unshifted.Filled s := by
    intro s hs
    obtain rfl : s = "X" := by simpa using (show s ∈ ["X"] from hs)
    exact hx
  have hruns : (EStateM.run' (mapUpTo Registry.standard (.str "ONNX") 1 OpNode.unshifted)
      { opset := 11 }).isSome = true := by decide +kernel
  unfold EStateM.run' at hruns
  split at hruns
  · rename_i d' hrun
    obtain ⟨ns, hnodes, -, -, hiff⟩ :=
      wiredFrom_mapUpTo_iff OpNode.unshifted (by decide +kernel) hslots (.str "ONNX") 1 hrun
    refine ⟨d', ns, hrun, hnodes, fun hwired => ?_⟩
    have hwirable := (hiff fun a ha => absurd ha List.not_mem_nil).1 hwired
    obtain ⟨x, xs, hbias⟩ := (hwirable.weights rfl "Bias" (by simp) rfl).names
    cases hbias
  · cases hruns

end ModelExport
