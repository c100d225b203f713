import Mathlib.Data.List.Dedup
import ModelExport.Export
import ModelExport.Proofs.Emission.Catalogue

/-!
# Proofs/Emission/Mapping — what mapping a source graph adds

With the registry that comes with the library, an operator that is mapped writes its own names and
names derived from them, and all operators together what each of them writes
(`grows_mapAll`).  `Built` says what `Emit.build` makes of a draft: the names of weights, inputs and
outputs of the graph, and a batch of nodes.
-/

namespace ModelExport

open Emit List
open EStateM (run)

/-! ## Faults that are passed on -/

namespace Emits

variable {α β : Type}

theorem run_tryCatch (x : Emit α) (handle : Fault → Emit α) (d : Draft) :
    run (tryCatch x handle) d = match run x d with
      | .error f d₁ => run (handle f) d₁
      | .ok a d₁ => .ok a d₁ := by
  change EStateM.tryCatch x handle d = _
  unfold EStateM.tryCatch run
  cases x d <;> rfl

theorem tryCatch_ok {x : Emit α} {handle : Fault → Emit α} {d d' : Draft} {a : α}
    (hfail : ∀ f {d d' : Draft} {a : α}, run (handle f) d ≠ .ok a d')
    (h : run (tryCatch x handle) d = .ok a d') : run x d = .ok a d' := by
  rw [run_tryCatch] at h
  split at h
  · exact absurd h (hfail _)
  · rename_i hx
    rw [hx, h]

theorem bind_throw_ne (x : Emit β) (f : Fault) {d d' : Draft} {a : α} :
    run (do let _ ← x; throw f : Emit α) d ≠ .ok a d' := by
  intro h
  obtain ⟨b, d₁, -, h₁⟩ := bind_ok h
  cases h₁

end Emits

namespace Grows

variable {α β : Type} {V : List Value}

theorem tryCatch {x : Emit α} {handle : Fault → Emit α} (hx : Grows V x)
    (hfail : ∀ f {d d' : Draft} {a : α}, run (handle f) d ≠ .ok a d') :
    Grows V (tryCatch x handle) :=
  ⟨fun hd h => hx.growth hd (Emits.tryCatch_ok hfail h), fun h => hx.version (Emits.tryCatch_ok hfail h)⟩

instance seenFrom (op : OpNode) (x : Emit α) [Grows V x] : Grows V (Emit.seenFrom op x) :=
  tryCatch inferInstance fun _ _ _ _ h => nomatch h

instance withoutEdits (x : Emit α) [hx : Grows V x] : Grows V (Emit.withoutEdits x) := by
  have hforget : Grows [] (modify fun d => { d with edits := [] } : Emit Unit) :=
    of_frame fun h => by rw [modify_ok h]
  have := tryCatch hx (Emits.bind_throw_ne (modify fun d => { d with edits := [] } : Emit Unit))
  exact .of_append_nil (.share fun a => inferInstance)

instance keepEdits (op : OpNode) : Grows V (Emit.keepEdits op) :=
  of_frame fun h => by rw [modify_ok h]; split <;> rfl

/-- **A list of steps** shares the names out in its order. -/
theorem forIn (xs : List β) (f : β → Emit Unit) (W : β → List Value)
    (h : ∀ b ∈ xs, Grows (W b) (f b)) :
    Grows (xs.flatMap W) (do for b in xs do f b : Emit Unit) := by
  induction xs with
  | nil => exact inferInstanceAs (Grows [] (Pure.pure PUnit.unit : Emit Unit))
  | cons b xs ih =>
    obtain ⟨hb, hxs⟩ := forall_mem_cons.1 h
    simp only [forIn_cons, bind_assoc, pure_bind, flatMap_cons]
    exact .share fun _ => ih hxs

end Grows

/-! ## Rules of the standard registry -/

theorem composite?_standard {type : String} {c : Composite}
    (h : Registry.standard.composite? (.str type) = some c) : c = .recipe := by
  obtain ⟨e, he, rfl⟩ := Option.map_eq_some_iff.1 h
  obtain ⟨k, -, rfl⟩ := mem_map.1 (mem_of_find?_eq_some he)
  rfl

/-- The rule of a type is in the catalogue. -/
theorem mem_entries_of_ruleFor {type : String} {version : Int} {rule : Rule}
    (h : Registry.standard.ruleFor type version = .ok rule) :
    ∃ e ∈ Catalogue.entries, e.1 = type ∧ ∃ v ∈ e.2, v.2 = rule := by
  unfold Registry.ruleFor at h
  split at h
  · cases h
  · rename_i rules hrules
    obtain ⟨e, he, rfl⟩ := Option.map_eq_some_iff.1 hrules
    obtain ⟨entry, hentry, rfl⟩ := mem_map.1 (mem_of_find?_eq_some he)
    have htype : entry.1 = type := by simpa using find?_some he
    split at h
    · rename_i v hv
      exact ⟨entry, hentry, htype, v, mem_of_find?_eq_some hv, Except.ok.inj h⟩
    · cases h

theorem maps_of_ruleFor {type : String} {version : Int} {rule : Rule}
    (h : Registry.standard.ruleFor type version = .ok rule) : Maps type rule := by
  obtain ⟨e, he, rfl, v, hv, rfl⟩ := mem_entries_of_ruleFor h
  exact Catalogue.maps_of_mem_entries he hv

theorem expand_recipe_ne {op : OpNode} {d d' : Draft} {g : SourceGraph} :
    run (expand .recipe op) d ≠ .ok g d' := by
  intro h
  obtain ⟨stand, d₁, -, h₁⟩ := bind_ok h
  obtain ⟨scope, d₂, -, h₂⟩ := bind_ok h₁
  cases h₂

namespace Grows

variable {V : List Value} {α : Type}

instance bind_expand (op : OpNode) (f : SourceGraph → Emit α) :
    Grows V (expand .recipe op >>= f) :=
  have hfails : Emits V (expand .recipe op >>= f) := .of_failing fun h => by
    obtain ⟨g, d₁, h₁, -⟩ := bind_ok h
    exact expand_recipe_ne h₁
  hfails.toGrows

instance applyRule (op : OpNode) [op.Plain] :
    Grows (op.written ++ op.derived) (Emit.applyRule Registry.standard op) :=
  .step fun _ => .known fun _ hrule => (maps_of_ruleFor hrule).grows op rfl

/-- **An operator that is mapped** writes its own names and names derived from them. -/
instance mapUpTo (exportType : ExportType) (depth : Nat) (op : OpNode) [op.Plain] :
    Grows (op.written ++ op.derived) (Emit.mapUpTo Registry.standard exportType depth op) := by
  cases depth with
  | zero => unfold Emit.mapUpTo; infer_instance
  | succ depth =>
    unfold Emit.mapUpTo
    split
    · rename_i c hc
      obtain rfl := composite?_standard hc
      infer_instance
    · infer_instance

instance mapNode (exportType : ExportType) (op : OpNode) [op.Plain] :
    Grows (op.written ++ op.derived) (Emit.mapNode Registry.standard exportType op) := by
  have hmap : Grows (op.written ++ op.derived)
      (Emit.mapUpTo Registry.standard exportType (depthOf Registry.standard) op) := inferInstance
  have := tryCatch hmap (Emits.bind_throw_ne (Emit.keepEdits op))
  exact .of_append_nil (.share fun _ => inferInstance)

/-! ## A whole graph -/

instance checkSupport (r : Registry) (types : List String) (version : Int) (advise : Bool) :
    Emits V (Emit.checkSupport r types version advise) := by unfold Emit.checkSupport; infer_instance

instance recommendNested (version : Int) (nodes : List OpNode) (best : Int) :
    Grows V (Emit.recommendNested Registry.standard version nodes best) := by
  induction nodes generalizing best with
  | nil => unfold Emit.recommendNested; infer_instance
  | cons op rest ih =>
    unfold Emit.recommendNested
    split
    · exact ih best
    · rename_i c hc
      obtain rfl := composite?_standard hc
      infer_instance

instance recommend (nodes : List OpNode) (version : Int) :
    Grows V (Emit.recommend Registry.standard nodes version) := by
  unfold Emit.recommend; infer_instance

end Grows

theorem growth_chooseVersion {nodes : List OpNode} {d d' : Draft} {u : Unit} (hd : d.Tidy)
    (h : run (chooseVersion Registry.standard nodes) d = .ok u d') : Growth [] d d' := by
  obtain ⟨v, d₁, hv, h₁⟩ := bind_ok h
  cases hv
  obtain ⟨w, d₂, hrecommend, hset⟩ := bind_ok h₁
  obtain rfl := modify_ok hset
  have hgrowth : Growth [] _ d₂ := (Grows.recommend nodes _).growth hd hrecommend
  exact hgrowth.trans (.of_frame [] hgrowth.tidy rfl)

/-! ## Weights -/

theorem tidy_addWeights {ws : List (String × Weight)} {d d' : Draft} {u : Unit} (hd : d.Tidy)
    (h : run (addWeights ws) d = .ok u d') : d'.Tidy := by
  induction ws generalizing d with
  | nil => exact (pure_ok h).2 ▸ hd
  | cons w ws ih =>
    obtain ⟨_, d₁, hkeep, h₁⟩ := bind_ok h
    exact ih ((grows_keepWeight w.1 _ _ _).growth hd hkeep).tidy h₁

/-- New keys of weights are names that were asked for. -/
theorem addWeights_ok {ws : List (String × Weight)} {d d' : Draft} {u : Unit}
    (h : run (addWeights ws) d = .ok u d') :
    d' = { d with weights := d'.weights } ∧
      ∃ new, Assoc.keys d'.weights = Assoc.keys d.weights ++ new ∧ new ⊆ ws.map Prod.fst := by
  induction ws generalizing d with
  | nil =>
    obtain ⟨-, rfl⟩ := pure_ok h
    exact ⟨rfl, [], (append_nil _).symm, nil_subset _⟩
  | cons w ws ih =>
    obtain ⟨_, d₁, hkeep, h₁⟩ := bind_ok h
    obtain ⟨type, -, h₂⟩ := computed_ok hkeep
    obtain rfl := modify_ok h₂
    obtain ⟨hframe, new, hkeys, hnew⟩ := ih h₁
    refine ⟨hframe, ?_⟩
    rw [hkeys]
    dsimp only
    rw [Assoc.keys_insert]
    split
    · exact ⟨new, rfl, List.Subset.trans hnew (subset_cons_self _ _)⟩
    · exact ⟨w.1 :: new, append_assoc _ _ _, cons_subset_cons _ hnew⟩

/-- **Weights are kept under their names**, each name once. -/
instance Grows.addWeights (ws : List (String × Weight)) :
    Grows ((ws.map Prod.fst).dedup.map Value.str) (Emit.addWeights ws) where
  version h := by rw [(addWeights_ok h).1]
  growth {d d' _} hd h := by
    have htidy := tidy_addWeights hd h
    obtain ⟨hframe, new, hkeys, hnew⟩ := addWeights_ok h
    have hnodup : new.Nodup := by
      have := htidy.distinct
      rw [hkeys] at this
      exact this.of_append_right
    have hsub : (new.map Value.str).Subperm ((ws.map Prod.fst).dedup.map Value.str) := by
      refine subperm_of_subset (hnodup.map fun _ _ => Value.str.inj) ?_
      exact map_subset _ fun x hx => mem_dedup.2 (hnew hx)
    have hleads : Batch.Leads { weights := new, given := new.map Value.str } _ d d' :=
      { nodes := by rw [hframe]; exact (append_nil _).symm
        weights := hkeys
        distinct := nodup_nil
        counted := fun _ hs => absurd hs not_mem_nil
        written := by simp [Batch.written]
        given := hsub
        again := nil_subperm
        reread := Or.inr fun _ hv => absurd hv not_mem_nil }
    refine ⟨htidy, fun t => ?_, ?_, ?_, ?_, _, hleads⟩ <;> rw [hframe]
    exact le_rfl

theorem twin_addWeights : ∀ ws : List (String × Weight), Twin True (addWeights ws) (addWeights ws)
  | [] => .pure ()
  | w :: ws => .step (twin_keepWeight w.1 _ _ _) fun _ => twin_addWeights ws

/-- **The names that the operators of a graph write.** -/
theorem grows_mapAll (exportType : ExportType) (nodes : List OpNode) (h : ∀ op ∈ nodes, op.Plain) :
    Grows (nodes.flatMap fun op => op.written ++ op.derived)
      (mapAll Registry.standard exportType nodes) := by
  unfold mapAll
  refine .step fun version => .step fun _ => ?_
  exact .forIn nodes _ _ fun op hop => have := h op hop; inferInstance

/-! ## Inputs and outputs -/

theorem valueInfo_ok {name shape dtype : Value} {info : ValueInfo}
    (h : valueInfo name shape dtype = .ok info) : info.name = name := by
  obtain ⟨type, -, h₁⟩ := except_bind_ok h
  rw [← Except.ok.inj h₁]

theorem addInputs_ok {ts : List Terminal} {d d' : Draft} {u : Unit}
    (h : run (addInputs ts) d = .ok u d') :
    ∃ infos : List ValueInfo, d' = { d with inputs := d.inputs ++ infos } ∧
      infos.map ValueInfo.name = ts.map fun t => .str t.name := by
  induction ts generalizing d with
  | nil => exact ⟨[], by rw [(pure_ok h).2, append_nil], rfl⟩
  | cons t ts ih =>
    obtain ⟨_, d₁, hadd, h₁⟩ := bind_ok h
    obtain ⟨info, hinfo, h₂⟩ := computed_ok hadd
    obtain rfl := modify_ok h₂
    obtain ⟨infos, rfl, hnames⟩ := ih h₁
    exact ⟨info :: infos, by simp, by rw [map_cons, valueInfo_ok hinfo, hnames, map_cons]⟩

theorem addOutputs_ok {ts : List Terminal} {d d' : Draft} {u : Unit}
    (h : run (addOutputs ts) d = .ok u d') :
    ∃ infos : List ValueInfo, d' = { d with outputs := d.outputs ++ infos } ∧
      infos.map ValueInfo.name = ts.map fun t => .str t.name := by
  induction ts generalizing d with
  | nil => exact ⟨[], by rw [(pure_ok h).2, append_nil], rfl⟩
  | cons t ts ih =>
    obtain ⟨_, d₁, hadd, h₁⟩ := bind_ok h
    obtain ⟨info, hinfo, h₂⟩ := computed_ok hadd
    obtain rfl := modify_ok h₂
    obtain ⟨infos, rfl, hnames⟩ := ih h₁
    exact ⟨info :: infos, by simp, by rw [map_cons, valueInfo_ok hinfo, hnames, map_cons]⟩

/-! ## The draft of a graph -/

/-- **The names that come with a graph**: those of its weights, and what its operators write. -/
def SourceGraph.names (g : SourceGraph) : List Value :=
  (g.weights.map Prod.fst).dedup.map Value.str ++
    (g.nodes.map Prod.snd).flatMap fun op => op.written ++ op.derived

theorem Value.text_marks (w : Value) [hw : w.Sole] (ms : List String) {v : Value}
    (h : v ∈ w.marks ms) : ∃ s, v = .str s := by
  obtain ⟨m, -, hv⟩ := mem_flatMap.1 h
  rcases hw.cases with ⟨s, rfl⟩ | rfl
  · exact ⟨s ++ m, mem_singleton.1 hv⟩
  · exact absurd hv not_mem_nil

theorem OpNode.Plain.text_written {op : OpNode} (h : op.Plain) {v : Value}
    (hv : v ∈ op.written ++ op.derived) : ∃ s, v = .str s := by
  rcases mem_append.1 hv with hv | hv
  · exact text_of_mem_slots h.names hv
  · unfold OpNode.derived at hv
    split at hv
    · exact Value.text_marks _ _ hv
    · exact absurd hv not_mem_nil

theorem SourceGraph.text_names {g : SourceGraph} (hg : ∀ e ∈ g.nodes, e.2.Plain) {v : Value}
    (hv : v ∈ g.names) : ∃ s, v = .str s := by
  rcases mem_append.1 hv with hv | hv
  · obtain ⟨x, -, rfl⟩ := mem_map.1 hv
    exact ⟨x, rfl⟩
  · obtain ⟨op, hop, hv⟩ := mem_flatMap.1 hv
    obtain ⟨e, he, rfl⟩ := mem_map.1 hop
    exact (hg e he).text_written hv

theorem Batch.Leads.text_outputs {b : Batch} {V : List Value} {d d' : Draft} (h : b.Leads V d d')
    (hV : ∀ v ∈ V, ∃ s, v = .str s) : ∀ n ∈ b.nodes, ∀ v ∈ n.outputs, ∃ s, v = .str s := by
  intro n hn v hv
  have hwritten : v ∈ b.written :=
    mem_append_left _ (mem_flatMap.2 ⟨n, hn, hv⟩)
  rcases h.mem_written hwritten with hv | ⟨s, -, hv⟩
  · exact hV v hv
  · exact ⟨s, hv⟩

/-- **What mapping a graph makes of a draft.** -/
structure Built (g : SourceGraph) (d d' : Draft) : Prop where
  tidy : d'.Tidy
  counts : ∀ type, d.count type ≤ d'.count type
  inputs : d'.inputs.map ValueInfo.name =
    d.inputs.map ValueInfo.name ++ g.inputs.map fun t => .str t.name
  outputs : d'.outputs.map ValueInfo.name =
    d.outputs.map ValueInfo.name ++ g.outputs.map fun t => .str t.name
  renames : d'.renames = d.renames
  adds : ∃ b : Batch, b.Leads g.names d d'

theorem build_ok {g : SourceGraph} {exportType : ExportType} {d d' : Draft} {u : Unit}
    (hd : d.Tidy) (hg : ∀ e ∈ g.nodes, e.2.Plain)
    (h : run (build Registry.standard exportType g) d = .ok u d') : Built g d d' := by
  obtain ⟨_, d₁, hversion, h₁⟩ := bind_ok h
  obtain ⟨_, d₂, hweights, h₂⟩ := bind_ok h₁
  obtain ⟨_, d₃, hinputs, h₃⟩ := bind_ok h₂
  obtain ⟨_, d₄, houtputs, hmap⟩ := bind_ok h₃
  have hfirst : Growth [] d d₁ := growth_chooseVersion hd hversion
  have hsecond := hfirst.trans ((Grows.addWeights g.weights).growth hfirst.tidy hweights)
  obtain ⟨ins, rfl, hins⟩ := addInputs_ok hinputs
  obtain ⟨outs, rfl, houts⟩ := addOutputs_ok houtputs
  -- inputs and outputs take no part in what is tidy or added
  obtain ⟨hkept, hrecorded, hnumbered, htexts, hdistinct⟩ := hsecond.tidy
  have htidy : Draft.Tidy
      { d₂ with inputs := d₂.inputs ++ ins, outputs := d₂.outputs ++ outs } :=
    ⟨hkept, hrecorded, hnumbered, htexts, hdistinct⟩
  have hplain : ∀ op ∈ g.nodes.map Prod.snd, op.Plain := fun op hop => by
    obtain ⟨e, he, rfl⟩ := mem_map.1 hop
    exact hg e he
  have hlast := (grows_mapAll exportType _ hplain).growth htidy hmap
  obtain ⟨b, hb⟩ := hsecond.adds
  obtain ⟨c, hc⟩ := hlast.adds
  have hb' : b.Leads _ d { d₂ with inputs := d₂.inputs ++ ins, outputs := d₂.outputs ++ outs } :=
    ⟨hb.nodes, hb.weights, hb.distinct, hb.counted, hb.written, hb.given, hb.again, hb.reread⟩
  refine ⟨hlast.tidy, fun t => (hsecond.counts t).trans (hlast.counts t), ?_, ?_,
    hlast.renames.trans hsecond.renames, b.append c, hb'.trans hc hsecond.counts hlast.counts⟩
  · rw [hlast.inputs, map_append, hins, hsecond.inputs]
  · rw [hlast.outputs, map_append, houts, hsecond.outputs]

end ModelExport
