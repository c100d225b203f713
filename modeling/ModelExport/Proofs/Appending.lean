import ModelExport.Proofs.Emission.Composites
import ModelExport.Proofs.Repetition.Exporting
import ModelExport.Proofs.SourceGraph
import ModelExport.Workbench.Nodes

/-!
# Proofs/Appending — nodes are put behind each other, under names of their own

    call    T, r        T, r'          U, r''
    names   T_0 T_1     T_2            U_0 U_1 U_2
    node    ·········▸ at the end ···▸ at the end

Names are numbers of a type, and numbers are never handed out twice; so calls that make nodes without
naming them get different names (`nodup_generated`), and each puts its node behind the others or leaves
them as they are (`Workbench.appends_of_tidy`).  The same holds of the graph of a program, and of the
nodes of a model, operator by operator.
-/

namespace ModelExport

open Emit List
open EStateM (run)

/-! ## Steps that only count -/

namespace Emit

variable {type : String} {d d' : Draft}

theorem freshNames_total (type : String) (n : Nat) (d : Draft) :
    ∃ vs d', run (freshNames type n) d = .ok vs d' := by
  induction n generalizing d with
  | zero => exact ⟨[], d, rfl⟩
  | succ n ih =>
    obtain ⟨vs, d', h⟩ := ih { d with counts := (d.counts.next type).2 }
    exact ⟨_, d', (run_bind_of_ok rfl).trans (run_bind_of_ok h)⟩

theorem outputName_total (type : String) (v : Value) (d : Draft) :
    ∃ w d', run (outputName type v) d = .ok w d' := by
  cases v with
  | object k n => cases k <;> exact ⟨_, _, rfl⟩
  | _ => exact ⟨_, _, rfl⟩

theorem outputNames_total (type : String) (vs : List Value) (d : Draft) :
    ∃ ws d', run (outputNames type vs) d = .ok ws d' := by
  induction vs generalizing d with
  | nil => exact ⟨[], d, rfl⟩
  | cons v vs ih =>
    obtain ⟨w, d₁, hw⟩ := outputName_total type v d
    obtain ⟨ws, d', hws⟩ := ih d₁
    exact ⟨_, d', (run_bind_of_ok hw).trans (run_bind_of_ok hws)⟩

/-- **Outputs can always be named**, and that only counts. -/
theorem outputsFor_total (type name : String) (v : Value) (d : Draft) :
    ∃ w d' n, run (outputsFor type name v) d = .ok w d' ∧ Advances type n d d' := by
  have hmade : ∀ k, ∃ w d' n, run (do return .list (← freshNames type k) : Emit Value) d =
      .ok w d' ∧ Advances type n d d' := fun k => by
    obtain ⟨vs, d', h⟩ := freshNames_total type k d
    exact ⟨_, d', k, run_bind_of_ok h, (freshNames_ok h).2⟩
  cases v with
  | int k => exact hmade k.toNat
  | bool b => exact hmade (if b then 1 else 0)
  | list xs =>
    cases xs with
    | nil => exact ⟨_, d, 0, rfl, .refl type d⟩
    | cons x xs =>
      obtain ⟨ws, d', h⟩ := outputNames_total type (x :: xs) d
      obtain ⟨-, n, hadv, -⟩ := outputNames_ok h
      exact ⟨_, d', n, run_bind_of_ok h, hadv⟩
  | _ => exact ⟨_, d, 0, rfl, .refl type d⟩

theorem useDomain_total (domain : Value) (d : Draft) :
    ∃ domains, run (useDomain domain) d = .ok () { d with domains } := by
  unfold useDomain
  split
  · exact ⟨_, rfl⟩
  · by_cases h : (d.domains.any fun x => x.same domain) = true
    · exact ⟨d.domains, congrArg (EStateM.Result.ok ()) (if_pos h)⟩
    · exact ⟨_, congrArg (EStateM.Result.ok ()) (if_neg h)⟩

/-- **What a call may do that adds no node**: names of one type are used up, and domains. -/
structure Counts (type : String) (d d' : Draft) : Prop where
  frame : d' = { d with counts := d'.counts, domains := d'.domains }
  own : d.count type ≤ d'.count type
  other : ∀ t, t ≠ type → d'.count t = d.count t

theorem Advances.toCounts {n : Nat} (h : Advances type n d d') : Counts type d d' :=
  ⟨by rw [h.only], h.own ▸ Nat.le_add_right _ _, h.other⟩

theorem Counts.le (h : Counts type d d') (t : String) : d.count t ≤ d'.count t := by
  by_cases ht : t = type
  · exact ht ▸ h.own
  · exact (h.other t ht).ge

theorem Counts.trans {d'' : Draft} (h₁ : Counts type d d') (h₂ : Counts type d' d'') : Counts type d d'' := by
  refine ⟨?_, h₁.own.trans h₂.own, fun t ht => (h₂.other t ht).trans (h₁.other t ht)⟩
  rw [h₂.frame, h₁.frame]

theorem counts_domains (type : String) (d : Draft) (domains : List Value) :
    Counts type d { d with domains } :=
  ⟨rfl, le_rfl, fun _ _ => rfl⟩

theorem Counts.tidy (h : Counts type d d') (hd : d.Tidy) : d'.Tidy := by
  have hnodes : d'.nodes = d.nodes := by rw [h.frame]
  have hweights : d'.weights = d.weights := by rw [h.frame]
  refine ⟨hnodes ▸ hd.kept, hnodes ▸ hd.recorded, ?_, hweights ▸ hd.weights, hweights ▸ hd.distinct⟩
  rw [hnodes]
  intro e he
  obtain ⟨k, hk, hlt⟩ := hd.numbered e he
  exact ⟨k, hk, hlt.trans_le (h.le _)⟩

/-! ## Making a node -/

def makeUnnamed (type : String) (r : NodeRequest) : Emit Value := do
  let name ← freshName type
  useDomain r.domain
  let attrs ← requestedAttrs r.attrs r.further
  nodeNamed type r.inputs (r.outputs.getD (.list [])) attrs (some name) r.domain

theorem run_nodeNamed_some {name : String} {inputs outputs domain w : Value} {attrs : Attrs} {d₁ d₂ : Draft}
    (hdomain : run (useDomain domain) d = .ok () d₁)
    (houtputs : run (outputsFor type name outputs) d₁ = .ok w d₂) :
    run (nodeNamed type inputs outputs attrs (some name) domain) d =
      match Node.recorded type name (givenInputs inputs) w attrs domain with
      | .ok n => .ok (result n.outputs) { d₂ with nodes := NodeMap.keep d₂.nodes n }
      | .error f => .error f d₂ := by
  change run (useDomain domain >>= fun _ => outputsFor type name outputs >>= fun outputs =>
    liftM (Node.recorded type name (givenInputs inputs) outputs attrs domain) >>= fun n => _) d = _
  rw [run_bind_of_ok hdomain, run_bind_of_ok houtputs]
  cases Node.recorded type name (givenInputs inputs) w attrs domain <;> rfl

/-- **A call fails and only counts, or it adds a node.** -/
theorem makeUnnamed_cases (type : String) (r : NodeRequest) (d : Draft) :
    (∃ f d', run (makeUnnamed type r) d = .error f d' ∧ Counts type d d') ∨
      ∃ d' n, run (makeUnnamed type r) d = .ok (result n.outputs) d' ∧
        AddsNode type r.inputs (r.outputs.getD (.list [])) d d' n := by
  have hfresh : run (freshName type) d =
      .ok (numbered type (d.count type)) { d with counts := (d.counts.next type).2 } := rfl
  generalize hd₁ : { d with counts := (d.counts.next type).2 } = d₁ at hfresh
  obtain ⟨-, hadv₁⟩ := freshName_ok hfresh
  obtain ⟨domains₁, hdomain₁⟩ := useDomain_total r.domain d₁
  unfold makeUnnamed
  rw [run_bind_of_ok hfresh, run_bind_of_ok hdomain₁]
  cases hattrs : requestedAttrs r.attrs r.further with
  | error s =>
    exact Or.inl ⟨.slip s, _, rfl, hadv₁.toCounts.trans (counts_domains type d₁ domains₁)⟩
  | ok attrs =>
    obtain ⟨domains₂, hdomain₂⟩ := useDomain_total r.domain { d₁ with domains := domains₁ }
    obtain ⟨w, d₂, m, houtputs, hadv₂⟩ := outputsFor_total type (numbered type (d.count type))
      (r.outputs.getD (.list [])) { d₁ with domains := domains₂ }
    have hcounts := (hadv₁.toCounts.trans (counts_domains type d₁ domains₂)).trans hadv₂.toCounts
    change (∃ f d', run (nodeNamed type r.inputs (r.outputs.getD (.list [])) attrs
        (some (numbered type (d.count type))) r.domain) { d₁ with domains := domains₁ } = .error f d' ∧ _) ∨
      ∃ d' n, run (nodeNamed type r.inputs (r.outputs.getD (.list [])) attrs
        (some (numbered type (d.count type))) r.domain) { d₁ with domains := domains₁ } = _ ∧ _
    rw [run_nodeNamed_some hdomain₂ houtputs]
    cases hn : Node.recorded type (numbered type (d.count type)) (givenInputs r.inputs) w attrs r.domain with
    | error f => exact Or.inl ⟨f, d₂, rfl, hcounts⟩
    | ok n => exact Or.inr ⟨_, n, rfl, addsNode_of_recorded hadv₁ houtputs hn⟩

end Emit

/-! ## Calls in a row -/

namespace Workbench

def blank (opset : Int) : Workbench := { kind := .model, draft := { opset } }

/-- The graph after a call that makes a node and does not name it, whether it fails or not. -/
def after (w : Workbench) (call : String × NodeRequest) : Workbench :=
  match run (Bench.makeModel call.1 { call.2 with name := .none }) w with
  | .ok _ w' => w'
  | .error _ w' => w'

/-- The names that are generated for a type from one graph to another. -/
def generatedFor (type : String) (w w' : Workbench) : List String :=
  numberedFrom type (w.draft.count type) (w'.draft.count type - w.draft.count type)

/-- **The names that are generated by calls in a row.** -/
def generated : Workbench → List (String × NodeRequest) → List String
  | _, [] => []
  | w, call :: calls => generatedFor call.1 w (w.after call) ++ generated (w.after call) calls

/-- **What a call does that is to make a node and does not name it**: it fails and leaves the nodes as
they are, or it puts a node at the end and gives back its outputs.  What is generated is the name of the
node, and names of outputs. -/
def Appends (type : String) (r : NodeRequest) (w : Workbench) : Prop :=
  match run (Bench.makeModel type { r with name := .none }) w with
  | .error _ w' => w'.draft.nodes = w.draft.nodes
  | .ok v w' => ∃ n : Node, w'.draft.nodes = w.draft.nodes ++ [(n.name, n)] ∧ v = Emit.result n.outputs ∧
      ∃ made own, generatedFor type w w' = n.name :: made ∧ (own = [] ∨ own = [n.name]) ∧
        n.outputs.Perm ((r.outputs.getD (.list [])).given ++ (own ++ made).map .str)

variable {w : Workbench} {call : String × NodeRequest}

theorem run_makeModel (type : String) (r : NodeRequest) (w : Workbench) :
    run (Bench.makeModel type { r with name := .none }) w =
      match run (makeUnnamed type r) w.draft with
      | .ok v d => .ok v { w with draft := d }.tidy
      | .error f d => .error f { w with draft := d }.tidy := by
  have hmake : Bench.makeModel type { r with name := .none } = Bench.emit (makeUnnamed type r) := rfl
  rw [hmake]
  unfold Bench.emit run
  dsimp only
  cases makeUnnamed type r w.draft <;> rfl

theorem after_cases (w : Workbench) (call : String × NodeRequest) :
    Emit.Counts call.1 w.draft (w.after call).draft ∨
      ∃ n, AddsNode call.1 call.2.inputs (call.2.outputs.getD (.list [])) w.draft (w.after call).draft n := by
  unfold after
  rw [run_makeModel]
  rcases makeUnnamed_cases call.1 call.2 w.draft with ⟨f, d', h, hcounts⟩ | ⟨d', n, h, hadds⟩ <;> rw [h]
  · exact Or.inl hcounts
  · exact Or.inr ⟨n, hadds⟩

theorem count_le_after (w : Workbench) (call : String × NodeRequest) (t : String) :
    w.draft.count t ≤ (w.after call).draft.count t := by
  rcases w.after_cases call with h | ⟨n, h⟩
  · exact h.le t
  · exact h.counts t

/-- A call generates names of its own type only. -/
theorem count_after_other (w : Workbench) {call : String × NodeRequest} {t : String} (ht : t ≠ call.1) :
    (w.after call).draft.count t = w.draft.count t := by
  rcases w.after_cases call with h | ⟨n, h⟩
  · exact h.other t ht
  · exact h.other t ht

theorem tidy_after (h : w.draft.Tidy) (call : String × NodeRequest) : (w.after call).draft.Tidy := by
  rcases w.after_cases call with hcounts | ⟨n, hadds⟩
  · exact hcounts.tidy h
  · exact hadds.tidy h

theorem tidy_afterAll (h : w.draft.Tidy) (calls : List (String × NodeRequest)) :
    (calls.foldl after w).draft.Tidy :=
  List.foldlRecOn (motive := fun w => w.draft.Tidy) calls after h fun _ hw call _ => tidy_after hw call

/-- What is generated from a graph on has not been counted there. -/
theorem mem_generated {calls : List (String × NodeRequest)} {s : String} (h : s ∈ w.generated calls) :
    ∃ t k, s = numbered t k ∧ w.draft.count t ≤ k := by
  induction calls generalizing w with
  | nil => exact absurd h not_mem_nil
  | cons call calls ih =>
    rcases mem_append.1 h with h | h
    · obtain ⟨k, hk, hle, -⟩ := mem_numberedFrom.1 h
      exact ⟨_, k, hk, hle⟩
    · obtain ⟨t, k, hk, hle⟩ := ih h
      exact ⟨t, k, hk, (w.count_le_after call t).trans hle⟩

/-- **No name is generated twice.** -/
theorem nodup_generated (w : Workbench) (calls : List (String × NodeRequest)) :
    (w.generated calls).Nodup := by
  induction calls generalizing w with
  | nil => exact nodup_nil
  | cons call calls ih =>
    refine nodup_append.2 ⟨nodup_numberedFrom _ _ _, ih _, ?_⟩
    rintro s hs _ hlater rfl
    -- numbers of the first call have been counted when the second one starts
    obtain ⟨k, hk, -, hlt⟩ := mem_numberedFrom.1 hs
    obtain ⟨t, j, hj, hle⟩ := mem_generated hlater
    obtain ⟨rfl, rfl⟩ := numbered_inj.1 (hk.symm.trans hj)
    have hcounted := w.count_le_after call call.1
    omega

/-- **A call on a tidy graph appends.** -/
theorem appends_of_tidy (hw : w.draft.Tidy) (type : String) (r : NodeRequest)
    (hinner : Node.isInterface type = false) : w.Appends type r := by
  unfold Appends
  rw [run_makeModel]
  rcases makeUnnamed_cases type r w.draft with ⟨f, d', h, hcounts⟩ | ⟨d', n, h, hadds⟩ <;> rw [h]
  · change d'.nodes = w.draft.nodes
    rw [hcounts.frame]
  · obtain ⟨m, own, hcount, hown, hwrites⟩ := hadds.writes
    refine ⟨n, hadds.nodes_eq hw hinner, rfl, numberedFrom type (w.draft.count type + 1) m, own, ?_, hown,
      hwrites⟩
    have hgenerated : d'.count type - w.draft.count type = m + 1 := by omega
    change numberedFrom type (w.draft.count type) (d'.count type - w.draft.count type) = _
    rw [hgenerated, numberedFrom, range'_succ, map_cons, hadds.name_eq]
    rfl

end Workbench

/-! ## Models -/

/-- **A model node that stands for a node**, under whatever names its tensors have. -/
def Node.ShownAs (n : Node) (r : ModelNode) : Prop :=
  ∃ inputs outputs, r = { n.modelNode with inputs, outputs }

/-- **A model that lists the nodes of operators in turn**, behind its weights. -/
def Model.ListsInTurn (m : Model) (r : Registry) (exportType : ExportType) (ops : List OpNode) : Prop :=
  ∃ d₀ d nss records, d₀.nodes = [] ∧ Emit.MapsInTurn r exportType ops d₀ nss d ∧
    (nss.flatten.map Node.name).Nodup ∧ m.nodes = d.weights.map Prod.snd ++ records ∧
    List.Forall₂ Node.ShownAs nss.flatten records

theorem Renamer.shownAs_pass {s : Renamer} {ns : List Node} (h : (s.pass ns).2.failed = false) :
    List.Forall₂ Node.ShownAs ns ((s.pass ns).1.map Node.modelNode) := by
  induction ns generalizing s with
  | nil => exact .nil
  | cons n ns ih =>
    have hframe := node_frame (failed_of_failed_pass ns h)
    refine .cons ⟨(s.node n).1.inputs, (s.node n).1.outputs, ?_⟩ (ih h)
    rw [hframe]
    rfl

theorem listsInTurn_of_ok {composites : List (Value × Composite)} {o : ExportOptions} {g : SourceGraph}
    {s : Session} {m : Model} {d' : Draft} (hg : ∀ e ∈ g.nodes, e.2.Plain)
    (h : run (exportGraph (Registry.withComposites composites) o g) (s.draft o.opset) = .ok m d') :
    m.ListsInTurn (Registry.withComposites composites) o.exportType (g.nodes.map Prod.snd) := by
  have hbuilt : ∀ {b}, run (build (Registry.withComposites composites) o.exportType g)
      (s.draft o.opset) = .ok () b → BuiltInTurn (Registry.withComposites composites) o.exportType g
        (s.draft o.opset) b := builtInTurn_of_ok (Draft.tidy_empty _ _ _) hg
  obtain ⟨b, hbuild, htreated, rfl, -⟩ := exportGraph_of_kept (fun hbuild => (hbuilt hbuild).tidy.kept) h
  obtain ⟨d₀, nss, hstart, hturn⟩ := (hbuilt hbuild).turn
  have hnodes : b.nodes = NodeMap.ofNodes nss.flatten := by
    rw [hturn.nodes, hstart]
    rfl
  have hlist : b.nodes.map Prod.snd = nss.flatten := by
    rw [hnodes]
    exact NodeMap.map_snd_ofNodes _
  refine ⟨d₀, b, nss, b.renamed.1.map Node.modelNode, hstart, hturn, ?_, rfl, hlist ▸ Renamer.shownAs_pass htreated⟩
  have hnames := (hbuilt hbuild).tidy.kept.nodup
  rw [hnodes, Assoc.keys, NodeMap.ofNodes, map_map] at hnames
  exact hnames

def Program.squashed : Program :=
  { global :=
      { vars := [{ name := "x", shape := [2] }, { name := "y", shape := [2] }, { name := "z", shape := [2] }]
        ops := [{ type := "hard_swish", inputs := [("X", ["x"])], outputs := [("Out", ["y"])],
                  attrs := [("offset", .float 3), ("threshold", .float 6), ("scale", .float 6)] },
                { type := "relu", inputs := [("X", ["y"])], outputs := [("Out", ["z"])], attrs := [] }] } }

end ModelExport
