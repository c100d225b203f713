import ModelExport.Conversion
import ModelExport.Proofs.Emission.Mapping
import ModelExport.Proofs.Renaming.Meaning

/-!
# Proofs/Conversion — from a program to a model, stage by stage

A conversion that succeeds has made a source graph, mapped it, renamed what is written in place, and
put the model together (`Exports`).  The source graph lists the operations of all blocks in order
(`SourceGraph.lists_build`); the model lists the weights and then the nodes of the draft
(`accesses_model`).
-/

namespace ModelExport

open Emit List

variable {d d' : Draft} {c : Conversion} {m : Model}

/-! ## Source graphs -/

/-- The operations of a program, those of its interface apart. -/
def Program.operations (p : Program) : List Operation :=
  p.blocks.flatMap fun b => b.ops.filter fun op => !op.isInterface

namespace SourceGraph

/-- **A graph that lists operations**: a node for each, in order, under a generated name; nothing
else of `g₀` has changed. -/
structure Lists (g₀ : SourceGraph) (ops : List Operation) (g : SourceGraph) : Prop where
  nodes : List.Forall₂ (fun op e => ∃ b name, e.2 = nodeOf b name op) ops g.nodes
  numbered : ∀ e ∈ g.nodes, ∃ type k, e.1 = numbered type k ∧ k < (Assoc.get? g.counts type).getD 0
  inputs : g.inputs = g₀.inputs
  outputs : g.outputs = g₀.outputs
  weights : g.weights = g₀.weights

variable {g₀ g : SourceGraph} {ops : List Operation}

theorem addOperation_eq (h : Lists g₀ ops g) (b : Block) {op : Operation}
    (hop : op.isInterface = false) :
    let k := (Assoc.get? g.counts op.type).getD 0
    let name := ModelExport.numbered op.type k
    addOperation b g op =
      { g with nodes := g.nodes ++ [(name, nodeOf b name op)],
               counts := Assoc.insert g.counts op.type (k + 1) } := by
  intro k name
  have hnew : ¬ Assoc.contains g.nodes name = true := by
    rw [Assoc.contains_iff_mem_keys]
    intro hmem
    obtain ⟨e, he, hname⟩ := mem_map.1 hmem
    obtain ⟨type, j, hj, hlt⟩ := h.numbered e he
    obtain ⟨rfl, rfl⟩ := numbered_inj.1 (hj.symm.trans hname)
    exact Nat.lt_irrefl _ hlt
  have hinner : ¬ Node.isInterface op.type = true := by simpa [Operation.isInterface] using hop
  have hinsert : Assoc.insert g.nodes name (nodeOf b name op) =
      g.nodes ++ [(name, nodeOf b name op)] := if_neg hnew
  have hnode : g.insert (nodeOf b name op) =
      { g with nodes := Assoc.insert g.nodes name (nodeOf b name op) } := if_neg hinner
  have hadd : addOperation b g op = { g.insert (nodeOf b name op) with
      counts := Assoc.insert g.counts op.type (k + 1) } := if_neg hinner
  rw [hadd, hnode, hinsert]

/-- **One more operation**: its name is new, so its node goes to the end. -/
theorem Lists.addOperation (h : Lists g₀ ops g) (b : Block) (op : Operation) :
    Lists g₀ (ops ++ [op].filter fun op => !op.isInterface) (addOperation b g op) := by
  cases hop : op.isInterface with
  | true =>
    have hsame : SourceGraph.addOperation b g op = g := if_pos hop
    simpa [hop, hsame] using h
  | false =>
    rw [addOperation_eq h b hop]
    have hcounts : ∀ t, (Assoc.get? g.counts t).getD 0 ≤ (Assoc.get? (Assoc.insert g.counts op.type
        ((Assoc.get? g.counts op.type).getD 0 + 1)) t).getD 0 := fun t => by
      rw [Assoc.get?_insert]
      split
      · rename_i ht
        rw [ht]
        exact Nat.le_succ _
      · exact le_rfl
    refine ⟨?_, fun e he => ?_, h.inputs, h.outputs, h.weights⟩
    · rw [filter_cons_of_pos (by simp [hop]), filter_nil]
      exact rel_append h.nodes (.cons ⟨b, _, rfl⟩ .nil)
    · rcases mem_append.1 he with he | he
      · obtain ⟨type, j, hj, hlt⟩ := h.numbered e he
        exact ⟨type, j, hj, hlt.trans_le (hcounts type)⟩
      · rw [mem_singleton.1 he]
        refine ⟨op.type, _, rfl, ?_⟩
        simp [Assoc.get?_insert]

theorem Lists.addOperations (h : Lists g₀ ops g) (b : Block) (more : List Operation) :
    Lists g₀ (ops ++ more.filter fun op => !op.isInterface)
      (more.foldl (SourceGraph.addOperation b) g) := by
  induction more generalizing ops g with
  | nil => simpa using h
  | cons op more ih =>
    have := ih (h.addOperation b op)
    rwa [append_assoc, ← filter_append] at this

theorem Lists.addBlocks (h : Lists g₀ ops g) (bs : List Block) :
    Lists g₀ (ops ++ bs.flatMap fun b => b.ops.filter fun op => !op.isInterface)
      (bs.foldl (fun g b => b.ops.foldl (SourceGraph.addOperation b) g) g) := by
  induction bs generalizing ops g with
  | nil => simpa using h
  | cons b bs ih =>
    have := ih (h.addOperations b b.ops)
    rwa [append_assoc] at this

/-- **The graph of a program lists its operations.** -/
theorem lists_build (p : Program) (weights : List (String × Weight)) (inputs outputs : List Terminal) :
    Lists { empty with inputs, outputs, weights } p.operations (build p weights inputs outputs) := by
  have hempty : Lists { empty with inputs, outputs, weights } [] { empty with inputs, outputs, weights } :=
    ⟨.nil, fun _ he => absurd he not_mem_nil, rfl, rfl, rfl⟩
  exact hempty.addBlocks p.blocks

instance plain_nodeOf (b : Block) (name : String) (op : Operation) : (nodeOf b name op).Plain :=
  ⟨fun _ hs => by obtain ⟨t, -, rfl⟩ := mem_map.1 hs; exact ⟨_, rfl⟩⟩

theorem Lists.plain (h : Lists g₀ ops g) : ∀ e ∈ g.nodes, e.2.Plain := by
  have hnodes := h.nodes
  clear h
  generalize g.nodes = nodes at hnodes ⊢
  induction hnodes with
  | nil => exact fun _ he => absurd he not_mem_nil
  | cons hop _ ih =>
    obtain ⟨b, name, hop⟩ := hop
    exact forall_mem_cons.2 ⟨hop ▸ plain_nodeOf b name _, ih⟩

theorem Lists.flatMap {α : Type} (h : Lists g₀ ops g) {f : OpNode → List α}
    {k : Operation → List α} (hf : ∀ b name op, f (nodeOf b name op) = k op) :
    (g.nodes.map Prod.snd).flatMap f = ops.flatMap k := by
  have hnodes := h.nodes
  clear h
  generalize g.nodes = nodes at hnodes ⊢
  induction hnodes with
  | nil => rfl
  | cons hop _ ih =>
    obtain ⟨b, name, hop⟩ := hop
    rw [map_cons, flatMap_cons, ih, hop, hf, flatMap_cons]

end SourceGraph

theorem Conversion.graph_ok {g : SourceGraph} (h : c.graph = .ok g) :
    ∃ p weights inputs outputs, c.program = .program p ∧
      SourceGraph.weightsOf p.global.vars = .ok weights ∧
      g = SourceGraph.build p weights inputs outputs := by
  unfold graph at h
  split at h
  · cases h
  · rename_i p hp
    obtain ⟨feeds, -, h₁⟩ := except_bind_ok h
    obtain ⟨fetches, -, h₂⟩ := except_bind_ok h₁
    split at h₂
    · rename_i g' hg
      obtain rfl := Except.ok.inj h₂
      obtain ⟨weights, hweights, h₃⟩ := except_bind_ok hg
      obtain ⟨names, -, h₄⟩ := except_bind_ok h₃
      obtain ⟨inputs, -, h₅⟩ := except_bind_ok h₄
      obtain ⟨outputs, -, h₆⟩ := except_bind_ok h₅
      exact ⟨p, weights, inputs, _, hp, hweights, (Except.ok.inj h₆).symm⟩
    · cases h₂

/-! ## Models -/

theorem Node.access_record {n : Node} (hrec : n.Recordable) (h : n.renewed = n) :
    ∃ r, n.record = some r ∧ r.access = n.access := by
  obtain ⟨r, hr⟩ := Node.ownRecord_of_recordable hrec
  refine ⟨r, by rw [← h, Node.renewed, hr]; rfl, ?_⟩
  unfold Node.ownRecord Node.recordOf at hr
  split at hr
  · rw [← Except.ok.inj hr]
    rfl
  · split at hr
    · cases hr
    · rw [← Except.ok.inj hr]
      rfl

/-- What the nodes of a model read and write. -/
def Model.accesses (m : Model) : List Access := m.nodes.map ModelNode.access

/-- **The model of a draft** has its weights, and then its nodes. -/
theorem accesses_model (h : EStateM.run model d = .ok m d')
    (hnodes : ∀ e ∈ d.nodes, e.2.Recordable ∧ e.2.renewed = e.2) :
    m.accesses = (d.weights.map fun e => e.2.access) ++ d.nodes.map fun e => e.2.access := by
  obtain rfl : _ = m := (EStateM.Result.ok.inj h).1
  rw [Model.accesses, map_append, map_map]
  refine congrArg _ ?_
  generalize d.nodes = nodes at hnodes ⊢
  induction nodes with
  | nil => rfl
  | cons e nodes ih =>
    obtain ⟨he, hnodes⟩ := forall_mem_cons.1 hnodes
    obtain ⟨r, hr, haccess⟩ := Node.access_record he.1 he.2
    rw [filterMap_cons, hr, map_cons, map_cons, haccess, ih hnodes]

def Draft.renameCount (d : Draft) (x : String) : Nat := (Assoc.get? d.renames x).getD 0

/-- **A name that renaming hands out** from one draft to another. -/
def Draft.HandsOut (d d' : Draft) (y : String) : Prop :=
  ∃ x k, y = Renamer.successor x k ∧ d.renameCount x < k ∧ k ≤ d'.renameCount x

/-- What has been counted is in the table. -/
theorem mem_keys_of_lt_count {t : NameCounts} {x : String} {k : Nat}
    (h : k < (Assoc.get? t x).getD 0) : x ∈ Assoc.keys t := by
  by_contra hno
  rw [← Assoc.contains_iff_mem_keys, Bool.not_eq_true, ← Assoc.get?_eq_none_iff] at hno
  rw [hno] at h
  exact absurd h (Nat.not_lt_zero k)

instance (d d' : Draft) (y : String) : Decidable (d.HandsOut d' y) :=
  decidable_of_iff (∃ x ∈ Assoc.keys d'.renames, ∃ k ≤ d'.renameCount x,
      y = Renamer.successor x k ∧ d.renameCount x < k) <| by
    constructor
    · rintro ⟨x, -, k, hhigh, hy, hlow⟩
      exact ⟨x, k, hy, hlow, hhigh⟩
    · rintro ⟨x, k, hy, hlow, hhigh⟩
      exact ⟨x, mem_keys_of_lt_count ((Nat.zero_le _).trans_lt (hlow.trans_le hhigh)), k, hhigh, hy, hlow⟩

/-! ## Stages -/

namespace Emit

theorem runPasses_ok {u : Unit} (h : EStateM.run (runPasses .model [.str "inplace_node_pass"]) d = .ok u d') :
    EStateM.run (renameInPlace .model) d = .ok () d' := by
  obtain ⟨_, d₁, hpass, h₁⟩ := bind_ok h
  obtain ⟨-, rfl⟩ := pure_ok h₁
  exact Emits.tryCatch_ok (fun _ _ _ _ h => by cases h) hpass

theorem checkedModel_ok {checker : Value} {fails : Bool}
    (h : EStateM.run (checkedModel checker fails) d = .ok m d') :
    EStateM.run model d = .ok m d ∧ ∃ notices, d' = { d with notices } := by
  obtain ⟨m', d₁, hmodel, h₁⟩ := bind_ok h
  obtain rfl : d = d₁ := (EStateM.Result.ok.inj hmodel).2
  split at h₁
  · obtain ⟨_, d₂, hcheck, h₂⟩ := bind_ok h₁
    obtain ⟨rfl, rfl⟩ := pure_ok h₂
    obtain ⟨_, d₃, hsay, h₃⟩ := bind_ok hcheck
    obtain rfl := modify_ok hsay
    split at h₃
    · cases h₃
    · obtain ⟨-, rfl⟩ := pure_ok h₃
      exact ⟨hmodel, _, rfl⟩
  · obtain ⟨rfl, rfl⟩ := pure_ok h₁
    exact ⟨hmodel, _, rfl⟩

/-- **The stages of an export that succeeds.** -/
theorem exportGraph_ok {r : Registry} {o : ExportOptions} {g : SourceGraph}
    (h : EStateM.run (exportGraph r o g) d = .ok m d') :
    ∃ d₁ d₂, EStateM.run (build r o.exportType g) d = .ok () d₁ ∧
      EStateM.run (renameInPlace .model) d₁ = .ok () d₂ ∧ EStateM.run model d₂ = .ok m d₂ ∧
      ∃ notices, d' = { d₂ with notices } := by
  obtain ⟨_, d₁, hbuild, h₁⟩ := bind_ok h
  obtain ⟨_, d₂, hpasses, h₂⟩ := bind_ok h₁
  obtain ⟨hmodel, notices, rfl⟩ := checkedModel_ok h₂
  exact ⟨d₁, d₂, hbuild, runPasses_ok hpasses, hmodel, notices, rfl⟩

/-- **The stages of a conversion that succeeds.** -/
theorem convert_ok {r : Registry} {product : Product} (h : EStateM.run (convert r c) d = .ok product d') :
    ∃ g d₁ d₂, c.graph = .ok g ∧ EStateM.run (build r c.options.exportType g) d = .ok () d₁ ∧
      EStateM.run (renameInPlace .model) d₁ = .ok () d₂ ∧
      EStateM.run model d₂ = .ok product.theModel d₂ ∧ ∃ notices, d' = { d₂ with notices } := by
  obtain ⟨g, hg, h₁⟩ := granted_ok h
  obtain ⟨m, d₁, hexport, h₂⟩ := bind_ok h₁
  obtain ⟨d₂, d₃, hbuild, hrename, hmodel, notices, rfl⟩ := exportGraph_ok hexport
  refine ⟨g, d₂, d₃, hg, hbuild, hrename, ?_⟩
  split at h₂
  · obtain ⟨rfl, rfl⟩ := pure_ok h₂
    exact ⟨hmodel, _, rfl⟩
  · obtain ⟨file, d₄, hsave, h₅⟩ := bind_ok h₂
    obtain ⟨rfl, rfl⟩ := pure_ok h₅
    obtain ⟨place, -, h₆⟩ := computed_ok hsave
    obtain ⟨_, d₆, hsay, h₇⟩ := bind_ok h₆
    obtain rfl := modify_ok hsay
    obtain ⟨-, rfl⟩ := pure_ok h₇
    exact ⟨hmodel, _, rfl⟩

end Emit

/-- What is known when the renaming of a draft starts. -/
def Draft.renamer (d : Draft) : Renamer := { names := [], counts := d.renames }

def Draft.renamed (d : Draft) : List Node × Renamer := d.renamer.pass (d.nodes.map Prod.snd)

/-- Renaming leaves attributes alone. -/
theorem NodeMap.Kept.recordable_renamed (hk : d.nodes.Kept) (hok : d.renamed.2.failed = false) {n' : Node}
    (hn' : n' ∈ d.renamed.1) : n'.Recordable := by
  obtain ⟨i, hi⟩ := mem_iff_getElem?.1 hn'
  obtain ⟨n, hn, -⟩ := Option.map_eq_some_iff.1 ((Renamer.getElem?_pass _ _ i).symm.trans hi)
  obtain ⟨e, he, rfl⟩ := mem_map.1 (mem_of_getElem? hn)
  rw [Renamer.frame_pass hok hn hi]
  exact hk.recordable e he

theorem Batch.Leads.nodes_eq {b : Batch} {V : List Value} (h : b.Leads V d d') (hd : d.nodes = []) :
    d'.nodes.map Prod.snd = b.nodes := by
  rw [h.nodes, hd]
  exact NodeMap.map_snd_ofNodes b.nodes

/-- **What a conversion has done** that started at `d₀`, mapped the graph `g` to `d₁`, and ended at `d`
with the model `m`. -/
structure Exports (c : Conversion) (d₀ : Draft) (g : SourceGraph) (d₁ d : Draft) (m : Model) :
    Prop where
  graph : c.graph = .ok g
  build : EStateM.run (Emit.build Registry.standard c.options.exportType g) d₀ = .ok () d₁
  built : Built g d₀ d₁
  named : Named (d₁.nodes.map Prod.snd)
  treated : d₁.renamed.2.failed = false
  accesses : m.accesses =
    (d₁.weights.map fun e => e.2.access) ++ d₁.renamed.1.map Node.access
  inputs : m.inputs = d₁.inputs
  outputs : m.outputs = d₁.outputs
  counts : d.counts = d₁.counts
  renames : d.renames = d₁.renamed.2.counts

theorem Session.exports (s : Session) {product : Product}
    (h : EStateM.run (Emit.convert Registry.standard c) (s.draft c.options.opset) = .ok product d) :
    ∃ g d₁, Exports c (s.draft c.options.opset) g d₁ d product.theModel := by
  obtain ⟨g, d₁, d₂, hg, hbuild, hrename, hmodel, notices, rfl⟩ := convert_ok h
  obtain ⟨p, weights, inputs, outputs, -, -, rfl⟩ := Conversion.graph_ok hg
  have hplain := (SourceGraph.lists_build p weights inputs outputs).plain
  have hbuilt := build_ok (Draft.tidy_empty _ _ _) hplain hbuild
  obtain ⟨htreated, hd₂⟩ := Emit.renameInPlace_ok hbuilt.tidy.kept hrename
  obtain rfl : d₂ = d₁.withNodes (NodeMap.ofNodes (d₁.renamed.1.map Node.renewed)) d₁.renamed.2 := hd₂
  have hm := (EStateM.Result.ok.inj hmodel).1
  refine ⟨_, d₁, hg, hbuild, hbuilt, ⟨?_, ?_⟩, htreated, ?_, hm ▸ rfl, hm ▸ rfl, rfl, rfl⟩
  · intro n hn
    obtain ⟨i, hi⟩ := mem_iff_getElem?.1 hn
    exact (Renamer.node_cases (Renamer.failed_at htreated hi)).1
  · obtain ⟨b, hb⟩ := hbuilt.adds
    rw [hb.nodes_eq rfl]
    exact hb.text_outputs fun v hv => SourceGraph.text_names hplain hv
  · refine (accesses_model hmodel ?_).trans (congrArg _ ?_)
    · intro e he
      obtain ⟨_, hrenewed, rfl⟩ := mem_map.1 he
      obtain ⟨n, hn, rfl⟩ := mem_map.1 hrenewed
      have hrec : n.Recordable := hbuilt.tidy.kept.recordable_renamed htreated hn
      exact ⟨hrec, rfl⟩
    · simp [Draft.withNodes, NodeMap.ofNodes, Function.comp_def, Node.access, Node.renewed]

end ModelExport
