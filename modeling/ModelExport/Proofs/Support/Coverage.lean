import ModelExport.Proofs.Expansion
import ModelExport.Proofs.Support.Recommendation

/-!
# Proofs/Support/Coverage — what is mapped has been checked

Mapping an operator may expand it and map what it expands to, to any depth.  `MappedIn` lists the
operators that are mapped along the way, each with the draft that it is mapped in; every one of them
has passed the check before (`MappedIn.supports`).  But the check lets composites pass without a rule,
and an export that keeps composites looks for one: that is the only way in which an operator is
mapped that is neither expanded nor has a rule (`mapped_covered_iff`).
-/

namespace ModelExport

open List
open EStateM (run)

variable {v : Int} {x : Emit Unit} {c : Composite} {depth : Nat} {g : SourceGraph} {e : Draft}

namespace Emit

/-- **The steps that a loop comes to**, each with the draft it starts from. -/
inductive ReachedBy (f : OpNode → Emit Unit) : List OpNode → Draft → OpNode → Draft → Prop
  | here {op : OpNode} {ops : List OpNode} {d : Draft} : ReachedBy f (op :: ops) d op d
  | later {op o : OpNode} {ops : List OpNode} {d d₁ e : Draft} (hstep : run (f op) d = .ok () d₁)
      (h : ReachedBy f ops d₁ o e) : ReachedBy f (op :: ops) d o e

/-- **What is mapped when an operator is mapped**: itself, and what is mapped in its expansion. -/
inductive Calls (r : Registry) (exportType : ExportType) :
    Nat → OpNode → Draft → OpNode → Draft → Prop
  | self {depth : Nat} {op : OpNode} {d : Draft} : Calls r exportType depth op d op d
  | nested {depth : Nat} {op o op' : OpNode} {d d₁ d₂ e e' : Draft} {c : Composite} {g : SourceGraph}
      {w : Int} (hc : r.composite? (.str op.type) = some c) (hexpands : keepsComposites exportType = false)
      (hg : run (expand c op) d = .ok g d₁)
      (hcheck : run (checkSupport r g.types d₁.opset false) d₁ = .ok w d₂)
      (hreached : ReachedBy (mapUpTo r exportType depth) (g.nodes.map Prod.snd) d₂ o e)
      (h : Calls r exportType depth o e op' e') : Calls r exportType (depth + 1) op d op' e'

/-- **What is mapped when the operators of a graph are**, at any depth. -/
def MappedIn (r : Registry) (exportType : ExportType) (nodes : List OpNode) (d : Draft) (op : OpNode)
    (e : Draft) : Prop :=
  Succeeds (checkSupport r (nodes.map OpNode.type) d.opset false) d ∧
    ∃ o e₁, ReachedBy (mapNode r exportType) nodes d o e₁ ∧ Calls r exportType (depthOf r) o e₁ op e

/-- **What is mapped while a graph is built**, once a version has been chosen for it. -/
def BuildMaps (r : Registry) (exportType : ExportType) (g : SourceGraph) (d₀ : Draft) (version : Int)
    (op : OpNode) (e : Draft) : Prop :=
  ∃ d₁ d, run (chooseVersion r (g.nodes.map Prod.snd)) d₀ = .ok () d₁ ∧ d₁.opset = version ∧
    run (do addWeights g.weights; addInputs g.inputs; addOutputs g.outputs) d₁ = .ok () d ∧
    MappedIn r exportType (g.nodes.map Prod.snd) d op e

/-- **Expanded, or with a rule up to the version.** -/
def Covered (r : Registry) (exportType : ExportType) (version : Int) (op : OpNode) : Prop :=
  (r.isComposite op.type = true ∧ keepsComposites exportType = false) ∨ r.HasRule op.type version

/-! ## Loops -/

section Loops

variable {f : OpNode → Emit Unit} {op : OpNode} {ops : List OpNode} {d d' e : Draft}

theorem ReachedBy.mem (h : ReachedBy f ops d op e) : op ∈ ops := by
  induction h with
  | here => exact mem_cons_self
  | later _ _ ih => exact mem_cons_of_mem _ ih

theorem ReachedBy.keeps {α : Type} {p : Draft → α}
    (hf : ∀ op ∈ ops, ∀ {d d'}, run (f op) d = .ok () d' → p d' = p d)
    (h : ReachedBy f ops d op e) : p e = p d := by
  induction h with
  | here => rfl
  | later hstep _ ih =>
    obtain ⟨hop, hops⟩ := forall_mem_cons.1 hf
    rw [ih hops, hop hstep]

theorem forIn_keeps {α β : Type} {p : Draft → α} {k : β → Emit Unit} {xs : List β}
    (hk : ∀ b ∈ xs, ∀ {d d'}, run (k b) d = .ok () d' → p d' = p d)
    (h : run (do for b in xs do k b : Emit Unit) d = .ok () d') : p d' = p d := by
  induction xs generalizing d with
  | nil => rw [(pure_ok h).2]
  | cons b xs ih =>
    obtain ⟨hkb, hkxs⟩ := forall_mem_cons.1 hk
    simp only [forIn_cons, bind_assoc, pure_bind] at h
    obtain ⟨_, d₁, hb, hxs⟩ := bind_ok h
    rw [ih hkxs hxs, hkb hb]

theorem reachedBy_of_ok (h : run (do for op in ops do f op : Emit Unit) d = .ok () d')
    (hop : op ∈ ops) : ∃ e e', ReachedBy f ops d op e ∧ run (f op) e = .ok () e' := by
  induction ops generalizing d with
  | nil => exact absurd hop not_mem_nil
  | cons o ops ih =>
    simp only [forIn_cons, bind_assoc, pure_bind] at h
    obtain ⟨_, d₁, ho, hops⟩ := bind_ok h
    rcases mem_cons.1 hop with rfl | hop
    · exact ⟨d, d₁, .here, ho⟩
    · obtain ⟨e, e', hreached, hrun⟩ := ih hops hop
      exact ⟨e, e', .later ho hreached, hrun⟩

end Loops

end Emit

/-! ## Rules that leave the version alone -/

/-- **No rule that is found for an operator changes the version of the operator set.** -/
def Registry.KeepsVersion (r : Registry) : Prop :=
  ∀ (op : OpNode) [op.Plain] {version : Int} {rule : Rule} {d d' : Draft},
    r.ruleFor op.type version = .ok rule → run (rule op) d = .ok () d' → d'.opset = d.opset

/-- **The rules that come with the library leave the version alone.** -/
theorem Registry.keepsVersion_standard : Registry.standard.KeepsVersion :=
  fun op _ _ _ _ _ hrule h => ((maps_of_ruleFor hrule).grows op rfl).version h

namespace Emit

variable {r : Registry} {exportType : ExportType} {op : OpNode} {d d' : Draft}

theorem opset_ok (h : run opset d = .ok v d') : v = d.opset ∧ d' = d := by
  cases h
  exact ⟨rfl, rfl⟩

theorem seenFrom_ok (h : run (seenFrom op x) d = .ok () d') : run x d = .ok () d' :=
  Emits.tryCatch_ok (fun _ _ _ _ hthrow => by cases hthrow) h

theorem withoutEdits_ok (h : run (withoutEdits x) d = .ok () d') :
    ∃ d₁, run x d = .ok () d₁ ∧ d' = { d₁ with edits := [] } := by
  obtain ⟨_, d₁, hrun, hrest⟩ := bind_ok h
  obtain ⟨_, d₂, hforget, hpure⟩ := bind_ok hrest
  obtain ⟨-, rfl⟩ := pure_ok hpure
  exact ⟨d₁, Emits.tryCatch_ok (fun f => Emits.bind_throw_ne _ f) hrun, modify_ok hforget⟩

theorem mapNode_ok (h : run (mapNode r exportType op) d = .ok () d') :
    ∃ d₁, run (mapUpTo r exportType (depthOf r) op) d = .ok () d₁ ∧
      run (keepEdits op) d₁ = .ok () d' := by
  obtain ⟨_, d₁, hrun, hkeep⟩ := bind_ok h
  exact ⟨d₁, Emits.tryCatch_ok (fun f => Emits.bind_throw_ne _ f) hrun, hkeep⟩

/-- **An operator that is mapped by a rule**: it is no composite, or composites are kept. -/
def ByRule (r : Registry) (exportType : ExportType) (op : OpNode) : Prop :=
  r.isComposite op.type = true → keepsComposites exportType = true

theorem ByRule.not_expands (h : ByRule r exportType op) (hc : r.composite? (.str op.type) = some c) :
    keepsComposites exportType ≠ false := by
  rw [h (Option.isSome_iff_exists.2 ⟨c, hc⟩)]
  decide

theorem applyRule_ok (h : run (applyRule r op) d = .ok () d') :
    ∃ rule, r.ruleFor op.type d.opset = .ok rule ∧ run (rule op) d = .ok () d' := by
  obtain ⟨v, d₁, hv, hrest⟩ := bind_ok h
  obtain ⟨rfl, rfl⟩ := opset_ok hv
  obtain ⟨rule, hfind, hrule⟩ := computed_ok hrest
  exact ⟨rule, hfind, hrule⟩

theorem checked_ok {types : List String}
    (h : run (do discard <| checkSupport r types (← opset) false; x) d = .ok () d') :
    (∃ w, run (checkSupport r types d.opset false) d = .ok w d) ∧ run x d = .ok () d' := by
  obtain ⟨v, d₁, hv, hrest⟩ := bind_ok h
  obtain ⟨rfl, rfl⟩ := opset_ok hv
  obtain ⟨_, d₂, hdiscard, hx⟩ := bind_ok hrest
  rw [Emits.discard_eq] at hdiscard
  obtain ⟨w, d₃, hcheck, hpure⟩ := bind_ok hdiscard
  obtain ⟨-, rfl⟩ := pure_ok hpure
  obtain ⟨rfl, -⟩ := checkSupport_ok hcheck
  exact ⟨⟨w, hcheck⟩, hx⟩

theorem forIn_nodes (nodes : List (String × OpNode)) (f : OpNode → Emit Unit) :
    (do for e in nodes do f e.2 : Emit Unit) = (do for op in nodes.map Prod.snd do f op : Emit Unit) := by
  induction nodes with
  | nil => rfl
  | cons e nodes ih =>
    rw [map_cons, forIn_cons, forIn_cons]
    simp only [bind_assoc, pure_bind, ih]

/-- **The two ways in which mapping succeeds**: a rule is applied, or the operator is expanded and what
it expands to is mapped. -/
theorem mapUpTo_ok (h : run (mapUpTo r exportType (depth + 1) op) d = .ok () d') :
    (ByRule r exportType op ∧ run (applyRule r op) d = .ok () d') ∨
    ∃ c g w d₁ d₂, r.composite? (.str op.type) = some c ∧ keepsComposites exportType = false ∧
      run (expand c op) d = .ok g d₁ ∧
      run (checkSupport r g.types d₁.opset false) d₁ = .ok w d₁ ∧
      run (do for o in g.nodes.map Prod.snd do mapUpTo r exportType depth o : Emit Unit) d₁ =
        .ok () d₂ ∧ d' = { d₂ with edits := [] } := by
  have hrun := seenFrom_ok h
  split at hrun
  · rename_i c hc
    split at hrun
    · rename_i hkeeps
      exact Or.inl ⟨fun _ => hkeeps, hrun⟩
    · rename_i hexpands
      obtain ⟨d₂, hnested, rfl⟩ := withoutEdits_ok hrun
      obtain ⟨g, d₁, hg, hparts⟩ := bind_ok hnested
      obtain ⟨⟨w, hcheck⟩, hloop⟩ := checked_ok hparts
      rw [forIn_nodes] at hloop
      exact Or.inr ⟨c, g, w, d₁, d₂, hc, by simpa using hexpands, hg, hcheck, hloop, rfl⟩
  · rename_i hc
    refine Or.inl ⟨fun hcomposite => ?_, hrun⟩
    rw [Registry.isComposite, hc] at hcomposite
    cases hcomposite

theorem opset_expand (h : run (expand c op) d = .ok g d') : d'.opset = d.opset := by
  obtain ⟨stand, -, hrest⟩ := computed_ok h
  obtain ⟨scope, d₂, hscope, hgraph⟩ := bind_ok hrest
  have hopset : d₂.opset = d.opset := by cases hscope; rfl
  cases c with
  | recipe => cases hgraph
  | fragment f =>
    obtain ⟨-, rfl⟩ := fault_ok hgraph
    exact hopset

theorem plain_expand [op.Plain] (h : run (expand c op) d = .ok g d') : ∀ e ∈ g.nodes, e.2.Plain := by
  obtain ⟨stand, d₁, -, hrest⟩ := bind_ok h
  obtain ⟨scope, d₂, -, hgraph⟩ := bind_ok hrest
  cases c with
  | recipe => cases hgraph
  | fragment f => exact Fragment.plain_graph (fault_ok hgraph).1

theorem opset_applyRule (hr : r.KeepsVersion) [op.Plain]
    (h : run (applyRule r op) d = .ok () d') : d'.opset = d.opset := by
  obtain ⟨rule, hfind, hrule⟩ := applyRule_ok h
  exact hr op hfind hrule

theorem opset_mapUpTo (hr : r.KeepsVersion) (depth : Nat) {op : OpNode} [op.Plain] {d d' : Draft}
    (h : run (mapUpTo r exportType depth op) d = .ok () d') : d'.opset = d.opset := by
  induction depth generalizing op d d' with
  | zero => cases seenFrom_ok h
  | succ depth ih =>
    rcases mapUpTo_ok h with ⟨-, hrun⟩ | ⟨c, g, w, d₁, d₂, -, -, hg, -, hloop, rfl⟩
    · exact opset_applyRule hr hrun
    · have hparts : ∀ o ∈ g.nodes.map Prod.snd, ∀ {d d'},
          run (mapUpTo r exportType depth o) d = .ok () d' → d'.opset = d.opset :=
        fun o ho _ _ hrun =>
          have := forall_mem_map.2 (plain_expand hg) o ho
          ih hrun
      exact (forIn_keeps hparts hloop).trans (opset_expand hg)

theorem opset_mapNode (hr : r.KeepsVersion) [op.Plain]
    (h : run (mapNode r exportType op) d = .ok () d') : d'.opset = d.opset := by
  obtain ⟨d₁, hrun, hkeep⟩ := mapNode_ok h
  have hopset : d'.opset = d₁.opset := by
    rw [modify_ok hkeep]
    split <;> rfl
  rw [hopset, opset_mapUpTo hr _ hrun]

/-! ## What is mapped has been checked -/

/-- **Expansion by expansion, what is mapped is supported.** -/
theorem Calls.supports (hr : r.KeepsVersion) (hplain : op.Plain) {op' : OpNode}
    (h : Calls r exportType depth op d op' e) (hop : r.Supports d.opset op.type) :
    e.opset = d.opset ∧ r.Supports d.opset op'.type := by
  induction h with
  | self => exact ⟨rfl, hop⟩
  | nested hc hexpands hg hcheck hreached _ ih =>
    obtain ⟨rfl, hsupports⟩ := checkSupport_ok hcheck
    have hparts := forall_mem_map.2 (plain_expand hg)
    have hopset := hreached.keeps fun o ho _ _ h =>
      have := hparts o ho
      opset_mapUpTo hr _ h
    obtain ⟨x, hx, hxo⟩ := mem_map.1 hreached.mem
    have htype := hsupports _ (mem_map_of_mem (f := fun e => e.2.type) hx)
    rw [hxo] at htype
    obtain ⟨he, hop'⟩ := ih (hparts _ hreached.mem) (hopset ▸ htype)
    rw [hopset, opset_expand hg] at he hop'
    exact ⟨he, hop'⟩

theorem MappedIn.supports (hr : r.KeepsVersion) {nodes : List OpNode} (hplain : ∀ op ∈ nodes, op.Plain)
    (h : MappedIn r exportType nodes d op e) : e.opset = d.opset ∧ r.Supports d.opset op.type := by
  obtain ⟨⟨w, d₁, hcheck⟩, o, e₁, hreached, hcalls⟩ := h
  obtain ⟨rfl, hsupports⟩ := checkSupport_ok hcheck
  have hopset := hreached.keeps fun o ho _ _ h =>
    have := hplain o ho
    opset_mapNode hr h
  have ho := hsupports _ (mem_map_of_mem hreached.mem)
  obtain ⟨he, hop⟩ := hcalls.supports hr (hplain _ hreached.mem) (hopset ▸ ho)
  rw [hopset] at he hop
  exact ⟨he, hop⟩

theorem BuildMaps.supports (hr : r.KeepsVersion) {d₀ : Draft} {version : Int}
    (hplain : ∀ e ∈ g.nodes, e.2.Plain) (h : BuildMaps r exportType g d₀ version op e) :
    e.opset = version ∧ r.Supports version op.type := by
  obtain ⟨d₁, d, -, rfl, hparts, hmapped⟩ := h
  obtain ⟨_, d₂, hweights, hterminals⟩ := bind_ok hparts
  obtain ⟨_, d₃, hinputs, houtputs⟩ := bind_ok hterminals
  have hopset : d₂.opset = d₁.opset := by rw [(addWeights_ok hweights).1]
  obtain ⟨ins, rfl, -⟩ := addInputs_ok hinputs
  obtain ⟨outs, rfl, -⟩ := addOutputs_ok houtputs
  rw [← hopset]
  have hsupports := MappedIn.supports hr (forall_mem_map.2 hplain) hmapped
  exact hsupports

theorem ruleFor_of_not_hasRule {t : String} (hno : ¬ r.HasRule t v) (hnumbers : r.WellNumbered t) :
    r.ruleFor t v = .error .missingKey := by
  unfold Registry.ruleFor
  split
  · rfl
  · rename_i rules hrules
    have hvs : r.versions (.str t) = some (rules.map Prod.fst) := by rw [Registry.versions, hrules]; rfl
    split
    · rename_i x hx
      have hfound : x.1 = latestUpTo (rules.map Prod.fst) v := by simpa using find?_some hx
      have hmem : x.1 ∈ rules.map Prod.fst := mem_map_of_mem (mem_of_find?_eq_some hx)
      rcases latestUpTo_cases (rules.map Prod.fst) v with ⟨hnone, -⟩ | ⟨hin, hle⟩
      · have := (hnumbers _ hvs).2 _ hmem
        omega
      · exact absurd ⟨_, hvs, _, hin, hle⟩ hno
    · rfl

theorem run_mapUpTo_of_kept (hkeeps : keepsComposites exportType = true)
    (hcomposite : r.isComposite op.type = true) (hno : ¬ r.HasRule op.type d.opset)
    (hnumbers : r.WellNumbered op.type) :
    run (mapUpTo r exportType (depth + 1) op) d =
      .error (.mapping op.site (.slip .missingKey)) d := by
  obtain ⟨c, hc⟩ := Option.isSome_iff_exists.1 hcomposite
  have hrule : run (applyRule r op) d = .error (.slip .missingKey) d := by
    change run (do let rule ← (liftM (r.ruleFor op.type d.opset) : Emit Rule); rule op) d = _
    rw [ruleFor_of_not_hasRule hno hnumbers]
    rfl
  have hmap : mapUpTo r exportType (depth + 1) op = seenFrom op (applyRule r op) := by
    rw [mapUpTo]
    simp only [hc, hkeeps, if_true]
  rw [hmap]
  change EStateM.tryCatch _ _ _ = _
  unfold EStateM.tryCatch
  rw [show applyRule r op d = .error (.slip .missingKey) d from hrule]
  rfl

theorem covered_iff_of_supports (h : r.Supports v op.type) :
    Covered r exportType v op ↔ (keepsComposites exportType = true →
      r.isComposite op.type = true → r.HasRule op.type v) := by
  constructor
  · rintro (⟨-, hexpands⟩ | hrule) hkeeps _
    · exact absurd hexpands (by simp [hkeeps])
    · exact hrule
  · intro hkept
    rcases h with hcomposite | hrule
    · cases hkeeps : keepsComposites exportType with
      | false => exact Or.inl ⟨hcomposite, hkeeps⟩
      | true => exact Or.inr (hkept hkeeps hcomposite)
    · exact Or.inr hrule

theorem run_mapUpTo_of_not_covered (h : r.Supports d.opset op.type)
    (hno : ¬ Covered r exportType d.opset op) (hnumbers : r.WellNumbered op.type) (depth : Nat) :
    run (mapUpTo r exportType (depth + 1) op) d =
      .error (.mapping op.site (.slip .missingKey)) d := by
  obtain ⟨hkeeps, hcomposite, hrule⟩ : keepsComposites exportType = true ∧
      r.isComposite op.type = true ∧ ¬ r.HasRule op.type d.opset := by
    simpa [covered_iff_of_supports h] using hno
  exact run_mapUpTo_of_kept hkeeps hcomposite hrule hnumbers

end Emit

open Emit

/-- **What is mapped has passed the check, and yet may have no rule.**  Once a version has been chosen
for the graph of a program, every operator that is mapped, in the graph or in an expansion at any
depth, is expanded or has a rule up to that version, unless composites are kept and it is a composite
without such a rule; then its mapping fails on the missing rule. -/
theorem mapped_covered_iff (r : Registry) (hrules : r.KeepsVersion) (exportType : ExportType)
    (p : Program) (weights : List (String × Weight)) (inputs outputs : List Terminal) {d₀ e : Draft}
    {version : Int} {op : OpNode}
    (h : BuildMaps r exportType (.build p weights inputs outputs) d₀ version op e) :
    (Covered r exportType version op ↔ (keepsComposites exportType = true →
      r.isComposite op.type = true → r.HasRule op.type version)) ∧
    (¬ Covered r exportType version op → r.WellNumbered op.type → ∀ depth,
      EStateM.run (mapUpTo r exportType (depth + 1) op) e =
        .error (.mapping op.site (.slip .missingKey)) e) := by
  have hplain := (SourceGraph.lists_build p weights inputs outputs).plain
  obtain ⟨rfl, hsupports⟩ := h.supports hrules hplain
  exact ⟨covered_iff_of_supports hsupports, run_mapUpTo_of_not_covered hsupports⟩

def Registry.unruled : Registry where
  rules := []
  composites := [(.str "probe", .fragment { vars := [], ops := [], results := [] })]

def Program.probing : Program where
  global := { vars := [], ops := [⟨"probe", [], [], []⟩] }

def OpNode.probing : OpNode :=
  SourceGraph.nodeOf Program.probing.global "probe_0" ⟨"probe", [], [], []⟩

theorem mapped_covered_iff_unruled :
    ∃ e, BuildMaps .unruled (.str "PaddleFallback") (.build .probing [] [] []) { opset := 9 } 9
        .probing e ∧
      ¬ Covered .unruled (.str "PaddleFallback") 9 .probing ∧
      EStateM.run (mapUpTo .unruled (.str "PaddleFallback") 2 .probing) e =
        .error (.mapping OpNode.probing.site (.slip .missingKey)) e := by
  let e : Draft := { opset := 9, expansions := [("probe", 1)] }
  have hmaps : BuildMaps .unruled (.str "PaddleFallback") (.build .probing [] [] []) { opset := 9 } 9
      .probing e := by
    refine ⟨e, e, ?_, rfl, rfl, ?_, _, _, .here, .self⟩
    · cbv
    · exact ⟨9, e, by cbv⟩
  have hrules : Registry.unruled.KeepsVersion := fun _ _ _ _ _ _ hrule => by cases hrule
  have hno : ¬ Covered .unruled (.str "PaddleFallback") 9 .probing := by
    rintro (⟨-, hexpands⟩ | ⟨vs, hvs, -⟩)
    · exact absurd hexpands (by decide)
    · cases hvs
  exact ⟨e, hmaps, hno,
    (mapped_covered_iff .unruled hrules _ .probing [] [] [] hmaps).2 hno (by decide +kernel) 1⟩

end ModelExport
