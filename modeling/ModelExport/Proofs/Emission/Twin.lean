import ModelExport.Proofs.Emission.Growth

/-!
# Proofs/Emission/Twin — two runs side by side

What a rule adds to a draft depends on the version and on the names made so far, and on nothing else of
the draft.  `Abreast d e` says that two drafts agree in that; `Twin S x y` says that runs of `x` and
`y` from such drafts give the same, add nodes of the same number, and that they are the same nodes
exactly if `S`.
-/

namespace ModelExport

open Emit List
open EStateM (run)

variable {d d' : Draft} {type : String} {domain inputs outputs : Value} {attrs : Attrs}

/-! ## Drafts side by side -/

/-- **Drafts that rules cannot tell apart**, whatever nodes they have. -/
structure Abreast (d e : Draft) : Prop where
  tidy : d.Tidy ∧ e.Tidy
  opset : d.opset = e.opset
  counts : d.counts = e.counts
  domains : d.domains = e.domains
  weights : d.weights = e.weights
  terminals : d.inputs = e.inputs ∧ d.outputs = e.outputs

theorem Abreast.with_terminals {e : Draft} (h : Abreast d e) {ins ins' outs outs' : List ValueInfo}
    (hterminals : ins = ins' ∧ outs = outs') :
    Abreast { d with inputs := ins, outputs := outs } { e with inputs := ins', outputs := outs' } :=
  ⟨⟨h.tidy.1.congr rfl rfl rfl, h.tidy.2.congr rfl rfl rfl⟩, h.opset, h.counts, h.domains, h.weights,
    hterminals⟩

/-- What a step of mapping leaves alone. -/
structure Spares (d d' : Draft) : Prop where
  opset : d'.opset = d.opset
  edits : d'.edits = d.edits
  kept : d'.kept = d.kept
  renames : d'.renames = d.renames

theorem Spares.refl (d : Draft) : Spares d d := ⟨rfl, rfl, rfl, rfl⟩

theorem Spares.trans {d'' : Draft} (h₁ : Spares d d') (h₂ : Spares d' d'') : Spares d d'' :=
  ⟨h₂.opset.trans h₁.opset, h₂.edits.trans h₁.edits, h₂.kept.trans h₁.kept,
    h₂.renames.trans h₁.renames⟩

/-- What a record holds under attributes. -/
def payloadOf (type name : String) (attrs : Attrs) : List (String × Payload) :=
  if Node.isConstant type then [("value", .tensor (Node.tensorOf name attrs))]
  else attrs.map fun a => (a.1, .plain a.2)

/-- **What a node holds**: its attributes as they stand in its record. -/
def Node.payload (n : Node) : List (String × Payload) := payloadOf n.type n.name n.attrs

/-- **Lists of nodes that are the same if and only if `S`**, and tell by what they hold when not. -/
structure Alike (S : Prop) (ns ms : List Node) : Prop where
  length : ns.length = ms.length
  same : S → ns = ms
  told : ns.map Node.payload = ms.map Node.payload → S

namespace Alike

variable {S T : Prop} {ns ms ns' ms' : List Node}

theorem rfl_of (hS : S) (ns : List Node) : Alike S ns ns := ⟨rfl, fun _ => rfl, fun _ => hS⟩

theorem append (h : Alike S ns ms) (h' : Alike T ns' ms') : Alike (S ∧ T) (ns ++ ns') (ms ++ ms') where
  length := by rw [length_append, length_append, h.length, h'.length]
  same := fun ⟨hS, hT⟩ => by rw [h.same hS, h'.same hT]
  told := fun heq => by
    rw [map_append, map_append] at heq
    obtain ⟨hfirst, hsecond⟩ := append_inj heq (by simp [h.length])
    exact ⟨h.told hfirst, h'.told hsecond⟩

theorem congr (h : Alike S ns ms) (hST : S ↔ T) : Alike T ns ms :=
  ⟨h.length, fun hT => h.same (hST.2 hT), fun heq => hST.1 (h.told heq)⟩

end Alike

/-- **A step of two runs**: drafts stay side by side, and the nodes that are added are the same ones
if and only if `S`. -/
structure Progress (S : Prop) (d d' e e' : Draft) : Prop where
  abreast : Abreast d' e'
  left : Spares d d'
  right : Spares e e'
  adds : ∃ ns ms, d'.nodes = d.nodes ++ NodeMap.ofNodes ns ∧ e'.nodes = e.nodes ++ NodeMap.ofNodes ms ∧
    Alike S ns ms

namespace Progress

variable {S T : Prop} {d d' d'' e e' e'' : Draft}

theorem of_quiet (habreast : Abreast d' e') (hleft : Spares d d') (hright : Spares e e')
    (hd : d'.nodes = d.nodes) (he : e'.nodes = e.nodes) : Progress True d d' e e' :=
  ⟨habreast, hleft, hright, [], [], hd.trans (append_nil _).symm, he.trans (append_nil _).symm,
    .rfl_of trivial []⟩

theorem refl (h : Abreast d e) : Progress True d d e e := of_quiet h (.refl d) (.refl e) rfl rfl

theorem trans (h₁ : Progress S d d' e e') (h₂ : Progress T d' d'' e' e'') :
    Progress (S ∧ T) d d'' e e'' := by
  obtain ⟨ns, ms, hns, hms, halike⟩ := h₁.adds
  obtain ⟨ns', ms', hns', hms', halike'⟩ := h₂.adds
  refine ⟨h₂.abreast, h₁.left.trans h₂.left, h₁.right.trans h₂.right, ns ++ ns', ms ++ ms', ?_, ?_,
    halike.append halike'⟩
  · rw [hns', hns, NodeMap.ofNodes, NodeMap.ofNodes, NodeMap.ofNodes, map_append,
      append_assoc]
  · rw [hms', hms, NodeMap.ofNodes, NodeMap.ofNodes, NodeMap.ofNodes, map_append,
      append_assoc]

theorem congr (h : Progress S d d' e e') (hST : S ↔ T) : Progress T d d' e e' := by
  obtain ⟨ns, ms, hns, hms, halike⟩ := h.adds
  exact ⟨h.abreast, h.left, h.right, ns, ms, hns, hms, halike.congr hST⟩

end Progress

/-! ## Computations side by side -/

/-- **A step that changes nothing that rules look at**, and gives back what depends on the version at
most. -/
structure Silent {α : Type} (x : Emit α) : Prop where
  frame : ∀ {d e d' e' : Draft} {a b : α}, d.opset = e.opset → run x d = .ok a d' →
    run x e = .ok b e' → a = b ∧ (∃ notices, d' = { d with notices }) ∧
      ∃ notices, e' = { e with notices }

theorem Silent.pure {α : Type} (a : α) : Silent (Pure.pure a : Emit α) where
  frame _ hx hy := by
    obtain ⟨rfl, rfl⟩ := pure_ok hx
    obtain ⟨rfl, rfl⟩ := pure_ok hy
    exact ⟨rfl, ⟨_, rfl⟩, _, rfl⟩

/-- **Computations that add the same if and only if `S`.** -/
structure Twin (S : Prop) {α : Type} (x y : Emit α) : Prop where
  progress : ∀ {d d' e e' : Draft} {a b : α}, Abreast d e → run x d = .ok a d' →
    run y e = .ok b e' → a = b ∧ Progress S d d' e e'

namespace Twin

variable {α β : Type} {S T : Prop}

theorem congr {x y : Emit α} (h : Twin S x y) (hST : S ↔ T) : Twin T x y :=
  ⟨fun hde hx hy => (h.progress hde hx hy).imp_right fun hstep => hstep.congr hST⟩

/-! ## Steps -/

theorem of_failing {x y : Emit α} (h : ∀ {d d' : Draft} {a : α}, run x d ≠ .ok a d') :
    Twin S x y :=
  ⟨fun _ hx _ => absurd hx h⟩

theorem of_silent {x : Emit α} (h : Silent x) : Twin True x x where
  progress hde hx hy := by
    obtain ⟨hab, ⟨ns, rfl⟩, ms, rfl⟩ := h.frame hde.opset hx hy
    exact ⟨hab, .of_quiet ⟨⟨hde.tidy.1.congr rfl rfl rfl, hde.tidy.2.congr rfl rfl rfl⟩, hde.opset,
      hde.counts, hde.domains, hde.weights, hde.terminals⟩ ⟨rfl, rfl, rfl, rfl⟩ ⟨rfl, rfl, rfl, rfl⟩ rfl rfl⟩

theorem pure (a : α) : Twin True (Pure.pure a : Emit α) (Pure.pure a) := of_silent (.pure a)

theorem modify {f : Draft → Draft} (hf : ∀ {d e}, Abreast d e → Abreast (f d) (f e))
    (hspares : ∀ d, Spares d (f d)) (hnodes : ∀ d, (f d).nodes = d.nodes) :
    Twin True (modify f : Emit PUnit) (modify f) where
  progress hde hx hy := by
    obtain rfl := modify_ok hx
    obtain rfl := modify_ok hy
    exact ⟨rfl, .of_quiet (hf hde) (hspares _) (hspares _) (hnodes _) (hnodes _)⟩

/-! ## Sequences -/

theorem bind {x y : Emit α} {f g : α → Emit β} (hxy : Twin S x y)
    (hfg : ∀ a, Twin T (f a) (g a)) : Twin (S ∧ T) (x >>= f) (y >>= g) where
  progress hde hx hy := by
    obtain ⟨a₁, d₁, hx₁, hf⟩ := bind_ok hx
    obtain ⟨b₁, e₁, hy₁, hg⟩ := bind_ok hy
    obtain ⟨rfl, hfirst⟩ := hxy.progress hde hx₁ hy₁
    obtain ⟨rfl, hsecond⟩ := (hfg a₁).progress hfirst.abreast hf hg
    exact ⟨rfl, hfirst.trans hsecond⟩

/-- A first step that both make. -/
theorem step {x : Emit α} {f g : α → Emit β} (hx : Twin True x x) (h : ∀ a, Twin S (f a) (g a)) :
    Twin S (x >>= f) (x >>= g) :=
  (hx.bind h).congr (iff_of_eq (true_and S))

/-- A first step in which they differ. -/
theorem rest {x y : Emit α} {f g : α → Emit β} (h : Twin S x y) (hf : ∀ a, Twin True (f a) (g a)) :
    Twin S (x >>= f) (y >>= g) :=
  (h.bind hf).congr (iff_of_eq (and_true S))

theorem computed {γ : Type} {u : Except Slip α} {v : Except Slip γ} {f : α → Emit β} {g : γ → Emit β}
    (h : ∀ a b, u = .ok a → v = .ok b → Twin S (f a) (g b)) :
    Twin S (liftM u >>= f) (liftM v >>= g) where
  progress hde hx hy := by
    obtain ⟨a₁, d₁, hx₁, hf⟩ := bind_ok hx
    obtain ⟨b₁, e₁, hy₁, hg⟩ := bind_ok hy
    obtain ⟨ha, rfl⟩ := slip_ok hx₁
    obtain ⟨hb, rfl⟩ := slip_ok hy₁
    exact (h a₁ b₁ ha hb).progress hde hf hg

theorem known {v : Except Slip α} {f g : α → Emit β} (h : ∀ a, v = .ok a → Twin S (f a) (g a)) :
    Twin S (liftM v >>= f) (liftM v >>= g) :=
  computed fun a b ha hb => by
    obtain rfl := Except.ok.inj (ha.symm.trans hb)
    exact h a ha

/-! ## Names -/

theorem tidy_of_advances {n : Nat} (hd : d.Tidy) (h : Advances type n d d') : d'.Tidy := by
  have hcount : ∀ t, d.count t ≤ d'.count t := by
    intro t
    by_cases ht : t = type
    · rw [ht, h.own]
      exact Nat.le_add_right _ _
    · exact (h.other t ht).ge
  obtain ⟨h₁, h₂, h₃, h₄, h₅⟩ := hd
  have hold : ∀ e ∈ d.nodes, ∃ k, e.1 = numbered e.2.type k ∧ k < d'.count e.2.type :=
    fun e he => (h₃ e he).imp fun k hk => ⟨hk.1, hk.2.trans_le (hcount _)⟩
  rw [h.only] at hold ⊢
  exact ⟨h₁, h₂, hold, h₄, h₅⟩

theorem freshName (type : String) : Twin True (Emit.freshName type) (Emit.freshName type) where
  progress hde hx hy := by
    have hd := tidy_of_advances hde.tidy.1 (freshName_ok hx).2
    have he := tidy_of_advances hde.tidy.2 (freshName_ok hy).2
    cases hx
    cases hy
    refine ⟨by rw [hde.counts], .of_quiet ⟨⟨hd, he⟩, hde.opset, by simp only [hde.counts], hde.domains,
      hde.weights, hde.terminals⟩ ⟨rfl, rfl, rfl, rfl⟩ ⟨rfl, rfl, rfl, rfl⟩ rfl rfl⟩

theorem useDomain (domain : Value) : Twin True (Emit.useDomain domain) (Emit.useDomain domain) where
  progress {d d' e e' a b} hde hx hy := by
    have hrun : ∀ d : Draft, run (Emit.useDomain domain) d = .ok () { d with
        domains := if domain.isNone || d.domains.any (fun x => x.same domain) then d.domains
          else d.domains ++ [domain] } := by
      intro d
      unfold Emit.useDomain
      cases domain.isNone with
      | true => rfl
      | false =>
        change EStateM.Result.ok () (if _ then _ else _) = _
        cases d.domains.any fun x => x.same domain <;> rfl
    obtain ⟨-, rfl⟩ := EStateM.Result.ok.inj ((hrun d).symm.trans hx)
    obtain ⟨-, rfl⟩ := EStateM.Result.ok.inj ((hrun e).symm.trans hy)
    exact ⟨rfl, .of_quiet ⟨⟨hde.tidy.1.congr rfl rfl rfl, hde.tidy.2.congr rfl rfl rfl⟩, hde.opset,
      hde.counts, by simp only [hde.domains], hde.weights, hde.terminals⟩
      ⟨rfl, rfl, rfl, rfl⟩ ⟨rfl, rfl, rfl, rfl⟩ rfl rfl⟩

theorem freshNames (type : String) (n : Nat) :
    Twin True (Emit.freshNames type n) (Emit.freshNames type n) := by
  induction n with
  | zero => exact pure _
  | succ n ih => exact (freshName type).step fun _ => ih.step fun _ => pure _

theorem outputName (type : String) (v : Value) :
    Twin True (Emit.outputName type v) (Emit.outputName type v) := by
  unfold Emit.outputName
  split
  · exact pure _
  · exact (freshName type).step fun _ => pure _
  · exact (freshName type).step fun _ => pure _
  · exact pure _

theorem outputNames (type : String) (vs : List Value) :
    Twin True (Emit.outputNames type vs) (Emit.outputNames type vs) := by
  induction vs with
  | nil => exact pure _
  | cons v vs ih => exact (outputName type v).step fun _ => ih.step fun _ => pure _

theorem outputsFor (type name : String) (outputs : Value) :
    Twin True (Emit.outputsFor type name outputs) (Emit.outputsFor type name outputs) := by
  unfold Emit.outputsFor
  split
  · exact pure _
  · exact (freshNames type _).step fun _ => pure _
  · exact (freshNames type _).step fun _ => pure _
  · exact pure _
  · exact (outputNames type _).step fun _ => pure _
  · exact pure _

end Twin

/-! ## Nodes -/

theorem attrs_recorded {name : String} {n : Node}
    (h : Node.recorded type name inputs outputs attrs domain = .ok n) : n.attrs = attrs := by
  obtain ⟨ins, -, h₁⟩ := except_bind_ok h
  obtain ⟨outs, -, h₂⟩ := except_bind_ok h₁
  obtain ⟨record, -, h₃⟩ := except_bind_ok h₂
  rw [← Except.ok.inj h₃]

/-- The nodes that keeping a node adds: none for an interface. -/
def Node.shown (n : Node) : List Node := if Node.isInterface n.type then [] else [n]

theorem keep_eq_append (hd : d.Tidy) {n : Node} (hname : n.name = numbered n.type (d.count n.type)) :
    NodeMap.keep d.nodes n = d.nodes ++ NodeMap.ofNodes n.shown := by
  rw [NodeMap.keep, Node.shown]
  split
  · exact (append_nil _).symm
  · have hno : ¬ Assoc.contains d.nodes n.name = true := by
      rw [Assoc.contains_iff_mem_keys, hname]
      exact hd.next_notMem n.type
    rw [Assoc.insert, if_neg hno]
    rfl

/-- What a node is called and what it writes. -/
def Emit.head (type : String) (outputs domain : Value) : Emit (String × Value) := do
  let name ← freshName type
  useDomain domain
  return (name, ← outputsFor type name outputs)

theorem Twin.head (type : String) (outputs domain : Value) :
    Twin True (Emit.head type outputs domain) (Emit.head type outputs domain) :=
  (freshName type).step fun name => (useDomain domain).step fun _ =>
    (outputsFor type name outputs).step fun _ => pure _

/-- **A node is made under a new name and kept.** -/
theorem nodeNamed_shown {v : Value} (hd : d.Tidy)
    (h : run (nodeNamed type inputs outputs attrs none domain) d = .ok v d') :
    ∃ name outs d₁ n, run (Emit.head type outputs domain) d = .ok (name, outs) d₁ ∧
      Node.recorded type name (match inputs with | .none => .list [] | v => v) outs attrs domain =
        .ok n ∧ v = result n.outputs ∧
      d' = { d₁ with nodes := d.nodes ++ NodeMap.ofNodes n.shown } := by
  obtain ⟨name, d₁, hfresh, h₁⟩ := bind_ok h
  obtain ⟨u, d₂, hdomain, h₂⟩ := bind_ok h₁
  obtain ⟨outs, d₃, houts, h₃⟩ := bind_ok h₂
  obtain ⟨n, hn, h₄⟩ := granted_ok h₃
  obtain ⟨_, d₅, hkeep, h₅⟩ := bind_ok h₄
  obtain ⟨rfl, rfl⟩ := pure_ok h₅
  obtain rfl := modify_ok hkeep
  refine ⟨name, outs, d₃, n, ?_, hn, rfl, ?_⟩
  · simp only [Emit.head, EStateM.run_bind, hfresh, hdomain, houts, EStateM.run_pure]
  · obtain ⟨rfl, hadv₁⟩ := freshName_ok hfresh
    obtain ⟨domains, rfl⟩ := useDomain_ok hdomain
    obtain ⟨htype, hname, -, hout, -⟩ := recorded_ok hn
    obtain ⟨_, _, hadv₂, -⟩ := outputsFor_ok houts hout
    rw [← htype] at hname
    rw [← keep_eq_append hd hname, hadv₂.only, hadv₁.only]

/-- **Nodes that differ in attributes at most.** -/
theorem twin_nodeNamed {S : Prop} {attrs' : Attrs} (hinner : Node.isInterface type = false ∨ S)
    (hsame : S → attrs = attrs') (htold : ∀ name, payloadOf type name attrs = payloadOf type name attrs' → S) :
    Twin S (nodeNamed type inputs outputs attrs none domain)
      (nodeNamed type inputs outputs attrs' none domain) where
  progress {d d' e e' a b} hde hx hy := by
    obtain ⟨n₀, hleft, -⟩ := nodeNamed_ok hx
    obtain ⟨m₀, hright, -⟩ := nodeNamed_ok hy
    have htidy := And.intro (hleft.tidy hde.tidy.1) (hright.tidy hde.tidy.2)
    obtain ⟨name, outs, d₁, n, hhead, hn, rfl, rfl⟩ := nodeNamed_shown hde.tidy.1 hx
    obtain ⟨name', outs', e₁, m, hhead', hm, rfl, rfl⟩ := nodeNamed_shown hde.tidy.2 hy
    obtain ⟨heq, hp⟩ := (Twin.head type outputs domain).progress hde hhead hhead'
    obtain ⟨rfl, rfl⟩ := Prod.mk.inj heq
    obtain ⟨htype, hname, -, hout, -⟩ := recorded_ok hn
    obtain ⟨htype', hname', -, hout', -⟩ := recorded_ok hm
    have houtputs : n.outputs = m.outputs := Except.ok.inj (hout.symm.trans hout')
    have hnm : S → n = m := fun hS => by
      rw [hsame hS] at hn
      exact Except.ok.inj (hn.symm.trans hm)
    refine ⟨congrArg result houtputs, ⟨htidy, hp.abreast.opset, hp.abreast.counts, hp.abreast.domains,
      hp.abreast.weights, hp.abreast.terminals⟩, ?_, ?_, n.shown, m.shown, rfl, rfl, ?_, ?_, ?_⟩
    · exact ⟨hp.left.opset, hp.left.edits, hp.left.kept, hp.left.renames⟩
    · exact ⟨hp.right.opset, hp.right.edits, hp.right.kept, hp.right.renames⟩
    · rw [Node.shown, Node.shown, htype, htype']
      split <;> rfl
    · exact fun hS => by rw [hnm hS]
    · intro hpay
      rcases hinner with hinner | hS
      · rw [Node.shown, Node.shown, htype, htype', hinner] at hpay
        refine htold name ?_
        simpa [Node.payload, htype, htype', hname, hname', attrs_recorded hn, attrs_recorded hm]
          using hpay
      · exact hS

end ModelExport
