import ModelExport.Proofs.Emission.Growth

/-!
# Proofs/Wiring/Emission — the nodes of a run, and where they read from

Nothing that a rule does depends on the nodes that there are, so the nodes that a run adds are the same
whatever map they are put into (`Emission`).  Runs compose, and their nodes stand in a row
(`Emission.bind`).  `WiredFrom A ns` says that each of the nodes `ns` reads what is known already:
names in `A`, or outputs of the nodes before it.
-/

namespace ModelExport

open List
open EStateM (run)

/-! ## Nodes in a row -/

/-- **Each node reads what is known**, at first the names in `A`, then also what earlier nodes write. -/
def WiredFrom : List Value → List Node → Prop
  | _, [] => True
  | A, n :: ns => n.inputs ⊆ A ∧ WiredFrom (A ++ n.outputs) ns

theorem append_subset_append_right {α : Type} {A B : List α} (h : A ⊆ B) (C : List α) : A ++ C ⊆ B ++ C :=
  append_subset.2 ⟨subset_append_of_subset_left C h, subset_append_right B C⟩

theorem WiredFrom.mono {A B : List Value} {ns : List Node} (h : WiredFrom A ns) (hAB : A ⊆ B) :
    WiredFrom B ns := by
  induction ns generalizing A B with
  | nil => trivial
  | cons n ns ih =>
    exact ⟨fun v hv => hAB (h.1 hv), ih h.2 (append_subset_append_right hAB n.outputs)⟩

theorem wiredFrom_append {A : List Value} {ns ms : List Node} :
    WiredFrom A (ns ++ ms) ↔ WiredFrom A ns ∧ WiredFrom (A ++ ns.flatMap Node.outputs) ms := by
  induction ns generalizing A with
  | nil => simp [WiredFrom]
  | cons n ns ih => simp [WiredFrom, ih, and_assoc, append_assoc]

namespace Emit

variable {α β : Type}

/-! ## Nodes that a run adds -/

/-- The run puts the nodes `ns` into whatever map there is. -/
def Puts (x : Emit α) (d d' : Draft) (a : α) (ns : List Node) : Prop :=
  ∀ m, run x { d with nodes := m } = .ok a { d' with nodes := ns.foldl NodeMap.keep m }

/-- **The nodes that a run adds**, in order, under names of their own that are made on the way. -/
structure Emission (x : Emit α) (d d' : Draft) (a : α) (ns : List Node) : Prop where
  puts : Puts x d d' a ns
  counts : ∀ t, d.count t ≤ d'.count t
  numbered : ∀ n ∈ ns, ∃ k, n.name = numbered n.type k ∧ d.count n.type ≤ k ∧ k < d'.count n.type
  distinct : (ns.map Node.name).Nodup

section Runs

variable {x : Emit α} {f : α → Emit β} {d d₁ d' : Draft} {a : α} {b : β} {ns ms : List Node}

theorem Puts.bind (hx : Puts x d d₁ a ns) (hf : Puts (f a) d₁ d' b ms) :
    Puts (x >>= f) d d' b (ns ++ ms) := fun m => by
  rw [run_bind_of_ok (hx m), hf, foldl_append]

/-- **Nodes of runs stand in a row.** -/
theorem Emission.bind (hx : Emission x d d₁ a ns) (hf : Emission (f a) d₁ d' b ms) :
    Emission (x >>= f) d d' b (ns ++ ms) where
  puts := hx.puts.bind hf.puts
  counts t := (hx.counts t).trans (hf.counts t)
  numbered n hn := by
    rcases mem_append.1 hn with hn | hn
    · obtain ⟨k, hk, hle, hlt⟩ := hx.numbered n hn
      exact ⟨k, hk, hle, hlt.trans_le (hf.counts _)⟩
    · obtain ⟨k, hk, hle, hlt⟩ := hf.numbered n hn
      exact ⟨k, hk, (hx.counts _).trans hle, hlt⟩
  distinct := by
    rw [map_append]
    refine nodup_append.2 ⟨hx.distinct, hf.distinct, ?_⟩
    rintro s hs t ht rfl
    obtain ⟨n, hn, rfl⟩ := mem_map.1 hs
    obtain ⟨n', hn', hname⟩ := mem_map.1 ht
    obtain ⟨k, hk, -, hlt⟩ := hx.numbered n hn
    obtain ⟨l, hl, hle, -⟩ := hf.numbered n' hn'
    obtain ⟨htype, rfl⟩ := numbered_inj.1 ((hl.symm.trans hname).trans hk)
    rw [htype] at hle
    exact absurd hlt (Nat.not_lt.2 hle)

end Runs

/-! ## Steps that add none -/

/-- **A step that adds no node.** -/
structure Quiet (x : Emit α) : Prop where
  puts : ∀ {d d' : Draft} {a : α}, run x d = .ok a d' → Puts x d d' a []
  counts : ∀ {d d' : Draft} {a : α}, run x d = .ok a d' → ∀ t, d.count t ≤ d'.count t

namespace Quiet

theorem emission {x : Emit α} (h : Quiet x) {d d' : Draft} {a : α} (hx : run x d = .ok a d') :
    Emission x d d' a [] :=
  ⟨h.puts hx, h.counts hx, fun _ hn => absurd hn not_mem_nil, nodup_nil⟩

theorem bind {x : Emit α} {f : α → Emit β} (hx : Quiet x) (hf : ∀ a, Quiet (f a)) :
    Quiet (x >>= f) where
  puts h := by
    obtain ⟨a, d₁, h₁, h₂⟩ := bind_ok h
    exact (hx.puts h₁).bind ((hf a).puts h₂)
  counts h t := by
    obtain ⟨a, d₁, h₁, h₂⟩ := bind_ok h
    exact (hx.counts h₁ t).trans ((hf a).counts h₂ t)

theorem pure (a : α) : Quiet (Pure.pure a : Emit α) where
  puts h := by
    obtain ⟨rfl, rfl⟩ := pure_ok h
    exact fun _ => rfl
  counts h t := by
    obtain ⟨rfl, rfl⟩ := pure_ok h
    exact le_rfl

theorem ofSlip (e : Except Slip α) : Quiet (liftM e : Emit α) where
  puts h := by
    obtain ⟨rfl, rfl⟩ := slip_ok h
    exact fun _ => rfl
  counts h t := by
    obtain ⟨rfl, rfl⟩ := slip_ok h
    exact le_rfl

theorem ofFault (e : Except Fault α) : Quiet (liftM e : Emit α) where
  puts h := by
    obtain ⟨rfl, rfl⟩ := fault_ok h
    exact fun _ => rfl
  counts h t := by
    obtain ⟨rfl, rfl⟩ := fault_ok h
    exact le_rfl

theorem opset : Quiet Emit.opset where
  puts h := by
    cases h
    exact fun _ => rfl
  counts h t := by
    cases h
    exact le_rfl

theorem modify {f : Draft → Draft} (hf : ∀ d m, f { d with nodes := m } = { f d with nodes := m })
    (hcounts : ∀ d, (f d).counts = d.counts) : Quiet (modify f : Emit PUnit) where
  puts h := by
    obtain rfl := modify_ok h
    exact fun m => congrArg (EStateM.Result.ok ()) (hf _ m)
  counts h t := by
    obtain rfl := modify_ok h
    rw [Draft.count, Draft.count, hcounts]

theorem freshName (type : String) : Quiet (Emit.freshName type) where
  puts h := by
    cases h
    exact fun _ => rfl
  counts h t := by
    obtain ⟨-, hadv⟩ := freshName_ok h
    by_cases ht : t = type
    · rw [ht, hadv.own]
      exact Nat.le_succ _
    · exact (hadv.other t ht).ge

theorem useDomain (domain : Value) : Quiet (Emit.useDomain domain) := by
  unfold Emit.useDomain
  split
  · exact pure _
  · refine modify (fun d m => ?_) fun d => ?_ <;> split <;> rfl

theorem freshNames (type : String) (n : Nat) : Quiet (Emit.freshNames type n) := by
  induction n with
  | zero => exact pure _
  | succ n ih => exact (freshName type).bind fun _ => ih.bind fun _ => pure _

theorem outputName (type : String) (v : Value) : Quiet (Emit.outputName type v) := by
  cases v with
  | int _ => exact (freshName type).bind fun _ => pure _
  | bool _ => exact (freshName type).bind fun _ => pure _
  | object k n => cases k <;> exact pure _
  | _ => exact pure _

theorem outputNames (type : String) (vs : List Value) : Quiet (Emit.outputNames type vs) := by
  induction vs with
  | nil => exact pure _
  | cons v vs ih => exact (outputName type v).bind fun _ => ih.bind fun _ => pure _

theorem outputsFor (type name : String) (outputs : Value) : Quiet (Emit.outputsFor type name outputs) := by
  unfold Emit.outputsFor
  split
  · exact pure _
  · exact (freshNames type _).bind fun _ => pure _
  · exact (freshNames type _).bind fun _ => pure _
  · exact pure _
  · exact (outputNames type _).bind fun _ => pure _
  · exact pure _

end Quiet

/-! ## The step that adds one -/

/-- **A node is added to whatever map there is**, once it is named and its outputs are. -/
theorem emission_of_parts {type : String} {inputs outputs domain w : Value} {attrs : Attrs} {d d₁ d₂ : Draft}
    {domains : List Value} {n : Node}
    (hfresh : run (freshName type) d = .ok (numbered type (d.count type)) d₁)
    (hdomain : run (useDomain domain) d₁ = .ok () { d₁ with domains })
    (hw : run (outputsFor type (numbered type (d.count type)) outputs) { d₁ with domains } = .ok w d₂)
    (hn : Node.recorded type (numbered type (d.count type)) (givenInputs inputs) w attrs domain = .ok n) :
    Emission (nodeNamed type inputs outputs attrs none domain) d { d₂ with nodes := d₂.nodes.keep n }
      (result n.outputs) [n] := by
  have hadds := addsNode_of_recorded (freshName_ok hfresh).2 hw hn
  refine ⟨fun m => ?_, hadds.counts, fun n' hn' => ?_, nodup_singleton _⟩
  · refine (run_bind_of_ok ((Quiet.freshName type).puts hfresh m)).trans ?_
    refine (run_bind_of_ok ((Quiet.useDomain domain).puts hdomain m)).trans ?_
    refine (run_bind_of_ok ((Quiet.outputsFor type _ outputs).puts hw m)).trans ?_
    have hlift : run (liftM (Node.recorded type (numbered type (d.count type)) (givenInputs inputs) w
        attrs domain) : Emit Node) { d₂ with nodes := m } = .ok n { d₂ with nodes := m } := by
      rw [hn]
      rfl
    exact run_bind_of_ok hlift
  · obtain rfl := mem_singleton.1 hn'
    obtain ⟨m, own, hcount, -⟩ := hadds.writes
    rw [hadds.type_eq]
    exact ⟨_, hadds.name_eq, le_rfl, by omega⟩

theorem nodeNamed_emission {type : String} {inputs outputs domain v : Value} {attrs : Attrs} {d d' : Draft}
    (h : run (nodeNamed type inputs outputs attrs none domain) d = .ok v d') :
    ∃ n, Emission (nodeNamed type inputs outputs attrs none domain) d d' v [n] ∧
      AddsNode type inputs outputs d d' n ∧ v = result n.outputs := by
  obtain ⟨d₁, domains, w, d₂, n, hfresh, hdomain, hw, hn, rfl, rfl⟩ := nodeNamed_parts h
  exact ⟨n, emission_of_parts hfresh hdomain hw hn, addsNode_of_recorded (freshName_ok hfresh).2 hw hn, rfl⟩

/-! ## What runs ensure -/

/-- **A run that succeeds adds nodes for which `Q` holds.** -/
structure Ensures (x : Emit α) (Q : Draft → List Node → α → Prop) : Prop where
  emission : ∀ {d d' : Draft} {a : α}, run x d = .ok a d' →
    ∃ ns, Emission x d d' a ns ∧ Q d ns a

namespace Ensures

variable {x : Emit α} {f : α → Emit β} {Q Q' : Draft → List Node → α → Prop}

theorem of_quiet (h : Quiet x) (hQ : ∀ d a, Q d [] a) : Ensures x Q :=
  ⟨fun hx => ⟨[], h.emission hx, hQ _ _⟩⟩

theorem of_failing (h : ∀ {d d' : Draft} {a : α}, run x d ≠ .ok a d') : Ensures x Q :=
  ⟨fun hx => absurd hx h⟩

/-- What the first step ensures is known to the second. -/
theorem bind {R : α → Draft → List Node → β → Prop} {S : Draft → List Node → β → Prop} (hx : Ensures x Q)
    (hf : ∀ {d ns a}, Q d ns a → Ensures (f a) (R a))
    (hS : ∀ {d d₁ : Draft} {ns ms a b}, (∀ t, d.count t ≤ d₁.count t) → Q d ns a → R a d₁ ms b →
      S d (ns ++ ms) b) : Ensures (x >>= f) S where
  emission h := by
    obtain ⟨a, d₁, h₁, h₂⟩ := bind_ok h
    obtain ⟨ns, hns, hq⟩ := hx.emission h₁
    obtain ⟨ms, hms, hr⟩ := (hf hq).emission h₂
    exact ⟨ns ++ ms, hns.bind hms, hS hns.counts hq hr⟩

theorem known {e : Except Slip α} {R : Draft → List Node → β → Prop}
    (h : ∀ a, e = .ok a → Ensures (f a) R) : Ensures (liftM e >>= f) R where
  emission hx := by
    obtain ⟨a, ha, h₂⟩ := computed_ok hx
    obtain ⟨ns, hns, hr⟩ := (h a ha).emission h₂
    subst ha
    exact ⟨ns, hns, hr⟩

theorem ite {c : Prop} [Decidable c] {y : Emit α} (hx : Ensures x Q) (hy : Ensures y Q) :
    Ensures (if c then x else y) Q := by
  split
  · exact hx
  · exact hy

end Ensures

end Emit

end ModelExport
