import ModelExport.Proofs.Tensors.Acts
import ModelExport.Proofs.Wiring.Conditions

/-!
# Proofs/Tensors/Steps — rules as computations on tensors

A rule adds nodes step by step, and the nodes that it has added so far can be run.  `Leads` follows both at once:
it keeps a list of facts about tensors, by name, and each node adds what it is known to give (`Acts`) to the list.
The facts stay true because nothing that is still to be written has one of these names (`Knows`): a name that a
node makes up is counted and never made again, and the other names are known beforehand (`Ahead`).
-/

namespace ModelExport

open Emit List

variable {τ : Type*} {α β : Type}

/-! ## Facts -/

/-- **What is known of tensors**, by name. -/
abbrev Facts (τ : Type*) := List (Value × (Tensor τ → Prop))

namespace Facts

class Says (Γ : Facts τ) (v : Value) (P : outParam (Tensor τ → Prop)) : Prop where
  mem : (v, P) ∈ Γ

class SayAll (Γ : Facts τ) (vs : List Value) (Ps : outParam (List (Tensor τ → Prop))) : Prop where
  all : List.Forall₂ (fun v P => (v, P) ∈ Γ) vs Ps

class Within (Δ Γ : Facts τ) : Prop where
  subset : Δ ⊆ Γ

variable {Γ Δ : Facts τ} {v : Value} {vs : List Value} {P : Tensor τ → Prop} {Ps : List (Tensor τ → Prop)}

instance (e : Value × (Tensor τ → Prop)) [h : Says Γ v P] : Says (e :: Γ) v P :=
  ⟨mem_cons_of_mem e h.mem⟩

instance : Says ((v, P) :: Γ) v P := ⟨mem_cons_self⟩

instance (new : Facts τ) [h : Says Γ v P] : Says (new ++ Γ) v P := ⟨mem_append_right new h.mem⟩

instance (new : Facts τ) [h : Says new v P] : Says (new ++ Γ) v P := ⟨mem_append_left Γ h.mem⟩

instance (priority := low) (e : Value × (Tensor τ → Prop)) [h : SayAll Γ vs Ps] : SayAll (e :: Γ) vs Ps :=
  ⟨h.all.imp fun _ _ => mem_cons_of_mem e⟩

instance : SayAll Γ [] [] := ⟨.nil⟩

instance [h : Says Γ v P] [hs : SayAll Γ vs Ps] : SayAll Γ (v :: vs) (P :: Ps) := ⟨.cons h.mem hs.all⟩

instance : Within [] Γ := ⟨nil_subset Γ⟩

instance (e : Value × (Tensor τ → Prop)) [h : Within Δ Γ] : Within Δ (e :: Γ) :=
  ⟨subset_cons_of_subset e h.subset⟩

instance (new : Facts τ) [h : Within Δ Γ] : Within Δ (new ++ Γ) :=
  ⟨subset_append_of_subset_right new h.subset⟩

instance : Within Γ Γ := ⟨List.Subset.refl Γ⟩

instance [h : Says Γ v P] [hs : Within Δ Γ] : Within ((v, P) :: Δ) Γ :=
  ⟨cons_subset.2 ⟨h.mem, hs.subset⟩⟩

end Facts

/-- **Names that are still to be written**: those that are listed, and any that nodes make up. -/
structure Ahead where
  made : Bool
  listed : List Value

/-- A name that is not written any more. -/
structure Ahead.Spares (p : Ahead) (d : Draft) (v : Value) : Prop where
  text : ∃ s, v = .str s
  unlisted : v ∉ p.listed
  unmade : p.made = true → d.Unmade v

/-- **The facts hold, and stay true.** -/
structure Knows (p : Ahead) (Γ : Facts τ) (d : Draft) (σ : Store (Option (Tensor τ))) : Prop where
  nodup : p.listed.Nodup
  texts : ∀ v ∈ p.listed, ∃ s, v = .str s
  unmade : p.made = true → ∀ v ∈ p.listed, d.Unmade v
  spared : ∀ e ∈ Γ, p.Spares d e.1
  holds : ∀ e ∈ Γ, ∃ t, σ e.1 = some t ∧ e.2 t

/-! ## Names -/

theorem Store.write_of_nodup : ∀ {outs : List Value} {ts : List τ} (σ : Store τ),
    outs.Nodup → (∀ o ∈ outs, ∃ s, o = .str s) → ts.length = outs.length →
      List.Forall₂ (fun o t => σ.write outs ts o = t) outs ts
  | [], [], _, _, _, _ => .nil
  | o :: outs, t :: ts, σ, hnodup, htext, hlen => by
      obtain ⟨hnot, hrest⟩ := nodup_cons.1 hnodup
      obtain ⟨s, rfl⟩ := htext o mem_cons_self
      refine .cons ?_ (write_of_nodup (σ.put _ t) hrest
        (fun o ho => htext o (mem_cons_of_mem _ ho)) (Nat.succ.inj hlen))
      rw [write, write_of_not_mem hnot, put, if_pos ((same_str_left s _).2 rfl)]

theorem exists_map_str : ∀ {vs : List Value}, (∀ v ∈ vs, ∃ s, v = .str s) → ∃ ss : List String, vs = ss.map .str
  | [], _ => ⟨[], rfl⟩
  | _ :: _, h => by
      obtain ⟨⟨s, rfl⟩, hrest⟩ := forall_mem_cons.1 h
      obtain ⟨ss, rfl⟩ := exists_map_str hrest
      exact ⟨s :: ss, rfl⟩

theorem Store.exists_of_mem {f : Store (Option (Tensor τ))} : ∀ {new : Facts τ} {us : List (Tensor τ)},
    List.Forall₂ (fun e u => f e.1 = some u) new us → List.Forall₂ (fun e u => e.2 u) new us →
      ∀ e ∈ new, ∃ t, f e.1 = some t ∧ e.2 t
  | _, _, .nil, .nil, e, he => absurd he not_mem_nil
  | _, _, .cons hf hfs, .cons hP hPs, e, he => by
      rcases mem_cons.1 he with rfl | he
      · exact ⟨_, hf, hP⟩
      · exact exists_of_mem hfs hPs e he

namespace Knows

variable {p : Ahead} {Γ Δ new : Facts τ} {d d' : Draft} {σ : Store (Option (Tensor τ))} {vs : List Value}
  {Ps : List (Tensor τ → Prop)} {us : List (Tensor τ)} {made : Bool} {rest : List Value}

theorem mono (h : Knows p Γ d σ) (hsub : Δ ⊆ Γ) : Knows p Δ d σ :=
  { h with spared := fun e he => h.spared e (hsub he), holds := fun e he => h.holds e (hsub he) }

theorem reads (h : Knows p Γ d σ) (hvs : List.Forall₂ (fun v P => (v, P) ∈ Γ) vs Ps) :
    ∃ ts, vs.mapM σ = some ts ∧ List.Forall₂ (fun P t => P t) Ps ts := by
  induction hvs with
  | nil => exact ⟨[], rfl, .nil⟩
  | cons hv _ ih =>
    obtain ⟨t, ht, hP⟩ := h.holds _ hv
    obtain ⟨ts, hts, hPs⟩ := ih
    exact ⟨t :: ts, by simp [ht, hts], .cons hP hPs⟩

theorem texts_of_facts (h : Knows p Γ d σ) (hvs : List.Forall₂ (fun v P => (v, P) ∈ Γ) vs Ps) :
    ∀ v ∈ vs, ∃ s, v = .str s := by
  induction hvs with
  | nil => exact forall_mem_nil _
  | cons hv _ ih => exact forall_mem_cons.2 ⟨(h.spared _ hv).text, ih⟩

theorem later (h : Knows p Γ d σ) (hd : ∀ t, d.count t ≤ d'.count t) : Knows p Γ d' σ :=
  { h with
    unmade := fun hm v hv => (h.unmade hm v hv).mono hd
    spared := fun e he => { h.spared e he with unmade := fun hm => ((h.spared e he).unmade hm).mono hd } }

/-- Names that are not written after all. -/
theorem skip (names : List Value) (h : Knows ⟨made, names ++ rest⟩ Γ d σ) : Knows ⟨made, rest⟩ Γ d σ where
  nodup := (nodup_append.1 h.nodup).2.1
  texts := (forall_mem_append.1 h.texts).2
  unmade hm := (forall_mem_append.1 (h.unmade hm)).2
  spared e he := { h.spared e he with unlisted := fun hv => (h.spared e he).unlisted (mem_append_right names hv) }
  holds := h.holds

/-- **Tensors are written** under the names that are listed next, and all that is known stays true. -/
theorem give (h : Knows ⟨made, new.map Prod.fst ++ rest⟩ Γ d σ) (hus : List.Forall₂ (fun e u => e.2 u) new us) :
    Knows ⟨made, rest⟩ (new ++ Γ) d (σ.write (new.map Prod.fst) (us.map some)) := by
  obtain ⟨hnames, -, hapart⟩ := nodup_append.1 h.nodup
  have htexts := (forall_mem_append.1 h.texts).1
  have hlength : (us.map some).length = (new.map Prod.fst).length := by
    rw [length_map, length_map, hus.length_eq]
  have hwritten := σ.write_of_nodup hnames htexts hlength
  refine { h.skip with
    spared := forall_mem_append.2 ⟨fun e he => ?_, h.skip.spared⟩
    holds := forall_mem_append.2 ⟨?_, fun e he => ?_⟩ }
  · have hmem : e.1 ∈ new.map Prod.fst := mem_map_of_mem he
    exact ⟨htexts _ hmem, fun hrest => hapart _ hmem _ hrest rfl, fun hm => h.unmade hm _ (mem_append_left rest hmem)⟩
  · exact Store.exists_of_mem (forall₂_map_left_iff.1 (forall₂_map_right_iff.1 hwritten)) hus
  · obtain ⟨⟨s, hs⟩, hunlisted, -⟩ := h.spared e he
    obtain ⟨t, ht, hP⟩ := h.holds e he
    refine ⟨t, ?_, hP⟩
    rw [← ht, hs, Store.write_of_not_mem (hs ▸ fun hmem => hunlisted (mem_append_left rest hmem))]

/-- **Names that are made up** are listed next. -/
theorem make {type : String} {i m : Nat} (h : Knows p Γ d σ) (hmade : p.made = true)
    (hd : ∀ t, d.count t ≤ d'.count t) (hi : d.count type ≤ i) (him : i + m ≤ d'.count type) :
    Knows ⟨p.made, (numberedFrom type i m).map .str ++ p.listed⟩ Γ d' σ := by
  have hname : ∀ v ∈ (numberedFrom type i m).map Value.str, ∃ k, v = .str (numbered type k) ∧ i ≤ k ∧ k < i + m := by
    rintro v hv
    obtain ⟨s, hs, rfl⟩ := mem_map.1 hv
    obtain ⟨k, rfl, hk⟩ := mem_numberedFrom.1 hs
    exact ⟨k, rfl, hk⟩
  have hapart : ∀ v, d.Unmade v → v ∉ (numberedFrom type i m).map Value.str := fun v hv hmem => by
    obtain ⟨k, hk, hik, -⟩ := hname v hmem
    exact hv type k (hi.trans hik) hk
  refine ⟨nodup_append.2 ⟨(nodup_numberedFrom type i m).map fun _ _ => Value.str.inj, h.nodup, ?_⟩,
    forall_mem_append.2 ⟨fun v hv => ?_, h.texts⟩, fun hm => forall_mem_append.2 ⟨fun v hv => ?_, (h.later hd).unmade hm⟩,
    fun e he => { (h.later hd).spared e he with unlisted := fun hmem => ?_ }, h.holds⟩
  · rintro v hv w hw rfl
    exact hapart v (h.unmade hmade v hw) hv
  · obtain ⟨k, rfl, -⟩ := hname v hv
    exact ⟨_, rfl⟩
  · obtain ⟨k, rfl, -, hk⟩ := hname v hv
    intro type' k' hk' heq
    obtain ⟨rfl, rfl⟩ := numbered_inj.1 (Value.str.inj heq)
    omega
  · rcases mem_append.1 hmem with hmem | hmem
    · exact hapart _ ((h.spared e he).unmade hmade) hmem
    · exact (h.spared e he).unlisted hmem

end Knows

/-! ## Computations -/

section Computations

variable (E : Elements τ) (version : Int)

/-- **A computation leads from facts to an outcome**: it succeeds, and that is how the nodes run that it adds. -/
def Leads (p : Ahead) (Γ : Facts τ) (x : Emit Unit) (outcome : Option (Store (Option (Tensor τ))) → Prop) : Prop :=
  ∀ d σ, d.opset = version → Knows p Γ d σ →
    ∃ d' ns, Emission x d d' () ns ∧ outcome (runNodes E version ns σ)

/-- **A computation gives a value that is known**: it succeeds, the nodes that it adds can be run, and then there
are facts about the value. -/
def Gives (p : Ahead) (Γ : Facts τ) (x : Emit α) (new : α → Facts τ) : Prop :=
  ∀ d σ, d.opset = version → Knows p Γ d σ → ∃ d' a ns σ', d'.opset = version ∧ Emission x d d' a ns ∧
    runNodes E version ns σ = some σ' ∧ Knows p (new a ++ Γ) d' σ'

/-- The run succeeds, and the facts hold after it. -/
def Facts.HoldAfter (Δ : Facts τ) (run : Option (Store (Option (Tensor τ)))) : Prop :=
  ∃ σ, run = some σ ∧ ∀ e ∈ Δ, ∃ t, σ e.1 = some t ∧ e.2 t

/-- **A computation leads from facts to facts.** -/
def Computes (p : Ahead) (Γ : Facts τ) (x : Emit Unit) (Δ : Facts τ) : Prop := Leads E version p Γ x Δ.HoldAfter

end Computations

variable {E : Elements τ} {version : Int}

theorem runNodes_cons {n : Node} {ns : List Node} {σ σ₁ : Store (Option (Tensor τ))}
    (h : n.run E version σ = some σ₁) : runNodes E version (n :: ns) σ = runNodes E version ns σ₁ := by
  rw [runNodes, foldlM_cons, h]
  rfl

theorem runNodes_append {ns ms : List Node} {σ σ₁ : Store (Option (Tensor τ))}
    (h : runNodes E version ns σ = some σ₁) : runNodes E version (ns ++ ms) σ = runNodes E version ms σ₁ := by
  rw [runNodes] at h
  rw [runNodes, foldlM_append, h]
  rfl

theorem Node.run_of_acts (n : Node) {Ps Qs : List (Tensor τ → Prop)} {σ : Store (Option (Tensor τ))}
    {ts : List (Tensor τ)} (h : Acts E version n.type n.attrs Ps Qs) (hts : n.inputs.mapM σ = some ts)
    (hPs : List.Forall₂ (fun P t => P t) Ps ts) (hout : n.outputs.length = Qs.length) :
    ∃ us, n.run E version σ = some (σ.write n.outputs (us.map some)) ∧
      List.Forall₂ (fun Q u => Q u) Qs us := by
  obtain ⟨us, hus, hQs⟩ := h.gives ts hPs
  refine ⟨us, ?_, hQs⟩
  simp only [run, hts, hout, hus, Option.bind_eq_bind, Option.bind_some, if_pos hQs.length_eq.symm]

theorem Node.run_of_balks (n : Node) {Ps : List (Tensor τ → Prop)} {σ : Store (Option (Tensor τ))}
    {ts : List (Tensor τ)} (h : Balks E version n.type n.attrs Ps) (hts : n.inputs.mapM σ = some ts)
    (hPs : List.Forall₂ (fun P t => P t) Ps ts) : n.run E version σ = none := by
  simp only [run, hts, h ts hPs, Option.bind_eq_bind, Option.bind_some, Option.bind_none]

/-! ### Computations with a value -/

namespace Gives

variable {p : Ahead} {Γ : Facts τ} {new : α → Facts τ}

theorem bind {x : Emit α} {f : α → Emit β} {later : β → Facts τ} (hx : Gives E version p Γ x new)
    (hf : ∀ a, Gives E version p (new a ++ Γ) (f a) later) : Gives E version p Γ (x >>= f) later :=
  fun d σ hd hk => by
    obtain ⟨d₁, a, ns, σ₁, hd₁, hem, hrun, hk₁⟩ := hx d σ hd hk
    obtain ⟨d₂, b, ms, σ₂, hd₂, hem', hrun', hk₂⟩ := hf a d₁ σ₁ hd₁ hk₁
    refine ⟨d₂, b, ns ++ ms, σ₂, hd₂, hem.bind hem', (runNodes_append hrun).trans hrun', hk₂.mono ?_⟩
    exact append_subset.2 ⟨subset_append_left _ _,
      subset_append_of_subset_right _ (subset_append_right _ _)⟩

theorem computed {e : Except Slip α} {f : α → Emit β} {later : β → Facts τ} {a : α} (ha : e = .ok a)
    (h : Gives E version p Γ (f a) later) : Gives E version p Γ (liftM e >>= f) later := fun d σ hd hk => by
  obtain ⟨d', b, ns, σ', hd', hem, hrun, hk'⟩ := h d σ hd hk
  exact ⟨d', b, ns, σ', hd', hem.computed ha, hrun, hk'⟩

theorem versioned {f : Int → Emit α} (h : Gives E version p Γ (f version) new) :
    Gives E version p Γ (opset >>= f) new := fun d σ hd hk => by
  obtain ⟨d', a, ns, σ', hd', hem, hrun, hk'⟩ := h d σ hd hk
  exact ⟨d', a, ns, σ', hd', .versioned (hd.symm ▸ hem), hrun, hk'⟩

variable {type : String} {attrs : Attrs} {vs : List Value} {P Q : Tensor τ → Prop} {Ps : List (Tensor τ → Prop)}

/-- **A node that makes up the name of its output.** -/
theorem node {inputs : Value} [hsay : Γ.SayAll vs Ps] (hin : givenInputs inputs = .list vs) (hmade : p.made = true)
    (hacts : Acts E version type attrs Ps [Q]) :
    Gives E version p Γ (Emit.node type inputs attrs) fun v => [(v, Q)] := fun d σ hd hk => by
  let n := Node.asked type (d.count type) vs [.str (numbered type (d.count type))] attrs
  have hem := emission_node d (hin ▸ inputList_texts (hk.texts_of_facts hsay.all)) hacts.recordable
  obtain ⟨ts, hts, hPs⟩ := hk.reads hsay.all
  obtain ⟨us, hrun, hus⟩ := n.run_of_acts hacts hts hPs rfl
  obtain ⟨u, rfl⟩ := length_eq_one_iff.1 hus.length_eq.symm
  have hmake := hk.make hmade (d.count_adding_le n) le_rfl (d.count_adding_self n).ge
  exact ⟨d.adding n, _, [n], _, hd, hem, runNodes_cons hrun, hmake.give (.cons (forall₂_cons.1 hus).1 .nil)⟩

theorem nodeOf {v : Value} [hsay : Γ.Says v P] (hmade : p.made = true) (hacts : Acts E version type attrs [P] [Q]) :
    Gives E version p Γ (Emit.node type v attrs) fun w => [(w, Q)] := fun d σ hd hk => by
  obtain ⟨s, rfl⟩ := (hk.spared _ hsay.mem).text
  have hlisted : Emit.node type (.str s) attrs = Emit.node type (.list [.str s]) attrs := rfl
  rw [hlisted]
  exact node rfl hmade hacts d σ hd hk

/-- **A range of a list, in either form**: as attributes, or as constants. -/
theorem cut (hE : E.Exact) {v : Value} {ns : List Int} {a b : Int} [hsay : Γ.Says v (listing E ns)]
    (hmade : p.made = true) :
    Gives E version p Γ (Emit.cut v (.ints [0]) (.ints [a]) (.ints [b])) fun w =>
      [(w, listing E (((Cut.mk 0 a b 1).selects ns.length).map (ns.getD · 0)))] := by
  unfold Emit.cut cutTo
  refine .versioned ?_
  by_cases hversion : version < 10
  · rw [if_pos hversion]
    exact .nodeOf hmade (acts_slice_attrs hversion)
  · rw [if_neg hversion]
    refine .bind (.node rfl hmade (acts_constant_ints hE [0])) fun axes => ?_
    refine .bind (.node rfl hmade (acts_constant_ints hE [a])) fun starts => ?_
    refine .bind (.node rfl hmade (acts_constant_ints hE [b])) fun stops => ?_
    exact .node rfl hmade (acts_slice_axes (Int.not_lt.1 hversion))

end Gives

namespace Leads

variable {p : Ahead} {Γ Γ' Δ : Facts τ} {f : α → Emit Unit} {outcome : Option (Store (Option (Tensor τ))) → Prop}

theorem mono [hsub : Γ'.Within Γ] {x : Emit Unit} (h : Leads E version p Γ' x outcome) :
    Leads E version p Γ x outcome :=
  fun d σ hd hk => h d σ hd (hk.mono hsub.subset)

/-- Nothing is left to be done. -/
theorem done [h : Δ.Within Γ] : Leads E version p Γ (pure ()) Δ.HoldAfter := fun d σ _ hk =>
  ⟨d, [], (Quiet.pure ()).emission rfl, σ, rfl, fun e he => hk.holds e (h.subset he)⟩

theorem last {x : Emit Unit} (h : Leads E version p Γ (x >>= fun _ => pure ()) outcome) :
    Leads E version p Γ x outcome := by
  rwa [bind_pure_unit] at h

theorem computed {e : Except Slip α} {a : α} (ha : e = .ok a) (h : Leads E version p Γ (f a) outcome) :
    Leads E version p Γ (liftM e >>= f) outcome := fun d σ hd hk => by
  obtain ⟨d', ns, hem, hrun⟩ := h d σ hd hk
  exact ⟨d', ns, hem.computed ha, hrun⟩

theorem granted {e : Except Fault α} {a : α} (ha : e = .ok a) (h : Leads E version p Γ (f a) outcome) :
    Leads E version p Γ (liftM e >>= f) outcome := fun d σ hd hk => by
  obtain ⟨d', ns, hem, hrun⟩ := h d σ hd hk
  exact ⟨d', ns, hem.granted ha, hrun⟩

theorem checked {e : Except Slip α} {a : α} (ha : e = .ok a) {f : Unit → Emit Unit}
    (h : Leads E version p Γ (f ()) outcome) : Leads E version p Γ (discard (liftM e) >>= f) outcome := by
  rw [Emits.discard_eq, bind_assoc]
  refine .computed ha ?_
  rwa [pure_bind]

theorem versioned {f : Int → Emit Unit} (h : Leads E version p Γ (f version) outcome) :
    Leads E version p Γ (opset >>= f) outcome := fun d σ hd hk => by
  obtain ⟨d', ns, hem, hrun⟩ := h d σ hd hk
  exact ⟨d', ns, .versioned (hd.symm ▸ hem), hrun⟩

theorem edited {x : Emit α} {a : α} (hx : ∀ d, ∃ e, Emission x d { d with edits := e } a [])
    (h : Leads E version p Γ (f a) outcome) : Leads E version p Γ (x >>= f) outcome := fun d σ hd hk => by
  obtain ⟨e, he⟩ := hx d
  obtain ⟨d', ns, hem, hrun⟩ := h { d with edits := e } σ hd
    { hk with spared := fun e he => { hk.spared e he with } }
  exact ⟨d', ns, he.bind hem, hrun⟩

theorem noted (name : String) (v : Value) {f : Unit → Emit Unit} (h : Leads E version p Γ (f ()) outcome) :
    Leads E version p Γ (editAttr name v >>= f) outcome := .edited (fun d => ⟨_, emission_editAttr name v d⟩) h

variable {type : String} {attrs : Attrs} {vs : List Value} {Ps : List (Tensor τ → Prop)}

/-- What comes first gives a value. -/
theorem after {x : Emit α} {new : α → Facts τ} (hx : Gives E version p Γ x new)
    (h : ∀ a, Leads E version p (new a ++ Γ) (f a) outcome) : Leads E version p Γ (x >>= f) outcome :=
  fun d σ hd hk => by
    obtain ⟨d₁, a, ns, σ₁, hd₁, hem, hrun, hk₁⟩ := hx d σ hd hk
    obtain ⟨d', ms, hem', hrun'⟩ := h a d₁ σ₁ hd₁ hk₁
    exact ⟨d', ns ++ ms, hem.bind hem', by rwa [runNodes_append hrun]⟩

theorem node {inputs : Value} {Q : Tensor τ → Prop} {f : Value → Emit Unit} [hsay : Γ.SayAll vs Ps]
    (hin : givenInputs inputs = .list vs) (hmade : p.made = true) (hacts : Acts E version type attrs Ps [Q])
    (h : ∀ v, Leads E version p ((v, Q) :: Γ) (f v) outcome) :
    Leads E version p Γ (Emit.node type inputs attrs >>= f) outcome := .after (.node hin hmade hacts) h

theorem cut (hE : E.Exact) {f : Value → Emit Unit} {v : Value} {ns : List Int} {a b : Int}
    [hsay : Γ.Says v (listing E ns)] (hmade : p.made = true)
    (h : ∀ w, Leads E version p
      ((w, listing E (((Cut.mk 0 a b 1).selects ns.length).map (ns.getD · 0))) :: Γ) (f w) outcome) :
    Leads E version p Γ (Emit.cut v (.ints [0]) (.ints [a]) (.ints [b]) >>= f) outcome := .after (.cut hE hmade) h

/-- **A node that writes the names that are listed next.** -/
theorem nodeTo (new : Facts τ) (rest : List Value) {inputs : Value} {made : Bool} {f : Unit → Emit Unit}
    [hsay : Γ.SayAll vs Ps] (hin : givenInputs inputs = .list vs) (hne : new ≠ [])
    (hacts : Acts E version type attrs Ps (new.map Prod.snd))
    (h : Leads E version ⟨made, rest⟩ (new ++ Γ) (f ()) outcome) :
    Leads E version ⟨made, new.map Prod.fst ++ rest⟩ Γ
      (discard (Emit.nodeTo type inputs (.list (new.map Prod.fst)) attrs) >>= f) outcome := by
  intro d σ hd hk
  obtain ⟨os, hos⟩ := exists_map_str fun v hv => hk.texts v (mem_append_left rest hv)
  obtain ⟨o, os, rfl⟩ := exists_cons_of_ne_nil fun h : os = [] =>
    hne (map_eq_nil_iff.1 (hos.trans (h ▸ rfl)))
  let n := Node.asked type (d.count type) vs (new.map Prod.fst) attrs
  have hem : Emission (discard (Emit.nodeTo type inputs (.list (new.map Prod.fst)) attrs)) d (d.adding n) ()
      [n] := by
    have hstrs := (emission_nodeTo d (hin ▸ inputList_texts (hk.texts_of_facts hsay.all)) o os hacts.recordable).discarded
    rwa [Value.strs, ← hos] at hstrs
  obtain ⟨ts, hts, hPs⟩ := hk.reads hsay.all
  obtain ⟨us, hrun, hus⟩ := n.run_of_acts hacts hts hPs ((length_map _).trans (length_map _).symm)
  have hgiven := forall₂_map_left_iff.1 hus
  obtain ⟨d', ns, hem', hrun'⟩ := h (d.adding n) _ hd ((hk.later (d.count_adding_le n)).give hgiven)
  refine ⟨d', _, hem.bind hem', ?_⟩
  rwa [singleton_append, runNodes_cons hrun]

/-- A node that writes the one name that is listed next. -/
theorem toOne (Q : Tensor τ → Prop) {v inputs : Value} {rest : List Value} {made : Bool} {f : Unit → Emit Unit}
    [hsay : Γ.SayAll vs Ps] (hin : givenInputs inputs = .list vs) (hacts : Acts E version type attrs Ps [Q])
    (h : Leads E version ⟨made, rest⟩ ((v, Q) :: Γ) (f ()) outcome) :
    Leads E version ⟨made, v :: rest⟩ Γ (discard (Emit.nodeTo type inputs (.list [v]) attrs) >>= f) outcome :=
  nodeTo [(v, Q)] rest hin (cons_ne_nil _ _) hacts h

/-- Names that are not written after all. -/
theorem skip (names : List Value) {rest : List Value} {made : Bool} {x : Emit Unit}
    (h : Leads E version ⟨made, rest⟩ Γ x outcome) : Leads E version ⟨made, names ++ rest⟩ Γ x outcome :=
  fun d σ hd hk => h d σ hd (hk.skip names)

/-- What is known implies more. -/
theorem also {v : Value} {P Q : Tensor τ → Prop} {x : Emit Unit} [hsay : Γ.Says v P] (hPQ : ∀ t, P t → Q t)
    (h : Leads E version p ((v, Q) :: Γ) x outcome) : Leads E version p Γ x outcome := fun d σ hd hk => by
  refine h d σ hd { hk with spared := fun e he => ?_, holds := fun e he => ?_ }
  · rcases mem_cons.1 he with rfl | he
    · exact hk.spared (v, P) hsay.mem
    · exact hk.spared e he
  · rcases mem_cons.1 he with rfl | he
    · obtain ⟨t, ht, hP⟩ := hk.holds _ hsay.mem
      exact ⟨t, ht, hPQ t hP⟩
    · exact hk.holds e he

/-- **A node that cannot be run**, whatever comes after it. -/
theorem stuck (vs : List Value) [hsay : Γ.SayAll vs Ps] (hbalks : Balks E version type attrs Ps) {x : Emit α}
    (hx : ∀ d, Node.inputList (.list vs) = .ok vs → ∃ n a, (n.type = type ∧ n.attrs = attrs ∧ n.inputs = vs) ∧
      Emission x d (d.adding n) a [n] ∧ ∃ d' ns, Emission (f a) (d.adding n) d' () ns) :
    Leads E version p Γ (x >>= f) (· = none) := fun d σ _ hk => by
  obtain ⟨n, a, ⟨rfl, rfl, rfl⟩, hem, d', ns, hem'⟩ := hx d (inputList_texts (hk.texts_of_facts hsay.all))
  obtain ⟨ts, hts, hPs⟩ := hk.reads hsay.all
  refine ⟨d', _, hem.bind hem', ?_⟩
  rw [singleton_append, runNodes, foldlM_cons, n.run_of_balks hbalks hts hPs]
  rfl

end Leads

/-! ## Names by marks -/

def markedNames (base : String) (marks : List String) : List Value := marks.map fun m => .str (base ++ m)

/-- A text that does not end in a digit. -/
def endsPlainly (s : String) : Bool := s.toList.getLast?.any fun c => !c.isDigit

theorem endsPlainly_append (base : String) {m : String} (h : endsPlainly m = true) :
    endsPlainly (base ++ m) = true := by
  obtain ⟨c, hlast, hc⟩ := (Option.any_eq_true _ _).1 h
  rw [endsPlainly, String.toList_append, getLast?_append, hlast]
  exact hc

/-- A name that does not end in a digit is never made up. -/
theorem Draft.unmade_of_endsPlainly {s : String} (h : endsPlainly s = true) (d : Draft) : d.Unmade (.str s) := by
  obtain ⟨c, hlast, hc⟩ := (Option.any_eq_true _ _).1 h
  intro type k _ heq
  obtain rfl := Value.str.inj heq
  have hne : Nat.toDigits 10 k ≠ [] := Nat.toDigits_ne_nil
  rw [toList_numbered, getLast?_append_cons, getLast?_cons_of_ne_nil hne] at hlast
  exact not_mem_toDigits (by simpa using hc) k (mem_of_getLast? hlast)

/-- **Names that keep apart**: what is read is not written, what is written has different names, and none of
these is a name made by marks. -/
structure NamesApart (base : String) (marks inputs outputs : List String) : Prop where
  nodup : outputs.Nodup
  unwritten : ∀ x ∈ inputs, x ∉ outputs
  unmarked : ∀ x ∈ inputs ++ outputs, ∀ m ∈ marks, x ≠ base ++ m

/-- What is known before any node has run. -/
theorem NamesApart.knows {base : String} {marks inputs outputs : List String} {Γ : Facts τ}
    (h : NamesApart base marks inputs outputs) (hmarks : marks.Nodup) {made : Bool} {d : Draft}
    (hmade : made = true → (∀ x ∈ inputs ++ outputs, d.Unmade (.str x)) ∧ ∀ m ∈ marks, d.Unmade (.str (base ++ m)))
    {σ : Store (Option (Tensor τ))} (hΓ : ∀ e ∈ Γ, ∃ x ∈ inputs, e.1 = .str x)
    (hholds : ∀ e ∈ Γ, ∃ t, σ e.1 = some t ∧ e.2 t) :
    Knows ⟨made, markedNames base marks ++ outputs.map .str⟩ Γ d σ where
  nodup := by
    refine nodup_append.2 ⟨hmarks.map fun m n hmn => ?_, h.nodup.map fun _ _ => Value.str.inj, ?_⟩
    · exact String.append_right_inj .. |>.1 (Value.str.inj hmn)
    · intro v hv w hw hvw
      obtain ⟨m, hm, rfl⟩ := mem_map.1 hv
      obtain ⟨o, ho, rfl⟩ := mem_map.1 hw
      exact h.unmarked o (mem_append_right _ ho) m hm (Value.str.inj hvw).symm
  texts v hv := by
    rcases mem_append.1 hv with hv | hv
    · obtain ⟨m, -, rfl⟩ := mem_map.1 hv
      exact ⟨_, rfl⟩
    · obtain ⟨o, -, rfl⟩ := mem_map.1 hv
      exact ⟨_, rfl⟩
  unmade hm v hv := by
    rcases mem_append.1 hv with hv | hv
    · obtain ⟨m, hmem, rfl⟩ := mem_map.1 hv
      exact (hmade hm).2 m hmem
    · obtain ⟨o, ho, rfl⟩ := mem_map.1 hv
      exact (hmade hm).1 o (mem_append_right _ ho)
  spared e he := by
    obtain ⟨x, hx, hex⟩ := hΓ e he
    rw [hex]
    refine ⟨⟨x, rfl⟩, fun hmem => ?_, fun hm => (hmade hm).1 x (mem_append_left _ hx)⟩
    rcases mem_append.1 hmem with hmem | hmem
    · obtain ⟨m, hm, hxm⟩ := mem_map.1 hmem
      exact h.unmarked x (mem_append_left _ hx) m hm (Value.str.inj hxm).symm
    · obtain ⟨o, ho, hxo⟩ := mem_map.1 hmem
      exact h.unwritten x hx (Value.str.inj hxo ▸ ho)
  holds := hholds

/-! ## Nodes that cannot be run -/

theorem runNodes_eq_none {E : Elements τ} {version : Int} {n : Node} {ns : List Node} (hn : n ∈ ns)
    (h : ∀ σ, n.run E version σ = none) (σ : Store (Option (Tensor τ))) : runNodes E version ns σ = none := by
  induction ns generalizing σ with
  | nil => cases hn
  | cons m ns ih =>
    rw [runNodes, foldlM_cons]
    rcases mem_cons.1 hn with rfl | hn
    · rw [h]
      rfl
    · cases hm : m.run E version σ with
      | none => rfl
      | some σ₁ => exact ih hn σ₁

/-- Axes to drop are no attribute any more. -/
theorem Node.run_squeeze {E : Elements τ} {version : Int} (hversion : listInputFrom ≤ version) {n : Node}
    (htype : n.type = "Squeeze") (σ : Store (Option (Tensor τ))) : n.run E version σ = none := by
  have hattr : ∀ attrs name, listAttr version attrs name = none := fun attrs name =>
    if_neg (Int.not_lt.2 hversion)
  have hnone : ∀ attrs ts, resultOf E version "Squeeze" attrs ts = none := fun attrs ts => by
    have hmem : ("Squeeze", ts.length) ∉ elementwiseArity := by simp [elementwiseArity]
    rw [resultOf.eq_def, if_neg hmem]
    rcases ts with _ | ⟨t, _ | ⟨_, _⟩⟩
    · rfl
    · exact congrArg (fun axes : Option (List Int) => (axes.bind _).bind _) (hattr attrs "axes")
    · rfl
  unfold run operation
  cases n.inputs.mapM σ with
  | none => rfl
  | some ts => simp [htype, hnone, severalOutputs]

/-- A rule that adds a node to drop axes. -/
def Rule.squeezes (rule : Rule) (op : OpNode) (d : Draft) : Bool :=
  match EStateM.run (rule op) d with
  | .ok _ d' => (d'.nodes.map Prod.snd).any fun n => n.type == "Squeeze"
  | .error _ _ => false

/-- The rule succeeds, but its nodes do not fit the version. -/
theorem Rule.exists_unrunnable {rule : Rule} {r : Registry} {exportType : ExportType} {op : OpNode} {d : Draft}
    (h : rule.squeezes op d = true) (hversion : listInputFrom ≤ d.opset)
    (hno : r.composite? (.str op.type) = none) (hrule : r.ruleFor op.type d.opset = .ok rule) (depth : Nat) :
    ∃ d', EStateM.run (mapUpTo r exportType (depth + 1) op) d = .ok () d' ∧
      ∀ (τ : Type) (E : Elements τ) (σ : Store (Option (Tensor τ))),
        runNodes E d.opset (d'.nodes.map Prod.snd) σ = none := by
  unfold squeezes at h
  split at h
  · rename_i d' hrun
    obtain ⟨n, hn, htype⟩ := any_eq_true.1 h
    refine ⟨d', ?_, fun τ E σ => runNodes_eq_none hn (Node.run_squeeze hversion (beq_iff_eq.1 htype)) σ⟩
    rw [run_mapUpTo_of_rule hno hrule, seenFrom, Emits.run_tryCatch, hrun]
  · cases h

end ModelExport
