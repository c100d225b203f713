import Mathlib.Data.List.Perm.Subperm
import Mathlib.Order.Nat
import ModelExport.Proofs.Renaming.Pass

/-!
# Proofs/Emission/Growth — what a computation may add to a draft

Rules only ever add to a draft.  `Growth V d d'` says what: nodes behind those that are there, under
generated names, and outputs that are either generated names, each made once, or among the names `V`
that the computation was given.
-/

namespace ModelExport

open List
open EStateM (run)

variable {domain inputs outputs v w : Value} {attrs : Attrs} {d : Draft} {name s : String}
  {n : Node}

/-! ## Runs that succeed -/

namespace Emit

variable {α β : Type} {d d' : Draft}

theorem bind_ok {x : Emit α} {f : α → Emit β} {b : β}
    (h : run (x >>= f) d = .ok b d') :
    ∃ a d₁, run x d = .ok a d₁ ∧ run (f a) d₁ = .ok b d' := by
  rw [EStateM.run_bind] at h
  cases hx : run x d with
  | ok a d₁ =>
    rw [hx] at h
    exact ⟨a, d₁, rfl, h⟩
  | error f d₁ => simp [hx] at h

theorem run_bind_of_ok {x : Emit α} {f : α → Emit β} {a : α} {d₁ : Draft}
    (h : run x d = .ok a d₁) : run (x >>= f) d = run (f a) d₁ := by
  rw [EStateM.run_bind, h]

theorem computed_bind (a : α) (f : α → Emit β) : liftM (.ok a : Except Slip α) >>= f = f a := rfl

theorem except_bind_ok {ε : Type} {x : Except ε α} {f : α → Except ε β} {b : β}
    (h : x >>= f = .ok b) : ∃ a, x = .ok a ∧ f a = .ok b := by
  cases x with
  | error e => cases h
  | ok a => exact ⟨a, rfl, h⟩

theorem pure_ok {a b : α} (h : run (pure a : Emit α) d = .ok b d') : b = a ∧ d' = d := by
  simp only [EStateM.run_pure, EStateM.Result.ok.injEq] at h
  exact ⟨h.1.symm, h.2.symm⟩

theorem slip_ok {e : Except Slip α} {a : α} (h : run (liftM e : Emit α) d = .ok a d') :
    e = .ok a ∧ d' = d := by
  cases e with
  | ok b =>
    obtain ⟨rfl, rfl⟩ := pure_ok h
    exact ⟨rfl, rfl⟩
  | error s => cases h

theorem fault_ok {e : Except Fault α} {a : α} (h : run (liftM e : Emit α) d = .ok a d') :
    e = .ok a ∧ d' = d := by
  cases e with
  | ok b =>
    obtain ⟨rfl, rfl⟩ := pure_ok h
    exact ⟨rfl, rfl⟩
  | error s => cases h

/-- What is computed first is computed, and the rest runs from the same draft. -/
theorem computed_ok {e : Except Slip α} {f : α → Emit β} {b : β} (h : run (liftM e >>= f) d = .ok b d') :
    ∃ a, e = .ok a ∧ run (f a) d = .ok b d' := by
  obtain ⟨a, d₁, hlift, hrest⟩ := bind_ok h
  obtain ⟨ha, rfl⟩ := slip_ok hlift
  exact ⟨a, ha, hrest⟩

theorem granted_ok {e : Except Fault α} {f : α → Emit β} {b : β} (h : run (liftM e >>= f) d = .ok b d') :
    ∃ a, e = .ok a ∧ run (f a) d = .ok b d' := by
  obtain ⟨a, d₁, hlift, hrest⟩ := bind_ok h
  obtain ⟨ha, rfl⟩ := fault_ok hlift
  exact ⟨a, ha, hrest⟩

theorem modify_ok {f : Draft → Draft} {a : PUnit} (h : run (modify f : Emit PUnit) d = .ok a d') :
    d' = f d := by
  cases h
  rfl

end Emit

/-! ## Tidy drafts -/

/-- How many names of a type have been made. -/
def Draft.count (d : Draft) (type : String) : Nat := (Assoc.get? d.counts type).getD 0

/-- **A tidy draft**: nodes are well kept, have their records and bear generated names of their own
type; weights stand under the name they write. -/
structure Draft.Tidy (d : Draft) : Prop where
  kept : d.nodes.Kept
  recorded : ∀ e ∈ d.nodes, e.2.renewed = e.2
  numbered : ∀ e ∈ d.nodes, ∃ k, e.1 = numbered e.2.type k ∧ k < d.count e.2.type
  weights : ∀ e ∈ d.weights, e.2.outputs = [.str e.1]
  distinct : (Assoc.keys d.weights).Nodup

theorem Draft.Tidy.congr {d' : Draft} (h : d.Tidy) (hnodes : d'.nodes = d.nodes)
    (hcounts : d'.counts = d.counts) (hweights : d'.weights = d.weights) : d'.Tidy := by
  refine ⟨?_, ?_, ?_, ?_, ?_⟩
  · exact hnodes ▸ h.kept
  · exact hnodes ▸ h.recorded
  · unfold Draft.count
    rw [hnodes, hcounts]
    exact h.numbered
  · exact hweights ▸ h.weights
  · exact hweights ▸ h.distinct

theorem Draft.tidy_empty (opset : Int) (expansions renames : NameCounts) :
    Draft.Tidy { opset, expansions, renames } := by
  refine ⟨⟨nodup_nil, ?_, ?_, ?_⟩, ?_, ?_, ?_, nodup_nil⟩ <;>
    exact fun e he => absurd he not_mem_nil

theorem Draft.Tidy.next_notMem (hd : d.Tidy) (type : String) :
    ModelExport.numbered type (d.count type) ∉ Assoc.keys d.nodes := by
  intro hmem
  obtain ⟨e, he, hname⟩ := mem_map.1 hmem
  obtain ⟨k, hk, hlt⟩ := hd.numbered e he
  obtain ⟨htype, rfl⟩ := numbered_inj.1 (hk.symm.trans hname)
  rw [htype] at hlt
  exact Nat.lt_irrefl _ hlt

/-! ## Batches -/

/-- A tensor is written once more, by a node that reads it. -/
def RewrittenIn (ns : List Node) (v : Value) : Prop :=
  ∃ (i j : Nat) (n m : Node), i < j ∧ ns[i]? = some n ∧ ns[j]? = some m ∧ v ∈ n.outputs ∧
    v ∈ m.inputs ∧ v ∈ m.outputs

theorem RewrittenIn.append_right {ns : List Node} (h : RewrittenIn ns v) (ms : List Node) :
    RewrittenIn (ns ++ ms) v := by
  obtain ⟨i, j, n, m, hij, hn, hm, hv⟩ := h
  have hlt : ∀ {l : Nat} {a : Node}, ns[l]? = some a → (ns ++ ms)[l]? = some a := fun h => by
    rw [getElem?_append_left (List.getElem?_eq_some_iff.1 h).1, h]
  exact ⟨i, j, n, m, hij, hlt hn, hlt hm, hv⟩

theorem RewrittenIn.append_left {ms : List Node} (ns : List Node) (h : RewrittenIn ms v) :
    RewrittenIn (ns ++ ms) v := by
  obtain ⟨i, j, n, m, hij, hn, hm, hv⟩ := h
  have hat : ∀ l : Nat, (ns ++ ms)[ns.length + l]? = ms[l]? := fun l => by
    rw [getElem?_append_right (Nat.le_add_right _ _), Nat.add_sub_cancel_left]
  exact ⟨ns.length + i, ns.length + j, n, m, Nat.add_lt_add_left hij _, (hat i).trans hn,
    (hat j).trans hm, hv⟩

/-- Some node reads what cannot be looked up. -/
def UnreadableIn (ns : List Node) : Prop := ∃ n ∈ ns, ∃ v ∈ n.inputs, v.isKey = false

/-- **What a computation has added**: nodes, weights, and where the names that they write come from —
made by counting, given, or given and written already. -/
structure Batch where
  nodes : List Node := []
  weights : List String := []
  made : List String := []
  given : List Value := []
  again : List Value := []

namespace Batch

/-- The names that nodes and weights write. -/
def written (b : Batch) : List Value := b.nodes.flatMap Node.outputs ++ b.weights.map Value.str

def append (b c : Batch) : Batch :=
  { nodes := b.nodes ++ c.nodes, weights := b.weights ++ c.weights, made := b.made ++ c.made,
    given := b.given ++ c.given, again := b.again ++ c.again }

/-- **A batch that leads from one draft to another, with names of `V` given.**  Made names are those
counted in between, each once.  A name that is written again is written by a node that reads it, or
else some node reads no name at all. -/
structure Leads (b : Batch) (V : List Value) (d d' : Draft) : Prop where
  nodes : d'.nodes = d.nodes ++ NodeMap.ofNodes b.nodes
  weights : Assoc.keys d'.weights = Assoc.keys d.weights ++ b.weights
  distinct : b.made.Nodup
  counted : ∀ s ∈ b.made, ∃ type k, s = numbered type k ∧ d.count type ≤ k ∧ k < d'.count type
  written : b.written.Perm (b.given ++ b.again ++ b.made.map Value.str)
  given : b.given.Subperm V
  again : b.again.Subperm V
  reread : UnreadableIn b.nodes ∨ ∀ v ∈ b.again, RewrittenIn b.nodes v

theorem leads_empty (V : List Value) {d' : Draft} (hnodes : d'.nodes = d.nodes)
    (hweights : d'.weights = d.weights) : Leads {} V d d' where
  nodes := hnodes.trans (append_nil _).symm
  weights := (congrArg Assoc.keys hweights).trans (append_nil _).symm
  distinct := nodup_nil
  counted := fun _ hs => absurd hs not_mem_nil
  written := .refl _
  given := nil_subperm
  again := nil_subperm
  reread := Or.inr fun _ hv => absurd hv not_mem_nil

variable {b c : Batch} {V W : List Value} {d d' d'' : Draft}

theorem append_append_perm {α : Type*} (a b c d : List α) :
    ((a ++ b) ++ (c ++ d)).Perm ((a ++ c) ++ (b ++ d)) := by
  rw [append_assoc, append_assoc]
  exact (perm_append_comm_assoc b c d).append_left a

theorem written_append : (b.append c).written.Perm (b.written ++ c.written) := by
  rw [written, append, flatMap_append, map_append]
  exact append_append_perm _ _ _ _

/-- **Batches compose.**  Names of the one and of the other are different, since counts only grow. -/
theorem Leads.trans (hb : b.Leads V d d') (hc : c.Leads W d' d'')
    (h₁ : ∀ type, d.count type ≤ d'.count type) (h₂ : ∀ type, d'.count type ≤ d''.count type) :
    (b.append c).Leads (V ++ W) d d'' where
  nodes := by
    rw [hc.nodes, hb.nodes, append, NodeMap.ofNodes, NodeMap.ofNodes, NodeMap.ofNodes,
      map_append, append_assoc]
  weights := by rw [hc.weights, hb.weights, append, append_assoc]
  distinct := by
    refine nodup_append.2 ⟨hb.distinct, hc.distinct, ?_⟩
    rintro x hx y hy rfl
    obtain ⟨t, j, hj, -, hlt⟩ := hb.counted x hx
    obtain ⟨u, k, hk, hle, -⟩ := hc.counted x hy
    obtain ⟨rfl, rfl⟩ := numbered_inj.1 (hj.symm.trans hk)
    exact absurd hlt (Nat.not_lt.2 hle)
  counted := fun x hx => by
    rcases mem_append.1 hx with hx | hx
    · obtain ⟨t, k, hk, hle, hlt⟩ := hb.counted x hx
      exact ⟨t, k, hk, hle, hlt.trans_le (h₂ t)⟩
    · obtain ⟨t, k, hk, hle, hlt⟩ := hc.counted x hx
      exact ⟨t, k, hk, (h₁ t).trans hle, hlt⟩
  written := by
    refine written_append.trans ((hb.written.append hc.written).trans ?_)
    rw [append, map_append]
    exact (append_append_perm _ _ _ _).trans ((append_append_perm _ _ _ _).append_right _)
  given := hb.given.append hc.given
  again := hb.again.append hc.again
  reread := by
    rcases hb.reread with ⟨n, hn, hv⟩ | hb
    · exact Or.inl ⟨n, mem_append_left _ hn, hv⟩
    · rcases hc.reread with ⟨n, hn, hv⟩ | hc
      · exact Or.inl ⟨n, mem_append_right _ hn, hv⟩
      · refine Or.inr fun v hv => ?_
        rcases mem_append.1 hv with hv | hv
        · exact (hb v hv).append_right _
        · exact (hc v hv).append_left _

theorem Leads.mono (h : b.Leads V d d') (hVW : V.Subperm W) : b.Leads W d d' :=
  { h with given := h.given.trans hVW, again := h.again.trans hVW }

theorem Leads.mem_written (h : b.Leads V d d') (hv : v ∈ b.written) : v ∈ V ∨ ∃ s ∈ b.made, v = .str s := by
  rcases mem_append.1 (h.written.subset hv) with hv | hv
  · rcases mem_append.1 hv with hv | hv
    · exact Or.inl (h.given.subset hv)
    · exact Or.inl (h.again.subset hv)
  · obtain ⟨s, hs, rfl⟩ := mem_map.1 hv
    exact Or.inr ⟨s, hs, rfl⟩

end Batch

/-! ## Growth -/

/-- **What a computation that was given the names `V` may do to a draft.** -/
structure Growth (V : List Value) (d d' : Draft) : Prop where
  tidy : d'.Tidy
  counts : ∀ type, d.count type ≤ d'.count type
  inputs : d'.inputs = d.inputs
  outputs : d'.outputs = d.outputs
  renames : d'.renames = d.renames
  adds : ∃ b : Batch, b.Leads V d d'

namespace Growth

variable {V W : List Value} {d d' d'' : Draft}

/-- **Growth composes**, and so do the names given. -/
theorem trans (h₁ : Growth V d d') (h₂ : Growth W d' d'') : Growth (V ++ W) d d'' := by
  obtain ⟨b, hb⟩ := h₁.adds
  obtain ⟨c, hc⟩ := h₂.adds
  exact ⟨h₂.tidy, fun t => (h₁.counts t).trans (h₂.counts t), h₂.inputs.trans h₁.inputs,
    h₂.outputs.trans h₁.outputs, h₂.renames.trans h₁.renames, b.append c,
    hb.trans hc h₁.counts h₂.counts⟩

theorem mono (h : Growth V d d') (hVW : V.Subperm W) : Growth W d d' :=
  { h with adds := h.adds.imp fun _ hb => hb.mono hVW }

/-- Parts of a draft that nodes and names do not depend on may change. -/
theorem of_frame (V : List Value) (h : d.Tidy) (hd : d' = { d with
    opset := d'.opset, domains := d'.domains, notices := d'.notices, edits := d'.edits,
    kept := d'.kept, expansions := d'.expansions }) : Growth V d d' := by
  rw [hd]
  exact ⟨⟨h.kept, h.recorded, h.numbered, h.weights, h.distinct⟩, fun _ => le_rfl, rfl, rfl, rfl, {},
    Batch.leads_empty V rfl rfl⟩

end Growth

/-! ## Names of outputs -/

/-- The names among the members of an output list; a number asks for a new name instead. -/
def Value.givenName : Value → Option Value
  | .int _ => Option.none
  | .bool _ => Option.none
  | .object .node n => some (.str n)
  | v => some v

/-- **The names that a request for outputs gives.** -/
def Value.given : Value → List Value
  | .list xs => xs.filterMap Value.givenName
  | .str s => [.str s]
  | _ => []

/-- The names `T_i, …` of a type, from a number on. -/
def numberedFrom (type : String) (i n : Nat) : List String :=
  (List.range' i n).map (numbered type)

theorem nodup_numberedFrom (type : String) (i n : Nat) : (numberedFrom type i n).Nodup :=
  List.Nodup.map (fun _ _ h => (numbered_inj.1 h).2) nodup_range'

theorem mem_numberedFrom {type : String} {i n : Nat} :
    s ∈ numberedFrom type i n ↔ ∃ k, s = numbered type k ∧ i ≤ k ∧ k < i + n := by
  simp only [numberedFrom, mem_map, mem_range'_1]
  exact ⟨fun ⟨k, hk, he⟩ => ⟨k, he.symm, hk.1, hk.2⟩, fun ⟨k, he, hk⟩ => ⟨k, ⟨hk.1, hk.2⟩, he.symm⟩⟩

namespace Emit

variable {type : String} {d d' : Draft}

/-- **What making names does**: only counts change, and of one type only. -/
structure Advances (type : String) (n : Nat) (d d' : Draft) : Prop where
  only : d' = { d with counts := d'.counts }
  own : d'.count type = d.count type + n
  other : ∀ t, t ≠ type → d'.count t = d.count t

theorem Advances.refl (type : String) (d : Draft) : Advances type 0 d d := ⟨rfl, rfl, fun _ _ => rfl⟩

theorem Advances.trans {m n : Nat} {d'' : Draft} (h₁ : Advances type m d d')
    (h₂ : Advances type n d' d'') : Advances type (m + n) d d'' := by
  refine ⟨?_, by rw [h₂.own, h₁.own, Nat.add_assoc], fun t ht => by rw [h₂.other t ht, h₁.other t ht]⟩
  rw [h₂.only, h₁.only]

theorem freshName_ok (h : run (freshName type) d = .ok s d') :
    s = numbered type (d.count type) ∧ Advances type 1 d d' := by
  cases h
  refine ⟨rfl, rfl, ?_, fun t ht => ?_⟩
  · simp [Draft.count, Assoc.get?_insert]
  · simp [Draft.count, Assoc.get?_insert, ht]

theorem freshNames_ok : ∀ {n : Nat} {d d' : Draft} {vs : List Value},
    run (freshNames type n) d = .ok vs d' →
      vs = (numberedFrom type (d.count type) n).map Value.str ∧ Advances type n d d'
  | 0, d, d', vs, h => by
      obtain ⟨rfl, rfl⟩ := pure_ok h
      exact ⟨rfl, .refl type d'⟩
  | n + 1, d, d', vs, h => by
      obtain ⟨s, d₁, hs, h⟩ := bind_ok h
      obtain ⟨rfl, h₁⟩ := freshName_ok hs
      obtain ⟨ss, d₂, hss, h⟩ := bind_ok h
      obtain ⟨rfl, h₂⟩ := freshNames_ok hss
      obtain ⟨rfl, rfl⟩ := pure_ok h
      refine ⟨?_, by simpa [Nat.add_comm] using h₁.trans h₂⟩
      simp [numberedFrom, range'_succ, h₁.own]

theorem outputName_ok (h : run (outputName type v) d = .ok w d') :
    (v.givenName = some w ∧ Node.endpoint w = w ∧ d' = d) ∨
      (v.givenName = none ∧ w = .str (numbered type (d.count type)) ∧ Advances type 1 d d') := by
  have hfresh : ∀ {x : Value}, (do return .str (← freshName type) : Emit Value) = outputName type x →
      run (outputName type x) d = .ok w d' →
        w = .str (numbered type (d.count type)) ∧ Advances type 1 d d' := by
    intro x hx h
    rw [← hx] at h
    obtain ⟨s, d₁, hs, h⟩ := bind_ok h
    obtain ⟨rfl, h₁⟩ := freshName_ok hs
    obtain ⟨rfl, rfl⟩ := pure_ok h
    exact ⟨rfl, h₁⟩
  cases v with
  | int _ => exact Or.inr ⟨rfl, hfresh rfl h⟩
  | bool _ => exact Or.inr ⟨rfl, hfresh rfl h⟩
  | object k n => cases k <;> (obtain ⟨rfl, rfl⟩ := pure_ok h; exact Or.inl ⟨rfl, rfl, rfl⟩)
  | _ => obtain ⟨rfl, rfl⟩ := pure_ok h; exact Or.inl ⟨rfl, rfl, rfl⟩

/-- Outputs of a list: the given names and as many new ones as there are numbers. -/
theorem outputNames_ok : ∀ {vs ws : List Value} {d d' : Draft},
    run (outputNames type vs) d = .ok ws d' → ws.map Node.endpoint = ws ∧
      ∃ n, Advances type n d d' ∧ ws.Perm (vs.filterMap Value.givenName ++
        (numberedFrom type (d.count type) n).map Value.str)
  | [], ws, d, d', h => by
      obtain ⟨rfl, rfl⟩ := pure_ok h
      exact ⟨rfl, 0, .refl type d', .refl _⟩
  | v :: vs, ws, d, d', h => by
      obtain ⟨w, d₁, hw, h⟩ := bind_ok h
      obtain ⟨us, d₂, hus, h⟩ := bind_ok h
      obtain ⟨rfl, rfl⟩ := pure_ok h
      obtain ⟨hend, n, hadv, hperm⟩ := outputNames_ok hus
      rcases outputName_ok hw with ⟨hv, hwend, rfl⟩ | ⟨hv, rfl, h₁⟩
      · refine ⟨by rw [map_cons, hwend, hend], n, hadv, ?_⟩
        rw [filterMap_cons_some hv]
        exact hperm.cons w
      · refine ⟨by rw [map_cons, hend]; rfl, n + 1, by simpa [Nat.add_comm] using h₁.trans hadv, ?_⟩
        rw [filterMap_cons_none hv, numberedFrom, range'_succ, map_cons, map_cons]
        rw [h₁.own] at hperm
        exact (hperm.cons _).trans perm_middle.symm

/-- **Outputs that a request stands for**: given names, new names, or the node's own. -/
theorem outputsFor_ok {outs : List Value} (h : run (outputsFor type name v) d = .ok w d')
    (ho : Node.outputList w = .ok outs) :
    ∃ n own, Advances type n d d' ∧ (own = [] ∨ own = [name]) ∧
      outs.Perm (v.given ++ (own ++ numberedFrom type (d.count type) n).map Value.str) := by
  have hown : w = .list [.str name] → v.given = [] → d' = d → ∃ n own, Advances type n d d' ∧
      (own = [] ∨ own = [name]) ∧
      outs.Perm (v.given ++ (own ++ numberedFrom type (d.count type) n).map Value.str) := by
    rintro rfl hv rfl
    obtain rfl : [Value.str name] = outs := by simpa [Node.outputList, Node.endpoint] using ho
    exact ⟨0, [name], .refl type d', Or.inr rfl, by simp [hv, numberedFrom]⟩
  have hmade : ∀ {k : Nat} {vs : List Value}, run (freshNames type k) d = .ok vs d' →
      w = .list vs → v.given = [] → ∃ n own, Advances type n d d' ∧ (own = [] ∨ own = [name]) ∧
        outs.Perm (v.given ++ (own ++ numberedFrom type (d.count type) n).map Value.str) := by
    rintro k vs hvs rfl hv
    obtain ⟨rfl, hadv⟩ := freshNames_ok hvs
    refine ⟨k, [], hadv, Or.inl rfl, ?_⟩
    have : outs = (numberedFrom type (d.count type) k).map Value.str := by
      have := (Except.ok.inj ho).symm
      rw [this, map_map]
      rfl
    rw [this, hv]
    exact .refl _
  cases v with
  | none =>
    obtain ⟨rfl, rfl⟩ := pure_ok h
    exact hown rfl rfl rfl
  | int k =>
    obtain ⟨vs, d₁, hvs, h⟩ := bind_ok h
    obtain ⟨rfl, rfl⟩ := pure_ok h
    exact hmade hvs rfl rfl
  | bool b =>
    obtain ⟨vs, d₁, hvs, h⟩ := bind_ok h
    obtain ⟨rfl, rfl⟩ := pure_ok h
    exact hmade hvs rfl rfl
  | list xs =>
    cases xs with
    | nil =>
      obtain ⟨rfl, rfl⟩ := pure_ok h
      exact hown rfl rfl rfl
    | cons x xs =>
      obtain ⟨vs, d₁, hvs, h⟩ := bind_ok h
      obtain ⟨rfl, rfl⟩ := pure_ok h
      obtain ⟨hend, n, hadv, hperm⟩ := outputNames_ok hvs
      obtain rfl : vs = outs := by simpa [Node.outputList, hend] using ho
      exact ⟨n, [], hadv, Or.inl rfl, hperm⟩
  | str s =>
    obtain ⟨rfl, rfl⟩ := pure_ok h
    obtain rfl : [Value.str s] = outs := by simpa [Node.outputList] using ho
    exact ⟨0, [], .refl type d', Or.inl rfl, by simp [Value.given, numberedFrom]⟩
  | float _ | tuple _ | dict _ | object _ _ =>
    obtain ⟨rfl, rfl⟩ := pure_ok h
    cases ho

/-! ## Adding a node -/

theorem recorded_ok (h : Node.recorded type name inputs outputs attrs domain = .ok n) :
    n.type = type ∧ n.name = name ∧ Node.inputList inputs = .ok n.inputs ∧
      Node.outputList outputs = .ok n.outputs ∧ n.Recordable ∧ n.renewed = n := by
  unfold Node.recorded at h
  cases hin : Node.inputList inputs with
  | error f => simp [hin, bind, Except.bind] at h
  | ok ins =>
    cases hout : Node.outputList outputs with
    | error f => simp [hin, hout, bind, Except.bind] at h
    | ok outs =>
      cases hr : Node.recordOf type name ins outs attrs domain with
      | error f => simp [hin, hout, hr, bind, Except.bind] at h
      | ok r =>
        simp only [hin, hout, hr, bind, Except.bind, Except.ok.injEq] at h
        subst h
        refine ⟨rfl, rfl, rfl, rfl, ?_, ?_⟩
        · unfold Node.recordOf at hr
          by_cases hc : Node.isConstant type = true
          · exact Or.inl hc
          · rw [if_neg hc] at hr
            refine Or.inr fun a ha hres => ?_
            rw [if_pos (any_eq_true.2 ⟨a, ha, by simpa using hres⟩)] at hr
            cases hr
        · simp [Node.renewed, Node.ownRecord, hr, Except.toOption]

/-- The inputs that a request stands for: nothing is no input. -/
def givenInputs : Value → Value
  | .none => .list []
  | v => v

/-- **What adding a node under a fresh name does.** -/
structure AddsNode (type : String) (inputs outputs : Value) (d d' : Draft) (n : Node) : Prop where
  nodes : d'.nodes = NodeMap.keep d.nodes n
  weights : d'.weights = d.weights
  terminals : d'.inputs = d.inputs ∧ d'.outputs = d.outputs
  renames : d'.renames = d.renames
  opset : d'.opset = d.opset
  type_eq : n.type = type
  name_eq : n.name = numbered type (d.count type)
  recorded : n.Recordable ∧ n.renewed = n
  given : Node.inputList (givenInputs inputs) = .ok n.inputs
  writes : ∃ m own, d'.count type = d.count type + (1 + m) ∧ (own = [] ∨ own = [n.name]) ∧
    n.outputs.Perm
      (outputs.given ++ (own ++ numberedFrom type (d.count type + 1) m).map Value.str)
  exactly : ∀ s ss, outputs = .strs (s :: ss) → n.outputs = (s :: ss).map Value.str
  alone : outputs = .none ∨ outputs = .list [] → n.outputs = [.str n.name]
  other : ∀ t, t ≠ type → d'.count t = d.count t

theorem outputNames_strs (type : String) (ss : List String) (d : Draft) :
    run (outputNames type (ss.map Value.str)) d = .ok (ss.map Value.str) d := by
  induction ss with
  | nil => rfl
  | cons s ss ih =>
    simp only [map_cons, outputNames, outputName, EStateM.run_bind, EStateM.run_pure, ih]

theorem outputs_strs {ss : List String} {outs : List Value}
    (h : run (outputsFor type name (.strs (s :: ss))) d = .ok w d') (ho : Node.outputList w = .ok outs) :
    outs = (s :: ss).map Value.str := by
  obtain ⟨ws, d₁, hws, h₁⟩ := bind_ok h
  obtain ⟨rfl, rfl⟩ := pure_ok h₁
  have hrun := outputNames_strs type (s :: ss) d
  obtain ⟨rfl, -⟩ := EStateM.Result.ok.inj (hws.symm.trans hrun)
  rw [← Except.ok.inj ho, map_map]
  rfl

theorem useDomain_ok {u : PUnit} (h : run (useDomain domain) d = .ok u d') :
    ∃ domains, d' = { d with domains } := by
  unfold useDomain at h
  split at h
  · obtain ⟨-, rfl⟩ := pure_ok h
    exact ⟨_, rfl⟩
  · rw [modify_ok h]
    split <;> exact ⟨_, rfl⟩

/-- **A node that is recorded under the next name of its type** and kept is added. -/
theorem addsNode_of_recorded {domains : List Value} {d₁ d₂ : Draft} (hfresh : Advances type 1 d d₁)
    (hw : run (outputsFor type (numbered type (d.count type)) outputs) { d₁ with domains } = .ok w d₂)
    (hn : Node.recorded type (numbered type (d.count type)) (givenInputs inputs) w attrs domain = .ok n) :
    AddsNode type inputs outputs d { d₂ with nodes := NodeMap.keep d₂.nodes n } n := by
  obtain ⟨htype, hname, hin, hout, hrec⟩ := recorded_ok hn
  obtain ⟨m, own, hadv, hown, hperm⟩ := outputsFor_ok hw hout
  have hcount : ∀ t, Draft.count { d₂ with nodes := d₂.nodes.keep n } t = d₂.count t := fun _ => rfl
  constructor
  case nodes => rw [hadv.only, hfresh.only]
  case weights => rw [hadv.only, hfresh.only]
  case terminals => rw [hadv.only, hfresh.only]; exact ⟨rfl, rfl⟩
  case renames => rw [hadv.only, hfresh.only]
  case opset => rw [hadv.only, hfresh.only]
  case type_eq => exact htype
  case name_eq => exact hname
  case recorded => exact hrec
  case given => exact hin
  case writes =>
    refine ⟨m, own, ?_, hname ▸ hown, ?_⟩
    · rw [hcount, hadv.own, ← Nat.add_assoc]
      exact congrArg (· + m) hfresh.own
    · rw [← hfresh.own]
      exact hperm
  case exactly =>
    rintro s ss rfl
    exact outputs_strs hw hout
  case alone =>
    rintro (rfl | rfl) <;>
      (obtain ⟨rfl, -⟩ := pure_ok hw; rw [hname]; exact (Except.ok.inj hout).symm)
  case other => exact fun t ht => (hadv.other t ht).trans (hfresh.other t ht)

/-- A node that is added is named, its outputs are named, and it is kept. -/
theorem nodeNamed_parts (h : run (nodeNamed type inputs outputs attrs none domain) d = .ok v d') :
    ∃ d₁ domains w d₂ n, run (freshName type) d = .ok (numbered type (d.count type)) d₁ ∧
      run (useDomain domain) d₁ = .ok () { d₁ with domains } ∧
      run (outputsFor type (numbered type (d.count type)) outputs) { d₁ with domains } = .ok w d₂ ∧
      Node.recorded type (numbered type (d.count type)) (givenInputs inputs) w attrs domain = .ok n ∧
      d' = { d₂ with nodes := NodeMap.keep d₂.nodes n } ∧ v = result n.outputs := by
  obtain ⟨name, d₁, hfresh, h₁⟩ := bind_ok h
  obtain ⟨rfl, -⟩ := freshName_ok hfresh
  obtain ⟨u, d₂, hdomain, h₂⟩ := bind_ok h₁
  obtain ⟨domains, rfl⟩ := useDomain_ok hdomain
  obtain ⟨w, d₃, hw, h₃⟩ := bind_ok h₂
  obtain ⟨n, hn, h₄⟩ := granted_ok h₃
  obtain ⟨u, d₅, hput, h₅⟩ := bind_ok h₄
  obtain ⟨rfl, rfl⟩ := pure_ok h₅
  exact ⟨d₁, domains, w, _, n, hfresh, hdomain, hw, hn, modify_ok hput, rfl⟩

theorem nodeNamed_ok (h : run (nodeNamed type inputs outputs attrs none domain) d = .ok v d') :
    ∃ n, AddsNode type inputs outputs d d' n ∧ v = result n.outputs := by
  obtain ⟨d₁, domains, w, d₂, n, hfresh, -, hw, hn, rfl, hv⟩ := nodeNamed_parts h
  exact ⟨n, addsNode_of_recorded (freshName_ok hfresh).2 hw hn, hv⟩

theorem AddsNode.reads (h : AddsNode type inputs outputs d d' n) (xs : List Value) (hxs : inputs = .list xs) :
    n.inputs = xs.map Node.endpoint := by
  subst hxs
  exact (Except.ok.inj h.given).symm

section Adding

variable {inputs outputs : Value} {n : Node} (hd : d.Tidy) (h : AddsNode type inputs outputs d d' n)

include hd h

theorem AddsNode.fresh : n.name ∉ Assoc.keys d.nodes := by
  rw [h.name_eq]
  exact hd.next_notMem type

theorem AddsNode.nodes_eq (hinner : Node.isInterface type = false) :
    d'.nodes = d.nodes ++ NodeMap.ofNodes [n] := by
  have hno : ¬ Assoc.contains d.nodes n.name = true := by
    rw [Assoc.contains_iff_mem_keys]
    exact h.fresh hd
  rw [h.nodes, NodeMap.keep, h.type_eq, hinner, Assoc.insert, if_neg hno]
  rfl

omit hd in
theorem AddsNode.counts (t : String) : d.count t ≤ d'.count t := by
  by_cases ht : t = type
  · obtain ⟨m, own, hcount, -⟩ := h.writes
    rw [ht, hcount]
    exact Nat.le_add_right _ _
  · exact (h.other t ht).ge

theorem AddsNode.tidy : d'.Tidy := by
  have hold : ∀ e ∈ d.nodes, ∃ k, e.1 = numbered e.2.type k ∧ k < d'.count e.2.type := fun e he =>
    (hd.numbered e he).imp fun k hk => ⟨hk.1, hk.2.trans_le (h.counts _)⟩
  cases hinner : Node.isInterface type with
  | true =>
    have hnodes : d'.nodes = d.nodes := by rw [h.nodes, NodeMap.keep, h.type_eq, hinner]; rfl
    exact ⟨hnodes ▸ hd.kept, hnodes ▸ hd.recorded, hnodes ▸ hold, h.weights ▸ hd.weights,
      h.weights ▸ hd.distinct⟩
  | false =>
    obtain ⟨m, own, hcount, -⟩ := h.writes
    have hmem : ∀ {e : String × Node} {P : String × Node → Prop}, (∀ e ∈ d.nodes, P e) →
        P (n.name, n) → e ∈ d.nodes ++ NodeMap.ofNodes [n] → P e := by
      intro e P hP hn he
      rcases mem_append.1 he with he | he
      · exact hP e he
      · rw [mem_singleton.1 he]
        exact hn
    refine ⟨⟨?_, ?_, ?_, ?_⟩, ?_, ?_, h.weights ▸ hd.weights, h.weights ▸ hd.distinct⟩ <;>
      rw [h.nodes_eq hd hinner]
    · rw [Assoc.keys, map_append]
      exact nodup_append.2 ⟨hd.kept.nodup, nodup_singleton _, fun x hx y hy hxy =>
        h.fresh hd (by rwa [hxy, mem_singleton.1 hy] at hx)⟩
    · exact fun e => hmem hd.kept.named rfl
    · exact fun e => hmem hd.kept.inner (h.type_eq ▸ hinner)
    · exact fun e => hmem hd.kept.recordable h.recorded.1
    · exact fun e => hmem hd.recorded h.recorded.2
    · refine fun e => hmem hold ⟨_, h.type_eq ▸ h.name_eq, ?_⟩
      rw [h.type_eq, hcount]
      omega

/-- **A node adds its own outputs.** -/
theorem AddsNode.leads (hinner : Node.isInterface type = false) :
    ∃ made, Batch.Leads { nodes := [n], made, given := outputs.given } outputs.given d d' := by
  obtain ⟨m, own, hcount, hown, hperm⟩ := h.writes
  have hname : ∀ s ∈ own, s = numbered type (d.count type) := by
    rcases hown with rfl | rfl
    · exact fun s hs => absurd hs not_mem_nil
    · exact fun s hs => (mem_singleton.1 hs).trans h.name_eq
  refine ⟨own ++ numberedFrom type (d.count type + 1) m, ?_⟩
  constructor
  case nodes => exact h.nodes_eq hd hinner
  case weights => rw [h.weights]; exact (append_nil _).symm
  case distinct =>
    refine nodup_append.2 ⟨?_, nodup_numberedFrom _ _ _, ?_⟩
    · rcases hown with rfl | rfl
      · exact nodup_nil
      · exact nodup_singleton _
    · rintro x hx y hy rfl
      obtain ⟨k, hk, hle, -⟩ := mem_numberedFrom.1 hy
      have := (numbered_inj.1 ((hname x hx).symm.trans hk)).2
      omega
  case counted =>
    intro s hs
    rcases mem_append.1 hs with hs | hs
    · exact ⟨type, _, hname s hs, le_rfl, by omega⟩
    · obtain ⟨k, hk, hle, hlt⟩ := mem_numberedFrom.1 hs
      exact ⟨type, k, hk, by omega, by omega⟩
  case written => simpa [Batch.written] using hperm
  case given => exact List.Subperm.refl _
  case again => exact nil_subperm
  case reread => exact Or.inr fun v hv => absurd hv not_mem_nil

theorem AddsNode.growth : Growth outputs.given d d' := by
  refine ⟨h.tidy hd, h.counts, h.terminals.1, h.terminals.2, h.renames, ?_⟩
  cases hinner : Node.isInterface type with
  | true =>
    refine ⟨{}, Batch.leads_empty _ ?_ h.weights⟩
    rw [h.nodes, NodeMap.keep, h.type_eq, hinner]
    rfl
  | false =>
    obtain ⟨made, hleads⟩ := h.leads hd hinner
    exact ⟨_, hleads⟩

end Adding

end Emit

end ModelExport
