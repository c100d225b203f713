import ModelExport.Proofs.Evaluation
import ModelExport.Proofs.Renaming.Pass

/-!
# Proofs/Renaming/Meaning — renaming keeps what nodes compute

When a node writes over a tensor that it reads, and nobody writes that tensor later, the rest of the
graph can do with the new name.  The relation between the two runs is `Follows`: every tensor of the
graph holds, under its current name, what it held before (`Follows.node` for one node, `evaluate_pass`
for a list).
-/

namespace ModelExport

open List

/-- A node writes over a tensor that it reads. -/
def Node.InPlace (n : Node) (x : String) : Prop := n.Reads x ∧ n.Writes x

instance (n : Node) (x : String) : Decidable (n.InPlace x) := inferInstanceAs (Decidable (_ ∧ _))

/-- A node reads or writes a value. -/
def Node.Touches (n : Node) (v : Value) : Prop := v ∈ n.inputs ∨ v ∈ n.outputs

/-- **Writing over comes last**: outputs of a node are different, no node writes a tensor that an
earlier one wrote in place, and no tensor bears a name that such a tensor may be given. -/
structure OverwritesLast (ns : List Node) : Prop where
  distinct : ∀ n ∈ ns, n.outputs.Nodup
  last : ns.Pairwise fun n m => ∀ x, n.InPlace x → ¬ m.Writes x
  unused : ∀ n ∈ ns, ∀ x, n.InPlace x → ∀ m ∈ ns, ∀ k, ¬ m.Touches (.str (Renamer.successor x k))

/-- Tensors have names: what is read can be looked up, what is written is a text. -/
structure Named (ns : List Node) : Prop where
  inputs : ∀ n ∈ ns, ∀ v ∈ n.inputs, v.isKey = true
  outputs : ∀ n ∈ ns, ∀ v ∈ n.outputs, ∃ x, v = .str x

namespace Renamer

/-! ## Names of a graph under the table -/

section Graph

variable (all : List Node)

/-- **What the table may hold** before the nodes `rest` of a graph: tensors written in place, under a
successor of their name, that none of `rest` writes. -/
structure Fits (s : Renamer) (rest : List Node) : Prop where
  keyed : s.Keyed
  origin : ∀ x y, s.name? x = some y → (∃ n ∈ all, n.InPlace x) ∧ ∃ k, y = successor x k
  unwritten : ∀ x y, s.name? x = some y → ∀ m ∈ rest, ¬ m.Writes x

variable {all} {s : Renamer} {rest : List Node}

theorem fits_of_names_nil (hs : s.names = []) : s.Fits all rest :=
  ⟨fun e he => absurd he (by simp [hs]), fun x y h => absurd h (by simp [name?, hs]),
    fun x y h => absurd h (by simp [name?, hs])⟩

theorem Fits.current_cases (h : s.Fits all rest) (v : Value) :
    s.current v = v ∨ ∃ x k, v = .str x ∧ s.current v = .str (successor x k) ∧
      ∃ n ∈ all, n.InPlace x := by
  by_cases hv : ∃ x, v = .str x
  · obtain ⟨x, rfl⟩ := hv
    rw [current_str]
    cases hx : s.name? x with
    | none => exact Or.inl rfl
    | some y =>
      obtain ⟨hin, k, rfl⟩ := h.origin x y hx
      exact Or.inr ⟨x, k, rfl, rfl, hin⟩
  · exact Or.inl (current_other h.keyed fun x hx => hv ⟨x, hx⟩)

variable (hall : OverwritesLast all)

include hall

/-- A tensor of the graph is found under no other tensor's current name. -/
theorem Fits.current_inj (h : s.Fits all rest) {v w : Value} {n m : Node} (hn : n ∈ all)
    (hm : m ∈ all) (hv : n.Touches v) (hw : m.Touches w) (he : s.current v = s.current w) :
    v = w := by
  rcases h.current_cases v with hv' | ⟨x, j, rfl, hv', i, hi, hx⟩ <;>
    rcases h.current_cases w with hw' | ⟨y, k, rfl, hw', i', hi', hy⟩ <;> rw [hv', hw'] at he
  · exact he
  · exact absurd (he ▸ hv) (hall.unused i' hi' y hy n hn k)
  · exact absurd (he ▸ hw) (hall.unused i hi x hx m hm j)
  · obtain ⟨rfl, -⟩ := successor_inj.1 (Value.str.inj he)
    rfl

/-! ## One node -/

variable {n : Node} (hn : n ∈ all)

include hn

/-- Exactly the tensors that a node writes in place are renamed. -/
theorem Fits.repeats_iff (h : s.Fits all (n :: rest)) (x : String) :
    s.Repeats n x ↔ n.InPlace x := by
  refine ⟨fun ⟨hin, hout⟩ => ⟨?_, hout⟩, fun ⟨hin, hout⟩ => ⟨?_, hout⟩⟩
  · obtain ⟨v, hv, he⟩ := mem_map.1 hin
    rcases h.current_cases v with hv' | ⟨y, k, rfl, hv', m, hm, hy⟩
    · rw [Node.Reads, ← he, hv']
      exact hv
    · rw [Node.Writes, ← he, hv'] at hout
      exact absurd (Or.inr hout) (hall.unused m hm y hy n hn k)
  · refine mem_map.2 ⟨.str x, hin, ?_⟩
    rw [current_str]
    cases hx : s.name? x with
    | none => rfl
    | some y => exact absurd hout (h.unwritten x y hx n mem_cons_self)

variable (hok : (s.node n).2.failed = false)

include hok

/-- Outputs of a treated node are those of the node, under the names they have from now on. -/
theorem Fits.outputs_node (h : s.Fits all (n :: rest)) (htext : ∀ v ∈ n.outputs, ∃ x, v = .str x) :
    (s.node n).1.outputs = n.outputs.map (s.node n).2.current := by
  rw [Renamer.outputs_node hok]
  refine relabel_eq_map _ _ n.outputs (hall.distinct n hn) (fun x hx => ?_)
    fun v hv hno => absurd (htext v hv) fun ⟨x, hx⟩ => hno x hx
  rw [current_str, name?_node hok]
  by_cases hin : .str x ∈ n.inputs.map s.current
  · rw [if_pos ⟨hin, hx⟩, if_pos hin]
  · rw [if_neg fun hrep => hin hrep.1, if_neg hin]
    cases hname : s.name? x with
    | none => rfl
    | some y => exact absurd hx (h.unwritten x y hname n mem_cons_self)

theorem Fits.node (h : s.Fits all (n :: rest))
    (hlater : ∀ m ∈ rest, ∀ x, n.InPlace x → ¬ m.Writes x) :
    (s.node n).2.Fits all rest := by
  refine ⟨keyed_node hok h.keyed, fun x y hxy => ?_, fun x y hxy m hm => ?_⟩ <;>
    rw [name?_node hok] at hxy <;> split at hxy
  · rename_i hrep
    exact ⟨⟨n, hn, (h.repeats_iff hall hn x).1 hrep⟩, _, (Option.some.inj hxy).symm⟩
  · exact h.origin x y hxy
  · rename_i hrep
    exact hlater m hm x ((h.repeats_iff hall hn x).1 hrep)
  · exact h.unwritten x y hxy m (mem_cons_of_mem _ hm)

end Graph

/-! ## Runs -/

section Run

variable {τ : Type*} {all : List Node}

/-- **Two stores that agree up to renaming**: what a tensor of the graph holds in `σ`, its current name
holds in `σ'`. -/
def Follows (all : List Node) (s : Renamer) (σ σ' : Store τ) : Prop :=
  ∀ n ∈ all, ∀ v, n.Touches v → σ v = σ' (s.current v)

theorem follows_of_names_nil {s : Renamer} (hs : s.names = []) (σ : Store τ) :
    Follows all s σ σ := fun n _ v _ => by simp [current, hs]

variable (hall : OverwritesLast all) (hnamed : Named all) (f : Kernel τ)

include hall hnamed

/-- **One node keeps the agreement**, and computes the same on both sides. -/
theorem Follows.node {s : Renamer} {n : Node} {rest : List Node} {σ σ' : Store τ} (i : Nat)
    (h : Follows all s σ σ') (hfits : s.Fits all (n :: rest)) (hn : n ∈ all)
    (hlater : ∀ m ∈ rest, ∀ x, n.InPlace x → ¬ m.Writes x)
    (hok : (s.node n).2.failed = false) :
    (s.node n).1.access.results f i σ' = n.access.results f i σ ∧
      Follows all (s.node n).2 (n.access.exec f i σ) ((s.node n).1.access.exec f i σ') := by
  have hfits' := hfits.node hall hn hok hlater
  have houts : (s.node n).1.access.writes = n.access.writes.map (s.node n).2.current :=
    hfits.outputs_node hall hn hok (hnamed.outputs n hn)
  have hres : (s.node n).1.access.results f i σ' = n.access.results f i σ :=
    Access.results_map (inputs_node hok) (by rw [houts, length_map])
      fun v hv => h n hn v (Or.inl hv)
  refine ⟨hres, fun m hm v hv => ?_⟩
  rw [Access.exec, Access.exec, hres, houts]
  refine Store.write_map (Access.length_results f i σ n.access) (fun o ho => ?_)
    (fun o ho he => hfits'.current_inj hall hm hn hv (Or.inr ho) he) fun hnot => ?_
  · obtain ⟨x, rfl⟩ := hnamed.outputs n hn o ho
    exact ⟨x, _, rfl, current_str _ x⟩
  · rw [current_node_of_unwritten hok hnot hfits.keyed]
    exact h m hm v hv

/-- **A list of nodes keeps the agreement**, node by node. -/
theorem Follows.pass : ∀ {rest : List Node} {s : Renamer} {σ σ' : Store τ} (i : Nat),
    Follows all s σ σ' → s.Fits all rest → (∀ n ∈ rest, n ∈ all) →
    (rest.Pairwise fun n m => ∀ x, n.InPlace x → ¬ m.Writes x) →
    (s.pass rest).2.failed = false →
      (Access.evaluate f i σ' ((s.pass rest).1.map Node.access)).1 =
        (Access.evaluate f i σ (rest.map Node.access)).1 ∧
      Follows all (s.pass rest).2 (Access.evaluate f i σ (rest.map Node.access)).2
        (Access.evaluate f i σ' ((s.pass rest).1.map Node.access)).2
  | [], _, _, _, _, h, _, _, _, _ => ⟨rfl, h⟩
  | n :: rest, s, σ, σ', i, h, hfits, hmem, hlast, hok => by
      obtain ⟨hlater, hlast⟩ := pairwise_cons.1 hlast
      have hstep : (s.node n).2.failed = false := failed_of_failed_pass rest hok
      have hn := hmem n mem_cons_self
      obtain ⟨hres, hnext⟩ := h.node hall hnamed f i hfits hn hlater hstep
      obtain ⟨hvals, hfin⟩ := Follows.pass (i + 1) hnext (hfits.node hall hn hstep hlater)
        (fun m hm => hmem m (mem_cons_of_mem _ hm)) hlast hok
      refine ⟨?_, hfin⟩
      simp only [Renamer.pass, map_cons, Access.evaluate]
      rw [hres, hvals]

end Run

end Renamer

/-! ## The pass on a draft -/

/-- **Renaming keeps meaning** when every tensor is written in place last.  It succeeds; whatever the
nodes compute and whatever the tensors hold at first, every node computes the same as before; and
every tensor of the graph ends with the same value, under the name it has in the table. -/
theorem renameInPlace_keeps_values.{u} (d : Draft) (hkept : d.nodes.Kept)
    (hnamed : Named (d.nodes.map Prod.snd)) (hlast : OverwritesLast (d.nodes.map Prod.snd)) :
    ∃ names d', EStateM.run (Emit.renameNodes .model (d.nodes.map Prod.snd) []) d = .ok names d' ∧
      EStateM.run (Emit.renameInPlace .model) d = .ok () d' ∧
      ∀ {τ : Type u} (f : Kernel τ) (σ : Store τ),
        let before := Access.evaluate f 0 σ (d.nodes.map fun e => e.2.access)
        let after := Access.evaluate f 0 σ (d'.nodes.map fun e => e.2.access)
        after.1 = before.1 ∧
          ∀ n ∈ d.nodes.map Prod.snd, ∀ v, n.Touches v →
            before.2 v = after.2 (Renamer.current { names, counts := d'.renames } v) := by
  set ns := d.nodes.map Prod.snd with hns
  set s : Renamer := { names := [], counts := d.renames }
  have hok : (s.pass ns).2.failed = false := Renamer.failed_pass ns hnamed.inputs hnamed.outputs
  obtain ⟨hnodes, hrun⟩ := (Emit.run_renameInPlace hkept).2 hok
  refine ⟨_, _, hnodes, hrun, fun {τ} f σ => ?_⟩
  have hafter : (d.withNodes (NodeMap.ofNodes ((s.pass ns).1.map Node.renewed))
      (s.pass ns).2).nodes.map (fun e => e.2.access) = (s.pass ns).1.map Node.access := by
    simp [Draft.withNodes, NodeMap.ofNodes, Function.comp_def, Node.access, Node.renewed]
  have hbefore : d.nodes.map (fun e => e.2.access) = ns.map Node.access := by
    rw [hns, map_map]
    rfl
  rw [hbefore, hafter]
  exact (Renamer.follows_of_names_nil rfl σ).pass hlast hnamed f 0 (Renamer.fits_of_names_nil rfl)
    (fun _ h => h) hlast.last hok

def accumulating : Draft :=
  { opset := 9
    nodes := NodeMap.ofNodes
      [{ type := "Conv", name := "Conv_0", inputs := [.str "a"], outputs := [.str "x"], attrs := [],
         domain := .none },
       { type := "Add", name := "Add_0", inputs := [.str "x", .str "b"], outputs := [.str "x"],
         attrs := [("axis", .int 1)], domain := .none },
       { type := "Relu", name := "Relu_0", inputs := [.str "x"], outputs := [.str "y"],
         attrs := [], domain := .none }]
    renames := [("x", 4)] }

theorem kept_accumulating : accumulating.nodes.Kept := by
  refine ⟨by decide, by decide, by decide, ?_⟩
  simp [accumulating, NodeMap.ofNodes, Node.Recordable, Node.reserved]

theorem named_accumulating : Named (accumulating.nodes.map Prod.snd) := by
  constructor <;> simp [accumulating, NodeMap.ofNodes, Value.isKey]

theorem overwritesLast_accumulating : OverwritesLast (accumulating.nodes.map Prod.snd) := by
  refine ⟨?_, ?_, ?_⟩
  · simp [accumulating, NodeMap.ofNodes]
  · simp [accumulating, NodeMap.ofNodes, Node.InPlace, Node.Writes, Node.Reads]
  · have hdot : ∀ y ∈ ["a", "b", "x", "y"], ∀ k, Renamer.successor "x" k ≠ y :=
      fun y hy k => successor_ne_of_dotless "x" k (by revert y; decide)
    simp only [mem_cons, forall_eq_or_imp] at hdot
    obtain ⟨ha, hb, hx, hy, -⟩ := hdot
    simp [accumulating, NodeMap.ofNodes, Node.InPlace, Node.Writes, Node.Reads, Node.Touches,
      ha, hb, hx, hy]

theorem renameInPlace_keeps_values_accumulating :
    accumulating.nodes.Kept ∧ Named (accumulating.nodes.map Prod.snd) ∧
      OverwritesLast (accumulating.nodes.map Prod.snd) ∧
      ∃ d', EStateM.run (Emit.renameInPlace .model) accumulating = .ok () d' ∧
        ∀ (f : Kernel Int) (σ : Store Int),
          (Access.evaluate f 0 σ (d'.nodes.map fun e => e.2.access)).1 =
            (Access.evaluate f 0 σ (accumulating.nodes.map fun e => e.2.access)).1 := by
  refine ⟨kept_accumulating, named_accumulating, overwritesLast_accumulating, ?_⟩
  obtain ⟨_, d', -, hrun, hvals⟩ := renameInPlace_keeps_values accumulating kept_accumulating
    named_accumulating overwritesLast_accumulating
  exact ⟨d', hrun, fun f σ => (hvals f σ).1⟩

end ModelExport
