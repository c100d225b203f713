import ModelExport.Proofs.Conversion

/-!
# Proofs/Renaming/Frame — renaming changes names and nothing else

    a ──▸ x ──▸ x ──▸ y        becomes        a ──▸ x ──▸ x.1 ──▸ y

Whatever nodes a graph has and whatever was renamed before, a renamed graph has the same nodes in the
same order, up to names (`sameButNames_pass`).  A name that is not in the table is still written where it
was, and the name that the table gives to a tensor is written by a node that was treated
(`exists_writer_of_name?`); so a node that read what was known before it still does
(`readsEarlier_pass`).
-/

namespace ModelExport

open List

variable {m : NodeMap} {v : Value}

/-! ## Graphs as they are made -/

/-- **A table of nodes as a model graph makes it**: each node is kept with its record, and may be
taken out again. -/
inductive NodeMap.Made : NodeMap → Prop
  | empty : Made []
  | keep {m : NodeMap} {type name : String} {inputs outputs : Value} {attrs : Attrs} {domain : Value}
      {n : Node} : Made m → Node.recorded type name inputs outputs attrs domain = .ok n → Made (m.keep n)
  | erase {m : NodeMap} (name : String) : Made m → Made (Assoc.erase m name)

/-- What holds of every recorded node holds of every node of a graph. -/
theorem NodeMap.Made.forall {P : String × Node → Prop}
    (hkeep : ∀ n : Node, Node.isInterface n.type = false → n.Recordable → n.renewed = n → P (n.name, n))
    (h : m.Made) : ∀ e ∈ m, P e := by
  induction h with
  | empty => exact fun e he => absurd he not_mem_nil
  | keep _ hrecorded ih =>
    obtain ⟨-, -, -, -, hrec, hrenewed⟩ := Emit.recorded_ok hrecorded
    intro e he
    unfold NodeMap.keep at he
    split at he
    · exact ih e he
    · rename_i hinner
      rcases Assoc.eq_or_mem_of_mem_insert he with rfl | he
      · exact hkeep _ (Bool.eq_false_iff.2 hinner) hrec hrenewed
      · exact ih e he
  | erase name _ ih => exact fun e he => ih e (mem_of_mem_filter he)

theorem NodeMap.Made.nodup (h : m.Made) : (Assoc.keys m).Nodup := by
  induction h with
  | empty => exact nodup_nil
  | keep _ _ ih =>
    unfold NodeMap.keep
    split
    · exact ih
    · exact Assoc.nodup_keys_insert _ _ _ ih
  | erase name _ ih => exact ih.sublist (filter_sublist.map Prod.fst)

/-- **A graph keeps its nodes well.** -/
theorem NodeMap.Made.kept (h : m.Made) : m.Kept where
  nodup := h.nodup
  named := h.forall fun _ _ _ _ => rfl
  inner := h.forall fun _ hinner _ _ => hinner
  recordable := h.forall fun _ _ hrec _ => hrec

theorem NodeMap.Made.renewed (h : m.Made) : ∀ e ∈ m, e.2.renewed = e.2 :=
  h.forall fun _ _ _ hrenewed => hrenewed

/-! ## Nodes up to names -/

/-- **Nodes that differ in the names of tensors at most.** -/
structure Node.SameButNames (n n' : Node) : Prop where
  type : n'.type = n.type
  name : n'.name = n.name
  attrs : n'.attrs = n.attrs
  domain : n'.domain = n.domain
  inputs : n'.inputs.length = n.inputs.length
  outputs : n'.outputs.length = n.outputs.length

/-- **Every node reads what is given, or what an earlier node writes.** -/
def ReadsEarlier (given : Value → Prop) (ns : List Node) : Prop :=
  ∀ (i : Nat) (n : Node), ns[i]? = some n → ∀ v ∈ n.inputs,
    given v ∨ ∃ (j : Nat) (m : Node), j < i ∧ ns[j]? = some m ∧ v ∈ m.outputs

theorem length_relabel (new : String → Option String) :
    ∀ outs : List Value, (relabel new outs).length = outs.length
  | [] => rfl
  | v :: rest => by cases v <;> simp [relabel, length_relabel new rest]

theorem relabel_eq_self {new : String → Option String} :
    ∀ {outs : List Value}, (∀ x, .str x ∈ outs → new x = none) → relabel new outs = outs
  | [], _ => rfl
  | v :: rest, h => by
      have ih := relabel_eq_self fun x hx => h x (mem_cons_of_mem _ hx)
      cases v with
      | str x => rw [relabel, ih, h x mem_cons_self, Option.getD_none, ite_self]
      | _ => rw [relabel, ih]; simp

theorem mem_relabel {new : String → Option String} {outs : List Value} (hv : v ∈ outs)
    (hnew : ∀ x, v = .str x → new x = none) : v ∈ relabel new outs := by
  obtain ⟨i, hi⟩ := mem_iff_getElem?.1 hv
  refine mem_iff_getElem?.2 ⟨i, ?_⟩
  by_cases htext : ∃ x, v = .str x
  · obtain ⟨x, rfl⟩ := htext
    rw [getElem?_relabel new outs i x hi, hnew x rfl, Option.getD_none, ite_self]
  · rw [getElem?_relabel_other new outs i fun x hx => htext ⟨x, Option.some.inj (hi.symm.trans hx)⟩, hi]

namespace Renamer

theorem current_of_unnamed {s : Renamer} (hs : s.Keyed) (hno : ∀ x, v = .str x → s.name? x = none) :
    s.current v = v := by
  by_cases htext : ∃ x, v = .str x
  · obtain ⟨x, rfl⟩ := htext
    rw [current_str, hno x rfl, Option.getD_none]
  · exact current_other hs fun x hx => htext ⟨x, hx⟩

/-! ## What a treated node writes -/

section Node

variable {s : Renamer} {n : Node} (h : (s.node n).2.failed = false)

include h

theorem sameButNames_node : n.SameButNames (s.node n).1 where
  type := by rw [node_frame h]
  name := by rw [node_frame h]
  attrs := by rw [node_frame h]
  domain := by rw [node_frame h]
  inputs := by rw [inputs_node h, length_map]
  outputs := by rw [outputs_node h, length_relabel]

theorem fresh_mem_outputs_node {x : String} (hrep : s.Repeats n x) :
    .str (s.fresh x) ∈ (s.node n).1.outputs := by
  obtain ⟨p, hp⟩ := Option.ne_none_iff_exists'.1 fun hnone =>
    (lastPlace_eq_none x n.outputs).1 hnone hrep.2
  have hat := getElem?_outputs_node h hp
  rw [if_pos hrep] at hat
  exact mem_of_getElem? hat

theorem mem_outputs_node (hv : v ∈ n.outputs) (hno : ∀ x, v = .str x → ¬ s.Repeats n x) :
    v ∈ (s.node n).1.outputs := by
  rw [outputs_node h]
  refine mem_relabel hv fun x hx => if_neg fun hin => hno x hx ⟨hin, ?_⟩
  rwa [Node.Writes, ← hx]

/-- A node that does not write over what it reads stays as it is, as long as nothing was renamed. -/
theorem node_eq_self (hs : s.Keyed) (hnone : ∀ x, s.name? x = none)
    (hapart : ∀ v ∈ n.outputs, v ∉ n.inputs) :
    (s.node n).1 = n ∧ ∀ x, (s.node n).2.name? x = none := by
  have hcurrent : n.inputs.map s.current = n.inputs := by
    conv_rhs => rw [← map_id n.inputs]
    exact map_congr_left fun v _ => current_of_unnamed hs fun x _ => hnone x
  have hno : ∀ x, .str x ∈ n.outputs → .str x ∉ n.inputs.map s.current := by
    intro x hx
    rw [hcurrent]
    exact hapart _ hx
  have hins : (s.node n).1.inputs = n.inputs := (inputs_node h).trans hcurrent
  have houts : (s.node n).1.outputs = n.outputs :=
    (outputs_node h).trans (relabel_eq_self fun x hx => if_neg (hno x hx))
  refine ⟨by rw [node_frame h, hins, houts], fun x => ?_⟩
  rw [name?_node h, if_neg fun hrep => hno x hrep.2 hrep.1]
  exact hnone x

end Node

/-! ## All nodes -/

section Pass

variable {s : Renamer} {ns : List Node} (h : (s.pass ns).2.failed = false)

include h

/-- **The name that the table gives to a tensor is written** by a node before. -/
theorem exists_writer_of_name? (hs : s.names = []) {x y : String} :
    ∀ {i : Nat}, (s.upTo ns i).name? x = some y →
      ∃ j m, j < i ∧ (s.pass ns).1[j]? = some m ∧ .str y ∈ m.outputs
  | 0, hy => by simp [upTo, pass, name?, hs] at hy
  | i + 1, hy => by
      rcases name?_upTo_succ h i x with hkeep | ⟨n, hn, hrep, hnew⟩
      · obtain ⟨j, m, hj, hm⟩ := exists_writer_of_name? hs (hkeep.symm.trans hy)
        exact ⟨j, m, Nat.lt_succ_of_lt hj, hm⟩
      · obtain rfl : (s.upTo ns i).fresh x = y := Option.some.inj (hnew.symm.trans hy)
        refine ⟨i, _, Nat.lt_succ_self i, by rw [getElem?_pass, hn]; rfl, ?_⟩
        exact fresh_mem_outputs_node (failed_at h hn) hrep

/-- **A tensor that is not in the table is written where it was.** -/
theorem mem_outputs_pass_of_unnamed {i j : Nat} {m : Node} (hj : j < i) (hm : ns[j]? = some m)
    (hv : v ∈ m.outputs) (hno : ∀ x, v = .str x → (s.upTo ns i).name? x = none) :
    v ∈ ((s.upTo ns j).node m).1.outputs := by
  refine mem_outputs_node (failed_at h hm) hv fun x hx hrep => ?_
  have hnamed : ((s.upTo ns (j + 1)).name? x).isSome = true := by
    rw [upTo_succ hm, name?_node (failed_at h hm), if_pos hrep]
    rfl
  have hlater := isSome_name?_upTo h (Nat.succ_le_of_lt hj) hnamed
  rw [hno x hx] at hlater
  cases hlater

/-- **A node that read what was known still does**, under the names that tensors have by then. -/
theorem readsEarlier_pass (hs : s.names = []) {given : Value → Prop} (hns : ReadsEarlier given ns) :
    ReadsEarlier given (s.pass ns).1 := by
  intro i n' hn' v' hv'
  obtain ⟨n, hn, rfl⟩ := Option.map_eq_some_iff.1 ((getElem?_pass s ns i).symm.trans hn')
  rw [inputs_node (failed_at h hn)] at hv'
  obtain ⟨v, hv, rfl⟩ := mem_map.1 hv'
  have hkeyed : (s.upTo ns i).Keyed := keyed_upTo h (fun e he => by rw [hs] at he; cases he) i
  by_cases hnamed : ∃ x y, v = .str x ∧ (s.upTo ns i).name? x = some y
  · obtain ⟨x, y, rfl, hy⟩ := hnamed
    rw [current_str, hy]
    exact Or.inr (exists_writer_of_name? h hs hy)
  · have hno : ∀ x, v = .str x → (s.upTo ns i).name? x = none := by
      intro x hx
      rw [Option.eq_none_iff_forall_ne_some]
      exact fun y hy => hnamed ⟨x, y, hx, hy⟩
    rw [current_of_unnamed hkeyed hno]
    refine (hns i n hn v hv).imp_right ?_
    rintro ⟨j, m, hj, hm, hw⟩
    exact ⟨j, _, hj, by rw [getElem?_pass, hm]; rfl, mem_outputs_pass_of_unnamed h hj hm hw hno⟩

/-- **Treated nodes differ in names from what they were**, and in nothing else. -/
theorem sameButNames_pass :
    List.Forall₂ (fun n n' => n.SameButNames n') ns (s.pass ns).1 := by
  induction ns generalizing s with
  | nil => exact .nil
  | cons n ns ih => exact .cons (sameButNames_node (failed_of_failed_pass ns h)) (ih h)

/-- **Nodes that do not write over what they read stay as they are.** -/
theorem pass_eq_self (hs : s.Keyed) (hnone : ∀ x, s.name? x = none)
    (hapart : ∀ n ∈ ns, ∀ v ∈ n.outputs, v ∉ n.inputs) : (s.pass ns).1 = ns := by
  induction ns generalizing s with
  | nil => rfl
  | cons n ns ih =>
    obtain ⟨hn, hns⟩ := forall_mem_cons.1 hapart
    have hstep : (s.node n).2.failed = false := failed_of_failed_pass ns h
    obtain ⟨hself, hstill⟩ := node_eq_self hstep hs hnone hn
    rw [pass, hself, ih h (keyed_node hstep hs) hstill hns]

end Pass

end Renamer

/-! ## The pass on a graph -/

/-- The nodes of a draft after renaming, under their names and with new records. -/
def Draft.renamedNodes (d : Draft) : NodeMap := NodeMap.ofNodes (d.renamed.1.map Node.renewed)

section Draft

variable {d : Draft} (hkept : d.nodes.Kept) (hok : d.renamed.2.failed = false)

include hkept hok

/-- **Every node stands where it stood**, under its old key, and differs in names at most. -/
theorem frame_renamed :
    List.Forall₂ (fun e e' => e.1 = e'.1 ∧ e.2.SameButNames e'.2) d.nodes d.renamedNodes := by
  have hsame : List.Forall₂ (fun n n' => n.SameButNames n') (d.nodes.map Prod.snd) d.renamed.1 :=
    Renamer.sameButNames_pass hok
  have hpaired : List.Forall₂ (fun e e' => e.1 = e'.1 ∧ e.2.SameButNames e'.2)
      (NodeMap.ofNodes (d.nodes.map Prod.snd)) d.renamedNodes := by
    rw [Draft.renamedNodes, NodeMap.ofNodes, NodeMap.ofNodes, forall₂_map_left_iff,
      forall₂_map_right_iff, forall₂_map_right_iff]
    exact hsame.imp fun n n' h =>
      ⟨h.name.symm, h.type, h.name, h.attrs, h.domain, h.inputs, h.outputs⟩
  rwa [hkept.eq_ofNodes] at hpaired

theorem keys_renamedNodes : Assoc.keys d.renamedNodes = Assoc.keys d.nodes := by
  have hkeys : List.Forall₂ (· = ·) (Assoc.keys d.nodes) (Assoc.keys d.renamedNodes) := by
    rw [Assoc.keys, Assoc.keys, forall₂_map_left_iff, forall₂_map_right_iff]
    exact (frame_renamed hkept hok).imp fun _ _ h => h.1
  rw [forall₂_eq_eq_eq] at hkeys
  exact hkeys.symm

theorem record_renamedNodes : ∀ e ∈ d.renamedNodes, ∃ r, e.2.ownRecord = .ok r ∧ e.2.record = some r := by
  intro e he
  obtain ⟨n', hn', rfl⟩ := mem_map.1 he
  obtain ⟨n, hn, rfl⟩ := mem_map.1 hn'
  obtain ⟨r, hr⟩ := Node.ownRecord_of_recordable (hkept.recordable_renamed hok hn)
  exact ⟨r, hr, by rw [Node.renewed, hr]; rfl⟩

omit hkept in
theorem readsEarlier_renamedNodes {given : Value → Prop}
    (h : ReadsEarlier given (d.nodes.map Prod.snd)) :
    ReadsEarlier given (d.renamedNodes.map Prod.snd) := by
  rw [Draft.renamedNodes, NodeMap.map_snd_ofNodes]
  intro i n' hn' v hv
  rw [getElem?_map] at hn'
  obtain ⟨n, hn, rfl⟩ := Option.map_eq_some_iff.1 hn'
  refine (Renamer.readsEarlier_pass hok rfl h i n hn v hv).imp_right ?_
  rintro ⟨j, m, hj, hm, hw⟩
  exact ⟨j, m.renewed, hj, by rw [getElem?_map]; exact congrArg _ hm, hw⟩

theorem renamedNodes_eq_self (hrenewed : ∀ e ∈ d.nodes, e.2.renewed = e.2)
    (hapart : ∀ e ∈ d.nodes, ∀ v ∈ e.2.outputs, v ∉ e.2.inputs) : d.renamedNodes = d.nodes := by
  have hself : d.renamed.1 = d.nodes.map Prod.snd :=
    Renamer.pass_eq_self hok (fun e he => absurd he not_mem_nil) (fun _ => rfl)
      (forall_mem_map.2 hapart)
  have hrecords : (d.nodes.map Prod.snd).map Node.renewed = d.nodes.map Prod.snd := by
    rw [map_map]
    exact map_congr_left hrenewed
  rw [Draft.renamedNodes, hself, hrecords, hkept.eq_ofNodes]

end Draft

/-- **Renaming changes names and nothing else.**  It succeeds where tensors have names, whatever was
renamed before; and when it does, nodes stand under the same keys in the same order and differ in names
at most, each has the record of its fields, a node that read what was given or written before it still
does, and nothing changes at all when no node writes over what it reads. -/
theorem renameInPlace_changes_names_only (d : Draft) (hmade : d.nodes.Made) :
    (Named (d.nodes.map Prod.snd) → ∃ d', EStateM.run (Emit.renameInPlace .model) d = .ok () d') ∧
    ∀ d', EStateM.run (Emit.renameInPlace .model) d = .ok () d' →
      d' = { d with nodes := d'.nodes, renames := d'.renames, notices := d'.notices } ∧
      Assoc.keys d'.nodes = Assoc.keys d.nodes ∧
      List.Forall₂ (fun e e' => e.2.SameButNames e'.2) d.nodes d'.nodes ∧
      (∀ e ∈ d'.nodes, ∃ r, e.2.ownRecord = .ok r ∧ e.2.record = some r) ∧
      (∀ given, ReadsEarlier given (d.nodes.map Prod.snd) → ReadsEarlier given (d'.nodes.map Prod.snd)) ∧
      ((∀ e ∈ d.nodes, ∀ v ∈ e.2.outputs, v ∉ e.2.inputs) → d'.nodes = d.nodes) := by
  have hkept := hmade.kept
  refine ⟨fun hnamed => ?_, fun d' hrun => ?_⟩
  · exact (Emit.run_renameInPlace hkept).1.1 (Renamer.failed_pass _ hnamed.inputs hnamed.outputs)
  · obtain ⟨hok, rfl⟩ := Emit.renameInPlace_ok hkept hrun
    exact ⟨rfl, keys_renamedNodes hkept hok, (frame_renamed hkept hok).imp fun _ _ h => h.2,
      record_renamedNodes hkept hok, fun _ hreads => readsEarlier_renamedNodes hok hreads,
      renamedNodes_eq_self hkept hok hmade.renewed⟩

def writingX (type : String) (reads : List Value) : Node :=
  Node.renewed
    { type, name := type ++ "_0", inputs := reads, outputs := [.str "x"], attrs := [], domain := .str "" }

/-- A tensor written over twice, in a graph where some other `x` was renamed four times before. -/
def rewriting : Draft :=
  { opset := 9
    nodes := NodeMap.ofNodes [writingX "Conv" [.str "a"], writingX "Add" [.str "x", .str "x"],
      writingX "Relu" [.str "x"]]
    renames := [("x", 4)] }

theorem made_rewriting : rewriting.nodes.Made := by
  have hconv : Node.recorded "Conv" "Conv_0" (.list [.str "a"]) (.list [.str "x"]) [] (.str "") =
      .ok (writingX "Conv" [.str "a"]) := rfl
  have hadd : Node.recorded "Add" "Add_0" (.list [.str "x", .str "x"]) (.list [.str "x"]) [] (.str "") =
      .ok (writingX "Add" [.str "x", .str "x"]) := rfl
  have hrelu : Node.recorded "Relu" "Relu_0" (.list [.str "x"]) (.list [.str "x"]) [] (.str "") =
      .ok (writingX "Relu" [.str "x"]) := rfl
  exact ((NodeMap.Made.empty.keep hconv).keep hadd).keep hrelu

theorem named_rewriting : Named (rewriting.nodes.map Prod.snd) := by
  constructor <;> simp [rewriting, NodeMap.ofNodes, writingX, Node.renewed, Value.isKey]

theorem readsEarlier_rewriting : ReadsEarlier (· = .str "a") (rewriting.nodes.map Prod.snd) := by
  intro i n hn v hv
  rcases i with _ | _ | _ | i
  · cases hn
    exact .inl (mem_singleton.1 hv)
  · cases hn
    exact .inr ⟨0, _, by decide, rfl, by simpa [writingX, Node.renewed] using hv⟩
  · cases hn
    exact .inr ⟨1, _, by decide, rfl, by simpa [writingX, Node.renewed] using hv⟩
  · cases hn

/-- The successor of `x` is written where `x` was, and read after it. -/
theorem renameInPlace_changes_names_only_rewriting :
    rewriting.nodes.Made ∧ Named (rewriting.nodes.map Prod.snd) ∧
      ReadsEarlier (· = .str "a") (rewriting.nodes.map Prod.snd) ∧
      ∃ d', EStateM.run (Emit.renameInPlace .model) rewriting = .ok () d' ∧
        Assoc.keys d'.nodes = ["Conv_0", "Add_0", "Relu_0"] ∧
        (∀ e ∈ d'.nodes, ∃ r, e.2.ownRecord = .ok r ∧ e.2.record = some r) ∧
        ReadsEarlier (· = .str "a") (d'.nodes.map Prod.snd) := by
  obtain ⟨hruns, hframe⟩ := renameInPlace_changes_names_only rewriting made_rewriting
  obtain ⟨d', hrun⟩ := hruns named_rewriting
  obtain ⟨-, hkeys, -, hrecords, hreads, -⟩ := hframe d' hrun
  exact ⟨made_rewriting, named_rewriting, readsEarlier_rewriting, d', hrun, hkeys, hrecords,
    hreads _ readsEarlier_rewriting⟩

end ModelExport
