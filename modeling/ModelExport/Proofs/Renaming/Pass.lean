import Mathlib.Data.List.Nodup
import Mathlib.Data.Nat.Init
import ModelExport.Proofs.Renaming.Step

/-!
# Proofs/Renaming/Pass — all nodes of a graph, one after another

`Renamer.pass` treats a list of nodes and keeps what it learns.  On a draft whose nodes are well kept
(`NodeMap.Kept`) `Emit.renameNodes` does exactly that: it succeeds just when no node fails, and then
every node stands at its old place, with a new record (`run_renameNodes`).
-/

namespace ModelExport

open List
open EStateM (run)

variable {n : Node} {i j : Nat} {s : Renamer} {x : String} {d : Draft}

namespace Renamer

/-- **Nodes treated in order**, and what is known after them. -/
def pass (s : Renamer) : List Node → List Node × Renamer
  | [] => ([], s)
  | n :: rest =>
    let t := s.node n
    let u := t.2.pass rest
    (t.1 :: u.1, u.2)

theorem pass_append (s : Renamer) : ∀ ns ms : List Node,
    s.pass (ns ++ ms) =
      ((s.pass ns).1 ++ ((s.pass ns).2.pass ms).1, ((s.pass ns).2.pass ms).2)
  | [], _ => rfl
  | n :: ns, ms => by
      rw [cons_append, pass, (s.node n).2.pass_append ns ms]
      rfl

/-- What is known before the node at a place. -/
def upTo (s : Renamer) (ns : List Node) (i : Nat) : Renamer := (s.pass (ns.take i)).2

theorem getElem?_pass (s : Renamer) : ∀ (ns : List Node) (i : Nat),
    (s.pass ns).1[i]? = ns[i]?.map fun n => ((s.upTo ns i).node n).1
  | [], i => rfl
  | n :: ns, 0 => rfl
  | n :: ns, i + 1 => by simpa [pass, upTo] using (s.node n).2.getElem?_pass ns i

/-! ## Failure -/

theorem failed_of_failed_node (h : (s.node n).2.failed = false) : s.failed = false := by
  obtain ⟨-, r, hr, -, he⟩ := node_cases h
  rw [he] at h
  rwa [← failed_outputs hr s n.outputs]

theorem failed_of_failed_pass : ∀ (ns : List Node) {s : Renamer}, (s.pass ns).2.failed = false →
    s.failed = false
  | [], _, h => h
  | _ :: ns, _, h => failed_of_failed_node (failed_of_failed_pass ns h)

theorem failed_pass : ∀ (ns : List Node) {s : Renamer},
    (∀ n ∈ ns, ∀ v ∈ n.inputs, v.isKey = true) → (∀ n ∈ ns, ∀ v ∈ n.outputs, ∃ x, v = .str x) →
      (s.pass ns).2.failed = s.failed
  | [], _, _, _ => rfl
  | n :: ns, s, hin, hout => by
      have hn : (s.node n).2.failed = s.failed :=
        failed_node (hin n mem_cons_self) (hout n mem_cons_self)
      rw [← hn]
      exact failed_pass ns (fun m hm => hin m (mem_cons_of_mem _ hm))
        fun m hm => hout m (mem_cons_of_mem _ hm)

section Prefix

variable {s : Renamer} {ns : List Node} (h : (s.pass ns).2.failed = false)

include h

theorem failed_upTo (i : Nat) : (s.upTo ns i).failed = false := by
  rw [← take_append_drop i ns, pass_append] at h
  exact failed_of_failed_pass _ h

theorem failed_at (hn : ns[i]? = some n) : ((s.upTo ns i).node n).2.failed = false := by
  have hi := failed_upTo h (i + 1)
  rwa [upTo, take_add_one, hn, pass_append] at hi

omit h in
theorem upTo_succ (hn : ns[i]? = some n) : s.upTo ns (i + 1) = ((s.upTo ns i).node n).2 := by
  rw [upTo, take_add_one, hn, pass_append]
  rfl

theorem frame_pass {n' : Node} (hn : ns[i]? = some n) (hn' : (s.pass ns).1[i]? = some n') :
    n' = { n with inputs := n'.inputs, outputs := n'.outputs } := by
  rw [getElem?_pass, hn] at hn'
  obtain rfl := Option.some.inj hn'
  exact node_frame (failed_at h hn)

/-! ## The table from node to node -/

theorem name?_upTo_succ (i : Nat) (x : String) :
    (s.upTo ns (i + 1)).name? x = (s.upTo ns i).name? x ∨
      ∃ n, ns[i]? = some n ∧ (s.upTo ns i).Repeats n x ∧
        (s.upTo ns (i + 1)).name? x = some ((s.upTo ns i).fresh x) := by
  cases hn : ns[i]? with
  | none =>
    have hlen : ns.length ≤ i := by simpa using hn
    left
    rw [upTo, upTo, take_of_length_le hlen, take_of_length_le (Nat.le_succ_of_le hlen)]
  | some n =>
    have hname := name?_node (failed_at h hn) x
    rw [← upTo_succ hn] at hname
    by_cases hrep : (s.upTo ns i).Repeats n x
    · exact Or.inr ⟨n, rfl, hrep, hname.trans (if_pos hrep)⟩
    · exact Or.inl (hname.trans (if_neg hrep))

theorem name?_upTo_of_unwritten (hij : i ≤ j) (hno : ∀ m, i ≤ m → m < j → ∀ n, ns[m]? = some n → ¬ n.Writes x) :
    (s.upTo ns j).name? x = (s.upTo ns i).name? x := by
  induction j, hij using Nat.le_induction with
  | base => rfl
  | succ j hij ih =>
    rw [← ih fun m hi hm => hno m hi (Nat.lt_succ_of_lt hm)]
    rcases name?_upTo_succ h j x with he | ⟨n, hn, hrep, -⟩
    · exact he
    · exact absurd hrep.2 (hno j hij (Nat.lt_succ_self j) n hn)

theorem isSome_name?_upTo (hij : i ≤ j) (hi : ((s.upTo ns i).name? x).isSome = true) :
    ((s.upTo ns j).name? x).isSome = true := by
  induction j, hij using Nat.le_induction with
  | base => exact hi
  | succ j hij ih =>
    rcases name?_upTo_succ h j x with he | ⟨n, hn, hrep, he⟩
    · rwa [he]
    · simp [he]

theorem keyed_upTo (hs : s.Keyed) : ∀ i : Nat, (s.upTo ns i).Keyed
  | 0 => hs
  | i + 1 => by
      cases hn : ns[i]? with
      | none =>
        have hlen : ns.length ≤ i := by simpa using hn
        have ih := keyed_upTo hs i
        rw [upTo, take_of_length_le hlen] at ih
        rwa [upTo, take_of_length_le (Nat.le_succ_of_le hlen)]
      | some n =>
        rw [upTo_succ hn]
        exact keyed_node (failed_at h hn) (keyed_upTo hs i)

theorem count_upTo_succ (i : Nat) (x : String) :
    (s.upTo ns i).count x ≤ (s.upTo ns (i + 1)).count x := by
  cases hn : ns[i]? with
  | none =>
    have hlen : ns.length ≤ i := by simpa using hn
    refine Nat.le_of_eq ?_
    rw [upTo, upTo, take_of_length_le hlen, take_of_length_le (Nat.le_succ_of_le hlen)]
  | some n =>
    rw [upTo_succ hn, count_node (failed_at h hn)]
    split
    · exact Nat.le_succ _
    · exact Nat.le_refl _

theorem count_upTo_mono (hij : i ≤ j) (x : String) : (s.upTo ns i).count x ≤ (s.upTo ns j).count x := by
  induction j, hij using Nat.le_induction with
  | base => exact Nat.le_refl _
  | succ j _ ih => exact Nat.le_trans ih (count_upTo_succ h j x)

omit h in
theorem upTo_length (s : Renamer) (ns : List Node) : s.upTo ns ns.length = (s.pass ns).2 := by
  rw [upTo, take_length]

/-- A name that is made at a node has a number in between. -/
theorem fresh_bounds (hn : ns[i]? = some n) (hrep : (s.upTo ns i).Repeats n x) :
    s.count x < (s.upTo ns i).count x + 1 ∧
      (s.upTo ns i).count x + 1 ≤ (s.pass ns).2.count x := by
  have hfirst := count_upTo_mono h (Nat.zero_le i) x
  have hlast := count_upTo_mono h (Nat.succ_le_of_lt (List.getElem?_eq_some_iff.1 hn).1) x
  rw [upTo_succ hn, count_node (failed_at h hn), if_pos hrep, upTo_length] at hlast
  exact ⟨Nat.lt_succ_of_le hfirst, hlast⟩

/-- **New names are successors of tensors that are written**, with numbers made by this pass. -/
theorem origin_upTo (hs : s.names = []) : ∀ (i : Nat) {x y : String},
    (s.upTo ns i).name? x = some y → (∃ n ∈ ns, n.Writes x) ∧
      ∃ k, y = successor x k ∧ s.count x < k ∧ k ≤ (s.pass ns).2.count x
  | 0, x, y, hxy => by simp [upTo, pass, name?, hs] at hxy
  | i + 1, x, y, hxy => by
      rcases name?_upTo_succ h i x with he | ⟨n, hn, hrep, he⟩
      · exact origin_upTo hs i (he ▸ hxy)
      · obtain rfl : (s.upTo ns i).fresh x = y := Option.some.inj (he.symm.trans hxy)
        exact ⟨⟨n, mem_of_getElem? hn, hrep.2⟩, _, rfl, fresh_bounds h hn hrep⟩

end Prefix

/-! ## Earlier messages and failures

A draft starts each node afresh and adds up what was said. -/

/-- A state with messages and a failure from before. -/
def after (said : List String) (failed : Bool) (s : Renamer) : Renamer :=
  { s with said := said ++ s.said, failed := failed || s.failed }

theorem after_rename (said : List String) (failed : Bool) (s : Renamer) (x : String) :
    (s.after said failed).rename x = ((s.rename x).1, (s.rename x).2.after said failed) := by
  unfold rename after
  rw [← append_assoc]

theorem after_outputs (said : List String) (failed : Bool) :
    ∀ (r : List (Value × Nat)) (s : Renamer) (outs : List Value),
      (s.after said failed).outputs r outs =
        ((s.outputs r outs).1, (s.outputs r outs).2.after said failed)
  | [], _, _ => rfl
  | (.str x, i) :: r, s, outs => by
      rw [outputs, after_rename]
      exact after_outputs said failed r (s.rename x).2 _
  | (.none, _) :: _, _, _ | (.bool _, _) :: _, _, _ | (.int _, _) :: _, _, _
  | (.float _, _) :: _, _, _ | (.list _, _) :: _, _, _ | (.tuple _, _) :: _, _, _
  | (.dict _, _) :: _, _, _ | (.object _ _, _) :: _, _, _ => by simp [outputs, after]

theorem after_inputs (said : List String) (failed : Bool) (s : Renamer) :
    ∀ xs : List Value, (s.after said failed).inputs xs = s.inputs xs
  | [] => rfl
  | x :: xs => by
      rw [inputs, inputs, after_inputs said failed s xs]
      rfl

theorem after_node (said : List String) (failed : Bool) (s : Renamer) (n : Node) :
    (s.after said failed).node n = ((s.node n).1, (s.node n).2.after said failed) := by
  unfold node
  simp only [after_inputs]
  split
  · simp [after]
  · split
    · simp [after]
    · simp only [after_outputs]

theorem after_pass (said : List String) (failed : Bool) : ∀ (ns : List Node) (s : Renamer),
    (s.after said failed).pass ns = ((s.pass ns).1, (s.pass ns).2.after said failed)
  | [], _ => rfl
  | n :: ns, s => by
      rw [pass, after_node, after_pass said failed ns (s.node n).2]
      rfl

def bare (s : Renamer) : Renamer := { names := s.names, counts := s.counts }

theorem after_bare (h : s.failed = false) : s.bare.after s.said false = s := by
  simp [bare, after, ← h]

theorem pass_cons_bare (h : (s.node n).2.failed = false) (ns : List Node) :
    s.pass (n :: ns) = ((s.node n).1 :: ((s.node n).2.bare.pass ns).1,
      ((s.node n).2.bare.pass ns).2.after (s.node n).2.said false) := by
  have hpass := after_pass (s.node n).2.said false ns (s.node n).2.bare
  rw [after_bare h] at hpass
  rw [pass, hpass]

end Renamer

/-! ## Nodes of a draft -/

/-- A record can be made: the node is a constant, or none of its attributes takes the name of a
field. -/
def Node.Recordable (n : Node) : Prop :=
  Node.isConstant n.type = true ∨ ∀ a ∈ n.attrs, a.1 ∉ Node.reserved

def Node.ownRecord (n : Node) : Except Fault ModelNode :=
  Node.recordOf n.type n.name n.inputs n.outputs n.attrs n.domain

def Node.renewed (n : Node) : Node := { n with record := n.ownRecord.toOption }

/-- **A well-kept table of nodes**: each node stands once, under its own name, is none that describes
an interface, and has attributes that a record can hold. -/
structure NodeMap.Kept (m : NodeMap) : Prop where
  nodup : (Assoc.keys m).Nodup
  named : ∀ e ∈ m, e.1 = e.2.name
  inner : ∀ e ∈ m, Node.isInterface e.2.type = false
  recordable : ∀ e ∈ m, e.2.Recordable

def NodeMap.ofNodes (ns : List Node) : NodeMap := ns.map fun n => (n.name, n)

@[simp] theorem NodeMap.map_snd_ofNodes (ns : List Node) : (NodeMap.ofNodes ns).map Prod.snd = ns := by
  rw [ofNodes, map_map]
  exact map_id ns

theorem NodeMap.Kept.eq_ofNodes {m : NodeMap} (h : m.Kept) :
    NodeMap.ofNodes (m.map Prod.snd) = m := by
  rw [ofNodes, map_map]
  conv_rhs => rw [← map_id m]
  refine map_congr_left fun e he => ?_
  rw [Function.comp, ← h.named e he]
  rfl

theorem Node.ownRecord_of_recordable (h : n.Recordable) : ∃ r, n.ownRecord = .ok r := by
  unfold ownRecord recordOf
  by_cases hc : isConstant n.type = true
  · exact ⟨_, if_pos hc⟩
  · have hr : ¬ (n.attrs.any fun a => reserved.contains a.1) = true := by
      have := h.resolve_left hc
      simpa using this
    exact ⟨_, by rw [if_neg hc, if_neg hr]⟩

theorem Assoc.insert_middle {α : Type*} {t u : List (String × α)} {k : String} (a b : α)
    (ht : k ∉ keys t) (hu : k ∉ keys u) :
    insert (t ++ (k, a) :: u) k b = t ++ (k, b) :: u := by
  have hother : ∀ w : List (String × α), k ∉ keys w →
      w.map (fun e => if e.1 == k then (k, b) else e) = w := by
    intro w hw
    conv_rhs => rw [← map_id w]
    refine map_congr_left fun e he => ?_
    have : e.1 ≠ k := fun h => hw (h ▸ mem_map_of_mem he)
    simp [this]
  have hmem : contains (t ++ (k, a) :: u) k = true := by
    rw [contains_iff_mem_keys]
    simp [keys]
  rw [insert, if_pos hmem, map_append, map_cons, hother t ht, hother u hu]
  simp

theorem NodeMap.keep_middle {m m' : NodeMap} {k : String} (a b : Node) (hb : b.name = k)
    (hm : k ∉ Assoc.keys m) (hm' : k ∉ Assoc.keys m') (hinner : Node.isInterface b.type = false) :
    NodeMap.keep (m ++ (k, a) :: m') b = m ++ (k, b) :: m' := by
  subst hb
  rw [keep, if_neg (by simpa using hinner)]
  exact Assoc.insert_middle a b hm hm'

/-- The draft after a node has been treated, before the node gets its new record. -/
def Draft.treated (d : Draft) (t : Node × Renamer) : Draft :=
  { d with renames := t.2.counts,
           notices := d.notices ++ t.2.said.map fun t => .line ("======== " ++ t),
           nodes := Assoc.insert d.nodes t.1.name t.1 }

/-- The draft with other nodes, and what has become known of names. -/
def Draft.withNodes (d : Draft) (m : NodeMap) (s : Renamer) : Draft :=
  { d with renames := s.counts,
           notices := d.notices ++ s.said.map fun t => .line ("======== " ++ t),
           nodes := m }

@[simp] theorem Draft.nodes_withNodes (d : Draft) (ns : List Node) (s : Renamer) :
    (d.withNodes (NodeMap.ofNodes ns) s).nodes.map Prod.snd = ns :=
  NodeMap.map_snd_ofNodes ns

namespace Emit

theorem run_renameNode (names : List (Value × String)) (n : Node) (d : Draft) :
    run (renameNode .model names n) d =
      let t := ({ names, counts := d.renames } : Renamer).node n
      if t.2.failed then .error (.slip .wrongKind) (d.treated t)
      else match t.1.ownRecord with
        | .error f => .error f (d.treated t)
        | .ok _ => .ok t.2.names
          (d.withNodes (NodeMap.keep (d.treated t).nodes t.1.renewed) t.2) := by
  simp only [renameNode, EStateM.run_bind, EStateM.run_get, EStateM.run_modify]
  cases hf : (({ names, counts := d.renames } : Renamer).node n).2.failed with
  | true => rfl
  | false =>
    simp only [putBack, remade, Bool.false_eq_true, if_false, EStateM.run_bind, EStateM.run_pure,
      EStateM.run_modify, Node.ownRecord]
    cases hr : Node.recordOf _ _ _ _ _ _ with
    | error f => rfl
    | ok r => simp only [Node.renewed, Node.ownRecord, hr]; rfl

/-- A node in the middle of a table keeps its place. -/
theorem run_renameNode_middle (names : List (Value × String)) {before behind : NodeMap}
    (hd : d.nodes = before ++ (n.name, n) :: behind) (hbefore : n.name ∉ Assoc.keys before)
    (hbehind : n.name ∉ Assoc.keys behind) (hinner : Node.isInterface n.type = false) (hrec : n.Recordable)
    (hok : (({ names, counts := d.renames } : Renamer).node n).2.failed = false) :
    let t := ({ names, counts := d.renames } : Renamer).node n
    run (renameNode .model names n) d =
      .ok t.2.names (d.withNodes (before ++ (n.name, t.1.renewed) :: behind) t.2) := by
  intro t
  have hframe : t.1 = { n with inputs := t.1.inputs, outputs := t.1.outputs } :=
    Renamer.node_frame hok
  have hname : t.1.name = n.name := by rw [hframe]
  have htype : Node.isInterface t.1.type = false := by rw [hframe]; exact hinner
  obtain ⟨r, hr⟩ : ∃ r, t.1.ownRecord = .ok r :=
    Node.ownRecord_of_recordable (by rw [hframe]; exact hrec)
  have htreated : (d.treated t).nodes = before ++ (n.name, t.1) :: behind := by
    rw [Draft.treated, hname, hd]
    exact Assoc.insert_middle n t.1 hbefore hbehind
  have hkeep : NodeMap.keep (d.treated t).nodes t.1.renewed =
      before ++ (n.name, t.1.renewed) :: behind := by
    rw [htreated]
    exact NodeMap.keep_middle t.1 t.1.renewed hname hbefore hbehind htype
  rw [run_renameNode]
  change (if t.2.failed then _ else match t.1.ownRecord with | .error f => _ | .ok r => _) = _
  rw [hok, if_neg Bool.false_ne_true, hr, ← hkeep]

theorem withNodes_withNodes (d : Draft) (m m' : NodeMap) (s u : Renamer) :
    (d.withNodes m s).withNodes m' u = d.withNodes m' (u.after s.said false) := by
  simp [Draft.withNodes, Renamer.after]

/-- **All nodes are treated when none fails**, and each one stays at its place. -/
theorem run_renameNodes : ∀ (ns : List Node) (names : List (Value × String)) (d : Draft)
    (before : NodeMap), d.nodes = before ++ NodeMap.ofNodes ns → (Assoc.keys d.nodes).Nodup →
    (∀ n ∈ ns, Node.isInterface n.type = false ∧ n.Recordable) →
    (({ names, counts := d.renames } : Renamer).pass ns).2.failed = false →
    let t := ({ names, counts := d.renames } : Renamer).pass ns
    run (renameNodes .model ns names) d =
      .ok t.2.names (d.withNodes (before ++ NodeMap.ofNodes (t.1.map Node.renewed)) t.2)
  | [], names, d, before, hd, _, _, _ => by
      simp only [NodeMap.ofNodes, map_nil, append_nil] at hd
      simp [renameNodes, Renamer.pass, Draft.withNodes, NodeMap.ofNodes, ← hd]
  | n :: ns, names, d, before, hd, hnodup, hn, hok => by
      obtain ⟨hinner, hrec⟩ := hn n mem_cons_self
      set s : Renamer := { names, counts := d.renames }
      have hstep : (s.node n).2.failed = false := Renamer.failed_of_failed_pass ns hok
      have hkeys : (Assoc.keys before ++ n.name :: Assoc.keys (NodeMap.ofNodes ns)).Nodup := by
        rw [hd] at hnodup
        simpa [Assoc.keys, NodeMap.ofNodes] using hnodup
      have hnew := (nodup_middle.1 hkeys).notMem
      have hrun : run (renameNode .model names n) d = .ok (s.node n).2.names
          (d.withNodes (before ++ (n.name, (s.node n).1.renewed) :: NodeMap.ofNodes ns)
            (s.node n).2) :=
        run_renameNode_middle names hd (fun h => hnew (mem_append_left _ h))
          (fun h => hnew (mem_append_right _ h)) hinner hrec hstep
      have hname : (s.node n).1.renewed.name = n.name := by
        rw [Node.renewed, Renamer.node_frame hstep]
      have hrest : ((s.node n).2.bare.pass ns).2.failed = false := by
        rw [Renamer.pass_cons_bare hstep] at hok
        simpa [Renamer.after] using hok
      have ih := run_renameNodes ns (s.node n).2.names
        (d.withNodes (before ++ (n.name, (s.node n).1.renewed) :: NodeMap.ofNodes ns) (s.node n).2)
        (before ++ [(n.name, (s.node n).1.renewed)]) (by simp [Draft.withNodes]) (by simpa [Assoc.keys, Draft.withNodes] using hkeys)
        (fun m hm => hn m (mem_cons_of_mem _ hm)) hrest
      intro t
      rw [renameNodes, EStateM.run_bind, hrun]
      refine ih.trans ?_
      rw [withNodes_withNodes]
      simp only [t, Renamer.pass_cons_bare hstep, NodeMap.ofNodes, map_cons, hname,
        append_assoc, singleton_append]
      rfl

theorem failed_of_run_renameNodes : ∀ {ns : List Node} {names names' : List (Value × String)}
    {d d' : Draft}, run (renameNodes .model ns names) d = .ok names' d' →
      (({ names, counts := d.renames } : Renamer).pass ns).2.failed = false
  | [], _, _, _, _, _ => rfl
  | n :: ns, names, names', d, d', h => by
      rw [renameNodes, EStateM.run_bind, run_renameNode] at h
      dsimp only at h
      set s : Renamer := { names, counts := d.renames }
      cases hstep : (s.node n).2.failed with
      | true => simp [hstep] at h
      | false =>
        rw [hstep, if_neg Bool.false_ne_true] at h
        cases hr : (s.node n).1.ownRecord with
        | error f => simp [hr] at h
        | ok r =>
          rw [hr] at h
          have ih : ((s.node n).2.bare.pass ns).2.failed = false := failed_of_run_renameNodes h
          rw [Renamer.pass_cons_bare hstep]
          simpa [Renamer.after] using ih

/-- **Renaming in place, as a whole**: it succeeds exactly when no node fails, and then the draft has
the treated nodes in place of its own. -/
theorem run_renameInPlace (hk : d.nodes.Kept) :
    let t := ({ names := [], counts := d.renames } : Renamer).pass (d.nodes.map Prod.snd)
    (t.2.failed = false ↔ ∃ d', run (renameInPlace .model) d = .ok () d') ∧
      (t.2.failed = false →
        run (renameNodes .model (d.nodes.map Prod.snd) []) d =
          .ok t.2.names (d.withNodes (NodeMap.ofNodes (t.1.map Node.renewed)) t.2) ∧
        run (renameInPlace .model) d =
          .ok () (d.withNodes (NodeMap.ofNodes (t.1.map Node.renewed)) t.2)) := by
  intro t
  have hrun : run (renameInPlace .model) d =
      match run (renameNodes .model (d.nodes.map Prod.snd) []) d with
        | .ok _ d' => .ok () d'
        | .error f d' => .error f d' := by
    simp only [renameInPlace, EStateM.run_bind, EStateM.run_get]
    cases run (renameNodes .model (d.nodes.map Prod.snd) []) d <;> rfl
  have hkept : ∀ n ∈ d.nodes.map Prod.snd, Node.isInterface n.type = false ∧ n.Recordable := by
    intro n hn
    obtain ⟨e, he, rfl⟩ := mem_map.1 hn
    exact ⟨hk.inner e he, hk.recordable e he⟩
  have hok : t.2.failed = false → run (renameNodes .model (d.nodes.map Prod.snd) []) d =
      .ok t.2.names (d.withNodes (NodeMap.ofNodes (t.1.map Node.renewed)) t.2) :=
    run_renameNodes (d.nodes.map Prod.snd) [] d [] (by simpa using hk.eq_ofNodes.symm) hk.nodup hkept
  refine ⟨⟨fun h => ⟨_, by rw [hrun, hok h]⟩, fun ⟨d', h⟩ => ?_⟩,
    fun h => ⟨hok h, by rw [hrun, hok h]⟩⟩
  cases hnodes : run (renameNodes .model (d.nodes.map Prod.snd) []) d with
  | ok names d₁ => exact failed_of_run_renameNodes hnodes
  | error f d₁ => simp [hrun, hnodes] at h

theorem renameInPlace_ok {d' : Draft} (hk : d.nodes.Kept) (h : run (renameInPlace .model) d = .ok () d') :
    let t := ({ names := [], counts := d.renames } : Renamer).pass (d.nodes.map Prod.snd)
    t.2.failed = false ∧ d' = d.withNodes (NodeMap.ofNodes (t.1.map Node.renewed)) t.2 := by
  obtain ⟨hiff, hdone⟩ := run_renameInPlace hk
  have hok := hiff.2 ⟨d', h⟩
  refine ⟨hok, ?_⟩
  simpa using h.symm.trans (hdone hok).2

end Emit

end ModelExport
