import ModelExport.Proofs.Repetition.Building
import ModelExport.Wiring

/-!
# Proofs/SourceGraph — one node for each operation

The graph of a program has a node for each operation that is not of the interface, block by block and
in order (`nodes_build`), and each under a name of its own.  `wires_build` says what the nodes read and
write: the names in their slots.
-/

namespace ModelExport

open List

/-- **Operations with their blocks**, those of the interface apart. -/
def Program.placedOperations (p : Program) : List (Block × Operation) :=
  p.blocks.flatMap fun b => (b.ops.filter fun op => !op.isInterface).map (Prod.mk b)

namespace SourceGraph

/-- An entry for an operation of a block. -/
def Stands (s : Block × Operation) (e : String × OpNode) : Prop := e.2 = nodeOf s.1 e.1 s.2

variable {g₀ g : SourceGraph} {ops : List Operation} {placed : List (Block × Operation)}

theorem Lists.stands_addOperation (h : Lists g₀ ops g) (hg : List.Forall₂ Stands placed g.nodes)
    (b : Block) (op : Operation) :
    List.Forall₂ Stands (placed ++ ([op].filter fun op => !op.isInterface).map (Prod.mk b))
      (SourceGraph.addOperation b g op).nodes := by
  cases hop : op.isInterface with
  | true =>
    have hsame : SourceGraph.addOperation b g op = g := if_pos hop
    simpa [hop, hsame] using hg
  | false =>
    rw [addOperation_eq h b hop, filter_cons_of_pos (by simp [hop]), filter_nil]
    exact rel_append hg (.cons rfl .nil)

theorem Lists.stands_addOperations (h : Lists g₀ ops g) (hg : List.Forall₂ Stands placed g.nodes)
    (b : Block) (more : List Operation) :
    List.Forall₂ Stands (placed ++ (more.filter fun op => !op.isInterface).map (Prod.mk b))
      (more.foldl (SourceGraph.addOperation b) g).nodes := by
  induction more generalizing ops g placed with
  | nil => simpa using hg
  | cons op more ih =>
    have := ih (h.addOperation b op) (h.stands_addOperation hg b op)
    rwa [append_assoc, ← map_append, ← filter_append] at this

theorem Lists.stands_addBlocks (h : Lists g₀ ops g) (hg : List.Forall₂ Stands placed g.nodes)
    (bs : List Block) :
    List.Forall₂ Stands
      (placed ++ bs.flatMap fun b => (b.ops.filter fun op => !op.isInterface).map (Prod.mk b))
      (bs.foldl (fun g b => b.ops.foldl (SourceGraph.addOperation b) g) g).nodes := by
  induction bs generalizing ops g placed with
  | nil => simpa using hg
  | cons b bs ih =>
    have := ih (h.addOperations b b.ops) (h.stands_addOperations hg b b.ops)
    rwa [append_assoc] at this

/-- **The graph of a program has one node for each operation**, in the order of the blocks and of
their operations. -/
theorem nodes_build (p : Program) (weights : List (String × Weight)) (inputs outputs : List Terminal) :
    List.Forall₂ Stands p.placedOperations (build p weights inputs outputs).nodes := by
  have hempty : Lists { empty with inputs, outputs, weights } [] { empty with inputs, outputs, weights } :=
    ⟨.nil, fun _ he => absurd he not_mem_nil, rfl, rfl, rfl⟩
  exact hempty.stands_addBlocks .nil p.blocks

theorem exists_nodeOf_of_mem {nodes : List (String × OpNode)} (h : List.Forall₂ Stands placed nodes)
    {e : String × OpNode} (he : e ∈ nodes) : ∃ b op, e.2 = nodeOf b e.1 op := by
  induction h with
  | nil => exact absurd he not_mem_nil
  | @cons s e' _ _ hs _ ih =>
    rcases mem_cons.1 he with rfl | he
    · exact ⟨s.1, s.2, hs⟩
    · exact ih he

end SourceGraph

/-! ## What the nodes read and write -/

/-- What an operator reads and writes, when its slots hold names. -/
def OpNode.wire (op : OpNode) : Wire := { name := op.name, reads := op.reads, writes := op.written }

theorem mapM_eq_ok {α β ε : Type} {f : α → Except ε β} {g : α → β} {xs : List α}
    (h : ∀ x ∈ xs, f x = .ok (g x)) : xs.mapM f = .ok (xs.map g) := by
  induction xs with
  | nil => rfl
  | cons x xs ih =>
    obtain ⟨hx, hxs⟩ := forall_mem_cons.1 h
    rw [mapM_cons, hx, ih hxs]
    rfl

theorem slotMembers_strs (slots : List (String × List String)) :
    slotMembers (slots.map fun s => (s.1, .strs s.2)) =
      .ok ((slots.map fun s => (s.1, Value.strs s.2)).flatMap fun s => s.2.given) := by
  have hslots : (slots.map fun s => (s.1, Value.strs s.2)).mapM (fun s => s.2.members) =
      .ok ((slots.map fun s => (s.1, Value.strs s.2)).map fun s => s.2.given) := by
    refine mapM_eq_ok (forall_mem_map.2 fun s _ => ?_)
    rw [Value.given_strs]
    rfl
  rw [slotMembers, hslots, flatMap_def]
  rfl

namespace SourceGraph

theorem reading_nodeOf (b : Block) (name : String) (op : Operation) :
    (nodeOf b name op).reading = .ok { (nodeOf b name op).wire with writes := [] } := by
  rw [OpNode.reading, nodeOf, slotMembers_strs]
  rfl

theorem writing_nodeOf (ws : List Wire) (b : Block) (name : String) (op : Operation) :
    (nodeOf b name op).writing ws { (nodeOf b name op).wire with writes := [] } =
      .ok (nodeOf b name op).wire := by
  simp only [OpNode.writing, nodeOf, slotMembers_strs]
  rfl

/-- **The graph of a program is wired by the names in its slots.** -/
theorem wires_build (p : Program) (weights : List (String × Weight)) (inputs outputs : List Terminal) :
    (build p weights inputs outputs).wires =
      .ok ((build p weights inputs outputs).nodes.map fun e => e.2.wire) := by
  have hnode : ∀ op ∈ (build p weights inputs outputs).nodes.map Prod.snd, ∃ b name o, op = nodeOf b name o := by
    refine forall_mem_map.2 fun e he => ?_
    obtain ⟨b, op, hop⟩ := exists_nodeOf_of_mem (nodes_build p weights inputs outputs) he
    exact ⟨b, e.1, op, hop⟩
  have hwires : ((build p weights inputs outputs).nodes.map fun e => e.2.wire) =
      ((build p weights inputs outputs).nodes.map Prod.snd).map OpNode.wire := by
    rw [map_map]
    rfl
  rw [SourceGraph.wires, hwires]
  generalize (build p weights inputs outputs).nodes.map Prod.snd = ops at hnode ⊢
  have hreads : ops.mapM OpNode.reading = .ok (ops.map fun op => { op.wire with writes := [] }) := by
    refine mapM_eq_ok fun op hop => ?_
    obtain ⟨b, name, o, rfl⟩ := hnode op hop
    exact reading_nodeOf b name o
  rw [hreads]
  change (ops.zip (ops.map fun op => { op.wire with writes := [] })).mapM _ = _
  rw [← map_prod_left_eq_zip, mapM_map]
  refine mapM_eq_ok fun op hop => ?_
  obtain ⟨b, name, o, rfl⟩ := hnode op hop
  exact writing_nodeOf _ b name o

end SourceGraph

end ModelExport
