import ModelExport.Proofs.Emission.Mapping
import ModelExport.Proofs.Registration
import ModelExport.Proofs.Wiring.Emission

/-!
# Proofs/Emission/Asked — nodes as they are asked for

Where the inputs and outputs of a node are names, adding it cannot fail, and the node has the fields that
were asked for (`Node.asked`).  So what a rule adds is known node by node: `emission_nodeTo` and
`emission_node` for single nodes, `Emission.bind` for steps in a row, and `emission_mapUpTo_of_rule` for
an operator that is mapped by its rule.
-/

namespace ModelExport

open Emit
open EStateM (run)

variable {d d' : Draft} {ns : List Node}

/-- **A node as it is asked for**, under the `k`-th name of its type, with its record. -/
def Node.asked (type : String) (k : Nat) (inputs outputs : List Value) (attrs : Attrs) : Node :=
  Node.renewed { type, name := numbered type k, inputs, outputs, attrs, domain := .none }

def Node.attr (n : Node) (name : String) : Value := (Assoc.get? n.attrs name).getD .none

def Value.ints? : Value → Option (List Int)
  | .list xs => xs.mapM Value.int?
  | _ => Option.none

theorem Value.ints?_ints (xs : List Int) : (Value.ints xs).ints? = some xs := by
  change (xs.map Value.int).mapM Value.int? = some xs
  induction xs with
  | nil => rfl
  | cons x xs ih => simp [Value.int?, ih]

/-- The draft with a node added under the next name of its type. -/
def Draft.adding (d : Draft) (n : Node) : Draft :=
  { d with counts := (d.counts.next n.type).2, nodes := d.nodes.keep n }

namespace Draft

theorem count_adding_self (d : Draft) (n : Node) : (d.adding n).count n.type = d.count n.type + 1 := by
  simp [adding, count, NameCounts.next, Assoc.get?_insert]

theorem count_adding_other (d : Draft) (n : Node) {t : String} (ht : t ≠ n.type) :
    (d.adding n).count t = d.count t := by
  simp [adding, count, NameCounts.next, Assoc.get?_insert, ht]

theorem count_adding_le (d : Draft) (n : Node) (t : String) : d.count t ≤ (d.adding n).count t := by
  by_cases ht : t = n.type
  · rw [ht, count_adding_self]
    exact Nat.le_succ _
  · exact (d.count_adding_other n ht).ge

end Draft

theorem inputList_texts {vs : List Value} (h : ∀ v ∈ vs, ∃ s, v = .str s) : Node.inputList (.list vs) = .ok vs := by
  have hself : ∀ v ∈ vs, Node.endpoint v = v := fun v hv => by
    obtain ⟨s, rfl⟩ := h v hv
    rfl
  exact congrArg Except.ok ((List.map_congr_left hself).trans (List.map_id' vs))

namespace Emit

variable {α β : Type} {type : String} {inputs : Value} {ins : List Value} {attrs : Attrs}

theorem recorded_asked (k : Nat) (hin : Node.inputList inputs = .ok ins) {outs : List Value}
    (houts : outs.map Node.endpoint = outs)
    (hattrs : Node.isConstant type = true ∨ ∀ a ∈ attrs, a.1 ∉ Node.reserved) :
    Node.recorded type (numbered type k) inputs (.list outs) attrs .none =
      .ok (Node.asked type k ins outs attrs) := by
  obtain ⟨r, hr⟩ := Node.ownRecord_of_recordable
    (n := { type, name := numbered type k, inputs := ins, outputs := outs, attrs, domain := .none }) hattrs
  have hrecord : Node.recordOf type (numbered type k) ins outs attrs .none = .ok r := hr
  simp only [Node.recorded, hin, Node.outputList, houts, bind, Except.bind, hrecord, Node.asked, Node.renewed,
    hr, Except.toOption]

/-- **A node is added as it is asked for**, once its outputs are named. -/
theorem emission_asked (d : Draft) (hin : Node.inputList (givenInputs inputs) = .ok ins) {outputs : Value}
    {outs : List Value} (houts : outs.map Node.endpoint = outs)
    (hnames : run (outputsFor type (numbered type (d.count type)) outputs)
      { d with counts := (d.counts.next type).2 } = .ok (.list outs) { d with counts := (d.counts.next type).2 })
    (hattrs : Node.isConstant type = true ∨ ∀ a ∈ attrs, a.1 ∉ Node.reserved) :
    let n := Node.asked type (d.count type) ins outs attrs
    Emission (nodeNamed type inputs outputs attrs none .none) d (d.adding n) (result outs) [n] :=
  emission_of_parts rfl rfl hnames (recorded_asked (d.count type) hin houts hattrs)

theorem emission_nodeTo (d : Draft) (hin : Node.inputList (givenInputs inputs) = .ok ins) (o : String)
    (os : List String) (hattrs : Node.isConstant type = true ∨ ∀ a ∈ attrs, a.1 ∉ Node.reserved) :
    let n := Node.asked type (d.count type) ins ((o :: os).map .str) attrs
    Emission (nodeTo type inputs (.strs (o :: os)) attrs) d (d.adding n) (result ((o :: os).map .str)) [n] := by
  have houts : ((o :: os).map Value.str).map Node.endpoint = (o :: os).map Value.str := by
    rw [List.map_map]
    rfl
  exact emission_asked d hin houts (run_bind_of_ok (outputNames_strs type (o :: os) _)) hattrs

/-- A node that writes its own name. -/
theorem emission_node (d : Draft) (hin : Node.inputList (givenInputs inputs) = .ok ins)
    (hattrs : Node.isConstant type = true ∨ ∀ a ∈ attrs, a.1 ∉ Node.reserved) :
    let n := Node.asked type (d.count type) ins [.str (numbered type (d.count type))] attrs
    Emission (node type inputs attrs) d (d.adding n) (.str (numbered type (d.count type))) [n] :=
  emission_asked d hin rfl rfl hattrs

/-! ## Steps in a row -/

theorem run_computed {e : Except Slip α} {a : α} (ha : e = .ok a) (f : α → Emit β) (d : Draft) :
    run (liftM e >>= f) d = run (f a) d := by
  rw [ha]
  rfl

theorem run_granted {e : Except Fault α} {a : α} (ha : e = .ok a) (f : α → Emit β) (d : Draft) :
    run (liftM e >>= f) d = run (f a) d := by
  rw [ha]
  rfl

theorem Emission.computed {e : Except Slip α} {a : α} (ha : e = .ok a) {f : α → Emit β} {b : β}
    (h : Emission (f a) d d' b ns) : Emission (liftM e >>= f) d d' b ns :=
  { h with puts := fun m => (run_computed ha f _).trans (h.puts m) }

theorem Emission.granted {e : Except Fault α} {a : α} (ha : e = .ok a) {f : α → Emit β} {b : β}
    (h : Emission (f a) d d' b ns) : Emission (liftM e >>= f) d d' b ns :=
  { h with puts := fun m => (run_granted ha f _).trans (h.puts m) }

theorem Emission.versioned {f : Int → Emit β} {b : β} (h : Emission (f d.opset) d d' b ns) :
    Emission (opset >>= f) d d' b ns :=
  { h with puts := h.puts }

theorem Emission.discarded {x : Emit α} {a : α} (h : Emission x d d' a ns) :
    Emission (discard x) d d' () ns := by
  have hpure : Emission (Pure.pure () : Emit Unit) d' d' () [] := (Quiet.pure ()).emission rfl
  rw [Emits.discard_eq, ← List.append_nil ns]
  exact h.bind hpure

end Emit

/-! ## Operators -/

/-- **An operator from one tensor to another**: a slot holds the name `x` and `Out` the name `y`, both of
declared shapes. -/
structure OpNode.Links (op : OpNode) (slot x y : String) (dims outDims : List Int) : Prop where
  input : Assoc.get? op.inputs slot = some (.strs [x])
  output : Assoc.get? op.outputs "Out" = some (.strs [y])
  inputShape : op.inputShape slot 0 = .ok dims
  outputShape : op.outputShape "Out" 0 = .ok outDims

namespace OpNode.Links

variable {op : OpNode} {slot x y : String} {dims outDims : List Int}

theorem input_eq (h : op.Links slot x y dims outDims) : op.input slot = .strs [x] := by
  rw [OpNode.input, h.input, Option.getD_some]

theorem firstInput_eq (h : op.Links slot x y dims outDims) : op.firstInput slot = .ok (.str x) := by
  rw [OpNode.firstInput, h.input_eq]
  rfl

theorem output_eq (h : op.Links slot x y dims outDims) : op.output "Out" = .ok (.strs [y]) := by
  simp only [OpNode.output, h.output]

end OpNode.Links

/-- The rule of a table for the latest version that is not above the operator set. -/
theorem Registry.ruleFor_of_latest {r : Registry} {t : String} {v w : Int} {rule : Rule}
    {rules : List (Int × Rule)} (hrules : r.rulesOf (.str t) = some rules)
    (hfind : rules.find? (fun e => e.1 == w) = some (w, rule)) (hle : w ≤ v)
    (hmax : ∀ e ∈ rules, e.1 ≤ v → e.1 ≤ w) : r.ruleFor t v = .ok rule := by
  have hrule : r.rule? t w = some rule := by simp [rule?, hrules, hfind]
  refine ruleFor_of_isGreatest ⟨⟨by simp [hrule], hle⟩, ?_⟩ hrule
  rintro u ⟨hu, huv⟩
  obtain ⟨e, he, rfl⟩ := List.mem_map.1 ((rule?_eq_some_mem hrules).1 hu)
  exact hmax e he huv

namespace Emit

theorem emission_result {op : OpNode} {slot x y : String} {dims outDims : List Int}
    (h : op.Links slot x y dims outDims) (d : Draft) {type : String} {inputs : Value} {ins : List Value}
    {attrs : Attrs} (hin : Node.inputList (givenInputs inputs) = .ok ins)
    (hattrs : Node.isConstant type = true ∨ ∀ a ∈ attrs, a.1 ∉ Node.reserved) :
    let n := Node.asked type (d.count type) ins [.str y] attrs
    Emission (do discard <| nodeTo type inputs (← op.output "Out") attrs) d (d.adding n) () [n] :=
  .computed h.output_eq (emission_nodeTo d hin y [] hattrs).discarded

section Mapped

variable {r : Registry} {exportType : ExportType} {depth : Nat} {op : OpNode} {rule : Rule} {d d' : Draft}
  {ns : List Node}

/-- An operator that is no composite is mapped by its rule; a fault is seen from it. -/
theorem run_mapUpTo_of_rule (hno : r.composite? (.str op.type) = none)
    (hrule : r.ruleFor op.type d.opset = .ok rule) :
    run (mapUpTo r exportType (depth + 1) op) d = run (seenFrom op (rule op)) d := by
  have happly : run (applyRule r op) d = run (rule op) d := by
    change run (liftM (r.ruleFor op.type d.opset) >>= fun rule => rule op) d = _
    rw [hrule, computed_bind]
  rw [mapUpTo, hno]
  dsimp only
  rw [seenFrom, seenFrom, Emits.run_tryCatch, Emits.run_tryCatch, happly]

/-- **An operator adds the nodes that its rule adds.** -/
theorem emission_mapUpTo_of_rule (hno : r.composite? (.str op.type) = none)
    (hrule : r.ruleFor op.type d.opset = .ok rule) (h : Emission (rule op) d d' () ns) :
    Emission (mapUpTo r exportType (depth + 1) op) d d' () ns := by
  refine { h with puts := fun m => (run_mapUpTo_of_rule (d := { d with nodes := m }) hno hrule).trans ?_ }
  rw [seenFrom, Emits.run_tryCatch, h.puts m]

/-- **An operator whose rule fails fails**, as seen from it. -/
theorem run_mapUpTo_of_fault {f : Fault} (hno : r.composite? (.str op.type) = none)
    (hrule : r.ruleFor op.type d.opset = .ok rule) (h : run (rule op) d = .error f d') :
    run (mapUpTo r exportType (depth + 1) op) d = .error (f.atSite op.site) d' := by
  rw [run_mapUpTo_of_rule hno hrule, seenFrom, Emits.run_tryCatch, h]
  rfl

end Mapped

end Emit

end ModelExport
