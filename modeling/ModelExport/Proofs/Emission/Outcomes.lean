import ModelExport.Proofs.Emission.Asked

/-!
# Proofs/Emission/Outcomes — runs that succeed, and what they add

`Reaches x d Q` says that a run succeeds, and of what it returns and of the nodes that it adds that they are as
`Q` says.  A rule is followed step by step: each node that it asks for is put in front of those that come after
it, so that in the end `Q` is to be shown of all nodes of the rule, in order.
-/

namespace ModelExport

open Emit

variable {α β : Type}

/-- **A run succeeds**: the version stays, and what it returns and the nodes that it adds are as said. -/
def Reaches (x : Emit α) (d : Draft) (Q : α → List Node → Prop) : Prop :=
  ∃ d' a ns, Emission x d d' a ns ∧ d'.opset = d.opset ∧ Q a ns

/-- **The fields of a node** that it is asked for with. -/
structure Node.Is (n : Node) (type : String) (attrs : Attrs) (ins outs : List Value) : Prop where
  type : n.type = type
  attrs : n.attrs = attrs
  inputs : n.inputs = ins
  outputs : n.outputs = outs

theorem Node.is_asked (type : String) (k : Nat) (ins outs : List Value) (attrs : Attrs) :
    (asked type k ins outs attrs).Is type attrs ins outs := ⟨rfl, rfl, rfl, rfl⟩

namespace Emit

/-- A name that is given alone is a list of one. -/
theorem nodeTo_str (type : String) (inputs : Value) (o : String) (attrs : Attrs) :
    nodeTo type inputs (.str o) attrs = nodeTo type inputs (.strs [o]) attrs := rfl

theorem ite_bind (c : Prop) [Decidable c] (x y : Emit α) (f : α → Emit β) :
    (if c then x else y) >>= f = if c then x >>= f else y >>= f := apply_ite (· >>= f) c x y

end Emit

namespace Reaches

variable {x : Emit α} {f : α → Emit β} {d : Draft} {P : α → List Node → Prop} {Q : β → List Node → Prop}

theorem imp {P' : α → List Node → Prop} (h : Reaches x d P) (hP : ∀ a ns, P a ns → P' a ns) : Reaches x d P' := by
  obtain ⟨d', a, ns, hem, hversion, ha⟩ := h
  exact ⟨d', a, ns, hem, hversion, hP a ns ha⟩

theorem pure (a : α) (h : P a []) : Reaches (Pure.pure a) d P := ⟨d, a, [], (Quiet.pure a).emission rfl, rfl, h⟩

/-- **One run after another.** -/
theorem bind (hx : Reaches x d P) (hf : ∀ d' a ns, d'.opset = d.opset → P a ns →
    Reaches (f a) d' fun b ms => Q b (ns ++ ms)) : Reaches (x >>= f) d Q := by
  obtain ⟨d₁, a, ns, hem, hversion, ha⟩ := hx
  obtain ⟨d₂, b, ms, hem', hversion', hb⟩ := hf d₁ a ns hversion ha
  exact ⟨d₂, b, ns ++ ms, hem.bind hem', hversion'.trans hversion, hb⟩

theorem discarded {Q : Unit → List Node → Prop} (h : Reaches x d fun _ => Q ()) : Reaches (discard x) d Q := by
  obtain ⟨d', a, ns, hem, hversion, ha⟩ := h
  exact ⟨d', (), ns, hem.discarded, hversion, ha⟩

theorem computed {e : Except Slip α} {a : α} (ha : e = .ok a) (h : Reaches (f a) d Q) :
    Reaches (liftM e >>= f) d Q := by
  obtain ⟨d', b, ns, hem, hversion, hb⟩ := h
  exact ⟨d', b, ns, hem.computed ha, hversion, hb⟩

theorem versioned {f : Int → Emit β} (h : Reaches (f d.opset) d Q) : Reaches (opset >>= f) d Q := by
  obtain ⟨d', b, ns, hem, hversion, hb⟩ := h
  exact ⟨d', b, ns, hem.versioned, hversion, hb⟩

theorem noticed (n : Notice) {f : Unit → Emit β} (h : ∀ d' : Draft, d'.opset = d.opset → Reaches (f ()) d' Q) :
    Reaches (notify n >>= f) d Q := by
  obtain ⟨d', b, ns, hem, hversion, hb⟩ := h { d with notices := d.notices ++ [n] } rfl
  have hnotice : Emission (notify n) d { d with notices := d.notices ++ [n] } () [] :=
    (Quiet.modify (f := fun d => { d with notices := d.notices ++ [n] }) (fun _ _ => rfl) fun _ => rfl).emission rfl
  exact ⟨d', b, ns, hnotice.bind hem, hversion, hb⟩

variable {type : String} {inputs : Value} {attrs : Attrs} {ins : List Value} {R : Value → List Node → Prop}
  (hin : Node.inputList (givenInputs inputs) = .ok ins)
  (hattrs : Node.isConstant type = true ∨ ∀ a ∈ attrs, a.1 ∉ Node.reserved)

include hin hattrs

/-- **A node that writes its own name.** -/
theorem own (h : ∀ n : Node, n.Is type attrs ins [.str n.name] → R (.str n.name) [n]) :
    Reaches (Emit.node type inputs attrs) d R :=
  ⟨_, _, _, emission_node d hin hattrs, rfl,
    h (.asked type (d.count type) ins [.str (numbered type (d.count type))] attrs) (Node.is_asked ..)⟩

theorem node {f : Value → Emit β} (h : ∀ (d' : Draft) (n : Node), d'.opset = d.opset →
      n.Is type attrs ins [.str n.name] → Reaches (f (.str n.name)) d' fun b ms => Q b (n :: ms)) :
    Reaches (Emit.node type inputs attrs >>= f) d Q :=
  .bind (P := fun v ns => ∃ n : Node, n.Is type attrs ins [.str n.name] ∧ v = .str n.name ∧ ns = [n])
    (.own hin hattrs fun n hn => ⟨n, hn, rfl, rfl⟩) fun d' _ _ hd' ⟨n, hn, hv, hns⟩ => hv ▸ hns ▸ h d' n hd' hn

/-- **A node that writes a name that is given.** -/
theorem named (o : String) (h : ∀ n : Node, n.Is type attrs ins [.str o] → R (.str o) [n]) :
    Reaches (Emit.nodeTo type inputs (.str o) attrs) d R := by
  rw [nodeTo_str]
  exact ⟨_, _, _, emission_nodeTo d hin o [] hattrs, rfl, h _ (Node.is_asked ..)⟩

end Reaches

end ModelExport
