import ModelExport.Proofs.Emission.Emits
import ModelExport.Proofs.Wiring.Emission

/-!
# Proofs/Wiring/Yields — computations by what they read

`Yields A P x` says that the nodes of a run of `x` that succeeds read names in `A` and outputs of one another only,
and that its result keeps the promise `P`.  It is a class, so that what a rule reads is read off its text: a step
whose result is a name (`Promise.name`) makes that name known to all that comes after it (`Yields.bind_name`), and the
inputs of a node are looked up among the names that are known (`Reads`, `Known`).
-/

namespace ModelExport

open Emit List

variable {v : Value} {xs : List String}

/-! ## Names that are known -/

/-- The inputs of a node that is given a value to read; none if it may not be read. -/
def Value.ends (v : Value) : List Value := (Node.inputList (givenInputs v)).toOption.getD []

/-- The first of a sequence, if there is one. -/
def Value.front : Value → List Value
  | .list (v :: _) => [v]
  | _ => []

/-- A name that is known. -/
class Known (A : List Value) (v : Value) : Prop where
  mem : v ∈ A

/-- **Inputs that are known**, as a node reads them. -/
class Reads (A : List Value) (inputs : Value) : Prop where
  subset : ∀ {xs : List Value}, Node.inputList (givenInputs inputs) = .ok xs → xs ⊆ A

namespace Known

variable {A : List Value} {v : Value}

instance tail (w : Value) [h : Known A v] : Known (w :: A) v := ⟨mem_cons_of_mem w h.mem⟩

instance head : Known (v :: A) v := ⟨mem_cons_self⟩

instance append (ws : List Value) [h : Known A v] : Known (ws ++ A) v := ⟨mem_append_right ws h.mem⟩

end Known

namespace Reads

variable {A B : List Value}

theorem mono (h : Reads A v) (hAB : A ⊆ B) : Reads B v :=
  ⟨fun hxs _ hx => hAB (h.subset hxs hx)⟩

theorem list_iff {vs : List Value} : Reads A (.list vs) ↔ vs.map Node.endpoint ⊆ A :=
  ⟨fun h => h.subset rfl, fun h => ⟨fun hxs => Except.ok.inj hxs ▸ h⟩⟩

instance none : Reads A .none := ⟨fun hxs _ hx => by
  rw [← Except.ok.inj hxs] at hx
  cases hx⟩

instance nil : Reads A (.list []) := list_iff.2 (nil_subset _)

instance cons (s : String) (vs : List Value) [hs : Known A (.str s)] [hvs : Reads A (.list vs)] :
    Reads A (.list (.str s :: vs)) :=
  list_iff.2 (cons_subset.2 ⟨hs.mem, list_iff.1 hvs⟩)

instance str (s : String) [hs : Known A (.str s)] : Reads A (.str s) := ⟨fun hxs => by
  rw [← Except.ok.inj hxs]
  exact cons_subset.2 ⟨hs.mem, nil_subset _⟩⟩

theorem ends_subset (h : Reads A v) : v.ends ⊆ A := by
  unfold Value.ends
  cases hv : Node.inputList (givenInputs v) with
  | error f => exact nil_subset _
  | ok xs => exact h.subset hv

instance ends (v : Value) : Reads (v.ends ++ A) v := ⟨fun {xs} hxs => by
  have hends : v.ends = xs := by rw [Value.ends, hxs]; rfl
  rw [hends]
  exact subset_append_left xs A⟩

theorem of_subset {vs ws : List Value} (h : Reads A (.list ws)) (hvw : vs ⊆ ws) : Reads A (.list vs) :=
  list_iff.2 fun _ hv => list_iff.1 h (map_subset Node.endpoint hvw hv)

theorem strs (h : xs.map Value.str ⊆ A) : Reads A (.strs xs) :=
  list_iff.2 (by rw [map_map]; exact h)

end Reads

/-! ## Slots -/

namespace OpNode

/-- An operator whose input slots hold lists of names. -/
class Fed (op : OpNode) : Prop where
  names : ∀ s ∈ op.inputs, ∃ xs, s.2 = .strs xs

/-- A slot of an operator that holds names, one at least. -/
class Filled (op : OpNode) (slot : String) : Prop where
  names : ∃ x xs, op.input slot = .strs (x :: xs)

/-- **The names that the nodes of an operator may read from outside**: its own inputs, and no name. -/
def sources (op : OpNode) : List Value := .str "" :: op.reads

variable {op : OpNode} {slot : String}

theorem mem_inputs_of_get? (h : Assoc.get? op.inputs slot = some v) : (slot, v) ∈ op.inputs := by
  obtain ⟨e, he, rfl⟩ := Option.map_eq_some_iff.1 h
  have hslot : e.1 = slot := by simpa using find?_some he
  rw [← hslot]
  exact mem_of_find?_eq_some he

theorem subset_reads (h : op.input slot = .strs xs) : xs.map Value.str ⊆ op.reads := by
  intro v hv
  cases hget : Assoc.get? op.inputs slot with
  | none =>
    rw [input, hget] at h
    cases h
  | some w =>
    rw [input, hget] at h
    obtain rfl : w = .strs xs := h
    exact mem_flatMap.2 ⟨_, mem_inputs_of_get? hget, by rwa [Value.given_strs]⟩

theorem Fed.input (op : OpNode) [hop : op.Fed] (slot : String) :
    op.input slot = .none ∨ ∃ xs, op.input slot = .strs xs := by
  unfold OpNode.input
  cases hget : Assoc.get? op.inputs slot with
  | none => exact Or.inl rfl
  | some v => exact Or.inr (hop.names _ (mem_inputs_of_get? hget))

theorem inputAt_of_strs {x : String} (h : op.input slot = .strs (x :: xs)) :
    op.inputAt slot 0 = .ok (.str x) := by
  unfold inputAt
  cases hget : Assoc.get? op.inputs slot with
  | none =>
    rw [input, hget] at h
    cases h
  | some v =>
    rw [input, hget] at h
    obtain rfl : v = .strs (x :: xs) := h
    exact memberAt_cons_zero (Value.str x) (xs.map Value.str)

theorem Fed.firstInput [op.Fed] (h : op.firstInput slot = .ok v) :
    ∃ x xs, v = .str x ∧ op.input slot = .strs (x :: xs) := by
  unfold OpNode.firstInput at h
  rcases Fed.input op slot with hnone | ⟨xs, hxs⟩
  · rw [hnone] at h
    cases h
  · rw [hxs] at h
    cases xs with
    | nil => cases h
    | cons x xs =>
      obtain rfl := Except.ok.inj ((memberAt_cons_zero (Value.str x) (xs.map Value.str)).symm.trans h)
      exact ⟨x, xs, rfl, hxs⟩

end OpNode

/-- All that an operator reads is known. -/
class Holds (A : List Value) (op : OpNode) : Prop where
  subset : op.sources ⊆ A

namespace Holds

variable {A : List Value} {op : OpNode}

instance refl : Holds op.sources op := ⟨List.Subset.refl _⟩

instance cons (v : Value) [h : Holds A op] : Holds (v :: A) op := ⟨subset_cons_of_subset v h.subset⟩

instance append (vs : List Value) [h : Holds A op] : Holds (vs ++ A) op :=
  ⟨subset_append_of_subset_right vs h.subset⟩

theorem input_subset [h : Holds A op] {slot : String} (hxs : op.input slot = .strs xs) : xs.map Value.str ⊆ A :=
  fun _ hv => h.subset (mem_cons_of_mem _ (op.subset_reads hxs hv))

end Holds

instance Known.empty (op : OpNode) : Known op.sources (.str "") := ⟨mem_cons_self⟩

instance Reads.input {A : List Value} (op : OpNode) (slot : String) [op.Fed] [Holds A op] :
    Reads A (op.input slot) := by
  rcases OpNode.Fed.input op slot with h | ⟨xs, h⟩
  · rw [h]
    infer_instance
  · rw [h]
    exact .strs (Holds.input_subset h)

/-! ## Promises -/

/-- **A promise about the result of a step**, in view of the names that are known. -/
structure Promise (α : Type) where
  holds : List Value → α → Prop
  mono : ∀ {A B : List Value} {a : α}, A ⊆ B → holds A a → holds B a

namespace Promise

def any {α : Type} : Promise α := ⟨fun _ _ => True, fun _ _ => trivial⟩

def name : Promise Value :=
  ⟨fun A v => ∃ s, v = .str s ∧ v ∈ A, fun hAB ⟨s, hs, hv⟩ => ⟨s, hs, hAB hv⟩⟩

def pair : Promise (Value × Value) :=
  ⟨fun A p => name.holds A p.1 ∧ name.holds A p.2,
    fun hAB h => ⟨name.mono hAB h.1, name.mono hAB h.2⟩⟩

def input : Promise Value := ⟨fun A v => Reads A v, fun hAB h => h.mono hAB⟩

/-- If the result is a sequence, its first member is a name that is known. -/
def sequence : Promise Value :=
  ⟨fun A v => ∀ w ws, v = .list (w :: ws) → name.holds A w, fun hAB h w ws hv => name.mono hAB (h w ws hv)⟩

def inputs : Promise (List Value) := ⟨fun A vs => Reads A (.list vs), fun hAB h => h.mono hAB⟩

end Promise

/-- **A run that succeeds reads what is known**, and its result keeps a promise. -/
class Yields (A : List Value) {α : Type} (P : Promise α) (x : Emit α) : Prop where
  ensures : Ensures x fun _ ns a => WiredFrom A ns ∧ P.holds (A ++ ns.flatMap Node.outputs) a

/-- A run that succeeds reads what is known. -/
abbrev Wires (A : List Value) {α : Type} (x : Emit α) : Prop := Yields A .any x

namespace Yields

variable {α β : Type} {A : List Value} {P : Promise α} {R : Promise β}

/-! ## Steps -/

theorem of_quiet {x : Emit α} (h : Quiet x) : Wires A x :=
  ⟨.of_quiet h fun _ _ => ⟨trivial, trivial⟩⟩

instance ofSlip (e : Except Slip α) : Wires A (liftM e : Emit α) := of_quiet (.ofSlip e)

instance ofFault (e : Except Fault α) : Wires A (liftM e : Emit α) := of_quiet (.ofFault e)

instance opset : Wires A Emit.opset := of_quiet .opset

instance editAttr (name : String) (v : Value) : Wires A (Emit.editAttr name v) :=
  of_quiet (.modify (fun _ _ => rfl) fun _ => rfl)

theorem of_failing {x : Emit α} (h : ∀ {d d' : Draft} {a : α}, EStateM.run x d ≠ .ok a d') :
    Yields A P x :=
  ⟨.of_failing h⟩

instance refuse (r : Refusal) : Yields A P (Emit.refuse r) := of_failing fun h => nomatch h

instance slip (s : Slip) : Yields A P (Emit.slip s) := of_failing fun h => nomatch h

/-! ## Results -/

theorem pure_of {a : α} (h : P.holds A a) : Yields A P (Pure.pure a : Emit α) :=
  ⟨⟨fun hx => by
    obtain ⟨rfl, rfl⟩ := pure_ok hx
    exact ⟨[], (Quiet.pure _).emission rfl, trivial, by simpa using h⟩⟩⟩

instance pure (a : α) : Wires A (Pure.pure a : Emit α) := pure_of trivial

instance pure_name (s : String) [h : Known A (.str s)] : Yields A .name (Pure.pure (.str s) : Emit Value) :=
  pure_of ⟨s, rfl, h.mem⟩

instance pure_pair (s t : String) [hs : Known A (.str s)] [ht : Known A (.str t)] :
    Yields A .pair (Pure.pure (.str s, .str t) : Emit (Value × Value)) :=
  pure_of ⟨⟨s, rfl, hs.mem⟩, ⟨t, rfl, ht.mem⟩⟩

instance pure_inputs (vs : List Value) [h : Reads A (.list vs)] :
    Yields A .inputs (Pure.pure vs : Emit (List Value)) :=
  pure_of h

theorem ofSlip_of {e : Except Slip α} (h : ∀ {a}, e = .ok a → P.holds A a) :
    Yields A P (liftM e : Emit α) :=
  ⟨⟨fun hx => by
    obtain ⟨ha, rfl⟩ := slip_ok hx
    exact ⟨[], (Quiet.ofSlip e).emission hx, trivial, by simpa using h ha⟩⟩⟩

instance inputAt (op : OpNode) (slot : String) [hslot : op.Filled slot] [Holds A op] :
    Yields A .name (liftM (op.inputAt slot 0)) :=
  ofSlip_of fun h => by
    obtain ⟨x, xs, hxs⟩ := hslot.names
    obtain rfl := Except.ok.inj ((OpNode.inputAt_of_strs hxs).symm.trans h)
    exact ⟨x, rfl, Holds.input_subset hxs (mem_cons_self)⟩

instance firstInput (op : OpNode) (slot : String) [op.Fed] [Holds A op] :
    Yields A .name (liftM (op.firstInput slot)) :=
  ofSlip_of fun h => by
    obtain ⟨x, xs, rfl, hxs⟩ := OpNode.Fed.firstInput h
    exact ⟨x, rfl, Holds.input_subset hxs (mem_cons_self)⟩

/-! ## Sequences -/

/-- **What a promise makes known** is known to the rest. -/
theorem bind_of {x : Emit α} {f : α → Emit β} (C : α → List Value) (hx : Yields A P x)
    (hC : ∀ {B a}, A ⊆ B → P.holds B a → C a ⊆ B)
    (hf : ∀ {B a}, P.holds B a → Yields (C a) R (f a)) : Yields A R (x >>= f) where
  ensures := by
    refine hx.ensures.bind (fun ⟨_, hp⟩ => (hf hp).ensures) ?_
    intro d d₁ ns ms a b _ ⟨hns, hp⟩ ⟨hms, hr⟩
    have hknown := hC (subset_append_left A _) hp
    refine ⟨wiredFrom_append.2 ⟨hns, hms.mono hknown⟩, R.mono ?_ hr⟩
    rw [flatMap_append, ← append_assoc]
    exact append_subset_append_right hknown _

instance (priority := low) bind (x : Emit α) (f : α → Emit β) [hx : Wires A x]
    [hf : ∀ a, Yields A R (f a)] : Yields A R (x >>= f) :=
  bind_of (fun _ => A) hx (fun hAB _ => hAB) fun _ => hf _

/-- **A name that a step has for a result** is known to the rest. -/
instance bind_name (x : Emit Value) (f : Value → Emit β) [hx : Yields A .name x]
    [hf : ∀ s, Yields (.str s :: A) R (f (.str s))] : Yields A R (x >>= f) :=
  bind_of (fun v => v :: A) hx (fun hAB ⟨_, _, hv⟩ => cons_subset.2 ⟨hv, hAB⟩) fun ⟨s, hs, _⟩ => by
    rw [hs]
    exact hf s

instance bind_pair (x : Emit (Value × Value)) (f : Value × Value → Emit β) [hx : Yields A .pair x]
    [hf : ∀ s t, Yields (.str s :: .str t :: A) R (f (.str s, .str t))] : Yields A R (x >>= f) := by
  refine bind_of (fun p => p.1 :: p.2 :: A) hx ?_ ?_
  · rintro B p hAB ⟨⟨_, _, hs⟩, _, _, ht⟩
    exact cons_subset.2 ⟨hs, cons_subset.2 ⟨ht, hAB⟩⟩
  · rintro B ⟨v, w⟩ ⟨⟨s, hs, _⟩, t, ht, _⟩
    obtain rfl : v = .str s := hs
    obtain rfl : w = .str t := ht
    exact hf s t

instance bind_input (x : Emit Value) (f : Value → Emit β) [hx : Yields A .input x]
    [hf : ∀ v, Yields (v.ends ++ A) R (f v)] : Yields A R (x >>= f) :=
  bind_of (fun v => v.ends ++ A) hx (fun hAB h => append_subset.2 ⟨h.ends_subset, hAB⟩) fun _ => hf _

instance bind_inputs (x : Emit (List Value)) (f : List Value → Emit β) [hx : Yields A .inputs x]
    [hf : ∀ vs, Yields ((Value.list vs).ends ++ A) R (f vs)] : Yields A R (x >>= f) :=
  bind_of (fun vs => (Value.list vs).ends ++ A) hx
    (fun hAB h => append_subset.2 ⟨h.ends_subset, hAB⟩) fun _ => hf _

/-- Inputs that a step has for a result, with the rest to be shown. -/
theorem after_inputs {x : Emit (List Value)} {f : List Value → Emit β} [Yields A .inputs x]
    (hf : ∀ vs, Yields ((Value.list vs).ends ++ A) R (f vs)) : Yields A R (x >>= f) :=
  bind_inputs x f

theorem after_sequence {x : Emit Value} {f : Value → Emit β} [hx : Yields A .sequence x]
    (hf : ∀ s ws, Yields (.str s :: A) R (f (.list (.str s :: ws))))
    (hother : ∀ v, (∀ w ws, v ≠ .list (w :: ws)) → Yields A R (f v)) : Yields A R (x >>= f) := by
  refine bind_of (fun v => v.front ++ A) hx ?_ ?_
  · intro B v hAB h
    unfold Value.front
    split
    · obtain ⟨-, -, hw⟩ := h _ _ rfl
      exact cons_subset.2 ⟨hw, hAB⟩
    · exact hAB
  · intro B v h
    unfold Value.front
    split
    · obtain ⟨s, rfl, -⟩ := h _ _ rfl
      exact hf s _
    · rename_i hno
      exact hother v hno

theorem known {e : Except Slip α} {f : α → Emit β} (h : ∀ a, e = .ok a → Yields A R (f a)) :
    Yields A R (liftM e >>= f) :=
  ⟨.known fun a ha => (h a ha).ensures⟩

instance ite (c : Prop) [Decidable c] (x y : Emit α) [hx : Yields A P x] [hy : Yields A P y] :
    Yields A P (if c then x else y) :=
  ⟨.ite hx.ensures hy.ensures⟩

instance discard (x : Emit α) [Wires A x] : Wires A (Functor.discard x) := by
  rw [Emits.discard_eq]
  infer_instance

/-! ## Nodes -/

theorem nodeTo_of {type : String} {inputs outputs : Value} {attrs : Attrs} [h : Reads A inputs]
    {P : Promise Value}
    (hP : ∀ {d d' : Draft} {n : Node}, AddsNode type inputs outputs d d' n →
      P.holds (A ++ n.outputs) (result n.outputs)) : Yields A P (Emit.nodeTo type inputs outputs attrs) :=
  ⟨⟨fun hx => by
    obtain ⟨n, hns, hn, rfl⟩ := nodeNamed_emission hx
    exact ⟨[n], hns, ⟨h.subset hn.given, trivial⟩, by simpa using hP hn⟩⟩⟩

instance nodeTo (type : String) (inputs outputs : Value) (attrs : Attrs) [Reads A inputs] :
    Wires A (Emit.nodeTo type inputs outputs attrs) :=
  nodeTo_of fun _ => trivial

theorem nodeTo_alone (type : String) (inputs : Value) {outputs : Value} (attrs : Attrs) [Reads A inputs]
    (h : outputs = .none ∨ outputs = .list []) : Yields A .name (Emit.nodeTo type inputs outputs attrs) :=
  nodeTo_of fun hn => by
    rw [hn.alone h]
    exact ⟨_, rfl, mem_append_right _ (mem_singleton_self _)⟩

instance nodeTo_none (type : String) (inputs : Value) (attrs : Attrs) [Reads A inputs] :
    Yields A .name (Emit.nodeTo type inputs .none attrs) :=
  nodeTo_alone type inputs attrs (Or.inl rfl)

instance nodeTo_nil (type : String) (inputs : Value) (attrs : Attrs) [Reads A inputs] :
    Yields A .name (Emit.nodeTo type inputs (.list []) attrs) :=
  nodeTo_alone type inputs attrs (Or.inr rfl)

instance nodeTo_single (type : String) (inputs : Value) (s : String) (attrs : Attrs) [Reads A inputs] :
    Yields A .name (Emit.nodeTo type inputs (.strs [s]) attrs) :=
  nodeTo_of fun hn => by
    rw [hn.exactly s [] rfl]
    exact ⟨s, rfl, mem_append_right _ (mem_singleton_self _)⟩

instance node (type : String) (inputs : Value) (attrs : Attrs) [Reads A inputs] :
    Yields A .name (Emit.node type inputs attrs) :=
  nodeTo_nil type inputs attrs

instance node_any (type : String) (inputs : Value) (attrs : Attrs) [Reads A inputs] :
    Wires A (Emit.node type inputs attrs) :=
  nodeTo type inputs (.list []) attrs

instance constant (type : Int) (v : Value) : Yields A .name (Emit.constant type v) :=
  node "Constant" (.list []) _

instance constantShaped (type : Int) (dims v : Value) : Yields A .name (Emit.constantShaped type dims v) :=
  node "Constant" (.list []) _

end Yields

end ModelExport
