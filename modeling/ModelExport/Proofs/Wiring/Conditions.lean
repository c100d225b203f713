import ModelExport.Proofs.Wiring.Rules

/-!
# Proofs/Wiring/Conditions — rules that may read what nobody writes

A few rules read what they are given without looking at it: a layer with weights takes the first name
of a slot that is there, even if there is none in it, a bound may be any text, and a distance reads its
outputs again, even if there are several.  `OpNode.Wirable` says when that is harmless.
-/

namespace ModelExport

open Emit List Rules

variable {b outputs : Value} {ns : List Node}

-- the size of an instance grows with the number of steps
set_option synthInstance.maxSize 1000000000

/-! ## Conditions -/

/-- The attributes that the rule of a type takes for bounds. -/
def boundAttrs (type : String) : List String :=
  if type = "relu6" ∨ type = "hard_swish" then ["threshold"]
  else if type = "brelu" then ["t_min", "t_max"]
  else []

/-- Does a distance of this order take an extreme of the differences? -/
def isExtremeOrder (p : Value) : Bool :=
  !p.same (.int 0) && (p.same (.float (1.0 / 0.0)) || p.same (.float (-(1.0 / 0.0))))

/-- **An operator whose rule reads what is there**: weights have names, bounds that are texts are names
of inputs, and an extreme is written under one name at most. -/
structure OpNode.Wirable (op : OpNode) : Prop where
  weights : op.type = "layer_norm" → ∀ s ∈ ["Scale", "Bias"], op.hasInput s = true → op.Filled s
  bounds : ∀ a ∈ boundAttrs op.type, ∀ t, op.attr a = .str t → .str t ∈ op.sources
  extremes : op.type = "dist" → isExtremeOrder (op.attr "p") = true → (op.slot "Out").given.length ≤ 1

/-! ## Values that nobody writes -/

/-- A value that is not a name still to be made. -/
def Draft.Unmade (d : Draft) (v : Value) : Prop := ∀ type k, d.count type ≤ k → v ≠ .str (numbered type k)

theorem Draft.Unmade.mono {d d' : Draft} {v : Value} (h : d.Unmade v)
    (hcounts : ∀ t, d.count t ≤ d'.count t) : d'.Unmade v :=
  fun type k hk => h type k ((hcounts type).trans hk)

/-- **A node reads `b`**, which none before it writes. -/
def MisreadIn (b : Value) (ns : List Node) : Prop :=
  ∃ before n after, ns = before ++ n :: after ∧ b ∈ n.inputs ∧ b ∉ before.flatMap Node.outputs

theorem MisreadIn.not_wiredFrom (h : MisreadIn b ns) {A : List Value} (hb : b ∉ A) : ¬ WiredFrom A ns := by
  obtain ⟨before, n, after, rfl, hread, hwritten⟩ := h
  intro hw
  rcases mem_append.1 ((wiredFrom_append.1 hw).2.1 hread) with hA | hout
  · exact hb hA
  · exact hwritten hout

theorem MisreadIn.append_right (h : MisreadIn b ns) (ms : List Node) : MisreadIn b (ns ++ ms) := by
  obtain ⟨before, n, after, rfl, hn⟩ := h
  exact ⟨before, n, after ++ ms, by simp, hn⟩

theorem MisreadIn.append_left {ms : List Node} (hns : b ∉ ns.flatMap Node.outputs) (h : MisreadIn b ms) :
    MisreadIn b (ns ++ ms) := by
  obtain ⟨before, n, after, rfl, hread, hwritten⟩ := h
  refine ⟨ns ++ before, n, after, by simp, hread, ?_⟩
  rw [flatMap_append, mem_append, not_or]
  exact ⟨hns, hwritten⟩

/-! ## Traits of runs -/

/-- **A trait of runs**: it holds of no nodes, and of nodes in a row if it holds of each of them. -/
structure Trait where
  holds : Draft → List Node → Prop
  nil : ∀ d, holds d []
  append : ∀ {d d' : Draft} {ns ms : List Node}, (∀ t, d.count t ≤ d'.count t) → holds d ns →
    holds d' ms → holds d (ns ++ ms)

namespace Trait

def any : Trait := ⟨fun _ _ => True, fun _ => trivial, fun _ _ _ => trivial⟩

/-- `b` is not written, unless it is a name still to be made. -/
def avoids (b : Value) : Trait where
  holds d ns := d.Unmade b → b ∉ ns.flatMap Node.outputs
  nil _ _ := not_mem_nil
  append hcounts hns hms hb := by
    rw [flatMap_append, mem_append, not_or]
    exact ⟨hns hb, hms (hb.mono hcounts)⟩

end Trait

/-- **A run that succeeds has a trait.** -/
class Bears (T : Trait) {α : Type} (x : Emit α) : Prop where
  ensures : Ensures x fun d ns _ => T.holds d ns

/-- **A run that succeeds reads `b`** before it is written, unless it is a name still to be made. -/
class Misreads (b : Value) {α : Type} (x : Emit α) : Prop where
  ensures : Ensures x fun d ns _ => d.Unmade b → MisreadIn b ns

namespace Bears

variable {α β : Type} {T : Trait} {b : Value}

theorem of_quiet {x : Emit α} (h : Quiet x) : Bears T x := ⟨.of_quiet h fun d _ => T.nil d⟩

instance ofSlip (e : Except Slip α) : Bears T (liftM e : Emit α) := of_quiet (.ofSlip e)

instance pure (a : α) : Bears T (Pure.pure a : Emit α) := of_quiet (.pure a)

instance opset : Bears T Emit.opset := of_quiet .opset

instance bind (x : Emit α) (f : α → Emit β) [hx : Bears T x] [hf : ∀ a, Bears T (f a)] :
    Bears T (x >>= f) :=
  ⟨hx.ensures.bind (fun _ => (hf _).ensures) fun hcounts hns hms => T.append hcounts hns hms⟩

instance ite (c : Prop) [Decidable c] (x y : Emit α) [hx : Bears T x] [hy : Bears T y] :
    Bears T (if c then x else y) :=
  ⟨.ite hx.ensures hy.ensures⟩

instance discard (x : Emit α) [Bears T x] : Bears T (Functor.discard x) := by
  rw [Emits.discard_eq]
  infer_instance

instance nodeTo (type : String) (inputs outputs : Value) (attrs : Attrs) :
    Bears .any (Emit.nodeTo type inputs outputs attrs) :=
  ⟨⟨fun hx => by
    obtain ⟨n, hns, -⟩ := nodeNamed_emission hx
    exact ⟨[n], hns, trivial⟩⟩⟩

/-- A node writes what it is given to write, and names that are made for it. -/
theorem nodeTo_avoids (type : String) (inputs : Value) (attrs : Attrs) (h : b ∉ outputs.given) :
    Bears (.avoids b) (Emit.nodeTo type inputs outputs attrs) :=
  ⟨⟨fun hx => by
    obtain ⟨n, hns, hn, -⟩ := nodeNamed_emission hx
    refine ⟨[n], hns, fun hb hmem => ?_⟩
    obtain ⟨m, own, -, hown, hperm⟩ := hn.writes
    rw [flatMap_singleton] at hmem
    rcases mem_append.1 (hperm.subset hmem) with hgiven | hmade
    · exact h hgiven
    · obtain ⟨s, hs, rfl⟩ := mem_map.1 hmade
      rcases mem_append.1 hs with hs | hs
      · rcases hown with rfl | rfl
        · cases hs
        · rw [mem_singleton.1 hs, hn.name_eq] at hb
          exact hb type _ le_rfl rfl
      · obtain ⟨k, rfl, hle, -⟩ := mem_numberedFrom.1 hs
        exact hb type k (by omega) rfl⟩⟩

instance nodeTo_nil (type : String) (inputs : Value) (attrs : Attrs) :
    Bears (.avoids b) (Emit.nodeTo type inputs (.list []) attrs) :=
  nodeTo_avoids type inputs attrs not_mem_nil

instance node (type : String) (inputs : Value) (attrs : Attrs) :
    Bears (.avoids b) (Emit.node type inputs attrs) :=
  nodeTo_nil type inputs attrs

instance node_any (type : String) (inputs : Value) (attrs : Attrs) :
    Bears .any (Emit.node type inputs attrs) :=
  nodeTo type inputs (.list []) attrs

instance constant (type : Int) (v : Value) : Bears (.avoids b) (Emit.constant type v) :=
  node "Constant" _ _

instance constant_any (type : Int) (v : Value) : Bears .any (Emit.constant type v) :=
  node_any "Constant" _ _

instance cut (input axes starts ends : Value) : Bears (.avoids b) (Emit.cut input axes starts ends) := by
  unfold Emit.cut cutTo; infer_instance

end Bears

namespace Misreads

variable {α β : Type} {b : Value}

instance refuse (r : Refusal) : Misreads b (Emit.refuse r : Emit α) := ⟨.of_failing fun h => nomatch h⟩

instance bind_first (x : Emit α) (f : α → Emit β) [hx : Misreads b x] [hf : ∀ a, Bears .any (f a)] :
    Misreads b (x >>= f) :=
  ⟨hx.ensures.bind (fun _ => (hf _).ensures) fun _ hns _ hb => (hns hb).append_right _⟩

instance bind_later (x : Emit α) (f : α → Emit β) [hx : Bears (.avoids b) x] [hf : ∀ a, Misreads b (f a)] :
    Misreads b (x >>= f) :=
  ⟨hx.ensures.bind (fun _ => (hf _).ensures) fun hcounts hns hms hb =>
    (hms (hb.mono hcounts)).append_left (hns hb)⟩

instance discard (x : Emit α) [Misreads b x] : Misreads b (Functor.discard x) := by
  rw [Emits.discard_eq]
  infer_instance

theorem known {e : Except Slip α} {f : α → Emit β} (h : ∀ a, e = .ok a → Misreads b (f a)) :
    Misreads b (liftM e >>= f) :=
  ⟨.known fun a ha => (h a ha).ensures⟩

theorem nodeTo_of {type : String} {inputs : Value} {attrs : Attrs}
    (h : ∀ {xs : List Value}, Node.inputList (givenInputs inputs) = .ok xs → b ∈ xs) :
    Misreads b (Emit.nodeTo type inputs outputs attrs) :=
  ⟨⟨fun hx => by
    obtain ⟨n, hns, hn, -⟩ := nodeNamed_emission hx
    exact ⟨[n], hns, fun _ => ⟨[], n, [], rfl, h hn.given, not_mem_nil⟩⟩⟩⟩

instance node_str (type s : String) (attrs : Attrs) : Misreads (.str s) (Emit.node type (.str s) attrs) :=
  nodeTo_of fun h => by
    rw [← Except.ok.inj h]
    exact mem_singleton_self _

theorem nodeTo_head {type : String} {vs : List Value} {attrs : Attrs} (hb : Node.endpoint b = b) :
    Misreads b (Emit.nodeTo type (.list (b :: vs)) outputs attrs) :=
  nodeTo_of fun h => by
    rw [← Except.ok.inj h, map_cons, hb]
    exact mem_cons_self

instance node_none (type : String) (vs : List Value) (attrs : Attrs) :
    Misreads .none (Emit.node type (.list (.none :: vs)) attrs) :=
  nodeTo_head rfl

end Misreads

/-! ## Weights -/

section Weights

variable (op : OpNode)

theorem wires_layerNorm [op.Filled "X"] (h : ∀ s ∈ ["Scale", "Bias"], op.hasInput s = true → op.Filled s) :
    Wires op.sources (layerNorm op) := by
  unfold layerNorm
  cases hscale : op.hasInput "Scale" <;> cases hbias : op.hasInput "Bias" <;> dsimp only
  · infer_instance
  · have := h "Bias" (by simp) hbias
    infer_instance
  · have := h "Scale" (by simp) hscale
    infer_instance
  · have := h "Scale" (by simp) hscale
    have := h "Bias" (by simp) hbias
    infer_instance

variable [op.Fed]

/-- A slot without a name gives nothing for its first. -/
theorem OpNode.inputAt_of_not_filled {slot : String} (h : ¬ op.Filled slot) :
    op.inputAt slot 0 = .ok .none := by
  unfold inputAt
  cases hget : Assoc.get? op.inputs slot with
  | none => rfl
  | some v =>
    obtain ⟨xs, rfl⟩ : ∃ xs, v = .strs xs := Fed.names _ (op.mem_inputs_of_get? hget)
    cases xs with
    | nil => rfl
    | cons x xs => exact absurd ⟨x, xs, by rw [input, hget]; rfl⟩ h

theorem misreads_layerNorm {slot : String} (hslot : slot ∈ ["Scale", "Bias"])
    (hthere : op.hasInput slot = true) (hempty : ¬ op.Filled slot) : Misreads .none (layerNorm op) := by
  have hread : ∀ (f : Value → Emit Value) [Misreads .none (f .none)],
      Misreads .none (liftM (op.inputAt slot 0) >>= f) := fun f hf => .known fun v hv => by
    rwa [← Except.ok.inj ((op.inputAt_of_not_filled hempty).symm.trans hv)]
  unfold layerNorm
  simp only [mem_cons, not_mem_nil, or_false] at hslot
  rcases hslot with rfl | rfl
  · cases op.hasInput "Bias" <;> simp only [hthere] <;> infer_instance
  · cases op.hasInput "Scale" <;> simp only [hthere] <;> infer_instance

end Weights

/-! ## Bounds -/

section Bounds

variable (op : OpNode)

instance [op.Filled "X"] [Bound op.sources (op.attr "threshold")] : Wires op.sources (relu6 op) := by
  unfold relu6; infer_instance

instance [op.Filled "X"] [Bound op.sources (op.attr "t_max")] [Bound op.sources (op.attr "t_min")] :
    Wires op.sources (boundedRelu op) := by
  unfold boundedRelu; infer_instance

instance [op.Fed] [Bound op.sources (op.attr "threshold")] : Wires op.sources (hardSwish op) := by
  unfold hardSwish; infer_instance

instance (b v : Value) : Bears (.avoids b) (boundInput v) := by unfold boundInput; infer_instance

instance (v : Value) : Bears .any (boundInput v) := by unfold boundInput; infer_instance

instance (t : String) : Misreads (.str t) (boundInput (.str t)) :=
  .node_str "Squeeze" t _

/-- Where a bound may be a text at all, it is read. -/
instance misreads_upper (input lower outputs : Value) (t : String) :
    Misreads (.str t) (bound input (.str t) lower outputs) := by
  unfold bound
  refine @Misreads.bind_later _ _ _ _ _ inferInstance fun version => ?_
  by_cases hversion : version < 11
  · simp only [Value.isStr, Bool.or_true, hversion, decide_true, Bool.and_self, if_true]
    infer_instance
  · simp only [hversion, decide_false, Bool.and_false, Bool.false_eq_true, if_false]
    infer_instance

instance misreads_lower (input upper outputs : Value) (t : String) :
    Misreads (.str t) (bound input upper (.str t) outputs) := by
  unfold bound
  refine @Misreads.bind_later _ _ _ _ _ inferInstance fun version => ?_
  by_cases hversion : version < 11
  · simp only [Value.isStr, Bool.true_or, hversion, decide_true, Bool.and_self, if_true]
    infer_instance
  · simp only [hversion, decide_false, Bool.and_false, Bool.false_eq_true, if_false]
    infer_instance

variable {op} {t : String}

theorem misreads_relu6 (h : op.attr "threshold" = .str t) : Misreads (.str t) (relu6 op) := by
  unfold relu6
  rw [h]
  infer_instance

theorem misreads_hardSwish (h : op.attr "threshold" = .str t) : Misreads (.str t) (hardSwish op) := by
  unfold hardSwish
  rw [h]
  infer_instance

theorem misreads_boundedRelu (h : op.attr "t_min" = .str t ∨ op.attr "t_max" = .str t) :
    Misreads (.str t) (boundedRelu op) := by
  unfold boundedRelu
  rcases h with h | h <;> rw [h] <;> infer_instance

end Bounds

/-! ## Extremes -/

section Extremes

variable (op : OpNode) [op.Plain]

/-- What is written under one name at most may be read again. -/
theorem wires_extremeDistance {A : List Value} (type s : String) [Known A (.str s)]
    (h : (op.slot "Out").given.length ≤ 1) : Wires A (extremeDistance type op (.str s)) := by
  unfold extremeDistance
  refine .known fun v hv => ?_
  obtain ⟨xs, rfl⟩ := OpNode.Plain.output op hv
  rw [op.slot_eq hv, Value.given_strs, length_map] at h
  match xs, h with
  | [], _ => exact inferInstanceAs (Wires A (Emit.nodeTo type (.str s) (.list []) _ >>= _))
  | [x], _ => infer_instance

theorem wires_distance [op.Fed] [op.Filled "X"] [op.Filled "Y"]
    (h : isExtremeOrder (op.attr "p") = true → (op.slot "Out").given.length ≤ 1) :
    Wires op.sources (distance op) := by
  unfold distance
  by_cases hp : isExtremeOrder (op.attr "p") = true
  · have hextreme : ∀ (A : List Value) (type s : String) [Known A (.str s)],
        Wires A (extremeDistance type op (.str s)) :=
      fun _ type s => wires_extremeDistance op type s (h hp)
    infer_instance
  · cases h0 : (op.attr "p").same (.int 0) with
    | true =>
      simp only [h0, if_true]
      infer_instance
    | false =>
      simp only [isExtremeOrder, h0, Bool.not_false, Bool.true_and, Bool.or_eq_true, not_or,
        Bool.not_eq_true] at hp
      simp only [h0, hp.1, hp.2, Bool.false_eq_true, if_false]
      infer_instance

/-- **Several names are read as one** when they are read again. -/
theorem misreads_extremeDistance (type : String) (differences : Value)
    (h : 1 < (op.slot "Out").given.length) :
    Misreads (op.slot "Out") (extremeDistance type op differences) := by
  unfold extremeDistance
  refine .known fun v hv => ?_
  obtain ⟨xs, rfl⟩ := OpNode.Plain.output op hv
  rw [op.slot_eq hv, Value.given_strs, length_map] at h
  rw [op.slot_eq hv]
  have hfirst : Ensures (nodeTo type differences (.strs xs) [("keepdims", .int 0)]) fun _ ns v =>
      v = .strs xs ∧ Value.strs xs ∉ ns.flatMap Node.outputs := ⟨fun hx => by
    obtain ⟨n, hns, hn, rfl⟩ := nodeNamed_emission hx
    match xs, h with
    | x :: y :: zs, _ =>
      have houtputs := hn.exactly x (y :: zs) rfl
      refine ⟨[n], hns, by rw [houtputs]; rfl, ?_⟩
      rw [flatMap_singleton, houtputs]
      simp [Value.strs]⟩
  have hsecond : Misreads (.strs xs) (do
      discard <| nodeTo "Unsqueeze" (.list [.strs xs]) (← op.output "Out") [("axes", .ints [0])]) := by
    have : ∀ o, Misreads (.strs xs) (nodeTo "Unsqueeze" (.list [.strs xs]) o [("axes", .ints [0])]) :=
      fun _ => .nodeTo_head rfl
    infer_instance
  refine ⟨hfirst.bind (R := fun _ d ms _ => d.Unmade (.strs xs) → MisreadIn (.strs xs) ms) ?_ ?_⟩
  · rintro d ns _ ⟨rfl, -⟩
    exact hsecond.ensures
  · exact fun hcounts hns hms hb => (hms (hb.mono hcounts)).append_left hns.2

theorem misreads_distance (hp : isExtremeOrder (op.attr "p") = true)
    (h : 1 < (op.slot "Out").given.length) : Misreads (op.slot "Out") (distance op) := by
  have hextreme := fun type differences => misreads_extremeDistance op type differences h
  simp only [isExtremeOrder, Bool.and_eq_true, Bool.not_eq_true', Bool.or_eq_true] at hp
  unfold distance
  by_cases hinf : (op.attr "p").same (.float (1.0 / 0.0)) = true
  · simp only [hp.1, hinf, Bool.false_eq_true, if_false, if_true]
    infer_instance
  · simp only [hp.1, hinf, hp.2.resolve_left hinf, Bool.false_eq_true, if_false, if_true]
    infer_instance

end Extremes

end ModelExport
