import ModelExport.Catalogue
import ModelExport.Proofs.Emission.Twin

/-!
# Proofs/Emission/Emits — computations by what they write

`Emits V x` says that a run of `x` that succeeds grows the draft by names among `V` at the same
version, and that what it adds is the same on drafts that rules cannot tell apart.  It is a class, so
that what a rule writes is read off its text: a step that writes nothing given (`Emits []`) may stand
anywhere, and steps that write share the names out in the order in which they come
(`Emits.bind_append`).  What a step reads from the slots of an operator is known once it succeeds, so
it is put in its place (`OpNode.slot`, `OpNode.slotAt`, `Value.mark`).
-/

namespace ModelExport

open Emit List

variable {v : Value} {s : String} {i : Int}

/-- **A run that succeeds writes names among `V`** and leaves the version alone. -/
class Grows (V : List Value) {α : Type} (x : Emit α) : Prop where
  growth : ∀ {d d' : Draft} {a : α}, d.Tidy → EStateM.run x d = .ok a d' → Growth V d d'
  version : ∀ {d d' : Draft} {a : α}, EStateM.run x d = .ok a d' → d'.opset = d.opset

/-- **A run that succeeds writes names among `V`** and makes no weights; it may change attributes. -/
class Alters (V : List Value) {α : Type} (x : Emit α) : Prop extends Grows V x where
  weights : ∀ {d d' : Draft} {a : α}, EStateM.run x d = .ok a d' → d'.weights = d.weights

/-- **A run that succeeds writes names among `V`**, and another one the same. -/
class Emits (V : List Value) {α : Type} (x : Emit α) : Prop extends Alters V x where
  again : Twin True x x

/-- **A request for outputs that gives names among `V`.** -/
class Names (V : List Value) (v : Value) : Prop where
  given : v.given.Subperm V

/-! ## Growing -/

namespace Grows

variable {α β : Type} {V W : List Value}

theorem mono {x : Emit α} (h : Grows V x) (hVW : V.Subperm W) : Grows W x :=
  ⟨fun hd hx => (h.growth hd hx).mono hVW, h.version⟩

theorem of_frame {x : Emit α} (h : ∀ {d d' : Draft} {a : α}, EStateM.run x d = .ok a d' →
    d' = { d with domains := d'.domains, notices := d'.notices, edits := d'.edits, kept := d'.kept,
                  expansions := d'.expansions }) : Grows V x where
  growth hd hx := .of_frame V hd (by rw [h hx])
  version hx := by rw [h hx]

/-- **Steps share the names out in the order in which they come.** -/
theorem bind_append (x : Emit α) (f : α → Emit β) [hx : Grows V x]
    [hf : ∀ a, Grows W (f a)] : Grows (V ++ W) (x >>= f) where
  growth hd h := by
    obtain ⟨a, d₁, h₁, h₂⟩ := bind_ok h
    have hgrowth := hx.growth hd h₁
    exact hgrowth.trans ((hf a).growth hgrowth.tidy h₂)
  version h := by
    obtain ⟨a, d₁, h₁, h₂⟩ := bind_ok h
    exact ((hf a).version h₂).trans (hx.version h₁)

instance bind (x : Emit α) (f : α → Emit β) [Grows [] x] [∀ a, Grows V (f a)] : Grows V (x >>= f) :=
  bind_append (V := []) (W := V) x f

/-- A quiet first step, with the rest to be shown. -/
theorem step {x : Emit α} {f : α → Emit β} [Grows [] x] (h : ∀ a, Grows V (f a)) :
    Grows V (x >>= f) :=
  bind x f

/-- A first step that writes its share, with the rest to be shown. -/
theorem share {x : Emit α} {f : α → Emit β} [Grows V x] (h : ∀ a, Grows W (f a)) :
    Grows (V ++ W) (x >>= f) :=
  bind_append x f

/-- What a step computes is known to the rest. -/
theorem known {e : Except Slip α} {f : α → Emit β} (h : ∀ a, e = .ok a → Grows V (f a)) :
    Grows V (liftM e >>= f) where
  growth hd hx := by
    obtain ⟨a, ha, h₂⟩ := computed_ok hx
    exact (h a ha).growth hd h₂
  version hx := by
    obtain ⟨a, ha, h₂⟩ := computed_ok hx
    exact (h a ha).version h₂

theorem of_append_nil {x : Emit α} (h : Grows (V ++ []) x) : Grows V x := by
  rwa [append_nil] at h

instance ite (c : Prop) [Decidable c] (x y : Emit α) [Grows V x] [Grows V y] :
    Grows V (if c then x else y) := by
  split <;> infer_instance

end Grows

/-! ## Altering -/

namespace Alters

variable {α β : Type} {V W : List Value}

theorem mono {x : Emit α} (h : Alters V x) (hVW : V.Subperm W) : Alters W x :=
  { h.toGrows.mono hVW with weights := h.weights }

instance editAttr (name : String) (v : Value) : Alters V (Emit.editAttr name v) where
  toGrows := .of_frame fun h => by rw [modify_ok h]
  weights h := by rw [modify_ok h]

theorem bind_append (x : Emit α) (f : α → Emit β) [hx : Alters V x] [hf : ∀ a, Alters W (f a)] :
    Alters (V ++ W) (x >>= f) where
  toGrows := Grows.bind_append x f
  weights h := by
    obtain ⟨a, d₁, h₁, h₂⟩ := bind_ok h
    exact ((hf a).weights h₂).trans (hx.weights h₁)

instance bind (x : Emit α) (f : α → Emit β) [Alters [] x] [∀ a, Alters V (f a)] : Alters V (x >>= f) :=
  bind_append (V := []) (W := V) x f

theorem step {x : Emit α} {f : α → Emit β} [Alters [] x] (h : ∀ a, Alters V (f a)) :
    Alters V (x >>= f) :=
  bind x f

theorem known {e : Except Slip α} {f : α → Emit β} (h : ∀ a, e = .ok a → Alters V (f a)) :
    Alters V (liftM e >>= f) where
  toGrows := .known fun a ha => (h a ha).toGrows
  weights hx := by
    obtain ⟨a, ha, h₂⟩ := computed_ok hx
    exact (h a ha).weights h₂

instance ite (c : Prop) [Decidable c] (x y : Emit α) [Alters V x] [Alters V y] :
    Alters V (if c then x else y) := by
  split <;> infer_instance

end Alters

namespace Emits

variable {α β γ : Type} {V W : List Value}

theorem mono {x : Emit α} (h : Emits V x) (hVW : V.Subperm W) : Emits W x :=
  { h.toAlters.mono hVW with again := h.again }

/-! ## Steps -/

theorem of_silent {x : Emit α} (h : Silent x) : Emits V x where
  growth hd hx := by
    obtain ⟨-, ⟨_, rfl⟩, -⟩ := h.frame rfl hx hx
    exact .of_frame V hd rfl
  version hx := by
    obtain ⟨-, ⟨_, rfl⟩, -⟩ := h.frame rfl hx hx
    rfl
  weights hx := by
    obtain ⟨-, ⟨_, rfl⟩, -⟩ := h.frame rfl hx hx
    rfl
  again := .of_silent h

instance pure (a : α) : Emits V (Pure.pure a : Emit α) := of_silent (.pure a)

instance ofSlip (v : Except Slip α) : Emits V (liftM v : Emit α) :=
  of_silent ⟨fun _ hx hy => by
    obtain ⟨ha, rfl⟩ := slip_ok hx
    obtain ⟨hb, rfl⟩ := slip_ok hy
    exact ⟨Except.ok.inj (ha.symm.trans hb), ⟨_, rfl⟩, _, rfl⟩⟩

instance ofFault (v : Except Fault α) : Emits V (liftM v : Emit α) :=
  of_silent ⟨fun _ hx hy => by
    obtain ⟨ha, rfl⟩ := fault_ok hx
    obtain ⟨hb, rfl⟩ := fault_ok hy
    exact ⟨Except.ok.inj (ha.symm.trans hb), ⟨_, rfl⟩, _, rfl⟩⟩

instance fail (f : Fault) : Emits V (throw f : Emit α) := of_silent ⟨fun _ h _ => nomatch h⟩

instance refuse (r : Refusal) : Emits V (Emit.refuse r : Emit α) := fail _

instance slip (s : Slip) : Emits V (Emit.slip s : Emit α) := fail _

instance notify (n : Notice) : Emits V (Emit.notify n) :=
  of_silent ⟨fun _ hx hy => ⟨rfl, ⟨_, modify_ok hx⟩, _, modify_ok hy⟩⟩

instance opset : Emits V Emit.opset :=
  of_silent ⟨fun hopset hx hy => by
    cases hx
    cases hy
    exact ⟨hopset, ⟨_, rfl⟩, _, rfl⟩⟩

/-! ## Sequences -/

/-- **Steps share the names out in the order in which they come.** -/
instance (priority := low) bind_append (x : Emit α) (f : α → Emit β) [hx : Emits V x]
    [hf : ∀ a, Emits W (f a)] : Emits (V ++ W) (x >>= f) :=
  { Alters.bind_append x f with again := hx.again.step fun a => (hf a).again }

instance bind (x : Emit α) (f : α → Emit β) [Emits [] x] [∀ a, Emits V (f a)] : Emits V (x >>= f) :=
  bind_append (V := []) (W := V) x f

theorem step {x : Emit α} {f : α → Emit β} [Emits [] x] (h : ∀ a, Emits V (f a)) :
    Emits V (x >>= f) :=
  bind x f

theorem share {x : Emit α} {f : α → Emit β} [Emits V x] (h : ∀ a, Emits W (f a)) :
    Emits (V ++ W) (x >>= f) :=
  bind_append x f

theorem known {e : Except Slip α} {f : α → Emit β} (h : ∀ a, e = .ok a → Emits V (f a)) :
    Emits V (liftM e >>= f) :=
  { Alters.known fun a ha => (h a ha).toAlters with again := .known fun a ha => (h a ha).again }

theorem of_failing {x : Emit α} (h : ∀ {d d' : Draft} {a : α}, EStateM.run x d ≠ .ok a d') :
    Emits V x where
  growth _ hx := absurd hx h
  version hx := absurd hx h
  weights hx := absurd hx h
  again := .of_failing h

/-- What fails in the end writes nothing. -/
instance (priority := high) bind_slip (x : Emit α) (s : Slip) :
    Emits V (x >>= fun _ => (Emit.slip s : Emit β)) :=
  of_failing fun h => by
    obtain ⟨a, d₁, -, h₁⟩ := bind_ok h
    cases h₁

theorem of_append_nil {x : Emit α} (h : Emits (V ++ []) x) : Emits V x := by
  rwa [append_nil] at h

theorem bind_quiet (x : Emit α) (f : α → Emit β) [Emits V x] [∀ a, Emits [] (f a)] :
    Emits V (x >>= f) :=
  of_append_nil (bind_append x f)

instance ite (c : Prop) [Decidable c] (x y : Emit α) [Emits V x] [Emits V y] :
    Emits V (if c then x else y) := by
  split <;> infer_instance

theorem discard_eq (x : Emit α) : discard x = x >>= fun _ => Pure.pure () := by
  rw [discard, LawfulFunctor.map_const, bind_pure_comp]
  rfl

instance discard (x : Emit α) [Emits V x] : Emits V (Functor.discard x) := by
  rw [discard_eq]
  exact bind_quiet x _

/-! ## Nodes -/

instance nodeNamed (type : String) (inputs outputs : Value) (attrs : Attrs) (domain : Value)
    [h : Names V outputs] : Emits V (Emit.nodeNamed type inputs outputs attrs none domain) where
  growth hd hx := by
    obtain ⟨n, hn, -⟩ := nodeNamed_ok hx
    exact (hn.growth hd).mono h.given
  version hx := by
    obtain ⟨n, hn, -⟩ := nodeNamed_ok hx
    exact hn.opset
  weights hx := by
    obtain ⟨n, hn, -⟩ := nodeNamed_ok hx
    exact hn.weights
  again := twin_nodeNamed (Or.inr trivial) (fun _ => rfl) fun _ _ => trivial

instance nodeTo (type : String) (inputs outputs : Value) (attrs : Attrs) [Names V outputs] :
    Emits V (Emit.nodeTo type inputs outputs attrs) :=
  inferInstanceAs (Emits V (Emit.nodeNamed type inputs outputs attrs none .none))

end Emits

/-! ## Requests -/

namespace Names

variable {V W : List Value}

instance nil : Names V (.list []) := ⟨nil_subperm⟩

instance int (n : Int) : Names V (.int n) := ⟨nil_subperm⟩

instance given_self (v : Value) : Names v.given v := ⟨.refl _⟩

end Names

namespace Emits

variable {α β : Type} {V : List Value}

instance node (type : String) (inputs : Value) (attrs : Attrs) :
    Emits V (Emit.node type inputs attrs) :=
  inferInstanceAs (Emits V (Emit.nodeTo type inputs (.list []) attrs))

instance constant (type : Int) (v : Value) : Emits V (Emit.constant type v) :=
  inferInstanceAs (Emits V (Emit.node _ _ _))

instance constantShaped (type : Int) (dims v : Value) : Emits V (Emit.constantShaped type dims v) :=
  inferInstanceAs (Emits V (Emit.node _ _ _))

end Emits

/-! ## Slots of an operator -/

@[simp] theorem Value.given_strs (xs : List String) : (Value.strs xs).given = xs.map Value.str := by
  rw [Value.strs, Value.given, filterMap_map]
  exact congrFun (filterMap_eq_map (f := Value.str)) xs

/-- Slots that hold lists of names give texts only. -/
theorem text_of_mem_slots {slots : List (String × Value)} (h : ∀ s ∈ slots, ∃ xs, s.2 = .strs xs)
    (hv : v ∈ slots.flatMap fun s => s.2.given) : ∃ s, v = .str s := by
  obtain ⟨e, he, hv⟩ := mem_flatMap.1 hv
  obtain ⟨xs, hxs⟩ := h e he
  rw [hxs, Value.given_strs] at hv
  obtain ⟨s, -, rfl⟩ := mem_map.1 hv
  exact ⟨s, rfl⟩

namespace OpNode

/-- What is in an output slot; a number, which gives no name, when nothing is. -/
def slot (op : OpNode) (s : String) : Value := (op.output s).toOption.getD (.int 0)

/-- The `i`-th name in an output slot; a number when there is none. -/
def slotAt (op : OpNode) (s : String) (i : Int) : Value :=
  (op.outputAt s i).toOption.getD (.int 0)

/-- **All names that an operator reads.** -/
def reads (op : OpNode) : List Value := op.inputs.flatMap fun s => s.2.given

/-- **All names that an operator writes.** -/
def written (op : OpNode) : List Value := op.outputs.flatMap fun s => s.2.given

/-- An operator whose output slots hold lists of names. -/
class Plain (op : OpNode) : Prop where
  names : ∀ s ∈ op.outputs, ∃ xs, s.2 = .strs xs

variable (op : OpNode)

theorem slot_eq (h : op.output s = .ok v) : op.slot s = v := by
  rw [slot, h]
  rfl

theorem slotAt_eq (h : op.outputAt s i = .ok v) : op.slotAt s i = v := by
  rw [slotAt, h]
  rfl

theorem given_slot_cons (s t : String) (v : Value) (rest : List (String × Value))
    (h : op.outputs = (t, v) :: rest) :
    (op.slot s).given = if s = t then v.given else ({ op with outputs := rest }.slot s).given := by
  unfold slot output
  rw [h]
  by_cases hst : s = t
  · simp [Assoc.get?, hst, Except.toOption]
  · have : ¬ t = s := fun e => hst e.symm
    simp [Assoc.get?, hst, this]

/-- **Different slots hold different parts of what an operator writes.** -/
theorem slots_subperm_written {ss : List String} (hss : ss.Nodup) :
    (ss.flatMap fun s => (op.slot s).given).Subperm op.written := by
  obtain ⟨rest, hrest⟩ : ∃ rest, rest = op.outputs := ⟨_, rfl⟩
  induction rest generalizing op ss with
  | nil =>
    have hnone : ∀ s, (op.slot s).given = [] := fun s => by
      rw [slot, output, ← hrest]
      rfl
    rw [flatMap_eq_nil_iff.2 fun s _ => hnone s]
    exact nil_subperm
  | cons e rest ih =>
    have hcons := fun s => op.given_slot_cons s e.1 e.2 rest hrest.symm
    have hwritten : op.written = e.2.given ++ OpNode.written { op with outputs := rest } := by
      rw [written, ← hrest]
      rfl
    by_cases hmem : e.1 ∈ ss
    · have hperm := perm_cons_erase hmem
      have hout : ∀ s ∈ ss.erase e.1,
          (op.slot s).given = ({ op with outputs := rest }.slot s).given := fun s hs => by
        rw [hcons, if_neg fun h : s = e.1 => hss.not_mem_erase (h ▸ hs)]
      refine (hperm.flatMap_right _).subperm.trans ?_
      rw [flatMap_cons, hcons, if_pos rfl, hwritten, flatMap_congr hout]
      exact (List.Subperm.refl _).append (ih _ (hss.erase _) rfl)
    · have hout : ∀ s ∈ ss, (op.slot s).given = ({ op with outputs := rest }.slot s).given :=
        fun s hs => by rw [hcons, if_neg fun h : s = e.1 => hmem (h ▸ hs)]
      rw [flatMap_congr hout, hwritten]
      exact (ih _ hss rfl).trans (sublist_append_right _ _).subperm

end OpNode

/-- A request for one output: a name, or a number. -/
class Value.Sole (v : Value) : Prop where
  cases : (∃ s, v = .str s) ∨ v = .int 0

/-- A name with a mark at its end. -/
def Value.mark : Value → String → Value
  | .str s, m => .str (s ++ m)
  | _, _ => .int 0

section Slots

variable (op : OpNode) [hop : op.Plain]

theorem OpNode.Plain.output (h : op.output s = .ok v) : ∃ xs, v = .strs xs := by
  unfold OpNode.output at h
  split at h
  · rename_i w hw
    obtain ⟨e, he, rfl⟩ := Option.map_eq_some_iff.1 hw
    obtain rfl := Except.ok.inj h
    exact hop.names e (mem_of_find?_eq_some he)
  · cases h

theorem mem_of_memberAt {α : Type} {xs : List α} {x : α} (h : memberAt xs i = .ok x) : x ∈ xs := by
  unfold memberAt at h
  split at h
  · split at h
    · rename_i hget
      rw [← Except.ok.inj h]
      exact mem_of_getElem? hget
    · cases h
  · cases h

theorem memberAt_cons_zero {α : Type} (x : α) (xs : List α) : memberAt (x :: xs) 0 = .ok x := by
  have hplace : place? (x :: xs).length 0 = some 0 := if_pos ⟨Int.le_refl 0, Int.succ_ofNat_pos _⟩
  rw [memberAt, hplace]
  rfl

theorem OpNode.Plain.outputAt (h : op.outputAt s i = .ok v) : ∃ x, v = .str x ∧ .str x ∈ (op.slot s).given := by
  obtain ⟨w, hslot, hnth⟩ := except_bind_ok h
  obtain ⟨xs, rfl⟩ := OpNode.Plain.output op hslot
  have hmem : v ∈ xs.map Value.str := mem_of_memberAt hnth
  obtain ⟨x, hx, rfl⟩ := mem_map.1 hmem
  exact ⟨x, rfl, by rw [op.slot_eq hslot, Value.given_strs]; exact hmem⟩

theorem OpNode.Plain.slotAt (s : String) (i : Int) :
    op.slotAt s i = .int 0 ∨ ∃ x, op.slotAt s i = .str x ∧ .str x ∈ (op.slot s).given := by
  cases h : op.outputAt s i with
  | error f => exact Or.inl (by rw [OpNode.slotAt, h]; rfl)
  | ok v =>
    rw [op.slotAt_eq h]
    exact Or.inr (OpNode.Plain.outputAt op h)

instance (s : String) (i : Int) : (op.slotAt s i).Sole :=
  ⟨(OpNode.Plain.slotAt op s i).symm.imp_left fun ⟨x, hx, _⟩ => ⟨x, hx⟩⟩

theorem OpNode.Plain.given_slotAt (s : String) (i : Int) :
    (op.slotAt s i).given.Subperm (op.slot s).given := by
  rcases OpNode.Plain.slotAt op s i with h | ⟨x, h, hx⟩
  · rw [h]
    exact nil_subperm
  · rw [h]
    exact singleton_subperm_iff.2 hx

end Slots

namespace Value.Sole

theorem given_list (v : Value) [h : v.Sole] (vs : List Value) :
    (Value.list (v :: vs)).given = v.given ++ (Value.list vs).given := by
  rcases h.cases with ⟨s, rfl⟩ | rfl <;> rfl

instance (v : Value) (m : String) : Sole (v.mark m) :=
  ⟨by cases v <;> first | exact Or.inl ⟨_, rfl⟩ | exact Or.inr rfl⟩

end Value.Sole

namespace Names

variable {V : List Value} (op : OpNode) [op.Plain]

instance cons (v : Value) (vs : List Value) [v.Sole] [h : Names V (.list vs)] :
    Names (v.given ++ V) (.list (v :: vs)) :=
  ⟨by rw [Value.Sole.given_list]; exact (List.Subperm.refl _).append h.given⟩

instance single (v : Value) [v.Sole] : Names v.given (.list [v]) := ⟨by
  rw [Value.Sole.given_list, Value.given, filterMap_nil, append_nil]⟩

instance slot (s : String) : Names op.written (op.slot s) :=
  ⟨by simpa using op.slots_subperm_written (nodup_singleton s)⟩

instance slotAt (s : String) (i : Int) : Names op.written (op.slotAt s i) :=
  ⟨(OpNode.Plain.given_slotAt op s i).trans (slot op s).given⟩

instance slotAt_single (s : String) (i : Int) : Names op.written (.list [op.slotAt s i]) :=
  ⟨(single (op.slotAt s i)).given.trans (slotAt op s i).given⟩

end Names

namespace Emits

variable {β : Type} {V : List Value} (op : OpNode)

/-- What a step reads from a slot is put in its place. -/
instance (priority := high) slot (s : String) (f : Value → Emit β) [h : Emits V (f (op.slot s))] :
    Emits V (liftM (op.output s) >>= f) :=
  known fun _ hv => op.slot_eq hv ▸ h

instance (priority := high) slotAt (s : String) (i : Int) (f : Value → Emit β)
    [h : Emits V (f (op.slotAt s i))] : Emits V (liftM (op.outputAt s i) >>= f) :=
  known fun _ hv => op.slotAt_eq hv ▸ h

instance (priority := high) alters_slot (s : String) (f : Value → Emit β)
    [h : Alters V (f (op.slot s))] : Alters V (liftM (op.output s) >>= f) :=
  .known fun _ hv => op.slot_eq hv ▸ h

instance (priority := high) marked (v : Value) (m : String) (f : Value → Emit β) [hv : v.Sole]
    [h : Emits V (f (v.mark m))] : Emits V (liftM (Rules.marked v m) >>= f) :=
  known fun w hw => by
    rcases hv.cases with ⟨s, rfl⟩ | rfl
    · rw [← Except.ok.inj hw]
      exact h
    · cases hw

end Emits

end ModelExport
