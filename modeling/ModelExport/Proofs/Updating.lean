import ModelExport.Workbench.Nodes
import Mathlib.Data.List.Nodup

/-!
# Proofs/Updating — changes of a node that fail

    plain     type ⟶ inputs ⟶ outputs ⟶ attributes, domain ⟶ place        written one after another
    model     attributes ⟶ record                                           a new node takes the place

A change that fails takes nothing back.  In a plain graph the fields in front of the failing one have been written; in
a model graph attributes that are given beside the table have been merged into it.  All other nodes stay, and so do
the keys and their order (`failed_update_leaves`).
-/

namespace ModelExport

open List
open EStateM (run)

/-! ## Tables by their keys -/

namespace Assoc

variable {α : Type} {t : List (String × α)}

/-- **A table is known** by its keys and what is found under them. -/
theorem eq_of_get? {u : List (String × α)} (hkeys : keys u = keys t) (ht : (keys t).Nodup)
    (h : ∀ k, get? u k = get? t k) : u = t := by
  induction t generalizing u with
  | nil => exact map_eq_nil_iff.1 hkeys
  | cons e t ih =>
    obtain ⟨e', u, rfl, hfirst, hrest⟩ := map_eq_cons_iff.1 hkeys
    obtain ⟨hnot, ht⟩ := nodup_cons.1 ht
    simp only [get?_cons, hfirst] at h
    have hvalue : e'.2 = e.2 := by simpa using h e.1
    rw [ih hrest ht fun k => ?_, Prod.ext hfirst hvalue]
    by_cases hk : e.1 = k
    · have hnot' : e.1 ∉ keys u := by rwa [keys, hrest]
      rw [← hk, get?_eq_none_of_notMem hnot, get?_eq_none_of_notMem hnot']
    · simpa [hk] using h k

/-- **Keys that are there are written in place.** -/
theorem foldl_insert {ks : List String} (hks : ∀ k ∈ ks, k ∈ keys t) (a : α) :
    keys (ks.foldl (fun t k => insert t k a) t) = keys t ∧
      ∀ k, get? (ks.foldl (fun t k => insert t k a) t) k = if k ∈ ks then some a else get? t k := by
  induction ks generalizing t with
  | nil => exact ⟨rfl, fun _ => (if_neg not_mem_nil).symm⟩
  | cons k ks ih =>
    obtain ⟨hk, hrest⟩ := forall_mem_cons.1 hks
    have hkeys : keys (insert t k a) = keys t := by rw [keys_insert, if_pos ((contains_iff_mem_keys t k).2 hk)]
    obtain ⟨hsame, hget⟩ := ih (t := insert t k a) (by rwa [hkeys])
    refine ⟨hsame.trans hkeys, fun l => ?_⟩
    rw [foldl_cons, hget, get?_insert]
    by_cases hl : l = k <;> simp [hl]

end Assoc

/-! ## A node and the entries that are it -/

namespace Workbench

/-- The entries of the graph that are one node with an entry. -/
def peers (w : Workbench) (key : String) : List String :=
  match Assoc.get? w.links key with
  | some name => w.entriesOf name
  | none => [key]

/-- **A node stands in the graph** under a key, and under all others that are one node with it. -/
structure Holds (w : Workbench) (key : String) (n : Node) : Prop where
  distinct : (Assoc.keys w.draft.nodes).Nodup
  everywhere : ∀ k ∈ w.peers key, Assoc.get? w.draft.nodes k = some n

/-- **A graph in which a node was written**, wherever it stands. -/
structure Writes (w : Workbench) (key : String) (m : Node) (w' : Workbench) : Prop where
  keys : Assoc.keys w'.draft.nodes = Assoc.keys w.draft.nodes
  found : ∀ k, Assoc.get? w'.draft.nodes k = if k ∈ w.peers key then some m else Assoc.get? w.draft.nodes k
  links : w'.links = w.links

variable {w w' : Workbench} {key : String} {n m : Node}

theorem mem_peers_self (w : Workbench) (key : String) : key ∈ w.peers key := by
  unfold peers
  split
  · rename_i name hname
    rw [Assoc.get?, Option.map_eq_some_iff] at hname
    obtain ⟨l, hl, rfl⟩ := hname
    have hkey : l.1 = key := by simpa using find?_some hl
    exact mem_map.2 ⟨l, mem_filter.2 ⟨mem_of_find?_eq_some hl, beq_self_eq_true _⟩, hkey⟩
  · exact mem_singleton_self key

theorem peers_congr (h : w'.links = w.links) (key : String) : w'.peers key = w.peers key := by
  unfold peers entriesOf
  rw [h]

theorem Holds.get? (h : w.Holds key n) : Assoc.get? w.draft.nodes key = some n :=
  h.everywhere key (w.mem_peers_self key)

theorem Holds.mem_keys (h : w.Holds key n) : ∀ k ∈ w.peers key, k ∈ Assoc.keys w.draft.nodes := by
  intro k hk
  by_contra hno
  have hfound := h.everywhere k hk
  rw [Assoc.get?_eq_none_of_notMem hno] at hfound
  cases hfound

theorem foldl_setEntry (ks : List String) (n : Node) (w : Workbench) :
    ks.foldl (fun w key => w.setEntry key n) w = { w with
      draft := { w.draft with nodes := ks.foldl (fun t k => Assoc.insert t k n) w.draft.nodes } } := by
  induction ks generalizing w with
  | nil => rfl
  | cons k ks ih => exact ih (w.setEntry k n)

/-- A node is written wherever it stands. -/
theorem writes_setPlaced (hkeys : ∀ k ∈ w.peers key, k ∈ Assoc.keys w.draft.nodes) (m : Node) :
    w.Writes key m (w.setPlaced key m) := by
  obtain ⟨hsame, hfound⟩ := Assoc.foldl_insert hkeys m
  unfold setPlaced
  split
  · rename_i name hname
    have hpeers : w.peers key = w.entriesOf name := by rw [peers, hname]
    rw [setFree, foldl_setEntry]
    rw [hpeers] at hsame hfound
    exact ⟨hsame, hpeers ▸ hfound, rfl⟩
  · rename_i hname
    have hpeers : w.peers key = [key] := by rw [peers, hname]
    rw [hpeers] at hsame hfound
    exact ⟨hsame, hpeers ▸ hfound, rfl⟩

namespace Writes

theorem refl (h : w.Holds key n) : w.Writes key n w := by
  refine ⟨rfl, fun k => ?_, rfl⟩
  split
  · exact h.everywhere k ‹_›
  · rfl

/-- **A node that is written twice** has been written once. -/
theorem setPlaced (hw : w.Holds key n) (h : w.Writes key m w') (m' : Node) :
    w.Writes key m' (w'.setPlaced key m') := by
  have hpeers := peers_congr h.links key
  have hthere : ∀ k ∈ w'.peers key, k ∈ Assoc.keys w'.draft.nodes := by
    rw [hpeers, h.keys]
    exact hw.mem_keys
  obtain ⟨hkeys, hfound, hlinks⟩ := writes_setPlaced hthere m'
  refine ⟨hkeys.trans h.keys, fun k => ?_, hlinks.trans h.links⟩
  rw [hfound, hpeers, h.found]
  split <;> rfl

theorem nodes_eq_iff (hw : w.Holds key n) (h : w.Writes key m w') : w'.draft.nodes = w.draft.nodes ↔ m = n := by
  refine ⟨fun hsame => ?_, fun hsame => Assoc.eq_of_get? h.keys hw.distinct fun k => ?_⟩
  · have hfound := h.found key
    rw [if_pos (w.mem_peers_self key), hsame, hw.get?] at hfound
    exact (Option.some.inj hfound).symm
  · rw [hsame] at h
    exact (h.found k).trans ((refl hw).found k).symm

end Writes

end Workbench

/-! ## What a request comes to -/

namespace NodeRequest

/-- The type that a request leaves a node with. -/
def typeFor (r : NodeRequest) (n : Node) : String := r.type.getD n.type

/-- The inputs that a request leaves a node with, where they can be such. -/
def inputsFor (r : NodeRequest) (n : Node) : Except Fault (List Value) :=
  if r.inputs.isNone then .ok n.inputs else Node.inputList r.inputs

def outputsFor (r : NodeRequest) (n : Node) : Except Fault (List Value) :=
  match r.outputs with
  | none | some .none => .ok n.outputs
  | some v => Node.outputList v

def domainFor (r : NodeRequest) (n : Node) : Value := if r.domain.isNone then n.domain else r.domain

/-- The model node that a request asks for, with given attributes. -/
def recordFor (r : NodeRequest) (n : Node) (attrs : Attrs) : Except Fault Node :=
  Node.recorded (r.typeFor n) n.name (if r.inputs.isNone then .list n.inputs else r.inputs)
    (match r.outputs with
      | none | some .none => .list n.outputs
      | some v => v) attrs n.domain

/-- **Where a change halts**, with which fault, and what it leaves of the node. -/
inductive Halts (r : NodeRequest) (n : Node) (keys : List String) : GraphKind → Fault → Node → Prop
  | inputs {f : Fault} : r.inputsFor n = .error f → Halts r n keys .plain f { n with type := r.typeFor n }
  | outputs {f : Fault} {ins : List Value} : r.inputsFor n = .ok ins → r.outputsFor n = .error f →
      Halts r n keys .plain f { n with type := r.typeFor n, inputs := ins }
  | attrs {s : Slip} {ins outs : List Value} : r.inputsFor n = .ok ins → r.outputsFor n = .ok outs →
      requestedAttrs r.attrs r.further = .error s →
      Halts r n keys .plain (.slip s) { n with type := r.typeFor n, inputs := ins, outputs := outs }
  | place {ins outs : List Value} {attrs : Attrs} : r.inputsFor n = .ok ins → r.outputsFor n = .ok outs →
      requestedAttrs r.attrs r.further = .ok attrs → r.toEnd.truthy = true → n.name ∉ keys →
      Halts r n keys .plain (.slip .missingKey)
        { n with type := r.typeFor n, inputs := ins, outputs := outs, attrs := attrs, domain := r.domainFor n }
  | table {s : Slip} : r.attrs.isNone = false → requestedAttrs r.attrs r.further = .error s →
      Halts r n keys .model (.slip s) n
  | record {f : Fault} {attrs : Attrs} : r.attrs.isNone = false → requestedAttrs r.attrs r.further = .ok attrs →
      r.recordFor n attrs = .error f → Halts r n keys .model f n
  | merged {f : Fault} : r.attrs.isNone = true → r.recordFor n (Assoc.insertAll n.attrs r.further) = .error f →
      Halts r n keys .model f { n with attrs := Assoc.insertAll n.attrs r.further }

end NodeRequest

/-! ## Changes step by step -/

namespace Bench

variable {α β : Type} {w w' : Workbench} {key : String} {n m : Node} {r : NodeRequest} {f : Fault}

/-- Work that fails fails in its first step or after it. -/
theorem bind_error {x : Bench α} {g : α → Bench β} (h : run (x >>= g) w = .error f w') :
    run x w = .error f w' ∨ ∃ a w₁, run x w = .ok a w₁ ∧ run (g a) w₁ = .error f w' := by
  rw [EStateM.run_bind] at h
  split at h
  · rename_i a w₁ hx
    exact Or.inr ⟨a, w₁, hx, h⟩
  · rename_i e w₁ hx
    obtain ⟨rfl, rfl⟩ := EStateM.Result.error.inj h
    exact Or.inl hx

theorem granted_error {e : Except Fault α} {g : α → Bench β} (h : run (liftM e >>= g) w = .error f w') :
    e = .error f ∧ w' = w ∨ ∃ a, e = .ok a ∧ run (g a) w = .error f w' := by
  cases e with
  | error e =>
    obtain ⟨rfl, rfl⟩ := EStateM.Result.error.inj h
    exact Or.inl ⟨rfl, rfl⟩
  | ok a => exact Or.inr ⟨a, rfl, h⟩

theorem computed_error {e : Except Slip α} {g : α → Bench β} (h : run (liftM e >>= g) w = .error f w') :
    (∃ s, e = .error s ∧ f = .slip s ∧ w' = w) ∨ ∃ a, e = .ok a ∧ run (g a) w = .error f w' := by
  cases e with
  | error s =>
    obtain ⟨rfl, rfl⟩ := EStateM.Result.error.inj h
    exact Or.inl ⟨s, rfl, rfl, rfl⟩
  | ok a => exact Or.inr ⟨a, rfl, h⟩

theorem run_target (h : w.Holds key n) (g : Bool × Node → Bench β) :
    run (target key >>= g) w = run (g (true, n)) w := by
  have htarget : run (target key) w = .ok (true, n) w := by
    simp only [target, EStateM.run_bind, EStateM.run_get, h.get?]
    rfl
  rw [EStateM.run_bind, htarget]

theorem run_store (key : String) (n : Node) (g : Unit → Bench β) (w : Workbench) :
    run (store true key n >>= g) w = run (g ()) (w.setPlaced key n) := rfl

/-- **A change of a plain graph**, field by field. -/
theorem updatePlain_eq (key : String) (r : NodeRequest) : updatePlain key r = (do
    let (placed, n) ← target key
    store placed key { n with type := r.typeFor n }
    let ins ← r.inputsFor n
    store placed key { n with type := r.typeFor n, inputs := ins }
    let outs ← r.outputsFor n
    store placed key { n with type := r.typeFor n, inputs := ins, outputs := outs }
    let attrs ← requestedAttrs r.attrs r.further
    let new := { n with type := r.typeFor n, inputs := ins, outputs := outs, attrs := attrs, domain := r.domainFor n }
    store placed key new
    settle placed r.toEnd.truthy key new
    return new.view) := by
  unfold updatePlain
  congr 1
  funext ⟨placed, n⟩
  unfold NodeRequest.inputsFor NodeRequest.outputsFor NodeRequest.domainFor NodeRequest.typeFor
  have hok {α β : Type} (a : α) (g : α → Bench β) : (liftM (Except.ok a : Except Fault α) >>= g) = g a := rfl
  cases r.inputs.isNone <;> cases r.domain.isNone <;> rcases r.outputs with _ | _ | _ <;>
    simp only [bind_assoc, pure_bind, hok, if_true, Bool.false_eq_true, if_false]

/-- **A change of a model graph**: the attributes first, and then a new node. -/
theorem updateModel_eq (key : String) (r : NodeRequest) : updateModel key r = (do
    let (placed, n) ← target key
    let attrs ← if r.attrs.isNone then pure (Assoc.insertAll n.attrs r.further)
      else liftM (requestedAttrs r.attrs r.further)
    if r.attrs.isNone then store placed key { n with attrs := attrs }
    let new ← r.recordFor n attrs
    unless Node.isInterface new.type do modify fun w => w.replaceEntry new.name new
    return new.view) := rfl

theorem settle_error {toEnd : Bool} (h : run (settle true toEnd key n) w = .error f w') :
    toEnd = true ∧ n.name ∉ Assoc.keys w.draft.nodes ∧ f = .slip .missingKey ∧ w' = w := by
  rw [← Assoc.contains_iff_mem_keys]
  cases toEnd with
  | false => cases h
  | true =>
    change run (if !Assoc.contains w.draft.nodes n.name then _ else _) w = _ at h
    cases hkey : Assoc.contains w.draft.nodes n.name with
    | true =>
      rw [hkey] at h
      cases h
    | false =>
      rw [hkey] at h
      obtain ⟨rfl, rfl⟩ := EStateM.Result.error.inj h
      exact ⟨rfl, Bool.false_ne_true, rfl, rfl⟩

/-- **A change of a plain graph that fails** has written the fields in front of the failing one. -/
theorem halts_updatePlain (hw : w.Holds key n) (h : run (updatePlain key r) w = .error f w') :
    ∃ m, r.Halts n (Assoc.keys w.draft.nodes) .plain f m ∧ w.Writes key m w' := by
  rw [updatePlain_eq, run_target hw, run_store] at h
  have htype := (Workbench.Writes.refl hw).setPlaced hw { n with type := r.typeFor n }
  rcases granted_error h with ⟨hin, rfl⟩ | ⟨ins, hin, h⟩
  · exact ⟨_, .inputs hin, htype⟩
  rw [run_store] at h
  have hins := htype.setPlaced hw { n with type := r.typeFor n, inputs := ins }
  rcases granted_error h with ⟨hout, rfl⟩ | ⟨outs, hout, h⟩
  · exact ⟨_, .outputs hin hout, hins⟩
  rw [run_store] at h
  have houts := hins.setPlaced hw { n with type := r.typeFor n, inputs := ins, outputs := outs }
  rcases computed_error h with ⟨s, hattrs, rfl, rfl⟩ | ⟨attrs, hattrs, h⟩
  · exact ⟨_, .attrs hin hout hattrs, houts⟩
  rw [run_store] at h
  have hall := houts.setPlaced hw
    { n with type := r.typeFor n, inputs := ins, outputs := outs, attrs := attrs, domain := r.domainFor n }
  rcases bind_error h with h | ⟨_, w₁, _, h⟩
  · obtain ⟨hend, hno, rfl, rfl⟩ := settle_error h
    rw [hall.keys] at hno
    exact ⟨_, .place hin hout hattrs hend hno, hall⟩
  · cases h

/-- **A change of a model graph that fails** has at most merged the attributes. -/
theorem halts_updateModel (hw : w.Holds key n) (h : run (updateModel key r) w = .error f w') :
    ∃ m, r.Halts n (Assoc.keys w.draft.nodes) .model f m ∧ w.Writes key m w' := by
  have hlast (new : Node) (w₁ : Workbench) : ¬ run (do
      unless Node.isInterface new.type do modify fun w => w.replaceEntry new.name new
      return new.view : Bench NodeView) w₁ = .error f w' := by
    intro h
    cases hinterface : Node.isInterface new.type <;> rw [hinterface] at h <;> cases h
  rw [updateModel_eq, run_target hw] at h
  cases hgiven : r.attrs.isNone with
  | true =>
    rw [hgiven] at h
    have hmerged := (Workbench.Writes.refl hw).setPlaced hw { n with attrs := Assoc.insertAll n.attrs r.further }
    change run (liftM (r.recordFor n (Assoc.insertAll n.attrs r.further)) >>= _) (w.setPlaced key _) = _ at h
    rcases granted_error h with ⟨hrecord, rfl⟩ | ⟨new, -, h⟩
    · exact ⟨_, .merged hgiven hrecord, hmerged⟩
    · exact absurd h (hlast new _)
  | false =>
    rw [hgiven] at h
    rcases computed_error h with ⟨s, hattrs, rfl, rfl⟩ | ⟨attrs, hattrs, h⟩
    · exact ⟨n, .table hgiven hattrs, .refl hw⟩
    rcases granted_error h with ⟨hrecord, rfl⟩ | ⟨new, -, h⟩
    · exact ⟨n, .record hgiven hattrs hrecord, .refl hw⟩
    · exact absurd h (hlast new _)

end Bench

def Workbench.ofNode (kind : GraphKind) (n : Node) : Workbench :=
  { kind, draft := { opset := 9, nodes := [(n.name, n)] }, free := [(n.name, n)], links := [(n.name, n.name)] }

theorem Workbench.holds_ofNode (kind : GraphKind) (n : Node) : (ofNode kind n).Holds n.name n := by
  have hpeers : (ofNode kind n).peers n.name = [n.name] := by simp [ofNode, peers, entriesOf, Assoc.get?]
  refine ⟨nodup_singleton _, ?_⟩
  rw [hpeers]
  simp [ofNode, Assoc.get?]

def Node.sum : Node :=
  { type := "Add", name := "a", inputs := [.str "x"], outputs := [.str "y"], attrs := [("old", .int 1)],
    domain := .str "raw" }

end ModelExport
