import ModelExport.Proofs.Slices
import ModelExport.Proofs.Wiring.Conditions

/-!
# Proofs/Recurrent/Parts — the tensors that a recurrent cell is given

    entries       w  w'            one for each direction
    Unsqueeze     u  u'            with an axis in front
    Concat 0      [u | u']         side by side along it
    Slice 1       i f c o          block by block
    Concat 1      i o f c          in the order of models

Parameters are named in a list, and the nodes of a layer bring them into the form that its cell reads.  What is
known of such nodes (`Prepares`) composes: each writes its own name, the only ones that read the list put an
axis in front, and all others read what has been made up on the way.
-/

namespace ModelExport

open Emit List Rules

variable {α β : Type}

/-! ## Where tensors come from -/

/-- **A node makes a tensor**, the only one that it writes. -/
def Makes (ns : List Node) (type : String) (attrs : Attrs) (ins : List Value) (v : Value) : Prop :=
  ∃ n ∈ ns, n.type = type ∧ n.attrs = attrs ∧ n.inputs = ins ∧ n.outputs = [v]

def MakesConstant (ns : List Node) (i : Int) (v : Value) : Prop :=
  Makes ns "Constant" [("dtype", .int ElementType.INT64), ("value", .ints [i])] [] v

/-- **A range is cut out of a tensor**, in the form of a version: before version 10 the range is given by attributes,
from then on by constants. -/
def Cut.Made (version : Int) (ns : List Node) (c : Cut) (u v : Value) : Prop :=
  c.step = 1 ∧
    if version < 10 then
      Makes ns "Slice" [("axes", .ints [c.axis]), ("starts", .ints [c.start]), ("ends", .ints [c.stop])] [u] v
    else ∃ axes starts stops, MakesConstant ns c.axis axes ∧ MakesConstant ns c.start starts ∧
      MakesConstant ns c.stop stops ∧ Makes ns "Slice" [] [u, starts, stops, axes] v

/-- **Tensors side by side** along an axis that is put in front of each. -/
def Stacked (ns : List Node) (xs : List Value) (v : Value) : Prop :=
  ∃ us, List.Forall₂ (fun x u => Makes ns "Unsqueeze" [("axes", .ints [0])] [x] u) xs us ∧
    Makes ns "Concat" [("axis", .int 0)] us v

/-- **Ranges of a tensor**, put together again in some order along the second axis. -/
def Rearranged (version : Int) (ns : List Node) (cuts : List Cut) (u v : Value) : Prop :=
  ∃ ps, List.Forall₂ (fun c p => c.Made version ns u p) cuts ps ∧ Makes ns "Concat" [("axis", .int 1)] ps v

/-- The blocks of gates of a cell, as ranges of places along the second axis. -/
def gateCuts (cell : Cell) (h : Nat) : List Cut := (gateOrder cell).map fun r => ⟨1, r.1 * h, r.2 * h, 1⟩

/-- **Entries of a list of parameters, as a cell reads them**: side by side, and with their gates in the order of
models. -/
def Supplied (version : Int) (ns : List Node) (cell : Cell) (h : Nat) (xs : List Value) (v : Value) : Prop :=
  ∃ u, Stacked ns xs u ∧ Rearranged version ns (gateCuts cell h) u v

section Mono

variable {ns ms : List Node} {version : Int} {u v : Value} (hsub : ns ⊆ ms)

include hsub

theorem Makes.mono {type : String} {attrs : Attrs} {ins : List Value} (h : Makes ns type attrs ins v) :
    Makes ms type attrs ins v := by
  obtain ⟨n, hn, hmade⟩ := h
  exact ⟨n, hsub hn, hmade⟩

theorem Cut.Made.mono {c : Cut} (h : c.Made version ns u v) : c.Made version ms u v := by
  obtain ⟨hstep, h⟩ := h
  refine ⟨hstep, ?_⟩
  split
  · rw [if_pos ‹_›] at h
    exact h.mono hsub
  · rw [if_neg ‹_›] at h
    obtain ⟨axes, starts, stops, haxes, hstarts, hstops, hslice⟩ := h
    exact ⟨axes, starts, stops, haxes.mono hsub, hstarts.mono hsub, hstops.mono hsub, hslice.mono hsub⟩

theorem Stacked.mono {xs : List Value} (h : Stacked ns xs v) : Stacked ms xs v := by
  obtain ⟨us, hus, hv⟩ := h
  exact ⟨us, hus.imp fun _ _ hu => hu.mono hsub, hv.mono hsub⟩

theorem Rearranged.mono {cuts : List Cut} (h : Rearranged version ns cuts u v) :
    Rearranged version ms cuts u v := by
  obtain ⟨ps, hps, hv⟩ := h
  exact ⟨ps, hps.imp fun _ _ hp => hp.mono hsub, hv.mono hsub⟩

theorem Supplied.mono {cell : Cell} {h : Nat} {xs : List Value} (hv : Supplied version ns cell h xs v) :
    Supplied version ms cell h xs v := by
  obtain ⟨u, hu, hv⟩ := hv
  exact ⟨u, hu.mono hsub, hv.mono hsub⟩

end Mono

/-! ## Names that are made up -/

/-- **A name that is made up from a draft on.** -/
def Draft.MadeUp (d : Draft) (v : Value) : Prop := ∃ type k, d.count type ≤ k ∧ v = .str (numbered type k)

theorem Draft.MadeUp.text {d : Draft} {v : Value} (h : d.MadeUp v) : ∃ s, v = .str s := by
  obtain ⟨type, k, -, rfl⟩ := h
  exact ⟨_, rfl⟩

/-! ## Nodes that prepare -/

def cellTypes : List String := [Cell.lstm.type, Cell.gru.type]

/-- **What a run reads**: nodes that put an axis in front read the names `ws`, and the others read `sources`, or what
is made up from a draft `base` on. -/
structure Reading (base : Draft) (sources ws : List Value) (x : Emit α) (d d' : Draft) (a : α)
    (ns : List Node) : Prop where
  emission : Emission x d d' a ns
  version : d'.opset = d.opset
  unsqueezed : (ns.filter fun n => n.type == "Unsqueeze").flatMap Node.inputs = ws
  others : ∀ n ∈ ns, n.type ≠ "Unsqueeze" → ∀ v ∈ n.inputs, v ∈ sources ∨ base.MadeUp v

/-- **Nodes that prepare tensors for a cell**: each writes its own name, and none is a cell. -/
structure Prepares (base : Draft) (sources ws : List Value) (x : Emit α) (d d' : Draft) (a : α)
    (ns : List Node) : Prop extends Reading base sources ws x d d' a ns where
  own : ∀ n ∈ ns, n.outputs = [.str n.name]
  noCell : ∀ n ∈ ns, n.type ∉ cellTypes

namespace Reading

variable {base : Draft} {sources ws ws' : List Value} {x : Emit α} {f : α → Emit β} {d d₁ d' : Draft} {a : α} {b : β}
  {ns ms : List Node}

theorem bind (hx : Reading base sources ws x d d₁ a ns) (hf : Reading base sources ws' (f a) d₁ d' b ms) :
    Reading base sources (ws ++ ws') (x >>= f) d d' b (ns ++ ms) where
  emission := hx.emission.bind hf.emission
  version := hf.version.trans hx.version
  unsqueezed := by rw [filter_append, flatMap_append, hx.unsqueezed, hf.unsqueezed]
  others n hn := (mem_append.1 hn).elim (hx.others n) (hf.others n)

theorem pure (base : Draft) (sources : List Value) (a : α) (d : Draft) :
    Reading base sources [] (Pure.pure a) d d a [] where
  emission := (Quiet.pure a).emission rfl
  version := rfl
  unsqueezed := rfl
  others := forall_mem_nil _

theorem single {n : Node} (hx : Emission x d d' a [n]) (hversion : d'.opset = d.opset)
    (hws : (if n.type == "Unsqueeze" then n.inputs else []) = ws)
    (hins : n.type ≠ "Unsqueeze" → ∀ v ∈ n.inputs, v ∈ sources ∨ base.MadeUp v) :
    Reading base sources ws x d d' a [n] where
  emission := hx
  version := hversion
  unsqueezed := by
    rw [← hws, filter_cons, filter_nil]
    split
    · exact flatMap_singleton Node.inputs n
    · rfl
  others := forall_mem_singleton.2 hins

theorem counts (h : Reading base sources ws x d d' a ns) (hbase : ∀ t, base.count t ≤ d.count t) :
    ∀ t, base.count t ≤ d'.count t := fun t => (hbase t).trans (h.emission.counts t)

end Reading

namespace Prepares

variable {base : Draft} {sources ws ws' : List Value} {x : Emit α} {f : α → Emit β} {d d₁ d' : Draft} {a : α} {b : β}
  {ns ms : List Node}

/-- **Nodes that prepare stand in a row.** -/
theorem bind (hx : Prepares base sources ws x d d₁ a ns) (hf : Prepares base sources ws' (f a) d₁ d' b ms) :
    Prepares base sources (ws ++ ws') (x >>= f) d d' b (ns ++ ms) where
  toReading := hx.toReading.bind hf.toReading
  own n hn := (mem_append.1 hn).elim (hx.own n) (hf.own n)
  noCell n hn := (mem_append.1 hn).elim (hx.noCell n) (hf.noCell n)

theorem pure (base : Draft) (sources : List Value) (a : α) (d : Draft) :
    Prepares base sources [] (Pure.pure a) d d a [] where
  toReading := .pure base sources a d
  own := forall_mem_nil _
  noCell := forall_mem_nil _

theorem computed {e : Except Slip α} (ha : e = .ok a) (h : Prepares base sources ws (f a) d d' b ns) :
    Prepares base sources ws (liftM e >>= f) d d' b ns := { h with emission := h.emission.computed ha }

theorem versioned {f : Int → Emit β} (h : Prepares base sources ws (f d.opset) d d' b ns) :
    Prepares base sources ws (opset >>= f) d d' b ns := { h with emission := h.emission.versioned }

end Prepares

section Steps

variable {base d : Draft} (hbase : ∀ t, base.count t ≤ d.count t) (sources : List Value)

include hbase

/-- **One node that prepares a tensor.** -/
theorem prepares_node (type : String) (inputs : Value) (attrs : Attrs) {ins ws : List Value}
    (hin : Node.inputList (givenInputs inputs) = .ok ins)
    (hattrs : Node.isConstant type = true ∨ ∀ a ∈ attrs, a.1 ∉ Node.reserved)
    (hws : (if type == "Unsqueeze" then ins else []) = ws)
    (hins : type ≠ "Unsqueeze" → ∀ v ∈ ins, v ∈ sources ∨ base.MadeUp v)
    (htype : type ∉ cellTypes := by decide) :
    ∃ d' ns v, Prepares base sources ws (node type inputs attrs) d d' v ns ∧
      Makes ns type attrs ins v ∧ base.MadeUp v := by
  let n := Node.asked type (d.count type) ins [.str (numbered type (d.count type))] attrs
  refine ⟨d.adding n, [n], .str (numbered type (d.count type)), ?_, ⟨n, mem_singleton_self n, rfl, rfl, rfl, rfl⟩,
    type, d.count type, hbase type, rfl⟩
  exact { Reading.single (emission_node d hin hattrs) rfl hws hins with
    own := forall_mem_singleton.2 rfl
    noCell := forall_mem_singleton.2 htype }

theorem prepares_join (type : String) {vs : List Value} (attrs : Attrs) (hvs : ∀ v ∈ vs, base.MadeUp v)
    (hattrs : Node.isConstant type = true ∨ ∀ a ∈ attrs, a.1 ∉ Node.reserved)
    (htype : type ∉ "Unsqueeze" :: cellTypes := by decide) :
    ∃ d' ns v, Prepares base sources [] (node type (.list vs) attrs) d d' v ns ∧
      Makes ns type attrs vs v ∧ base.MadeUp v := by
  obtain ⟨hother, htype⟩ := not_or.1 (mt mem_cons.2 htype)
  have hin : Node.inputList (givenInputs (.list vs)) = .ok vs := inputList_texts fun v hv => (hvs v hv).text
  exact prepares_node hbase sources type _ attrs hin hattrs (if_neg (by simpa using hother))
    (fun _ v hv => Or.inr (hvs v hv)) htype

theorem prepares_constant (i : Int) : ∃ d' ns v,
    Prepares base sources [] (constant ElementType.INT64 (.ints [i])) d d' v ns ∧ MakesConstant ns i v ∧
      base.MadeUp v :=
  prepares_node hbase sources "Constant" (.list []) _ rfl (Or.inl rfl) rfl fun _ => forall_mem_nil _

theorem prepares_cut {u : Value} (htext : ∃ s, u = .str s) (hu : u ∈ sources ∨ base.MadeUp u) (axis a b : Int) :
    ∃ d' ns v, Prepares base sources [] (cut u (.ints [axis]) (.ints [a]) (.ints [b])) d d' v ns ∧
      (Cut.mk axis a b 1).Made d.opset ns u v ∧ base.MadeUp v := by
  obtain ⟨s, rfl⟩ := htext
  have hread : ∀ v ∈ [Value.str s], v ∈ sources ∨ base.MadeUp v := forall_mem_singleton.2 hu
  unfold Emit.cut cutTo Cut.Made
  by_cases hversion : d.opset < 10
  · obtain ⟨d', ns, v, hslice, hmade, hv⟩ := prepares_node hbase sources "Slice" (.str s)
      [("axes", .ints [axis]), ("starts", .ints [a]), ("ends", .ints [b])] rfl (Or.inr (by simp [Node.reserved]))
      rfl fun _ => hread
    refine ⟨d', ns, v, .versioned ?_, ⟨rfl, ?_⟩, hv⟩
    · rw [if_pos hversion]
      exact hslice
    · rw [if_pos hversion]
      exact hmade
  · obtain ⟨d₁, n₁, axes, haxes, hmade₁, hv₁⟩ := prepares_constant hbase sources axis
    have hbase₁ := haxes.counts hbase
    obtain ⟨d₂, n₂, starts, hstarts, hmade₂, hv₂⟩ := prepares_constant hbase₁ sources a
    have hbase₂ := hstarts.counts hbase₁
    obtain ⟨d₃, n₃, stops, hstops, hmade₃, hv₃⟩ := prepares_constant hbase₂ sources b
    have hbase₃ := hstops.counts hbase₂
    have htexts : ∀ v ∈ [.str s, starts, stops, axes], ∃ t, v = .str t := by
      simp only [forall_mem_cons]
      exact ⟨⟨s, rfl⟩, hv₂.text, hv₃.text, hv₁.text, forall_mem_nil _⟩
    obtain ⟨d', n₄, v, hslice, hmade₄, hv⟩ := prepares_node hbase₃ sources "Slice"
      (.list [.str s, starts, stops, axes]) [] (inputList_texts htexts) (Or.inr (forall_mem_nil _)) rfl fun _ => by
        simp only [forall_mem_cons]
        exact ⟨hu, .inr hv₂, .inr hv₃, .inr hv₁, forall_mem_nil _⟩
    refine ⟨d', n₁ ++ (n₂ ++ (n₃ ++ n₄)), v, .versioned ?_, ⟨rfl, ?_⟩, hv⟩
    · rw [if_neg hversion]
      exact haxes.bind (hstarts.bind (hstops.bind hslice))
    · rw [if_neg hversion]
      exact ⟨axes, starts, stops, hmade₁.mono fun _ hn => by simp [hn], hmade₂.mono fun _ hn => by simp [hn],
        hmade₃.mono fun _ hn => by simp [hn], hmade₄.mono fun _ hn => by simp [hn]⟩

/-- **Tensors are prepared one after another.** -/
theorem prepares_mapM {γ : Type} (f : γ → Emit Value) (ws : γ → List Value) (Q : List Node → γ → Value → Prop)
    (hmono : ∀ {ns ms : List Node} {x : γ} {v : Value}, ns ⊆ ms → Q ns x v → Q ms x v) {xs : List γ}
    (hf : ∀ x ∈ xs, ∀ d₁ : Draft, (∀ t, base.count t ≤ d₁.count t) → d₁.opset = d.opset →
      ∃ d' ns v, Prepares base sources (ws x) (f x) d₁ d' v ns ∧ Q ns x v ∧ base.MadeUp v) :
    ∃ d' ns vs, Prepares base sources (xs.flatMap ws) (xs.mapM f) d d' vs ns ∧ List.Forall₂ (Q ns) xs vs ∧
      ∀ v ∈ vs, base.MadeUp v := by
  induction xs generalizing d with
  | nil => exact ⟨d, [], [], .pure base sources [] d, .nil, forall_mem_nil _⟩
  | cons x xs ih =>
    obtain ⟨hx, hxs⟩ := forall_mem_cons.1 hf
    obtain ⟨d₁, n₁, v, hfirst, hv, hmade⟩ := hx d hbase rfl
    obtain ⟨d₂, n₂, vs, hrest, hvs, hmades⟩ := ih (hfirst.counts hbase) fun y hy d' hd' hversion =>
      hxs y hy d' hd' (hversion.trans hfirst.version)
    refine ⟨d₂, n₁ ++ n₂, v :: vs, ?_, .cons (hmono (by simp) hv) (hvs.imp fun _ _ => hmono (by simp)),
      forall_mem_cons.2 ⟨hmade, hmades⟩⟩
    have hall := hfirst.bind (f := fun y => xs.mapM f >>= fun ys => Pure.pure (y :: ys))
      (hrest.bind (.pure base sources (v :: vs) d₂))
    rwa [append_nil, append_nil, ← mapM_cons, ← flatMap_cons] at hall

/-- **An axis is put in front of tensors** that are named. -/
theorem prepares_withDirectionAxis {xs : List Value} (htexts : ∀ x ∈ xs, ∃ s, x = .str s) :
    ∃ d' ns us, Prepares base sources xs (withDirectionAxis xs) d d' us ns ∧
      List.Forall₂ (fun x u => Makes ns "Unsqueeze" [("axes", .ints [0])] [x] u) xs us ∧
      ∀ u ∈ us, base.MadeUp u := by
  have heq : withDirectionAxis xs = xs.mapM fun x => node "Unsqueeze" (.list [x]) [("axes", .ints [0])] := by
    clear htexts
    induction xs with
    | nil => rfl
    | cons x xs ih => rw [withDirectionAxis, ih, mapM_cons]
  have hall := prepares_mapM hbase sources (fun x => node "Unsqueeze" (.list [x]) [("axes", .ints [0])]) (fun x => [x])
    (fun ns x u => Makes ns "Unsqueeze" [("axes", .ints [0])] [x] u) (fun hsub h => h.mono hsub) fun x hx d₁ hd₁ _ =>
      prepares_node hd₁ sources "Unsqueeze" (.list [x]) [("axes", .ints [0])]
        (inputList_texts (forall_mem_singleton.2 (htexts x hx))) (Or.inr (by simp [Node.reserved])) rfl
        fun h => absurd rfl h
  rwa [flatMap_singleton', ← heq] at hall

/-- **The gates of a tensor are put into the order of models.** -/
theorem prepares_reorderGates {u : Value} (hu : base.MadeUp u) (cell : Cell) (h : Nat) :
    ∃ d' ns v, Prepares base sources [] (reorderGates cell (.int h) u) d d' v ns ∧
      Rearranged d.opset ns (gateCuts cell h) u v ∧ base.MadeUp v := by
  have heq : ∀ ranges, gateBlocks u (.int h) ranges =
      ranges.mapM fun r => cut u (.ints [1]) (.ints [r.1 * h]) (.ints [r.2 * h]) := fun ranges => by
    induction ranges with
    | nil => rfl
    | cons r ranges ih =>
      rw [mapM_cons, ← ih]
      rfl
  obtain ⟨d₁, n₁, ps, hblocks, hmades, hps⟩ := prepares_mapM hbase sources
    (fun r : Int × Int => cut u (.ints [1]) (.ints [r.1 * h]) (.ints [r.2 * h])) (fun _ => [])
    (fun ns r p => Cut.Made d.opset ns ⟨1, r.1 * h, r.2 * h, 1⟩ u p) (fun hsub h => h.mono hsub)
    (fun r (_ : r ∈ gateOrder cell) d₁ hd₁ hversion =>
      hversion ▸ prepares_cut hd₁ sources hu.text (.inr hu) 1 (r.1 * h) (r.2 * h))
  obtain ⟨d₂, n₂, v, hconcat, hmade, hv⟩ := prepares_join (hblocks.counts hbase) sources "Concat" [("axis", .int 1)] hps
    (Or.inr (by simp [Node.reserved]))
  have hcuts : List.Forall₂ (fun c p => Cut.Made d.opset (n₁ ++ n₂) c u p) (gateCuts cell h) ps :=
    forall₂_map_left_iff.2 (hmades.imp fun _ _ h => h.mono (by simp))
  have hnone : (gateOrder cell).flatMap (fun _ => ([] : List Value)) = [] := by simp
  rw [← heq, hnone] at hblocks
  exact ⟨d₂, n₁ ++ n₂, v, hblocks.bind hconcat, ⟨ps, hcuts, hmade.mono (by simp)⟩, hv⟩

end Steps

end ModelExport
