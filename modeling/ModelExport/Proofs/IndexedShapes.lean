import Mathlib
import ModelExport.Proofs.Tensors.Steps

/-!
# Proofs/IndexedShapes — the shape of what is left of a tensor

    [2, 3]     first place of axis 0        cut [1, 3]     declared [3]     squeezed [3]
    [2, 3]     first place of both axes     cut [1, 1]     declared [1]     squeezed []

A range of one place leaves an axis of one place, and an operator may ask for that axis to be dropped.  Where
it drops all axes, its output is still declared with one.  The axes are dropped by a node of its own if the output has
fewer axes than the input, and then all of them are: the shapes differ unless there was one axis to begin with
(`indexed_shape_iff`).
-/

namespace ModelExport

open Emit List Rules

variable {τ : Type*}

namespace Tensor

/-! ## Axes that are dropped -/

/-- From the last place on, erasing a place leaves those before it where they are. -/
theorem foldl_eraseIdx {α : Type*} {u : α} : ∀ {places : List Nat} {xs ys : List α}, places.Pairwise (· > ·) →
    (∀ a ∈ places, xs[a]? = some u ∧ ys[a]? = some u) →
    (places.foldl List.eraseIdx xs).length + places.length = xs.length ∧
      (places.foldl List.eraseIdx xs = places.foldl List.eraseIdx ys → xs = ys)
  | [], _, _, _, _ => ⟨rfl, id⟩
  | a :: places, xs, ys, hsorted, h => by
    obtain ⟨hbefore, hsorted⟩ := pairwise_cons.1 hsorted
    obtain ⟨⟨hx, hy⟩, hrest⟩ := forall_mem_cons.1 h
    obtain ⟨hxlt, rfl⟩ := List.getElem?_eq_some_iff.1 hx
    obtain ⟨hylt, hsame⟩ := List.getElem?_eq_some_iff.1 hy
    have hnext : ∀ b ∈ places, (xs.eraseIdx a)[b]? = some xs[a] ∧ (ys.eraseIdx a)[b]? = some xs[a] := by
      intro b hb
      rw [getElem?_eraseIdx_of_lt (hbefore b hb), getElem?_eraseIdx_of_lt (hbefore b hb)]
      exact hrest b hb
    obtain ⟨hlen, hinj⟩ := foldl_eraseIdx hsorted hnext
    refine ⟨?_, fun heq => ?_⟩
    · rw [length_eraseIdx_of_lt hxlt] at hlen
      rw [foldl_cons, length_cons]
      omega
    · rw [← insertIdx_eraseIdx_getElem hxlt, ← insertIdx_eraseIdx_getElem hylt, hinj heq, hsame]

theorem sorted_places {gone : List Nat} (h : gone.Nodup) : (gone.mergeSort (· ≥ ·)).Pairwise (· > ·) := by
  have hnodup := (mergeSort_perm gone (· ≥ ·)).nodup_iff.2 h
  exact ((pairwise_mergeSort' (· ≥ ·) gone).and hnodup).imp fun h => lt_of_le_of_ne h.1 h.2.symm

/-- **Dropping axes of one place** leaves the others, and nothing is lost by it. -/
theorem dropAxes_ones {gone xs ys : List Nat} (hgone : gone.Nodup)
    (h : ∀ a ∈ gone, xs[a]? = some 1 ∧ ys[a]? = some 1) : (dropAxes gone xs).length + gone.length = xs.length ∧
      (dropAxes gone xs = dropAxes gone ys → xs = ys) := by
  have hsame := mergeSort_perm gone (· ≥ ·)
  have hfold := foldl_eraseIdx (sorted_places hgone) fun a ha => h a (hsame.mem_iff.1 ha)
  rwa [hsame.length_eq] at hfold

/-! ## Shapes of ranges -/

/-- **The shape of the ranges that are cut out of a shape.** -/
def slicedShape (cuts : List Cut) (shape : List Nat) : List Nat :=
  shape.zipIdx.map fun e => (selected cuts shape.length e.2 e.1).length

/-- **The shape that is declared**: without the axes that are dropped, but never without any axis because of it. -/
def indexedShape (cuts : List Cut) (gone shape : List Nat) : List Nat :=
  let kept := dropAxes gone (slicedShape cuts shape)
  if gone ≠ [] ∧ kept = [] then [1] else kept

variable {cuts : List Cut} {shape : List Nat}

theorem getElem?_slicedShape (cuts : List Cut) (shape : List Nat) (a : Nat) : (slicedShape cuts shape)[a]? =
    (shape[a]?).map fun n => (selected cuts shape.length a n).length := by
  simp [slicedShape, Function.comp_def]

theorem length_slicedShape (cuts : List Cut) (shape : List Nat) : (slicedShape cuts shape).length = shape.length := by
  simp [slicedShape]

theorem shape_slice {t : Tensor τ} {axes : List Nat} (haxes : (cuts.mapM fun c => place? t.shape.length c.axis) = some axes)
    (hnodup : axes.Nodup) (hsteps : ∀ c ∈ cuts, c.step = 1) :
    (t.slice cuts).map Tensor.shape = some (slicedShape cuts t.shape) := by
  have hforward : axes.Nodup ∧ ∀ c ∈ cuts, 0 < c.step := ⟨hnodup, fun c hc => by rw [hsteps c hc]; decide⟩
  rw [slice, haxes, Option.bind_some, if_pos hforward, Option.map_some, map_map]
  rfl

/-- **Changed ranges leave the same shape if and only if** each selects as many places. -/
theorem slicedShape_map_eq_iff {f : Cut → Cut} (haxis : ∀ c, (f c).axis = c.axis)
    (hplaces : (cuts.map fun c => place? shape.length c.axis).Nodup) :
    slicedShape (cuts.map f) shape = slicedShape cuts shape ↔ ∀ c ∈ cuts, ∀ a n,
      place? shape.length c.axis = some a → shape[a]? = some n → ((f c).selects n).length = (c.selects n).length := by
  have hfind : ∀ a, (cuts.map f).find? (fun c => place? shape.length c.axis == some a) =
      (cuts.find? fun c => place? shape.length c.axis == some a).map f := fun a => by
    rw [find?_map]
    simp only [Function.comp_def, haxis]
  have hfound : ∀ {a c}, cuts.find? (fun c => place? shape.length c.axis == some a) = some c →
      c ∈ cuts ∧ place? shape.length c.axis = some a := fun h =>
    ⟨mem_of_find?_eq_some h, by simpa using find?_some h⟩
  constructor
  · intro h c hc a n ha hn
    have hone : cuts.find? (fun c => place? shape.length c.axis == some a) = some c := by
      cases hother : cuts.find? fun c => place? shape.length c.axis == some a with
      | none => exact absurd (beq_iff_eq.2 ha) (find?_eq_none.1 hother c hc)
      | some c' =>
        obtain ⟨hc', ha'⟩ := hfound hother
        exact congrArg some (inj_on_of_nodup_map hplaces hc' hc (ha'.trans ha.symm))
    have hget := congrArg (·[a]?) h
    simpa [getElem?_slicedShape, hn, selected, hfind, hone] using hget
  · intro h
    refine ext_getElem? fun a => ?_
    rw [getElem?_slicedShape, getElem?_slicedShape]
    cases hn : shape[a]? with
    | none => rfl
    | some n =>
      simp only [Option.map_some, selected, hfind]
      cases hc : cuts.find? (fun c => place? shape.length c.axis == some a) with
      | none => rfl
      | some c => exact congrArg some (h c (hfound hc).1 a n (hfound hc).2 hn)

/-- **The shape that is emitted**, with axes dropped by a node of their own or not. -/
def emittedShape (version : Int) (gone cut : List Nat) : Option (List Nat) :=
  if gone = [] ∨ cut.length = 1 then some cut
  else if version < listInputFrom ∧ ∀ a ∈ gone, cut[a]? = some 1 then some (dropAxes gone cut)
  else none

section Indexed

variable {gone : List Nat} (hgone : gone.Nodup) (hone : ∀ a ∈ gone, (slicedShape cuts shape)[a]? = some 1)

include hgone hone

theorem length_kept : (dropAxes gone (slicedShape cuts shape)).length + gone.length = shape.length :=
  (dropAxes_ones hgone fun a ha => ⟨hone a ha, hone a ha⟩).1.trans (length_slicedShape cuts shape)

/-- The rank gets less unless there is a single axis. -/
theorem length_indexedShape (hsome : gone ≠ []) :
    (indexedShape cuts gone shape).length < shape.length ↔ shape.length ≠ 1 := by
  have hkept := length_kept hgone hone
  have hpos := length_pos_iff.2 hsome
  unfold indexedShape
  by_cases hnone : dropAxes gone (slicedShape cuts shape) = []
  · rw [if_pos ⟨hsome, hnone⟩]
    simp only [length_singleton]
    omega
  · have hsize := length_pos_iff.2 hnone
    rw [if_neg fun h => hnone h.2]
    omega

/-- **The shape that is emitted is the declared one if and only if** there is an axis left or was only one, axes can
be dropped by an attribute, and the ranges leave the shape they should. -/
theorem emittedShape_eq_iff {version : Int} {cut : List Nat} (hcut : cut.length = shape.length) :
    emittedShape version gone cut = some (indexedShape cuts gone shape) ↔
      (gone.length = shape.length → shape.length ≤ 1) ∧
      (listInputFrom ≤ version → gone = [] ∨ shape.length = 1) ∧ cut = slicedShape cuts shape := by
  have hkept := length_kept hgone hone
  unfold emittedShape indexedShape
  rw [hcut]
  by_cases hsome : gone = []
  · have hdrop : dropAxes gone (slicedShape cuts shape) = slicedShape cuts shape := by simp [hsome, dropAxes]
    have hlen : gone.length = 0 := length_eq_zero_iff.2 hsome
    rw [if_pos (Or.inl hsome), if_neg fun h => h.1 hsome, hdrop, Option.some_inj]
    exact ⟨fun h => ⟨by omega, fun _ => Or.inl hsome, h⟩, fun h => h.2.2⟩
  have hpos := length_pos_iff.2 hsome
  by_cases hrank : shape.length = 1
  · have hkeep : dropAxes gone (slicedShape cuts shape) = [] := length_eq_zero_iff.1 (by omega)
    have hsingle : slicedShape cuts shape = [1] := by
      obtain ⟨n, hn⟩ := length_eq_one_iff.1 ((length_slicedShape cuts shape).trans hrank)
      obtain ⟨a, ha⟩ := exists_mem_of_ne_nil gone hsome
      have hget := hone a ha
      rw [hn, getElem?_singleton] at hget
      split at hget
      · rw [hn, Option.some.inj hget]
      · cases hget
    rw [if_pos (Or.inr hrank), if_pos ⟨hsome, hkeep⟩, hsingle, Option.some_inj]
    exact ⟨fun h => ⟨by omega, fun _ => Or.inr hrank, h⟩, fun h => h.2.2⟩
  rw [if_neg (not_or.2 ⟨hsome, hrank⟩)]
  by_cases hready : version < listInputFrom ∧ ∀ a ∈ gone, cut[a]? = some 1
  · obtain ⟨hlen, hsame⟩ := dropAxes_ones hgone fun a ha => ⟨hready.2 a ha, hone a ha⟩
    rw [if_pos hready, Option.some_inj]
    by_cases hall : dropAxes gone (slicedShape cuts shape) = []
    · have hnone : (dropAxes gone (slicedShape cuts shape)).length = 0 := length_eq_zero_iff.2 hall
      rw [if_pos ⟨hsome, hall⟩]
      refine ⟨fun h => ?_, fun h => absurd (h.1 (by omega)) (by omega)⟩
      rw [h, length_singleton] at hlen
      omega
    · have hleft := length_pos_iff.2 hall
      rw [if_neg fun h => hall h.2]
      exact ⟨fun h => ⟨by omega, fun hle => absurd hready.1 (Int.not_lt.2 hle), hsame h⟩, fun h => by rw [h.2.2]⟩
  · rw [if_neg hready]
    refine ⟨fun h => absurd h (Option.some_ne_none _).symm, fun h => absurd ⟨?_, h.2.2 ▸ hone⟩ hready⟩
    exact Int.not_le.1 fun hle => (h.2.1 hle).elim hsome hrank

end Indexed

end Tensor

/-! ## Ranges as they are emitted -/

namespace Cut

/-- The range that is emitted under a version: at first only its end is changed. -/
def emittedUnder (version : Int) (dims : List Int) (c : Cut) : Cut :=
  { c with
    start := if version < 10 then c.start else (c.emitted dims).start
    stop := (c.emitted dims).stop }

/-- **A range selects as many places** as emitted unless its start is counted from the end twice. -/
theorem length_selects_emittedUnder {version : Int} {dims : List Int} {c : Cut} {size : Int} {n : Nat} (hstep : c.step = 1)
    (hsize : memberAt dims c.axis = .ok size) (hn : size = n ∨ size = -1) :
    ((c.emittedUnder version dims).selects n).length = (c.selects n).length ↔ (10 ≤ version → 0 < size →
      ¬ (-2 * size < c.start ∧ c.start < -size ∧ 0 < clampEnd size.toNat c.stop)) := by
  rw [emittedUnder, emitted_eq hsize]
  by_cases hpos : 0 < size
  · obtain rfl : n = size.toNat := by omega
    have hstop := c.clampEnd_stop_emittedAt hpos
    have hstart := c.clampEnd_start_emittedAt hpos
    by_cases hversion : version < 10
    · simp [selects, hstop, hversion, Int.not_le.2 hversion]
    · rw [if_neg hversion]
      have hsub : ((c.emittedAt size).selects size.toNat).Sublist (c.selects size.toNat) := by
        refine monotone_filter_right _ fun k hk => ?_
        simp only [hstop, hstart, hstep, Int.one_dvd, and_true, decide_eq_true_eq] at hk ⊢
        refine ⟨?_, hk.2.1⟩
        split at hk
        · rw [clampEnd_of_neg _ (by omega)]
          omega
        · exact hk.1
      rw [← c.selects_emittedAt_iff hpos]
      exact ⟨fun h _ _ => hsub.eq_of_length h, fun h => congrArg List.length (h (Int.not_lt.1 hversion) hpos)⟩
  · have hstays : c.emittedAt size = c := by
      simp [emittedAt, hpos]
    simp [hstays, hpos]

end Cut

/-! ## What is emitted -/

open Tensor

/-- **An operator that cuts ranges out and drops axes**, whose output is declared with the shape that is left. -/
structure OpNode.Indexes (op : OpNode) (x y : String) (dims outDims : List Int) (cuts : List Cut)
    (gone shape : List Nat) : Prop extends op.Slices x y dims outDims cuts where
  units : ∀ c ∈ cuts, c.step = 1
  apart : ∃ places, (cuts.mapM fun c => place? shape.length c.axis) = some places ∧ places.Nodup
  decreased : ∃ axes, op.attr "decrease_axis" = .ints axes ∧ axes.mapM (place? shape.length) = some gone
  distinct : gone.Nodup
  single : ∀ a ∈ gone, (slicedShape cuts shape)[a]? = some 1
  known : List.Forall₂ (fun d n => d = Int.ofNat n ∨ d = -1) dims shape
  declared : List.Forall₂ (fun d n => d = Int.ofNat n ∨ d = -1) outDims (indexedShape cuts gone shape)

namespace OpNode.Indexes

variable {op : OpNode} {x y : String} {dims outDims : List Int} {cuts : List Cut} {gone shape : List Nat}
  (h : op.Indexes x y dims outDims cuts gone shape)

include h

/-- **Axes are dropped by a node of their own** unless there are none, or only one in all. -/
theorem droppedAxes_eq : droppedAxes op =
    .ok (if gone = [] ∨ shape.length = 1 then none else some (op.attr "decrease_axis")) := by
  obtain ⟨axes, haxes, hplaces⟩ := h.decreased
  have hlength : (Value.ints axes).length = .ok gone.length := by
    simp [Value.ints, Value.length, (forall₂_of_mapM hplaces).length_eq]
  rw [droppedAxes, haxes, hlength, h.outputShape, h.inputShape]
  simp only [except_ok_bind, h.known.length_eq, h.declared.length_eq]
  by_cases hnone : gone = []
  · rw [if_pos (by simp [hnone]), if_pos (Or.inl hnone)]
    rfl
  · have hrank := length_indexedShape h.distinct h.single hnone
    rw [if_neg (by simpa using hnone)]
    simp only [gt_iff_lt, hrank, hnone, false_or]
    by_cases hone : shape.length = 1
    · rw [if_neg (not_not.2 hone), if_pos hone]
      rfl
    · rw [if_pos hone, if_neg hone]
      rfl

theorem exists_extent {c : Cut} (hc : c ∈ cuts) : ∃ a size n, place? shape.length c.axis = some a ∧
    shape[a]? = some n ∧ memberAt dims c.axis = .ok size ∧ (size = Int.ofNat n ∨ size = -1) := by
  obtain ⟨a, ha, hplace⟩ := Value.exists_place? (h.within c hc).1 (h.within c hc).2
  obtain ⟨hlen, hget⟩ := forall₂_iff_get.1 h.known
  have hmember : memberAt dims c.axis = .ok dims[a] := by
    simp only [memberAt, hplace, getElem?_eq_getElem ha]
  exact ⟨a, dims[a], shape[a], hlen ▸ hplace, getElem?_eq_getElem (hlen ▸ ha), hmember, hget a ha (hlen ▸ ha)⟩

/-- **The ranges leave the shape they should if and only if** no start is counted from the end twice. -/
theorem slicedShape_emittedUnder_iff (version : Int) :
    slicedShape (cuts.map (Cut.emittedUnder version dims)) shape = slicedShape cuts shape ↔
      (10 ≤ version → ∀ c ∈ cuts, ∀ size, memberAt dims c.axis = .ok size → 0 < size →
        ¬ (-2 * size < c.start ∧ c.start < -size ∧ 0 < clampEnd size.toNat c.stop)) := by
  have hplaces : (cuts.map fun c => place? shape.length c.axis).Nodup := by
    obtain ⟨places, hplaces, hnodup⟩ := h.apart
    have hsome : (cuts.map fun c => place? shape.length c.axis) = places.map some :=
      forall₂_eq_eq_eq ▸ forall₂_map_left_iff.2 (forall₂_map_right_iff.2 (forall₂_of_mapM hplaces))
    exact hsome ▸ hnodup.map (Option.some_injective _)
  refine (slicedShape_map_eq_iff (f := Cut.emittedUnder version dims) (fun _ => rfl) hplaces).trans ?_
  constructor
  · intro hall hversion c hc size hsize
    obtain ⟨a, size', n, ha, hn, hsize', hknown⟩ := h.exists_extent hc
    obtain rfl : size' = size := Except.ok.inj (hsize'.symm.trans hsize)
    exact (Cut.length_selects_emittedUnder (h.units c hc) hsize hknown).1 (hall c hc a n ha hn) hversion
  · intro hall c hc a n ha hn
    obtain ⟨a', size, n', ha', hn', hsize, hknown⟩ := h.exists_extent hc
    obtain rfl : a' = a := Option.some.inj (ha'.symm.trans ha)
    obtain rfl : n' = n := Option.some.inj (hn'.symm.trans hn)
    exact (Cut.length_selects_emittedUnder (h.units c hc) hsize hknown).2 fun hversion =>
      hall hversion c hc size hsize

theorem units_emittedUnder (version : Int) : ∀ c ∈ cuts.map (Cut.emittedUnder version dims), c.step = 1 := by
  intro c' hc'
  obtain ⟨c, hc, rfl⟩ := mem_map.1 hc'
  exact h.units c hc

theorem shape_slice_emittedUnder (version : Int) {t : Tensor τ} (ht : t.shape = shape) :
    (t.slice (cuts.map (Cut.emittedUnder version dims))).map Tensor.shape =
      some (slicedShape (cuts.map (Cut.emittedUnder version dims)) shape) := by
  obtain ⟨places, hplaces, hnodup⟩ := h.apart
  subst ht
  refine shape_slice (mapM_of_forall₂ (forall₂_map_left_iff.2 ?_)) hnodup (h.units_emittedUnder version)
  exact forall₂_of_mapM hplaces

end OpNode.Indexes

/-- **The shape that a tensor has in the end**, if the nodes can be run. -/
def finalShape (y : String) (run : Option (Store (Option (Tensor τ)))) : Option (List Nat) :=
  (run.bind fun σ => σ (.str y)).map Tensor.shape

section Emitted

variable {E : Elements τ} {version : Int} {p : Ahead} {Γ : Facts τ} {vs : List Value} {Ps : List (Tensor τ → Prop)}

/-- **The last node** writes a tensor whose shape is known, or cannot be run. -/
theorem Leads.ends {type : String} {attrs : Attrs} {y : String} {r : Option (List Nat)} [hsay : Γ.SayAll vs Ps]
    (htype : type ∉ severalOutputs) (hattrs : Node.isConstant type = true ∨ ∀ a ∈ attrs, a.1 ∉ Node.reserved)
    (h : ∀ ts, List.Forall₂ (fun P t => P t) Ps ts → (resultOf E version type attrs ts).map Tensor.shape = r) :
    Leads E version p Γ (discard (Emit.nodeTo type (.list vs) (.strs [y]) attrs)) fun run => finalShape y run = r := by
  intro d σ _ hk
  let n := Node.asked type (d.count type) vs [.str y] attrs
  have hin : Node.inputList (givenInputs (.list vs)) = .ok vs := inputList_texts (hk.texts_of_facts hsay.all)
  obtain ⟨ts, hts, hPs⟩ := hk.reads hsay.all
  have hrun : runNodes E version [n] σ =
      (resultOf E version type attrs ts).map fun u => σ.write [.str y] [some u] := by
    cases hu : resultOf E version type attrs ts with
    | none => simp [runNodes, Node.run, hts, operation, n, Node.asked, Node.renewed, htype, hu]
    | some u => simp [runNodes, Node.run, hts, operation, n, Node.asked, Node.renewed, htype, hu]
  refine ⟨_, [n], (emission_nodeTo d hin y [] hattrs).discarded, ?_⟩
  change finalShape y (runNodes E version [n] σ) = r
  rw [hrun, ← h ts hPs]
  cases resultOf E version type attrs ts with
  | none => rfl
  | some u => simp [finalShape, Store.write, Store.put]

theorem same_ints (ns : List Int) : (Value.ints ns).same (.ints ns) = true := by
  change Value.sameList (ns.map .int) (ns.map .int) = true
  induction ns with
  | nil => rfl
  | cons n ns ih => simp [Value.sameList, Value.same_int_int, ih]

variable {op : OpNode} {x y : String} {dims outDims : List Int} {cuts : List Cut} {gone shape : List Nat}
  (h : op.Indexes x y dims outDims cuts gone shape) (hmade : p.made = true)

include h hmade

/-- **Ranges are cut out, and then axes are dropped** or not. -/
theorem leads_cutAndDrop [hsay : Γ.SayAll vs Ps] {attrs : Attrs} {cut : List Nat} (hlen : cut.length = shape.length)
    (hattrs : ∀ a ∈ attrs, a.1 ∉ Node.reserved)
    (hslice : ∀ ts, List.Forall₂ (fun P t => P t) Ps ts →
      (resultOf E version "Slice" attrs ts).map Tensor.shape = some cut) :
    Leads E version p Γ (cutAndDrop op (.list vs) attrs
      (if gone = [] ∨ shape.length = 1 then none else some (op.attr "decrease_axis")))
      fun run => finalShape y run = emittedShape version gone cut := by
  unfold emittedShape
  rw [hlen]
  by_cases hnone : gone = [] ∨ shape.length = 1
  · rw [if_pos hnone, if_pos hnone]
    exact .computed h.output_eq (.ends (by decide) (Or.inr hattrs) hslice)
  · obtain ⟨axes, haxes, hplaces⟩ := h.decreased
    rw [if_neg hnone, if_neg hnone, haxes]
    refine .node rfl hmade (.of_shape (by decide) (Or.inr hattrs) hslice) fun sliced => .computed h.output_eq ?_
    have hsqueeze : ∀ ts, List.Forall₂ (fun P t => P t) [shaped cut] ts →
        (resultOf E version "Squeeze" [("axes", .ints axes)] ts).map Tensor.shape =
          if version < listInputFrom ∧ ∀ a ∈ gone, cut[a]? = some 1 then some (dropAxes gone cut) else none := fun
      | [t], .cons ht .nil => by
        obtain rfl : t.shape = cut := ht
        rw [resultOf_squeeze_axes (hlen ▸ hplaces), Tensor.squeeze]
        simp only [h.distinct, true_and]
        split_ifs <;> simp_all
    exact .ends (by decide) (Or.inr (by simp [Node.reserved])) hsqueeze

variable [Γ.Says (.str x) (shaped shape)]

theorem leads_sliceAttributes (hversion : version < 10) :
    Leads E version p Γ (sliceAttributes op) fun run => finalShape y run =
      emittedShape version gone (slicedShape (cuts.map (Cut.emittedUnder version dims)) shape) := by
  have hunits : unitSteps (.ints (cuts.map Cut.stop)) = .ok (.ints (List.replicate cuts.length 1)) := by
    simp [unitSteps, Value.ints, Value.length, except_ok_bind]
  unfold sliceAttributes
  rw [h.ends, h.starts, h.axes]
  refine .computed hunits (.computed h.inputShape (.computed rfl
    (.edited (fun d => emission_adjustBounds d h.adjusted_ends) ?_)))
  rw [h.steps_eq, map_eq_replicate_iff.2 h.units, if_pos (same_ints _)]
  refine .computed h.droppedAxes_eq (.computed h.firstInput_eq ?_)
  refine leads_cutAndDrop h hmade (length_slicedShape _ _) (by simp [Node.reserved]) fun ts hts => ?_
  obtain _ | ⟨ht, _ | _⟩ := hts
  have hslice := resultOf_slice_attrs (E := E) hversion (h.units_emittedUnder version)
  simp only [map_map, Function.comp_def, Cut.emittedUnder, if_pos hversion] at hslice ⊢
  rw [hslice, h.shape_slice_emittedUnder version ht]

theorem leads_sliceConstants (hE : E.Exact) (hversion : 10 ≤ version) :
    Leads E version p Γ (sliceConstants op) fun run => finalShape y run =
      emittedShape version gone (slicedShape (cuts.map (Cut.emittedUnder version dims)) shape) := by
  rw [sliceConstants_eq]
  refine .edited (fun d => emission_constantBounds h.toSlices d) ?_
  unfold cutByConstants
  rw [h.axes]
  refine .node rfl hmade (acts_constant_ints hE _) fun axes => .node rfl hmade (acts_constant_ints hE _) fun starts =>
    .node rfl hmade (acts_constant_ints hE _) fun stops => .node rfl hmade (acts_constant_ints hE _) fun steps => ?_
  refine .computed h.droppedAxes_eq (.computed h.firstInput_eq ?_)
  refine leads_cutAndDrop h hmade (length_slicedShape _ _) (by simp [Node.reserved]) fun ts hts => ?_
  obtain _ | ⟨ht, _ | ⟨hstarts, _ | ⟨hstops, _ | ⟨haxes, _ | ⟨hsteps, _ | _⟩⟩⟩⟩⟩ := hts
  rw [resultOf_slice_steps hversion _ ?_ ?_ ?_ ?_, h.shape_slice_emittedUnder version ht]
  all_goals
    simp only [map_map, Function.comp_def, Cut.emittedUnder, if_neg (Int.not_lt.2 hversion)] at *
    assumption

end Emitted

/-- **What is left of a tensor has the declared shape if and only if** some axis is left or there was one only, axes can
still be dropped by an attribute or none is, and no start is counted from the end twice. -/
theorem indexed_shape_iff (exportType : ExportType) (depth : Nat) {op : OpNode} {x y : String} {dims outDims : List Int}
    {cuts : List Cut} {gone shape : List Nat} (htype : op.type = "slice")
    (h : op.Indexes x y dims outDims cuts gone shape) {E : Elements τ} (hE : E.Exact) {d : Draft} (hversion : 1 ≤ d.opset)
    (hx : d.Unmade (.str x)) {σ : Store (Option (Tensor τ))} {t : Tensor τ} (ht : σ (.str x) = some t)
    (hshape : t.shape = shape) :
    ∃ d' ns, Emission (mapUpTo Registry.standard exportType (depth + 1) op) d d' () ns ∧
      (finalShape y (runNodes E d.opset ns σ) = some (indexedShape cuts gone shape) ↔
        (gone.length = shape.length → shape.length ≤ 1) ∧
        (listInputFrom ≤ d.opset → gone = [] ∨ shape.length = 1) ∧
        (10 ≤ d.opset → ∀ c ∈ cuts, ∀ size, memberAt dims c.axis = .ok size → 0 < size →
          ¬ (-2 * size < c.start ∧ c.start < -size ∧ 0 < clampEnd size.toNat c.stop))) := by
  have hrules : Registry.standard.rulesOf (.str op.type) = some [(1, sliceAttributes), (10, sliceConstants)] ∧
      Registry.standard.composite? (.str op.type) = none := by
    rw [htype]
    exact ⟨rfl, rfl⟩
  have hknows : Knows ⟨true, []⟩ [(.str x, shaped shape)] d σ :=
    { nodup := List.nodup_nil, texts := by simp, unmade := by simp
      spared := List.forall_mem_singleton.2 ⟨⟨x, rfl⟩, List.not_mem_nil, fun _ => hx⟩
      holds := List.forall_mem_singleton.2 ⟨t, ht, hshape⟩ }
  rw [← h.slicedShape_emittedUnder_iff, ← emittedShape_eq_iff h.distinct h.single (length_slicedShape _ _)]
  by_cases hten : d.opset < 10
  · have hrule : Registry.standard.ruleFor op.type d.opset = .ok sliceAttributes :=
      Registry.ruleFor_of_latest hrules.1 rfl hversion (by simp; omega)
    obtain ⟨d', ns, hem, hend⟩ := leads_sliceAttributes h rfl hten d σ rfl hknows
    exact ⟨d', ns, emission_mapUpTo_of_rule hrules.2 hrule hem, by rw [hend]⟩
  · have hrule : Registry.standard.ruleFor op.type d.opset = .ok sliceConstants :=
      Registry.ruleFor_of_latest hrules.1 rfl (Int.not_lt.1 hten) (by simp)
    obtain ⟨d', ns, hem, hend⟩ := leads_sliceConstants h rfl hE (Int.not_lt.1 hten) d σ rfl hknows
    exact ⟨d', ns, emission_mapUpTo_of_rule hrules.2 hrule hem, by rw [hend]⟩

def OpNode.indexing (axes outDims : List Int) : OpNode :=
  { name := "slice_0", type := "slice", inputs := [("Input", .strs ["x"])], outputs := [("Out", .strs ["y"])]
    attrs := [("axes", .ints axes), ("starts", .ints (axes.map fun _ => 0)), ("ends", .ints (axes.map fun _ => 1)),
      ("decrease_axis", .ints axes)]
    block := some { vars := [{ name := "x", shape := [2, 3] }, { name := "y", shape := outDims }], ops := [] } }

/-- **The first row of a matrix has the declared shape**, its first element has not. -/
theorem indexed_shape_iff_matrix :
    (∃ d' ns, Emission (mapUpTo Registry.standard .none 1 (.indexing [0] [3])) { opset := 9 } d' () ns ∧
      finalShape "y" (runNodes .placeholder 9 ns fun _ => some ⟨[2, 3], fun _ => 0⟩) = some [3]) ∧
    ∃ d' ns, Emission (mapUpTo Registry.standard .none 1 (.indexing [0, 1] [1])) { opset := 9 } d' () ns ∧
      finalShape "y" (runNodes .placeholder 9 ns fun _ => some ⟨[2, 3], fun _ => 0⟩) ≠ some [1] := by
  have hx : ({ opset := 9 } : Draft).Unmade (.str "x") := Draft.unmade_of_endsPlainly (by decide) _
  have hleft : indexedShape [⟨0, 0, 1, 1⟩] [0] [2, 3] = [3] := by cbv
  have hnone : indexedShape [⟨0, 0, 1, 1⟩, ⟨1, 0, 1, 1⟩] [0, 1] [2, 3] = [1] := by cbv
  have hrow : (OpNode.indexing [0] [3]).Indexes "x" "y" [2, 3] [3] [⟨0, 0, 1, 1⟩] [0] [2, 3] :=
    { input := rfl, output := rfl, inputShape := rfl, outputShape := rfl, axes := rfl, starts := rfl, ends := rfl
      strides := Or.inr ⟨rfl, by simp⟩, dropped := ⟨_, rfl⟩, within := by simp, units := by simp
      apart := ⟨[0], rfl, by decide⟩, decreased := ⟨_, rfl, rfl⟩, distinct := by decide, single := by decide
      known := by simp, declared := by simp [hleft] }
  have helement : (OpNode.indexing [0, 1] [1]).Indexes "x" "y" [2, 3] [1] [⟨0, 0, 1, 1⟩, ⟨1, 0, 1, 1⟩] [0, 1] [2, 3] :=
    { input := rfl, output := rfl, inputShape := rfl, outputShape := rfl, axes := rfl, starts := rfl, ends := rfl
      strides := Or.inr ⟨rfl, by simp⟩, dropped := ⟨_, rfl⟩, within := by simp, units := by simp
      apart := ⟨[0, 1], rfl, by decide⟩, decreased := ⟨_, rfl, rfl⟩, distinct := by decide, single := by decide
      known := by simp, declared := by simp [hnone] }
  have hexact := Elements.exact_placeholder
  refine ⟨?_, ?_⟩
  · obtain ⟨d', ns, hem, hiff⟩ := indexed_shape_iff .none 0 rfl hrow hexact (by decide) hx
      (t := ⟨[2, 3], fun _ => 0⟩) (σ := fun _ => some ⟨[2, 3], fun _ => 0⟩) rfl rfl
    rw [hleft] at hiff
    exact ⟨d', ns, hem, hiff.2 ⟨by decide, by decide, fun h => absurd h (by decide)⟩⟩
  · obtain ⟨d', ns, hem, hiff⟩ := indexed_shape_iff .none 0 rfl helement hexact (by decide) hx
      (t := ⟨[2, 3], fun _ => 0⟩) (σ := fun _ => some ⟨[2, 3], fun _ => 0⟩) rfl rfl
    rw [hnone] at hiff
    exact ⟨d', ns, hem, fun h => absurd (hiff.1 h).1 (by decide)⟩

end ModelExport
