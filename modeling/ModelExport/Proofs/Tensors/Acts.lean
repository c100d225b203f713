import ModelExport.Proofs.Tensors.Nodes

/-!
# Proofs/Tensors/Acts — what nodes give, by what they are given

`Acts` says of a node that it computes tensors with some properties from tensors with others.  The
properties are those of shapes, a tensor of a shape (`shaped`) and one that lists integers (`listing`), as
nodes read them that reshape or repeat another tensor; and those of elements, a tensor that fills a shape
(`Tensor.Fills`).
-/

namespace ModelExport

open Emit List

variable {τ : Type*} {E : Elements τ} {version : Int}

/-- **What a node does**: it gives tensors with some properties from tensors with others. -/
structure Acts (E : Elements τ) (version : Int) (type : String) (attrs : Attrs)
    (Ps Qs : List (Tensor τ → Prop)) : Prop where
  recordable : Node.isConstant type = true ∨ ∀ a ∈ attrs, a.1 ∉ Node.reserved
  gives : ∀ ts, List.Forall₂ (fun P t => P t) Ps ts →
    ∃ us, operation E version type attrs Qs.length ts = some us ∧ List.Forall₂ (fun Q u => Q u) Qs us

def shaped (dims : List Nat) (t : Tensor τ) : Prop := t.shape = dims

def listing (E : Elements τ) (ns : List Int) (t : Tensor τ) : Prop := t.ints? E = some ns

namespace Acts

variable {type : String} {attrs : Attrs} {P P' P'' Q : Tensor τ → Prop} (htype : type ∉ severalOutputs)
  (hattrs : Node.isConstant type = true ∨ ∀ a ∈ attrs, a.1 ∉ Node.reserved)

include htype in
theorem operation_eq {ts : List (Tensor τ)} {u : Tensor τ} (h : resultOf E version type attrs ts = some u) :
    operation E version type attrs 1 ts = some [u] := by
  unfold operation
  rw [if_neg htype, h, Option.map_some]

include htype hattrs

theorem of_none {u : Tensor τ} (h : resultOf E version type attrs [] = some u) (hQ : Q u) :
    Acts E version type attrs [] [Q] where
  recordable := hattrs
  gives
    | _, .nil => ⟨[u], operation_eq htype h, .cons hQ .nil⟩

theorem of_one (h : ∀ t, P t → ∃ u, resultOf E version type attrs [t] = some u ∧ Q u) :
    Acts E version type attrs [P] [Q] where
  recordable := hattrs
  gives
    | _, .cons hP .nil => by
      obtain ⟨u, hu, hQ⟩ := h _ hP
      exact ⟨[u], operation_eq htype hu, .cons hQ .nil⟩

theorem of_two (h : ∀ t t', P t → P' t' → ∃ u, resultOf E version type attrs [t, t'] = some u ∧ Q u) :
    Acts E version type attrs [P, P'] [Q] where
  recordable := hattrs
  gives
    | _, .cons hP (.cons hP' .nil) => by
      obtain ⟨u, hu, hQ⟩ := h _ _ hP hP'
      exact ⟨[u], operation_eq htype hu, .cons hQ .nil⟩

theorem of_three (h : ∀ t t' t'', P t → P' t' → P'' t'' →
      ∃ u, resultOf E version type attrs [t, t', t''] = some u ∧ Q u) :
    Acts E version type attrs [P, P', P''] [Q] where
  recordable := hattrs
  gives
    | _, .cons hP (.cons hP' (.cons hP'' .nil)) => by
      obtain ⟨u, hu, hQ⟩ := h _ _ _ hP hP' hP''
      exact ⟨[u], operation_eq htype hu, .cons hQ .nil⟩

theorem of_four {P₁ P₂ P₃ P₄ : Tensor τ → Prop} (h : ∀ t₁ t₂ t₃ t₄, P₁ t₁ → P₂ t₂ → P₃ t₃ → P₄ t₄ →
      ∃ u, resultOf E version type attrs [t₁, t₂, t₃, t₄] = some u ∧ Q u) :
    Acts E version type attrs [P₁, P₂, P₃, P₄] [Q] where
  recordable := hattrs
  gives
    | _, .cons h₁ (.cons h₂ (.cons h₃ (.cons h₄ .nil))) => by
      obtain ⟨u, hu, hQ⟩ := h _ _ _ _ h₁ h₂ h₃ h₄
      exact ⟨[u], operation_eq htype hu, .cons hQ .nil⟩

theorem of_shape {Ps : List (Tensor τ → Prop)} {dims : List Nat}
    (h : ∀ ts, List.Forall₂ (fun P t => P t) Ps ts → (resultOf E version type attrs ts).map Tensor.shape = some dims) :
    Acts E version type attrs Ps [shaped dims] where
  recordable := hattrs
  gives ts hts := by
    obtain ⟨u, hu, hshape⟩ := Option.map_eq_some_iff.1 (h ts hts)
    exact ⟨[u], operation_eq htype hu, .cons hshape .nil⟩

end Acts

/-! ## Constants -/

theorem resultOf_constant {attrs : Attrs} (dims : List Nat) (vals : List Value)
    (hdims : (Node.tensorOf "" attrs).dims.parts? = some (dims.map fun n => .int n))
    (hvals : (Node.tensorOf "" attrs).vals.parts? = some vals) (hlen : vals.length = dims.prod) :
    resultOf E version "Constant" attrs [] = some ⟨dims, fun i =>
      E.literal (Node.tensorOf "" attrs).type (vals.getD (Value.rowMajor dims i) .none)⟩ := by
  have hnat : (dims.map fun n : Nat => Value.int n).mapM (fun v => v.int?.bind Int.toNat?) = some dims :=
    mapM_of_forall₂ (forall₂_map_left_iff.2 (forall₂_same.2 fun _ _ => rfl))
  change Tensor.ofData E _ = _
  rw [Tensor.ofData, hdims, Option.bind_some, hnat, Option.bind_some, hvals, Option.bind_some, if_pos hlen]

theorem listing_iff {ns : List Int} {t : Tensor τ} : listing E ns t ↔
    t.shape = [ns.length] ∧ ∀ (k : Nat) (hk : k < ns.length), E.int? (t.entry [k]) = some ns[k] := by
  constructor
  · intro h
    unfold listing Tensor.ints? at h
    split at h
    · rename_i n hshape
      obtain ⟨hlen, hget⟩ := forall₂_iff_get.1 (forall₂_of_mapM h)
      rw [length_range] at hlen
      refine ⟨by rw [hshape, hlen], fun k hk => ?_⟩
      simpa using hget k (by simpa [hlen] using hk) hk
    · cases h
  · rintro ⟨hshape, hentry⟩
    rw [listing, Tensor.ints?, hshape]
    refine mapM_of_forall₂ (forall₂_iff_get.2 ⟨length_range, fun k _ hk => ?_⟩)
    rw [get_eq_getElem, getElem_range, hentry k hk, get_eq_getElem]

theorem listing_of_getD (hE : E.Exact) {ns : List Int} {t : Tensor τ} (hshape : t.shape = [ns.length])
    (hentry : ∀ k, t.entry [k] = E.literal (.int ElementType.INT64) ((ns.map Value.int).getD k .none)) :
    listing E ns t := by
  refine listing_iff.2 ⟨hshape, fun k hk => ?_⟩
  have hlt : k < (ns.map Value.int).length := by rwa [length_map]
  rw [hentry, getD_eq_getElem _ _ hlt, getElem_map, hE.literal]

theorem acts_constant_list (n : Nat) {type : Value} {xs : List Value} (hn : xs.length = n := by simp) :
    Acts E version "Constant" [("dtype", type), ("value", .list xs)] [] [shaped [n]] := by
  subst hn
  exact .of_none (by decide) (Or.inl rfl) (resultOf_constant [xs.length] xs rfl rfl prod_singleton.symm) rfl

/-- Integers of a constant can be read, whether its dimensions are given or not. -/
theorem exists_constant_integers (hE : E.Exact) {attrs : Attrs} {ns : List Int}
    (hdata : Node.tensorOf "" attrs = { name := "", type := .int ElementType.INT64, dims, vals := .ints ns })
    (hdims : dims.parts? = some [.int ns.length]) :
    ∃ t, resultOf E version "Constant" attrs [] = some t ∧ listing E ns t := by
  have hlen : (ns.map Value.int).length = ns.length := length_map _
  refine ⟨_, resultOf_constant [ns.length] (ns.map .int) (by rw [hdata]; exact hdims) (by rw [hdata]; rfl)
    (hlen.trans prod_singleton.symm), listing_of_getD hE rfl fun k => ?_⟩
  simp [Value.rowMajor, hdata]

theorem exists_constant_ints (hE : E.Exact) (ns : List Int) :
    ∃ t, resultOf E version "Constant" [("dtype", .int ElementType.INT64), ("value", .ints ns)] [] = some t ∧
      listing E ns t := by
  have hlen : (ns.map Value.int).length = ns.length := length_map _
  exact exists_constant_integers hE rfl (congrArg (fun k : Nat => some [Value.int k]) hlen)

theorem acts_constant_ints (hE : E.Exact) (ns : List Int) :
    Acts E version "Constant" [("dtype", .int ElementType.INT64), ("value", .ints ns)] [] [listing E ns] := by
  obtain ⟨t, ht, hlists⟩ := exists_constant_ints hE ns
  exact .of_none (by decide) (Or.inl rfl) ht hlists

/-- The same with the number of integers as an attribute. -/
theorem acts_constant_sized (hE : E.Exact) (ns : List Int) {n : Int} (hn : n = ns.length := by rfl) :
    Acts E version "Constant" [("dtype", .int ElementType.INT64), ("dims", .ints [n]), ("value", .ints ns)] []
      [listing E ns] := by
  have hresult : ∃ t, resultOf E version "Constant"
      [("dtype", .int ElementType.INT64), ("dims", .ints [n]), ("value", .ints ns)] [] = some t ∧ listing E ns t :=
    exists_constant_integers hE rfl (by rw [hn]; rfl)
  obtain ⟨t, ht, hlists⟩ := hresult
  exact .of_none (by decide) (Or.inl rfl) ht hlists

theorem acts_constant_scalar (type : Value) {v : Value} (hv : v.number?.isSome) :
    Acts E version "Constant" [("dtype", type), ("value", v)] [] [shaped []] := by
  have hdata : (Node.tensorOf "" [("dtype", type), ("value", v)]).dims = .tuple [] ∧
      (Node.tensorOf "" [("dtype", type), ("value", v)]).vals = .list [v] := by
    cases v with
    | bool b | int n | float x => exact ⟨rfl, rfl⟩
    | _ => cases hv
  exact .of_none (by decide) (Or.inl rfl)
    (resultOf_constant [] [v] (by rw [hdata.1]; rfl) (by rw [hdata.2]; rfl) rfl) rfl

theorem acts_constant_filled (dims : List Nat) {type : Value} {vals : List Value} (hlen : vals.length = dims.prod) :
    Acts E version "Constant"
      [("dtype", type), ("dims", .list (dims.map fun n : Nat => .int n)), ("value", .list vals)] [] [shaped dims] :=
  .of_none (by decide) (Or.inl rfl) (resultOf_constant dims vals rfl rfl hlen) rfl

theorem acts_fills_scalar {c : τ} {type v : Value} (hc : E.literal type v = c) :
    Acts E version "Constant" [("dtype", type), ("dims", .tuple []), ("value", .list [v])] []
      [Tensor.Fills [] fun _ => c] :=
  .of_none (by decide) (Or.inl rfl) (resultOf_constant [] [v] rfl rfl rfl) ⟨rfl, fun i hi => by cases hi; exact hc⟩

/-! ## Nodes that work element by element -/

section Elementwise

variable {type : String} {attrs : Attrs} {dims small : List Nat}

theorem one_output_of_mem {type : String} {arity : Nat} (h : (type, arity) ∈ elementwiseArity) :
    type ∉ severalOutputs := by
  intro hmem
  rcases mem_pair.1 hmem with rfl | rfl <;> simp [elementwiseArity] at h

theorem acts_unary (hattrs : ∀ a ∈ attrs, a.1 ∉ Node.reserved := by simp [Node.reserved])
    (htype : (type, 1) ∈ elementwiseArity := by decide) :
    Acts E version type attrs [shaped dims] [shaped dims] := by
  refine .of_one (one_output_of_mem htype) (Or.inr hattrs) fun t ht => ?_
  have hfills : t.Fills dims t.entry := ⟨ht, fun _ _ => rfl⟩
  obtain ⟨z, hz, hshape, -⟩ := hfills.pointwise_one (E.apply type attrs)
  exact ⟨z, (resultOf_pointwise htype).trans hz, hshape⟩

theorem acts_left (h : Tensor.Fits small dims) (htype : (type, 2) ∈ elementwiseArity := by decide) :
    Acts E version type [] [shaped dims, shaped small] [shaped dims] := by
  refine .of_two (one_output_of_mem htype) (Or.inr (forall_mem_nil _)) fun t u ht hu => ?_
  obtain ⟨z, hz, hshape, -⟩ := Tensor.Fills.pointwise_left (E.apply type []) ⟨ht, fun _ _ => rfl⟩
    ⟨hu.symm ▸ h, fun _ _ => rfl⟩
  exact ⟨z, (resultOf_pointwise htype).trans hz, hshape⟩

theorem acts_right (h : Tensor.Fits small dims) (htype : (type, 2) ∈ elementwiseArity := by decide) :
    Acts E version type [] [shaped small, shaped dims] [shaped dims] := by
  refine .of_two (one_output_of_mem htype) (Or.inr (forall_mem_nil _)) fun t u ht hu => ?_
  obtain ⟨z, hz, hshape, -⟩ := Tensor.Fills.pointwise_right (E.apply type []) ⟨ht.symm ▸ h, fun _ _ => rfl⟩
    ⟨hu, fun _ _ => rfl⟩
  exact ⟨z, (resultOf_pointwise htype).trans hz, hshape⟩

theorem acts_both (htype : (type, 2) ∈ elementwiseArity := by decide) :
    Acts E version type [] [shaped dims, shaped dims] [shaped dims] := acts_left (Tensor.fits_self dims) htype

theorem acts_clip_attrs (hversion : version < 11)
    (hattrs : ∀ a ∈ attrs, a.1 ∉ Node.reserved := by simp [Node.reserved]) :
    Acts E version "Clip" attrs [shaped dims] [shaped dims] := by
  refine .of_one (by decide) (Or.inr hattrs) fun t ht => ?_
  have hclip : resultOf E version "Clip" attrs [t] = Tensor.pointwise (E.apply "Clip" attrs) [t] :=
    if_pos hversion
  have hfills : t.Fills dims t.entry := ⟨ht, fun _ _ => rfl⟩
  obtain ⟨z, hz, hshape, -⟩ := hfills.pointwise_one (E.apply "Clip" attrs)
  exact ⟨z, hclip.trans hz, hshape⟩

end Elementwise

theorem acts_clip_inputs (hversion : 11 ≤ version) {dims : List Nat} :
    Acts E version "Clip" [] [shaped dims, shaped [], shaped []] [shaped dims] := by
  refine .of_three (by decide) (Or.inr (forall_mem_nil _)) fun t l u ht hl hu => ?_
  have hjoint : Tensor.jointShapes ([t, l, u].map Tensor.shape) = some dims := by
    simp only [map_cons, map_nil]
    rw [ht, hl, hu, Tensor.jointShapes_scalars]
  have hbounds : 11 ≤ version ∧ ([] : Attrs) = [] ∧ l.shape = [] ∧ u.shape = [] := ⟨hversion, rfl, hl, hu⟩
  have hclip : resultOf E version "Clip" [] [t, l, u] = Tensor.pointwise (E.apply "Clip" []) [t, l, u] :=
    if_pos hbounds
  exact ⟨_, hclip.trans (Tensor.pointwise_of_joint _ _ hjoint), rfl⟩

section Fills

variable {type : String} {dims : List Nat} {f g k : List Nat → τ} {P Q : Tensor τ → Prop}

theorem acts_fills_left {F : τ → τ → τ} (hop : ∀ a b, E.apply type [] [a, b] = F a b)
    (hQ : ∀ t, Q t → t.Spreads dims g) (hk : ∀ i, List.Forall₂ (· < ·) i dims → F (f i) (g i) = k i)
    (htype : (type, 2) ∈ elementwiseArity := by decide) :
    Acts E version type [] [Tensor.Fills dims f, Q] [Tensor.Fills dims k] := by
  refine .of_two (one_output_of_mem htype) (Or.inr (forall_mem_nil _)) fun t u ht hu => ?_
  obtain ⟨z, hz, hfills⟩ := ht.pointwise_left (E.apply type []) (hQ u hu)
  exact ⟨z, (resultOf_pointwise htype).trans hz, hfills.congr fun i hi => (hop _ _).trans (hk i hi)⟩

theorem acts_fills_right {F : τ → τ → τ} (hop : ∀ a b, E.apply type [] [a, b] = F a b)
    (hP : ∀ t, P t → t.Spreads dims f) (hk : ∀ i, List.Forall₂ (· < ·) i dims → F (f i) (g i) = k i)
    (htype : (type, 2) ∈ elementwiseArity := by decide) :
    Acts E version type [] [P, Tensor.Fills dims g] [Tensor.Fills dims k] := by
  refine .of_two (one_output_of_mem htype) (Or.inr (forall_mem_nil _)) fun t u ht hu => ?_
  obtain ⟨z, hz, hfills⟩ := Tensor.Fills.pointwise_right (E.apply type []) (hP t ht) hu
  exact ⟨z, (resultOf_pointwise htype).trans hz, hfills.congr fun i hi => (hop _ _).trans (hk i hi)⟩

theorem acts_fills_one {F : τ → τ} (hop : ∀ a, E.apply type [] [a] = F a)
    (hk : ∀ i, List.Forall₂ (· < ·) i dims → F (f i) = k i) (htype : (type, 1) ∈ elementwiseArity := by decide) :
    Acts E version type [] [Tensor.Fills dims f] [Tensor.Fills dims k] := by
  refine .of_one (one_output_of_mem htype) (Or.inr (forall_mem_nil _)) fun t ht => ?_
  obtain ⟨z, hz, hfills⟩ := ht.pointwise_one (E.apply type [])
  exact ⟨z, (resultOf_pointwise htype).trans hz, hfills.congr fun i hi => (hop _).trans (hk i hi)⟩

end Fills

/-! ## Shapes and axes -/

section Shapes

variable {dims : List Nat}

theorem resultOf_reshape {target : List Nat} {t u : Tensor τ} (hu : listing E (target.map Int.ofNat) u)
    (hpos : ∀ d ∈ target, 0 < d) (hprod : target.prod = t.shape.prod) :
    resultOf E version "Reshape" [] [t, u] =
      some ⟨target, fun i => t.entry (Tensor.indexAt t.shape (Value.rowMajor target i))⟩ :=
  (congrArg (Option.bind · t.reshape) hu).trans (Tensor.reshape_of_pos hpos hprod)

/-- The same with one extent left open. -/
theorem resultOf_reshape_open {front back : List Nat} {n : Nat} {t u : Tensor τ}
    (hu : listing E (front.map Int.ofNat ++ -1 :: back.map Int.ofNat) u) (hpos : ∀ d ∈ front ++ back, 0 < d)
    (hprod : (front ++ n :: back).prod = t.shape.prod) :
    resultOf E version "Reshape" [] [t, u] =
      some ⟨front ++ n :: back, fun i => t.entry (Tensor.indexAt t.shape (Value.rowMajor (front ++ n :: back) i))⟩ :=
  (congrArg (Option.bind · t.reshape) hu).trans (Tensor.reshape_open hpos hprod)

theorem acts_reshape (target : List Nat) (hpos : ∀ d ∈ target, 0 < d) (hprod : target.prod = dims.prod)
    {ns : List Int} (hns : ns = target.map Int.ofNat := by rfl) :
    Acts E version "Reshape" [] [shaped dims, listing E ns] [shaped target] := by
  refine .of_two (by decide) (Or.inr (forall_mem_nil _)) fun t u ht hu => ?_
  subst hns
  exact ⟨_, resultOf_reshape hu hpos (hprod.trans (congrArg List.prod ht.symm)), rfl⟩

theorem mapM_toNat? (ns : List Nat) : (ns.map Int.ofNat).mapM Int.toNat? = some ns :=
  mapM_of_forall₂ (forall₂_map_left_iff.2 (forall₂_same.2 fun _ _ => rfl))

theorem acts_tile (times target : List Nat) (hlen : times.length = dims.length := by rfl)
    (htarget : List.zipWith (· * ·) dims times = target := by simp) {ns : List Int}
    (hns : ns = times.map Int.ofNat := by rfl) :
    Acts E version "Tile" [] [shaped dims, listing E ns] [shaped target] := by
  refine .of_two (by decide) (Or.inr (forall_mem_nil _)) fun t u ht hu => ?_
  obtain rfl : t.shape = dims := ht
  have hread : (u.ints? E).bind (·.mapM Int.toNat?) = some times := by
    rw [show u.ints? E = some ns from hu, hns, Option.bind_some, mapM_toNat?]
  exact ⟨_, (congrArg (Option.bind · t.tile) hread).trans (if_pos hlen), htarget⟩

theorem axisOrder_ints (rank : Nat) (perm : List Nat) :
    axisOrder rank [("perm", .ints (perm.map Int.ofNat))] = some perm := by
  change (Value.ints (perm.map Int.ofNat)).ints?.bind (·.mapM Int.toNat?) = _
  rw [Value.ints?_ints, Option.bind_some, mapM_toNat?]

theorem acts_transpose (perm : List Nat) (hperm : perm.Perm (List.range dims.length)) {ns : List Int}
    (hns : ns = perm.map Int.ofNat := by rfl) : Acts E version "Transpose" [("perm", .ints ns)] [shaped dims]
      [shaped (perm.map (dims.getD · 0))] := by
  refine .of_one (by decide) (Or.inr (by simp [Node.reserved])) fun t ht => ?_
  obtain rfl : t.shape = dims := ht
  subst hns
  exact ⟨_, (congrArg (Option.bind · t.transpose) (axisOrder_ints _ perm)).trans (if_pos hperm), rfl⟩

theorem resultOf_transposed {t : Tensor τ} {m n : Nat} (ht : t.shape = [m, n]) :
    ∃ z, resultOf E version "Transpose" [] [t] = some z ∧ z.shape = [n, m] ∧
      ∀ a b, z.entry [b, a] = t.entry [a, b] := by
  have hperm : [1, 0].Perm (List.range 2) := by decide
  have hlen : t.shape.length = 2 := by rw [ht]; rfl
  have horder : axisOrder t.shape.length [] = some [1, 0] := by rw [hlen]; rfl
  refine ⟨_, (congrArg (Option.bind · t.transpose) horder).trans (if_pos (hlen ▸ hperm)), ?_, fun a b => ?_⟩
  · rw [ht]
    rfl
  · rw [ht]
    rfl

theorem resultOf_squeeze_axes {t : Tensor τ} {axes : List Int} {places : List Nat}
    (hplaces : axes.mapM (place? t.shape.length) = some places) :
    resultOf E version "Squeeze" [("axes", .ints axes)] [t] =
      if version < listInputFrom then t.squeeze places else none := by
  change ((if version < listInputFrom then (Value.ints axes).ints? else none).bind _).bind t.squeeze = _
  split
  · rw [Value.ints?_ints, Option.bind_some, hplaces, Option.bind_some]
  · rfl

theorem resultOf_squeeze (hversion : version < listInputFrom) {t : Tensor τ} {axis : Nat}
    (haxis : t.shape[axis]? = some 1) :
    resultOf E version "Squeeze" [("axes", .ints [(axis : Int)])] [t] =
      some ⟨t.shape.eraseIdx axis, fun i => t.entry (i.insertIdx axis 0)⟩ := by
  have hplace : [(axis : Int)].mapM (place? t.shape.length) = some [axis] := by
    rw [mapM_cons, Value.place?_natCast, if_pos (List.getElem?_eq_some_iff.1 haxis).1]
    rfl
  have hone : [axis].Nodup ∧ ∀ a ∈ [axis], t.shape[a]? = some 1 := ⟨nodup_singleton _, by simpa using haxis⟩
  refine (resultOf_squeeze_axes hplace).trans ((if_pos hversion).trans ((if_pos hone).trans ?_))
  simp only [Tensor.dropAxes_one, Tensor.putAxes_one]

theorem resultOf_unsqueeze (hversion : version < listInputFrom) {t : Tensor τ} {axis : Nat}
    (haxis : axis ≤ t.shape.length) :
    resultOf E version "Unsqueeze" [("axes", .ints [(axis : Int)])] [t] =
      some ⟨t.shape.insertIdx axis 1, fun i => t.entry (i.eraseIdx axis)⟩ := by
  have hread : listAttr version [("axes", .ints [(axis : Int)])] "axes" = some [(axis : Int)] := if_pos hversion
  have hplace : [(axis : Int)].mapM (place? (t.shape.length + 1)) = some [axis] := by
    rw [mapM_cons, Value.place?_natCast, if_pos (Nat.lt_succ_of_le haxis)]
    rfl
  have hone : [axis].Nodup ∧ ∀ a ∈ [axis], a < t.shape.length + [axis].length :=
    ⟨nodup_singleton _, by simpa using Nat.lt_succ_of_le haxis⟩
  refine (congrArg (Option.bind · _) hread).trans ((congrArg (Option.bind · t.unsqueeze) hplace).trans ?_)
  refine (if_pos hone).trans ?_
  simp only [Tensor.dropAxes_one, Tensor.putAxes_one]

theorem acts_squeeze (hversion : version < listInputFrom) (axis : Nat) (haxis : dims[axis]? = some 1) :
    Acts E version "Squeeze" [("axes", .ints [(axis : Int)])] [shaped dims] [shaped (dims.eraseIdx axis)] := by
  refine .of_one (by decide) (Or.inr (by simp [Node.reserved])) fun t ht => ?_
  obtain rfl : t.shape = dims := ht
  exact ⟨_, resultOf_squeeze hversion haxis, rfl⟩

theorem acts_split_listed (hversion : version < listInputFrom) (axis : Nat) (extents : List Nat)
    (hsum : dims[axis]? = some (extents.foldr (· + ·) 0)) {a : Int} (hplace : place? dims.length a = some axis := by rfl)
    {v : Value} (hv : v = .ints (extents.map Int.ofNat) := by rfl) :
    Acts E version "Split" [("axis", .int a), ("split", v)] [shaped dims]
      (extents.map fun e => shaped (dims.set axis e)) where
  recordable := Or.inr (by simp [Node.reserved])
  gives
    | [t], .cons ht .nil => by
      obtain rfl : t.shape = dims := ht
      have haxis : axisAttr t.shape.length [("axis", .int a), ("split", v)] = some axis := hplace
      have hextents : ∀ k size, partExtents version [("axis", .int a), ("split", v)] k size =
          some extents := fun k size => by
        change (listAttr version _ "split").bind (·.mapM Int.toNat?) = _
        rw [listAttr, if_pos hversion]
        change v.ints?.bind (·.mapM Int.toNat?) = _
        rw [hv, Value.ints?_ints, Option.bind_some, mapM_toNat?]
      refine ⟨t.partsFrom axis 0 extents, ?_, forall₂_map_left_iff.2 (t.forall₂_partsFrom axis 0 extents)⟩
      change partsOf version _ _ t = _
      rw [partsOf, haxis, Option.bind_some, hextents, Option.bind_some, Tensor.split, if_pos hsum]

theorem acts_split_four {P : Tensor τ → Prop} (axis : Nat) (Q : Nat → Tensor τ → Prop) {a : Int}
    (hP : ∀ t, P t → place? t.shape.length a = some axis ∧ t.shape[axis]? = some 4)
    (hQ : ∀ t, P t → ∀ k < 4, Q k (t.part axis k 1)) :
    Acts E version "Split" [("axis", .int a)] [P] [Q 0, Q 1, Q 2, Q 3] where
  recordable := Or.inr (by simp [Node.reserved])
  gives
    | [t], .cons ht .nil => by
      obtain ⟨hplace, hsize⟩ := hP t ht
      have hget : t.shape.getD axis 0 = 4 := by rw [getD_eq_getElem?_getD, hsize]; rfl
      have haxis : axisAttr t.shape.length [("axis", .int a)] = some axis := hplace
      have hextents : partExtents version [("axis", .int a)] 4 4 = some [1, 1, 1, 1] := rfl
      refine ⟨[t.part axis 0 1, t.part axis 1 1, t.part axis 2 1, t.part axis 3 1], ?_,
        .cons (hQ t ht 0 (by decide)) (.cons (hQ t ht 1 (by decide)) (.cons (hQ t ht 2 (by decide))
          (.cons (hQ t ht 3 (by decide)) .nil)))⟩
      change partsOf version _ _ t = _
      rw [partsOf, haxis, Option.bind_some, hget]
      change (partExtents version [("axis", .int a)] 4 4).bind _ = _
      rw [hextents, Option.bind_some]
      exact if_pos hsize

theorem forall_of_replicate {P : Tensor τ → Prop} : ∀ {n : Nat} {ts : List (Tensor τ)},
    List.Forall₂ (fun P t => P t) (List.replicate n P) ts → ∀ t ∈ ts, P t
  | 0, _, .nil, _, ht => absurd ht not_mem_nil
  | _ + 1, _, .cons hP hPs, _, ht => by
      rcases mem_cons.1 ht with rfl | ht
      · exact hP
      · exact forall_of_replicate hPs _ ht

theorem operation_concat {ts : List (Tensor τ)} (hne : ts ≠ []) (hshapes : ∀ t ∈ ts, t.shape = dims) {axis : Nat}
    (hone : dims[axis]? = some 1) {a : Int} (hplace : place? dims.length a = some axis) :
    ∃ z, operation E version "Concat" [("axis", .int a)] 1 ts = some [z] ∧ z.shape = dims.set axis ts.length ∧
      ∀ (i : List Nat) (k : Nat) (hk : k < ts.length), i[axis]? = some k →
        z.entry i = ts[k].entry (i.set axis 0) := by
  obtain ⟨z, hz, hshape, hentry⟩ := Tensor.concat_units hone hne hshapes
  obtain ⟨t, rest, rfl⟩ := exists_cons_of_ne_nil hne
  have haxis : axisAttr t.shape.length [("axis", .int a)] = some axis := by
    rw [hshapes t mem_cons_self]
    exact hplace
  refine ⟨z, Acts.operation_eq (by decide) ?_, hshape, hentry⟩
  change (axisAttr t.shape.length _).bind (Tensor.concat · (t :: rest)) = _
  rw [haxis, Option.bind_some, hz]

theorem acts_concat (axis count : Nat) (hcount : 0 < count) (hone : dims[axis]? = some 1) {a : Int}
    (hplace : place? dims.length a = some axis := by rfl) :
    Acts E version "Concat" [("axis", .int a)] (List.replicate count (shaped dims))
      [shaped (dims.set axis count)] where
  recordable := Or.inr (by simp [Node.reserved])
  gives ts hts := by
    have hlen : ts.length = count := by rw [← hts.length_eq, length_replicate]
    have hne : ts ≠ [] := ne_nil_of_length_pos (hlen ▸ hcount)
    obtain ⟨z, hz, hshape, -⟩ := operation_concat hne (forall_of_replicate hts) hone hplace
    exact ⟨[z], hz, .cons (hshape.trans (by rw [hlen])) .nil⟩

end Shapes

/-! ## Lists of integers -/

theorem acts_shape (hE : E.Exact) {dims : List Nat} :
    Acts E version "Shape" [] [shaped dims] [listing E (dims.map Int.ofNat)] := by
  refine .of_one (by decide) (Or.inr (forall_mem_nil _)) fun t ht => ?_
  obtain rfl : t.shape = dims := ht
  refine ⟨t.extents E, rfl, listing_iff.2 ⟨by rw [length_map]; rfl, fun k hk => ?_⟩⟩
  rw [length_map] at hk
  have hentry : (t.extents E).entry [k] = E.extent t.shape[k] :=
    congrArg E.extent (getD_eq_getElem _ _ hk)
  rw [hentry, hE.extent, getElem_map]
  rfl

theorem listing.slice {ns : List Int} {t : Tensor τ} (ht : listing E ns t) (a b : Int) :
    ∃ u, t.slice [⟨0, a, b, 1⟩] = some u ∧ listing E (((Cut.mk 0 a b 1).selects ns.length).map (ns.getD · 0)) u := by
  obtain ⟨hshape, hentry⟩ := listing_iff.1 ht
  have haxes : [Cut.mk 0 a b 1].mapM (fun c => place? [ns.length].length c.axis) = some [0] := rfl
  rw [Tensor.slice, hshape, haxes, Option.bind_some]
  refine ⟨_, if_pos (by simp), listing_iff.2 ⟨?_, fun k hk => ?_⟩⟩
  · simp [Tensor.selected, place?]
  · rw [length_map] at hk
    have hsel := getElem_mem hk
    have hlt : ((Cut.mk 0 a b 1).selects ns.length)[k] < ns.length := mem_range.1 (mem_filter.1 hsel).1
    simp [Tensor.selected, place?, hk, hentry _ hlt, hlt]

theorem map_selects_span {ns : List Int} {a b : Nat} (hab : a ≤ b) (hb : b ≤ ns.length) :
    ((Cut.mk 0 a b 1).selects ns.length).map (ns.getD · 0) = (ns.take b).drop a := by
  rw [Cut.selects_span 0 hab hb]
  refine ext_getElem (by simp; omega) fun k hk _ => ?_
  have hk : k < b - a := by simpa using hk
  rw [getElem_map, getElem_range', Nat.one_mul, getElem_drop, getElem_take,
    getD_eq_getElem _ _ (by omega)]

theorem map_selects_front (front rest : List Nat) :
    ((Cut.mk 0 0 front.length 1).selects ((front ++ rest).map Int.ofNat).length).map
      (((front ++ rest).map Int.ofNat).getD · 0) = front.map Int.ofNat := by
  refine (map_selects_span (Nat.zero_le _) (by simp)).trans ?_
  simp

theorem map_selects_back (rest back : List Nat) :
    ((Cut.mk 0 rest.length (rest ++ back).length 1).selects ((rest ++ back).map Int.ofNat).length).map
      (((rest ++ back).map Int.ofNat).getD · 0) = back.map Int.ofNat := by
  refine (map_selects_span (by simp) (by simp)).trans ?_
  rw [take_of_length_le (by simp)]
  simp

theorem acts_slice (hversion : 10 ≤ version) {ns : List Int} {a b : Int} :
    Acts E version "Slice" [] [listing E ns, listing E [a], listing E [b]]
      [listing E (((Cut.mk 0 a b 1).selects ns.length).map (ns.getD · 0))] := by
  refine .of_three (by decide) (Or.inr (forall_mem_nil _)) fun t s e ht hs he => ?_
  have hslice : resultOf E version "Slice" [] [t, s, e] = t.slice [⟨0, a, b, 1⟩] := by
    change ((s.ints? E).bind fun starts => (e.ints? E).bind fun stops => _) = _
    rw [show s.ints? E = some [a] from hs, show e.ints? E = some [b] from he]
    exact if_pos ⟨hversion, rfl⟩
  rw [hslice]
  exact ht.slice a b

theorem acts_slice_axes (hversion : 10 ≤ version) {ns : List Int} {a b : Int} :
    Acts E version "Slice" [] [listing E ns, listing E [a], listing E [b], listing E [0]]
      [listing E (((Cut.mk 0 a b 1).selects ns.length).map (ns.getD · 0))] := by
  refine .of_four (by decide) (Or.inr (forall_mem_nil _)) fun t s e x ht hs he hx => ?_
  have hcuts : inputCuts E s e x = some [⟨0, a, b, 1⟩] := by
    rw [inputCuts, show s.ints? E = some [a] from hs, show e.ints? E = some [b] from he,
      show x.ints? E = some [0] from hx]
    rfl
  have hslice : resultOf E version "Slice" [] [t, s, e, x] = t.slice [⟨0, a, b, 1⟩] := by
    change (if 10 ≤ version then (inputCuts E s e x).bind t.slice else none) = _
    rw [if_pos hversion, hcuts, Option.bind_some]
  rw [hslice]
  exact ht.slice a b

theorem resultOf_slice_attrs (hversion : version < 10) {cuts : List Cut} (hsteps : ∀ c ∈ cuts, c.step = 1)
    (t : Tensor τ) : resultOf E version "Slice" [("axes", .ints (cuts.map Cut.axis)), ("starts", .ints (cuts.map Cut.start)),
      ("ends", .ints (cuts.map Cut.stop))] [t] = t.slice cuts := by
  have hunits : List.replicate (cuts.map Cut.start).length 1 = cuts.map Cut.step := by
    rw [length_map, map_eq_replicate_iff.2 hsteps]
  change (if version < 10 then (attrCuts _).bind t.slice else none) = _
  rw [if_pos hversion]
  change (((Value.ints _).ints?.bind fun axes => (Value.ints _).ints?.bind fun starts => (Value.ints _).ints?.bind fun stops =>
    axisCuts axes starts stops).bind t.slice) = _
  rw [Value.ints?_ints, Value.ints?_ints, Value.ints?_ints]
  change (axisCuts _ _ _).bind t.slice = _
  rw [axisCuts, if_pos (by simp), hunits, Cut.ofLists_map, Option.bind_some]

theorem acts_slice_attrs (hversion : version < 10) {ns : List Int} {a b : Int} :
    Acts E version "Slice" [("axes", .ints [0]), ("starts", .ints [a]), ("ends", .ints [b])] [listing E ns]
      [listing E (((Cut.mk 0 a b 1).selects ns.length).map (ns.getD · 0))] := by
  refine .of_one (by decide) (Or.inr (by simp [Node.reserved])) fun t ht => ?_
  have hunit : ∀ c ∈ [Cut.mk 0 a b 1], c.step = 1 := forall_mem_singleton.2 rfl
  have hslice := resultOf_slice_attrs (E := E) hversion hunit t
  simp only [map_cons, map_nil] at hslice
  rw [hslice]
  exact ht.slice a b

theorem resultOf_slice_steps (hversion : 10 ≤ version) {cuts : List Cut} (t : Tensor τ) {starts stops axes steps : Tensor τ}
    (hstarts : listing E (cuts.map Cut.start) starts) (hstops : listing E (cuts.map Cut.stop) stops)
    (haxes : listing E (cuts.map Cut.axis) axes) (hsteps : listing E (cuts.map Cut.step) steps) :
    resultOf E version "Slice" [] [t, starts, stops, axes, steps] = t.slice cuts := by
  change (if 10 ≤ version then (steppedCuts E starts stops axes steps).bind t.slice else none) = _
  unfold listing at hstarts hstops haxes hsteps
  have hcuts : steppedCuts E starts stops axes steps = some cuts := by
    simp [steppedCuts, hstarts, hstops, haxes, hsteps, Cut.ofLists_map]
  rw [if_pos hversion, hcuts, Option.bind_some]

theorem listing.join {ms ns : List Int} {t u : Tensor τ} (ht : listing E ms t) (hu : listing E ns u) :
    ∃ z, t.join 0 u = some z ∧ listing E (ms ++ ns) z := by
  obtain ⟨htshape, htentry⟩ := listing_iff.1 ht
  obtain ⟨hushape, huentry⟩ := listing_iff.1 hu
  refine ⟨_, if_pos (by simp [htshape, hushape]), listing_iff.2 ⟨?_, fun k hk => ?_⟩⟩
  · simp [htshape, hushape]
  · rw [length_append] at hk
    rcases Nat.lt_or_ge k ms.length with hlt | hge
    · simp [htshape, hlt, htentry k hlt, getElem_append_left hlt]
    · simp [htshape, Nat.not_lt.2 hge, huentry (k - ms.length) (by omega), getElem_append_right hge]

theorem listing.concat : ∀ {lists : List (List Int)} {ts : List (Tensor τ)}, lists ≠ [] →
    List.Forall₂ (listing E) lists ts → ∃ z, Tensor.concat 0 ts = some z ∧ listing E lists.flatten z
  | [], _, hne, _ => absurd rfl hne
  | [ns], [t], _, .cons ht .nil => by
      have haxis : 0 < t.shape.length := by simp [(listing_iff.1 ht).1]
      exact ⟨t, if_pos haxis, by rwa [flatten_singleton]⟩
  | ns :: ms :: lists, t :: u :: ts, _, .cons ht hts => by
      obtain ⟨z, hz, hlists⟩ := listing.concat (cons_ne_nil ms lists) hts
      obtain ⟨w, hw, hjoined⟩ := ht.join hlists
      exact ⟨w, (congrArg (Option.bind · (t.join 0)) hz).trans hw, hjoined⟩

/-- **Lists in a row.** -/
theorem acts_concat_listed (lists : List (List Int)) (hne : lists ≠ [] := by simp) {a : Int}
    (hplace : place? 1 a = some 0 := by rfl) :
    Acts E version "Concat" [("axis", .int a)] (lists.map (listing E)) [listing E lists.flatten] where
  recordable := Or.inr (by simp [Node.reserved])
  gives ts hts := by
    have hlists : List.Forall₂ (listing E) lists ts :=
      (forall₂_map_left_iff (R := fun (P : Tensor τ → Prop) t => P t)).1 hts
    obtain ⟨z, hz, hflat⟩ := listing.concat hne hlists
    obtain ⟨ns, rest, rfl⟩ := exists_cons_of_ne_nil hne
    obtain ⟨t, us, ht, -, rfl⟩ := forall₂_cons_left_iff.1 hlists
    have haxis : axisAttr t.shape.length [("axis", .int a)] = some 0 := by
      rw [(listing_iff.1 ht).1]
      exact hplace
    refine ⟨[z], Acts.operation_eq (by decide) ?_, .cons hflat .nil⟩
    change (axisAttr t.shape.length _).bind (Tensor.concat · (t :: us)) = _
    rw [haxis, Option.bind_some, hz]

theorem acts_concat_lists {ms ns : List Int} {a : Int} (hplace : place? 1 a = some 0 := by rfl) :
    Acts E version "Concat" [("axis", .int a)] [listing E ms, listing E ns] [listing E (ms ++ ns)] := by
  have hlisted : Acts E version "Concat" [("axis", .int a)] ([ms, ns].map (listing E)) [listing E [ms, ns].flatten] :=
    acts_concat_listed [ms, ns] (by simp) hplace
  rwa [flatten_cons, flatten_singleton] at hlisted

/-! ## What nodes refuse -/

/-- **What a node refuses**: tensors with some properties are nothing that it takes. -/
def Balks (E : Elements τ) (version : Int) (type : String) (attrs : Attrs) (Ps : List (Tensor τ → Prop)) : Prop :=
  ∀ ts, List.Forall₂ (fun P t => P t) Ps ts → ∀ outputs, operation E version type attrs outputs ts = none

/-- A tensor is not repeated by another number of times than it has axes. -/
theorem balks_tile {dims : List Nat} {ns : List Int} (hlen : ns.length ≠ dims.length) :
    Balks E version "Tile" [] [shaped dims, listing E ns]
  | [t, u], .cons ht (.cons hu .nil), outputs => by
    obtain rfl : t.shape = dims := ht
    have htile : ∀ times, ns.mapM Int.toNat? = some times → t.tile times = none := fun times htimes =>
      if_neg fun h => hlen ((forall₂_of_mapM htimes).length_eq.trans h)
    have hresult : resultOf E version "Tile" [] [t, u] = none := by
      change ((u.ints? E).bind (·.mapM Int.toNat?)).bind t.tile = none
      rw [show u.ints? E = some ns from hu, Option.bind_some]
      exact Option.bind_eq_none_iff.2 htile
    unfold operation
    rw [if_neg (by decide), hresult, Option.map_none]

end ModelExport
