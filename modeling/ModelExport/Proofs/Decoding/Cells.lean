import ModelExport.Proofs.Tensors.Steps

/-!
# Proofs/Decoding/Cells — the boxes of a detector's cells

    [1, A * (5 + C), H, W]   ->   [1, A, 5 + C, H, W]   ->   [1, A, H, W, 5 + C]   ->   six parts

A detector predicts, in each of `H` rows of `W` cells and for each of `A` anchors, a box, how sure it is
of it, and scores for `C` classes.  They fit together for all `A`, `C`, `H` and `W`: one lemma for each
part of the rule follows the shapes through its nodes, and `cells_decoded` puts them together.
-/

namespace ModelExport

open Emit List Rules

variable {f : Value × Value → Emit Unit} {x y : Value} {image : String}

variable {τ : Type*} {E : Elements τ} {version : Int} {listed : List Value} {Γ Δ : Facts τ} {A C H W : Nat}

theorem computes_cellGrid (hE : E.Exact) (hH : 0 < H) (hW : 0 < W)
    (h : ∀ x y, Computes E version ⟨true, listed⟩ ((x, shaped [H, W]) :: (y, shaped [H, W]) :: Γ) (f (x, y)) Δ) :
    Computes E version ⟨true, listed⟩ Γ (cellGrid H W >>= f) Δ := by
  unfold cellGrid Emit.constant
  simp only [bind_assoc, pure_bind]
  refine .node rfl rfl (acts_constant_list W) fun columns => ?_
  refine .node rfl rfl (acts_constant_list H) fun rows => ?_
  refine .node rfl rfl (acts_constant_ints hE _) fun columnShape => ?_
  refine .node rfl rfl (acts_constant_ints hE _) fun rowShape => ?_
  refine .node rfl rfl (acts_reshape [1, W] (by simp [hW]) (by simp)) fun columns => ?_
  refine .node rfl rfl (acts_reshape [H, 1] (by simp [hH]) (by simp)) fun rows => ?_
  refine .node rfl rfl (acts_tile [H, 1] [H, W]) fun gridX => ?_
  refine .node rfl rfl (acts_tile [1, W] [H, W]) fun gridY => ?_
  exact (h gridX gridY).mono

theorem computes_scaleCenters {scale : Value} [Γ.Says x (shaped [1, A, H, W, 1])]
    [Γ.Says y (shaped [1, A, H, W, 1])] (hscale : scale = .none ∨ ∃ s, scale = .float s)
    (h : ∀ x y, Computes E version ⟨true, listed⟩ ((x, shaped [1, A, H, W, 1]) ::
      (y, shaped [1, A, H, W, 1]) :: Γ) (f (x, y)) Δ) :
    Computes E version ⟨true, listed⟩ Γ (scaleCenters x y scale >>= f) Δ := by
  unfold scaleCenters Emit.constant
  rcases hscale with rfl | ⟨s, rfl⟩
  · exact (h x y).mono
  · rw [if_neg (show ¬ (Value.float s).isNone = true from Bool.false_ne_true)]
    simp only [bind_assoc, pure_bind]
    refine .computed rfl (.computed rfl ?_)
    refine .node rfl rfl (acts_constant_scalar _ rfl) fun factor => ?_
    refine .node rfl rfl (acts_constant_scalar _ rfl) fun bias => ?_
    refine .node rfl rfl (acts_left (Tensor.fits_nil _)) fun x => ?_
    refine .node rfl rfl (acts_left (Tensor.fits_nil _)) fun x => ?_
    refine .node rfl rfl (acts_left (Tensor.fits_nil _)) fun y => ?_
    refine .node rfl rfl (acts_left (Tensor.fits_nil _)) fun y => ?_
    exact (h x y).mono

theorem computes_cellCenters (hversion : version < listInputFrom) {gridX gridY scale : Value}
    [Γ.Says gridX (shaped [H, W])] [Γ.Says gridY (shaped [H, W])] [Γ.Says x (shaped [1, A, H, W, 1])]
    [Γ.Says y (shaped [1, A, H, W, 1])] (hscale : scale = .none ∨ ∃ s, scale = .float s)
    (h : ∀ x y, Computes E version ⟨true, listed⟩ ((x, shaped [1, A, H, W]) ::
      (y, shaped [1, A, H, W]) :: Γ) (f (x, y)) Δ) :
    Computes E version ⟨true, listed⟩ Γ (cellCenters H W gridX gridY x y scale >>= f) Δ := by
  have hgrid : Tensor.Fits [H, W] [1, A, H, W] :=
    Tensor.fits_append [1, A] (.cons (Or.inr rfl) (.cons (Or.inr rfl) .nil))
  have hone : Tensor.Fits [1] [1, A, H, W] := Tensor.fits_append [1, A, H] (.cons (Or.inl rfl) .nil)
  unfold cellCenters Emit.constant
  simp only [bind_assoc, pure_bind]
  refine .node rfl rfl acts_unary fun x => ?_
  refine .node rfl rfl acts_unary fun y => ?_
  refine computes_scaleCenters hscale fun x y => ?_
  refine .node rfl rfl (acts_squeeze hversion 4 rfl) fun x => ?_
  refine .node rfl rfl (acts_squeeze hversion 4 rfl) fun y => ?_
  refine .node rfl rfl (acts_right hgrid) fun x => ?_
  refine .node rfl rfl (acts_right hgrid) fun y => ?_
  refine .node rfl rfl (acts_constant_list 1) fun height => ?_
  refine .node rfl rfl (acts_constant_list 1) fun width => ?_
  refine .node rfl rfl (acts_left hone) fun x => ?_
  refine .node rfl rfl (acts_left hone) fun y => ?_
  exact (h x y).mono

theorem computes_anchoredExtents (hversion : version < listInputFrom) (hE : E.Exact) (hA : 0 < A)
    {base : String} {anchors : List Value} (hanchors : anchors.length = 2 * A) (size : Value) {w h : Value}
    [Γ.Says w (shaped [1, A, H, W, 1])] [Γ.Says h (shaped [1, A, H, W, 1])]
    (hf : ∀ w h, Computes E version ⟨true, listed⟩ ((w, shaped [1, A, H, W]) ::
      (h, shaped [1, A, H, W]) :: Γ) (f (w, h)) Δ) :
    Computes E version ⟨true, markedNames base ["@anchor_w", "@anchor_h"] ++ listed⟩ Γ
      (anchoredExtents (.str base) (.list anchors) size A w h >>= f) Δ := by
  have hone : Tensor.Fits [1] [A, 2] := Tensor.fits_append [A] (.cons (Or.inl rfl) .nil)
  have hanchor : Tensor.Fits [1, A, 1, 1] [1, A, H, W] :=
    Tensor.fits_append [] (.cons (Or.inl rfl) (.cons (Or.inr rfl) (.cons (Or.inl rfl) (.cons (Or.inl rfl) .nil))))
  unfold anchoredExtents Emit.constant
  simp only [bind_assoc, pure_bind]
  refine .node rfl rfl (acts_constant_list (2 * A) hanchors) fun anchorNode => ?_
  refine .node rfl rfl (acts_constant_ints hE _) fun anchorShape => ?_
  refine .node rfl rfl (acts_reshape [A, 2] (by simp [hA]) (by simp [Nat.mul_comm])) fun anchorNode => ?_
  refine .node rfl rfl (acts_constant_list 1) fun sizeNode => ?_
  refine .node rfl rfl (acts_left hone) fun anchorNode => ?_
  refine .computed rfl (.computed rfl ?_)
  refine .nodeTo [(.str (base ++ "@anchor_w"), shaped [A, 1]), (.str (base ++ "@anchor_h"), shaped [A, 1])]
    _ rfl (cons_ne_nil _ _) (acts_split_listed hversion 1 [1, 1] rfl) ?_
  refine .node rfl rfl (acts_constant_ints hE _) fun cell => ?_
  refine .node rfl rfl (acts_reshape [1, A, 1, 1] (by simp [hA]) (by simp)) fun anchorWidth => ?_
  refine .node rfl rfl (acts_reshape [1, A, 1, 1] (by simp [hA]) (by simp)) fun anchorHeight => ?_
  refine .node rfl rfl (acts_squeeze hversion 4 rfl) fun w => ?_
  refine .node rfl rfl (acts_squeeze hversion 4 rfl) fun h => ?_
  refine .node rfl rfl acts_unary fun w => ?_
  refine .node rfl rfl acts_unary fun h => ?_
  refine .node rfl rfl (acts_left hanchor) fun w => ?_
  refine .node rfl rfl (acts_left hanchor) fun h => ?_
  exact (hf w h).mono

/-- **An operator that decodes the cells of a detector**: `A` anchors and `C` classes in each of `H` rows of
`W` cells. -/
structure OpNode.DecodesCells (op : OpNode) (x image boxes scores : String) (A C H W : Nat) : Prop where
  type : op.type = "yolo_box"
  input : Assoc.get? op.inputs "X" = some (.strs [x])
  image : Assoc.get? op.inputs "ImgSize" = some (.strs [image])
  boxes : Assoc.get? op.outputs "Boxes" = some (.strs [boxes])
  scores : Assoc.get? op.outputs "Scores" = some (.strs [scores])
  shape : op.inputShape "X" 0 = .ok ([1, A * (5 + C), H, W].map Int.ofNat)
  classes : op.attr "class_num" = .int C
  anchors : ∃ xs, op.attr "anchors" = .list xs ∧ xs.length = 2 * A
  ratio : ∃ r, op.attr "downsample_ratio" = .int r
  scale : op.attr "scale_x_y" = .none ∨ ∃ s, op.attr "scale_x_y" = .float s

theorem computes_positivePart {dims : List Nat} [Γ.Says x (shaped dims)] {f : Value → Emit Unit}
    (h : ∀ y, Computes E version ⟨true, listed⟩ ((y, shaped dims) :: Γ) (f y) Δ) :
    Computes E version ⟨true, listed⟩ Γ (positivePart x >>= f) Δ := by
  unfold positivePart Emit.constant
  simp only [bind_assoc]
  refine .versioned ?_
  split
  · rename_i hversion
    simp only [bind_assoc]
    refine .node rfl rfl (acts_constant_scalar _ rfl) fun lower => ?_
    refine .node rfl rfl (acts_constant_scalar _ rfl) fun upper => ?_
    refine .node rfl rfl (acts_clip_inputs hversion) fun y => ?_
    exact (h y).mono
  · rename_i hversion
    exact .node rfl rfl (acts_clip_attrs (Int.not_le.1 hversion)) fun y => h y

theorem computes_sureConfidences (hE : E.Exact) (hA : 0 < A) (hH : 0 < H) (hW : 0 < W) {confidence : Value}
    [Γ.Says confidence (shaped [1, A, H, W, 1])] {thresholds : List Value}
    (hthresholds : thresholds.length = A * H * W)
    (h : ∀ confidence zeros, Computes E version ⟨true, listed⟩ ((confidence, shaped [1, A, H, W, 1]) ::
      (zeros, shaped [1]) :: Γ) (f (confidence, zeros)) Δ) :
    Computes E version ⟨true, listed⟩ Γ (sureConfidences confidence (.list thresholds) A H W >>= f) Δ := by
  have hone : Tensor.Fits [1] [1, A, H, W, 1] := Tensor.fits_append [1, A, H, W] (.cons (Or.inl rfl) .nil)
  unfold sureConfidences Emit.constant
  simp only [bind_assoc, pure_bind]
  refine .node rfl rfl acts_unary fun confidence => ?_
  refine .node rfl rfl (acts_constant_list (A * H * W) hthresholds) fun threshold => ?_
  refine .node rfl rfl (acts_constant_ints hE _) fun perCell => ?_
  refine .node rfl rfl (acts_reshape [1, A, H, W, 1] (by simp [hA, hH, hW])
    (by simp [Nat.mul_assoc])) fun threshold => ?_
  refine .node rfl rfl acts_both fun excess => ?_
  refine computes_positivePart fun excess => ?_
  refine .node rfl rfl (acts_constant_list 1) fun zeros => ?_
  refine .node rfl rfl (acts_left hone) fun sure => ?_
  refine .node rfl rfl acts_unary fun sure => ?_
  refine .node rfl rfl acts_both fun confidence => ?_
  exact (h confidence zeros).mono

theorem computes_cellBoxes (hE : E.Exact) (hA : 0 < A) (hH : 0 < H) (hW : 0 < W)
    {confidence zeros probability w h : Value} [Γ.Says confidence (shaped [1, A, H, W, 1])]
    [Γ.Says zeros (shaped [1])] [Γ.Says probability (shaped [1, A, H, W, C])] [Γ.Says x (shaped [1, A, H, W])]
    [Γ.Says y (shaped [1, A, H, W])] [Γ.Says w (shaped [1, A, H, W])] [Γ.Says h (shaped [1, A, H, W])]
    (hf : ∀ boxes scores, Computes E version ⟨true, listed⟩ ((boxes, shaped [1, A * H * W, 4]) ::
      (scores, shaped [1, A, H, W, C]) :: Γ) (f (boxes, scores)) Δ) :
    Computes E version ⟨true, listed⟩ Γ (cellBoxes confidence zeros probability A H W x y w h >>= f) Δ := by
  have hone : Tensor.Fits [1] [1, A, H, W, 1] := Tensor.fits_append [1, A, H, W] (.cons (Or.inl rfl) .nil)
  have hcell : ∀ n, Tensor.Fits [1, A, H, W, 1] [1, A, H, W, n] := fun n =>
    Tensor.fits_append [] (.cons (Or.inl rfl) (.cons (Or.inr rfl) (.cons (Or.inr rfl)
      (.cons (Or.inr rfl) (.cons (Or.inl rfl) .nil)))))
  have hpos : ∀ d ∈ [1, A, H, W, 1], 0 < d := by simp [hA, hH, hW]
  unfold cellBoxes Emit.constant
  simp only [bind_assoc, pure_bind]
  refine .node rfl rfl acts_unary fun probability => ?_
  refine .node rfl rfl (acts_constant_sized hE _) fun cell => ?_
  refine .node rfl rfl (acts_reshape [1, A, H, W, 1] hpos rfl) fun confidence => ?_
  refine .node rfl rfl (acts_left (hcell C)) fun scores => ?_
  refine .node rfl rfl (acts_left hone) fun present => ?_
  refine .node rfl rfl (acts_reshape [1, A, H, W, 1] hpos (by simp)) fun x => ?_
  refine .node rfl rfl (acts_reshape [1, A, H, W, 1] hpos (by simp)) fun y => ?_
  refine .node rfl rfl (acts_reshape [1, A, H, W, 1] hpos (by simp)) fun w => ?_
  refine .node rfl rfl (acts_reshape [1, A, H, W, 1] hpos (by simp)) fun h => ?_
  refine .node rfl rfl (acts_concat 4 4 (by decide) rfl) fun boxes => ?_
  refine .node rfl rfl acts_unary fun present => ?_
  refine .node rfl rfl (acts_left (hcell 4)) fun boxes => ?_
  refine .node rfl rfl (acts_constant_ints hE _) fun boxShape => ?_
  refine .node rfl rfl (acts_reshape [1, A * H * W, 4] (by simp [hA, hH, hW])
    (by simp [Nat.mul_assoc])) fun boxes => ?_
  exact (hf boxes scores).mono

theorem computes_imageCorners (hversion : version < listInputFrom) {base : String} {n : Nat}
    {boxes scores scoreShape : Value} [Γ.Says (.str image) (shaped [1, 2])] [Γ.Says boxes (shaped [1, n, 4])]
    {f : Decoded → Emit Unit}
    (hf : ∀ left top right bottom beyondRight beyondBottom, Computes E version ⟨true, listed⟩
      ((left, shaped [1, n, 1]) :: (top, shaped [1, n, 1]) :: (right, shaped [1, n, 1]) ::
        (bottom, shaped [1, n, 1]) :: (beyondRight, shaped [1, n, 1]) :: (beyondBottom, shaped [1, n, 1]) :: Γ)
      (f ⟨left, top, right, bottom, beyondRight, beyondBottom, scores, scoreShape⟩) Δ) :
    Computes E version ⟨true, markedNames base imageMarks ++ listed⟩ Γ
      (imageCorners (.str base) (.list [.str image]) boxes scores scoreShape >>= f) Δ := by
  have hone : Tensor.Fits [1] [1, n, 1] := Tensor.fits_append [1, n] (.cons (Or.inl rfl) .nil)
  unfold imageCorners Emit.constant
  simp only [bind_assoc, pure_bind]
  refine .computed rfl (.computed rfl (.computed rfl (.computed rfl ?_)))
  refine .nodeTo [(.str (base ++ "@_pred_box_x"), shaped [1, n, 1]),
      (.str (base ++ "@_pred_box_y"), shaped [1, n, 1]), (.str (base ++ "@_pred_box_w"), shaped [1, n, 1]),
      (.str (base ++ "@_pred_box_h"), shaped [1, n, 1])]
    (markedNames base ["@img_height", "@img_width"] ++ listed) rfl (cons_ne_nil _ _)
    (acts_split_four 2 (fun _ => shaped [1, n, 1]) ?_ ?_) ?_
  · rintro t (hshape : t.shape = [1, n, 4])
    simp [hshape, place?]
  · rintro t (hshape : t.shape = [1, n, 4]) k -
    rw [shaped, Tensor.part, hshape]
    rfl
  refine .node rfl rfl (acts_constant_list 1) fun two => ?_
  refine .node rfl rfl (acts_left hone) fun w => ?_
  refine .node rfl rfl (acts_left hone) fun h => ?_
  refine .node rfl rfl acts_both fun left => ?_
  refine .node rfl rfl acts_both fun top => ?_
  refine .node rfl rfl acts_both fun right => ?_
  refine .node rfl rfl acts_both fun bottom => ?_
  refine .node rfl rfl (acts_squeeze hversion 0 rfl) fun size => ?_
  refine .computed rfl (.computed rfl ?_)
  refine .nodeTo [(.str (base ++ "@img_height"), shaped [1]), (.str (base ++ "@img_width"), shaped [1])]
    _ rfl (cons_ne_nil _ _) (acts_split_listed hversion 0 [1, 1] rfl) ?_
  refine .node rfl rfl acts_unary fun imageWidth => ?_
  refine .node rfl rfl acts_unary fun imageHeight => ?_
  refine .node rfl rfl (acts_left hone) fun left => ?_
  refine .node rfl rfl (acts_left hone) fun top => ?_
  refine .node rfl rfl (acts_left hone) fun right => ?_
  refine .node rfl rfl (acts_left hone) fun bottom => ?_
  refine .node rfl rfl (acts_constant_list 1) fun one => ?_
  refine .node rfl rfl acts_both fun lastRow => ?_
  refine .node rfl rfl acts_both fun lastColumn => ?_
  refine .node rfl rfl (acts_left hone) fun beyondRight => ?_
  refine .node rfl rfl (acts_left hone) fun beyondBottom => ?_
  exact (hf left top right bottom beyondRight beyondBottom).mono

theorem computes_cornerBound {asConstants : Bool} (has : asConstants = true ↔ 11 ≤ version)
    {f : (Value → Emit Value) → Emit Unit}
    (h : ∀ (new : Facts τ) (bounds : List Value) (attrs : Attrs) (Ps : List (Tensor τ → Prop))
      [(new ++ Γ).SayAll bounds Ps], (∀ dims, Acts E version "Clip" attrs (shaped dims :: Ps) [shaped dims]) →
        Computes E version ⟨true, listed⟩ (new ++ Γ) (f fun x => node "Clip" (.list (x :: bounds)) attrs) Δ) :
    Computes E version ⟨true, listed⟩ Γ (cornerBound asConstants >>= f) Δ := by
  unfold cornerBound Emit.constant
  cases asConstants with
  | true =>
    rw [if_pos rfl]
    simp only [bind_assoc, pure_bind]
    refine .node rfl rfl (acts_constant_scalar _ rfl) fun lower => ?_
    refine .node rfl rfl (acts_constant_scalar _ rfl) fun upper => ?_
    exact h [(upper, shaped []), (lower, shaped [])] [lower, upper] [] _ fun dims => acts_clip_inputs (has.1 rfl)
  | false =>
    rw [if_neg Bool.false_ne_true, pure_bind]
    have hversion : version < 11 := Int.not_le.1 fun hle => Bool.false_ne_true (has.2 hle)
    exact h [] [] _ _ fun dims => acts_clip_attrs hversion

theorem requireStatic_natural (dims : List Nat) : requireStatic (dims.map Int.ofNat) = .ok () := by
  have hknown : ¬ (-1 : Int) ∈ (dims.map Int.ofNat).tail := fun h => by
    obtain ⟨n, -, hn⟩ := mem_map.1 (mem_of_mem_tail h)
    cases hn
  simp [requireStatic, hknown]

theorem repeated_length {α : Type} (xs : List α) (n : Nat) : (Value.repeated xs n).length = xs.length * n := by
  simp [Value.repeated, Nat.mul_comm]

theorem computes_decodeCells (hversion : version < listInputFrom) (hE : E.Exact) (hA : 0 < A) (hH : 0 < H)
    (hW : 0 < W) {op : OpNode} {x boxes scores : String} (hop : op.DecodesCells x image boxes scores A C H W)
    [Γ.Says (.str x) (shaped [1, A * (5 + C), H, W])] [Γ.Says (.str image) (shaped [1, 2])]
    {f : Decoded → Emit Unit}
    (hf : ∀ left top right bottom beyondRight beyondBottom scores, Computes E version ⟨true, listed⟩
      ((left, shaped [1, A * H * W, 1]) :: (top, shaped [1, A * H * W, 1]) ::
        (right, shaped [1, A * H * W, 1]) :: (bottom, shaped [1, A * H * W, 1]) ::
        (beyondRight, shaped [1, A * H * W, 1]) :: (beyondBottom, shaped [1, A * H * W, 1]) ::
        (scores, shaped [1, A, H, W, C]) :: Γ)
      (f ⟨left, top, right, bottom, beyondRight, beyondBottom, scores, .ints [1, (H * W * A : Int), C]⟩) Δ) :
    Computes E version ⟨true, markedNames boxes cellMarks ++ listed⟩ Γ (decodeCells op >>= f) Δ := by
  obtain ⟨anchors, hanchors, hlen⟩ := hop.anchors
  obtain ⟨r, hr⟩ := hop.ratio
  have hname : op.outputAt "Boxes" 0 = .ok (.str boxes) := by
    simp only [OpNode.outputAt, OpNode.output, hop.boxes]
    rfl
  have hfirst : op.firstInput "X" = .ok (.str x) := by
    rw [OpNode.firstInput, OpNode.input, hop.input]
    rfl
  have himage : op.input "ImgSize" = .list [.str image] := by
    rw [OpNode.input, hop.image]
    rfl
  unfold decodeCells Emit.constant
  simp only [bind_assoc, hanchors, hr, hop.classes, himage]
  refine .computed hname (.computed hop.shape ?_)
  refine .granted (requireStatic_natural _) ?_
  refine .computed rfl (.computed rfl (.computed rfl ?_))
  refine .computed rfl (.computed rfl (.computed rfl (.computed rfl ?_)))
  refine .computed rfl ?_
  have hcount : anchors.length / 2 = A := by omega
  have hperm : [0, 1, 3, 4, 2].Perm (List.range 5) := by decide
  rw [hcount]
  refine .node rfl rfl (acts_constant_ints hE [1, (A : Int), 5 + C, H, W]) fun cells => ?_
  refine .computed hfirst ?_
  have hpos : ∀ n ∈ [1, A, 5 + C, H, W], 0 < n := fun n hn => by
    simp only [mem_cons, not_mem_nil, or_false] at hn
    omega
  refine .node rfl rfl (acts_reshape [1, A, 5 + C, H, W] hpos (by simp [Nat.mul_assoc]) (by simp)) fun reshaped => ?_
  refine .node rfl rfl (acts_transpose [0, 1, 3, 4, 2] (by exact hperm)) fun moved => ?_
  refine computes_cellGrid hE hH hW fun gridX gridY => ?_
  refine .computed rfl (.computed rfl (.computed rfl (.computed rfl (.computed rfl (.computed rfl ?_)))))
  refine .nodeTo [(.str (boxes ++ "@box_x"), shaped [1, A, H, W, 1]),
      (.str (boxes ++ "@box_y"), shaped [1, A, H, W, 1]), (.str (boxes ++ "@box_w"), shaped [1, A, H, W, 1]),
      (.str (boxes ++ "@box_h"), shaped [1, A, H, W, 1]), (.str (boxes ++ "@conf"), shaped [1, A, H, W, 1]),
      (.str (boxes ++ "@prob"), shaped [1, A, H, W, C])]
    (markedNames boxes ["@anchor_w", "@anchor_h"] ++ (markedNames boxes imageMarks ++ listed)) rfl
    (cons_ne_nil _ _) (acts_split_listed hversion 4 [1, 1, 1, 1, 1, C] (by simp [← Nat.add_assoc])) ?_
  refine computes_cellCenters hversion hop.scale fun x y => ?_
  refine computes_anchoredExtents hversion hE hA hlen _ fun w h => ?_
  refine computes_sureConfidences hE hA hH hW (by simp [repeated_length]) fun confidence zeros => ?_
  refine computes_cellBoxes hE hA hH hW fun boxes scores => ?_
  refine computes_imageCorners hversion fun left top right bottom beyondRight beyondBottom => ?_
  exact (hf left top right bottom beyondRight beyondBottom scores).mono

theorem computes_yoloBox (hversion : version < listInputFrom) {asConstants : Bool}
    (has : asConstants = true ↔ 11 ≤ version) (hE : E.Exact) (hA : 0 < A) (hC : 0 < C) (hH : 0 < H) (hW : 0 < W)
    {op : OpNode} {x boxes scores : String} (hop : op.DecodesCells x image boxes scores A C H W) :
    Computes E version ⟨true, markedNames boxes cellMarks ++ [.str boxes, .str scores]⟩
      [(.str x, shaped [1, A * (5 + C), H, W]), (.str image, shaped [1, 2])] (yoloBox asConstants op)
      [(.str boxes, shaped [1, A * H * W, 4]), (.str scores, shaped [1, A * H * W, C])] := by
  have hboxes : op.output "Boxes" = .ok (.list [.str boxes]) := by simp only [OpNode.output, hop.boxes]; rfl
  have hscores : op.output "Scores" = .ok (.list [.str scores]) := by simp only [OpNode.output, hop.scores]; rfl
  unfold yoloBox Emit.constant
  refine computes_decodeCells hversion hE hA hH hW hop
    fun left top right bottom beyondRight beyondBottom unshaped => ?_
  refine computes_cornerBound has fun new bounds attrs Ps hbounds hclip => ?_
  refine .node rfl rfl (hclip _) fun left => ?_
  refine .node rfl rfl (hclip _) fun top => ?_
  refine .node rfl rfl (hclip _) fun overRight => ?_
  refine .node rfl rfl (hclip _) fun overBottom => ?_
  refine .node rfl rfl acts_both fun right => ?_
  refine .node rfl rfl acts_both fun bottom => ?_
  refine .computed hboxes ?_
  refine .nodeTo [(.str boxes, shaped [1, A * H * W, 4])] [.str scores] rfl (cons_ne_nil _ _)
    (acts_concat 2 4 (by decide) rfl) ?_
  refine .node rfl rfl (acts_constant_ints hE _) fun scoreShape => ?_
  refine .computed hscores (.last ?_)
  refine .nodeTo [(.str scores, shaped [1, A * H * W, C])] [] rfl (cons_ne_nil _ _)
    (acts_reshape [1, A * H * W, C] (by simp [hA, hC, hH, hW]) (by simp [Nat.mul_assoc]) ?_) ?_
  · rw [Nat.mul_assoc, Nat.mul_comm A (H * W)]
    rfl
  exact .done

theorem ruleFor_yolo_box {version : Int} (h : 9 ≤ version) :
    Registry.standard.ruleFor "yolo_box" version = .ok (yoloBox (decide (11 ≤ version))) := by
  have hrules : Registry.standard.rulesOf (.str "yolo_box") = some [(9, yoloBox false), (11, yoloBox true)] := rfl
  by_cases hlate : 11 ≤ version
  · rw [decide_eq_true hlate]
    exact Registry.ruleFor_of_latest hrules rfl hlate (by simp)
  · rw [decide_eq_false hlate]
    exact Registry.ruleFor_of_latest hrules rfl h (by simp; omega)

theorem endsPlainly_cellMarks : ∀ m ∈ cellMarks, endsPlainly m = true := by decide

/-- A detector with a single cell, anchor and class. -/
def OpNode.singleCell : OpNode :=
  { name := "yolo_box_0", type := "yolo_box", inputs := [("X", .strs ["x"]), ("ImgSize", .strs ["size"])]
    outputs := [("Boxes", .strs ["boxes"]), ("Scores", .strs ["scores"])]
    attrs := [("class_num", .int 1), ("anchors", .ints [10, 13]), ("downsample_ratio", .int 32),
      ("conf_thresh", .float 0.5)]
    block := some { vars := [{ name := "x", shape := [1, 6, 1, 1] }], ops := [] } }

theorem OpNode.decodesCells_singleCell : singleCell.DecodesCells "x" "size" "boxes" "scores" 1 1 1 1 :=
  { type := rfl, input := rfl, image := rfl, boxes := rfl, scores := rfl, shape := rfl, classes := rfl
    anchors := ⟨_, rfl, rfl⟩, ratio := ⟨32, rfl⟩, scale := Or.inl rfl }

end ModelExport
