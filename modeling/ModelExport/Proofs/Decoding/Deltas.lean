import Mathlib.Algebra.Field.Basic
import Mathlib.Algebra.Field.Rat
import Mathlib.Tactic.NormNum
import ModelExport.Proofs.Tensors.Steps

/-!
# Proofs/Decoding/Deltas — boxes from deltas against prior boxes

    prior box   ->   extents and centre   \
    deltas * variances   ------------------>   centre and extents   ->   corners

Each pair of a target and a prior box gives a box.  `decodedBox` is the formula for one pair, over any
field and with any function in place of the exponential.  The rule adds some forty nodes that find each
other by name, and `deltas_decoded` says that what they compute is the formula, at every pair and in
every case.
-/

namespace ModelExport

open Emit List Rules

variable {op : OpNode} {M N : Nat} {base out target : String} {f : BoxNames → Emit Unit}
  {one : Value} {axis : Int}

/-! ## Tensors over pairs of a target and a prior box -/

section Pairs

variable {K : Type*} {E : Elements K} {version : Int} {N M : Nat}

abbrev overPairs (N M : Nat) (f : Nat → Nat → K) : Tensor K → Prop :=
  Tensor.Fills [N, M] fun i => f (i.getD 0 0) (i.getD 1 0)

/-- A tensor that has an element for each pair when it is spread. -/
abbrev spreadOverPairs (N M : Nat) (f : Nat → Nat → K) : Tensor K → Prop :=
  Tensor.Spreads [N, M] fun i => f (i.getD 0 0) (i.getD 1 0)

abbrev column (R : Nat) (f : Nat → K) : Tensor K → Prop := Tensor.Fills [R, 1] fun i => f (i.getD 0 0)

abbrev layer (N M : Nat) (f : Nat → Nat → K) : Tensor K → Prop :=
  Tensor.Fills [N, M, 1] fun i => f (i.getD 0 0) (i.getD 1 0)

theorem spreads_of_column {f : Nat → K} (t : Tensor K) (h : column N f t) :
    spreadOverPairs N M (fun a _ => f a) t := by
  obtain ⟨hshape, hentry⟩ := h
  refine ⟨hshape ▸ Tensor.fits_append [] (.cons (Or.inr rfl) (.cons (Or.inl rfl) .nil)), fun i hi => ?_⟩
  obtain ⟨a, b, rfl, ha, -⟩ := within_two hi
  have hspread : Tensor.spread [N, 1] [a, b] = [a, 0] := by
    simp [Tensor.spread]
    omega
  rw [hshape, hspread, hentry _ (.cons ha (.cons Nat.zero_lt_one .nil))]
  rfl

theorem spreads_of_row {f : Nat → K} {t : Tensor K} (hshape : t.shape = [1, M])
    (hentry : ∀ b < M, t.entry [0, b] = f b) : spreadOverPairs N M (fun _ b => f b) t := by
  refine ⟨hshape ▸ Tensor.fits_append [] (.cons (Or.inl rfl) (.cons (Or.inr rfl) .nil)), fun i hi => ?_⟩
  obtain ⟨a, b, rfl, -, hb⟩ := within_two hi
  have hspread : Tensor.spread [1, M] [a, b] = [0, b] := by
    simp [Tensor.spread]
    omega
  rw [hshape, hspread, hentry b hb]
  rfl

theorem acts_transposed_column {f : Nat → K} :
    Acts E version "Transpose" [] [column M f] [spreadOverPairs N M fun _ b => f b] := by
  refine .of_one (by decide) (Or.inr (forall_mem_nil _)) fun t ⟨hshape, hentry⟩ => ?_
  obtain ⟨z, hz, hzshape, hzentry⟩ := resultOf_transposed hshape
  refine ⟨z, hz, spreads_of_row hzshape fun b hb => ?_⟩
  rw [hzentry, hentry _ (.cons hb (.cons Nat.zero_lt_one .nil))]
  rfl

theorem acts_squeeze_layer (hversion : version < listInputFrom) {g : Nat → Nat → K} :
    Acts E version "Squeeze" [("axes", .ints [2])] [layer N M g] [overPairs N M g] := by
  refine .of_one (by decide) (Or.inr (by simp [Node.reserved])) fun t ⟨hshape, hentry⟩ => ?_
  have hone : t.shape[2]? = some 1 := by rw [hshape]; rfl
  refine ⟨_, resultOf_squeeze hversion hone, by rw [hshape]; rfl, fun i hi => ?_⟩
  obtain ⟨a, b, rfl, ha, hb⟩ := within_two hi
  exact hentry [a, b, 0] (.cons ha (.cons hb (.cons Nat.zero_lt_one .nil)))

theorem acts_unsqueeze_pairs (hversion : version < listInputFrom) {g : Nat → Nat → K} :
    Acts E version "Unsqueeze" [("axes", .ints [2])] [overPairs N M g] [layer N M g] := by
  refine .of_one (by decide) (Or.inr (by simp [Node.reserved])) fun t ⟨hshape, hentry⟩ => ?_
  have hlast : 2 ≤ t.shape.length := by rw [hshape]; rfl
  refine ⟨_, resultOf_unsqueeze hversion hlast, by rw [hshape]; rfl, fun i hi => ?_⟩
  obtain ⟨a, b, c, rfl, ha, hb, -⟩ := within_three hi
  exact hentry [a, b] (.cons ha (.cons hb .nil))

theorem acts_concat_layers (c : Nat → Nat → Nat → K) :
    Acts E version "Concat" [("axis", .int 2)]
      [layer N M fun a b => c a b 0, layer N M fun a b => c a b 1, layer N M fun a b => c a b 2,
        layer N M fun a b => c a b 3]
      [Tensor.Fills [N, M, 4] fun i => c (i.getD 0 0) (i.getD 1 0) (i.getD 2 0)] where
  recordable := Or.inr (by simp [Node.reserved])
  gives
    | [t₀, t₁, t₂, t₃], .cons h₀ (.cons h₁ (.cons h₂ (.cons h₃ .nil))) => by
      have hshapes : ∀ t ∈ [t₀, t₁, t₂, t₃], t.shape = [N, M, 1] := by simp [h₀.1, h₁.1, h₂.1, h₃.1]
      have hentries : ∀ (k : Nat) (hk : k < 4) (a b : Nat), a < N → b < M →
          [t₀, t₁, t₂, t₃][k].entry [a, b, 0] = c a b k := fun k hk a b ha hb => by
        have hin : List.Forall₂ (· < ·) [a, b, 0] [N, M, 1] :=
          .cons ha (.cons hb (.cons Nat.zero_lt_one .nil))
        obtain rfl | rfl | rfl | rfl : k = 0 ∨ k = 1 ∨ k = 2 ∨ k = 3 := by omega
        · exact h₀.2 _ hin
        · exact h₁.2 _ hin
        · exact h₂.2 _ hin
        · exact h₃.2 _ hin
      have hone : [N, M, 1][2]? = some 1 := rfl
      obtain ⟨z, hz, hshape, hentry⟩ := operation_concat (cons_ne_nil _ _) hshapes hone (a := 2) rfl
      refine ⟨[z], hz, .cons ⟨hshape, fun i hi => ?_⟩ .nil⟩
      obtain ⟨a, b, k, rfl, ha, hb, hk⟩ := within_three hi
      exact (hentry [a, b, k] k hk rfl).trans (hentries k hk a b ha hb)

/-- Variances in four parts, each of which has an element for each pair when it is spread. -/
def variancing (N M : Nat) (v : Nat → Nat → Nat → K) (t : Tensor K) : Prop :=
  t.shape.head? = some 4 ∧ ∀ k < 4, spreadOverPairs N M (fun a b => v a b k) (t.part 0 k 1)

end Pairs

/-! ## The formula -/

section Formula

variable {K : Type*} [Field K] (exp : K → K) (u : K) (p v t : Nat → K)

def priorWidth : K := p 2 - p 0 + u

def priorHeight : K := p 3 - p 1 + u

def priorX : K := p 0 + priorWidth u p / 2

def priorY : K := p 1 + priorHeight u p / 2

def decodedX : K := v 0 * t 0 * priorWidth u p + priorX u p

def decodedY : K := v 1 * t 1 * priorHeight u p + priorY u p

def decodedWidth : K := exp (v 2 * t 2) * priorWidth u p

def decodedHeight : K := exp (v 3 * t 3) * priorHeight u p

/-- **The box that deltas `t` describe** against a prior box `p`, with variances `v`: its near and its far
corner.  A box that counts whole pixels is wider than its corners are apart, by `u`. -/
def decodedBox : Nat → K
  | 0 => decodedX u p v t - decodedWidth exp u p v t / 2
  | 1 => decodedY u p v t - decodedHeight exp u p v t / 2
  | 2 => decodedX u p v t + decodedWidth exp u p v t / 2 - u
  | _ => decodedY u p v t + decodedHeight exp u p v t / 2 - u

end Formula

variable {K : Type*} [Field K] {E : Elements K} {version : Int} {exp : K → K} {made : Bool}
  {listed : List Value} {Γ Δ : Facts K}

/-- **Elements of a field**, with some function for the exponential. -/
structure Elements.InField (E : Elements K) (exp : K → K) : Prop where
  add : ∀ a b, E.apply "Add" [] [a, b] = a + b
  sub : ∀ a b, E.apply "Sub" [] [a, b] = a - b
  mul : ∀ a b, E.apply "Mul" [] [a, b] = a * b
  div : ∀ a b, E.apply "Div" [] [a, b] = a / b
  exp : ∀ a, E.apply "Exp" [] [a] = exp a
  one : E.literal (.int ElementType.FLOAT) (.int 1) = 1
  two : E.literal (.int ElementType.FLOAT) (.int 2) = 2
  half : E.literal (.int ElementType.FLOAT) (.float 0.5) = 1 / 2
  unit : E.literal (.int ElementType.FLOAT) (.float 1.0) = 1

/-! ## Parts of the rule -/

omit [Field K] in
theorem Leads.pair {type : String} {attrs : Attrs} (Q Q' : Tensor K → Prop) {v v' : Value}
    {rest ins ins' : List Value} {Ps Ps' : List (Tensor K → Prop)} {f : Unit → Emit Unit}
    [Γ.SayAll ins Ps] [Γ.SayAll ins' Ps'] (hacts : Acts E version type attrs Ps [Q])
    (hacts' : Acts E version type attrs Ps' [Q'])
    (h : Computes E version ⟨made, rest⟩ ((v', Q') :: (v, Q) :: Γ) (f ()) Δ)
    (hin : givenInputs (.list ins) = .list ins := by rfl)
    (hin' : givenInputs (.list ins') = .list ins' := by rfl) :
    Computes E version ⟨made, v :: v' :: rest⟩ Γ (eachTo type attrs [(ins, v), (ins', v')] >>= f) Δ := by
  simp only [eachTo, bind_assoc, pure_bind]
  exact .toOne Q hin hacts (.toOne Q' hin' hacts' h)

theorem computes_priorExtents (hE : E.InField exp) {prior : String} {R : Nat}
    (hprior : op.input "PriorBox" = .list [.str prior]) (normalized : Bool) (p : Nat → Nat → K)
    [Γ.Says (.str prior) (Tensor.Fills [R, 4] fun i => p (i.getD 0 0) (i.getD 1 0))]
    [Γ.Says one (Tensor.Fills [] fun _ => 1)] {u : K} (hu : u = if normalized then 0 else 1)
    (h : Computes E version ⟨made, listed⟩
      ((.str (base ++ "@pb_w"), column R fun r => priorWidth u (p r)) ::
        (.str (base ++ "@pb_h"), column R fun r => priorHeight u (p r)) ::
        (.str (base ++ "@pb_x"), column R fun r => priorX u (p r)) ::
        (.str (base ++ "@pb_y"), column R fun r => priorY u (p r)) :: Γ)
      (f ⟨.str (base ++ "@pb_w"), .str (base ++ "@pb_h"), .str (base ++ "@pb_x"), .str (base ++ "@pb_y")⟩) Δ) :
    Computes E version ⟨made, markedNames base priorMarks ++ listed⟩ Γ
      (priorExtents op (.str base) one normalized >>= f) Δ := by
  unfold priorExtents scalarTo
  simp only [bind_assoc, pure_bind, hprior]
  refine .computed rfl (.computed rfl (.computed rfl (.computed rfl ?_)))
  refine .nodeTo [(.str (base ++ "@x1"), column R fun r => p r 0), (.str (base ++ "@y1"), column R fun r => p r 1),
      (.str (base ++ "@x2"), column R fun r => p r 2), (.str (base ++ "@y2"), column R fun r => p r 3)]
    (markedNames base ["@centor_w_tmp", "@centor_h_tmp"] ++ (markedNames base ["@pb_w", "@pb_h", "@half_value",
      "@pb_w_half", "@pb_h_half", "@pb_x", "@pb_y"] ++ listed)) rfl (cons_ne_nil _ _)
    (acts_split_four 1 (fun k => column R fun r => p r k) ?_ ?_) ?_
  · rintro t ⟨hshape, -⟩
    simp [hshape, place?]
  · rintro t ⟨hshape, hentry⟩ k hk
    refine ⟨by rw [Tensor.part, hshape]; rfl, fun i hi => ?_⟩
    obtain ⟨a, b, rfl, ha, hb⟩ := within_two hi
    obtain rfl : b = 0 := Nat.lt_one_iff.1 hb
    simpa [Tensor.part] using hentry [a, k] (.cons ha (.cons hk .nil))
  -- both ways the far corner is known with the extra pixel on it
  cases normalized
  case' false =>
    simp only [Bool.false_eq_true, if_false, bind_assoc, pure_bind]
    refine .computed rfl (.computed rfl ?_)
    refine .pair (column R fun r => p r 2 + u) (column R fun r => p r 3 + u)
      (acts_fills_right hE.add (fun _ h => h.spreads_of_nil _) fun _ _ => by rw [hu]; exact add_comm _ _)
      (acts_fills_right hE.add (fun _ h => h.spreads_of_nil _) fun _ _ => by rw [hu]; exact add_comm _ _) ?_
  case' true =>
    simp only [if_true, bind_assoc, pure_bind]
    refine .skip _ ?_
    refine .also (v := .str (base ++ "@x2")) (Q := column R fun r => p r 2 + u)
      (fun _ h => h.congr fun _ _ => by rw [hu]; exact (add_zero _).symm) ?_
    refine .also (v := .str (base ++ "@y2")) (Q := column R fun r => p r 3 + u)
      (fun _ h => h.congr fun _ _ => by rw [hu]; exact (add_zero _).symm) ?_
  all_goals
    refine .computed rfl (.computed rfl ?_)
    refine .pair (column R fun r => priorWidth u (p r)) (column R fun r => priorHeight u (p r))
      (acts_fills_left hE.sub (fun _ => Tensor.Fills.spreads) fun _ _ => add_sub_right_comm _ _ _)
      (acts_fills_left hE.sub (fun _ => Tensor.Fills.spreads) fun _ _ => add_sub_right_comm _ _ _) ?_
    refine .computed rfl ?_
    refine .toOne (Tensor.Fills [] fun _ => 1 / 2) rfl (acts_fills_scalar hE.half) ?_
    refine .computed rfl (.computed rfl ?_)
    refine .pair (column R fun r => priorWidth u (p r) / 2) (column R fun r => priorHeight u (p r) / 2)
      (acts_fills_left hE.mul (fun _ h => h.spreads_of_nil _) fun _ _ => mul_one_div _ _)
      (acts_fills_left hE.mul (fun _ h => h.spreads_of_nil _) fun _ _ => mul_one_div _ _) ?_
    refine .computed rfl (.computed rfl ?_)
    refine .pair (column R fun r => priorX u (p r)) (column R fun r => priorY u (p r))
      (acts_fills_left hE.add (fun _ => Tensor.Fills.spreads) fun _ _ => add_comm _ _)
      (acts_fills_left hE.add (fun _ => Tensor.Fills.spreads) fun _ _ => add_comm _ _) ?_
    exact h.mono

omit [Field K] in
theorem computes_transposed (N : Nat) {b : BoxNames} {w h x y : Nat → K} [Γ.Says b.width (column M w)]
    [Γ.Says b.height (column M h)] [Γ.Says b.x (column M x)] [Γ.Says b.y (column M y)]
    (hf : Computes E version ⟨made, listed⟩
      ((.str (base ++ "@pb_w_transpose"), spreadOverPairs N M fun _ b => w b) ::
        (.str (base ++ "@pb_h_transpose"), spreadOverPairs N M fun _ b => h b) ::
        (.str (base ++ "@pb_x_transpose"), spreadOverPairs N M fun _ b => x b) ::
        (.str (base ++ "@pb_y_transpose"), spreadOverPairs N M fun _ b => y b) :: Γ)
      (f ⟨.str (base ++ "@pb_w_transpose"), .str (base ++ "@pb_h_transpose"), .str (base ++ "@pb_x_transpose"),
        .str (base ++ "@pb_y_transpose")⟩) Δ) :
    Computes E version ⟨made, markedNames base transposedMarks ++ listed⟩ Γ (transposed (.str base) b >>= f) Δ := by
  unfold transposed
  simp only [eachTo, bind_assoc, pure_bind]
  refine .computed rfl (.computed rfl (.computed rfl (.computed rfl ?_)))
  refine .toOne (spreadOverPairs N M fun _ b => w b) rfl acts_transposed_column ?_
  refine .toOne (spreadOverPairs N M fun _ b => h b) rfl acts_transposed_column ?_
  refine .toOne (spreadOverPairs N M fun _ b => x b) rfl acts_transposed_column ?_
  refine .toOne (spreadOverPairs N M fun _ b => y b) rfl acts_transposed_column ?_
  exact hf.mono

abbrev partName (base mark : String) (k : Nat) : Value := .str (base ++ (mark ++ toString k))

theorem fourNames_str (base mark : String) : fourNames (.str base) mark =
    .ok [partName base mark 0, partName base mark 1, partName base mark 2, partName base mark 3] := rfl

theorem computes_scaledDeltas (hE : E.InField exp) (hversion : version < listInputFrom) {variances : Value}
    (htarget : op.input "TargetBox" = .list [.str target]) {v t : Nat → Nat → Nat → K}
    [Γ.Says (.str target) (Tensor.Fills [N, M, 4] fun i => t (i.getD 0 0) (i.getD 1 0) (i.getD 2 0))]
    [Γ.Says variances (variancing N M v)] (h : Computes E version ⟨made, listed⟩
      ((.str (base ++ "@decode_w_step1"), overPairs N M fun a b => v a b 2 * t a b 2) ::
        (.str (base ++ "@decode_h_step1"), overPairs N M fun a b => v a b 3 * t a b 3) ::
        (.str (base ++ "@decode_x_step1"), overPairs N M fun a b => v a b 0 * t a b 0) ::
        (.str (base ++ "@decode_y_step1"), overPairs N M fun a b => v a b 1 * t a b 1) :: Γ)
      (f ⟨.str (base ++ "@decode_w_step1"), .str (base ++ "@decode_h_step1"), .str (base ++ "@decode_x_step1"),
        .str (base ++ "@decode_y_step1")⟩) Δ) :
    Computes E version ⟨made, markedNames base deltaMarks ++ listed⟩ Γ
      (scaledDeltas op (.str base) variances >>= f) Δ := by
  unfold scaledDeltas
  simp only [bind_assoc, pure_bind, htarget]
  refine .computed (fourNames_str _ _) (.computed (fourNames_str _ _) ?_)
  refine .nodeTo [(partName base "@variance_split" 0, spreadOverPairs N M fun a b => v a b 0),
      (partName base "@variance_split" 1, spreadOverPairs N M fun a b => v a b 1),
      (partName base "@variance_split" 2, spreadOverPairs N M fun a b => v a b 2),
      (partName base "@variance_split" 3, spreadOverPairs N M fun a b => v a b 3)]
    (markedNames base (fourMarks "@targebox_split" ++ fourMarks "@targebox_squeeze" ++
      ["@decode_x_step1", "@decode_y_step1", "@decode_w_step1", "@decode_h_step1"]) ++ listed)
    rfl (cons_ne_nil _ _)
    (acts_split_four 0 (fun k => spreadOverPairs N M fun a b => v a b k) ?_ fun t ht => ht.2) ?_
  · rintro t ⟨hfour, -⟩
    obtain ⟨rest, hshape⟩ := head?_eq_some_iff.1 hfour
    simp [hshape, place?]
  refine .nodeTo [(partName base "@targebox_split" 0, layer N M fun a b => t a b 0),
      (partName base "@targebox_split" 1, layer N M fun a b => t a b 1),
      (partName base "@targebox_split" 2, layer N M fun a b => t a b 2),
      (partName base "@targebox_split" 3, layer N M fun a b => t a b 3)]
    (markedNames base (fourMarks "@targebox_squeeze" ++
      ["@decode_x_step1", "@decode_y_step1", "@decode_w_step1", "@decode_h_step1"]) ++ listed)
    rfl (cons_ne_nil _ _) (acts_split_four 2 (fun k => layer N M fun a b => t a b k) ?_ ?_) ?_
  · rintro t ⟨hshape, -⟩
    simp [hshape, place?]
  · rintro t ⟨hshape, hentry⟩ k hk
    refine ⟨by rw [Tensor.part, hshape]; rfl, fun i hi => ?_⟩
    obtain ⟨a, b, c, rfl, ha, hb, hc⟩ := within_three hi
    obtain rfl : c = 0 := Nat.lt_one_iff.1 hc
    simpa [Tensor.part] using hentry [a, b, k] (.cons ha (.cons hb (.cons hk .nil)))
  refine .computed (fourNames_str _ _) ?_
  simp only [map_cons, map_nil, zip_cons_cons, zip_nil_right, zipWith_cons_cons,
    zipWith_nil_right, eachTo, bind_assoc, pure_bind]
  refine .toOne (overPairs N M fun a b => t a b 0) rfl (acts_squeeze_layer hversion) ?_
  refine .toOne (overPairs N M fun a b => t a b 1) rfl (acts_squeeze_layer hversion) ?_
  refine .toOne (overPairs N M fun a b => t a b 2) rfl (acts_squeeze_layer hversion) ?_
  refine .toOne (overPairs N M fun a b => t a b 3) rfl (acts_squeeze_layer hversion) ?_
  refine .computed rfl (.computed rfl (.computed rfl (.computed rfl ?_)))
  refine .toOne (overPairs N M fun a b => v a b 0 * t a b 0) rfl
    (acts_fills_left hE.mul (fun _ h => h) fun _ _ => mul_comm _ _) ?_
  refine .toOne (overPairs N M fun a b => v a b 1 * t a b 1) rfl
    (acts_fills_left hE.mul (fun _ h => h) fun _ _ => mul_comm _ _) ?_
  refine .toOne (overPairs N M fun a b => v a b 2 * t a b 2) rfl
    (acts_fills_left hE.mul (fun _ h => h) fun _ _ => mul_comm _ _) ?_
  refine .toOne (overPairs N M fun a b => v a b 3 * t a b 3) rfl
    (acts_fills_left hE.mul (fun _ h => h) fun _ _ => mul_comm _ _) ?_
  exact h.mono

theorem computes_decodedExtents (hE : E.InField exp) {two : Value} {delta prior : BoxNames} {u : K}
    {p v t : Nat → Nat → Nat → K} [Γ.Says two (Tensor.Fills [] fun _ => 2)]
    [Γ.Says delta.width (overPairs N M fun a b => v a b 2 * t a b 2)]
    [Γ.Says delta.height (overPairs N M fun a b => v a b 3 * t a b 3)]
    [Γ.Says delta.x (overPairs N M fun a b => v a b 0 * t a b 0)]
    [Γ.Says delta.y (overPairs N M fun a b => v a b 1 * t a b 1)]
    [Γ.Says prior.width (spreadOverPairs N M fun a b => priorWidth u (p a b))]
    [Γ.Says prior.height (spreadOverPairs N M fun a b => priorHeight u (p a b))]
    [Γ.Says prior.x (spreadOverPairs N M fun a b => priorX u (p a b))]
    [Γ.Says prior.y (spreadOverPairs N M fun a b => priorY u (p a b))] (h : Computes E version ⟨made, listed⟩
      ((.str (base ++ "@decode_half_w_step4"),
          overPairs N M fun a b => decodedWidth exp u (p a b) (v a b) (t a b) / 2) ::
        (.str (base ++ "@decode_half_h_step4"),
          overPairs N M fun a b => decodedHeight exp u (p a b) (v a b) (t a b) / 2) ::
        (.str (base ++ "@decode_x_step3"), overPairs N M fun a b => decodedX u (p a b) (v a b) (t a b)) ::
        (.str (base ++ "@decode_y_step3"), overPairs N M fun a b => decodedY u (p a b) (v a b) (t a b)) :: Γ)
      (f ⟨.str (base ++ "@decode_half_w_step4"), .str (base ++ "@decode_half_h_step4"),
        .str (base ++ "@decode_x_step3"), .str (base ++ "@decode_y_step3")⟩) Δ) :
    Computes E version ⟨made, markedNames base decodedMarks ++ listed⟩ Γ
      (decodedExtents (.str base) two delta prior >>= f) Δ := by
  unfold decodedExtents
  simp only [bind_assoc, pure_bind]
  refine .computed rfl (.computed rfl ?_)
  refine .pair (overPairs N M fun a b => v a b 0 * t a b 0 * priorWidth u (p a b))
    (overPairs N M fun a b => v a b 1 * t a b 1 * priorHeight u (p a b))
    (acts_fills_left hE.mul (fun _ h => h) fun _ _ => rfl) (acts_fills_left hE.mul (fun _ h => h) fun _ _ => rfl) ?_
  refine .computed rfl (.computed rfl ?_)
  refine .pair (overPairs N M fun a b => decodedX u (p a b) (v a b) (t a b))
    (overPairs N M fun a b => decodedY u (p a b) (v a b) (t a b))
    (acts_fills_left hE.add (fun _ h => h) fun _ _ => rfl) (acts_fills_left hE.add (fun _ h => h) fun _ _ => rfl) ?_
  refine .computed rfl (.computed rfl ?_)
  refine .pair (overPairs N M fun a b => exp (v a b 2 * t a b 2)) (overPairs N M fun a b => exp (v a b 3 * t a b 3))
    (acts_fills_one hE.exp fun _ _ => rfl) (acts_fills_one hE.exp fun _ _ => rfl) ?_
  refine .computed rfl (.computed rfl ?_)
  refine .pair (overPairs N M fun a b => decodedWidth exp u (p a b) (v a b) (t a b))
    (overPairs N M fun a b => decodedHeight exp u (p a b) (v a b) (t a b))
    (acts_fills_left hE.mul (fun _ h => h) fun _ _ => rfl) (acts_fills_left hE.mul (fun _ h => h) fun _ _ => rfl) ?_
  refine .computed rfl (.computed rfl ?_)
  refine .pair (overPairs N M fun a b => decodedWidth exp u (p a b) (v a b) (t a b) / 2)
    (overPairs N M fun a b => decodedHeight exp u (p a b) (v a b) (t a b) / 2)
    (acts_fills_left hE.div (fun _ h => h.spreads_of_nil _) fun _ _ => rfl)
    (acts_fills_left hE.div (fun _ h => h.spreads_of_nil _) fun _ _ => rfl) ?_
  exact h.mono

theorem computes_cornersTo (hE : E.InField exp) (hversion : version < listInputFrom) {b : BoxNames}
    (hout : op.output "OutputBox" = .ok (.list [.str out])) (normalized : Bool) {u : K}
    (hu : u = if normalized then 0 else 1) {x y w h : Nat → Nat → K} [Γ.Says one (Tensor.Fills [] fun _ => 1)]
    [Γ.Says b.width (overPairs N M w)] [Γ.Says b.height (overPairs N M h)] [Γ.Says b.x (overPairs N M x)]
    [Γ.Says b.y (overPairs N M y)] (c : Nat → Nat → Nat → K) (hleft : ∀ i j, x i j - w i j = c i j 0)
    (htop : ∀ i j, y i j - h i j = c i j 1) (hright : ∀ i j, x i j + w i j - u = c i j 2)
    (hbottom : ∀ i j, y i j + h i j - u = c i j 3) :
    Computes E version ⟨made, markedNames base cornerMarks ++ [.str out]⟩ Γ
      (cornersTo op (.str base) one normalized b 2)
      [(.str out, Tensor.Fills [N, M, 4] fun i => c (i.getD 0 0) (i.getD 1 0) (i.getD 2 0))] := by
  unfold cornersTo
  simp only [pure_bind]
  refine .computed rfl (.computed rfl ?_)
  refine .pair (overPairs N M fun i j => c i j 0) (overPairs N M fun i j => c i j 1)
    (acts_fills_left hE.sub (fun _ => Tensor.Fills.spreads) fun _ _ => hleft _ _)
    (acts_fills_left hE.sub (fun _ => Tensor.Fills.spreads) fun _ _ => htop _ _) ?_
  refine .computed rfl (.computed rfl ?_)
  refine .pair (overPairs N M fun i j => x i j + w i j) (overPairs N M fun i j => y i j + h i j)
    (acts_fills_left hE.add (fun _ => Tensor.Fills.spreads) fun _ _ => rfl)
    (acts_fills_left hE.add (fun _ => Tensor.Fills.spreads) fun _ _ => rfl) ?_
  -- both ways the corners are known with the extra pixel taken off
  cases normalized
  case' false =>
    obtain rfl : u = 1 := hu
    simp only [Bool.false_eq_true, if_false]
    refine .computed rfl (.computed rfl ?_)
    refine .pair (overPairs N M fun i j => c i j 2) (overPairs N M fun i j => c i j 3)
      (acts_fills_left hE.sub (fun _ h => h.spreads_of_nil _) fun _ _ => hright _ _)
      (acts_fills_left hE.sub (fun _ h => h.spreads_of_nil _) fun _ _ => hbottom _ _) ?_
  case' true =>
    obtain rfl : u = 0 := hu
    simp only [if_true]
    refine .skip [.str (base ++ "@ouput_unnorm_x2"), .str (base ++ "@ouput_unnorm_y2")] ?_
    refine .also (v := .str (base ++ "@ouput_x2")) (Q := overPairs N M fun i j => c i j 2)
      (fun _ h => h.congr fun _ _ => (sub_zero _).symm.trans (hright _ _)) ?_
    refine .also (v := .str (base ++ "@output_y2")) (Q := overPairs N M fun i j => c i j 3)
      (fun _ h => h.congr fun _ _ => (sub_zero _).symm.trans (hbottom _ _)) ?_
  all_goals
    refine .computed rfl (.computed rfl (.computed rfl (.computed rfl ?_)))
    simp only [zip_cons_cons, zip_nil_right, eachTo, bind_assoc, pure_bind]
    refine .toOne (layer N M fun i j => c i j 0) rfl (acts_unsqueeze_pairs hversion) ?_
    refine .toOne (layer N M fun i j => c i j 1) rfl (acts_unsqueeze_pairs hversion) ?_
    refine .toOne (layer N M fun i j => c i j 2) rfl (acts_unsqueeze_pairs hversion) ?_
    refine .toOne (layer N M fun i j => c i j 3) rfl (acts_unsqueeze_pairs hversion) ?_
    refine .computed hout (.last ?_)
    exact .toOne _ rfl (acts_concat_layers c) .done

theorem computes_decoding (hE : E.InField exp) (hversion : version < listInputFrom) {two variances : Value}
    {prior : BoxNames} (htarget : op.input "TargetBox" = .list [.str target])
    (hout : op.output "OutputBox" = .ok (.list [.str out])) (normalized : Bool) {u : K}
    (hu : u = if normalized then 0 else 1) (p : Nat → Nat → Nat → K) {v t : Nat → Nat → Nat → K}
    [Γ.Says one (Tensor.Fills [] fun _ => 1)] [Γ.Says two (Tensor.Fills [] fun _ => 2)]
    [Γ.Says (.str target) (Tensor.Fills [N, M, 4] fun i => t (i.getD 0 0) (i.getD 1 0) (i.getD 2 0))]
    [Γ.Says variances (variancing N M v)]
    [Γ.Says prior.width (spreadOverPairs N M fun a b => priorWidth u (p a b))]
    [Γ.Says prior.height (spreadOverPairs N M fun a b => priorHeight u (p a b))]
    [Γ.Says prior.x (spreadOverPairs N M fun a b => priorX u (p a b))]
    [Γ.Says prior.y (spreadOverPairs N M fun a b => priorY u (p a b))] :
    Computes E version
      ⟨made, markedNames base deltaMarks ++ (markedNames base decodedMarks ++
        (markedNames base cornerMarks ++ [.str out]))⟩ Γ
      (scaledDeltas op (.str base) variances >>= fun delta =>
        decodedExtents (.str base) two delta prior >>= fun boxes =>
          cornersTo op (.str base) one normalized boxes 2)
      [(.str out, Tensor.Fills [N, M, 4] fun i => decodedBox exp u (p (i.getD 0 0) (i.getD 1 0))
        (v (i.getD 0 0) (i.getD 1 0)) (t (i.getD 0 0) (i.getD 1 0)) (i.getD 2 0))] := by
  refine computes_scaledDeltas hE hversion htarget ?_
  refine computes_decodedExtents hE ?_
  exact computes_cornersTo hE hversion hout normalized hu
    (fun a b => decodedBox exp u (p a b) (v a b) (t a b)) (fun _ _ => rfl) (fun _ _ => rfl) (fun _ _ => rfl)
    (fun _ _ => rfl)

/-! ## Variances -/

/-- Nothing in the slot of variances per prior box. -/
def OpNode.NoPriorVariances (op : OpNode) : Prop :=
  Assoc.get? op.inputs "PriorBoxVar" = none ∨ Assoc.get? op.inputs "PriorBoxVar" = some (.list [])

/-- **The variances of an operator**, by prior box, and the tensor that is read for them: one with four for
each box along the second axis, or four numbers, or ones. -/
inductive OpNode.Varies (op : OpNode) (E : Elements K) (σ : Store (Option (Tensor K))) (M : Nat) :
    Int → List String → (Nat → Nat → K) → Prop
  | tensor {name : String} {V : Tensor K} (slot : Assoc.get? op.inputs "PriorBoxVar" = some (.strs [name]))
      (declared : ∃ x, op.inputVar "PriorBoxVar" 0 = .ok x) (found : σ (.str name) = some V)
      (shape : V.shape = [M, 4]) : Varies op E σ M 0 [name] fun b k => V.entry [b, k]
  | numbers (axis : Int) {xs : List Float} (slot : op.NoPriorVariances)
      (attr : Assoc.get? op.attrs "variance" = some (.list (xs.map .float))) (length : xs.length = 4) :
      Varies op E σ M axis [] fun _ k => E.literal (.int ElementType.FLOAT) (.float (xs.getD k 0))
  | ones (axis : Int) (slot : op.NoPriorVariances)
      (attr : Assoc.get? op.attrs "variance" = none ∨ Assoc.get? op.attrs "variance" = some (.list [])) :
      Varies op E σ M axis [] fun _ _ => 1

theorem hasPriorVariances_of_none (h : op.NoPriorVariances) : hasPriorVariances op = .ok false := by
  rcases h with h | h
  · have hno : op.hasInput "PriorBoxVar" = false := (Assoc.get?_eq_none_iff _ _).1 h
    simp [hasPriorVariances, hno]
  · have hinput : op.input "PriorBoxVar" = .list [] := by rw [OpNode.input, h]; rfl
    simp only [hasPriorVariances, hinput]
    split <;> rfl

theorem givenVariances_numbers {xs : List Float}
    (hattr : Assoc.get? op.attrs "variance" = some (.list (xs.map .float))) (hlen : xs.length = 4) :
    givenVariances op = .ok (xs.map .float) := by
  have hhas : op.hasAttr "variance" = true :=
    Bool.eq_true_of_not_eq_false fun hno => by simp [(Assoc.get?_eq_none_iff _ _).2 hno] at hattr
  have hgiven : op.attr "variance" = .list (xs.map .float) := by rw [OpNode.attr, hattr]; rfl
  obtain ⟨a, b, c, e, rfl⟩ : ∃ a b c e, xs = [a, b, c, e] := by
    rcases xs with _ | ⟨a, _ | ⟨b, _ | ⟨c, _ | ⟨e, _ | ⟨_, _⟩⟩⟩⟩⟩ <;> cases hlen
    exact ⟨a, b, c, e, rfl⟩
  simp only [givenVariances, hhas, hgiven]
  rfl

theorem givenVariances_ones
    (hattr : Assoc.get? op.attrs "variance" = none ∨ Assoc.get? op.attrs "variance" = some (.list [])) :
    givenVariances op = .ok (List.replicate 4 (.float 1.0)) := by
  rcases hattr with hattr | hattr
  · have hno : op.hasAttr "variance" = false := (Assoc.get?_eq_none_iff _ _).1 hattr
    simp only [givenVariances, hno]
    rfl
  · have hgiven : op.attr "variance" = .list [] := by rw [OpNode.attr, hattr]; rfl
    simp only [givenVariances, hgiven]
    split <;> rfl

omit [Field K] in
theorem computes_variancesOf_tensor {name : String}
    (hslot : Assoc.get? op.inputs "PriorBoxVar" = some (.strs [name]))
    (hvar : ∃ x, op.inputVar "PriorBoxVar" 0 = .ok x) {v : Nat → Nat → K}
    [Γ.Says (.str name) (Tensor.Fills [M, 4] fun i => v (i.getD 0 0) (i.getD 1 0))] {f : Value → Emit Unit}
    (h : Computes E version ⟨made, listed⟩
      ((.str (base ++ "@variance_split"), variancing N M fun _ b k => v b k) :: Γ)
      (f (.str (base ++ "@variance_split"))) Δ) :
    Computes E version ⟨made, markedNames base varianceMarks ++ listed⟩ Γ
      (variancesOf op (.str base) 0 >>= f) Δ := by
  obtain ⟨x, hx⟩ := hvar
  have hinput : op.input "PriorBoxVar" = .list [.str name] := by rw [OpNode.input, hslot]; rfl
  have hhas : hasPriorVariances op = .ok true := by
    have hyes : op.hasInput "PriorBoxVar" = true :=
      Bool.eq_true_of_not_eq_false fun hno => by simp [(Assoc.get?_eq_none_iff _ _).2 hno] at hslot
    rw [hasPriorVariances, if_pos hyes, hinput]
    rfl
  unfold variancesOf
  simp only [bind_assoc, hinput]
  refine .computed hhas ?_
  rw [if_pos rfl, if_neg (by decide)]
  simp only [bind_assoc, pure_bind]
  refine .checked hx (.computed rfl ?_)
  refine .toOne (variancing N M fun _ b k => v b k) rfl ?_ (.skip [.str (base ++ "@variance_raw")] h)
  refine .of_one (by decide) (Or.inr (forall_mem_nil _)) fun t ht => ?_
  obtain ⟨hshape, hentry⟩ := ht
  obtain ⟨z, hz, hzshape, hzentry⟩ := resultOf_transposed hshape
  refine ⟨z, hz, by rw [hzshape]; rfl, fun k hk =>
    spreads_of_row (by rw [Tensor.part, hzshape]; rfl) fun b hb => ?_⟩
  have hpart : (z.part 0 k 1).entry [0, b] = z.entry [k, b] := by simp [Tensor.part]
  rw [hpart, hzentry, hentry _ (.cons hb (.cons hk .nil))]
  rfl

omit [Field K] in
theorem computes_variancesOf_numbers (hno : op.NoPriorVariances) {vs : List Value}
    (hgiven : givenVariances op = .ok vs) (hlen : vs.length = 4) {v : Nat → K}
    (hv : ∀ k < 4, E.literal (.int ElementType.FLOAT) (vs.getD k .none) = v k) {f : Value → Emit Unit}
    (h : Computes E version ⟨made, listed⟩ ((.str (base ++ "@variance_raw"), variancing N M fun _ _ k => v k) :: Γ)
      (f (.str (base ++ "@variance_raw"))) Δ) :
    Computes E version ⟨made, markedNames base varianceMarks ++ listed⟩ Γ
      (variancesOf op (.str base) axis >>= f) Δ := by
  unfold variancesOf
  simp only [bind_assoc]
  refine .computed (hasPriorVariances_of_none hno) ?_
  rw [if_neg Bool.false_ne_true]
  simp only [bind_assoc, pure_bind]
  refine .skip [.str (base ++ "@variance_split")] (.computed hgiven (.computed rfl ?_))
  refine .toOne (variancing N M fun _ _ k => v k) rfl ?_ h
  refine .of_none (by decide) (Or.inl rfl) (resultOf_constant [vs.length] vs rfl rfl prod_singleton.symm)
    ⟨congrArg some hlen, fun k hk => ⟨Tensor.fits_append [N] (.cons (Or.inl rfl) .nil), fun i hi => ?_⟩⟩
  obtain ⟨a, b, rfl, -, -⟩ := within_two hi
  refine Eq.trans ?_ (hv k hk)
  simp [Tensor.part, Tensor.spread, Value.rowMajor]
  rfl

/-- **What is known of variances is enough to compute with them**, wherever that is known. -/
theorem OpNode.Varies.computes (hE : E.InField exp) {σ : Store (Option (Tensor K))} {names : List String}
    {v : Nat → Nat → K} (h : op.Varies E σ M axis names v) (N : Nat) (base : String) (version : Int)
    (made : Bool) :
    ∃ Γ₀ : Facts K, (∀ e ∈ Γ₀, ∃ x ∈ names, e.1 = .str x) ∧ (∀ e ∈ Γ₀, ∃ t, σ e.1 = some t ∧ e.2 t) ∧
      ∀ (Γ Δ : Facts K) (listed : List Value) (f : Value → Emit Unit), Γ₀ ⊆ Γ →
        (∀ w, Computes E version ⟨made, listed⟩ ((w, variancing N M fun _ b k => v b k) :: Γ) (f w) Δ) →
          Computes E version ⟨made, markedNames base varianceMarks ++ listed⟩ Γ
            (variancesOf op (.str base) axis >>= f) Δ := by
  cases h with
  | @tensor name V slot declared found shape =>
    refine ⟨[(.str name, Tensor.Fills [M, 4] fun i => V.entry [i.getD 0 0, i.getD 1 0])], by simp, ?_,
      fun Γ Δ listed f hsub hf => ?_⟩
    · simp only [mem_singleton, forall_eq]
      refine ⟨V, found, shape, fun i hi => ?_⟩
      obtain ⟨a, b, rfl, -, -⟩ := within_two hi
      rfl
    · have hsays : Γ.Says (.str name) (Tensor.Fills [M, 4] fun i => V.entry [i.getD 0 0, i.getD 1 0]) :=
        ⟨hsub mem_cons_self⟩
      exact computes_variancesOf_tensor slot declared (hf _)
  | @numbers _ xs slot attr length =>
    refine ⟨[], by simp, by simp, fun Γ Δ listed f _ hf => ?_⟩
    refine computes_variancesOf_numbers slot (givenVariances_numbers attr length) (by simpa using length)
      (fun k hk => ?_) (hf _)
    have hlt : k < xs.length := length ▸ hk
    simp [hlt]
  | ones _ slot attr =>
    refine ⟨[], by simp, by simp, fun Γ Δ listed f _ hf => ?_⟩
    refine computes_variancesOf_numbers slot (givenVariances_ones attr) rfl (fun k hk => ?_) (hf _)
    rw [getD_replicate _ hk]
    exact hE.unit

/-! ## The operator -/

/-- **An operator that decodes deltas** against prior boxes, which lie along an axis of the target. -/
structure OpNode.DecodesDeltas (op : OpNode) (prior target out : String) (axis : Int) (normalized : Bool) :
    Prop where
  type : op.type = "box_coder"
  prior : Assoc.get? op.inputs "PriorBox" = some (.strs [prior])
  target : Assoc.get? op.inputs "TargetBox" = some (.strs [target])
  output : Assoc.get? op.outputs "OutputBox" = some (.strs [out])
  priorShape : ∃ x m n, op.inputVar "PriorBox" 0 = .ok x ∧ x.shape = [m, n]
  targetShape : ∃ l m n, op.inputShape "TargetBox" 0 = .ok [l, m, n]
  axis : op.attr "axis" = .int axis
  normalized : (op.attr "box_normalized").truthy = normalized

theorem computes_boxCoder (hE : E.InField exp) (hversion : version < listInputFrom) {prior : String}
    {normalized : Bool} (hop : op.DecodesDeltas prior target out axis normalized) {u : K}
    (hu : u = if normalized then 0 else 1) {R : Nat} (haxis : axis = 0 ∧ R = M ∨ axis = 1 ∧ R = N)
    {p : Nat → Nat → K} {v t : Nat → Nat → Nat → K}
    [Γ.Says (.str prior) (Tensor.Fills [R, 4] fun i => p (i.getD 0 0) (i.getD 1 0))]
    [Γ.Says (.str target) (Tensor.Fills [N, M, 4] fun i => t (i.getD 0 0) (i.getD 1 0) (i.getD 2 0))]
    (hvariances : ∀ (Γ' Δ : Facts K) (listed : List Value) (f : Value → Emit Unit), Γ ⊆ Γ' →
      (∀ w, Computes E version ⟨made, listed⟩ ((w, variancing N M v) :: Γ') (f w) Δ) →
        Computes E version ⟨made, markedNames out varianceMarks ++ listed⟩ Γ'
          (variancesOf op (.str out) axis >>= f) Δ) :
    Computes E version ⟨made, markedNames out coderMarks ++ [.str out]⟩ Γ (boxCoder op)
      [(.str out, Tensor.Fills [N, M, 4] fun i =>
        decodedBox exp u (p (if axis = 0 then i.getD 1 0 else i.getD 0 0)) (v (i.getD 0 0) (i.getD 1 0))
          (t (i.getD 0 0) (i.getD 1 0)) (i.getD 2 0))] := by
  obtain ⟨x, m, n, hx, hshape⟩ := hop.priorShape
  obtain ⟨l, m', n', hdims⟩ := hop.targetShape
  have hname : op.outputAt "OutputBox" 0 = .ok (.str out) := by
    simp only [OpNode.outputAt, OpNode.output, hop.output]
    rfl
  have hout : op.output "OutputBox" = .ok (.list [.str out]) := by simp only [OpNode.output, hop.output]; rfl
  have hprior : op.input "PriorBox" = .list [.str prior] := by rw [OpNode.input, hop.prior]; rfl
  have htarget : op.input "TargetBox" = .list [.str target] := by rw [OpNode.input, hop.target]; rfl
  have hmarks : markedNames out coderMarks ++ [.str out] = .str (out ++ "@slice_1") :: .str (out ++ "@slice_2") ::
      (markedNames out priorMarks ++ (markedNames out transposedMarks ++ (markedNames out varianceMarks ++
        (markedNames out deltaMarks ++ (markedNames out decodedMarks ++
          (markedNames out cornerMarks ++ [.str out])))))) := rfl
  rw [hmarks]
  unfold boxCoder scalarTo
  simp only [hop.axis, hop.normalized]
  refine .computed hx (.computed hdims (.computed hname (.checked rfl (.computed rfl ?_))))
  refine .computed rfl (.computed rfl ?_)
  refine .toOne (Tensor.Fills [] fun _ => 1) rfl (acts_fills_scalar hE.one) ?_
  refine .toOne (Tensor.Fills [] fun _ => 2) rfl (acts_fills_scalar hE.two) ?_
  refine .checked (by rw [hshape]; rfl) ?_
  refine computes_priorExtents hE hprior normalized p hu ?_
  rcases haxis with ⟨rfl, rfl⟩ | ⟨rfl, rfl⟩
  · simp only [beq_self_eq_true, if_true]
    refine computes_transposed N (hvariances _ _ _ _ (fun e he => by simp [he]) fun w => ?_)
    exact computes_decoding hE hversion htarget hout normalized hu fun _ b => p b
  · simp only [(by decide : ((1 : Int) == 0) = false), Bool.false_eq_true, Int.one_ne_zero, if_false]
    refine .skip (markedNames out transposedMarks) ?_
    refine .also (v := .str (out ++ "@pb_w")) (spreads_of_column (M := M)) ?_
    refine .also (v := .str (out ++ "@pb_h")) (spreads_of_column (M := M)) ?_
    refine .also (v := .str (out ++ "@pb_x")) (spreads_of_column (M := M)) ?_
    refine .also (v := .str (out ++ "@pb_y")) (spreads_of_column (M := M)) ?_
    refine hvariances _ _ _ _ (fun e he => by simp [he]) fun w => ?_
    exact computes_decoding hE hversion htarget hout normalized hu fun a _ => p a

theorem ruleFor_box_coder {version : Int} (h : 7 ≤ version) :
    Registry.standard.ruleFor "box_coder" version = .ok boxCoder := by
  have hrules : Registry.standard.rulesOf (.str "box_coder") = some [(7, boxCoder)] := rfl
  exact Registry.ruleFor_of_latest hrules rfl h (by simp)

/-- **Deltas are decoded by the formula**, for each pair of a target and a prior box: every node can be run,
and the output has the boxes.  From version 13 on the nodes are no longer what the operator set asks for. -/
theorem deltas_decoded (exportType : ExportType) (depth : Nat) (hE : E.InField exp) {op : OpNode}
    {prior target out : String} {axis : Int} {normalized : Bool}
    (hop : op.DecodesDeltas prior target out axis normalized) {d : Draft} (hversion : 7 ≤ d.opset)
    (hbelow : d.opset < 13) {N M R : Nat} (haxis : axis = 0 ∧ R = M ∨ axis = 1 ∧ R = N)
    {σ : Store (Option (Tensor K))} {P T : Tensor K} (hP : σ (.str prior) = some P) (hprior : P.shape = [R, 4])
    (hT : σ (.str target) = some T) (htarget : T.shape = [N, M, 4]) {names : List String} {v : Nat → Nat → K}
    (hvaries : op.Varies E σ M axis names v)
    (hnames : NamesApart out coderMarks (prior :: target :: names) [out]) :
    ∃ d' ns σ' t, Emission (mapUpTo Registry.standard exportType (depth + 1) op) d d' () ns ∧
      runNodes E d.opset ns σ = some σ' ∧ σ' (.str out) = some t ∧ t.shape = [N, M, 4] ∧
      ∀ i < N, ∀ j < M, ∀ k < 4, t.entry [i, j, k] =
        decodedBox exp (if normalized then 0 else 1) (fun k => P.entry [if axis = 0 then j else i, k]) (v j)
          (fun k => T.entry [i, j, k]) k := by
  obtain ⟨Γ₀, hread, hfound, hcomputes⟩ := hvaries.computes hE N out d.opset false
  have hPfills : P.Fills [R, 4] fun i => P.entry [i.getD 0 0, i.getD 1 0] := ⟨hprior, fun i hi => by
    obtain ⟨a, b, rfl, -, -⟩ := within_two hi
    rfl⟩
  have hTfills : T.Fills [N, M, 4] fun i => T.entry [i.getD 0 0, i.getD 1 0, i.getD 2 0] :=
    ⟨htarget, fun i hi => by
      obtain ⟨a, b, c, rfl, -, -, -⟩ := within_three hi
      rfl⟩
  have hknows : Knows ⟨false, markedNames out coderMarks ++ [out].map .str⟩
      ((.str prior, Tensor.Fills [R, 4] fun i => P.entry [i.getD 0 0, i.getD 1 0]) ::
        (.str target, Tensor.Fills [N, M, 4] fun i => T.entry [i.getD 0 0, i.getD 1 0, i.getD 2 0]) :: Γ₀) d σ := by
    refine hnames.knows (by decide) (fun h => absurd h Bool.false_ne_true) ?_ ?_
    · simp only [List.forall_mem_cons]
      refine ⟨⟨prior, by simp⟩, ⟨target, by simp⟩, fun e he => ?_⟩
      obtain ⟨x, hx, hex⟩ := hread e he
      exact ⟨x, List.mem_cons_of_mem _ (List.mem_cons_of_mem _ hx), hex⟩
    · simp only [List.forall_mem_cons]
      exact ⟨⟨P, hP, hPfills⟩, ⟨T, hT, hTfills⟩, hfound⟩
  obtain ⟨d', ns, hem, σ', hrun, hgiven⟩ := computes_boxCoder hE hbelow hop rfl haxis
    (p := fun r k => P.entry [r, k]) (v := fun _ b k => v b k) (t := fun a b k => T.entry [a, b, k])
    (fun Γ Δ listed f hsub hf => hcomputes Γ Δ listed f
      (List.Subset.trans (List.subset_cons_of_subset _ (List.subset_cons_self _ _)) hsub) hf) d σ rfl hknows
  obtain ⟨t, ht, hshape, hentry⟩ := hgiven _ List.mem_cons_self
  refine ⟨d', ns, σ', t, emission_mapUpTo_of_rule ?_ ?_ hem, hrun, ht, hshape, fun i hi j hj k hk => ?_⟩
  · rw [hop.type]
    rfl
  · rw [hop.type, ruleFor_box_coder hversion]
  · exact hentry [i, j, k] (.cons hi (.cons hj (.cons hk .nil)))

/-! ### Rational numbers -/

/-- The rational number that a double is. -/
def Binary.toRat : Binary → ℚ
  | .finite negative m q => (if negative then -1 else 1) * m * 2 ^ q
  | _ => 0

/-- Rational numbers as elements. -/
def Elements.rational (exp : ℚ → ℚ) : Elements ℚ where
  literal
    | _, .int n => n
    | _, .float x => (Binary.ofFloat x).toRat
    | _, _ => 0
  extent n := n
  int? r := if r.den = 1 then some r.num else none
  apply
    | "Add", _, [a, b] => a + b
    | "Sub", _, [a, b] => a - b
    | "Mul", _, [a, b] => a * b
    | "Div", _, [a, b] => a / b
    | "Exp", _, [a] => exp a
    | _, _, _ => 0

theorem Elements.inField_rational (exp : ℚ → ℚ) : (rational exp).InField exp where
  add _ _ := rfl
  sub _ _ := rfl
  mul _ _ := rfl
  div _ _ := rfl
  exp _ := rfl
  one := rfl
  two := rfl
  half := by
    have hbits : Binary.ofFloat 0.5 = .finite false (2 ^ 52) (-53) := rfl
    change (Binary.ofFloat 0.5).toRat = 1 / 2
    rw [hbits, Binary.toRat]
    norm_num
  unit := by
    have hbits : Binary.ofFloat 1.0 = .finite false (2 ^ 52) (-52) := rfl
    change (Binary.ofFloat 1.0).toRat = 1
    rw [hbits, Binary.toRat]
    norm_num

/-- One target against two prior boxes, each with variances of its own. -/
def OpNode.twoPriors : OpNode :=
  { name := "box_coder_0", type := "box_coder"
    inputs := [("PriorBox", .strs ["prior"]), ("PriorBoxVar", .strs ["var"]), ("TargetBox", .strs ["target"])]
    outputs := [("OutputBox", .strs ["out"])]
    attrs := [("axis", .int 0), ("box_normalized", .bool false)]
    block := some
      { vars := [{ name := "prior", shape := [2, 4] }, { name := "var", shape := [2, 4] },
          { name := "target", shape := [1, 2, 4] }], ops := [] } }

theorem OpNode.decodesDeltas_twoPriors : twoPriors.DecodesDeltas "prior" "target" "out" 0 false :=
  { type := rfl, prior := rfl, target := rfl, output := rfl, priorShape := ⟨_, 2, 4, rfl, rfl⟩
    targetShape := ⟨1, 2, 4, rfl⟩, axis := rfl, normalized := rfl }

def twoPriorsTensors : Store (Option (Tensor ℚ)) :=
  Store.write (fun _ => none) [.str "prior", .str "var", .str "target"]
    [some ⟨[2, 4], fun i => 10 * i.getD 1 0 + i.getD 0 0⟩, some ⟨[2, 4], fun _ => 1 / 2⟩,
      some ⟨[1, 2, 4], fun _ => 2⟩]

/-- **The far corner of the second box**, with `x + 1` for the exponential. -/
theorem deltas_decoded_twoPriors : ∃ d' ns σ' t,
    Emission (mapUpTo Registry.standard .none 1 .twoPriors) { opset := 12 } d' () ns ∧
      runNodes (.rational (· + 1)) 12 ns twoPriorsTensors = some σ' ∧
      σ' (.str "out") = some t ∧ t.shape = [1, 2, 4] ∧ t.entry [0, 1, 2] = 105 / 2 := by
  have hnames : NamesApart "out" coderMarks ["prior", "target", "var"] ["out"] :=
    ⟨by decide, by decide, by decide +kernel⟩
  have hvaries : OpNode.twoPriors.Varies (.rational (· + 1)) twoPriorsTensors 2 0 ["var"] fun _ _ => 1 / 2 :=
    .tensor (V := ⟨[2, 4], fun _ => 1 / 2⟩) rfl ⟨_, rfl⟩ rfl rfl
  obtain ⟨d', ns, σ', t, hem, hrun, ht, hshape, hentry⟩ := deltas_decoded (d := { opset := 12 }) .none 0
    (Elements.inField_rational (· + 1)) OpNode.decodesDeltas_twoPriors (by decide) (by decide)
    (Or.inl ⟨rfl, rfl⟩) rfl rfl rfl rfl hvaries hnames
  refine ⟨d', ns, σ', t, hem, hrun, ht, hshape, ?_⟩
  rw [hentry 0 (by decide) 1 (by decide) 2 (by decide)]
  norm_num [decodedBox, decodedX, decodedWidth, priorX, priorWidth]

/-- **From version 13 on the nodes cannot be run**, though the rule succeeds. -/
theorem deltas_undecoded : OpNode.twoPriors.DecodesDeltas "prior" "target" "out" 0 false ∧
    ∃ d', EStateM.run (mapUpTo Registry.standard .none 1 .twoPriors) { opset := 13 } = .ok () d' ∧
      ∀ (τ : Type) (E : Elements τ) (σ : Store (Option (Tensor τ))),
        runNodes E 13 (d'.nodes.map Prod.snd) σ = none := by
  have hrule := ruleFor_box_coder (show (7 : Int) ≤ 13 by decide)
  have hsqueezes : Rule.squeezes boxCoder .twoPriors { opset := 13 } = true := by decide +kernel
  exact ⟨OpNode.decodesDeltas_twoPriors, Rule.exists_unrunnable hsqueezes le_rfl rfl hrule 0⟩

end ModelExport
