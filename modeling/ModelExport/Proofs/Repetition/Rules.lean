import ModelExport.Proofs.Emission.Mapping
import ModelExport.Proofs.Repetition.Attributes

/-!
# Proofs/Repetition/Rules — rules applied again

An operator keeps the attributes that its rule has changed, and the rule is applied to them the next
time.  `Revisits S rule op` compares the two: nodes are the same if and only if `S`.
-/

namespace ModelExport

open Emit List Rules
open EStateM (run)

variable {d d' : Draft} {op : OpNode} {dims : List Value}

/-! ## Comparing with changes in between -/

theorem Draft.Tidy.of_edits {d₁ : Draft} (h : d.Tidy) (hd : d₁ = { d with edits := d₁.edits }) : d₁.Tidy := by
  rw [hd]
  exact h.congr rfl rfl rfl

theorem Abreast.of_edits {d₁ e e₁ : Draft} (h : Abreast d e) (hd : d₁ = { d with edits := d₁.edits })
    (he : e₁ = { e with edits := e₁.edits }) : Abreast d₁ e₁ := by
  refine ⟨⟨h.tidy.1.of_edits hd, h.tidy.2.of_edits he⟩, ?_, ?_, ?_, ?_, ?_⟩ <;> rw [hd, he]
  exacts [h.opset, h.counts, h.domains, h.weights, h.terminals]

theorem Abreast.refl (h : d.Tidy) : Abreast d d :=
  ⟨⟨h, h⟩, rfl, rfl, rfl, rfl, rfl, rfl⟩

theorem Twin.spares {α : Type} {x : Emit α} (hx : Twin True x x) {a : α} (hd : d.Tidy) (h : run x d = .ok a d') :
    Spares d d' :=
  (hx.progress (.refl hd) h h).2.left

/-- **A rule applied to an operator, and to what the operator is then**: apart from changes, drafts stay
side by side, and the nodes are the same if and only if `S`. -/
structure Revisits (S : Prop) (rule : Rule) (op : OpNode) : Prop where
  spares : ∀ {d d' : Draft}, d.Tidy → run (rule op) d = .ok () d' →
    Spares { d with edits := d'.edits } d'
  progress : ∀ {d d' e e' : Draft}, Abreast d e → d.edits = [] → run (rule op) d = .ok () d' →
    run (rule (op.edited d'.edits)) e = .ok () e' →
    Progress S { d with edits := d'.edits } d' { e with edits := e'.edits } e'

namespace Revisits

variable {S T : Prop} {rule : Rule} {op : OpNode}

theorem congr (h : Revisits S rule op) (hST : S ↔ T) : Revisits T rule op :=
  ⟨h.spares, fun hde hedits hx hy => (h.progress hde hedits hx hy).congr hST⟩

theorem of_twin (h : Twin True (rule op) (rule op)) : Revisits True rule op where
  spares hd hrun := by
    have hspares := h.spares hd hrun
    rwa [hspares.edits]
  progress {d d' e e'} hde hedits hrun hrun' := by
    have hnone : d'.edits = d.edits := (h.spares hde.tidy.1 hrun).edits
    rw [hnone, hedits] at hrun'
    obtain ⟨-, hstep⟩ := h.progress hde hrun hrun'
    rwa [hnone, hstep.right.edits]

/-- **Changes first, nodes afterwards.** -/
theorem of_head {ρ : Type} {V : List Value} (head : OpNode → Emit ρ) (tail : OpNode → ρ → Emit Unit)
    (hfirst : rule op = head op >>= tail op)
    (hsecond : ∀ {d d₁ : Draft} {r : ρ}, d.edits = [] → run (head op) d = .ok r d₁ →
      rule (op.edited d₁.edits) = head (op.edited d₁.edits) >>= tail (op.edited d₁.edits))
    (htail : ∀ r, Emits V (tail op r))
    (hhead : ∀ {op : OpNode} {d d₁ : Draft} {r : ρ}, run (head op) d = .ok r d₁ →
      d₁ = { d with edits := d₁.edits })
    (hagain : ∀ {d d₁ e e₁ : Draft} {r r' : ρ}, d.edits = [] → run (head op) d = .ok r d₁ →
      run (head (op.edited d₁.edits)) e = .ok r' e₁ →
        Twin S (tail op r) (tail (op.edited d₁.edits) r')) :
    Revisits S rule op where
  spares {d d'} hd hrun := by
    rw [hfirst] at hrun
    obtain ⟨r, d₁, hrun₁, hrest⟩ := bind_ok hrun
    have hd₁ := hhead hrun₁
    have hspares := (htail r).again.spares (hd.of_edits hd₁) hrest
    rw [hspares.edits, ← hd₁]
    exact hspares
  progress {d d' e e'} hde hedits hrun hrun' := by
    rw [hfirst] at hrun
    obtain ⟨r, d₁, hrun₁, hrest⟩ := bind_ok hrun
    have hd₁ := hhead hrun₁
    have hspares := (htail r).again.spares (hde.tidy.1.of_edits hd₁) hrest
    rw [hspares.edits, hsecond hedits hrun₁] at hrun'
    obtain ⟨r', e₁, hrun₁', hrest'⟩ := bind_ok hrun'
    have he₁ := hhead hrun₁'
    have hstep := ((hagain hedits hrun₁ hrun₁').progress (hde.of_edits hd₁ he₁) hrest hrest').2
    rw [hstep.left.edits, hstep.right.edits, ← hd₁, ← he₁]
    exact hstep

end Revisits

/-! ## Nodes that differ -/

/-- The value that a tensor was made from. -/
def TensorData.origin (t : TensorData) : Value :=
  match t.dims, t.vals with
  | .tuple [], .list [] => .none
  | .tuple [], .list (x :: _) => x
  | _, vals => vals

theorem origin_tensorOf (name : String) (type v : Value) :
    (Node.tensorOf name [("dtype", type), ("value", v)]).origin = v := by
  cases v <;> rfl

theorem twin_constant (type : Int) (v w : Value) :
    Twin (v = w) (Emit.constant type v) (Emit.constant type w) := by
  change Twin (v = w) (nodeNamed "Constant" (.list []) (.list []) _ none .none)
    (nodeNamed "Constant" (.list []) (.list []) _ none .none)
  refine twin_nodeNamed (Or.inl rfl) (fun h => by rw [h]) fun name hpayload => ?_
  have htensor : Node.tensorOf name [("dtype", .int type), ("value", v)] =
      Node.tensorOf name [("dtype", .int type), ("value", w)] := by
    simpa [payloadOf, Node.isConstant] using hpayload
  rw [← origin_tensorOf name (.int type) v, htensor, origin_tensorOf]

/-! ## Windows -/

/-- What a fixed window is cut to. -/
def cutWindow (op : OpNode) : Emit Value := do
  let inputShape ← op.inputShape "X" 0
  let kernel ← clampAxis (← memberAt inputShape 2) (op.attr "paddings") (op.attr "ksize") 0
  clampAxis (← memberAt inputShape 3) (op.attr "paddings") kernel 1

def poolWindow (op : OpNode) (kernel : Value) : Emit Unit := do
  let paddings := op.attr "paddings"
  let pads ← paddings.add paddings
  let version ← opset
  let ceil := op.attr "ceil_mode"
  if ceil.truthy && version < 10 then refuse .poolCeil
  let attrs : Attrs :=
    [("kernel_shape", kernel), ("strides", op.attr "strides"), ("pads", pads)] ++
    (if version ≥ 10 then [("ceil_mode", ceil)] else []) ++ averageAttrs op
  let (windowed, _) ← poolTypes (op.attr "pooling_type")
  discard <| nodeTo windowed (op.input "X") (← op.output "Out") attrs

theorem fixedPool_eq (op : OpNode) : fixedPool op = cutWindow op >>= poolWindow op := by
  unfold fixedPool cutWindow poolWindow
  simp only [bind_assoc]

instance (op : OpNode) [op.Plain] (kernel : Value) : Emits op.written (poolWindow op kernel) := by
  unfold poolWindow; infer_instance

theorem cutWindow_ok {kernel : Value} (h : run (cutWindow op) d = .ok kernel d') :
    Edits "ksize" (op.attr "ksize") kernel d d' ∧
      ∀ {op' : OpNode} (e : Draft), op'.inputShape "X" 0 = op.inputShape "X" 0 →
        op'.attr "paddings" = op.attr "paddings" → op'.attr "ksize" = kernel →
        run (cutWindow op') e = .ok kernel e := by
  obtain ⟨inputShape, hshape, h₁⟩ := computed_ok h
  obtain ⟨height, hheight, h₂⟩ := computed_ok h₁
  obtain ⟨kernel₁, d₃, hfirst, h₃⟩ := bind_ok h₂
  obtain ⟨width, hwidth, hsecond⟩ := computed_ok h₃
  have hcut := clampAxis_ok (k := 0) hfirst
  have hcut' := clampAxis_ok (k := 1) hsecond
  refine ⟨hcut.1.trans hcut'.1, fun {op'} e hshape' hpaddings hkernel => ?_⟩
  -- the second cut has not touched what the first one looked at
  have hstays : clampKernel height (op.attr "paddings") kernel 0 = .ok none :=
    (clampKernel_congr (hcut'.2.2 0 Nat.zero_ne_one)).trans hcut.2.1
  unfold cutWindow
  rw [hshape', hshape, hpaddings, hkernel, computed_bind, hheight, computed_bind,
    run_bind_of_ok (clampAxis_again hstays e), hwidth, computed_bind]
  exact clampAxis_again hcut'.2.1 e

/-- **Windows are cut once.** -/
theorem revisits_pool (op : OpNode) [op.Plain] : Revisits True pool op := by
  by_cases hwhole : ((op.attr "global_pooling").truthy ||
      (op.attr "adaptive").truthy && (op.attr "ksize").same (.ints [1, 1])) = true
  · have hemits : Emits op.written (pool op) := by
      unfold pool
      rw [if_pos hwhole]
      infer_instance
    exact .of_twin hemits.again
  by_cases hadaptive : (op.attr "adaptive").truthy = true
  · have hemits : Emits op.written (pool op) := by
      unfold pool
      rw [if_neg hwhole, if_pos hadaptive]
      infer_instance
    exact .of_twin hemits.again
  -- from here on the window is fixed, and it stays so
  have hglobal : ¬ (op.attr "global_pooling").truthy = true := fun h => hwhole (by rw [h]; rfl)
  have hfixed : ∀ {op' : OpNode}, op'.attr "global_pooling" = op.attr "global_pooling" →
      op'.attr "adaptive" = op.attr "adaptive" → pool op' = cutWindow op' >>= poolWindow op' := by
    intro op' hglobal' hadaptive'
    rw [← fixedPool_eq]
    unfold pool
    rw [hglobal', hadaptive', if_neg (by simp [hglobal, hadaptive]), if_neg hadaptive]
  have hattr : ∀ {d d₁ : Draft} {r : Value}, d.edits = [] → run (cutWindow op) d = .ok r d₁ →
      ∀ k, k ≠ "ksize" → (op.edited d₁.edits).attr k = op.attr k := by
    intro d d₁ r hedits hrun k hk
    rw [(cutWindow_ok hrun).1.attr_other op hk, hedits]
    rfl
  refine .of_head (V := op.written) cutWindow poolWindow (hfixed rfl rfl) ?_ (fun _ => inferInstance)
    (fun h => (cutWindow_ok h).1.only) ?_
  · exact fun hedits hrun => hfixed (hattr hedits hrun _ (by decide)) (hattr hedits hrun _ (by decide))
  intro d d₁ e e₁ r r' hedits hfirst hsecond
  have hattr := hattr hedits hfirst
  obtain ⟨hcut, hagain⟩ := cutWindow_ok hfirst
  have hkernel : (op.edited d₁.edits).attr "ksize" = r := hcut.attr_self (by rw [hedits]; rfl)
  have hrun := @hagain (op.edited d₁.edits) e rfl (hattr _ (by decide)) hkernel
  obtain ⟨rfl, -⟩ := EStateM.Result.ok.inj (hrun.symm.trans hsecond)
  have hsame : poolWindow (op.edited d₁.edits) r = poolWindow op r := by
    unfold poolWindow averageAttrs
    rw [hattr "paddings" (by decide), hattr "ceil_mode" (by decide), hattr "strides" (by decide),
      hattr "pooling_type" (by decide), hattr "exclusive" (by decide)]
    rfl
  rw [hsame]
  exact Emits.again (V := op.written)

/-! ## Shapes -/

/-- The shape to spread to, from an attribute. -/
def attrShape (op : OpNode) : Emit Value := do
  let shape := op.attr "shape"
  let n ← shape.length
  if n > 0 then knownShape 0 n shape else slip .unsetVariable

/-- The shape to spread to, when there are no tensors for its dimensions. -/
def wholeShape (op : OpNode) : Emit Value := do
  if (← (op.input "Shape").length) > 0 then
    let given ← op.inputAt "Shape" 0
    convertTo given (.int (← op.inputType "Shape" 0)) (.str "int64")
  else Emit.constant ElementType.INT64 (← attrShape op)

theorem targetShape_eq (op : OpNode) : targetShape op =
    if (op.input "expand_shapes_tensor").isNone = true then wholeShape op
    else (do
      if (← (op.input "expand_shapes_tensor").length) > 0 then
        let shape ← node "Concat" (op.input "expand_shapes_tensor") [("axis", .int (-1))]
        node "Cast" (.list [shape]) [("to", .int ElementType.INT64)]
      else wholeShape op) := by
  have hwhole : wholeShape op = (do
      if (← (op.input "Shape").length) > 0 then
        let given ← op.inputAt "Shape" 0
        convertTo given (.int (← op.inputType "Shape" 0)) (.str "int64")
      else
        let shape := op.attr "shape"
        let n ← shape.length
        if n > 0 then Emit.constant ElementType.INT64 (← knownShape 0 n shape)
        else slip .unsetVariable) := by
    unfold wholeShape attrShape
    refine bind_congr fun n => ?_
    split
    · rfl
    · dsimp only
      rw [bind_assoc]
      refine bind_congr fun k => ?_
      split <;> rfl
  rw [hwhole]
  unfold targetShape
  dsimp only
  split
  · rw [pure_bind]
    rfl
  · rw [bind_assoc]
    refine bind_congr fun n => ?_
    rw [pure_bind]
    simp only [decide_eq_true_eq]

theorem attrShape_ok {v : Value} (h : run (attrShape op) d = .ok v d') :
    Edits "shape" (op.attr "shape") v d d' ∧ ∀ {op' : OpNode} (e : Draft), op'.attr "shape" = v →
      run (attrShape op') e = .ok v e := by
  obtain ⟨n, hn, h₁⟩ := computed_ok h
  split at h₁
  · rename_i hpos
    obtain ⟨hedits, hlength, hknown, -⟩ := knownShape_ok (k := 0) h₁
    refine ⟨hedits, fun {op'} e hv => ?_⟩
    unfold attrShape
    dsimp only
    rw [hv, hlength, hn, computed_bind, if_pos hpos]
    exact knownShape_again hknown e
  · cases h₁

/-- The node that spreads to a shape. -/
def spread (op : OpNode) (shape : Value) : Emit Unit := do
  let shape ← Emit.constant ElementType.INT64 shape
  discard <| nodeTo "Expand" (.list [← op.inputAt "X" 0, shape]) (← op.output "Out")

instance (op : OpNode) [op.Plain] (shape : Value) : Emits op.written (spread op shape) := by
  unfold spread; infer_instance

/-- **A shape is made known once.** -/
theorem revisits_expand (op : OpNode) [op.Plain] : Revisits True Rules.expand op := by
  by_cases hwhole : ((op.input "expand_shapes_tensor").isNone = true ∨
      (op.input "expand_shapes_tensor").length = .ok 0) ∧ (op.input "Shape").length = .ok 0
  · obtain ⟨hparts, hshape⟩ := hwhole
    have hattr : ∀ changed, Rules.expand (op.edited changed) =
        attrShape (op.edited changed) >>= spread (op.edited changed) := by
      intro changed
      have hshape' : ((op.edited changed).input "Shape").length = .ok 0 := hshape
      have htarget : targetShape (op.edited changed) =
          attrShape (op.edited changed) >>= Emit.constant ElementType.INT64 := by
        have hsame : wholeShape (op.edited changed) =
            attrShape (op.edited changed) >>= Emit.constant ElementType.INT64 := by
          unfold wholeShape
          rw [hshape']
          rfl
        rw [targetShape_eq, ← hsame]
        split
        · rfl
        · rename_i hnone
          have hlength : ((op.edited changed).input "expand_shapes_tensor").length = .ok 0 :=
            hparts.resolve_left hnone
          rw [hlength]
          rfl
      unfold Rules.expand spread
      rw [htarget, bind_assoc]
    refine .of_head (V := op.written) attrShape spread (hattr []) (fun _ _ => hattr _)
      (fun _ => inferInstance) (fun h => (attrShape_ok h).1.only) ?_
    intro d d₁ e e₁ r r' hedits hfirst hsecond
    obtain ⟨hedit, hagain⟩ := attrShape_ok hfirst
    have hrun := @hagain (op.edited d₁.edits) e (hedit.attr_self (by rw [hedits]; rfl))
    obtain ⟨rfl, -⟩ := EStateM.Result.ok.inj (hrun.symm.trans hsecond)
    exact Emits.again (V := op.written) (x := spread op r)
  · have hshape : (op.input "expand_shapes_tensor").isNone = true ∨
        (op.input "expand_shapes_tensor").length = .ok 0 → Emits [] (wholeShape op) := by
      refine fun hparts => .known fun n hn => ?_
      have hn : n > 0 := Nat.pos_of_ne_zero fun h => hwhole ⟨hparts, h ▸ hn⟩
      rw [if_pos hn]
      infer_instance
    have htarget : Emits [] (targetShape op) := by
      rw [targetShape_eq]
      split
      · exact hshape (Or.inl ‹_›)
      · refine .known fun n hn => ?_
        split
        · infer_instance
        · rename_i hpos
          exact hshape (Or.inr (by rw [hn, Nat.eq_zero_of_not_pos hpos]))
    have hemits : Emits op.written (Rules.expand op) := by
      unfold Rules.expand
      infer_instance
    exact .of_twin hemits.again

/-! ## Batches -/

namespace OpNode

/-- The dimensions of a shape with its batch axis moved to the front as a single element. -/
def batchFirst (op : OpNode) : Value → Except Slip (List Value)
  | .list xs => do .ok (.int 1 :: (← eraseAt xs (← (op.attr "output_dim_idx").exact)))
  | _ => .error .wrongKind

/-- **Every dimension before the batch axis is a single element**, so that moving the axis to the front
once more changes nothing. -/
def BatchSettled (op : OpNode) : Prop :=
  ∀ xs i k, op.attr "shape" = .list xs → (op.attr "output_dim_idx").exact = .ok i →
    place? xs.length i = some k → ∀ v ∈ xs.take k, v = .int 1

theorem batchFirst_ok {shape : Value} (h : op.batchFirst shape = .ok dims) : ∃ xs i k, shape = .list xs ∧
      (op.attr "output_dim_idx").exact = .ok i ∧ place? xs.length i = some k ∧ k < xs.length ∧
      dims = .int 1 :: xs.eraseIdx k := by
  unfold batchFirst at h
  split at h
  swap
  · cases h
  rename_i xs
  obtain ⟨i, hi, h₁⟩ := except_bind_ok h
  obtain ⟨ys, hys, h₂⟩ := except_bind_ok h₁
  unfold eraseAt at hys
  split at hys
  · rename_i k hk
    have hlt : k < xs.length := by
      have hplace := hk
      simp only [place?, Option.ite_none_right_eq_some, Option.some.injEq] at hplace
      omega
    exact ⟨xs, i, k, rfl, hi, hk, hlt, by rw [← Except.ok.inj h₂, ← Except.ok.inj hys]⟩
  · cases hys

/-- Dropping a member further on gives back the rest if and only if all members before it are the
first one. -/
theorem eraseIdx_cons_eq_iff {a : Value} : ∀ {ys : List Value} {k : Nat}, k ≤ ys.length →
    ((a :: ys).eraseIdx k = ys ↔ ∀ v ∈ ys.take k, v = a)
  | ys, 0, _ => by simp
  | y :: ys, k + 1, hk => by
    rw [eraseIdx_cons_succ, List.cons.injEq, take_succ_cons, forall_mem_cons]
    refine ⟨?_, ?_⟩
    · rintro ⟨rfl, h⟩
      exact ⟨rfl, (eraseIdx_cons_eq_iff (Nat.le_of_succ_le_succ hk)).1 h⟩
    · rintro ⟨rfl, h⟩
      exact ⟨rfl, (eraseIdx_cons_eq_iff (Nat.le_of_succ_le_succ hk)).2 h⟩

/-- **A batch axis moved to the front twice.** -/
theorem batchFirst_again_iff {dims' : List Value} (h : op.batchFirst (op.attr "shape") = .ok dims)
    (h' : op.batchFirst (.list dims) = .ok dims') :
    dims.length = dims'.length ∧ (dims = dims' ↔ op.BatchSettled) := by
  obtain ⟨xs, i, k, hxs, hi, hk, hlt, rfl⟩ := batchFirst_ok h
  obtain ⟨ys, i', k', hys, hi', hk', hlt', rfl⟩ := batchFirst_ok h'
  obtain rfl := Value.list.inj hys
  obtain rfl := Except.ok.inj (hi.symm.trans hi')
  have hlength : (Value.int 1 :: xs.eraseIdx k).length = xs.length := by
    rw [length_cons, length_eraseIdx_of_lt hlt]
    omega
  obtain rfl : k = k' := Option.some.inj (hk.symm.trans (hlength ▸ hk'))
  refine ⟨?_, ?_⟩
  · rw [length_cons, length_cons, length_eraseIdx_of_lt hlt', hlength,
      length_eraseIdx_of_lt hlt]
  have hrest : k ≤ (xs.eraseIdx k).length := by
    rw [length_eraseIdx_of_lt hlt]
    omega
  have htake : (xs.eraseIdx k).take k = xs.take k := by
    rw [eraseIdx_eq_take_drop_succ, take_left' (length_take_of_le hlt.le)]
  rw [List.cons.injEq, eq_comm (a := xs.eraseIdx k), eraseIdx_cons_eq_iff hrest, htake]
  constructor
  · rintro ⟨-, hall⟩ zs j l hzs hj hl
    obtain rfl := Value.list.inj (hxs.symm.trans hzs)
    obtain rfl := Except.ok.inj (hi.symm.trans hj)
    obtain rfl := Option.some.inj (hk.symm.trans hl)
    exact hall
  · exact fun h => ⟨rfl, h xs i k hxs hi hk⟩

end OpNode

/-- The shape of a batch, which the operator keeps. -/
def batchShape (op : OpNode) : Emit (List Value) := do
  let dims ← op.batchFirst (op.attr "shape")
  editAttr "shape" (.list dims)
  return dims

/-- The nodes that repeat a constant of a rank along the batch axis. -/
def tileBatch (op : OpNode) (rank : Nat) (filled times : Value) : Emit Unit := do
  let outputAxis := op.attr "output_dim_idx"
  if outputAxis.same (.int 0) then
    discard <| nodeTo "Tile" (.list [filled, times]) (← op.output "Out")
  else
    let tiled ← node "Tile" (.list [filled, times])
    let perm ← exchangeWithFirst rank outputAxis
    discard <| nodeTo "Transpose" (.list [tiled]) (← op.output "Out") [("perm", perm)]

/-- The nodes that repeat a constant of a rank as often as the batch of the input has it. -/
def spanBatch (op : OpNode) (rank : Nat) (filled : Value) : Emit Unit := do
  let inputAxis := op.attr "input_dim_idx"
  let shape ← node "Shape" (op.input "Input")
  let start ← Emit.constant ElementType.INT64 (.list [inputAxis])
  let stop ← Emit.constant ElementType.INT64 (.list [← inputAxis.add (.int 1)])
  let batch ← node "Slice" (.list [shape, start, stop])
  let once ← Emit.constant ElementType.INT64 (.ints (List.replicate (rank - 1) 1))
  let times ← node "Concat" (.list [batch, once]) [("axis", .int (-1))]
  tileBatch op rank filled times

/-- A constant of a shape, repeated along the batch axis. -/
def repeatBatch (op : OpNode) (dims : List Value) : Emit Unit := do
  let dtype ← ElementType.convert (op.attr "dtype")
  discard <| op.inputShape "Input" 0
  let value ← (op.attr "value").toInt
  let count ← productOf dims
  let filled ← node "Constant" .none
    [("dtype", dtype), ("dims", .list dims), ("value", .list (List.replicate count.toNat (.int value)))]
  spanBatch op dims.length filled

section

variable (op : OpNode) [op.Plain]

instance (rank : Nat) (filled times : Value) : Emits op.written (tileBatch op rank filled times) := by
  unfold tileBatch; infer_instance

instance (rank : Nat) (filled : Value) : Emits op.written (spanBatch op rank filled) := by
  unfold spanBatch; infer_instance

instance (dims : List Value) : Emits op.written (repeatBatch op dims) := by
  unfold repeatBatch; infer_instance

end

theorem fillBatchLike_eq (op : OpNode) : fillBatchLike op = batchShape op >>= repeatBatch op := by
  have hfails : ∀ {α β : Type} (e : Slip) (f : α → Emit β),
      liftM (.error e : Except Slip α) >>= f = slip e := fun _ _ => rfl
  have hstops : ∀ {α β : Type} (e : Slip) (f : α → Emit β), (slip e : Emit α) >>= f = slip e :=
    fun _ _ => rfl
  unfold fillBatchLike batchShape OpNode.batchFirst
  cases op.attr "shape" with
  | list xs =>
    dsimp only
    rw [pure_bind, bind_assoc]
    cases (op.attr "output_dim_idx").exact with
    | error e =>
      change _ = liftM (.error e : Except Slip (List Value)) >>= _
      rw [hfails, hfails]
    | ok i =>
      rw [except_ok_bind, computed_bind]
      cases eraseAt xs i with
      | error e =>
        change _ = liftM (.error e : Except Slip (List Value)) >>= _
        rw [hfails, hfails]
      | ok ys =>
        rw [except_ok_bind, computed_bind, computed_bind, bind_assoc]
        simp only [pure_bind]
        rfl
  | none | bool _ | int _ | float _ | str _ | tuple _ | dict _ | object _ _ =>
    dsimp only
    rw [hfails, hstops, hstops]

theorem batchShape_ok (h : run (batchShape op) d = .ok dims d') :
    Edits "shape" (op.attr "shape") (.list dims) d d' ∧ op.batchFirst (op.attr "shape") = .ok dims := by
  obtain ⟨dims', hdims, h₁⟩ := computed_ok h
  obtain ⟨_, d₂, hedit, h₂⟩ := bind_ok h₁
  obtain ⟨rfl, rfl⟩ := pure_ok h₂
  exact ⟨.editAttr hedit, hdims⟩

theorem twin_repeatBatch (op : OpNode) [op.Plain] {dims' : List Value} (hlength : dims.length = dims'.length) :
    Twin (dims = dims') (repeatBatch op dims) (repeatBatch op dims') := by
  refine .known fun dtype _ => .step (Emits.again (V := [])) fun _ => .known fun value _ =>
    .computed fun count count' hcount hcount' => ?_
  have hfilled : Twin (dims = dims')
      (node "Constant" .none [("dtype", dtype), ("dims", .list dims),
        ("value", .list (List.replicate count.toNat (.int value)))])
      (node "Constant" .none [("dtype", dtype), ("dims", .list dims'),
        ("value", .list (List.replicate count'.toNat (.int value)))]) := by
    change Twin (dims = dims') (nodeNamed "Constant" .none (.list []) _ none .none)
      (nodeNamed "Constant" .none (.list []) _ none .none)
    refine twin_nodeNamed (Or.inl rfl) (fun h => ?_) fun name hpayload => ?_
    · subst h
      rw [Except.ok.inj (hcount.symm.trans hcount')]
    · have htensor : Node.tensorOf name [("dtype", dtype), ("dims", .list dims),
            ("value", .list (List.replicate count.toNat (.int value)))] =
          Node.tensorOf name [("dtype", dtype), ("dims", .list dims'),
            ("value", .list (List.replicate count'.toNat (.int value)))] := by
        simpa [payloadOf, Node.isConstant] using hpayload
      exact Value.list.inj (congrArg TensorData.dims htensor)
  refine hfilled.rest fun filled => ?_
  rw [hlength]
  exact Emits.again (V := op.written)

/-- **A batch** is the same again if and only if its shape has settled. -/
theorem revisits_fillBatchLike (op : OpNode) [op.Plain] :
    Revisits op.BatchSettled fillBatchLike op := by
  refine .of_head (V := op.written) batchShape repeatBatch (fillBatchLike_eq op)
    (fun _ _ => fillBatchLike_eq _) (fun _ => inferInstance) (fun h => (batchShape_ok h).1.only) ?_
  intro d d₁ e e₁ dims dims' hedits hfirst hsecond
  obtain ⟨hedit, hdims⟩ := batchShape_ok hfirst
  obtain ⟨-, hdims'⟩ := batchShape_ok hsecond
  have hattr : ∀ k, k ≠ "shape" → (op.edited d₁.edits).attr k = op.attr k := fun k hk => by
    rw [hedit.attr_other op hk, hedits]
    rfl
  have hshape : (op.edited d₁.edits).attr "shape" = .list dims := hedit.attr_self (by rw [hedits]; rfl)
  have hdims' : op.batchFirst (.list dims) = .ok dims' := by
    rw [← hdims', hshape]
    unfold OpNode.batchFirst
    rw [hattr "output_dim_idx" (by decide)]
  have hsame : repeatBatch (op.edited d₁.edits) dims' = repeatBatch op dims' := by
    unfold repeatBatch spanBatch tileBatch
    rw [hattr "input_dim_idx" (by decide), hattr "output_dim_idx" (by decide),
      hattr "dtype" (by decide), hattr "value" (by decide)]
    rfl
  rw [hsame]
  obtain ⟨hlength, hsettled⟩ := OpNode.batchFirst_again_iff hdims hdims'
  exact (twin_repeatBatch op hlength).congr hsettled

end ModelExport
