import ModelExport.Proofs.Repetition.Rules

/-!
# Proofs/Repetition/Ranges — ranges cut again

A range keeps its ends once they have been brought to the size of their axes, and from version 10 on
its starts once they have been counted from the front.  Ends are settled then (`endsSettled`); a start
that lay before the front of its axis is still negative, and is counted from the front once more
(`startsSettled_ints_iff`).
-/

namespace ModelExport

open Emit Rules

/-! ## Bounds that settle -/

namespace OpNode

/-- Ends of a cut, brought to the size of their axes. -/
def endsWithin (op : OpNode) (ends : Value) : Except Slip Value := do
  adjusted (endWithin (← op.inputShape "Input" 0)) (op.attr "axes") ends

/-- Starts of a cut, counted from the front. -/
def startsFromFront (op : OpNode) (starts : Value) : Except Slip Value := do
  adjusted (startFromFront (← op.inputShape "Input" 0)) (op.attr "axes") starts

/-- Steps of a cut, of one each unless they are given. -/
def stepsFor (op : OpNode) (ends : Value) : Except Slip Value := do
  .ok (op.attrOr "strides" (← unitSteps ends))

/-- Bringing the ends of a cut to the size of their axes once more changes nothing. -/
def EndsSettled (op : OpNode) : Prop :=
  ∀ v, op.endsWithin (op.attr "ends") = .ok v → op.endsWithin v = .ok v

/-- Counting the starts of a cut from the front once more changes nothing. -/
def StartsSettled (op : OpNode) : Prop :=
  ∀ v, op.startsFromFront (op.attr "starts") = .ok v → op.startsFromFront v = .ok v

/-- There are as many steps for the ends that were brought to the size of their axes. -/
def StepsSettled (op : OpNode) : Prop :=
  ∀ v, op.endsWithin (op.attr "ends") = .ok v → op.stepsFor v = op.stepsFor (op.attr "ends")

end OpNode

/-- The ends of a cut by attributes; steps other than one are refused. -/
def attributeBounds (op : OpNode) : Emit Value := do
  let ends := op.attr "ends"
  let units ← unitSteps ends
  let steps := op.attrOr "strides" units
  let shape ← op.inputShape "Input" 0
  let ends ← adjustBounds "ends" (endWithin shape) (op.attr "axes") 0 (← ends.members) ends
  unless steps.same units do refuse .sliceStep
  return ends

def cutByAttributes (op : OpNode) (ends : Value) : Emit Unit := do
  let dropped ← droppedAxes op
  cutAndDrop op (.list [← op.firstInput "Input"])
    [("axes", op.attr "axes"), ("starts", op.attr "starts"), ("ends", ends)] dropped

theorem sliceAttributes_eq (op : OpNode) :
    sliceAttributes op = attributeBounds op >>= cutByAttributes op := by
  unfold sliceAttributes attributeBounds cutByAttributes
  simp only [bind_assoc]
  refine bind_congr fun units => bind_congr fun shape => bind_congr fun bounds => bind_congr fun ends => ?_
  split
  · rw [pure_bind]
  · simp only [bind_assoc, pure_bind]

instance (op : OpNode) [op.Plain] (ends : Value) : Emits op.written (cutByAttributes op ends) := by
  unfold cutByAttributes; infer_instance

theorem attributeBounds_ok {op : OpNode} {v : Value} {d d' : Draft}
    (h : EStateM.run (attributeBounds op) d = .ok v d') :
    Edits "ends" (op.attr "ends") v d d' ∧ op.endsWithin (op.attr "ends") = .ok v := by
  obtain ⟨units, -, h₁⟩ := computed_ok h
  obtain ⟨shape, hshape, h₂⟩ := computed_ok h₁
  obtain ⟨bounds, hbounds, h₃⟩ := computed_ok h₂
  obtain ⟨ends, d₄, hadjust, h₄⟩ := bind_ok h₃
  obtain ⟨hedits, hends⟩ := adjustBounds_ok hadjust
  split at h₄
  · obtain ⟨rfl, rfl⟩ := pure_ok h₄
    refine ⟨hedits, ?_⟩
    rw [OpNode.endsWithin, hshape, except_ok_bind, adjusted, hbounds]
    exact hends
  · cases h₄

theorem twin_cutByAttributes (op : OpNode) [op.Plain] (v w : Value) :
    Twin (v = w) (cutByAttributes op v) (cutByAttributes op w) := by
  have hslice : ∀ inputs outputs, Twin (v = w)
      (nodeTo "Slice" inputs outputs [("axes", op.attr "axes"), ("starts", op.attr "starts"), ("ends", v)])
      (nodeTo "Slice" inputs outputs
        [("axes", op.attr "axes"), ("starts", op.attr "starts"), ("ends", w)]) := by
    refine fun inputs outputs => twin_nodeNamed (Or.inl rfl) (fun h => by rw [h]) fun name hpayload => ?_
    simpa [payloadOf, Node.isConstant] using hpayload
  refine .known fun dropped _ => .known fun input _ => ?_
  cases dropped with
  | none =>
    refine .known fun outputs _ => ?_
    rw [Emits.discard_eq, Emits.discard_eq]
    exact (hslice _ _).rest fun _ => .pure ()
  | some axes =>
    refine (hslice _ _).rest fun sliced => ?_
    exact (inferInstance : Emits op.written (do
      discard <| nodeTo "Squeeze" (.list [sliced]) (← op.output "Out") [("axes", axes)])).again

/-- **Ranges as attributes** are the same again if and only if their ends have settled. -/
theorem revisits_sliceAttributes (op : OpNode) [op.Plain] :
    Revisits op.EndsSettled sliceAttributes op := by
  refine .of_head (V := op.written) attributeBounds cutByAttributes (sliceAttributes_eq op)
    (fun _ _ => sliceAttributes_eq _) (fun _ => inferInstance)
    (fun h => (attributeBounds_ok h).1.only) ?_
  intro d d₁ e e₁ v w hedits hfirst hsecond
  obtain ⟨hedit, hv⟩ := attributeBounds_ok hfirst
  obtain ⟨-, hw⟩ := attributeBounds_ok hsecond
  have hattr : ∀ k, k ≠ "ends" → (op.edited d₁.edits).attr k = op.attr k := fun k hk => by
    rw [hedit.attr_other op hk, hedits]
    rfl
  have hends : (op.edited d₁.edits).attr "ends" = v := hedit.attr_self (by rw [hedits]; rfl)
  have hw : op.endsWithin v = .ok w := by
    rw [← hw, hends]
    unfold OpNode.endsWithin
    rw [hattr "axes" (by decide)]
    rfl
  have hsame : cutByAttributes (op.edited d₁.edits) w = cutByAttributes op w := by
    unfold cutByAttributes droppedAxes
    rw [hattr "axes" (by decide), hattr "starts" (by decide), hattr "decrease_axis" (by decide)]
    rfl
  rw [hsame]
  refine (twin_cutByAttributes op v w).congr ⟨?_, fun h => ?_⟩
  · rintro rfl u hu
    obtain rfl := Except.ok.inj (hv.symm.trans hu)
    exact hw
  · exact Except.ok.inj ((h v hv).symm.trans hw)

/-- The ends, starts and steps of a cut by constants. -/
def constantBounds (op : OpNode) : Emit (Value × Value × Value) := do
  let ends := op.attr "ends"
  let starts := op.attr "starts"
  let steps := op.attrOr "strides" (← unitSteps ends)
  let shape ← op.inputShape "Input" 0
  let ends ← adjustBounds "ends" (endWithin shape) (op.attr "axes") 0 (← ends.members) ends
  let starts ← adjustBounds "starts" (startFromFront shape) (op.attr "axes") 0 (← starts.members) starts
  return (ends, starts, steps)

def cutByConstants (op : OpNode) (bounds : Value × Value × Value) : Emit Unit := do
  let axesNode ← Emit.constant ElementType.INT64 (op.attr "axes")
  let startsNode ← Emit.constant ElementType.INT64 bounds.2.1
  let endsNode ← Emit.constant ElementType.INT64 bounds.1
  let stepsNode ← Emit.constant ElementType.INT64 bounds.2.2
  let dropped ← droppedAxes op
  cutAndDrop op (.list [← op.firstInput "Input", startsNode, endsNode, axesNode, stepsNode]) []
    dropped

theorem sliceConstants_eq (op : OpNode) :
    sliceConstants op = constantBounds op >>= cutByConstants op := by
  unfold sliceConstants constantBounds cutByConstants
  simp only [bind_assoc, pure_bind]

instance (op : OpNode) [op.Plain] (bounds : Value × Value × Value) :
    Emits op.written (cutByConstants op bounds) := by
  unfold cutByConstants; infer_instance

theorem constantBounds_ok {op : OpNode} {r : Value × Value × Value} {d d' : Draft}
    (h : EStateM.run (constantBounds op) d = .ok r d') :
    (∃ d₁, Edits "ends" (op.attr "ends") r.1 d d₁ ∧ Edits "starts" (op.attr "starts") r.2.1 d₁ d') ∧
      op.endsWithin (op.attr "ends") = .ok r.1 ∧ op.startsFromFront (op.attr "starts") = .ok r.2.1 ∧
      op.stepsFor (op.attr "ends") = .ok r.2.2 := by
  obtain ⟨units, hunits, h₁⟩ := computed_ok h
  obtain ⟨shape, hshape, h₂⟩ := computed_ok h₁
  obtain ⟨bounds, hbounds, h₃⟩ := computed_ok h₂
  obtain ⟨ends, d₄, hadjust, h₄⟩ := bind_ok h₃
  obtain ⟨bounds', hbounds', h₅⟩ := computed_ok h₄
  obtain ⟨starts, d₆, hadjust', h₆⟩ := bind_ok h₅
  obtain ⟨rfl, rfl⟩ := pure_ok h₆
  obtain ⟨hedits, hends⟩ := adjustBounds_ok hadjust
  obtain ⟨hedits', hstarts⟩ := adjustBounds_ok hadjust'
  refine ⟨⟨_, hedits, hedits'⟩, ?_, ?_, ?_⟩
  · rw [OpNode.endsWithin, hshape, except_ok_bind, adjusted, hbounds]
    exact hends
  · rw [OpNode.startsFromFront, hshape, except_ok_bind, adjusted, hbounds']
    exact hstarts
  · rw [OpNode.stepsFor, hunits]
    rfl

theorem twin_cutByConstants (op : OpNode) [op.Plain] (r s : Value × Value × Value) :
    Twin (r.2.1 = s.2.1 ∧ r.1 = s.1 ∧ r.2.2 = s.2.2) (cutByConstants op r) (cutByConstants op s) := by
  refine .step (Emits.again (V := [])) fun axes => (twin_constant _ _ _).bind fun starts =>
    (twin_constant _ _ _).bind fun ends => (twin_constant _ _ _).rest fun steps => ?_
  exact (inferInstance : Emits op.written (do
    let dropped ← droppedAxes op
    cutAndDrop op (.list [← op.firstInput "Input", starts, ends, axes, steps]) [] dropped)).again

/-- **Ranges as constants** are the same again if and only if their bounds have settled. -/
theorem revisits_sliceConstants (op : OpNode) [op.Plain] :
    Revisits (op.EndsSettled ∧ op.StartsSettled ∧ op.StepsSettled) sliceConstants op := by
  refine .of_head (V := op.written) constantBounds cutByConstants (sliceConstants_eq op)
    (fun _ _ => sliceConstants_eq _) (fun _ => inferInstance) (fun h => ?_) ?_
  · obtain ⟨⟨_, hends, hstarts⟩, -⟩ := constantBounds_ok h
    rw [hstarts.only, hends.only]
  intro d d₁ e e₁ r s hedits hfirst hsecond
  obtain ⟨⟨d₂, hedit, hedit'⟩, hends, hstarts, hsteps⟩ := constantBounds_ok hfirst
  obtain ⟨-, hends', hstarts', hsteps'⟩ := constantBounds_ok hsecond
  have hget : ∀ k, k ≠ "ends" → k ≠ "starts" →
      Assoc.get? (op.edited d₁.edits).attrs k = Assoc.get? op.attrs k := fun k hk hk' => by
    rw [hedit'.get?_other op hk', hedit.get?_other op hk, hedits]
    rfl
  have hattr : ∀ k, k ≠ "ends" → k ≠ "starts" → (op.edited d₁.edits).attr k = op.attr k :=
    fun k hk hk' => by rw [OpNode.attr, hget k hk hk', OpNode.attr]
  have hnewEnds : (op.edited d₁.edits).attr "ends" = r.1 := by
    rw [hedit'.attr_other op (by decide)]
    exact hedit.attr_self (by rw [hedits]; rfl)
  have hnewStarts : (op.edited d₁.edits).attr "starts" = r.2.1 := by
    refine hedit'.attr_self ?_
    rw [hedit.attr_other op (by decide), hedits]
    rfl
  -- what the second application computes, in terms of the operator as it was
  have hends' : op.endsWithin r.1 = .ok s.1 := by
    rw [← hends', hnewEnds]
    unfold OpNode.endsWithin
    rw [hattr "axes" (by decide) (by decide)]
    rfl
  have hstarts' : op.startsFromFront r.2.1 = .ok s.2.1 := by
    rw [← hstarts', hnewStarts]
    unfold OpNode.startsFromFront
    rw [hattr "axes" (by decide) (by decide)]
    rfl
  have hsteps' : op.stepsFor r.1 = .ok s.2.2 := by
    rw [← hsteps', hnewEnds]
    unfold OpNode.stepsFor OpNode.attrOr
    rw [hget "strides" (by decide) (by decide)]
  have hsame : cutByConstants (op.edited d₁.edits) s = cutByConstants op s := by
    unfold cutByConstants droppedAxes
    rw [hattr "axes" (by decide) (by decide), hattr "decrease_axis" (by decide) (by decide)]
    rfl
  rw [hsame]
  refine (twin_cutByConstants op r s).congr ⟨?_, ?_⟩
  · rintro ⟨hstart, hend, hstep⟩
    refine ⟨fun u hu => ?_, fun u hu => ?_, fun u hu => ?_⟩
    · rw [← Except.ok.inj (hends.symm.trans hu), hends', hend]
    · rw [← Except.ok.inj (hstarts.symm.trans hu), hstarts', hstart]
    · rw [← Except.ok.inj (hends.symm.trans hu), hsteps', hsteps, hstep]
  · rintro ⟨hend, hstart, hstep⟩
    refine ⟨?_, ?_, ?_⟩
    · exact Except.ok.inj ((hstart _ hstarts).symm.trans hstarts')
    · exact Except.ok.inj ((hend _ hends).symm.trans hends')
    · exact Except.ok.inj (hsteps.symm.trans ((hstep _ hends).symm.trans hsteps'))

/-! ## When bounds settle -/

namespace OpNode

variable {op : OpNode}

/-- Ends settle at once, unless they are a table. -/
theorem endsSettled (h : ∀ fields, op.attr "ends" ≠ .dict fields) : op.EndsSettled := by
  intro v hv
  obtain ⟨shape, hshape, hv⟩ := except_bind_ok hv
  rw [endsWithin, hshape, except_ok_bind]
  exact (adjusted_again hv h fun _ _ _ => endWithin_again).1

theorem stepsSettled (h : ∀ fields, op.attr "ends" ≠ .dict fields) : op.StepsSettled := by
  intro v hv
  obtain ⟨shape, hshape, hv⟩ := except_bind_ok hv
  rw [stepsFor, stepsFor, unitSteps, unitSteps,
    (adjusted_again hv h fun _ _ _ => endWithin_again).2]

/-- **A range that is cut the same again**: its starts have settled, from version 10 on, and so have its
ends when they are a table. -/
def RangeSettled (version : Int) (op : OpNode) : Prop :=
  ((∃ fields, op.attr "ends" = .dict fields) → op.EndsSettled ∧ (10 ≤ version → op.StepsSettled)) ∧
    (10 ≤ version → op.StartsSettled)

end OpNode

theorem lt_int_int (a b : Int) : Value.lt (.int a) (.int b) = .ok (decide (a < b)) := by
  have horder : Value.order (.int a) (.int b) = .ok (some (compare a b)) := rfl
  rw [Value.lt, horder, except_ok_bind]
  by_cases h : a < b
  · rw [Int.compare_eq_lt.2 h, decide_eq_true h]
    rfl
  · rw [decide_eq_false h]
    cases hcompare : compare a b with
    | lt => exact absurd (Int.compare_eq_lt.1 hcompare) h
    | eq => rfl
    | gt => rfl

theorem startFromFront_nonneg (shape : List Int) (axis : Value) {start : Int} (h : ¬ start < 0) :
    startFromFront shape axis (.int start) = .ok none := by
  rw [startFromFront, lt_int_int, decide_eq_false h]
  rfl

theorem startFromFront_neg (shape : List Int) (axis : Int) {start : Int} (h : start < 0) :
    startFromFront shape (.int axis) (.int start) = (memberAt shape axis).map fun size =>
      if 0 < size then some (.int (size + start)) else none := by
  rw [startFromFront, lt_int_int, decide_eq_true h]
  change (memberAt shape axis >>= fun size => _) = _
  cases memberAt shape axis with
  | error _ => rfl
  | ok size =>
    change _ = Except.ok (if 0 < size then some (Value.int (size + start)) else none)
    by_cases hsize : 0 < size
    · rw [if_pos hsize, except_ok_bind, if_pos hsize]
      rfl
    · rw [if_neg hsize, except_ok_bind, if_neg hsize]
      rfl

end ModelExport
