import ModelExport.Proofs.Emission.Shaping

/-!
# Proofs/Emission/Detection — what rules for detectors write

Decoding boxes names many tensors after the output, each with a mark of its own at the end
(`cellMarks`, `coderMarks`).  Suppression has up to three outputs, and an operator that is kept as it
is writes all its slots with one node.
-/

namespace ModelExport

open Emit List Rules

-- the size of an instance grows with the number of steps
set_option synthInstance.maxSize 1000000000

/-! ## Marked names -/

namespace Value

/-- The names made from a name by marks. -/
def marks (v : Value) (ms : List String) : List Value := ms.flatMap fun m => (v.mark m).given

theorem marks_append (v : Value) (ms ns : List String) :
    v.marks (ms ++ ns) = v.marks ms ++ v.marks ns := flatMap_append

class Soles (vs : List Value) : Prop where
  all : ∀ v ∈ vs, v.Sole

instance : Soles [] := ⟨fun _ h => absurd h not_mem_nil⟩

instance (v : Value) (vs : List Value) [v.Sole] [h : Soles vs] : Soles (v :: vs) :=
  ⟨fun _ hw => (mem_cons.1 hw).elim (fun h => h ▸ inferInstance) (h.all _)⟩

instance (v : Value) (ms : List String) : Soles (ms.map v.mark) :=
  ⟨fun _ hw => by obtain ⟨m, -, rfl⟩ := mem_map.1 hw; infer_instance⟩

end Value

instance Names.marks_cons (v : Value) (m : String) (ms : List String) (vs : List Value)
    [h : Names (v.marks ms) (.list vs)] : Names (v.marks (m :: ms)) (.list (v.mark m :: vs)) :=
  Names.cons (V := v.marks ms) (v.mark m) vs

instance Names.marks_map (v : Value) (ms : List String) :
    Names (v.marks ms) (.list (ms.map v.mark)) := by
  induction ms with
  | nil => exact Names.nil
  | cons m ms ih => rw [map_cons]; infer_instance

/-! ## Cells of a detector -/

section Cells

variable {V : List Value}

instance (x y scale : Value) : Emits V (scaleCenters x y scale) := by
  unfold scaleCenters; infer_instance

instance (x : Value) : Emits V (positivePart x) := by unfold positivePart; infer_instance

instance (height width : Int) : Emits V (cellGrid height width) := by unfold cellGrid; infer_instance

instance (height width : Int) (gridX gridY x y scale : Value) :
    Emits V (cellCenters height width gridX gridY x y scale) := by unfold cellCenters; infer_instance

instance (confidence thresholds : Value) (count height width : Int) :
    Emits V (sureConfidences confidence thresholds count height width) := by
  unfold sureConfidences; infer_instance

instance (confidence zeros probability : Value) (count height width : Int) (x y w h : Value) :
    Emits V (cellBoxes confidence zeros probability count height width x y w h) := by
  unfold cellBoxes; infer_instance

variable (name : Value) [name.Sole]

instance (anchors size : Value) (count : Int) (w h : Value) :
    Emits (name.marks ["@anchor_w", "@anchor_h"]) (anchoredExtents name anchors size count w h) := by
  unfold anchoredExtents
  exact .of_append_nil inferInstance

/-- The marks of corners inside an image. -/
def imageMarks : List String :=
  ["@_pred_box_x", "@_pred_box_y", "@_pred_box_w", "@_pred_box_h"] ++ ["@img_height", "@img_width"]

instance (imageSize boxes scores scoreShape : Value) :
    Emits (name.marks imageMarks) (imageCorners name imageSize boxes scores scoreShape) := by
  unfold imageCorners imageMarks
  rw [Value.marks_append]
  refine .of_append_nil ?_
  rw [append_assoc]
  infer_instance

/-- **The marks of a detector's boxes.** -/
def cellMarks : List String :=
  ["@box_x", "@box_y", "@box_w", "@box_h", "@conf", "@prob"] ++ ["@anchor_w", "@anchor_h"] ++
    imageMarks

variable (op : OpNode) [op.Plain]

instance : Emits ((op.slotAt "Boxes" 0).marks cellMarks) (decodeCells op) := by
  unfold decodeCells cellMarks
  simp only [Value.marks_append, append_assoc]
  infer_instance

instance (asConstants : Bool) : Emits ((op.slotAt "Boxes" 0).marks cellMarks ++
    ((op.slot "Boxes").given ++ (op.slot "Scores").given)) (yoloBox asConstants op) := by
  unfold yoloBox cornerBound
  cases asConstants
  · simp only [Bool.false_eq_true, if_false, pure_bind]
    infer_instance
  · simp only [if_true, bind_assoc, pure_bind]
    infer_instance

end Cells

/-! ## Deltas against prior boxes -/

section Coder

variable {V : List Value} (name : Value) [name.Sole]

instance (type : String) (attrs : Attrs) : Emits V (eachTo type attrs []) := by
  unfold eachTo; infer_instance

instance (type : String) (attrs : Attrs) (inputs : List Value) (m : String) (ms : List String)
    (rest : List (List Value × Value)) [Emits (name.marks ms) (eachTo type attrs rest)] :
    Emits (name.marks (m :: ms)) (eachTo type attrs ((inputs, name.mark m) :: rest)) := by
  unfold eachTo
  exact Emits.bind_append (V := (name.mark m).given) (W := name.marks ms) _ _

instance (type : String) (attrs : Attrs) (xs : List (List Value)) (vs : List Value)
    [hvs : Value.Soles vs] [h : Names V (.list vs)] : Emits V (eachTo type attrs (xs.zip vs)) := by
  suffices Emits (Value.list vs).given (eachTo type attrs (xs.zip vs)) from this.mono h.given
  clear h
  revert hvs
  induction vs generalizing xs with
  | nil => intro _; rw [zip_nil_right]; infer_instance
  | cons v vs ih =>
    intro hvs
    cases xs with
    | nil => rw [zip_nil_left]; infer_instance
    | cons x xs =>
      have : v.Sole := hvs.all v mem_cons_self
      have : Value.Soles vs := ⟨fun w hw => hvs.all w (mem_cons_of_mem _ hw)⟩
      have := ih xs
      rw [zip_cons_cons, Value.Sole.given_list, eachTo]
      infer_instance

instance (m : String) (x : Value) : Emits (name.marks [m]) (scalarTo (name.mark m) x) := by
  unfold scalarTo; infer_instance

def fourMarks (m : String) : List String := [0, 1, 2, 3].map fun i : Nat => m ++ toString i

instance (priority := high) {β : Type} (m : String) (f : List Value → Emit β)
    [h : Emits V (f ((fourMarks m).map name.mark))] : Emits V (liftM (fourNames name m) >>= f) :=
  .known fun w hw => by
    rcases ‹name.Sole›.cases with ⟨s, rfl⟩ | rfl
    · rw [← Except.ok.inj hw]
      exact h
    · cases hw

def priorMarks : List String :=
  ["@x1", "@y1", "@x2", "@y2"] ++ ["@centor_w_tmp", "@centor_h_tmp"] ++ ["@pb_w", "@pb_h"] ++
    ["@half_value"] ++ ["@pb_w_half", "@pb_h_half"] ++ ["@pb_x", "@pb_y"]

instance (op : OpNode) (one : Value) (normalized : Bool) :
    Emits (name.marks priorMarks) (priorExtents op name one normalized) := by
  unfold priorExtents priorMarks
  refine .of_append_nil ?_
  simp only [Value.marks_append, append_assoc]
  cases normalized
  · simp only [Bool.false_eq_true, if_false]
    infer_instance
  · simp only [if_true]
    infer_instance

def transposedMarks : List String :=
  ["@pb_w_transpose", "@pb_h_transpose", "@pb_x_transpose", "@pb_y_transpose"]

instance (b : BoxNames) : Emits (name.marks transposedMarks) (transposed name b) := by
  unfold transposed transposedMarks
  exact .of_append_nil inferInstance

def varianceMarks : List String := ["@variance_split"] ++ ["@variance_raw"]

instance (op : OpNode) (axis : Int) : Emits (name.marks varianceMarks) (variancesOf op name axis) := by
  unfold variancesOf varianceMarks
  refine .of_append_nil ?_
  rw [Value.marks_append, append_assoc]
  infer_instance

def deltaMarks : List String :=
  fourMarks "@variance_split" ++ fourMarks "@targebox_split" ++ fourMarks "@targebox_squeeze" ++
    ["@decode_x_step1", "@decode_y_step1", "@decode_w_step1", "@decode_h_step1"]

instance (op : OpNode) (variances : Value) :
    Emits (name.marks deltaMarks) (scaledDeltas op name variances) := by
  unfold scaledDeltas deltaMarks
  refine .of_append_nil ?_
  simp only [Value.marks_append, append_assoc]
  infer_instance

def decodedMarks : List String :=
  ["@decode_x_step2", "@decode_y_step2"] ++ ["@decode_x_step3", "@decode_y_step3"] ++
    ["@decode_w_step2", "@decode_h_step2"] ++ ["@decode_w_step3", "@decode_h_step3"] ++
    ["@decode_half_w_step4", "@decode_half_h_step4"]

instance (two : Value) (delta prior : BoxNames) :
    Emits (name.marks decodedMarks) (decodedExtents name two delta prior) := by
  unfold decodedExtents decodedMarks
  refine .of_append_nil ?_
  simp only [Value.marks_append, append_assoc]
  infer_instance

def cornerMarks : List String :=
  ["@ouput_x1", "@output_y1"] ++ ["@ouput_x2", "@output_y2"] ++
    ["@ouput_unnorm_x2", "@ouput_unnorm_y2"] ++
    ["@points_unsqueeze_x1", "points_unsqueeze_y1", "points_unsqueeze_x2", "points_unsqueeze_y2"]

instance (op : OpNode) (one : Value) (normalized : Bool) (b : BoxNames) (last : Int) :
    Emits (name.marks cornerMarks ++ (op.slot "OutputBox").given)
      (cornersTo op name one normalized b last) := by
  unfold cornersTo cornerMarks
  simp only [Value.marks_append, append_assoc]
  cases normalized
  · simp only [Bool.false_eq_true, if_false]
    infer_instance
  · simp only [if_true]
    infer_instance

/-- **The marks of boxes that are decoded from deltas.** -/
def coderMarks : List String :=
  ["@slice_1"] ++ ["@slice_2"] ++ priorMarks ++ transposedMarks ++ varianceMarks ++ deltaMarks ++
    decodedMarks ++ cornerMarks

instance (op : OpNode) [op.Plain] :
    Emits ((op.slotAt "OutputBox" 0).marks coderMarks ++ (op.slot "OutputBox").given)
      (boxCoder op) := by
  unfold boxCoder coderMarks
  simp only [Value.marks_append, append_assoc]
  infer_instance

end Coder

/-! ## Prior boxes -/

section Priors

variable (op : OpNode)

instance {V : List Value} {α : Type} (title : String) : Emits V (requireFixed title : Emit α) := by
  unfold requireFixed; infer_instance

instance {V : List Value} : Emits V (priorParameters op) := by unfold priorParameters; infer_instance

instance {V : List Value} : Emits V (densityParameters op) := by unfold densityParameters; infer_instance

instance (boxes variances : Value × List Value) :
    Emits ((op.slot "Boxes").given ++ (op.slot "Variances").given)
      (emitBoxes op boxes variances) := by unfold emitBoxes; infer_instance

instance : Emits ((op.slot "Boxes").given ++ (op.slot "Variances").given) (priorBox op) := by
  unfold priorBox; infer_instance

instance : Emits ((op.slot "Boxes").given ++ (op.slot "Variances").given) (densityPriorBox op) := by
  unfold densityPriorBox; infer_instance

end Priors

/-! ## Suppression -/

section Suppression

variable {V : List Value} (op : OpNode)

instance (boxes : Value) : Emits V (inclusiveBoxes boxes) := by unfold inclusiveBoxes; infer_instance

instance : Emits V (overlapThreshold op) := by unfold overlapThreshold; infer_instance

instance (scores boxes : Value) (cls : Option Nat) : Emits V (suppress op scores boxes cls) := by
  match cls with
  | none => unfold suppress; infer_instance
  | some 0 => unfold suppress; infer_instance
  | some (k + 1) => unfold suppress; infer_instance

instance (classes : Value) : Emits V (foreground op classes) := by unfold foreground; infer_instance

instance (scores : Value) : Emits V (keptCount op scores) := by unfold keptCount; infer_instance

instance (scores boxes : Value) (k n : Nat) : Emits V (suppressClasses op scores boxes k n) := by
  induction n generalizing k V with
  | zero => unfold suppressClasses; infer_instance
  | succ n ih => unfold suppressClasses; infer_instance

/-- The slot for the number of boxes is one of two. -/
theorem countSlot_cases {o : Option Value} (h : countSlot op = .ok o) :
    o = none ∨ o = some (op.slot "NmsRoisNum") ∨ o = some (op.slot "RoisNum") := by
  unfold countSlot at h
  split at h
  · obtain ⟨v, hv, h₁⟩ := except_bind_ok h
    exact Or.inr (Or.inl (by rw [← Except.ok.inj h₁, op.slot_eq hv]))
  · split at h
    · obtain ⟨v, hv, h₁⟩ := except_bind_ok h
      exact Or.inr (Or.inr (by rw [← Except.ok.inj h₁, op.slot_eq hv]))
    · exact Or.inl (Except.ok.inj h).symm

instance (priority := high) {β : Type} (f : Option Value → Emit β) [h₀ : Emits V (f none)]
    [h₁ : Emits V (f (some (op.slot "NmsRoisNum")))] [h₂ : Emits V (f (some (op.slot "RoisNum")))] :
    Emits V (liftM (countSlot op) >>= f) :=
  .known fun o ho => by rcases countSlot_cases op ho with rfl | rfl | rfl <;> assumption

/-- What suppression writes besides the boxes. -/
def extraNames : List Value :=
  (op.slot "Index").given ++ ((op.slot "NmsRoisNum").given ++ (op.slot "RoisNum").given)

instance (boxIds result : Value) : Emits (extraNames op) (suppressionExtras op boxIds result) := by
  have hfirst : Names ((op.slot "NmsRoisNum").given ++ (op.slot "RoisNum").given)
      (op.slot "NmsRoisNum") := ⟨(sublist_append_left _ _).subperm⟩
  have hsecond : Names ((op.slot "NmsRoisNum").given ++ (op.slot "RoisNum").given)
      (op.slot "RoisNum") := ⟨(sublist_append_right _ _).subperm⟩
  unfold suppressionExtras extraNames
  infer_instance

variable [op.Plain]

instance (chosen scores boxes : Value) (perClass : Bool) :
    Emits ((op.slotAt "Out" 0).given ++ extraNames op) (keepBest op chosen scores boxes perClass) := by
  unfold keepBest; infer_instance

instance : Emits ((op.slotAt "Out" 0).given ++ extraNames op) (multiclassSuppression op) := by
  unfold multiclassSuppression; infer_instance

end Suppression

/-! ## Operators that are kept -/

section Kept

variable (op : OpNode) [op.Plain]

theorem foldlM_add_strs (xs : List String) (yss : List (List String)) :
    (yss.map Value.strs).foldlM Value.add (.strs xs) = .ok (.strs (xs ++ yss.flatten)) := by
  induction yss generalizing xs with
  | nil => rw [flatten_nil, append_nil]; rfl
  | cons ys yss ih =>
    have hadd : Value.add (.strs xs) (.strs ys) = .ok (.strs (xs ++ ys)) := by
      rw [Value.strs, Value.strs, Value.add, ← map_append, Value.strs]
    rw [map_cons, foldlM_cons, hadd, flatten_cons, ← append_assoc]
    exact ih (xs ++ ys)

theorem joinSlots_strs (xss : List (List String)) :
    joinSlots (xss.map Value.strs) = .ok (.strs xss.flatten) := by
  cases xss with
  | nil => rfl
  | cons xs xss => exact foldlM_add_strs xs xss

theorem mapM_output {slots : List String} {vs : List Value} (h : slots.mapM op.output = .ok vs) :
    ∃ xss : List (List String), vs = xss.map Value.strs ∧
      (slots.flatMap fun s => (op.slot s).given) = xss.flatten.map Value.str := by
  induction slots generalizing vs with
  | nil => exact ⟨[], (Except.ok.inj h).symm, rfl⟩
  | cons s slots ih =>
    rw [mapM_cons] at h
    obtain ⟨v, hv, h₁⟩ := except_bind_ok h
    obtain ⟨ws, hws, h₂⟩ := except_bind_ok h₁
    obtain ⟨xs, rfl⟩ := OpNode.Plain.output op hv
    obtain ⟨xss, rfl, hgiven⟩ := ih hws
    refine ⟨xs :: xss, (Except.ok.inj h₂).symm, ?_⟩
    rw [flatMap_cons, hgiven, op.slot_eq hv, Value.given_strs, flatten_cons,
      map_append]

theorem given_joinOutputs {slots : List String} {v : Value} (h : joinOutputs op slots = .ok v) :
    v.given = slots.flatMap fun s => (op.slot s).given := by
  obtain ⟨vs, hvs, h₁⟩ := except_bind_ok h
  obtain ⟨xss, rfl, hgiven⟩ := mapM_output op hvs
  rw [joinSlots_strs] at h₁
  rw [← Except.ok.inj h₁, Value.given_strs, hgiven]

instance (k : Kept) :
    Emits (k.outputs.flatMap fun s => (op.slot s).given) (keep k op) := by
  unfold keep
  refine .step fun inputs => .known fun outputs houtputs => ?_
  rw [← given_joinOutputs op houtputs]
  infer_instance

end Kept

end ModelExport
