import ModelExport.Proofs.Emission.Outcomes
import ModelExport.Proofs.Recurrent.Layers
import ModelExport.Proofs.Tensors.Steps

/-!
# Proofs/Suppression/Classes — overlapping boxes, class by class

    scores [M, C]      Transpose · Unsqueeze · Split 1      s 0, s 1, …
    boxes  [M, C, 4]   Transpose · Split 0                  b 0, b 1, …
    class k            NonMaxSuppression (b k) (s k)        + [0, k, 0]

Scores without a batch axis are split into those of single classes, and so are their boxes.  A node that has one
output stands for the name of it, so the only part of a single class is taken to be a text, and its first letter
is read as the name of a tensor.  With two classes or more every class has its own scores and boxes
(`suppression_byClass_iff`).
-/

namespace ModelExport

open Emit List Rules

variable {attrs : Attrs} {ins : List Value} {f : Value → Emit Unit} {d : Draft} {k : Nat}
  {type : String} {u v : Value}

variable {α β : Type}

/-! ## Nodes of a run -/

/-- **A node that makes up several names.** -/
theorem Reaches.fresh {f : Value → Emit β} {Q : β → List Node → Prop} (ins : List Value) (n : Nat)
    (htexts : ∀ v ∈ ins, ∃ s, v = .str s) (hattrs : ∀ a ∈ attrs, a.1 ∉ Node.reserved)
    (h : ∀ (d' : Draft) (m : Node) (i : Nat), d'.opset = d.opset →
      m.Is type attrs ins ((numberedFrom type i n).map .str) →
      Reaches (f (result ((numberedFrom type i n).map .str))) d' fun b ms => Q b (m :: ms)) :
    Reaches (nodeTo type (.list ins) (.int n) attrs >>= f) d Q := by
  obtain ⟨d₁, hem, hversion, -⟩ := emission_asks (asks_int type n) d htexts hattrs
  rw [append_nil] at hem
  obtain ⟨d₂, b, ms, hem', hversion', hb⟩ := h d₁ _ _ hversion (Node.is_asked ..)
  exact ⟨d₂, b, _, hem.bind hem', hversion'.trans hversion, hb⟩

/-- **The nodes of a run that suppress**, and whose names it splits tensors into. -/
structure Tracks (ns chosen : List Node) : Prop where
  chosen : (ns.filter fun n => n.type == "NonMaxSuppression") = chosen
  parts : ∀ n ∈ ns, n.type = "Split" → ∀ v ∈ n.outputs, ∃ k, v = .str (numbered "Split" k)

namespace Tracks

variable {ns ms chosen chosen' : List Node} {n : Node}

theorem nil : Tracks [] [] := ⟨rfl, forall_mem_nil _⟩

theorem append (hns : Tracks ns chosen) (hms : Tracks ms chosen') : Tracks (ns ++ ms) (chosen ++ chosen') where
  chosen := by rw [filter_append, hns.chosen, hms.chosen]
  parts n hn := (mem_append.1 hn).elim (hns.parts n) (hms.parts n)

theorem other {outs : List Value} (hn : n.Is type attrs ins outs) (hns : Tracks ns chosen)
    (htype : type ∉ ["NonMaxSuppression", "Split"] := by decide) : Tracks (n :: ns) chosen where
  chosen := by
    have hno : (n.type == "NonMaxSuppression") = false := by
      rw [hn.type, beq_eq_false_iff_ne]
      exact fun h => htype (h ▸ mem_cons_self)
    rw [filter_cons_of_neg (by simp [hno]), hns.chosen]
  parts := forall_mem_cons.2 ⟨fun h => absurd (hn.type.symm.trans h) fun h =>
    htype (h ▸ mem_cons_of_mem _ (mem_singleton_self _)), hns.parts⟩

theorem split {i : Nat} (hn : n.Is "Split" attrs ins ((numberedFrom "Split" i k).map .str))
    (hns : Tracks ns chosen) : Tracks (n :: ns) chosen where
  chosen := by rw [filter_cons_of_neg (by simp [hn.type]), hns.chosen]
  parts := by
    refine forall_mem_cons.2 ⟨fun _ v hv => ?_, hns.parts⟩
    rw [hn.outputs] at hv
    obtain ⟨s, hs, rfl⟩ := mem_map.1 hv
    obtain ⟨j, rfl, -⟩ := mem_numberedFrom.1 hs
    exact ⟨j, rfl⟩

theorem suppression {outs : List Value} (hn : n.Is "NonMaxSuppression" attrs ins outs) (hns : Tracks ns chosen) :
    Tracks (n :: ns) (n :: chosen) where
  chosen := by rw [filter_cons_of_pos (by simp [hn.type]), hns.chosen]
  parts := forall_mem_cons.2 ⟨fun h => absurd (hn.type.symm.trans h) (by decide), hns.parts⟩

end Tracks

theorem Node.Is.makes {n : Node} {ns : List Node} (h : n.Is type attrs ins [v]) (hn : n ∈ ns) :
    Makes ns type attrs ins v :=
  ⟨n, hn, h.type, h.attrs, h.inputs, h.outputs⟩

/-! ## Parts -/

/-- **Parts of a tensor**, with one place each along an axis. -/
def Parted (ns : List Node) (axis : Int) (u : Value) (parts : List Value) : Prop :=
  ∃ n ∈ ns, n.Is "Split" [("axis", .int axis), ("split", .ints (List.replicate parts.length 1))] [u] parts

/-- The scores of single classes. -/
def ScoreParts (ns : List Node) (scores : Value) (parts : List Value) : Prop :=
  ∃ t u, Makes ns "Transpose" [("perm", .ints [1, 0])] [scores] t ∧
    Makes ns "Unsqueeze" [("axes", .ints [0])] [t] u ∧ Parted ns 1 u parts

/-- The boxes of single classes. -/
def BoxParts (ns : List Node) (boxes : Value) (parts : List Value) : Prop :=
  ∃ t, Makes ns "Transpose" [("perm", .ints [1, 0, 2])] [boxes] t ∧ Parted ns 0 t parts

/-- **Boxes with their far corners moved by one.** -/
def Widened (ns : List Node) (boxes wider : Value) : Prop := ∃ one left top right bottom right' bottom',
  Makes ns "Constant" [("dims", .ints [1]), ("dtype", .int ElementType.FLOAT), ("value", .float 1.0)] [] one ∧
  Parted ns 2 boxes [left, top, right, bottom] ∧ Makes ns "Add" [] [right, one] right' ∧
  Makes ns "Add" [] [bottom, one] bottom' ∧ Makes ns "Concat" [("axis", .int 2)] [left, top, right', bottom'] wider

/-- **The number of a class put in**; there is nothing to do for the first. -/
def Labelled (ns : List Node) (k : Nat) (chosen labelled : Value) : Prop :=
  if k = 0 then labelled = chosen
  else ∃ shift row, Makes ns "Constant" [("dtype", .int ElementType.INT64), ("value", .ints [0, k, 0])] [] shift ∧
    Makes ns "Unsqueeze" [("axes", .ints [0])] [shift] row ∧ Makes ns "Add" [] [chosen, row] labelled

/-- **What a node chooses for a class**, by given scores and boxes. -/
def Chosen (ns : List Node) (normalized : Bool) (scores boxes : Value) (k : Nat) (n : Node) (result : Value) : Prop :=
  ∃ wider rest chosen, (if normalized then wider = boxes else Widened ns boxes wider) ∧
    n.inputs = wider :: scores :: rest ∧ n.outputs = [chosen] ∧ Labelled ns k chosen result

/-- **Overlapping boxes are dropped class by class**: the `k`-th node that suppresses has the `k`-th parts of scores and
boxes, its choices get the number of their class, and all choices stand in the order of classes. -/
def ByClass (ns : List Node) (normalized : Bool) (scores boxes : Value) (classes : Nat) : Prop :=
  ∃ ss bs rs r, ScoreParts ns scores ss ∧ BoxParts ns boxes bs ∧ ss.length = classes ∧ bs.length = classes ∧
    rs.length = classes ∧ (ns.filter fun n => n.type == "NonMaxSuppression").length = classes ∧
    (∀ k < classes, ∃ s b n r, ss[k]? = some s ∧ bs[k]? = some b ∧
      (ns.filter fun n => n.type == "NonMaxSuppression")[k]? = some n ∧ rs[k]? = some r ∧
      Chosen ns normalized s b k n r) ∧
    Makes ns "Concat" [("axis", .int 0)] rs r

section Mono

variable {ns ms : List Node} (hsub : ns ⊆ ms)

include hsub

theorem Parted.mono {axis : Int} {parts : List Value} (h : Parted ns axis u parts) :
    Parted ms axis u parts := by
  obtain ⟨n, hn, his⟩ := h
  exact ⟨n, hsub hn, his⟩

theorem Widened.mono (h : Widened ns u v) : Widened ms u v := by
  obtain ⟨one, left, top, right, bottom, right', bottom', hone, hparts, hright, hbottom, hv⟩ := h
  exact ⟨one, left, top, right, bottom, right', bottom', hone.mono hsub, hparts.mono hsub, hright.mono hsub,
    hbottom.mono hsub, hv.mono hsub⟩

theorem Labelled.mono (h : Labelled ns k u v) : Labelled ms k u v := by
  unfold Labelled at h ⊢
  split
  · rwa [if_pos ‹_›] at h
  · rw [if_neg ‹_›] at h
    obtain ⟨shift, row, hshift, hrow, hv⟩ := h
    exact ⟨shift, row, hshift.mono hsub, hrow.mono hsub, hv.mono hsub⟩

theorem Chosen.mono {normalized : Bool} {scores boxes r : Value} {n : Node}
    (h : Chosen ns normalized scores boxes k n r) : Chosen ms normalized scores boxes k n r := by
  obtain ⟨wider, rest, chosen, hwider, hins, hout, hlabelled⟩ := h
  refine ⟨wider, rest, chosen, ?_, hins, hout, hlabelled.mono hsub⟩
  split
  · rwa [if_pos ‹_›] at hwider
  · rw [if_neg ‹_›] at hwider
    exact hwider.mono hsub

end Mono

/-! ## Names of parts -/

/-- The name that is taken for the `k`-th of `n` parts, from the `i`-th name on. -/
def splitName (n i k : Nat) : String := if n = 1 then "S" else numbered "Split" (i + k)

theorem nth_text_zero {s : String} {c : Char} {cs : List Char} (h : s.toList = c :: cs) :
    (Value.str s).nth 0 = .ok (.str (.ofList [c])) := by
  change (do .ok (.str (String.ofList [← memberAt s.toList ((0 : Nat) : Int)])) : Except Slip Value) = _
  rw [Value.memberAt_natCast, h]
  rfl

/-- **Parts by their numbers**: of several the name, of a single one its first letter. -/
theorem nth_parts {n i : Nat} (hk : k < n) :
    (result ((numberedFrom "Split" i n).map .str)).nth k = .ok (.str (splitName n i k)) := by
  unfold splitName
  by_cases hone : n = 1
  · obtain rfl : k = 0 := by omega
    have hsingle : result ((numberedFrom "Split" i 1).map .str) = .str (numbered "Split" (i + 0)) := rfl
    rw [if_pos hone, hone, hsingle]
    exact nth_text_zero (toList_numbered "Split" i)
  · rw [if_neg hone]
    obtain ⟨m, rfl⟩ : ∃ m, n = m + 2 := ⟨n - 2, by omega⟩
    have hlist : result ((numberedFrom "Split" i (m + 2)).map .str) =
        .list ((numberedFrom "Split" i (m + 2)).map .str) := rfl
    rw [hlist]
    change memberAt ((numberedFrom "Split" i (m + 2)).map Value.str) k = _
    rw [Value.memberAt_natCast]
    simp [numberedFrom, hk]

/-! ## One class -/

/-- **Far corners are moved by one.** -/
theorem reaches_inclusiveBoxes (b : String) (d : Draft) : Reaches (inclusiveBoxes (.str b)) d fun v ns =>
    Tracks ns [] ∧ Widened ns (.str b) v ∧ ∃ s, v = .str s := by
  unfold inclusiveBoxes
  refine .node rfl (Or.inl rfl) fun d₁ one _ hone => ?_
  refine .fresh _ 4 (by simp) (by simp [Node.reserved]) fun d₂ parts i _ hparts => ?_
  refine .computed (nth_parts (by decide)) (.node rfl (Or.inr (by simp)) fun d₃ right _ hright => ?_)
  refine .computed (nth_parts (by decide)) (.node rfl (Or.inr (by simp)) fun d₄ bottom _ hbottom => ?_)
  refine .computed (nth_parts (by decide)) (.computed (nth_parts (by decide)) ?_)
  refine .own rfl (Or.inr (by simp [Node.reserved])) fun n hn => ⟨?_, ?_, _, rfl⟩
  · exact .other hone (.split hparts (.other hright (.other hbottom (.other hn .nil))))
  · exact ⟨_, _, _, _, _, _, _, hone.makes (by simp), ⟨parts, by simp, hparts⟩, hright.makes (by simp),
      hbottom.makes (by simp), hn.makes (by simp)⟩

/-- The boxes that are compared. -/
def compared (op : OpNode) (boxes : Value) : Emit Value :=
  if (op.attr "normalized").truthy then pure boxes else inclusiveBoxes boxes

theorem reaches_compared (op : OpNode) (b : String) (d : Draft) : Reaches (compared op (.str b)) d fun v ns =>
    Tracks ns [] ∧ (∃ s, v = .str s) ∧ if (op.attr "normalized").truthy then v = .str b else Widened ns (.str b) v := by
  unfold compared
  split
  · exact .pure _ ⟨.nil, ⟨b, rfl⟩, rfl⟩
  · exact (reaches_inclusiveBoxes b d).imp fun v ns ⟨htracks, hwider, htext⟩ => ⟨htracks, htext, hwider⟩

/-- **Drops boxes that overlap better ones**, without a class. -/
def choose (op : OpNode) (scores boxes : Value) : Emit Value := do
  let overlap ← overlapThreshold op
  let most := if (op.attr "nms_top_k").same (.int (-1)) then .int 100000 else op.attr "nms_top_k"
  let score ← constant ElementType.FLOAT (.list [.float (← (op.attr "score_threshold").toFloat)])
  let overlap ← constant ElementType.FLOAT (.list [.float (← overlap.toFloat)])
  let most ← constant ElementType.INT64 (.list [.int (← most.toInt)])
  let boxes ← compared op boxes
  node "NonMaxSuppression" (.list [boxes, scores, most, overlap, score])

/-- Puts the number of a class in. -/
def label (chosen : Value) : Nat → Emit Value
  | 0 => return chosen
  | k + 1 => do
    let shift ← constant ElementType.INT64 (.ints [0, (k + 1 : Nat), 0])
    let shift ← node "Unsqueeze" (.list [shift]) [("axes", .ints [0])]
    node "Add" (.list [chosen, shift])

theorem suppress_some (op : OpNode) (scores boxes : Value) (k : Nat) :
    suppress op scores boxes (some k) = choose op scores boxes >>= fun chosen => label chosen k := by
  unfold suppress choose compared
  simp only [ite_bind, bind_assoc]
  cases k <;> rfl

theorem reaches_label (c : String) (k : Nat) (d : Draft) : Reaches (label (.str c) k) d fun v ns =>
    Tracks ns [] ∧ Labelled ns k (.str c) v ∧ ∃ s, v = .str s := by
  cases k with
  | zero => exact .pure _ ⟨.nil, rfl, c, rfl⟩
  | succ k =>
    refine .node rfl (Or.inl rfl) fun d₁ shift _ hshift => ?_
    refine .node rfl (Or.inr (by simp [Node.reserved])) fun d₂ row _ hrow => ?_
    refine .own rfl (Or.inr (by simp)) fun n hn => ⟨.other hshift (.other hrow (.other hn .nil)), ?_, _, rfl⟩
    rw [Labelled, if_neg k.succ_ne_zero]
    exact ⟨_, _, hshift.makes (by simp), hrow.makes (by simp), hn.makes (by simp)⟩

/-! ## Operators -/

/-- The types of operators that drop overlapping boxes. -/
def suppressionTypes : List String := ["multiclass_nms", "multiclass_nms2", "matrix_nms", "multiclass_nms3"]

/-- **An operator that drops overlapping boxes**, with scores and boxes of given shapes. -/
structure OpNode.Suppresses (op : OpNode) (scores boxes out : String) (dims boxDims : List Int) : Prop where
  type : op.type ∈ suppressionTypes
  scores : Assoc.get? op.inputs "Scores" = some (.strs [scores])
  boxes : Assoc.get? op.inputs "BBoxes" = some (.strs [boxes])
  out : Assoc.get? op.outputs "Out" = some (.strs [out])
  scoresShape : op.inputShape "Scores" 0 = .ok dims
  boxesShape : op.inputShape "BBoxes" 0 = .ok boxDims
  ranked : boxDims ≠ []
  index : op.type ≠ "multiclass_nms" → ∃ index, Assoc.get? op.outputs "Index" = some (.strs [index])
  counts : ∀ slot ∈ ["NmsRoisNum", "RoisNum"], op.hasOutput slot = true →
    ∃ count, Assoc.get? op.outputs slot = some (.strs [count])
  score : ∃ x, (op.attr "score_threshold").toFloat = .ok x
  overlap : op.type ≠ "matrix_nms" → ∃ x, (op.attr "nms_threshold").toFloat = .ok x
  most : ∃ i, (op.attr "nms_top_k").toInt = .ok i

namespace OpNode.Suppresses

variable {op : OpNode} {scores boxes out : String} {dims boxDims : List Int}

theorem reaches_overlap (hop : op.Suppresses scores boxes out dims boxDims) {f : Value → Emit β}
    {Q : β → List Node → Prop}
    (h : ∀ (d' : Draft) (v : Value) (x : Float), d'.opset = d.opset → v.toFloat = .ok x →
      Reaches (f v) d' Q) : Reaches (overlapThreshold op >>= f) d Q := by
  unfold overlapThreshold
  rw [ite_bind]
  by_cases htype : (op.type == "matrix_nms") = true
  · rw [if_pos htype, bind_assoc]
    exact .noticed _ fun d' hd' => h d' (.float 0.5) 0.5 hd' rfl
  · rw [if_neg htype]
    obtain ⟨x, hx⟩ := hop.overlap (mt beq_iff_eq.2 htype)
    exact h d _ x rfl hx

theorem most_eq (hop : op.Suppresses scores boxes out dims boxDims) : ∃ i,
    (if (op.attr "nms_top_k").same (.int (-1)) then .int 100000 else op.attr "nms_top_k" : Value).toInt = .ok i := by
  split
  · exact ⟨100000, rfl⟩
  · exact hop.most

end OpNode.Suppresses

section Suppressed

variable {op : OpNode} {scores boxes out : String} {dims boxDims : List Int}

/-- **One node suppresses**, by the scores and boxes that are given. -/
theorem reaches_choose (hop : op.Suppresses scores boxes out dims boxDims) (s b : String) (d : Draft) :
    Reaches (choose op (.str s) (.str b)) d fun v ns => ∃ n wider rest, Tracks ns [n] ∧ v = .str n.name ∧
      (if (op.attr "normalized").truthy then wider = .str b else Widened ns (.str b) wider) ∧
      n.inputs = wider :: .str s :: rest ∧ n.outputs = [.str n.name] := by
  obtain ⟨x, hscore⟩ := hop.score
  obtain ⟨i, hmost⟩ := hop.most_eq
  unfold choose
  refine hop.reaches_overlap fun d₁ v y _ hoverlap => ?_
  refine .computed hscore (.node rfl (Or.inl rfl) fun d₂ score _ hscored => ?_)
  refine .computed hoverlap (.node rfl (Or.inl rfl) fun d₃ overlap _ hoverlapping => ?_)
  refine .computed hmost (.node rfl (Or.inl rfl) fun d₄ most _ hcounted => ?_)
  refine .bind (reaches_compared op b d₄) fun d₅ _ ms _ ⟨htracks, ⟨w, hw⟩, hwider⟩ => ?_
  subst hw
  refine .own rfl (Or.inr (by simp)) fun n hn => ⟨n, .str w, _, ?_, rfl, ?_, hn.inputs, hn.outputs⟩
  · exact .other hscored (.other hoverlapping (.other hcounted (htracks.append (.suppression hn .nil))))
  · split
    · rwa [if_pos ‹_›] at hwider
    · rw [if_neg ‹_›] at hwider
      exact hwider.mono fun m hm => by simp [hm]

theorem reaches_suppress (hop : op.Suppresses scores boxes out dims boxDims) (s b : String) (k : Nat) (d : Draft) :
    Reaches (suppress op (.str s) (.str b) (some k)) d fun v ns => ∃ n, Tracks ns [n] ∧
      Chosen ns (op.attr "normalized").truthy (.str s) (.str b) k n v ∧ ∃ t, v = .str t := by
  rw [suppress_some]
  refine .bind (reaches_choose hop s b d) fun d₁ _ ns _ ⟨n, wider, rest, htracks, hv, hwider, hins, hout⟩ => ?_
  subst hv
  refine (reaches_label n.name k d₁).imp fun v ms ⟨htracks', hlabelled, htext⟩ => ?_
  refine ⟨n, htracks.append htracks', ⟨wider, rest, _, ?_, hins, hout, hlabelled.mono fun m hm => by simp [hm]⟩, htext⟩
  split
  · rwa [if_pos ‹_›] at hwider
  · rw [if_neg ‹_›] at hwider
    exact hwider.mono fun m hm => by simp [hm]

/-- **Every class has a node of its own**, from one class on. -/
theorem reaches_suppressClasses (hop : op.Suppresses scores boxes out dims boxDims) {ss bs : Value}
    {sName bName : Nat → String} {classes : Nat} (hs : ∀ k < classes, ss.nth k = .ok (.str (sName k)))
    (hb : ∀ k < classes, bs.nth k = .ok (.str (bName k))) : ∀ (m k : Nat) (d : Draft), k + m = classes →
    Reaches (suppressClasses op ss bs k m) d fun rs ns => ∃ cs, Tracks ns cs ∧ cs.length = m ∧ rs.length = m ∧
      (∀ r ∈ rs, ∃ t, r = .str t) ∧ ∀ i < m, ∃ n r, cs[i]? = some n ∧ rs[i]? = some r ∧
        Chosen ns (op.attr "normalized").truthy (.str (sName (k + i))) (.str (bName (k + i))) (k + i) n r
  | 0, k, d, _ => .pure _ ⟨[], .nil, rfl, rfl, forall_mem_nil _, fun i hi => absurd hi (Nat.not_lt_zero i)⟩
  | m + 1, k, d, hkm => by
    refine .computed (hs k (by omega)) (.computed (hb k (by omega)) ?_)
    refine .bind (reaches_suppress hop _ _ k d) fun d₁ v ns _ ⟨n, htracks, hchosen, htext⟩ => ?_
    refine .bind (reaches_suppressClasses hop hs hb m (k + 1) d₁ (by omega)) fun d₂ rs ms _
      ⟨cs, htracks', hcs, hrs, htexts, heach⟩ => .pure _ ?_
    rw [append_nil]
    refine ⟨n :: cs, htracks.append htracks', by simp [hcs], by simp [hrs], forall_mem_cons.2 ⟨htext, htexts⟩, ?_⟩
    intro i hi
    cases i with
    | zero => exact ⟨n, v, rfl, rfl, hchosen.mono (subset_append_left _ _)⟩
    | succ i =>
      obtain ⟨n', r, hn', hr, hchosen'⟩ := heach i (by omega)
      rw [Nat.add_right_comm] at hchosen'
      exact ⟨n', r, hn', hr, hchosen'.mono (subset_append_right _ _)⟩

end Suppressed

/-! ## Keeping the best -/

/-- **A run that succeeds**, and neither splits nor suppresses. -/
def Lays (x : Emit α) : Prop := ∀ d, Reaches x d fun _ ns => Tracks ns []

/-- The same, with a name for what it gives. -/
def LaysName (x : Emit Value) : Prop := ∀ d, Reaches x d fun v ns => Tracks ns [] ∧ ∃ s, v = .str s

section Lays

variable {type : String} {inputs : Value} {attrs : Attrs}

theorem LaysName.node (htype : type ∉ ["NonMaxSuppression", "Split"] := by decide)
    (hin : ∃ ins, Node.inputList (givenInputs inputs) = .ok ins := by exact ⟨_, rfl⟩)
    (hattrs : Node.isConstant type = true ∨ ∀ a ∈ attrs, a.1 ∉ Node.reserved := by
      first | exact Or.inl rfl | exact Or.inr (by simp [Node.reserved])) :
    LaysName (Emit.node type inputs attrs) := fun _ => by
  obtain ⟨ins, hin⟩ := hin
  exact .own hin hattrs fun n hn => ⟨.other hn .nil htype, _, rfl⟩

theorem LaysName.bind {x : Emit Value} {f : Value → Emit Value} (hx : LaysName x) (hf : ∀ s, LaysName (f (.str s))) :
    LaysName (x >>= f) := fun d => .bind (hx d) fun d' _ ns _ ⟨htracks, s, hs⟩ => by
  subst hs
  exact (hf s d').imp fun _ _ ⟨htracks', htext⟩ => ⟨htracks.append htracks', htext⟩

namespace Lays

theorem pure (a : α) : Lays (Pure.pure a : Emit α) := fun _ => .pure a .nil

theorem after {x : Emit Value} (hx : LaysName x) (hf : ∀ s, Lays (f (.str s))) :
    Lays (x >>= f) := fun d => .bind (hx d) fun d' _ _ _ ⟨htracks, s, hs⟩ => by
  subst hs
  exact (hf s d').imp fun _ _ htracks' => htracks.append htracks'

theorem computed {e : Except Slip α} {a : α} (ha : e = .ok a) {f : α → Emit β} (hf : Lays (f a)) :
    Lays (liftM e >>= f) := fun d => .computed ha (hf d)

theorem node (hf : ∀ s, Lays (f (.str s))) (htype : type ∉ ["NonMaxSuppression", "Split"] := by decide)
    (hin : ∃ ins, Node.inputList (givenInputs inputs) = .ok ins := by exact ⟨_, rfl⟩)
    (hattrs : Node.isConstant type = true ∨ ∀ a ∈ attrs, a.1 ∉ Node.reserved := by
      first | exact Or.inl rfl | exact Or.inr (by simp [Node.reserved])) :
    Lays (Emit.node type inputs attrs >>= f) := .after (.node htype hin hattrs) hf

theorem pair (htexts : ∀ v ∈ ins, ∃ s, v = .str s) (hf : ∀ a b, Lays (f (.list [.str a, .str b])))
    (htype : type ∉ ["NonMaxSuppression", "Split"] := by decide) :
    Lays (nodeTo type (.list ins) (.int 2) >>= f) := fun _ =>
  .fresh _ 2 htexts (forall_mem_nil _) fun d' _ _ _ hm => (hf _ _ d').imp fun _ _ htracks => .other hm htracks htype

theorem named (o : String) (hf : Lays (f (.str o))) (htype : type ∉ ["NonMaxSuppression", "Split"] := by decide)
    (hin : ∃ ins, Node.inputList (givenInputs inputs) = .ok ins := by exact ⟨_, rfl⟩)
    (hattrs : ∀ a ∈ attrs, a.1 ∉ Node.reserved := by simp [Node.reserved]) :
    Lays (nodeTo type inputs (.strs [o]) attrs >>= f) := fun d => by
  obtain ⟨ins, hin⟩ := hin
  have hnode : Reaches (nodeTo type inputs (.str o) attrs) d fun v ns => Tracks ns [] ∧ v = .str o :=
    .named hin (Or.inr hattrs) o fun n hn => ⟨.other hn .nil htype, rfl⟩
  rw [nodeTo_str] at hnode
  refine .bind hnode fun d' _ _ _ ⟨htracks, hv⟩ => ?_
  subst hv
  exact (hf d').imp fun _ _ htracks' => htracks.append htracks'

theorem writes (o : String) {f : Unit → Emit Unit} (hf : Lays (f ()))
    (htype : type ∉ ["NonMaxSuppression", "Split"] := by decide)
    (hin : ∃ ins, Node.inputList (givenInputs inputs) = .ok ins := by exact ⟨_, rfl⟩)
    (hattrs : ∀ a ∈ attrs, a.1 ∉ Node.reserved := by simp [Node.reserved]) :
    Lays (discard (nodeTo type inputs (.strs [o]) attrs) >>= f) := by
  rw [Emits.discard_eq, bind_assoc]
  exact .named o hf htype hin hattrs

end Lays

end Lays

section Keeping

variable {op : OpNode} {scores boxes out : String} {dims boxDims : List Int}

theorem laysName_foreground (op : OpNode) (classes : String) : LaysName (foreground op (.str classes)) := by
  unfold foreground
  dsimp only
  split
  · exact .node
  · exact .bind .node fun _ => .bind .node fun _ => .bind .node fun _ => .node

theorem laysName_keptCount (op : OpNode) (scores : String) : LaysName (keptCount op (.str scores)) := by
  unfold keptCount
  iterate 9 refine .bind .node fun _ => ?_
  exact .node

theorem OpNode.Suppresses.countSlot_eq (hop : op.Suppresses scores boxes out dims boxDims) :
    countSlot op = .ok none ∨ ∃ o, countSlot op = .ok (some (.strs [o])) := by
  unfold countSlot
  split
  · obtain ⟨o, ho⟩ := hop.counts "NmsRoisNum" (by simp) ‹_›
    exact Or.inr ⟨o, by simp only [OpNode.output, ho]; rfl⟩
  · split
    · obtain ⟨o, ho⟩ := hop.counts "RoisNum" (by simp) ‹_›
      exact Or.inr ⟨o, by simp only [OpNode.output, ho]; rfl⟩
    · exact Or.inl rfl

theorem lays_suppressionExtras (hop : op.Suppresses scores boxes out dims boxDims) (boxIds result : String) :
    Lays (suppressionExtras op (.str boxIds) (.str result)) := by
  unfold suppressionExtras
  split
  · obtain ⟨index, hindex⟩ := hop.index fun h => by simp_all
    have hout : op.output "Index" = .ok (.strs [index]) := by simp only [OpNode.output, hindex]
    refine .computed hout (.writes index ?_)
    split
    · refine .node fun shape => .node fun extents => .node fun first => ?_
      rcases hop.countSlot_eq with hslot | ⟨o, hslot⟩
      · exact .computed hslot (.pure ())
      · refine .computed hslot ?_
        dsimp only
        rw [Emits.discard_eq]
        exact .named o (.pure ())
    · exact .pure ()
  · exact .pure ()

/-- **The best boxes are kept**, whatever they are chosen from. -/
theorem lays_keepBest (hop : op.Suppresses scores boxes out dims boxDims) (chosen s b : String) (perClass : Bool) :
    Lays (keepBest op (.str chosen) (.str s) (.str b) perClass) := by
  have hout : op.outputAt "Out" 0 = .ok (.str out) := by simp only [OpNode.outputAt, OpNode.output, hop.out]; rfl
  unfold keepBest
  iterate 6 refine .node fun _ => ?_
  refine .node fun boxIds => .after (laysName_foreground op _) fun visible => ?_
  iterate 9 refine .node fun _ => ?_
  refine .after (laysName_keptCount op _) fun count => .pair (by simp) fun values order => .computed rfl ?_
  iterate 2 refine .node fun _ => ?_
  refine .node fun bestIds => ?_
  iterate 7 refine .node fun _ => ?_
  refine .pair (by simp) fun sorted places => .computed rfl (.node fun byClass => .computed hout (.named out ?_))
  exact lays_suppressionExtras hop _ _

end Keeping

/-! ## All classes -/

section Classes

variable {op : OpNode} {scores boxes out : String} {dims boxDims : List Int}

theorem OpNode.Suppresses.inputAt_eq (hop : op.Suppresses scores boxes out dims boxDims) :
    op.inputAt "Scores" 0 = .ok (.str scores) ∧ op.inputAt "BBoxes" 0 = .ok (.str boxes) := by
  unfold OpNode.inputAt
  rw [hop.scores, hop.boxes]
  exact ⟨rfl, rfl⟩

theorem OpNode.Suppresses.reaches_notice (hop : op.Suppresses scores boxes out dims boxDims) {x : Emit Unit}
    {Q : Unit → List Node → Prop} {text : String} (h : ∀ d' : Draft, d'.opset = d.opset → Reaches x d' Q) :
    Reaches (do
      if (← memberAt (← op.inputShape "BBoxes" 0) 0) != 1 then notify (.warning text)
      x) d Q := by
  obtain ⟨batch, rest, rfl⟩ := exists_cons_of_ne_nil hop.ranked
  refine .computed hop.boxesShape (.computed (Value.memberAt_natCast (batch :: rest) 0) ?_)
  dsimp only
  split
  · exact .noticed _ h
  · exact h d rfl

/-- **The nodes of an operator whose scores have no batch axis.** -/
theorem reaches_multiclassSuppression {rows : Int} {classes : Nat}
    (hop : op.Suppresses scores boxes out [rows, classes] boxDims) (d : Draft) :
    Reaches (multiclassSuppression op) d fun _ ns => ∃ i j cs rs r,
      ScoreParts ns (.str scores) ((numberedFrom "Split" i classes).map .str) ∧
      BoxParts ns (.str boxes) ((numberedFrom "Split" j classes).map .str) ∧ Tracks ns cs ∧
      cs.length = classes ∧ rs.length = classes ∧ (∀ k < classes, ∃ n r, cs[k]? = some n ∧ rs[k]? = some r ∧
        Chosen ns (op.attr "normalized").truthy (.str (splitName classes i k)) (.str (splitName classes j k)) k n r) ∧
      Makes ns "Concat" [("axis", .int 0)] rs r := by
  have hones : ∀ i, List.replicate ((numberedFrom "Split" i classes).map Value.str).length (1 : Int) =
      List.replicate (classes : Int).toNat 1 := fun i => by simp [numberedFrom]
  obtain ⟨hscores, hboxes⟩ := hop.inputAt_eq
  unfold multiclassSuppression
  refine hop.reaches_notice fun d₀ _ => .computed hscores (.computed hboxes (.computed hop.scoresShape ?_))
  refine .computed (a := (classes : Int)) rfl ?_
  refine .node rfl (Or.inr (by simp [Node.reserved])) fun d₁ turned _ hturned => ?_
  refine .node rfl (Or.inr (by simp [Node.reserved])) fun d₂ lifted _ hlifted => ?_
  refine .fresh [.str lifted.name] classes (by simp) (by simp [Node.reserved]) fun d₃ scoreNode i _ hss => ?_
  refine .node rfl (Or.inr (by simp [Node.reserved])) fun d₄ turned' _ hturned' => ?_
  refine .fresh [.str turned'.name] classes (by simp) (by simp [Node.reserved]) fun d₅ boxNode j _ hbs => ?_
  refine .bind (reaches_suppressClasses hop (fun k hk => nth_parts hk) (fun k hk => nth_parts hk) classes 0 d₅
    (Nat.zero_add _)) fun d₆ rs ns _ hchosen => ?_
  obtain ⟨cs, htracks, hcs, hrs, htexts, heach⟩ := hchosen
  have hin : Node.inputList (givenInputs (.list rs)) = .ok rs := inputList_texts htexts
  refine .node hin (Or.inr (by simp [Node.reserved])) fun d₇ joined _ hjoined => ?_
  refine .node rfl (Or.inl rfl) fun d₈ rows _ hrows => .node rfl (Or.inr (by simp)) fun d₉ flat _ hflat => ?_
  refine (lays_keepBest hop _ _ _ true d₉).imp fun _ ms htracks' =>
    ⟨i, j, cs, rs, .str joined.name, ?_, ?_, ?_, hcs, hrs, ?_, ?_⟩
  · exact ⟨_, _, hturned.makes (by simp), hlifted.makes (by simp), scoreNode, by simp, by rw [hones]; exact hss⟩
  · exact ⟨_, hturned'.makes (by simp), boxNode, by simp, by rw [hones]; exact hbs⟩
  · have hrest := htracks.append (.other hjoined (.other hrows (.other hflat htracks')))
    rw [append_nil] at hrest
    exact .other hturned (.other hlifted (.split hss (.other hturned' (.split hbs hrest))))
  · intro k hk
    obtain ⟨n, r, hn, hr, hchosen⟩ := heach k hk
    rw [Nat.zero_add] at hchosen
    exact ⟨n, r, hn, hr, hchosen.mono fun m hm => by simp [hm]⟩
  · exact hjoined.makes (by simp)

theorem OpNode.Suppresses.emission_mapUpTo (hop : op.Suppresses scores boxes out dims boxDims)
    (exportType : ExportType) (depth : Nat) {d' : Draft} (hversion : 10 ≤ d.opset) {ns : List Node}
    (hem : Emission (multiclassSuppression op) d d' () ns) :
    Emission (mapUpTo Registry.standard exportType (depth + 1) op) d d' () ns := by
  have hrules : Registry.standard.rulesOf (.str op.type) = some [(10, multiclassSuppression)] ∧
      Registry.standard.composite? (.str op.type) = none := by
    have htype := hop.type
    simp only [suppressionTypes, mem_cons, not_mem_nil, or_false] at htype
    rcases htype with htype | htype | htype | htype <;> rw [htype] <;> exact ⟨rfl, rfl⟩
  exact emission_mapUpTo_of_rule hrules.2 (Registry.ruleFor_of_latest hrules.1 rfl hversion (by simp)) hem

end Classes

/-- **Overlapping boxes are dropped class by class if and only if there are several classes.** -/
theorem suppression_byClass_iff (exportType : ExportType) (depth : Nat) {op : OpNode} {scores boxes out : String}
    {boxDims : List Int} {rows : Int} {classes : Nat} (hop : op.Suppresses scores boxes out [rows, classes] boxDims)
    (hclasses : 1 ≤ classes) (d : Draft) (hversion : 10 ≤ d.opset) : ∃ d' ns,
      Emission (mapUpTo Registry.standard exportType (depth + 1) op) d d' () ns ∧
      (ByClass ns (op.attr "normalized").truthy (.str scores) (.str boxes) classes ↔ 2 ≤ classes) := by
  obtain ⟨d', _, ns, hem, -, i, j, cs, rs, r, hss, hbs, htracks, hcs, hrs, heach, hjoined⟩ :=
    reaches_multiclassSuppression hop d
  refine ⟨d', ns, hop.emission_mapUpTo exportType depth hversion hem, fun h => ?_, fun h => ?_⟩
  · by_contra hone
    obtain rfl : classes = 1 := by omega
    obtain ⟨ss, bs, rs', r', ⟨t, u, -, -, m, hm, hsplit⟩, -, -, -, -, -, hown, -⟩ := h
    obtain ⟨s, b, n, r'', hs, -, hn, -, wider, rest, chosen, -, hins, -⟩ := hown 0 Nat.zero_lt_one
    obtain ⟨n', r₀, hn', -, wider', rest', chosen', -, hins', -⟩ := heach 0 Nat.zero_lt_one
    rw [htracks.chosen] at hn
    obtain rfl := Option.some.inj (hn.symm.trans hn')
    -- the node reads a letter, and no part has such a name
    have hletter : s = .str "S" := (List.cons.inj (List.cons.inj (hins.symm.trans hins')).2).1
    have hmem : s ∈ m.outputs := hsplit.outputs ▸ List.mem_of_getElem? hs
    obtain ⟨k, hk⟩ := htracks.parts m hm hsplit.type s hmem
    have hplain := Draft.unmade_of_endsPlainly (s := "S") (by decide) { opset := 0 }
    exact hplain "Split" k (Nat.zero_le k) (hletter.symm.trans hk)
  · have hname : ∀ i k, splitName classes i k = numbered "Split" (i + k) := fun i k => if_neg (by omega)
    have hpart : ∀ i k, k < classes → ((numberedFrom "Split" i classes).map Value.str)[k]? =
        some (.str (splitName classes i k)) := fun i k hk => by simp [numberedFrom, hk, hname]
    refine ⟨_, _, rs, r, hss, hbs, by simp [numberedFrom], by simp [numberedFrom], hrs, ?_, fun k hk => ?_, hjoined⟩
    · rw [htracks.chosen, hcs]
    · obtain ⟨n, r, hn, hr, hchosen⟩ := heach k hk
      exact ⟨_, _, n, r, hpart i k hk, hpart j k hk, by rwa [htracks.chosen], hr, hchosen⟩

/-- Five boxes for each of some classes. -/
def OpNode.suppressing (classes : Nat) : OpNode :=
  { name := "multiclass_nms_0", type := "multiclass_nms"
    inputs := [("BBoxes", .strs ["boxes"]), ("Scores", .strs ["scores"])], outputs := [("Out", .strs ["out"])]
    attrs := [("background_label", .int (-1)), ("score_threshold", .float 0.05), ("nms_top_k", .int 400),
      ("nms_threshold", .float 0.3), ("nms_eta", .float 1.0), ("keep_top_k", .int 200), ("normalized", .bool true)]
    block := some
      { vars := [{ name := "boxes", shape := [5, classes, 4] }, { name := "scores", shape := [5, classes] }]
        ops := [] } }

theorem OpNode.suppresses_suppressing (classes : Nat) :
    (suppressing classes).Suppresses "scores" "boxes" "out" [5, classes] [5, classes, 4] where
  type := mem_cons_self
  scores := rfl
  boxes := rfl
  out := rfl
  scoresShape := rfl
  boxesShape := rfl
  ranked := cons_ne_nil _ _
  index h := absurd rfl h
  counts slot hslot hout := by
    rcases mem_pair.1 hslot with rfl | rfl <;> cases hout
  score := ⟨_, rfl⟩
  overlap _ := ⟨_, rfl⟩
  most := ⟨_, rfl⟩

/-- **A single class is suppressed by what is not its own, two classes are not.** -/
theorem suppression_byClass_iff_single :
    (∃ d' ns, Emission (mapUpTo Registry.standard .none 1 (.suppressing 1)) { opset := 10 } d' () ns ∧
      ¬ ByClass ns true (.str "scores") (.str "boxes") 1) ∧
    ∃ d' ns, Emission (mapUpTo Registry.standard .none 1 (.suppressing 2)) { opset := 10 } d' () ns ∧
      ByClass ns true (.str "scores") (.str "boxes") 2 := by
  constructor
  · obtain ⟨d', ns, hem, hiff⟩ := suppression_byClass_iff .none 0 (OpNode.suppresses_suppressing 1) (by decide)
      { opset := 10 } (by decide)
    exact ⟨d', ns, hem, mt hiff.1 (by decide)⟩
  · obtain ⟨d', ns, hem, hiff⟩ := suppression_byClass_iff .none 0 (OpNode.suppresses_suppressing 2) (by decide)
      { opset := 10 } (by decide)
    exact ⟨d', ns, hem, hiff.2 le_rfl⟩

end ModelExport
