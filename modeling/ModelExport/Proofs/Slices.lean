import Mathlib.Data.List.Forall2
import ModelExport.Proofs.Emission.Asked
import ModelExport.Proofs.Repetition.Ranges

/-!
# Proofs/Slices — what a range selects before and after its bounds are changed

    size 3     start   -5  -4  -3  -2  -1   0   1   2
    selects from        0   0   0   1   2   0   1   2
    emitted            -2  -1   0   1   2   0   1   2
    selects from        1   2   0   1   2   0   1   2

From version 10 on, ranges are emitted as constants: ends beyond an axis are brought to its size, and
negative starts are counted from the front.  The node reads bounds by the same rule as the program, a
negative one from the end.  So a start before the front that is still negative is counted from the end a
second time, and the selection changes (`selects_emitted_iff`); nothing else does.
-/

namespace ModelExport

open Emit List Rules

variable {k : Nat} {adjust : Value → Value → Except Slip (Option Value)}

/-! ## Ranges -/

/-- **A range along an axis.** -/
structure Cut where
  axis : Int
  start : Int
  stop : Int
  step : Int

namespace Cut

/-- **The places that a range selects**, of an axis of a size: from its start on, up to its stop, step by
step. -/
def selects (c : Cut) (size : Nat) : List Nat :=
  (List.range size).filter fun k => clampEnd size c.start ≤ k ∧ k < clampEnd size c.stop ∧
    c.step ∣ (k : Int) - clampEnd size c.start

def emittedAt (c : Cut) (size : Int) : Cut :=
  { c with
    start := if c.start < 0 ∧ 0 < size then size + c.start else c.start
    stop := if size < c.stop ∧ 0 < size then size else c.stop }

def emitted (dims : List Int) (c : Cut) : Cut := c.emittedAt ((memberAt dims c.axis).toOption.getD 0)

def ofLists : List Int → List Int → List Int → List Int → List Cut
  | a :: axes, s :: starts, e :: ends, t :: steps => ⟨a, s, e, t⟩ :: ofLists axes starts ends steps
  | _, _, _, _ => []

theorem ofLists_map (cuts : List Cut) :
    ofLists (cuts.map axis) (cuts.map start) (cuts.map stop) (cuts.map step) = cuts := by
  induction cuts with
  | nil => rfl
  | cons c cuts ih => rw [map_cons, map_cons, map_cons, map_cons, ofLists, ih]

end Cut

theorem clampEnd_of_neg (n : Nat) {i : Int} (h : i < 0) : clampEnd n i = (i + n).toNat := by
  rw [clampEnd, if_pos h]
  omega

theorem clampEnd_of_nonneg (n : Nat) {i : Int} (h : 0 ≤ i) : clampEnd n i = min i.toNat n := by
  rw [clampEnd, if_neg (Int.not_lt.2 h)]
  omega

namespace Cut

/-- **A range from one place up to another** selects the places between them. -/
theorem selects_span (axis : Int) {a b size : Nat} (hab : a ≤ b) (hb : b ≤ size) :
    (Cut.mk axis a b 1).selects size = List.range' a (b - a) := by
  have hstart : clampEnd size a = a := by
    rw [clampEnd_of_nonneg _ (Int.natCast_nonneg a)]
    omega
  have hstop : clampEnd size b = b := by
    rw [clampEnd_of_nonneg _ (Int.natCast_nonneg b)]
    omega
  have hparts : List.range size = List.range' 0 a ++ (List.range' a (b - a) ++ List.range' b (size - b)) := by
    have hback : List.range' a (b - a) ++ List.range' b (size - b) = List.range' a (size - a) := by
      rw [← Nat.add_sub_cancel' hab, Nat.add_sub_cancel_left, range'_append_1]
      congr 1
      omega
    have hall : List.range' 0 a ++ List.range' a (size - a) = List.range' 0 size := by
      have hjoin : List.range' 0 a ++ List.range' (0 + a) (size - a) = List.range' 0 (a + (size - a)) :=
        range'_append_1
      rwa [Nat.zero_add, Nat.add_sub_cancel' (hab.trans hb)] at hjoin
    rw [hback, hall, range_eq_range']
  simp only [selects, hstart, hstop, Int.one_dvd, and_true, hparts, filter_append]
  rw [filter_eq_nil_iff.2 (by simp; omega), filter_eq_self.2 (by simp; omega),
    filter_eq_nil_iff.2 (by simp; omega), nil_append, append_nil]

section Emitted

variable (c : Cut) {size : Int} (hsize : 0 < size)

include hsize

/-- An end is read the same after it has been brought to the size of its axis. -/
theorem clampEnd_stop_emittedAt :
    clampEnd size.toNat (c.emittedAt size).stop = clampEnd size.toNat c.stop := by
  by_cases hbeyond : size < c.stop
  · have hstop : (c.emittedAt size).stop = size := if_pos ⟨hbeyond, hsize⟩
    rw [hstop, clampEnd_of_nonneg _ hsize.le, clampEnd_of_nonneg _ (hsize.trans hbeyond).le]
    omega
  · have hstop : (c.emittedAt size).stop = c.stop := if_neg fun h => hbeyond h.1
    rw [hstop]

/-- A start is read the same after it has been counted from the front, unless it is still negative then. -/
theorem clampEnd_start_emittedAt : clampEnd size.toNat (c.emittedAt size).start =
    if -2 * size < c.start ∧ c.start < -size then (c.start + 2 * size).toNat
    else clampEnd size.toNat c.start := by
  by_cases hneg : c.start < 0
  · have hstart : (c.emittedAt size).start = size + c.start := if_pos ⟨hneg, hsize⟩
    rw [hstart, clampEnd_of_neg _ hneg]
    rcases lt_or_ge (size + c.start) 0 with hfront | hfront
    · rw [clampEnd_of_neg _ hfront]
      split_ifs <;> omega
    · rw [clampEnd_of_nonneg _ hfront]
      split_ifs <;> omega
  · have hstart : (c.emittedAt size).start = c.start := if_neg fun h => hneg h.1
    rw [hstart, if_neg (by omega)]

/-- **A range selects the same** as emitted, unless its start is counted from the end twice and something
is selected at all. -/
theorem selects_emittedAt_iff : (c.emittedAt size).selects size.toNat = c.selects size.toNat ↔
    ¬ (-2 * size < c.start ∧ c.start < -size ∧ 0 < clampEnd size.toNat c.stop) := by
  have hstop := c.clampEnd_stop_emittedAt hsize
  have hstart := c.clampEnd_start_emittedAt hsize
  constructor
  · rintro h ⟨hlow, hhigh, hpos⟩
    -- the first place is selected by the program, and not by the node
    have hfront : clampEnd size.toNat c.start = 0 := by
      rw [clampEnd_of_neg _ (by omega)]
      omega
    have hmem : 0 ∈ c.selects size.toNat := by
      simpa [selects, hfront, hpos] using hsize
    rw [← h] at hmem
    obtain ⟨hfrom, -⟩ := of_decide_eq_true (mem_filter.1 hmem).2
    rw [hstart, if_pos ⟨hlow, hhigh⟩] at hfrom
    omega
  · intro h
    by_cases hnone : clampEnd size.toNat c.stop = 0
    · simp [selects, hstop, hnone]
    · rw [if_neg fun hboth => h ⟨hboth.1, hboth.2, Nat.pos_of_ne_zero hnone⟩] at hstart
      rw [selects, selects, hstart, hstop]
      rfl

end Emitted

end Cut

/-! ## Bounds that are changed -/

theorem gt_int_int (a b : Int) : Value.gt (.int a) (.int b) = .ok (decide (b < a)) := by
  have horder : Value.order (.int a) (.int b) = .ok (some (compare a b)) := rfl
  rw [Value.gt, horder, except_ok_bind]
  by_cases h : b < a
  · rw [Int.compare_eq_gt.2 h, decide_eq_true h]
    rfl
  · have hne : compare a b ≠ .gt := fun hgt => h (Int.compare_eq_gt.1 hgt)
    simpa [decide_eq_false h] using hne

section Bounds

variable {dims : List Int} {c : Cut} {size : Int} (hsize : memberAt dims c.axis = .ok size)

include hsize

theorem Cut.emitted_eq : c.emitted dims = c.emittedAt size := by
  rw [emitted, hsize]
  rfl

theorem endWithin_cut : ∃ changed, endWithin dims (.int c.axis) (.int c.stop) = .ok changed ∧
    changed.getD (.int c.stop) = .int (c.emitted dims).stop := by
  rw [Cut.emitted_eq hsize]
  change ∃ changed, (memberAt dims c.axis >>= fun size => _) = Except.ok changed ∧ _
  rw [hsize, except_ok_bind, gt_int_int, except_ok_bind]
  by_cases h : size < c.stop ∧ 0 < size
  · refine ⟨some (.int size), ?_, ?_⟩
    · rw [if_pos (by simp [h.1, h.2])]
      rfl
    · rw [Cut.emittedAt, if_pos h, Option.getD_some]
  · refine ⟨none, ?_, ?_⟩
    · rw [if_neg (by simpa using h)]
      rfl
    · rw [Cut.emittedAt, if_neg h, Option.getD_none]

theorem startFromFront_cut : ∃ changed, startFromFront dims (.int c.axis) (.int c.start) = .ok changed ∧
    changed.getD (.int c.start) = .int (c.emitted dims).start := by
  rw [Cut.emitted_eq hsize, Cut.emittedAt]
  by_cases hneg : c.start < 0
  · rw [startFromFront_neg dims c.axis hneg, hsize]
    refine ⟨if 0 < size then some (.int (size + c.start)) else none, rfl, ?_⟩
    by_cases hpos : 0 < size
    · rw [if_pos hpos, if_pos ⟨hneg, hpos⟩, Option.getD_some]
    · rw [if_neg hpos, if_neg fun h => hpos h.2, Option.getD_none]
  · exact ⟨none, startFromFront_nonneg dims _ hneg, by rw [if_neg fun h => hneg h.1, Option.getD_none]⟩

end Bounds

/-- Bounds of ranges are changed range by range, along the axes that come with them. -/
theorem adjustEach_cuts {f g : Cut → Int} :
    ∀ (cuts done : List Cut), (∀ c ∈ cuts, ∃ changed, adjust (.int c.axis) (.int (f c)) = .ok changed ∧
        changed.getD (.int (f c)) = .int (g c)) →
      adjustEach adjust (.ints ((done ++ cuts).map Cut.axis)) done.length ((cuts.map f).map .int) =
        .ok ((cuts.map g).map .int)
  | [], _, _ => rfl
  | c :: cuts, done, h => by
    obtain ⟨changed, hchanged, hgot⟩ := h c mem_cons_self
    have haxis : (Value.ints ((done ++ c :: cuts).map Cut.axis)).nth done.length = .ok (.int c.axis) := by
      change memberAt (((done ++ c :: cuts).map Cut.axis).map Value.int) (done.length : Int) = _
      rw [Value.memberAt_natCast]
      simp
    have hrest := adjustEach_cuts cuts (done ++ [c]) fun c' hc' => h c' (mem_cons_of_mem c hc')
    rw [append_assoc, singleton_append, length_append, length_singleton] at hrest
    rw [map_cons, map_cons, adjustEach, haxis, except_ok_bind, hchanged, except_ok_bind, hrest,
      except_ok_bind, hgot]
    rfl

theorem adjustedFrom_cuts {f g : Cut → Int} {cuts : List Cut}
    (h : ∀ c ∈ cuts, ∃ changed, adjust (.int c.axis) (.int (f c)) = .ok changed ∧
      changed.getD (.int (f c)) = .int (g c)) :
    adjustedFrom adjust (.ints (cuts.map Cut.axis)) 0 ((cuts.map f).map .int) (.ints (cuts.map f)) =
      .ok (.ints (cuts.map g)) := by
  have heach := adjustEach_cuts cuts [] h
  have hlist := adjustedFrom_list adjust (.ints (cuts.map Cut.axis)) ((cuts.map f).map .int) []
  rw [length_nil, nil_append] at heach
  rw [length_nil, heach, except_ok_bind] at hlist
  exact hlist

theorem emission_editAttr (name : String) (v : Value) (d : Draft) :
    Emission (editAttr name v) d { d with edits := Assoc.insert d.edits name v } () [] :=
  (Quiet.modify (f := fun d => { d with edits := Assoc.insert d.edits name v }) (fun _ _ => rfl)
    fun _ => rfl).emission rfl

/-- **Bounds that can be changed are**, and no node is added. -/
theorem emission_adjustBounds {attr : String} {axes v : Value} :
    ∀ {bs : List Value} {i : Int} {bounds : Value} (d : Draft), adjustedFrom adjust axes i bs bounds = .ok v →
      ∃ e, Emission (adjustBounds attr adjust axes i bs bounds) d { d with edits := e } v []
  | [], _, _, d, h => by
    obtain rfl := Except.ok.inj h
    exact ⟨d.edits, (Quiet.pure _).emission rfl⟩
  | b :: bs, i, bounds, d, h => by
    obtain ⟨axis, haxis, h₁⟩ := except_bind_ok h
    obtain ⟨changed, hchanged, h₂⟩ := except_bind_ok h₁
    cases changed with
    | none =>
      obtain ⟨e, he⟩ := emission_adjustBounds d h₂
      exact ⟨e, .computed haxis (.computed hchanged he)⟩
    | some b' =>
      obtain ⟨bounds', hset, h₃⟩ := except_bind_ok h₂
      obtain ⟨e, he⟩ := emission_adjustBounds { d with edits := Assoc.insert d.edits attr bounds' } h₃
      exact ⟨e, .computed haxis (.computed hchanged (.computed hset
        ((emission_editAttr attr bounds' d).bind he)))⟩

/-! ## What is emitted -/

/-- **An operator that cuts ranges out of a tensor.**  Steps may be left out when all of them are one. -/
structure OpNode.Slices (op : OpNode) (x y : String) (dims outDims : List Int) (cuts : List Cut) : Prop
    extends op.Links "Input" x y dims outDims where
  axes : op.attr "axes" = .ints (cuts.map Cut.axis)
  starts : op.attr "starts" = .ints (cuts.map Cut.start)
  ends : op.attr "ends" = .ints (cuts.map Cut.stop)
  strides : Assoc.get? op.attrs "strides" = some (.ints (cuts.map Cut.step)) ∨
    Assoc.get? op.attrs "strides" = none ∧ ∀ c ∈ cuts, c.step = 1
  dropped : ∃ axes, op.attr "decrease_axis" = .ints axes
  within : ∀ c ∈ cuts, -(dims.length : Int) ≤ c.axis ∧ c.axis < dims.length

/-- The integers of the constant that writes a tensor. -/
def constantIn (ns : List Node) (v : Value) : Option (List Int) :=
  (ns.find? fun n => n.type == "Constant" && n.outputs.any fun o => o.same v).bind fun n =>
    (n.attr "value").ints?

/-- **The ranges that a node cuts out**, read off the constants it is wired to. -/
def Node.cuts? (ns : List Node) (n : Node) : Option (List Cut) :=
  match n.inputs with
  | [_, starts, ends, axes, steps] => do
    some (Cut.ofLists (← constantIn ns axes) (← constantIn ns starts) (← constantIn ns ends)
      (← constantIn ns steps))
  | _ => none

section Emitted

variable {op : OpNode} {x y : String} {dims outDims : List Int} {cuts : List Cut}

namespace OpNode.Slices

theorem exists_size (h : op.Slices x y dims outDims cuts) {c : Cut} (hc : c ∈ cuts) :
    ∃ size, memberAt dims c.axis = .ok size :=
  Value.exists_memberAt (h.within c hc).1 (h.within c hc).2

theorem adjusted_ends (h : op.Slices x y dims outDims cuts) :
    adjustedFrom (endWithin dims) (.ints (cuts.map Cut.axis)) 0 ((cuts.map Cut.stop).map .int)
      (.ints (cuts.map Cut.stop)) = .ok (.ints ((cuts.map (Cut.emitted dims)).map Cut.stop)) := by
  rw [map_map (g := Cut.stop)]
  refine adjustedFrom_cuts fun c hc => ?_
  obtain ⟨size, hsize⟩ := h.exists_size hc
  exact endWithin_cut hsize

theorem adjusted_starts (h : op.Slices x y dims outDims cuts) :
    adjustedFrom (startFromFront dims) (.ints (cuts.map Cut.axis)) 0 ((cuts.map Cut.start).map .int)
      (.ints (cuts.map Cut.start)) = .ok (.ints ((cuts.map (Cut.emitted dims)).map Cut.start)) := by
  rw [map_map (g := Cut.start)]
  refine adjustedFrom_cuts fun c hc => ?_
  obtain ⟨size, hsize⟩ := h.exists_size hc
  exact startFromFront_cut hsize

theorem steps_eq (h : op.Slices x y dims outDims cuts) :
    op.attrOr "strides" (.ints (List.replicate cuts.length 1)) = .ints (cuts.map Cut.step) := by
  rcases h.strides with hgiven | ⟨hnone, hunits⟩
  · rw [OpNode.attrOr, hgiven, Option.getD_some]
  · rw [OpNode.attrOr, hnone, Option.getD_none, map_eq_replicate_iff.2 hunits]

theorem exists_dropped (h : op.Slices x y dims outDims cuts) : ∃ dropped, droppedAxes op = .ok dropped := by
  obtain ⟨axes, haxes⟩ := h.dropped
  have hlength : (Value.ints axes).length = .ok axes.length := by simp [Value.ints, Value.length]
  rw [droppedAxes, haxes, hlength, h.outputShape, h.inputShape]
  simp only [except_ok_bind]
  split
  · exact ⟨_, rfl⟩
  · split
    · exact ⟨_, rfl⟩
    · exact ⟨_, rfl⟩

end OpNode.Slices

theorem emission_constantBounds (h : op.Slices x y dims outDims cuts) (d : Draft) :
    ∃ e, Emission (constantBounds op) d { d with edits := e }
      (.ints ((cuts.map (Cut.emitted dims)).map Cut.stop),
        .ints ((cuts.map (Cut.emitted dims)).map Cut.start), .ints (cuts.map Cut.step)) [] := by
  obtain ⟨e₁, hends⟩ := emission_adjustBounds d h.adjusted_ends
  obtain ⟨e₂, hstarts⟩ := emission_adjustBounds { d with edits := e₁ } h.adjusted_starts
  have hunits : unitSteps (.ints (cuts.map Cut.stop)) = .ok (.ints (List.replicate cuts.length 1)) := by
    simp [unitSteps, Value.ints, Value.length, except_ok_bind]
  refine ⟨e₂, ?_⟩
  unfold constantBounds
  rw [h.ends, h.starts, h.axes]
  refine .computed hunits (.computed h.inputShape (.computed rfl (hends.bind (.computed rfl ?_))))
  rw [h.steps_eq]
  exact hstarts.bind ((Quiet.pure _).emission rfl)

/-- The constant with the `k`-th name. -/
def Node.constantAt (k : Nat) (v : Value) : Node :=
  .asked "Constant" k [] [.str (numbered "Constant" k)] [("dtype", .int ElementType.INT64), ("value", v)]

theorem emission_constant {d : Draft} (hk : d.count "Constant" = k) (v : Value) :
    Emission (constant ElementType.INT64 v) d (d.adding (.constantAt k v)) (.str (numbered "Constant" k))
      [.constantAt k v] := by
  subst hk
  exact emission_node d rfl (Or.inl rfl)

theorem count_adding_constantAt {d : Draft} (hk : d.count "Constant" = k) (v : Value) :
    (d.adding (.constantAt k v)).count "Constant" = k + 1 :=
  (d.count_adding_self (.constantAt k v)).trans (congrArg (· + 1) hk)

/-- **A cut**, followed by dropping axes or not. -/
theorem emission_cutAndDrop (h : op.Slices x y dims outDims cuts) (d : Draft) {ins : List Value}
    (hins : ins.map Node.endpoint = ins) (dropped : Option Value) : ∃ d' n rest,
      Emission (cutAndDrop op (.list ins) [] dropped) d d' () (n :: rest) ∧
        n.type = "Slice" ∧ n.inputs = ins ∧ ∀ m ∈ rest, m.type = "Squeeze" := by
  have hin : Node.inputList (givenInputs (.list ins)) = .ok ins := congrArg Except.ok hins
  cases dropped with
  | none => exact ⟨_, _, [], emission_result h.toLinks d hin (Or.inr (by simp)), rfl, rfl, by simp⟩
  | some axes =>
    have hcut : Emission (node "Slice" (.list ins) []) d _ _ _ := emission_node d hin (Or.inr (by simp))
    refine ⟨_, _, _, hcut.bind (emission_result h.toLinks _ rfl ?_), rfl, rfl, ?_⟩
    · exact Or.inr (by simp [Node.reserved])
    · exact fun m hm => congrArg Node.type (mem_singleton.1 hm)

/-- **A cut by constants**: one for each kind of bound, and the node that they are wired to. -/
theorem emission_cutByConstants (h : op.Slices x y dims outDims cuts) (d : Draft)
    (ends starts steps : Value) : ∃ d' n rest k, Emission (cutByConstants op (ends, starts, steps)) d d' ()
      ([Node.constantAt k (op.attr "axes")] ++ ([.constantAt (k + 1) starts] ++ ([.constantAt (k + 2) ends] ++
        ([.constantAt (k + 3) steps] ++ n :: rest)))) ∧
      n.type = "Slice" ∧ n.inputs = [.str x, .str (numbered "Constant" (k + 1)),
        .str (numbered "Constant" (k + 2)), .str (numbered "Constant" k),
        .str (numbered "Constant" (k + 3))] ∧ ∀ m ∈ rest, m.type = "Squeeze" := by
  obtain ⟨k, hk⟩ : ∃ k, d.count "Constant" = k := ⟨_, rfl⟩
  have hk₁ := count_adding_constantAt hk (op.attr "axes")
  have hk₂ := count_adding_constantAt hk₁ starts
  have hk₃ := count_adding_constantAt hk₂ ends
  obtain ⟨dropped, hdropped⟩ := h.exists_dropped
  have hins : [Value.str x, .str (numbered "Constant" (k + 1)), .str (numbered "Constant" (k + 2)),
      .str (numbered "Constant" k), .str (numbered "Constant" (k + 3))].map Node.endpoint =
      [.str x, .str (numbered "Constant" (k + 1)), .str (numbered "Constant" (k + 2)),
        .str (numbered "Constant" k), .str (numbered "Constant" (k + 3))] := rfl
  obtain ⟨d', n, rest, hcut, htype, hinputs, hrest⟩ := emission_cutAndDrop h
    ((((d.adding (.constantAt k (op.attr "axes"))).adding (.constantAt (k + 1) starts)).adding
      (.constantAt (k + 2) ends)).adding (.constantAt (k + 3) steps)) hins dropped
  refine ⟨d', n, rest, k, ?_, htype, hinputs, hrest⟩
  refine (emission_constant hk _).bind ((emission_constant hk₁ _).bind ((emission_constant hk₂ _).bind
    ((emission_constant hk₃ _).bind (.computed hdropped ?_))))
  exact .computed h.firstInput_eq hcut

end Emitted

theorem constantIn_self (k : Nat) (xs : List Int) (ns : List Node) :
    constantIn (.constantAt k (.ints xs) :: ns) (.str (numbered "Constant" k)) = some xs := by
  rw [constantIn, find?_cons_of_pos]
  · exact Value.ints?_ints xs
  · simp [Node.constantAt, Node.asked, Node.renewed]

theorem constantIn_other {j : Nat} (hjk : j ≠ k) (v : Value) (ns : List Node) :
    constantIn (.constantAt k v :: ns) (.str (numbered "Constant" j)) =
      constantIn ns (.str (numbered "Constant" j)) := by
  rw [constantIn, find?_cons_of_neg]
  · rfl
  · have hname : numbered "Constant" k ≠ numbered "Constant" j := fun h => hjk (numbered_inj.1 h).2.symm
    simpa [Node.constantAt, Node.asked, Node.renewed] using hname

/-- **The ranges of a cut by constants** are read off the constants again. -/
theorem cuts?_constants {cuts : List Cut} {n : Node} {v : Value} (rest : List Node)
    (hinputs : n.inputs = [v, .str (numbered "Constant" (k + 1)), .str (numbered "Constant" (k + 2)),
      .str (numbered "Constant" k), .str (numbered "Constant" (k + 3))]) :
    n.cuts? (.constantAt k (.ints (cuts.map Cut.axis)) :: .constantAt (k + 1) (.ints (cuts.map Cut.start)) ::
      .constantAt (k + 2) (.ints (cuts.map Cut.stop)) :: .constantAt (k + 3) (.ints (cuts.map Cut.step)) ::
      rest) = some cuts := by
  rw [Node.cuts?, hinputs]
  dsimp only
  rw [constantIn_self, constantIn_other (by omega), constantIn_self, constantIn_other (by omega),
    constantIn_other (by omega), constantIn_self, constantIn_other (by omega), constantIn_other (by omega),
    constantIn_other (by omega), constantIn_self]
  exact congrArg some (Cut.ofLists_map cuts)

/-- **Ranges are emitted with changed bounds, and select the same if and only if** no start is counted from
the end twice, as far as something is selected at all. -/
theorem slice_selects_same_iff (exportType : ExportType) (depth : Nat) {op : OpNode} {x y : String}
    {dims outDims : List Int} {cuts : List Cut} (htype : op.type ∈ ["slice", "strided_slice"])
    (h : op.Slices x y dims outDims cuts) (d : Draft) (hversion : 10 ≤ d.opset) :
    ∃ d' ns n cuts', Emission (mapUpTo Registry.standard exportType (depth + 1) op) d d' () ns ∧
      ns.filter (fun m => m.type == "Slice") = [n] ∧ n.inputs.head? = some (.str x) ∧
      n.cuts? ns = some cuts' ∧
      List.Forall₂ (fun c c' => c'.axis = c.axis ∧ c'.step = c.step ∧
        ∀ size, memberAt dims c.axis = .ok size → 0 < size → 0 < c.step →
          (c'.selects size.toNat = c.selects size.toNat ↔
            ¬ (-2 * size < c.start ∧ c.start < -size ∧ 0 < clampEnd size.toNat c.stop))) cuts cuts' := by
  have hrules : Registry.standard.rulesOf (.str op.type) = some [(1, sliceAttributes), (10, sliceConstants)] ∧
      Registry.standard.composite? (.str op.type) = none := by
    rcases List.mem_pair.1 htype with htype | htype <;> rw [htype] <;> exact ⟨rfl, rfl⟩
  have hrule : Registry.standard.ruleFor op.type d.opset = .ok sliceConstants :=
    Registry.ruleFor_of_latest hrules.1 rfl hversion (by simp)
  obtain ⟨e, hbounds⟩ := emission_constantBounds h d
  obtain ⟨d', n, rest, k, hcut, hslice, hinputs, hrest⟩ := emission_cutByConstants h { d with edits := e }
    (.ints ((cuts.map (Cut.emitted dims)).map Cut.stop)) (.ints ((cuts.map (Cut.emitted dims)).map Cut.start))
    (.ints (cuts.map Cut.step))
  have hemits := hbounds.bind hcut
  rw [← sliceConstants_eq, h.axes] at hemits
  refine ⟨d', _, n, cuts.map (Cut.emitted dims), emission_mapUpTo_of_rule hrules.2 hrule hemits,
    ?_, ?_, ?_, ?_⟩
  · have hnone : rest.filter (fun m => m.type == "Slice") = [] := by
      refine List.filter_eq_nil_iff.2 fun m hm => ?_
      simp [hrest m hm]
    simp [Node.constantAt, Node.asked, Node.renewed, hslice, hnone]
  · rw [hinputs]
    rfl
  · have haxes : cuts.map Cut.axis = (cuts.map (Cut.emitted dims)).map Cut.axis := by
      rw [List.map_map]
      rfl
    have hsteps : cuts.map Cut.step = (cuts.map (Cut.emitted dims)).map Cut.step := by
      rw [List.map_map]
      rfl
    rw [haxes, hsteps]
    exact cuts?_constants (n :: rest) hinputs
  · refine List.forall₂_map_right_iff.2 (List.forall₂_same.2 fun c hc => ⟨rfl, rfl, ?_⟩)
    intro size hsize hpos _
    rw [Cut.emitted_eq hsize]
    exact c.selects_emittedAt_iff hpos

def OpNode.cutting (c : Cut) : OpNode :=
  { name := "slice_0", type := "slice", inputs := [("Input", .strs ["x"])], outputs := [("Out", .strs ["y"])]
    attrs := [("axes", .ints [c.axis]), ("starts", .ints [c.start]), ("ends", .ints [c.stop]),
      ("strides", .ints [c.step]), ("decrease_axis", .ints [])]
    block := some { vars := [{ name := "x", shape := [3] }, { name := "y", shape := [3] }], ops := [] } }

theorem OpNode.slices_cutting (c : Cut) (hlow : -1 ≤ c.axis) (hhigh : c.axis < 1) :
    (cutting c).Slices "x" "y" [3] [3] [c] :=
  { input := rfl, output := rfl, inputShape := rfl, outputShape := rfl, axes := rfl, starts := rfl
    ends := rfl, strides := Or.inl rfl, dropped := ⟨[], rfl⟩, within := by simpa using ⟨hlow, hhigh⟩ }

/-- **A start before the front of a row of three is counted from its end twice**; a start within it, and an
end beyond it, select what they should. -/
theorem slice_selects_same_iff_row :
    ((Cut.mk 0 (-4) 3 1).selects 3 = [0, 1, 2] ∧ ∃ d' ns n c,
      Emission (mapUpTo Registry.standard .none 1 (.cutting ⟨0, -4, 3, 1⟩)) { opset := 10 } d' () ns ∧
        ns.filter (fun m => m.type == "Slice") = [n] ∧ n.cuts? ns = some [c] ∧ c.selects 3 ≠ [0, 1, 2]) ∧
    (Cut.mk 0 (-2) 9 1).selects 3 = [1, 2] ∧ ∃ d' ns n c,
      Emission (mapUpTo Registry.standard .none 1 (.cutting ⟨0, -2, 9, 1⟩)) { opset := 10 } d' () ns ∧
        ns.filter (fun m => m.type == "Slice") = [n] ∧ n.cuts? ns = some [c] ∧ c.selects 3 = [1, 2] := by
  refine ⟨⟨by decide, ?_⟩, by decide, ?_⟩
  · obtain ⟨d', ns, n, cuts', hemits, hslice, -, hcuts, hsame⟩ := slice_selects_same_iff .none 0 (by decide)
      (OpNode.slices_cutting ⟨0, -4, 3, 1⟩ (by decide) (by decide)) { opset := 10 } (by decide)
    obtain ⟨c, cs, ⟨-, -, hc⟩, hnil, rfl⟩ := List.forall₂_cons_left_iff.1 hsame
    obtain rfl := List.forall₂_nil_left_iff.1 hnil
    exact ⟨d', ns, n, c, hemits, hslice, hcuts, mt (hc 3 rfl (by decide) (by decide)).1 (by decide)⟩
  · obtain ⟨d', ns, n, cuts', hemits, hslice, -, hcuts, hsame⟩ := slice_selects_same_iff .none 0 (by decide)
      (OpNode.slices_cutting ⟨0, -2, 9, 1⟩ (by decide) (by decide)) { opset := 10 } (by decide)
    obtain ⟨c, cs, ⟨-, -, hc⟩, hnil, rfl⟩ := List.forall₂_cons_left_iff.1 hsame
    obtain rfl := List.forall₂_nil_left_iff.1 hnil
    exact ⟨d', ns, n, c, hemits, hslice, hcuts, (hc 3 rfl (by decide) (by decide)).2 (by decide)⟩

end ModelExport
