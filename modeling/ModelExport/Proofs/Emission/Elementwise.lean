import ModelExport.Proofs.Emission.Emits

/-!
# Proofs/Emission/Elementwise — what rules for elements and reductions write

Each rule writes names of its operator, each once (`Emits op.written`).  One writes a name again: an
extreme distance is put under the name of the output before and after it gets its axis back
(`emits_extremeDistance`).
-/

namespace ModelExport

open Emit List Rules

-- the size of an instance grows with the number of steps
set_option synthInstance.maxSize 1000000000

/-! ## Building blocks -/

section Building

variable {V : List Value}

instance (input axes starts ends outputs : Value) [Names V outputs] :
    Emits V (cutTo input axes starts ends outputs) := by unfold cutTo; infer_instance

instance (input axes starts ends : Value) : Emits V (cut input axes starts ends) := by
  unfold cut; infer_instance

instance (v : Value) : Emits V (boundInput v) := by unfold boundInput; infer_instance

instance (input upper lower outputs : Value) [Names V outputs] :
    Emits V (bound input upper lower outputs) := by unfold bound; infer_instance

instance (target : Value) (widest : Nat) (nodes : Value) (i : Nat) (ranks : List Nat) :
    Emits V (castNarrow target widest nodes i ranks) := by
  induction ranks generalizing i V with
  | nil => unfold castNarrow; infer_instance
  | cons r ranks ih => unfold castNarrow; infer_instance

instance (nodes dtypes : Value) : Emits V (align nodes dtypes) := by
  unfold align
  dsimp only
  refine .step fun n => .step fun m => ?_
  split
  · exact .step fun _ => .step fun ranks => by split <;> infer_instance
  · exact .step fun ranks => by split <;> infer_instance

instance (input origin target : Value) : Emits V (convertTo input origin target) := by
  unfold convertTo; infer_instance

instance (asInput : Bool) (input : Value) (axes : List Int) :
    Emits V (insertAxes asInput input axes) := by unfold insertAxes; infer_instance

instance (flag : Value) (op : OpNode) (slot : String) (x : Value) :
    Emits V (transposedIf flag op slot x) := by unfold transposedIf; infer_instance

instance (axis : Value) (xShape yShape : List Int) (y : Value) :
    Emits V (alignedOperand axis xShape yShape y) := by unfold alignedOperand; infer_instance

instance (n : Nat) (x : Value) : Emits V (unsqueezeTimes n x) := by
  induction n generalizing x V with
  | zero => unfold unsqueezeTimes; infer_instance
  | succ n ih => unfold unsqueezeTimes; infer_instance

instance (axesAsInput : Bool) (x keepdims : Value) : Emits V (sumOverSecond axesAsInput x keepdims) := by
  unfold sumOverSecond; infer_instance

end Building

section Rules

variable (op : OpNode) [op.Plain]

/-- Cross entropy writes a loss, and the normalised scores when they have a slot. -/
instance : Emits ((op.slotAt "Loss" 0).given ++ (op.slotAt "Softmax" 0).given)
    (softmaxCrossEntropy op) := by
  rw [← append_nil (op.slotAt "Softmax" 0).given]
  unfold softmaxCrossEntropy
  cases op.hasOutput "Softmax"
  · simp only [Bool.false_eq_true, if_false, pure_bind]
    infer_instance
  · simp only [if_true, bind_assoc, pure_bind]
    infer_instance

/-! ## Extreme distances -/

omit [op.Plain] in
/-- The second of two nodes with the same outputs reads what the first one gives back. -/
theorem reread_extremeDistance {type : String} {x v : Value} {d d₁ d₂ : Draft} {n m : Node}
    (hn : AddsNode type x v d d₁ n)
    (hm : AddsNode "Unsqueeze" (.list [Emit.result n.outputs]) v d₁ d₂ m)
    (hv : ∃ xs, v = .strs xs) :
    UnreadableIn [n, m] ∨ ∀ w ∈ v.given, RewrittenIn [n, m] w := by
  have hin := hm.reads _ rfl
  obtain ⟨_ | ⟨s, _ | ⟨t, ss⟩⟩, rfl⟩ := hv
  · exact Or.inr fun w hw => absurd hw not_mem_nil
  · have hn := hn.exactly s [] rfl
    have hm := hm.exactly s [] rfl
    rw [hn] at hin
    refine Or.inr fun w hw => ⟨0, 1, n, m, Nat.zero_lt_one, rfl, rfl, ?_, ?_, ?_⟩
    · rwa [Value.given_strs, ← hn] at hw
    · rwa [hin]
    · rwa [Value.given_strs, ← hm] at hw
  · rw [hn.exactly s (t :: ss) rfl] at hin
    refine Or.inl ⟨m, mem_cons_of_mem _ mem_cons_self, .strs (s :: t :: ss), ?_, rfl⟩
    rw [hin]
    exact mem_singleton_self _

/-- **An extreme distance is written twice under the name of the output**, the second time by a node
that reads it.  Under several names the second node would read a list, which is no name. -/
theorem emits_extremeDistance (type : String) (htype : Node.isInterface type = false) (x : Value) :
    Emits op.written (extremeDistance type op x) := by
  have htwice : Emits (op.written ++ op.written) (extremeDistance type op x) := by
    unfold extremeDistance; infer_instance
  refine { growth := fun hd h => ?_, version := htwice.version, weights := htwice.weights, again := htwice.again }
  obtain ⟨v, hv, h₁⟩ := computed_ok h
  obtain ⟨y, d₂, hfirst, h₂⟩ := bind_ok h₁
  obtain ⟨v', hv', h₃⟩ := computed_ok h₂
  obtain rfl := Except.ok.inj (hv.symm.trans hv')
  rw [Emits.discard_eq] at h₃
  obtain ⟨z, d₄, hsecond, h₄⟩ := bind_ok h₃
  obtain ⟨-, rfl⟩ := pure_ok h₄
  obtain ⟨n, hn, rfl⟩ := nodeNamed_ok hfirst
  obtain ⟨m, hm, -⟩ := nodeNamed_ok hsecond
  have hslot := op.slot_eq hv
  have hgrowth := (hn.growth hd).trans (hm.growth (hn.tidy hd))
  obtain ⟨made, hn'⟩ := hn.leads hd htype
  obtain ⟨made', hm'⟩ := hm.leads (hn.tidy hd) rfl
  have hboth := hn'.trans hm' hn.counts hm.counts
  have hgiven : v.given.Subperm op.written := hslot ▸ (Names.slot op "Out").given
  have hwritten := hboth.written
  simp only [Batch.append, append_nil] at hwritten
  have hleads : Batch.Leads
      { nodes := [n] ++ [m], made := made ++ made', given := v.given, again := v.given }
      op.written _ _ :=
    { hboth with
      given := hgiven
      again := hgiven
      written := hwritten
      reread := reread_extremeDistance hn hm (OpNode.Plain.output op hv) }
  exact { hgrowth with adds := ⟨_, hleads⟩ }

instance : Emits op.written (distance op) := by
  have hmax := emits_extremeDistance op "ReduceMax" rfl
  have hmin := emits_extremeDistance op "ReduceMin" rfl
  unfold distance
  infer_instance

end Rules

end ModelExport
