import ModelExport.Proofs.Repetition.Ranges

/-!
# Proofs/Repetition/Settled — the rules of the catalogue, applied again

Of the rules that change attributes, those of windows and shapes leave alone what they have changed.
Those of ranges and batches may not: `OpNode.Settled` says when they do, and `revisits_of_ruleFor` that
every rule of the catalogue gives the same nodes again if and only if its operator has settled.
-/

namespace ModelExport

open Emit List Rules

variable {version : Int} {rule : Rule} {type : String}

/-- **An operator whose rule gives the same again**: what the rule has changed, it leaves as it is. -/
def OpNode.Settled (version : Int) (op : OpNode) : Prop :=
  (op.type = "fill_constant_batch_size_like" → op.BatchSettled) ∧
  (op.type = "slice" ∨ op.type = "strided_slice" → op.RangeSettled version)

theorem latestUpTo_slice (version : Int) :
    latestUpTo [1, 10] version = if 10 ≤ version then 10 else if 1 ≤ version then 1 else -1 := by
  have hsorted : [1, 10].mergeSort (fun a b : Int => a ≤ b) = [1, 10] :=
    mergeSort_of_pairwise (by decide)
  rw [latestUpTo, hsorted]
  rfl

theorem ruleFor_single (rule' : Rule) {v : Int}
    (hrules : Registry.standard.rulesOf (.str type) = some [(v, rule')])
    (h : Registry.standard.ruleFor type version = .ok rule) : rule = rule' := by
  rw [Registry.ruleFor, hrules] at h
  dsimp only at h
  split at h
  · rename_i e he
    rw [← Except.ok.inj h, mem_singleton.1 (mem_of_find?_eq_some he)]
  · cases h

/-- Ranges are attributes before version 10, and constants from then on. -/
theorem ruleFor_slice
    (hrules : Registry.standard.rulesOf (.str type) = some [(1, sliceAttributes), (10, sliceConstants)])
    (h : Registry.standard.ruleFor type version = .ok rule) :
    rule = if 10 ≤ version then sliceConstants else sliceAttributes := by
  rw [Registry.ruleFor, hrules] at h
  simp only [map_cons, map_nil, latestUpTo_slice] at h
  by_cases hten : 10 ≤ version
  · simp only [if_pos hten] at h ⊢
    exact (Except.ok.inj h).symm
  · simp only [if_neg hten] at h ⊢
    by_cases hone : 1 ≤ version
    · simp only [if_pos hone] at h
      exact (Except.ok.inj h).symm
    · simp only [if_neg hone] at h
      cases h

theorem revisits_slice (op : OpNode) [op.Plain]
    (hrules : Registry.standard.rulesOf (.str type) = some [(1, sliceAttributes), (10, sliceConstants)])
    (h : Registry.standard.ruleFor type version = .ok rule) : Revisits (op.RangeSettled version) rule op := by
  obtain rfl := ruleFor_slice hrules h
  by_cases hten : 10 ≤ version
  · rw [if_pos hten]
    refine (revisits_sliceConstants op).congr ⟨?_, fun ⟨htable, hstarts⟩ => ?_⟩
    · exact fun ⟨hends, hstarts, hsteps⟩ => ⟨fun _ => ⟨hends, fun _ => hsteps⟩, fun _ => hstarts⟩
    · by_cases hdict : ∃ fields, op.attr "ends" = .dict fields
      · exact ⟨(htable hdict).1, hstarts hten, (htable hdict).2 hten⟩
      · rw [not_exists] at hdict
        exact ⟨OpNode.endsSettled hdict, hstarts hten, OpNode.stepsSettled hdict⟩
  · rw [if_neg hten]
    refine (revisits_sliceAttributes op).congr ⟨?_, fun ⟨htable, _⟩ => ?_⟩
    · exact fun hends => ⟨fun _ => ⟨hends, fun h => absurd h hten⟩, fun h => absurd h hten⟩
    · by_cases hdict : ∃ fields, op.attr "ends" = .dict fields
      · exact (htable hdict).1
      · exact OpNode.endsSettled (not_exists.1 hdict)

/-- **A rule of the catalogue** gives the same again if and only if its operator has settled. -/
theorem revisits_of_ruleFor {op : OpNode} [op.Plain] (h : Registry.standard.ruleFor op.type version = .ok rule) :
    Revisits (op.Settled version) rule op := by
  by_cases hedits : op.type ∈ editingTypes
  · have htypes := hedits
    simp only [editingTypes, mem_cons, not_mem_nil, or_false] at htypes
    unfold OpNode.Settled
    rcases htypes with htype | htype | htype | htype | htype <;> rw [htype] at h ⊢
    · obtain rfl := ruleFor_single pool rfl h
      exact (revisits_pool op).congr (by simp)
    · obtain rfl := ruleFor_single Rules.expand rfl h
      exact (revisits_expand op).congr (by simp)
    · exact (revisits_slice op rfl h).congr (by simp)
    · exact (revisits_slice op rfl h).congr (by simp)
    · obtain rfl := ruleFor_single fillBatchLike rfl h
      exact (revisits_fillBatchLike op).congr (by simp)
  · refine (Revisits.of_twin ((maps_of_ruleFor h).again hedits op rfl)).congr ?_
    simp only [editingTypes, mem_cons, not_mem_nil, or_false, not_or] at hedits
    simp [OpNode.Settled, hedits]

end ModelExport
