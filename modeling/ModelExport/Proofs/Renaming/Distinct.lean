import ModelExport.Proofs.Renaming.FinalWrites

/-!
# Proofs/Renaming/Distinct — renaming makes outputs distinct

A mapped graph may write a tensor twice, the second time by a node that reads it (`RewritesOnce`).
Exactly one of the two writes is renamed, and new names differ from each other by their numbers; so
after renaming no two outputs have the same name (`nodup_outputs_pass`), as long as no tensor bears a
name that is handed out.
-/

namespace ModelExport

open List

variable {i j : Nat} {m n : Node} {x : String}

/-- **Tensors are written once, or once more by a node that reads them.** -/
structure RewritesOnce (ns : List Node) : Prop where
  distinct : ∀ n ∈ ns, n.outputs.Nodup
  reread : ∀ {i j : Nat} {n m : Node} {x : String}, i < j → ns[i]? = some n → ns[j]? = some m →
    n.Writes x → m.Writes x → m.Reads x
  twice : ∀ {i j k : Nat} {n m l : Node} {x : String}, i < j → j < k → ns[i]? = some n →
    ns[j]? = some m → ns[k]? = some l → n.Writes x → m.Writes x → ¬ l.Writes x

namespace Renamer

/-- A name that is handed out from one state to another. -/
def HandsOut (s t : Renamer) (y : String) : Prop :=
  ∃ x k, y = successor x k ∧ s.count x < k ∧ k ≤ t.count x

/-- What a node writes in the place of a tensor. -/
def handed (s : Renamer) (n : Node) : Value → Value
  | .str x => .str (if s.Repeats n x then s.fresh x else x)
  | v => v

variable {s : Renamer} {ns : List Node} (hok : (s.pass ns).2.failed = false)

include hok

theorem outputs_pass_eq_map {n' : Node} (hn : ns[i]? = some n) (hn' : (s.pass ns).1[i]? = some n')
    (hnodup : n.outputs.Nodup) : n'.outputs = n.outputs.map (handed (s.upTo ns i) n) := by
  rw [getElem?_pass, hn] at hn'
  obtain rfl := Option.some.inj hn'
  rw [outputs_node (failed_at hok hn)]
  refine relabel_eq_map _ _ n.outputs hnodup (fun x hx => ?_) fun v _ hv => ?_
  · by_cases hin : .str x ∈ n.inputs.map (s.upTo ns i).current
    · rw [handed, if_pos ⟨hin, hx⟩, if_pos hin]
      rfl
    · rw [handed, if_neg fun hrep => hin hrep.1, if_neg hin]
      rfl
  · cases v <;> first | rfl | exact absurd rfl (hv _)

theorem fresh_inj {y : String} (hn : ns[i]? = some n) (hm : ns[j]? = some m) (hx : (s.upTo ns i).Repeats n x)
    (hy : (s.upTo ns j).Repeats m y) (h : (s.upTo ns i).fresh x = (s.upTo ns j).fresh y) : x = y ∧ i = j := by
  obtain ⟨rfl, hcount⟩ := successor_inj.1 h
  have hlt : ∀ {i j : Nat} {n : Node}, ns[i]? = some n → (s.upTo ns i).Repeats n x → i < j →
      (s.upTo ns i).count x < (s.upTo ns j).count x := by
    intro i j n hn hrep hij
    have hnext := count_upTo_mono hok (Nat.succ_le_of_lt hij) x
    rwa [upTo_succ hn, count_node (failed_at hok hn), if_pos hrep] at hnext
  refine ⟨rfl, ?_⟩
  rcases Nat.lt_trichotomy i j with hij | hij | hij
  · have := hlt hn hx hij
    omega
  · exact hij
  · have := hlt hm hy hij
    omega

variable (hnew : ∀ n ∈ ns, ∀ x, n.Writes x → ¬ s.HandsOut (s.pass ns).2 x)

include hnew

/-- **Two outputs have the same name** only if both are the same tensor, and that has its own name at
both places. -/
theorem handed_eq {y : String} (hn : ns[i]? = some n) (hm : ns[j]? = some m) (hx : n.Writes x) (hy : m.Writes y)
    (h : handed (s.upTo ns i) n (.str x) = handed (s.upTo ns j) m (.str y)) :
    x = y ∧ (i = j ∨ ¬ (s.upTo ns i).Repeats n x ∧ ¬ (s.upTo ns j).Repeats m x) := by
  have hout : ∀ {i : Nat} {n : Node} {x : String}, ns[i]? = some n → (s.upTo ns i).Repeats n x →
      s.HandsOut (s.pass ns).2 ((s.upTo ns i).fresh x) :=
    fun hn hrep => ⟨_, _, rfl, fresh_bounds hok hn hrep⟩
  have hstr := Value.str.inj h
  by_cases hrx : (s.upTo ns i).Repeats n x <;> by_cases hry : (s.upTo ns j).Repeats m y
  · rw [if_pos hrx, if_pos hry] at hstr
    obtain ⟨hxy, hij⟩ := fresh_inj hok hn hm hrx hry hstr
    exact ⟨hxy, Or.inl hij⟩
  · rw [if_pos hrx, if_neg hry] at hstr
    exact absurd (hstr ▸ hout hn hrx) (hnew m (mem_of_getElem? hm) y hy)
  · rw [if_neg hrx, if_pos hry] at hstr
    exact absurd (hstr ▸ hout hm hry) (hnew n (mem_of_getElem? hn) x hx)
  · rw [if_neg hrx, if_neg hry] at hstr
    subst hstr
    exact ⟨rfl, Or.inr ⟨hrx, hry⟩⟩

variable (hs : s.names = []) (honce : RewritesOnce ns)

include hs honce

/-- **Of two nodes that write a tensor one is renamed.** -/
theorem repeats_of_two_writers (hij : i < j) (hn : ns[i]? = some n) (hm : ns[j]? = some m) (hnx : n.Writes x)
    (hmx : m.Writes x) : (s.upTo ns i).Repeats n x ∨ (s.upTo ns j).Repeats m x := by
  have hx : ∀ (l : Nat) (z : String), (s.upTo ns l).name? z ≠ some x := fun l z hz => by
    obtain ⟨-, k, hk, hbounds⟩ := origin_upTo hok hs l hz
    exact hnew n (mem_of_getElem? hn) x hnx ⟨z, k, hk, hbounds⟩
  have hin : m.InPlace x := ⟨honce.reread hij hn hm hnx hmx, hmx⟩
  rw [repeats_upTo_iff hok hs hx, repeats_upTo_iff hok hs hx]
  by_cases hni : n.InPlace x
  · -- nobody in front of two writers writes the tensor
    exact Or.inl ⟨hni, fun l k hli hk hkx => honce.twice hli hij hk hn hm hkx.2 hnx hmx⟩
  · refine Or.inr ⟨hin, fun l k hlj hk hkx => ?_⟩
    rcases Nat.lt_trichotomy l i with hli | rfl | hil
    · exact honce.twice hli hij hk hn hm hkx.2 hnx hmx
    · exact hni (Option.some.inj (hn.symm.trans hk) ▸ hkx)
    · exact honce.twice hil hlj hn hk hm hnx hkx.2 hmx

omit hnew hs in
theorem mem_outputs_pass (htext : ∀ n ∈ ns, ∀ v ∈ n.outputs, ∃ x, v = .str x) {n' : Node}
    (hn' : (s.pass ns).1[i]? = some n') {v : Value} (hv : v ∈ n'.outputs) :
    ∃ n x, ns[i]? = some n ∧ n.Writes x ∧ v = handed (s.upTo ns i) n (.str x) := by
  obtain ⟨n, hn, -⟩ := Option.map_eq_some_iff.1 ((getElem?_pass s ns i).symm.trans hn')
  have hmem := mem_of_getElem? hn
  rw [outputs_pass_eq_map hok hn hn' (honce.distinct n hmem)] at hv
  obtain ⟨w, hw, rfl⟩ := mem_map.1 hv
  obtain ⟨x, rfl⟩ := htext n hmem w hw
  exact ⟨n, x, hn, hw, rfl⟩

omit hnew hs in
/-- **What is written after renaming** was written before, or is handed out. -/
theorem source_of_output (htext : ∀ n ∈ ns, ∀ v ∈ n.outputs, ∃ x, v = .str x) {v : Value}
    (hv : v ∈ (s.pass ns).1.flatMap Node.outputs) :
    ∃ y, v = .str y ∧ ((∃ n ∈ ns, n.Writes y) ∨ s.HandsOut (s.pass ns).2 y) := by
  obtain ⟨n', hn', hv⟩ := mem_flatMap.1 hv
  obtain ⟨i, hi⟩ := mem_iff_getElem?.1 hn'
  obtain ⟨n, x, hn, hx, rfl⟩ := mem_outputs_pass hok honce htext hi hv
  refine ⟨_, rfl, ?_⟩
  split
  · exact Or.inr ⟨_, _, rfl, fresh_bounds hok hn ‹_›⟩
  · exact Or.inl ⟨n, mem_of_getElem? hn, hx⟩

/-- **After renaming all outputs are distinct.** -/
theorem nodup_outputs_pass (htext : ∀ n ∈ ns, ∀ v ∈ n.outputs, ∃ x, v = .str x) :
    ((s.pass ns).1.flatMap Node.outputs).Nodup := by
  refine nodup_flatMap.2 ⟨fun n' hn' => ?_, pairwise_iff_getElem.2 fun i j hi hj hij => ?_⟩
  · obtain ⟨i, hi⟩ := mem_iff_getElem?.1 hn'
    obtain ⟨n, hn, -⟩ := Option.map_eq_some_iff.1 ((getElem?_pass s ns i).symm.trans hi)
    have hmem := mem_of_getElem? hn
    rw [outputs_pass_eq_map hok hn hi (honce.distinct n hmem)]
    refine (honce.distinct n hmem).map_on fun v hv w hw h => ?_
    obtain ⟨x, rfl⟩ := htext n hmem v hv
    obtain ⟨y, rfl⟩ := htext n hmem w hw
    rw [(handed_eq hok hnew hn hn hv hw h).1]
  · intro v hv hw
    obtain ⟨n, x, hn, hx, rfl⟩ := mem_outputs_pass hok honce htext (getElem?_eq_getElem hi) hv
    obtain ⟨m, y, hm, hy, h⟩ := mem_outputs_pass hok honce htext (getElem?_eq_getElem hj) hw
    obtain ⟨rfl, hown⟩ := handed_eq hok hnew hn hm hx hy h
    obtain ⟨hni, hmj⟩ := hown.resolve_left hij.ne
    exact (repeats_of_two_writers hok hnew hs honce hij hn hm hx hy).elim hni hmj

end Renamer

end ModelExport
